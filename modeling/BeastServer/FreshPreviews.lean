import BeastServer.EraseLoops
import BeastServer.SequentialCalls

/-!
The age of the pictures in a preview.
The loops of cleanup walk over the two maps in any order and erase in place;
what they leave is the cache without its expired pictures, the lines in their
old order. So all the pictures that a call hands over have passed its cleanup,
except the one it has just added.
-/
namespace BeastServer.FreshPreviews

open PostedPictures Exceptions Programs PictureCaches GroupCompletion CacheSections Machines
open SequentialCalls EraseLoops

/-- The picture was young enough at the clock reading. -/
def Fresh (now : ℤ) (picture : PostPictureWrapper) : Prop := now - picture.timestamp ≤ timeLimit

instance (now : ℤ) (picture : PostPictureWrapper) : Decidable (Fresh now picture) :=
  inferInstanceAs (Decidable (_ ≤ _))

theorem isExpired_eq_false {now : ℤ} {picture : PostPictureWrapper} :
    isExpired now picture = false ↔ Fresh now picture := by
  simp [isExpired, Fresh]

section Loops

/-- The entries of bodyCaches and of faceCaches in the orders of their iterators. -/
structure Entries where
  bodies : List (ObjectId × BodyPictureCacheLine)
  faces : List (ObjectId × PostPictureWrapper)

structure Entries.Of (entries : Entries) (cache : PictureCache) : Prop where
  bodies : Enumerates entries.bodies cache.bodyCaches
  faces : Enumerates entries.faces cache.faceCaches

/-- The lambda removePictures of cleanup: its three loops one after the other. -/
def removePictures (now : ℤ) (entries : Entries) : Entries where
  bodies :=
    eraseLoop allLinesEmpty []
      (entries.bodies.map (fun pair =>
        (pair.1, fun i => eraseRemoved (isExpired now) (pair.2 i))))
  faces := eraseLoop (isExpired now) [] entries.faces

variable {cache : PictureCache} {entries : Entries} {now : ℤ}

/-- Whatever the order of the maps, the loops do what cleanup is said to do. -/
theorem removePictures_of (h : entries.Of cache) :
    (removePictures now entries).Of (cleanup now cache) where
  bodies := by
    have hlines : ∀ lines : BodyPictureCacheLine,
        (fun i => eraseRemoved (isExpired now) (lines i)) =
          removePictureExpiredInLines now lines := by
      intro lines
      funext i
      exact eraseRemoved_eq (isExpired now) (lines i)
    have hmapped := enumerates_map h.bodies (removePictureExpiredInLines now)
    have hfiltered := enumerates_filter hmapped (fun lines => !allLinesEmpty lines)
    simp only [removePictures, eraseLoop_eq, List.nil_append, hlines]
    exact hfiltered
  faces := by
    have hfiltered := enumerates_filter h.faces (fun picture => !isExpired now picture)
    simp only [removePictures, eraseLoop_eq, List.nil_append]
    exact hfiltered

end Loops

section Cleanup

/-- What cleanup leaves: the faces and the lines without what has expired. -/
structure OnlyExpiredRemoved (now : ℤ) (before after : PictureCache) : Prop where
  face : ∀ id picture, after.faceCaches id = some picture ↔
    before.faceCaches id = some picture ∧ Fresh now picture
  line : ∀ id i,
    linesOf after id i = (linesOf before id i).filter (fun picture => Fresh now picture)

variable {cache : PictureCache} {call : Call} {id : ObjectId}

theorem linesOf_cleanup (now : ℤ) (cache : PictureCache) (id : ObjectId) (i : Fin cacheLines) :
    linesOf (cleanup now cache) id i =
      (linesOf cache id i).filter (fun picture => Fresh now picture) := by
  have hfilter : ∀ line, removePictureExpired now line =
      line.filter (fun picture => Fresh now picture) := by
    intro line
    apply List.filter_congr
    intro picture _
    rw [Bool.eq_iff_iff, Bool.not_eq_true', isExpired_eq_false, decide_eq_true_iff]
  cases hbody : cache.bodyCaches id with
  | none => simp [linesOf, cleanup, hbody]
  | some lines =>
    rw [linesOf_of_some hbody, ← hfilter]
    by_cases hsome : ∃ i, removePictureExpiredInLines now lines i ≠ []
    · have hentry := cleanup_body.mpr ⟨lines, hbody, rfl, hsome⟩
      rw [linesOf_of_some hentry, removePictureExpiredInLines]
    · -- an object whose pictures have all expired loses its entry
      have hnone : (cleanup now cache).bodyCaches id = none := by
        rw [Option.eq_none_iff_forall_ne_some]
        intro after hafter
        obtain ⟨before, hbefore, rfl, hleft⟩ := cleanup_body.mp hafter
        obtain rfl := Option.some.inj (hbody.symm.trans hbefore)
        exact hsome hleft
      have hempty : removePictureExpired now (lines i) = [] := by
        by_contra hne
        exact hsome ⟨i, hne⟩
      rw [hempty, linesOf, hnone, Option.getD_none]

theorem onlyExpiredRemoved_cleanup (now : ℤ) (cache : PictureCache) :
    OnlyExpiredRemoved now cache (cleanup now cache) where
  face id picture := by rw [cleanup_face, isExpired_eq_false]
  line := linesOf_cleanup now cache

/-- The pictures that the insertion finds are fresh. -/
theorem fresh_of_mem_objectViews {picture : PostPictureWrapper}
    (h : picture ∈ objectViews (beforeProcess call cache) id) (hother : picture ≠ call.picture) :
    Fresh call.now picture := by
  rw [beforeProcess_eq] at h
  rcases mem_objectViews h with hface | ⟨lines, i, hbody, hmem⟩
  · rw [inserted_face] at hface
    split at hface
    · exact absurd (Option.some.inj hface).symm hother
    · exact isExpired_eq_false.mp (cleanup_face.mp hface).2
  · rw [inserted_body] at hbody
    split at hbody
    · obtain rfl := Option.some.inj hbody
      rcases mem_addToLine.mp hmem with hold | ⟨hsame, -⟩
      · rw [linesOf_cleanup] at hold
        simpa using (List.mem_filter.mp hold).2
      · exact absurd hsame hother
    · have hold : picture ∈ linesOf (cleanup call.now cache) id i := by
        rw [linesOf_of_some hbody]
        exact hmem
      rw [linesOf_cleanup] at hold
      simpa using (List.mem_filter.mp hold).2

end Cleanup

/-- What a call after the calls before it does to old pictures: it hands over
none but the one it has added, and the loops of cleanup remove them and nothing
else, and keep the order of arrival. -/
structure HandsOverFresh (before : List Call) (call : Call) : Prop where
  handed : ∀ picture ∈ handed call (calls.run before), picture ≠ call.picture →
    Fresh call.now picture
  loops : ∀ entries : Entries, entries.Of (calls.run before) →
    (removePictures call.now entries).Of (cleanup call.now (calls.run before))
  cleaned : OnlyExpiredRemoved call.now (calls.run before) (cleanup call.now (calls.run before))
  order : ∀ id i, (linesOf (cleanup call.now (calls.run before)) id i).Sublist
    (bodyArrivals before id i)

theorem published_pictures_fresh (inputs : List Call) (h : calls.Admissible inputs) :
    Everywhere HandsOverFresh inputs := by
  refine (between_inductive.and arrived_inductive).everywhere inputs h ?_
  intro before call ⟨hbetween, harrived⟩ horder
  constructor
  · intro picture hpicture hother
    rw [handed_eq hbetween.quiet horder] at hpicture
    exact fresh_of_mem_objectViews hpicture hother
  · intro entries hentries
    exact removePictures_of hentries
  · exact onlyExpiredRemoved_cleanup _ _
  · intro id i
    exact linesOf_sublist (arrived_cleanup call.now harrived) i

section Sample

/-- A call of a later group of the same object. -/
def laterCall (type : PictureObjectType) (camera : UInt32) (post : ℕ) : Call where
  picture := { samplePicture 1 type camera post with timestamp := 20 }
  now := 20
  order := [1]

/-- A face and a body picture have expired when a group of the object is posted. -/
def expiring : List Call :=
  [sampleCall [1] 1 .face 0 0, sampleCall [1] 1 .body 0 1, laterCall .face 0 2,
    laterCall .body 1 3, laterCall .body 2 4, laterCall .body 3 5, laterCall .body 0 6,
    laterCall .body 0 7, laterCall .body 0 8, laterCall .body 0 9, laterCall .body 0 10]

/-- The last picture of the group. -/
def completing : Call := laterCall .body 0 11

end Sample

/-- The preview of the group has none of the pictures that have expired. -/
theorem published_pictures_fresh_expiring : Everywhere HandsOverFresh (expiring ++ [completing]) ∧
    (handed completing (calls.run expiring)).map PostPictureWrapper.post =
      [2, 6, 3, 4, 5, 6, 7, 8, 9, 10, 11] := by
  have hadmissible : calls.Admissible (expiring ++ [completing]) :=
    admissible_of_ordersMatch _ (by decide +kernel)
  exact ⟨published_pictures_fresh _ hadmissible, by decide +kernel⟩

end BeastServer.FreshPreviews
