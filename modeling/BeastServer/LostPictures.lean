import BeastServer.SequentialCalls

/-!
Which pictures a call of addPicture removes from the cache.
A call removes the expired pictures, replaces a face by a newer one and erases
the object it publishes. It erases more than that when it completes a group and
the walk over the faces meets another object afterwards: the vector of views is
shared, so that object is erased as well, complete or not.
-/
namespace BeastServer.LostPictures

open PostedPictures PictureCaches GroupCompletion CacheSections SequentialCalls Machines

variable {cache : PictureCache} {call : Call} {id : ObjectId}

/-- A view of a picture of this object was given to createPreview in the call. -/
def Published (call : Call) (cache : PictureCache) (id : ObjectId) : Prop :=
  ∃ picture ∈ handed call cache, picture.picture.objectId = id

/-- Cached pictures leave the cache by expiry, by replacement of a face or by
publication of their object; what is not published is left as it is. -/
structure NothingLost (call : Call) (cache : PictureCache) : Prop where
  face : ∀ id picture, cache.faceCaches id = some picture →
    (afterCall call cache).faceCaches id = some picture ∨
      isExpired call.now picture = true ∨
      (call.picture.picture.objectType = .face ∧ call.objectId = id) ∨
      Published call cache id
  body : ∀ id lines i picture, cache.bodyCaches id = some lines → picture ∈ lines i →
    (∃ lines', (afterCall call cache).bodyCaches id = some lines' ∧ picture ∈ lines' i) ∨
      isExpired call.now picture = true ∨ Published call cache id
  others : ∀ id, ¬ Published call cache id →
    (afterCall call cache).faceCaches id = (beforeProcess call cache).faceCaches id ∧
      (afterCall call cache).bodyCaches id = (beforeProcess call cache).bodyCaches id

/-- If the call completes the group of its object, process visits that object
last among the objects with a face and an entry of body pictures. -/
def CompletedLast (call : Call) (cache : PictureCache) : Prop :=
  Complete (beforeProcess call cache) call.objectId →
    ∀ pre post, candidates (beforeProcess call cache) call.order = pre ++ call.objectId :: post →
      post = []

theorem face_beforeProcess {picture : PostPictureWrapper}
    (h : cache.faceCaches id = some picture) (hfresh : isExpired call.now picture = false)
    (hkept : ¬ (call.picture.picture.objectType = .face ∧ call.objectId = id)) :
    (beforeProcess call cache).faceCaches id = some picture := by
  rw [beforeProcess_eq, inserted_face, if_neg]
  · exact cleanup_face.mpr ⟨h, hfresh⟩
  · intro ⟨htype, hid⟩
    exact hkept ⟨htype, hid.symm⟩

theorem body_beforeProcess {lines : BodyPictureCacheLine} {i : Fin cacheLines}
    {picture : PostPictureWrapper} (h : cache.bodyCaches id = some lines)
    (hmem : picture ∈ lines i) (hfresh : isExpired call.now picture = false) :
    ∃ lines', (beforeProcess call cache).bodyCaches id = some lines' ∧ picture ∈ lines' i := by
  have hkept : picture ∈ removePictureExpiredInLines call.now lines i :=
    mem_removePictureExpired.mpr ⟨hmem, hfresh⟩
  have hclean : (cleanup call.now cache).bodyCaches id =
      some (removePictureExpiredInLines call.now lines) :=
    cleanup_body.mpr ⟨lines, h, rfl, i, List.ne_nil_of_mem hkept⟩
  rw [beforeProcess_eq, inserted_body]
  by_cases hown : call.picture.picture.objectType = .body ∧ id = call.picture.picture.objectId
  · rw [if_pos hown, linesOf_of_some hclean]
    exact ⟨_, rfl, mem_addToLine.mpr (Or.inl hkept)⟩
  · rw [if_neg hown]
    exact ⟨_, hclean, hkept⟩

theorem published_iff (hbetween : Between cache)
    (horder : IterationOrder (beforeProcess call cache) call.order) :
    Published call cache id ↔ id = call.objectId ∧ Complete (beforeProcess call cache) id := by
  unfold Published
  by_cases h : Accepted call.picture
  · rw [handed_accepted h horder,
      exists_mem_handedOver (keyed_beforeProcess hbetween.keyed) call.order]
    constructor
    · intro ⟨_, hcomplete⟩
      exact ⟨(complete_beforeProcess hbetween.quiet hcomplete).1, hcomplete⟩
    · intro ⟨_, hcomplete⟩
      exact ⟨complete_mem_candidates call.order horder hcomplete, hcomplete⟩
  · rw [handed_refused h]
    constructor
    · intro ⟨picture, hmem, _⟩
      simp at hmem
    · intro ⟨_, hcomplete⟩
      exact absurd (complete_beforeProcess hbetween.quiet hcomplete).2 h

/-- Under the condition only the published object is erased. -/
theorem unpublished_unchanged (hbetween : Between cache)
    (horder : IterationOrder (beforeProcess call cache) call.order)
    (hlast : CompletedLast call cache) (hid : ¬ Published call cache id) :
    (afterCall call cache).faceCaches id = (beforeProcess call cache).faceCaches id ∧
      (afterCall call cache).bodyCaches id = (beforeProcess call cache).bodyCaches id := by
  by_cases h : Accepted call.picture
  · have hnot : id ∉ erased (beforeProcess call cache) call.order := by
      intro hmem
      obtain ⟨pre, j, post, heq, hcomplete, hor⟩ := (mem_erased call.order).mp hmem
      have hj : j = call.objectId := (complete_beforeProcess hbetween.quiet hcomplete).1
      subst hj
      have hpost : post = [] := hlast hcomplete pre post heq
      rcases hor with rfl | hin
      · exact hid ((published_iff hbetween horder).mpr ⟨rfl, hcomplete⟩)
      · simp [hpost] at hin
    rw [afterCall_accepted h horder]
    simp [eraseAll, hnot]
  · rw [afterCall_refused h]
    exact ⟨rfl, rfl⟩

theorem nothingLost_of_completedLast (hbetween : Between cache)
    (horder : IterationOrder (beforeProcess call cache) call.order)
    (hlast : CompletedLast call cache) : NothingLost call cache where
  face id picture hface := by
    by_cases hpublished : Published call cache id
    · exact Or.inr (Or.inr (Or.inr hpublished))
    · cases hexpired : isExpired call.now picture with
      | true => exact Or.inr (Or.inl rfl)
      | false =>
        by_cases hreplaced : call.picture.picture.objectType = .face ∧ call.objectId = id
        · exact Or.inr (Or.inr (Or.inl hreplaced))
        · refine Or.inl ?_
          rw [(unpublished_unchanged hbetween horder hlast hpublished).1]
          exact face_beforeProcess hface hexpired hreplaced
  body id lines i picture hbody hmem := by
    by_cases hpublished : Published call cache id
    · exact Or.inr (Or.inr hpublished)
    · cases hexpired : isExpired call.now picture with
      | true => exact Or.inr (Or.inl rfl)
      | false =>
        refine Or.inl ?_
        rw [(unpublished_unchanged hbetween horder hlast hpublished).2]
        exact body_beforeProcess hbody hmem hexpired
  others id hid := unpublished_unchanged hbetween horder hlast hid

theorem completedLast_of_nothingLost (hbetween : Between cache)
    (horder : IterationOrder (beforeProcess call cache) call.order)
    (hkept : NothingLost call cache) : CompletedLast call cache := by
  intro hcomplete pre post heq
  cases post with
  | nil => rfl
  | cons other rest =>
    exfalso
    have haccepted := (complete_beforeProcess hbetween.quiet hcomplete).2
    have hmem : other ∈ candidates (beforeProcess call cache) call.order := by
      rw [heq]
      simp
    have hne : other ≠ call.objectId := by
      intro heq
      subst heq
      have hnodup : (candidates (beforeProcess call cache) call.order).Nodup :=
        horder.nodup.filter _
      rw [heq] at hnodup
      simp [List.nodup_append] at hnodup
    have hunpublished : ¬ Published call cache other := by
      intro h
      exact hne ((published_iff hbetween horder).mp h).1
    have herased : other ∈ erased (beforeProcess call cache) call.order :=
      (mem_erased call.order).mpr
        ⟨pre, call.objectId, other :: rest, heq, hcomplete, Or.inr List.mem_cons_self⟩
    have hgone : (afterCall call cache).faceCaches other = none := by
      rw [afterCall_accepted haccepted horder]
      simp [eraseAll, herased]
    have hface := ((mem_candidates call.order horder).mp hmem).1
    rw [← (hkept.others other hunpublished).1, hgone] at hface
    simp at hface

section Sample

/-- Object 2 has a face and one body picture when object 1 becomes complete; the
last call walks over the two faces in the given order. -/
def twoObjects (order : List ObjectId) : List Call :=
  [sampleCall [2] 2 .face 0 0, sampleCall [2] 2 .body 0 1, sampleCall [1, 2] 1 .face 0 2,
    sampleCall [1, 2] 1 .body 1 3, sampleCall [1, 2] 1 .body 2 4, sampleCall [1, 2] 1 .body 3 5,
    sampleCall [1, 2] 1 .body 0 6, sampleCall [1, 2] 1 .body 0 7, sampleCall [1, 2] 1 .body 0 8,
    sampleCall [1, 2] 1 .body 0 9, sampleCall [1, 2] 1 .body 0 10, sampleCall order 1 .body 0 11]

theorem twoObjects_admissible_first : calls.Admissible (twoObjects [1, 2]) :=
  admissible_of_ordersMatch (twoObjects [1, 2]) (by decide +kernel)

theorem twoObjects_admissible_last : calls.Admissible (twoObjects [2, 1]) :=
  admissible_of_ordersMatch (twoObjects [2, 1]) (by decide +kernel)

end Sample

/-- Over a whole run: nothing is lost at any call if and only if every call
that completes a group visits the completed object last. -/
theorem nothing_lost_iff_completed_last (inputs : List Call) (h : calls.Admissible inputs) :
    Everywhere (fun before call => NothingLost call (calls.run before)) inputs ↔
      Everywhere (fun before call => CompletedLast call (calls.run before)) inputs := by
  refine between_inductive.everywhere_congr inputs h ?_
  intro before call hbetween horder
  constructor
  · exact completedLast_of_nothingLost hbetween horder
  · exact nothingLost_of_completedLast hbetween horder

theorem nothing_lost_iff_on_two_objects :
    Everywhere (fun before call => NothingLost call (calls.run before)) (twoObjects [2, 1]) ↔
      Everywhere (fun before call => CompletedLast call (calls.run before)) (twoObjects [2, 1]) :=
  nothing_lost_iff_completed_last (twoObjects [2, 1]) twoObjects_admissible_last

/-- The face of object 2 is gone after the last call: it had not expired, was
not replaced, and the preview shows object 1 only. -/
theorem face_lost_with_two_objects :
    calls.Admissible (twoObjects [1, 2]) ∧
      ¬ Everywhere (fun before call => NothingLost call (calls.run before))
        (twoObjects [1, 2]) := by
  refine ⟨twoObjects_admissible_first, ?_⟩
  intro h
  let before := (twoObjects [1, 2]).take 11
  let last := sampleCall [1, 2] 1 .body 0 11
  have hlast : NothingLost last (calls.run before) := h before last [] rfl
  have hface : (calls.run before).faceCaches 2 = some (samplePicture 2 .face 0 0) := by
    decide +kernel
  have hunpublished : ¬ Published last (calls.run before) 2 := by
    unfold Published
    decide +kernel
  rcases hlast.face 2 _ hface with hkept | hexpired | ⟨htype, -⟩ | hpublished
  · have hgone : (afterCall last (calls.run before)).faceCaches 2 = none := by decide +kernel
    simp [hgone] at hkept
  · exact absurd hexpired (by decide)
  · exact absurd htype (by decide)
  · exact hunpublished hpublished

end BeastServer.LostPictures
