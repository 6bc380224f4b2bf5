import BeastServer.PictureCaches
import Mathlib.Data.List.TakeWhile

/-!
What one call of process does, in closed form.
On an enumeration of the faces no lookup throws. The views of every complete
candidate are handed over together, and every candidate from the first complete
one on is erased, complete or not, because the vector of views is shared.
-/
namespace BeastServer.GroupCompletion

open PostedPictures Exceptions Programs PictureCaches

/-- The first picture of each line. -/
def oldest (lines : BodyPictureCacheLine) : Pvs :=
  [lines 0, lines 1, lines 2, lines 3].flatMap (List.take 1)

def lineViews (face : PostPictureWrapper) (lines : BodyPictureCacheLine)
    (line : List PostPictureWrapper) : Pvs :=
  if 6 ≤ line.length then face :: oldest lines ++ line.take 6 else []

def views (face : PostPictureWrapper) (lines : BodyPictureCacheLine) : Pvs :=
  if hasEmpty lines then []
  else [lines 0, lines 1, lines 2, lines 3].flatMap (lineViews face lines)

def objectViews (cache : PictureCache) (id : ObjectId) : Pvs :=
  match cache.faceCaches id, cache.bodyCaches id with
  | some face, some lines => views face lines
  | _, _ => []

variable {cache : PictureCache} {id : ObjectId} {face : PostPictureWrapper}
  {lines : BodyPictureCacheLine}

theorem faceAt_run (h : cache.faceCaches id = some face) :
    (faceAt id).run cache = .ok face cache := by
  unfold faceAt
  rw [bind_ok (EStateM.run_get cache)]
  simp [h]

theorem bodyAt_run (h : cache.bodyCaches id = some lines) :
    (bodyAt id).run cache = .ok lines cache := by
  unfold bodyAt
  rw [bind_ok (EStateM.run_get cache)]
  simp [h]

theorem pictureAt_run {pictures : List PostPictureWrapper} {n : ℕ} (h : n < pictures.length) :
    (pictureAt pictures n).run cache = .ok pictures[n] cache := by
  unfold pictureAt
  simp [List.getElem?_eq_getElem h]

theorem ne_nil_of_not_hasEmpty (h : hasEmpty lines = false) (i : Fin cacheLines) :
    0 < (lines i).length := by
  have hne : lines i ≠ [] := by
    intro hi
    have : hasEmpty lines = true := decide_eq_true ⟨i, hi⟩
    simp [this] at h
  exact List.length_pos_iff.mpr hne

theorem take_one {pictures : List PostPictureWrapper} (h : 0 < pictures.length) :
    pictures.take 1 = [pictures[0]] := by
  cases pictures with
  | nil => simp at h
  | cons p rest => rfl

theorem take_six {pictures : List PostPictureWrapper} (h : 6 ≤ pictures.length) :
    pictures.take 6 =
      [pictures[0], pictures[1], pictures[2], pictures[3], pictures[4], pictures[5]] := by
  match pictures, h with
  | _ :: _ :: _ :: _ :: _ :: _ :: _, _ => rfl

theorem postLine_run (hface : cache.faceCaches id = some face)
    (hbody : cache.bodyCaches id = some lines) (hfull : hasEmpty lines = false)
    (pvs : Pvs) (line : List PostPictureWrapper) :
    (postLine id pvs line).run cache = .ok (pvs ++ lineViews face lines line) cache := by
  unfold postLine lineViews
  by_cases hlong : 6 ≤ line.length
  · have hhead := ne_nil_of_not_hasEmpty hfull
    rw [if_pos hlong, if_pos hlong, bind_ok (faceAt_run hface)]
    rw [bind_ok (bodyAt_run hbody), bind_ok (pictureAt_run (hhead 0)),
      bind_ok (bodyAt_run hbody), bind_ok (pictureAt_run (hhead 1)),
      bind_ok (bodyAt_run hbody), bind_ok (pictureAt_run (hhead 2)),
      bind_ok (bodyAt_run hbody), bind_ok (pictureAt_run (hhead 3)),
      bind_ok (pictureAt_run (by omega)), bind_ok (pictureAt_run (by omega)),
      bind_ok (pictureAt_run (by omega)), bind_ok (pictureAt_run (by omega)),
      bind_ok (pictureAt_run (by omega)), bind_ok (pictureAt_run (by omega))]
    simp [oldest, take_one (hhead 0), take_one (hhead 1), take_one (hhead 2),
      take_one (hhead 3), take_six hlong]
  · rw [if_neg hlong, if_neg hlong]
    simp


theorem postLines_run (hface : cache.faceCaches id = some face)
    (hbody : cache.bodyCaches id = some lines) (pvs : Pvs) :
    (postLines id lines pvs).run cache = .ok (pvs ++ views face lines) cache := by
  unfold postLines views
  by_cases hfull : hasEmpty lines = true
  · simp [hfull]
  · have hfull' : hasEmpty lines = false := by simpa using hfull
    have hline := fun pvs line => postLine_run hface hbody hfull' pvs line
    rw [if_neg hfull, if_neg hfull, foldlM_cons_ok (hline _ _), foldlM_cons_ok (hline _ _),
      foldlM_cons_ok (hline _ _), foldlM_cons_ok (hline _ _)]
    simp

/-- One object: its views are appended, and it is erased unless the shared
vector is still empty afterwards. -/
theorem tryPostWithObject_run (hface : cache.faceCaches id = some face)
    (hbody : cache.bodyCaches id = some lines) (pvs : Pvs) :
    (tryPostWithObject id pvs).run cache =
      .ok (pvs ++ views face lines)
        (if pvs ++ views face lines = [] then cache else erase id cache) := by
  unfold tryPostWithObject
  rw [bind_ok (bodyAt_run hbody), bind_ok (postLines_run hface hbody pvs)]
  by_cases hempty : pvs ++ views face lines = []
  · simp [hempty]
  · have hne : ¬ (pvs ++ views face lines).isEmpty = true := by
      rw [List.isEmpty_iff]
      exact hempty
    rw [if_neg hempty, if_neg hne, bind_ok (EStateM.run_modify _ _)]
    rfl

def eraseAll (ids : List ObjectId) (cache : PictureCache) : PictureCache where
  bodyCaches id := if id ∈ ids then none else cache.bodyCaches id
  faceCaches id := if id ∈ ids then none else cache.faceCaches id

/-- The keys that are in both maps, in iteration order. -/
def candidates (cache : PictureCache) (order : List ObjectId) : List ObjectId :=
  order.filter (fun id => (cache.bodyCaches id).isSome)

def handedOver (cache : PictureCache) (order : List ObjectId) : Pvs :=
  (candidates cache order).flatMap (objectViews cache)

/-- Everything from the first candidate with views on is erased. -/
def erased (cache : PictureCache) (order : List ObjectId) : List ObjectId :=
  (candidates cache order).dropWhile (fun id => (objectViews cache id).isEmpty)

/-- order enumerates the keys of faceCaches, as an iteration over it does. -/
structure IterationOrder (cache : PictureCache) (order : List ObjectId) : Prop where
  nodup : order.Nodup
  mem_iff : ∀ id, id ∈ order ↔ (cache.faceCaches id).isSome

theorem eraseAll_nil (cache : PictureCache) : eraseAll [] cache = cache := by
  simp [eraseAll]

/-- What is left after erasing was there before, under a key that was not erased. -/
theorem face_of_eraseAll {ids : List ObjectId} {picture : PostPictureWrapper}
    (h : (eraseAll ids cache).faceCaches id = some picture) :
    cache.faceCaches id = some picture ∧ id ∉ ids := by
  simp only [eraseAll] at h
  split at h
  · cases h
  · exact ⟨h, ‹_›⟩

theorem body_of_eraseAll {ids : List ObjectId}
    (h : (eraseAll ids cache).bodyCaches id = some lines) :
    cache.bodyCaches id = some lines ∧ id ∉ ids := by
  simp only [eraseAll] at h
  split at h
  · cases h
  · exact ⟨h, ‹_›⟩

theorem eraseAll_erase (id : ObjectId) (ids : List ObjectId) (cache : PictureCache) :
    eraseAll ids (erase id cache) = eraseAll (id :: ids) cache := by
  simp only [eraseAll, erase, PictureCache.mk.injEq]
  constructor <;> funext j <;> by_cases hj : j = id <;> simp [Function.update, hj]

theorem objectViews_eq (hface : cache.faceCaches id = some face)
    (hbody : cache.bodyCaches id = some lines) :
    objectViews cache id = views face lines := by
  simp [objectViews, hface, hbody]

theorem objectViews_erase {id j : ObjectId} (h : j ≠ id) :
    objectViews (erase id cache) j = objectViews cache j := by
  simp [objectViews, erase, Function.update, h]

theorem fold_run (ids : List ObjectId) (hnodup : ids.Nodup) (cache : PictureCache)
    (hboth : ∀ id ∈ ids, (cache.faceCaches id).isSome ∧ (cache.bodyCaches id).isSome)
    (pvs : Pvs) :
    (ids.foldlM (fun pvs id => tryPostWithObject id pvs) pvs).run cache =
      .ok (pvs ++ ids.flatMap (objectViews cache))
        (eraseAll (if pvs = [] then
          ids.dropWhile (fun id => (objectViews cache id).isEmpty) else ids) cache) := by
  induction ids generalizing cache pvs with
  | nil => simp [eraseAll_nil]
  | cons id ids ih =>
    obtain ⟨hid, hids⟩ := List.nodup_cons.mp hnodup
    obtain ⟨hf, hb⟩ := hboth id List.mem_cons_self
    obtain ⟨face, hface⟩ := Option.isSome_iff_exists.mp hf
    obtain ⟨lines, hbody⟩ := Option.isSome_iff_exists.mp hb
    have hviews := objectViews_eq hface hbody
    rw [foldlM_cons_ok (tryPostWithObject_run hface hbody pvs), ← hviews]
    have hother : ∀ j ∈ ids, j ≠ id := fun j hj hji => hid (hji ▸ hj)
    by_cases hempty : pvs ++ objectViews cache id = []
    · obtain ⟨rfl, hnone⟩ := List.append_eq_nil_iff.mp hempty
      rw [if_pos hempty, ih hids cache (fun j hj => hboth j (List.mem_cons_of_mem id hj))]
      simp [hnone]
    · have hsame : ∀ j ∈ ids, objectViews (erase id cache) j = objectViews cache j :=
        fun j hj => objectViews_erase (hother j hj)
      have hboth' : ∀ j ∈ ids, ((erase id cache).faceCaches j).isSome ∧
          ((erase id cache).bodyCaches j).isSome := by
        intro j hj
        simpa [erase, Function.update, hother j hj] using
          hboth j (List.mem_cons_of_mem id hj)
      have hall : (if pvs = [] then
          (id :: ids).dropWhile (fun id => (objectViews cache id).isEmpty) else id :: ids) =
            id :: ids := by
        by_cases hpvs : pvs = []
        · have hne : (objectViews cache id).isEmpty = false := by
            rw [List.isEmpty_eq_false_iff]
            simpa [hpvs] using hempty
          simp [hpvs, hne]
        · rw [if_neg hpvs]
      rw [if_neg hempty, ih hids (erase id cache) hboth', if_neg hempty, eraseAll_erase,
        List.flatMap_congr hsame, hall, List.flatMap_cons, List.append_assoc]

/-- The whole third section: the views of all complete candidates are handed
over, and every candidate from the first complete one on is erased. -/
theorem process_run (order : List ObjectId) (horder : IterationOrder cache order) :
    (process order).run cache =
      .ok (handedOver cache order) (eraseAll (erased cache order) cache) := by
  have hboth : ∀ id ∈ candidates cache order,
      (cache.faceCaches id).isSome ∧ (cache.bodyCaches id).isSome := by
    intro id hid
    obtain ⟨hmem, hbody⟩ := List.mem_filter.mp hid
    exact ⟨(horder.mem_iff id).mp hmem, hbody⟩
  unfold process
  rw [bind_ok (EStateM.run_get _)]
  exact fold_run (candidates cache order) (horder.nodup.filter _) cache hboth []

/-- A group is complete when it has a face, no line is empty and some line has
at least six pictures. -/
def Complete (cache : PictureCache) (id : ObjectId) : Prop :=
  ∃ face lines, cache.faceCaches id = some face ∧ cache.bodyCaches id = some lines ∧
    (∀ i, lines i ≠ []) ∧ ∃ i, 6 ≤ (lines i).length

/-- Every picture is stored under its own object. -/
structure Keyed (cache : PictureCache) : Prop where
  face : ∀ id picture, cache.faceCaches id = some picture → picture.picture.objectId = id
  body : ∀ id lines i picture, cache.bodyCaches id = some lines → picture ∈ lines i →
    picture.picture.objectId = id

theorem hasEmpty_eq_false : hasEmpty lines = false ↔ ∀ i, lines i ≠ [] := by
  simp [hasEmpty]

theorem lineViews_eq_nil (face : PostPictureWrapper) (lines : BodyPictureCacheLine)
    (line : List PostPictureWrapper) :
    lineViews face lines line = [] ↔ line.length < 6 := by
  unfold lineViews
  by_cases hlong : 6 ≤ line.length
  · simp [hlong]
  · simp [hlong]
    omega

theorem views_eq_nil (face : PostPictureWrapper) (lines : BodyPictureCacheLine) :
    views face lines = [] ↔ (∃ i, lines i = []) ∨ ∀ i, (lines i).length < 6 := by
  unfold views
  by_cases hfull : hasEmpty lines = true
  · have : ∃ i, lines i = [] := of_decide_eq_true hfull
    simp [hfull, this]
  · have hnone : ¬ ∃ i, lines i = [] := by
      intro h
      exact hfull (decide_eq_true h)
    rw [if_neg hfull]
    simp only [hnone, false_or, List.flatMap_eq_nil_iff, lineViews_eq_nil, Fin.forall_fin_succ,
      List.mem_cons, List.not_mem_nil, or_false, forall_eq_or_imp, forall_eq]
    simp

theorem objectViews_ne_nil : objectViews cache id ≠ [] ↔ Complete cache id := by
  unfold Complete objectViews
  cases hface : cache.faceCaches id with
  | none => simp
  | some face =>
    cases hbody : cache.bodyCaches id with
    | none => simp
    | some lines => simp [views_eq_nil]

theorem mem_oldest {picture : PostPictureWrapper} (h : picture ∈ oldest lines) :
    ∃ i, picture ∈ lines i := by
  simp only [oldest, List.mem_flatMap, List.mem_cons, List.not_mem_nil, or_false] at h
  obtain ⟨line, hline, hmem⟩ := h
  have hmem' := List.mem_of_mem_take hmem
  rcases hline with rfl | rfl | rfl | rfl
  · exact ⟨0, hmem'⟩
  · exact ⟨1, hmem'⟩
  · exact ⟨2, hmem'⟩
  · exact ⟨3, hmem'⟩

/-- The views of an object are views of pictures cached for it. -/
theorem mem_views {picture : PostPictureWrapper} (h : picture ∈ views face lines) :
    picture = face ∨ ∃ i, picture ∈ lines i := by
  unfold views at h
  split at h
  · simp at h
  · obtain ⟨line, hline, hmem⟩ := List.mem_flatMap.mp h
    have hline' : ∃ i, line = lines i := by
      simp only [List.mem_cons, List.not_mem_nil, or_false] at hline
      rcases hline with rfl | rfl | rfl | rfl
      exacts [⟨0, rfl⟩, ⟨1, rfl⟩, ⟨2, rfl⟩, ⟨3, rfl⟩]
    obtain ⟨i, rfl⟩ := hline'
    unfold lineViews at hmem
    split at hmem
    · rw [List.cons_append, List.mem_cons, List.mem_append] at hmem
      rcases hmem with rfl | hmem | hmem
      · exact Or.inl rfl
      · exact Or.inr (mem_oldest hmem)
      · exact Or.inr ⟨i, List.mem_of_mem_take hmem⟩
    · simp at hmem

theorem mem_objectViews {picture : PostPictureWrapper} (h : picture ∈ objectViews cache id) :
    cache.faceCaches id = some picture ∨
      ∃ lines i, cache.bodyCaches id = some lines ∧ picture ∈ lines i := by
  unfold objectViews at h
  cases hface : cache.faceCaches id with
  | none => simp [hface] at h
  | some face =>
    cases hbody : cache.bodyCaches id with
    | none => simp [hface, hbody] at h
    | some lines =>
      simp only [hface, hbody] at h
      rcases mem_views h with rfl | ⟨i, hmem⟩
      · exact Or.inl rfl
      · exact Or.inr ⟨lines, i, rfl, hmem⟩

theorem objectId_of_mem_objectViews (hkeyed : Keyed cache) {picture : PostPictureWrapper}
    (h : picture ∈ objectViews cache id) : picture.picture.objectId = id := by
  rcases mem_objectViews h with hface | ⟨lines, i, hbody, hmem⟩
  · exact hkeyed.face id picture hface
  · exact hkeyed.body id lines i picture hbody hmem

/-- The objects of the vector are exactly the complete candidates. -/
theorem exists_mem_handedOver (hkeyed : Keyed cache) (order : List ObjectId) :
    (∃ picture ∈ handedOver cache order, picture.picture.objectId = id) ↔
      id ∈ candidates cache order ∧ Complete cache id := by
  constructor
  · intro hexists
    obtain ⟨picture, hmem, rfl⟩ := hexists
    obtain ⟨j, hj, hview⟩ := List.mem_flatMap.mp hmem
    rw [objectId_of_mem_objectViews hkeyed hview]
    exact ⟨hj, objectViews_ne_nil.mp (List.ne_nil_of_mem hview)⟩
  · intro ⟨hmem, hcomplete⟩
    obtain ⟨picture, hview⟩ := List.exists_mem_of_ne_nil _ (objectViews_ne_nil.mpr hcomplete)
    exact ⟨picture, List.mem_flatMap.mpr ⟨id, hmem, hview⟩,
      objectId_of_mem_objectViews hkeyed hview⟩

theorem mem_candidates (order : List ObjectId) (horder : IterationOrder cache order) :
    id ∈ candidates cache order ↔
      (cache.faceCaches id).isSome ∧ (cache.bodyCaches id).isSome := by
  unfold candidates
  rw [List.mem_filter, horder.mem_iff]

theorem complete_mem_candidates (order : List ObjectId) (horder : IterationOrder cache order)
    (h : Complete cache id) : id ∈ candidates cache order := by
  obtain ⟨face, lines, hface, hbody, _⟩ := h
  rw [mem_candidates order horder, hface, hbody]
  exact ⟨rfl, rfl⟩

theorem flatMap_eq_of_single {α β : Type*} {f : α → List β} {l : List α} {a : α}
    (hnodup : l.Nodup) (hmem : a ∈ l) (hother : ∀ b ∈ l, b ≠ a → f b = []) :
    l.flatMap f = f a := by
  obtain ⟨pre, post, rfl⟩ := List.append_of_mem hmem
  obtain ⟨hnot, -⟩ := List.nodup_cons.mp (List.nodup_middle.mp hnodup)
  have hpre : pre.flatMap f = [] := by
    rw [List.flatMap_eq_nil_iff]
    intro b hb
    refine hother b (by simp [hb]) ?_
    intro heq
    subst heq
    exact hnot (List.mem_append_left post hb)
  have hpost : post.flatMap f = [] := by
    rw [List.flatMap_eq_nil_iff]
    intro b hb
    refine hother b (by simp [hb]) ?_
    intro heq
    subst heq
    exact hnot (List.mem_append_right pre hb)
  rw [List.flatMap_append, List.flatMap_cons, hpre, hpost, List.nil_append, List.append_nil]

/-- If one object alone has views, the vector is what it contributes. -/
theorem handedOver_eq_of_single {own : ObjectId} (order : List ObjectId)
    (horder : IterationOrder cache order)
    (hother : ∀ id, id ≠ own → objectViews cache id = []) :
    handedOver cache order = objectViews cache own := by
  unfold handedOver
  by_cases hmem : own ∈ candidates cache order
  · exact flatMap_eq_of_single (horder.nodup.filter _) hmem (fun id _ hid => hother id hid)
  · have hown : objectViews cache own = [] := by
      by_contra hne
      exact hmem (complete_mem_candidates order horder (objectViews_ne_nil.mp hne))
    rw [hown, List.flatMap_eq_nil_iff]
    intro id _
    by_cases hid : id = own
    · rw [hid, hown]
    · exact hother id hid

private theorem mem_dropWhile {α : Type*} (p : α → Bool) (l : List α) (x : α) :
    x ∈ l.dropWhile p ↔
      ∃ pre j post, l = pre ++ j :: post ∧ p j = false ∧ (x = j ∨ x ∈ post) := by
  induction l with
  | nil => simp
  | cons a l ih =>
    cases ha : p a with
    | true =>
      rw [List.dropWhile_cons_of_pos ha, ih]
      constructor
      · intro hmem
        obtain ⟨pre, j, post, rfl, hj, hx⟩ := hmem
        exact ⟨a :: pre, j, post, rfl, hj, hx⟩
      · intro ⟨pre, j, post, heq, hj, hx⟩
        cases pre with
        | nil =>
          obtain ⟨rfl, rfl⟩ := List.cons.inj heq
          simp [ha] at hj
        | cons b pre => exact ⟨pre, j, post, (List.cons.inj heq).2, hj, hx⟩
    | false =>
      rw [List.dropWhile_cons_of_neg (by simp [ha])]
      constructor
      · intro hx
        exact ⟨[], a, l, rfl, ha, List.mem_cons.mp hx⟩
      · intro ⟨pre, j, post, heq, _, hx⟩
        rw [heq, List.mem_append, List.mem_cons]
        exact Or.inr hx

/-- An erased object comes at or after a complete one in the walk. -/
theorem mem_erased (order : List ObjectId) :
    id ∈ erased cache order ↔
      ∃ pre j post, candidates cache order = pre ++ j :: post ∧ Complete cache j ∧
        (id = j ∨ id ∈ post) := by
  unfold erased
  rw [mem_dropWhile]
  simp only [List.isEmpty_eq_false_iff, objectViews_ne_nil]

/-- Nothing that is complete before the third section stays complete. -/
theorem not_complete_process (order : List ObjectId) (horder : IterationOrder cache order) :
    ¬ Complete (eraseAll (erased cache order) cache) id := by
  intro ⟨face, lines, hface, hbody, hfull, hlong⟩
  obtain ⟨hface, hnot⟩ := face_of_eraseAll hface
  obtain ⟨hbody, -⟩ := body_of_eraseAll hbody
  have hcomplete : Complete cache id := ⟨face, lines, hface, hbody, hfull, hlong⟩
  obtain ⟨pre, post, heq⟩ :=
    List.append_of_mem (complete_mem_candidates order horder hcomplete)
  exact hnot ((mem_erased order).mpr ⟨pre, id, post, heq, hcomplete, Or.inl rfl⟩)

end BeastServer.GroupCompletion
