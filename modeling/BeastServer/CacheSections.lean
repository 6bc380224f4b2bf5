import BeastServer.GroupCompletion

/-!
The first two critical sections of addPicture: cleanup and insertion.
The insertion is described by the state it leaves behind, which is the same
whether it returned or threw; a refused picture leaves at most an entry with
four empty lines. Neither section completes a group, except that an accepted
picture may complete the group of its own object.
-/
namespace BeastServer.CacheSections

open PostedPictures Exceptions Programs PictureCaches GroupCompletion

variable {cache : PictureCache} {id : ObjectId} {lines : BodyPictureCacheLine}
  {now : ℤ} {picture : PostPictureWrapper}

/-- The state after the second section, whether it returned or threw. -/
def inserted (picture : PostPictureWrapper) (cache : PictureCache) : PictureCache :=
  match picture.picture.objectType with
  | .face => setFace cache picture.picture.objectId picture
  | .body =>
    let lines := linesOf cache picture.picture.objectId
    setBody cache picture.picture.objectId
      (if h : picture.picture.cameraId.toNat < cacheLines then
        Function.update lines ⟨picture.picture.cameraId.toNat, h⟩
          (lines ⟨picture.picture.cameraId.toNat, h⟩ ++ [picture])
      else lines)

/-- A face, or a body picture of one of the four cameras. -/
def Accepted (picture : PostPictureWrapper) : Prop :=
  picture.picture.objectType = .face ∨ picture.picture.cameraId.toNat < cacheLines

theorem addNewPic_run (h : Accepted picture) :
    (addNewPic picture).run cache = .ok ⟨⟩ (inserted picture cache) := by
  unfold addNewPic inserted
  rw [bind_ok (EStateM.run_get _)]
  cases htype : picture.picture.objectType with
  | face => simp
  | body =>
    have hcamera : picture.picture.cameraId.toNat < cacheLines := by
      simpa [Accepted, htype] using h
    simp [hcamera]

theorem addNewPic_throws (h : ¬ Accepted picture) :
    (addNewPic picture).run cache =
      .error (.arrayAt picture.picture.cameraId.toNat cacheLines) (inserted picture cache) := by
  unfold addNewPic inserted
  rw [bind_ok (EStateM.run_get _)]
  cases htype : picture.picture.objectType with
  | face => simp [Accepted, htype] at h
  | body =>
    have hcamera : ¬ picture.picture.cameraId.toNat < cacheLines := by
      simpa [Accepted, htype] using h
    simp [hcamera]

theorem cleanup_face {w : PostPictureWrapper} :
    (cleanup now cache).faceCaches id = some w ↔
      cache.faceCaches id = some w ∧ isExpired now w = false := by
  simp [cleanup, Option.filter_eq_some_iff]

theorem cleanup_body :
    (cleanup now cache).bodyCaches id = some lines ↔
      ∃ before, cache.bodyCaches id = some before ∧
        lines = removePictureExpiredInLines now before ∧ ∃ i, lines i ≠ [] := by
  simp only [cleanup, Option.filter_eq_some_iff, Option.map_eq_some_iff, allLinesEmpty]
  constructor
  · intro hmem
    obtain ⟨⟨before, hbefore, rfl⟩, hsome⟩ := hmem
    exact ⟨before, hbefore, rfl, by simpa using hsome⟩
  · intro hmem
    obtain ⟨before, hbefore, rfl, hsome⟩ := hmem
    exact ⟨⟨before, hbefore, rfl⟩, by simpa using hsome⟩

theorem mem_removePictureExpired {w : PostPictureWrapper} {line : List PostPictureWrapper} :
    w ∈ removePictureExpired now line ↔ w ∈ line ∧ isExpired now w = false := by
  simp [removePictureExpired]

/-- Cleanup completes no group. -/
theorem complete_of_cleanup (h : Complete (cleanup now cache) id) : Complete cache id := by
  obtain ⟨face, lines, hface, hbody, hfull, i, hlong⟩ := h
  obtain ⟨before, hbefore, rfl, -⟩ := cleanup_body.mp hbody
  refine ⟨face, before, (cleanup_face.mp hface).1, hbefore, ?_, i, ?_⟩
  · intro j hj
    exact hfull j (by simp [removePictureExpiredInLines, removePictureExpired, hj])
  · exact hlong.trans (List.length_filter_le _ _)

theorem keyed_cleanup (hkeyed : Keyed cache) : Keyed (cleanup now cache) where
  face id w h := hkeyed.face id w (cleanup_face.mp h).1
  body id lines i w h hmem := by
    obtain ⟨before, hbefore, rfl, -⟩ := cleanup_body.mp h
    exact hkeyed.body id before i w hbefore (mem_removePictureExpired.mp hmem).1

/-- The insertion touches the entries of its own object only. -/
theorem inserted_other (h : id ≠ picture.picture.objectId) :
    (inserted picture cache).faceCaches id = cache.faceCaches id ∧
      (inserted picture cache).bodyCaches id = cache.bodyCaches id := by
  unfold inserted
  cases picture.picture.objectType <;> simp [setFace, setBody, Function.update, h]

theorem inserted_face :
    (inserted picture cache).faceCaches id =
      if picture.picture.objectType = .face ∧ id = picture.picture.objectId then some picture
      else cache.faceCaches id := by
  unfold inserted
  cases picture.picture.objectType <;> simp [setFace, setBody, Function.update]

def addToLine (picture : PostPictureWrapper) (lines : BodyPictureCacheLine) :
    BodyPictureCacheLine :=
  fun i => if picture.picture.cameraId.toNat = i.val then lines i ++ [picture] else lines i

theorem inserted_body :
    (inserted picture cache).bodyCaches id =
      if picture.picture.objectType = .body ∧ id = picture.picture.objectId then
        some (addToLine picture (linesOf cache id))
      else cache.bodyCaches id := by
  unfold inserted
  cases picture.picture.objectType with
  | face => simp [setFace]
  | body =>
    by_cases hid : id = picture.picture.objectId
    · subst hid
      simp only [setBody, Function.update_self, and_self, if_true, Option.some.injEq]
      funext i
      unfold addToLine
      split
      · rename_i hcamera
        by_cases hi : i = ⟨picture.picture.cameraId.toNat, hcamera⟩
        · subst hi
          simp
        · have hne : picture.picture.cameraId.toNat ≠ i.val := by
            intro heq
            exact hi (Fin.ext heq.symm)
          rw [Function.update_of_ne hi, if_neg hne]
      · rename_i hcamera
        have hne : picture.picture.cameraId.toNat ≠ i.val := by
          have := i.isLt
          omega
        rw [if_neg hne]
    · simp [setBody, Function.update, hid]

theorem linesOf_of_some (h : cache.bodyCaches id = some lines) : linesOf cache id = lines := by
  simp [linesOf, h]

theorem mem_linesOf {i : Fin cacheLines} {w : PostPictureWrapper} (h : w ∈ linesOf cache id i) :
    ∃ lines, cache.bodyCaches id = some lines ∧ w ∈ lines i := by
  unfold linesOf at h
  cases hbody : cache.bodyCaches id with
  | none => simp [hbody] at h
  | some lines => exact ⟨lines, rfl, by simpa [hbody] using h⟩

theorem mem_addToLine {i : Fin cacheLines} {w : PostPictureWrapper} :
    w ∈ addToLine picture lines i ↔
      w ∈ lines i ∨ (w = picture ∧ picture.picture.cameraId.toNat = i.val) := by
  unfold addToLine
  split <;> simp [*]

theorem keyed_inserted (hkeyed : Keyed cache) : Keyed (inserted picture cache) where
  face id w h := by
    rw [inserted_face] at h
    split at h
    · rename_i heq
      obtain rfl := Option.some.inj h
      exact heq.2.symm
    · exact hkeyed.face id w h
  body id lines i w h hmem := by
    rw [inserted_body] at h
    split at h
    · rename_i heq
      obtain rfl := Option.some.inj h
      rcases mem_addToLine.mp hmem with hold | ⟨rfl, -⟩
      · obtain ⟨before, hbefore, hmem'⟩ := mem_linesOf hold
        exact hkeyed.body id before i w hbefore hmem'
      · exact heq.2.symm
    · exact hkeyed.body id lines i w h hmem

theorem keyed_eraseAll (hkeyed : Keyed cache) (ids : List ObjectId) :
    Keyed (eraseAll ids cache) where
  face id w h := hkeyed.face id w (face_of_eraseAll h).1
  body id lines i w h := hkeyed.body id lines i w (body_of_eraseAll h).1

/-- An insertion completes no group but its own object's, and none at all when
the picture is refused. -/
theorem complete_of_inserted (h : Complete (inserted picture cache) id)
    (hother : id ≠ picture.picture.objectId ∨ ¬ Accepted picture) : Complete cache id := by
  obtain ⟨face, lines, hface, hbody, hfull, hlong⟩ := h
  rcases hother with hid | hrefused
  · obtain ⟨hf, hb⟩ := @inserted_other cache id picture hid
    exact ⟨face, lines, hf ▸ hface, hb ▸ hbody, hfull, hlong⟩
  · obtain ⟨hbodyType, hcamera⟩ := not_or.mp hrefused
    rw [inserted_face, if_neg (by simp [hbodyType])] at hface
    rw [inserted_body] at hbody
    have hsame : addToLine picture (linesOf cache id) = linesOf cache id := by
      funext i
      have := i.isLt
      exact if_neg (by omega)
    split at hbody
    · obtain rfl := Option.some.inj hbody
      rw [hsame] at hfull hlong
      obtain ⟨w, hw⟩ := List.exists_mem_of_ne_nil _ (hfull 0)
      obtain ⟨before, hbefore, -⟩ := mem_linesOf hw
      rw [linesOf_of_some hbefore] at hfull hlong
      exact ⟨face, before, hface, hbefore, hfull, hlong⟩
    · exact ⟨face, lines, hface, hbody, hfull, hlong⟩

section Support

/-- The faces are all stored under these keys. -/
def Supported (keys : List ObjectId) (cache : PictureCache) : Prop :=
  ∀ id, (cache.faceCaches id).isSome = true → id ∈ keys

variable {keys order : List ObjectId}

theorem supported_empty : Supported [] PictureCache.empty := by
  intro id h
  simp [PictureCache.empty] at h

theorem supported_cleanup (h : Supported keys cache) : Supported keys (cleanup now cache) := by
  intro id hsome
  obtain ⟨w, hface⟩ := Option.isSome_iff_exists.mp hsome
  exact h id (by rw [(cleanup_face.mp hface).1]; rfl)

theorem supported_inserted (h : Supported keys cache) :
    Supported (picture.picture.objectId :: keys) (inserted picture cache) := by
  intro id hsome
  by_cases hid : id = picture.picture.objectId
  · rw [hid]
    exact List.mem_cons_self
  · rw [(inserted_other hid).1] at hsome
    exact List.mem_cons_of_mem _ (h id hsome)

theorem supported_eraseAll (ids : List ObjectId) (h : Supported keys cache) :
    Supported keys (eraseAll ids cache) := by
  intro id hsome
  obtain ⟨w, hface⟩ := Option.isSome_iff_exists.mp hsome
  exact h id (Option.isSome_iff_exists.mpr ⟨w, (face_of_eraseAll hface).1⟩)

/-- The order lists the faces among the given keys, each once. -/
def listsFaces (cache : PictureCache) (keys order : List ObjectId) : Bool :=
  decide order.Nodup && order.all (fun id => (cache.faceCaches id).isSome) &&
    keys.all (fun id => (cache.faceCaches id).isNone || order.contains id)

theorem iterationOrder_of_listsFaces (hkeys : Supported keys cache)
    (h : listsFaces cache keys order = true) : IterationOrder cache order := by
  simp only [listsFaces, Bool.and_eq_true, decide_eq_true_eq, List.all_eq_true, Bool.or_eq_true,
    List.contains_iff_mem] at h
  obtain ⟨⟨hnodup, hsome⟩, hall⟩ := h
  refine ⟨hnodup, fun id => ⟨hsome id, ?_⟩⟩
  intro hid
  rcases hall id (hkeys id hid) with hnone | horder
  · rw [Option.isNone_iff_eq_none] at hnone
    simp [hnone] at hid
  · exact horder

end Support

end BeastServer.CacheSections
