import BeastServer.PicturePreviews

/-!
What insertion and listing do to the preview store, in closed form.
The eviction loop keeps the first cacheLimit ids and removes the pictures of
the others, so the pictures of the store are those of the ids it lists.
-/
namespace BeastServer.PreviewStores

open ByteStrings Exceptions Programs PicturePreviews PicturePreviewHandler

variable {handler : PicturePreviewHandler} {id : Bytes}

theorem evict_eq (rounds : ℕ) (handler : PicturePreviewHandler)
    (h : handler.ids.length - handler.cacheLimit ≤ rounds) :
    evict rounds handler =
      { handler with
        ids := handler.ids.take handler.cacheLimit
        pictures := fun id =>
          if id ∈ handler.ids.drop handler.cacheLimit then none else handler.pictures id } := by
  induction rounds generalizing handler with
  | zero =>
    have hshort : handler.ids.length ≤ handler.cacheLimit := by omega
    simp [evict, List.take_of_length_le hshort, List.drop_of_length_le hshort]
  | succ rounds ih =>
    by_cases hlong : handler.ids.length > handler.cacheLimit
    · rcases List.eq_nil_or_concat handler.ids with hnil | ⟨kept, last, hids⟩
      · rw [hnil] at hlong
        simp at hlong
      · have hids' : handler.ids = kept ++ [last] := by rw [hids, List.concat_eq_append]
        have hkept : handler.cacheLimit ≤ kept.length := by
          rw [hids', List.length_append, List.length_singleton] at hlong
          omega
        have hdrop : dropOldest handler =
            { handler with
              pictures := Function.update handler.pictures last none
              ids := kept } := by
          simp [dropOldest, hids']
        rw [evict, if_pos hlong, hdrop, ih _ (by simp [hids'] at h ⊢; omega)]
        simp only [hids', List.take_append_of_le_length hkept,
          List.drop_append_of_le_length hkept, PicturePreviewHandler.mk.injEq, true_and, and_true]
        funext id
        by_cases hlast : id = last
        · simp [hlast]
        · simp [hlast, Function.update]
    · have hshort : handler.ids.length ≤ handler.cacheLimit := by omega
      rw [evict, if_neg hlong]
      simp [List.take_of_length_le hshort, List.drop_of_length_le hshort]

theorem emplace_eq (pictures : Pictures) :
    emplace handler id pictures =
      { handler with
        pictures := Function.update handler.pictures id
          (some ((handler.pictures id).getD pictures)) } := by
  unfold emplace
  cases hid : handler.pictures id with
  | none => rfl
  | some present =>
    have hsame : Function.update handler.pictures id (some present) = handler.pictures := by
      rw [← hid, Function.update_eq_self]
    simp [hsame]

theorem store_eq (now : ℤ) (pvs : List PictureView) :
    store id now pvs handler =
      { handler with
        ids := (id :: handler.ids).take handler.cacheLimit
        pictures := fun j =>
          if j ∈ (id :: handler.ids).drop handler.cacheLimit then none
          else if j = id then some ((handler.pictures id).getD (Pictures.make id now pvs))
          else handler.pictures j } := by
  unfold store
  rw [emplace_eq, evict_eq _ _ (Nat.sub_le _ _)]
  simp [Function.update_apply]

/-- Insertion stores no preview but the new one. -/
theorem store_pictures (now : ℤ) (pvs : List PictureView) {j : Bytes} {p : Pictures}
    (h : (store id now pvs handler).pictures j = some p) :
    handler.pictures j = some p ∨ p = Pictures.make id now pvs := by
  rw [store_eq] at h
  simp only at h
  split at h
  · simp at h
  · split at h
    · rename_i hj
      cases hid : handler.pictures id with
      | none =>
        rw [hid] at h
        exact Or.inr (Option.some.inj h).symm
      | some present =>
        rw [hid] at h
        exact Or.inl (by rw [hj, hid]; exact h)
    · exact Or.inl h

/-- The pictures are stored under listed ids, and there are at most cacheLimit. -/
structure Retained (handler : PicturePreviewHandler) : Prop where
  listed : ∀ id, (handler.pictures id).isSome = true → id ∈ handler.ids
  bounded : handler.ids.length ≤ handler.cacheLimit

theorem retained_make (cacheLimit : ℕ) : Retained (PicturePreviewHandler.make cacheLimit) where
  listed id h := by simp [PicturePreviewHandler.make] at h
  bounded := Nat.zero_le _

theorem retained_store (now : ℤ) (pvs : List PictureView) (h : Retained handler) :
    Retained (store id now pvs handler) := by
  rw [store_eq]
  constructor
  · intro j hj
    simp only at hj ⊢
    split at hj
    · simp at hj
    · rename_i hkept
      have hmem : j ∈ id :: handler.ids := by
        split at hj
        · rename_i heq
          rw [heq]
          exact List.mem_cons_self
        · exact List.mem_cons_of_mem _ (h.listed j hj)
      rw [← List.take_append_drop handler.cacheLimit (id :: handler.ids)] at hmem
      rcases List.mem_append.mp hmem with hin | hout
      · exact hin
      · exact absurd hout hkept
  · exact List.length_take_le _ _

/-- A preview under a new id is found at once. -/
theorem store_new (now : ℤ) (pvs : List PictureView) (hlimit : 0 < handler.cacheLimit)
    (h : Retained handler) (hnew : id ∉ handler.ids) :
    (store id now pvs handler).pictures id = some (Pictures.make id now pvs) ∧
      (store id now pvs handler).ids.head? = some id := by
  rw [store_eq]
  obtain ⟨limit, hsucc⟩ := Nat.exists_eq_succ_of_ne_zero (Nat.pos_iff_ne_zero.mp hlimit)
  have hdrop : (id :: handler.ids).drop handler.cacheLimit = handler.ids.drop limit := by
    rw [hsucc, List.drop_succ_cons]
  have hkept : id ∉ handler.ids.drop limit := fun hmem => hnew (List.mem_of_mem_drop hmem)
  have hnone : handler.pictures id = none := by
    by_contra hsome
    exact hnew (h.listed id (Option.isSome_iff_ne_none.mpr hsome))
  constructor
  · simp [hdrop, hkept, hnone]
  · simp [hsucc]

theorem picturesAt_run {pictures : Pictures} (h : handler.pictures id = some pictures) :
    (picturesAt id).run handler = .ok pictures handler := by
  unfold picturesAt
  rw [bind_ok (EStateM.run_get handler)]
  simp [h]

theorem picturesAt_throws (h : handler.pictures id = none) :
    (picturesAt id).run handler = .error .mapAt handler := by
  unfold picturesAt
  rw [bind_ok (EStateM.run_get handler)]
  simp [h]

theorem collect_stored (prev : Bytes) (limit : ℕ) (ids : List Bytes) (n : ℕ)
    (pics result : List Pictures) (after : PicturePreviewHandler)
    (h : (collect prev limit ids n pics).run handler = .ok result after) :
    ∀ p ∈ result, p ∈ pics ∨ ∃ id, handler.pictures id = some p := by
  induction ids generalizing n pics with
  | nil =>
    simp only [collect, EStateM.run_pure, EStateM.Result.ok.injEq] at h
    intro p hp
    exact Or.inl (h.1 ▸ hp)
  | cons id ids ih =>
    rw [collect] at h
    split at h
    · simp only [EStateM.run_pure, EStateM.Result.ok.injEq] at h
      intro p hp
      exact Or.inl (h.1 ▸ hp)
    · cases hid : handler.pictures id with
      | none =>
        rw [bind_error (picturesAt_throws hid)] at h
        simp at h
      | some pictures =>
        rw [bind_ok (picturesAt_run hid)] at h
        intro p hp
        rcases ih (n + 1) (pics ++ [pictures]) h p hp with hmem | hstored
        · rcases List.mem_append.mp hmem with hmem | hmem
          · exact Or.inl hmem
          · exact Or.inr ⟨id, by rw [hid, List.mem_singleton.mp hmem]⟩
        · exact Or.inr hstored

/-- Every preview in an answer of listPreview is in the store. -/
theorem listPreview_stored (prev : Bytes) (limit : ℕ) (result : List Pictures)
    (after : PicturePreviewHandler) (h : (listPreview prev limit).run handler = .ok result after) :
    ∀ p ∈ result, ∃ id, handler.pictures id = some p := by
  unfold listPreview at h
  rw [bind_ok (EStateM.run_get handler)] at h
  intro p hp
  rcases collect_stored prev limit handler.ids 0 [] result after h p hp with hmem | hstored
  · simp at hmem
  · exact hstored

/-- Asked for one preview, the store answers with the newest. -/
theorem listPreview_newest {prev : Bytes} {pictures : Pictures}
    (hhead : handler.ids.head? = some id) (hid : handler.pictures id = some pictures)
    (hprev : id ≠ prev) : (listPreview prev 1).run handler = .ok [pictures] handler := by
  obtain ⟨rest, hids⟩ : ∃ rest, handler.ids = id :: rest := by
    cases hlist : handler.ids with
    | nil => simp [hlist] at hhead
    | cons first rest =>
      rw [hlist, List.head?_cons, Option.some.injEq] at hhead
      exact ⟨rest, by rw [hhead]⟩
  unfold listPreview
  rw [bind_ok (EStateM.run_get handler), hids, collect, if_neg (by simp [hprev]),
    bind_ok (picturesAt_run hid)]
  cases rest with
  | nil => simp [collect]
  | cons second rest =>
    rw [collect, if_pos (by simp)]
    simp

end BeastServer.PreviewStores
