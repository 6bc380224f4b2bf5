import BeastServer.Feeds
import BeastServer.Machines
import BeastServer.PreviewStores

/-!
Runs of the preview store.
Insertions under the mutex interleave with the listing and the visiting of
previews, which only read. The store is a window on the newest insertions: its
ids are those of a feed, and its pictures are the ones inserted under them.
-/
namespace BeastServer.PreviewRuns

open ByteStrings Exceptions Programs PicturePreviews PicturePreviewHandler PreviewStores Machines
open Feeds

section Steps

structure Insertion where
  id : Bytes
  now : ℤ
  pictureViews : List PictureView

def Insertion.pictures (insertion : Insertion) : Pictures :=
  Pictures.make insertion.id insertion.now insertion.pictureViews

inductive Event
  | insert (insertion : Insertion)
  | list (prev : Bytes) (limit : ℕ)
  | visit (uuid name : Bytes) (index : ℕ)

def step (s : PicturePreviewHandler) : Event → PicturePreviewHandler
  | .insert insertion => store insertion.id insertion.now insertion.pictureViews s
  | .list prev limit => finalState (listPreview prev limit) s
  | .visit uuid name index => finalState (getPicture uuid name index) s

def previews (cacheLimit : ℕ) : Machine PicturePreviewHandler Event where
  init := PicturePreviewHandler.make cacheLimit
  enabled _ _ := True
  step := step

def insertions : List Event → List Insertion
  | [] => []
  | .insert insertion :: rest => insertion :: insertions rest
  | .list _ _ :: rest => insertions rest
  | .visit _ _ _ :: rest => insertions rest

def insertedIds (inputs : List Event) : List Bytes := (insertions inputs).map Insertion.id

end Steps

section Reading

variable {s : PicturePreviewHandler}

theorem behaves_picturesAt (id : Bytes) :
    Behaves (fun s : PicturePreviewHandler => s) (fun _ => True) (picturesAt id) := by
  apply behaves_bind behaves_get
  intro handler
  cases handler.pictures id with
  | none => exact behaves_throw trivial
  | some pictures => exact behaves_pure _

theorem behaves_listPreview (prev : Bytes) (limit : ℕ) :
    Behaves (fun s : PicturePreviewHandler => s) (fun _ => True) (listPreview prev limit) := by
  have hcollect : ∀ ids n pics, Behaves (fun s : PicturePreviewHandler => s) (fun _ => True)
      (collect prev limit ids n pics) := by
    intro ids
    induction ids with
    | nil =>
      intro n pics
      exact behaves_pure _
    | cons id ids ih =>
      intro n pics
      rw [collect]
      split
      · exact behaves_pure _
      · exact behaves_bind (behaves_picturesAt id) (fun _ => ih _ _)
  exact behaves_bind behaves_get (fun _ => hcollect _ _ _)

theorem behaves_getPicture (uuid name : Bytes) (index : ℕ) :
    Behaves (fun s : PicturePreviewHandler => s) (fun _ => True) (getPicture uuid name index) := by
  unfold getPicture
  split
  · exact behaves_bind (behaves_picturesAt uuid) (fun _ => behaves_pure _)
  split
  · exact behaves_bind (behaves_picturesAt uuid) (fun _ => behaves_pure _)
  · exact behaves_throw trivial

@[simp] theorem step_list (prev : Bytes) (limit : ℕ) : step s (.list prev limit) = s :=
  (behaves_listPreview prev limit).finalState

@[simp] theorem step_visit (uuid name : Bytes) (index : ℕ) :
    step s (.visit uuid name index) = s :=
  (behaves_getPicture uuid name index).finalState

/-- Where all listed ids have pictures, the loop of listPreview returns those
of the ids before prev, up to the limit. -/
theorem collect_run {prev : Bytes} {limit : ℕ} {pictures : Bytes → Pictures} {ids : List Bytes}
    (n : ℕ) (pics : List Pictures) (h : ∀ id ∈ ids, s.pictures id = some (pictures id)) :
    (collect prev limit ids n pics).run s =
      .ok (pics ++ ((ids.takeWhile (fun id => decide (id ≠ prev))).take
        (if limit = 0 then ids.length else limit - n)).map pictures) s := by
  induction ids generalizing n pics with
  | nil => simp [collect]
  | cons id ids ih =>
    have hrest : ∀ id ∈ ids, s.pictures id = some (pictures id) :=
      fun j hj => h j (List.mem_cons_of_mem id hj)
    rw [collect]
    by_cases hprev : id = prev
    · rw [if_pos (Or.inl hprev)]
      simp [hprev]
    by_cases hfull : limit > 0 ∧ n ≥ limit
    · rw [if_pos (Or.inr hfull), if_neg (by omega), Nat.sub_eq_zero_of_le hfull.2]
      simp
    · rw [if_neg (by tauto), bind_ok (picturesAt_run (h id List.mem_cons_self)), ih _ _ hrest]
      have hleft : (if limit = 0 then (id :: ids).length else limit - n) =
          (if limit = 0 then ids.length else limit - (n + 1)) + 1 := by
        split
        · rfl
        · omega
      rw [hleft, List.takeWhile_cons]
      simp [hprev]

theorem listPreview_run {prev : Bytes} {limit : ℕ} {pictures : Bytes → Pictures}
    (h : ∀ id ∈ s.ids, s.pictures id = some (pictures id)) :
    (listPreview prev limit).run s =
      .ok ((cut limit (s.ids.takeWhile (fun id => decide (id ≠ prev)))).map pictures) s := by
  unfold listPreview
  rw [bind_ok (EStateM.run_get s), collect_run 0 [] h, List.nil_append]
  unfold cut
  split
  · rw [List.take_of_length_le (List.takeWhile_sublist _).length_le]
  · rfl

end Reading

section Window

variable {inserted : List Insertion} {s : PicturePreviewHandler}

/-- The store after some insertions: the newest of them, the newest first. -/
structure Represents (inserted : List Insertion) (s : PicturePreviewHandler) : Prop where
  ids : s.ids = newest s.cacheLimit (inserted.map Insertion.id)
  keys : ∀ id, (s.pictures id).isSome = true ↔ id ∈ s.ids
  stored : ∀ insertion ∈ inserted, insertion.id ∈ s.ids →
    s.pictures insertion.id = some insertion.pictures

theorem represents_make (cacheLimit : ℕ) :
    Represents [] (PicturePreviewHandler.make cacheLimit) := by
  constructor
  · simp [PicturePreviewHandler.make]
  · intro id
    simp [PicturePreviewHandler.make]
  · intro insertion h
    simp at h

/-- Of a list without duplicates the first entries are those that are not dropped. -/
theorem mem_take_iff_not_mem_drop {ids : List Bytes} (h : ids.Nodup) (n : ℕ) (id : Bytes) :
    id ∈ ids.take n ↔ id ∈ ids ∧ id ∉ ids.drop n := by
  constructor
  · intro hin
    exact ⟨List.mem_of_mem_take hin,
      fun hout => List.disjoint_take_drop h (Nat.le_refl n) hin hout⟩
  · intro ⟨hmem, hkept⟩
    rw [← List.take_append_drop n ids] at hmem
    exact (List.mem_append.mp hmem).resolve_right hkept

variable {insertion : Insertion}

theorem not_mem_inserted (hnodup : ((inserted ++ [insertion]).map Insertion.id).Nodup) :
    insertion.id ∉ inserted.map Insertion.id := by
  rw [List.map_append, List.map_singleton] at hnodup
  intro hmem
  exact (List.nodup_append.mp hnodup).2.2 _ hmem _ (List.mem_singleton_self _) rfl

/-- The ids before the eviction are those listed and the new one, without duplicates. -/
theorem Represents.nodup_cons
    (hnodup : ((inserted ++ [insertion]).map Insertion.id).Nodup) (h : Represents inserted s) :
    (insertion.id :: s.ids).Nodup := by
  have hnew := not_mem_inserted hnodup
  rw [List.map_append, List.nodup_append] at hnodup
  rw [List.nodup_cons, h.ids]
  exact ⟨fun hmem => hnew (newest_subset _ _ hmem), newest_nodup _ hnodup.1⟩

/-- Inserting a new id: the entries of the ids that drop out are erased. -/
theorem Represents.store_eq (hunlisted : insertion.id ∉ s.ids) (h : Represents inserted s) :
    store insertion.id insertion.now insertion.pictureViews s =
      { s with
        ids := (insertion.id :: s.ids).take s.cacheLimit
        pictures := fun id =>
          if id ∈ (insertion.id :: s.ids).drop s.cacheLimit then none
          else if id = insertion.id then some insertion.pictures
          else s.pictures id } := by
  have hnone : s.pictures insertion.id = none := by
    by_contra hsome
    exact hunlisted ((h.keys _).mp (Option.isSome_iff_ne_none.mpr hsome))
  rw [PreviewStores.store_eq, hnone, Option.getD_none]
  rfl

theorem represents_store (hnodup : ((inserted ++ [insertion]).map Insertion.id).Nodup)
    (h : Represents inserted s) :
    Represents (inserted ++ [insertion])
      (store insertion.id insertion.now insertion.pictureViews s) := by
  have hall := h.nodup_cons hnodup
  rw [h.store_eq (List.nodup_cons.mp hall).1]
  constructor
  · show (insertion.id :: s.ids).take s.cacheLimit = _
    rw [List.map_append, List.map_singleton, newest_append_singleton, ← h.ids]
  · intro id
    show _ ↔ id ∈ (insertion.id :: s.ids).take s.cacheLimit
    rw [mem_take_iff_not_mem_drop hall, List.mem_cons, ← h.keys id]
    by_cases hdropped : id ∈ (insertion.id :: s.ids).drop s.cacheLimit
    · simp [hdropped]
    · by_cases hid : id = insertion.id <;> simp [hdropped, hid]
  · intro other hother hin
    obtain ⟨hmem, hkept⟩ := (mem_take_iff_not_mem_drop hall _ _).mp hin
    show (if other.id ∈ _ then none else _) = _
    rw [if_neg hkept]
    rcases List.mem_append.mp hother with hold | hlast
    · have hid : other.id ≠ insertion.id := by
        intro heq
        exact not_mem_inserted hnodup (heq ▸ List.mem_map_of_mem hold)
      rw [if_neg hid]
      exact h.stored other hold ((List.mem_cons.mp hmem).resolve_left hid)
    · rw [List.mem_singleton.mp hlast, if_pos rfl]

end Window

section Runs

variable {cacheLimit : ℕ} {inputs : List Event} {s : PicturePreviewHandler}

@[simp] theorem insertions_append (before after : List Event) :
    insertions (before ++ after) = insertions before ++ insertions after := by
  induction before with
  | nil => rfl
  | cons event before ih => cases event <;> simp [insertions, ih]

@[simp] theorem insertedIds_append (before after : List Event) :
    insertedIds (before ++ after) = insertedIds before ++ insertedIds after := by
  simp [insertedIds]

theorem step_cacheLimit (event : Event) : (step s event).cacheLimit = s.cacheLimit := by
  cases event with
  | insert insertion =>
    show (store _ _ _ s).cacheLimit = _
    rw [store_eq]
  | list prev limit => rw [step_list]
  | visit uuid name index => rw [step_visit]

theorem cacheLimit_run (cacheLimit : ℕ) (inputs : List Event) :
    ((previews cacheLimit).run inputs).cacheLimit = cacheLimit := by
  induction inputs using List.reverseRecOn with
  | nil => rfl
  | append_singleton inputs event ih =>
    rw [Machine.run_append_singleton]
    exact (step_cacheLimit event).trans ih

theorem represents_inductive (cacheLimit : ℕ) :
    (previews cacheLimit).Inductive (fun inputs s =>
      (insertedIds inputs).Nodup → Represents (insertions inputs) s) where
  start _ := represents_make cacheLimit
  preserved inputs event _ h _ hdistinct := by
    rw [insertedIds_append] at hdistinct
    have hbefore := h (List.nodup_append.mp hdistinct).1
    change Represents _ (step _ event)
    rw [insertions_append]
    cases event with
    | insert insertion =>
      apply represents_store _ hbefore
      rw [List.map_append]
      exact hdistinct
    | list prev limit =>
      rw [step_list]
      simpa [insertions] using hbefore
    | visit uuid name index =>
      rw [step_visit]
      simpa [insertions] using hbefore

theorem represents_run (hdistinct : (insertedIds inputs).Nodup) :
    Represents (insertions inputs) ((previews cacheLimit).run inputs) :=
  (represents_inductive cacheLimit).run inputs
    (Machine.admissible_of_enabled _ (fun _ _ => trivial) inputs) hdistinct

/-- Under every listed id there are the pictures that were inserted with it. -/
theorem Represents.listed {inserted : List Insertion} (h : Represents inserted s) {id : Bytes}
    (hid : id ∈ s.ids) : ∃ insertion ∈ inserted, insertion.id = id ∧
      s.pictures id = some insertion.pictures := by
  have hmem : id ∈ inserted.map Insertion.id := by
    rw [h.ids] at hid
    exact newest_subset _ _ hid
  obtain ⟨insertion, hinserted, rfl⟩ := List.mem_map.mp hmem
  exact ⟨insertion, hinserted, rfl, h.stored insertion hinserted hid⟩

/-- The pictures of the listed ids, as listPreview looks them up. -/
theorem Represents.lookup {inserted : List Insertion} (h : Represents inserted s) :
    ∃ pictures : Bytes → Pictures, ∀ id ∈ s.ids,
      s.pictures id = some (pictures id) ∧ (pictures id).uuid = id := by
  refine ⟨fun id => (s.pictures id).getD ⟨[], 0, [], []⟩, ?_⟩
  intro id hid
  obtain ⟨insertion, -, rfl, hpictures⟩ := h.listed hid
  have huuid : insertion.pictures.uuid = insertion.id := by
    rw [Insertion.pictures, Pictures.make_eq]
  simp [hpictures, huuid]

/-- What the containers of the store hold after a run, and what readers and
evictions can rely on. -/
structure HoldsNewest (cacheLimit : ℕ) (inputs : List Event) (s : PicturePreviewHandler) :
    Prop where
  distinct : s.ids.Nodup
  keys : ∀ id, (s.pictures id).isSome = true ↔ id ∈ s.ids
  newest : s.ids =
    (insertedIds inputs).reverse.take (min (insertedIds inputs).length cacheLimit)
  stored : ∀ insertion ∈ insertions inputs, insertion.id ∈ s.ids →
    s.pictures insertion.id = some insertion.pictures
  listable : ∀ prev limit, ∃ pics, (listPreview prev limit).run s = .ok pics s
  /-- The next insertion evicts nothing but the oldest preview. -/
  evicted : ∀ insertion, insertion.id ∉ insertedIds inputs → ∀ id ∈ insertion.id :: s.ids,
    id ∉ (step s (.insert insertion)).ids → (insertion.id :: s.ids).getLast? = some id

/-- Every run with pairwise distinct ids keeps exactly the newest previews. -/
theorem holdsNewest_run (cacheLimit : ℕ) (inputs : List Event)
    (hdistinct : (insertedIds inputs).Nodup) :
    HoldsNewest cacheLimit inputs ((previews cacheLimit).run inputs) := by
  have h : Represents (insertions inputs) ((previews cacheLimit).run inputs) :=
    represents_run hdistinct
  have hids := h.ids
  rw [cacheLimit_run] at hids
  constructor
  · rw [hids]
    exact newest_nodup _ hdistinct
  · exact h.keys
  · rw [hids, Nat.min_comm]
    show List.take cacheLimit (insertedIds inputs).reverse = _
    rw [List.take_eq_take_iff]
    simp
  · exact h.stored
  · intro prev limit
    obtain ⟨pictures, hpictures⟩ := h.lookup
    exact ⟨_, listPreview_run (fun id hid => (hpictures id hid).1)⟩
  · intro insertion hnew id hid hgone
    have hmore : (insertedIds (inputs ++ [.insert insertion])).Nodup := by
      rw [insertedIds_append]
      refine List.nodup_append.mpr ⟨hdistinct, List.nodup_singleton _, ?_⟩
      intro a ha b hb heq
      rw [List.mem_singleton.mp hb] at heq
      exact hnew (heq ▸ ha)
    have hnext := (@represents_run cacheLimit _ hmore).ids
    rw [cacheLimit_run, Machine.run_append_singleton, insertions_append, List.map_append] at hnext
    change (step _ _).ids = newest cacheLimit (_ ++ [insertion.id]) at hnext
    rw [hnext] at hgone
    rw [hids] at hid ⊢
    exact newest_drops_oldest hid hgone

/-- Two insertions into a store of one preview, listed in between. -/
theorem holdsNewest_one :
    HoldsNewest 1 [.insert ⟨[97], 0, []⟩, .list [] 0, .insert ⟨[98], 0, []⟩]
      ((previews 1).run [.insert ⟨[97], 0, []⟩, .list [] 0, .insert ⟨[98], 0, []⟩]) :=
  holdsNewest_run 1 _ (by decide)

end Runs

end BeastServer.PreviewRuns
