import BeastServer.PreviewRuns

/-!
A client that polls the list of previews.
It remembers the first id of its last answer that was not empty and asks for
what is newer. The listing goes from the newest preview to the remembered one,
but no further than its limit, so an answer holds the newest of the previews
inserted since the last poll; those beyond the limit are never listed again,
because the client then remembers a newer id.
-/
namespace BeastServer.PreviewPolls

open ByteStrings Exceptions Programs PicturePreviews PicturePreviewHandler PreviewStores Machines
open PreviewRuns Feeds

section Targets

/-- What follows the last occurrence of a text, as found by rfind. -/
def afterLast (lookup : Bytes) : Bytes → Option Bytes
  | [] => if lookup = [] then some [] else none
  | c :: rest =>
    match afterLast lookup rest with
    | some found => some found
    | none => if lookup <+: c :: rest then some ((c :: rest).drop lookup.length) else none

def lookup : Bytes := ascii "?prev="

def returnLimit : ℕ := 10

def picListHandler (target : Bytes) : HandlerProgram (List Pictures) :=
  listPreview ((afterLast lookup target).getD []) returnLimit

end Targets

section Steps

/-- The store and what the client remembers. -/
structure Polling where
  store : PicturePreviewHandler
  prev : Bytes

inductive PollEvent
  | poll
  | other (event : Event)

def answer (limit : ℕ) (s : Polling) : List Pictures :=
  (returned (listPreview s.prev limit) s.store).getD []

def answeredIds (limit : ℕ) (s : Polling) : List Bytes := (answer limit s).map Pictures.uuid

def pollStep (limit : ℕ) (s : Polling) : PollEvent → Polling
  | .poll =>
    { store := finalState (listPreview s.prev limit) s.store
      prev := (answeredIds limit s).head?.getD s.prev }
  | .other event => { s with store := step s.store event }

def polls (cacheLimit limit : ℕ) : Machine Polling PollEvent where
  init := ⟨PicturePreviewHandler.make cacheLimit, []⟩
  enabled _ _ := True
  step := pollStep limit

def storeEvents : List PollEvent → List Event
  | [] => []
  | .poll :: rest => storeEvents rest
  | .other event :: rest => event :: storeEvents rest

/-- The run as the operations on a feed of ids. -/
def operations : List PollEvent → List (Operation Bytes)
  | [] => []
  | .poll :: rest => .read :: operations rest
  | .other (.insert insertion) :: rest => .append insertion.id :: operations rest
  | .other (.list _ _) :: rest => operations rest
  | .other (.visit _ _ _) :: rest => operations rest

/-- The ids inserted since the last poll, the newest first. -/
def fresh (inputs : List PollEvent) : List Bytes := unread (operations inputs)

end Steps

section Feed

variable {cacheLimit limit : ℕ} {inputs before after : List PollEvent} {s : Polling}

@[simp] theorem storeEvents_append :
    storeEvents (before ++ after) = storeEvents before ++ storeEvents after := by
  induction before with
  | nil => rfl
  | cons event before ih => cases event <;> simp [storeEvents, ih]

@[simp] theorem operations_append :
    operations (before ++ after) = operations before ++ operations after := by
  induction before with
  | nil => rfl
  | cons event before ih =>
    cases event with
    | poll => simp [operations, ih]
    | other event => cases event <;> simp [operations, ih]

theorem appended_operations :
    Operation.appended (operations inputs) = insertedIds (storeEvents inputs) := by
  induction inputs with
  | nil => rfl
  | cons event inputs ih =>
    cases event with
    | poll => exact ih
    | other event =>
      cases event with
      | insert insertion => exact congrArg (insertion.id :: ·) ih
      | list prev limit => exact ih
      | visit uuid name index => exact ih

theorem store_run : ((polls cacheLimit limit).run inputs).store =
    (previews cacheLimit).run (storeEvents inputs) := by
  induction inputs using List.reverseRecOn with
  | nil => rfl
  | append_singleton inputs event ih =>
    rw [Machine.run_append_singleton, storeEvents_append]
    cases event with
    | poll =>
      show finalState (listPreview _ limit) _ = _
      rw [(behaves_listPreview _ limit).finalState, ih]
      simp [storeEvents]
    | other event =>
      show step _ event = _
      rw [ih, storeEvents, storeEvents, Machine.run_append_singleton]
      rfl

/-- Pairwise distinct ids, none of them empty. -/
structure ProperIds (inputs : List PollEvent) : Prop where
  distinct : (insertedIds (storeEvents inputs)).Nodup
  nonempty : [] ∉ insertedIds (storeEvents inputs)

theorem ProperIds.of_append (h : ProperIds (before ++ after)) : ProperIds before := by
  have hdistinct := h.distinct
  have hnonempty := h.nonempty
  rw [storeEvents_append, insertedIds_append] at hdistinct hnonempty
  rw [List.mem_append, not_or] at hnonempty
  exact ⟨(List.nodup_append.mp hdistinct).1, hnonempty.1⟩

/-- What the client remembers: the newest id that it has seen, unless nothing
is ever kept, and none that it has not seen. -/
def Remembers (cacheLimit : ℕ) (inputs : List PollEvent) (prev : Bytes) : Prop :=
  ∃ seen, insertedIds (storeEvents inputs) = seen ++ (fresh inputs).reverse ∧
    (prev = [] ∨ prev ∈ seen) ∧
    (0 < cacheLimit → ∀ newest, seen.reverse.head? = some newest → newest = prev)

theorem Remembers.not_fresh (hprev : Remembers cacheLimit inputs s.prev) (h : ProperIds inputs) :
    s.prev ∉ fresh inputs := by
  obtain ⟨seen, hsplit, hseen, -⟩ := hprev
  intro hmem
  have hdistinct := h.distinct
  have hnonempty := h.nonempty
  rw [hsplit] at hdistinct hnonempty
  rcases hseen with hnil | hseen
  · rw [hnil] at hmem
    exact hnonempty (List.mem_append_right _ (List.mem_reverse.mpr hmem))
  · exact (List.nodup_append.mp hdistinct).2.2 _ hseen _ (List.mem_reverse.mpr hmem) rfl

/-- The ids before the remembered one are the fresh ones that are still kept. -/
theorem Remembers.takeWhile (hprev : Remembers cacheLimit inputs s.prev) (h : ProperIds inputs) :
    (newest cacheLimit (insertedIds (storeEvents inputs))).takeWhile
        (fun id => decide (id ≠ s.prev)) = (fresh inputs).take cacheLimit := by
  have hfresh := hprev.not_fresh h
  obtain ⟨seen, hsplit, -, hnewest⟩ := hprev
  rw [hsplit, newest, List.reverse_append, List.reverse_reverse]
  rcases Nat.eq_zero_or_pos cacheLimit with hzero | hpos
  · simp [hzero]
  · exact takeWhile_newest cacheLimit hfresh (hnewest hpos)

theorem store_ids (h : ProperIds inputs) :
    ((polls cacheLimit limit).run inputs).store.ids =
      newest cacheLimit (insertedIds (storeEvents inputs)) := by
  rw [store_run, (represents_run h.distinct).ids, cacheLimit_run]
  rfl

/-- An answer lists the newest of the fresh ids. -/
theorem answer_run (h : ProperIds inputs)
    (hprev : Remembers cacheLimit inputs ((polls cacheLimit limit).run inputs).prev) :
    (listPreview ((polls cacheLimit limit).run inputs).prev limit).run
        ((polls cacheLimit limit).run inputs).store =
      .ok (answer limit ((polls cacheLimit limit).run inputs))
        ((polls cacheLimit limit).run inputs).store ∧
    answeredIds limit ((polls cacheLimit limit).run inputs) =
      cut limit ((fresh inputs).take cacheLimit) := by
  have hrepresents := @represents_run cacheLimit (storeEvents inputs) h.distinct
  rw [← @store_run cacheLimit limit] at hrepresents
  obtain ⟨pictures, hpictures⟩ := hrepresents.lookup
  have hrun := @listPreview_run _ ((polls cacheLimit limit).run inputs).prev limit pictures
    (fun id hid => (hpictures id hid).1)
  have hanswer := returned_ok hrun
  rw [answeredIds, answer, hanswer, Option.getD_some, List.map_map]
  refine ⟨hrun, ?_⟩
  rw [← hprev.takeWhile h, ← store_ids h]
  have hsame : ∀ id ∈ cut limit (((polls cacheLimit limit).run inputs).store.ids.takeWhile
      (fun id => decide (id ≠ ((polls cacheLimit limit).run inputs).prev))),
      (Pictures.uuid ∘ pictures) id = id := by
    intro id hid
    exact (hpictures id ((List.takeWhile_sublist _).subset (cut_subset _ _ hid))).2
  exact (List.map_congr_left hsame).trans (List.map_id' _)

theorem remembers_step (event : PollEvent) (h : ProperIds (inputs ++ [event]))
    (hprev : Remembers cacheLimit inputs ((polls cacheLimit limit).run inputs).prev) :
    Remembers cacheLimit (inputs ++ [event])
      ((polls cacheLimit limit).run (inputs ++ [event])).prev := by
  rw [Machine.run_append_singleton]
  cases event with
  | other event =>
    obtain ⟨seen, hsplit, hseen, hnewest⟩ := hprev
    refine ⟨seen, ?_, hseen, hnewest⟩
    rw [storeEvents_append, insertedIds_append, hsplit]
    cases event with
    | insert insertion => simp [fresh, operations, storeEvents, insertedIds, insertions]
    | list prev limit => simp [fresh, operations, storeEvents, insertedIds, insertions]
    | visit uuid name index => simp [fresh, operations, storeEvents, insertedIds, insertions]
  | poll =>
    have hanswer := (@answer_run cacheLimit limit inputs h.of_append hprev).2
    have hhead : (answeredIds limit ((polls cacheLimit limit).run inputs)).head? =
        ((fresh inputs).take cacheLimit).head? := by
      rw [hanswer, cut_head?]
    obtain ⟨seen, hsplit, hseen, hnewest⟩ := hprev
    have hnone : fresh (inputs ++ [.poll]) = [] := by simp [fresh, operations]
    have hsame : insertedIds (storeEvents (inputs ++ [.poll])) =
        insertedIds (storeEvents inputs) := by
      simp [storeEvents]
    refine ⟨insertedIds (storeEvents inputs), by rw [hnone, hsame]; simp, ?_⟩
    show ((answeredIds limit _).head?.getD _ = [] ∨ (answeredIds limit _).head?.getD _ ∈ _) ∧
      (_ → ∀ newest, _ → newest = (answeredIds limit _).head?.getD _)
    rw [hhead]
    cases hfresh : fresh inputs with
    | nil =>
      rw [hfresh, List.reverse_nil, List.append_nil] at hsplit
      rw [List.take_nil, List.head?_nil, Option.getD_none, hsplit]
      exact ⟨hseen, hnewest⟩
    | cons a rest =>
      rw [hfresh] at hsplit
      cases cacheLimit with
      | zero =>
        rw [List.take_zero, List.head?_nil, Option.getD_none, hsplit]
        exact ⟨hseen.imp_right (List.mem_append_left _), fun hpos => absurd hpos (by omega)⟩
      | succ bound =>
        rw [List.take_succ_cons, List.head?_cons, Option.getD_some, hsplit]
        refine ⟨Or.inr (by simp), ?_⟩
        intro _ newest hnewest
        simpa [eq_comm] using hnewest

theorem remembers_inductive (cacheLimit limit : ℕ) :
    (polls cacheLimit limit).Inductive (fun inputs s =>
      ProperIds inputs → Remembers cacheLimit inputs s.prev) where
  start _ := ⟨[], rfl, Or.inl rfl, by simp⟩
  preserved inputs event _ hprev _ h := by
    rw [← Machine.run_append_singleton]
    exact remembers_step event h (hprev h.of_append)

theorem remembers_run (h : ProperIds inputs) :
    Remembers cacheLimit inputs ((polls cacheLimit limit).run inputs).prev :=
  (remembers_inductive cacheLimit limit).run inputs
    (Machine.admissible_of_enabled _ (fun _ _ => trivial) inputs) h

theorem answeredIds_run (h : ProperIds inputs) :
    answeredIds limit ((polls cacheLimit limit).run inputs) =
      cut limit ((fresh inputs).take cacheLimit) :=
  (answer_run h (remembers_run h)).2

end Feed

section Answers

variable {cacheLimit limit : ℕ} {inputs before between after : List PollEvent} {id : Bytes}

/-- An id is fresh at one poll at most. -/
theorem fresh_disjoint (h : ProperIds (before ++ .poll :: between)) (hid : id ∈ fresh before) :
    id ∉ fresh (before ++ .poll :: between) := by
  have hdistinct := h.distinct
  rw [← appended_operations, operations_append] at hdistinct
  unfold fresh
  rw [operations_append]
  exact unread_disjoint hdistinct hid

theorem fresh_of_answered (h : ProperIds inputs)
    (hid : id ∈ answeredIds limit ((polls cacheLimit limit).run inputs)) : id ∈ fresh inputs := by
  rw [answeredIds_run h] at hid
  exact List.mem_of_mem_take (cut_subset _ _ hid)

/-- Every poll is answered, and no id is in the answers to two of them. -/
theorem polls_never_repeat (cacheLimit limit : ℕ) (inputs : List PollEvent)
    (h : ProperIds inputs) :
    (∀ before after, inputs = before ++ .poll :: after →
      (listPreview ((polls cacheLimit limit).run before).prev limit).run
          ((polls cacheLimit limit).run before).store =
        .ok (answer limit ((polls cacheLimit limit).run before))
          ((polls cacheLimit limit).run before).store) ∧
    ∀ before between after, inputs = before ++ .poll :: (between ++ .poll :: after) →
      ∀ id ∈ answeredIds limit ((polls cacheLimit limit).run before),
        id ∉ answeredIds limit ((polls cacheLimit limit).run (before ++ .poll :: between)) := by
  constructor
  · intro before after heq
    rw [heq] at h
    exact (answer_run h.of_append (remembers_run h.of_append)).1
  · intro before between after heq id hid hagain
    rw [heq, ← List.cons_append, ← List.append_assoc] at h
    have hlater : ProperIds (before ++ .poll :: between) := h.of_append
    exact fresh_disjoint hlater (fresh_of_answered hlater.of_append hid)
      (fresh_of_answered hlater hagain)

/-- A preview is listed and evicted; the second answer lists the next one only. -/
theorem polls_never_repeat_two :
    [97] ∉ answeredIds 0 ((polls 1 0).run ([.other (.insert ⟨[97], 0, []⟩)] ++
      .poll :: [.other (.insert ⟨[98], 0, []⟩)])) :=
  (polls_never_repeat 1 0 ([.other (.insert ⟨[97], 0, []⟩)] ++
    .poll :: ([.other (.insert ⟨[98], 0, []⟩)] ++ .poll :: [])) ⟨by decide, by decide⟩).2
    _ _ _ rfl [97] (by decide +kernel)

theorem mem_take_of_kept (h : ProperIds inputs) (hfresh : id ∈ fresh inputs)
    (hkept : id ∈ ((polls cacheLimit limit).run inputs).store.ids) :
    id ∈ (fresh inputs).take cacheLimit := by
  obtain ⟨seen, hsplit, -⟩ := @remembers_run cacheLimit limit inputs h
  have hdistinct := h.distinct
  rw [hsplit] at hdistinct
  rw [store_ids h, hsplit, newest, List.reverse_append, List.reverse_reverse,
    List.take_append] at hkept
  rcases List.mem_append.mp hkept with hmem | hseen
  · exact hmem
  · have hold := List.mem_reverse.mp (List.mem_of_mem_take hseen)
    exact absurd rfl
      ((List.nodup_append.mp hdistinct).2.2 id hold id (List.mem_reverse.mpr hfresh))

/-- Of the previews inserted since the last poll, the ten newest are in the
answer, and the others are in no answer from then on. -/
theorem polls_list_ten_newest (cacheLimit : ℕ) (inputs : List PollEvent) (h : ProperIds inputs)
    (before after : List PollEvent) (heq : inputs = before ++ .poll :: after) (id : Bytes)
    (hfresh : id ∈ fresh before)
    (hkept : id ∈ ((polls cacheLimit returnLimit).run before).store.ids) :
    (id ∈ (fresh before).take 10 →
      id ∈ answeredIds returnLimit ((polls cacheLimit returnLimit).run before)) ∧
    (id ∉ (fresh before).take 10 →
      id ∉ answeredIds returnLimit ((polls cacheLimit returnLimit).run before) ∧
      ∀ between rest, after = between ++ .poll :: rest →
        id ∉ answeredIds returnLimit
          ((polls cacheLimit returnLimit).run (before ++ .poll :: between))) := by
  rw [heq] at h
  have hids := @answeredIds_run cacheLimit returnLimit before h.of_append
  have hcut : cut returnLimit ((fresh before).take cacheLimit) =
      (fresh before).take (min 10 cacheLimit) := by
    rw [cut, if_neg (by decide), List.take_take]
    rfl
  rw [hids, hcut]
  have hmem := mem_take_of_kept h.of_append hfresh hkept
  refine ⟨?_, ?_⟩
  · intro hten
    rcases Nat.le_total 10 cacheLimit with hle | hle
    · rwa [Nat.min_eq_left hle]
    · rwa [Nat.min_eq_right hle]
  · intro hten
    refine ⟨fun hin => hten ?_, ?_⟩
    · exact List.take_subset_take_left _ (Nat.min_le_left _ _) hin
    · intro between rest hrest hlater
      rw [hrest, ← List.cons_append, ← List.append_assoc] at h
      have hproper : ProperIds (before ++ .poll :: between) := h.of_append
      exact fresh_disjoint hproper hfresh (fresh_of_answered hproper hlater)

/-- Eleven insertions with the ids 1 to 11. -/
def eleven : List PollEvent :=
  [1, 2, 3, 4, 5, 6, 7, 8, 9, 10, 11].map (fun n => .other (.insert ⟨[n], 0, []⟩))

theorem polls_list_ten_newest_eleven :
    [2] ∈ answeredIds returnLimit ((polls 30 returnLimit).run eleven) :=
  (polls_list_ten_newest 30 (eleven ++ .poll :: []) ⟨by decide, by decide⟩ eleven [] rfl [2]
    (by decide) (by decide +kernel)).1 (by decide)

/-- The first of eleven previews is kept, but it is missing from the answer to
the next poll and from the answers to all later ones. -/
theorem eleven_lose_first :
    [1] ∈ fresh eleven ∧ [1] ∈ ((polls 30 returnLimit).run eleven).store.ids ∧
      [1] ∉ answeredIds returnLimit ((polls 30 returnLimit).run eleven) ∧
      ∀ between, ProperIds (eleven ++ .poll :: between) →
        [1] ∉ answeredIds returnLimit
          ((polls 30 returnLimit).run (eleven ++ .poll :: between)) := by
  have hproper : ProperIds eleven := ⟨by decide, by decide⟩
  refine ⟨by decide, by decide +kernel, ?_, ?_⟩
  · rw [answeredIds_run hproper]
    decide
  · intro between h hlater
    exact fresh_disjoint h (by decide) (fresh_of_answered h hlater)

end Answers

end BeastServer.PreviewPolls
