import BeastServer.AdvertisedUrls
import Mathlib.Data.List.Perm.Subperm

/-!
The ids that concurrent calls of createPreview give to their previews.
A call increments the sequence number and, where the random generator fails,
reads it later on; only the insertion holds the mutex. The number that a call
reads is then the number of increments so far, its own and those of the other
threads, so two calls get the same id exactly when no increment lies between
their reads.
-/
namespace BeastServer.PreviewIds

open ByteStrings PicturePreviews Machines AdvertisedUrls
open PicturePreviewHandler (nextSeq makeId store createPreview)

abbrev ThreadId := ℕ

section Steps

/-- Where a thread is in createPreview, with the time and the views of its call:
behind the increment, in the outer handler, in the inner one, or with its id. -/
inductive ThreadState
  | idle
  | counted (now : ℤ) (pvs : List PictureView)
  | failed (now : ℤ) (pvs : List PictureView)
  | refused (now : ℤ) (pvs : List PictureView)
  | named (id : Bytes) (now : ℤ) (pvs : List PictureView)

/-- The logs record the ids that the threads choose and those they insert. -/
structure Shared where
  handler : PicturePreviewHandler
  threads : ThreadId → ThreadState
  chosen : List (ThreadId × Bytes)
  inserted : List (ThreadId × Bytes)

inductive Event
  | count (thread : ThreadId) (now : ℤ) (pvs : List PictureView)
  | random (thread : ThreadId) (outcome : Option Uuid)
  | parse (thread : ThreadId)
  | read (thread : ThreadId)
  | insert (thread : ThreadId)

def Shared.setThread (s : Shared) (thread : ThreadId) (state : ThreadState) : Shared :=
  { s with threads := Function.update s.threads thread state }

def Shared.choose (s : Shared) (thread : ThreadId) (id : Bytes) (now : ℤ)
    (pvs : List PictureView) : Shared :=
  { s with chosen := s.chosen ++ [(thread, id)] }.setThread thread (.named id now pvs)

/-- One step of one thread; an event that does not fit the thread does nothing.
The sequence number is read once for the uuid parser and once for the id. -/
def step (generator : StringGenerator) (s : Shared) : Event → Shared
  | .count thread now pvs =>
    match s.threads thread with
    | .idle => { s with handler := nextSeq s.handler }.setThread thread (.counted now pvs)
    | _ => s
  | .random thread outcome =>
    match s.threads thread with
    | .counted now pvs =>
      match outcome with
      | some uuid => s.choose thread uuid.toString now pvs
      | none => s.setThread thread (.failed now pvs)
    | _ => s
  | .parse thread =>
    match s.threads thread with
    | .failed now pvs =>
      match generator.parse (decimal s.handler.seq.toNat) with
      | some uuid => s.choose thread uuid.toString now pvs
      | none => s.setThread thread (.refused now pvs)
    | _ => s
  | .read thread =>
    match s.threads thread with
    | .refused now pvs => s.choose thread (decimal s.handler.seq.toNat) now pvs
    | _ => s
  | .insert thread =>
    match s.threads thread with
    | .named id now pvs =>
      { s with
        handler := store id now pvs s.handler
        inserted := s.inserted ++ [(thread, id)] }.setThread thread .idle
    | _ => s

def enabled (s : Shared) : Event → Bool
  | .count thread _ _ => match s.threads thread with
    | .idle => true
    | _ => false
  | .random thread _ => match s.threads thread with
    | .counted _ _ => true
    | _ => false
  | .parse thread => match s.threads thread with
    | .failed _ _ => true
    | _ => false
  | .read thread => match s.threads thread with
    | .refused _ _ => true
    | _ => false
  | .insert thread => match s.threads thread with
    | .named _ _ _ => true
    | _ => false

def calls (generator : StringGenerator) (cacheLimit : ℕ) : Machine Shared Event where
  init := ⟨PicturePreviewHandler.make cacheLimit, fun _ => .idle, [], []⟩
  enabled s event := enabled s event = true
  step := step generator

instance (generator : StringGenerator) (cacheLimit : ℕ) (s : Shared) (event : Event) :
    Decidable ((calls generator cacheLimit).enabled s event) :=
  inferInstanceAs (Decidable (enabled s event = true))

def Idle (s : Shared) : Prop := ∀ thread, s.threads thread = .idle

def isCount : Event → Bool
  | .count _ _ _ => true
  | _ => false

def isRead : Event → Bool
  | .read _ => true
  | _ => false

variable {generator : StringGenerator} {s : Shared} {event : Event} {thread : ThreadId}

/-- The uuid parser refuses every sequence number. -/
theorem parse_seq (seq : UInt64) : generator.parse (decimal seq.toNat) = none := by
  have hshort := seq_length seq
  exact generator.needs_digits _ (by omega)

end Steps

section Effects

/-- The id that a thread has chosen and not inserted. -/
def pending (s : Shared) (thread : ThreadId) : List (ThreadId × Bytes) :=
  match s.threads thread with
  | .named id _ _ => [(thread, id)]
  | _ => []

/-- The id that the step chooses. -/
def chosenBy (s : Shared) : Event → List (ThreadId × Bytes)
  | .random thread (some uuid) => [(thread, uuid.toString)]
  | .read thread => [(thread, decimal s.handler.seq.toNat)]
  | _ => []

/-- The id that the step inserts. -/
def insertedBy (s : Shared) : Event → List (ThreadId × Bytes)
  | .insert thread => pending s thread
  | _ => []

/-- What a step does to the sequence number, the logs and the pending ids. -/
structure Effect (s next : Shared) (event : Event) : Prop where
  seq : next.handler.seq = if isCount event = true then s.handler.seq + 1 else s.handler.seq
  chosen : next.chosen = s.chosen ++ chosenBy s event
  inserted : next.inserted = s.inserted ++ insertedBy s event
  pending : ∀ thread, pending s thread ++ (chosenBy s event).filter (·.1 = thread) =
    (insertedBy s event).filter (·.1 = thread) ++ pending next thread

variable {generator : StringGenerator} {s : Shared} {event : Event} {thread : ThreadId}

theorem store_seq (id : Bytes) (now : ℤ) (pvs : List PictureView)
    (handler : PicturePreviewHandler) : (store id now pvs handler).seq = handler.seq := by
  rw [PreviewStores.store_eq]

/-- A step of a thread, of which only the logs and the sequence number matter. -/
theorem effect_setThread {next : Shared} (state : ThreadState)
    (hthreads : next.threads = Function.update s.threads thread state)
    (hseq : next.handler.seq = if isCount event = true then s.handler.seq + 1 else s.handler.seq)
    (hchosen : next.chosen = s.chosen ++ chosenBy s event)
    (hinserted : next.inserted = s.inserted ++ insertedBy s event)
    (hown : ∀ entry ∈ chosenBy s event ++ insertedBy s event, entry.1 = thread)
    (hpending : pending s thread ++ chosenBy s event =
      insertedBy s event ++ pending next thread) : Effect s next event := by
  refine ⟨hseq, hchosen, hinserted, ?_⟩
  intro other
  by_cases hother : other = thread
  · subst hother
    have hall : ∀ log : List (ThreadId × Bytes), (∀ entry ∈ log, entry.1 = other) →
        log.filter (·.1 = other) = log := by
      intro log hlog
      exact List.filter_eq_self.mpr (fun entry hentry => by simp [hlog entry hentry])
    rw [hall _ (fun entry hentry => hown entry (List.mem_append_left _ hentry)),
      hall _ (fun entry hentry => hown entry (List.mem_append_right _ hentry))]
    exact hpending
  · have hnone : ∀ log : List (ThreadId × Bytes), (∀ entry ∈ log, entry.1 = thread) →
        log.filter (·.1 = other) = [] := by
      intro log hlog
      refine List.filter_eq_nil_iff.mpr ?_
      intro entry hentry
      simpa [hlog entry hentry] using fun heq => hother heq.symm
    rw [hnone _ (fun entry hentry => hown entry (List.mem_append_left _ hentry)),
      hnone _ (fun entry hentry => hown entry (List.mem_append_right _ hentry))]
    simp [pending, hthreads, hother]

theorem step_effect (h : enabled s event = true) :
    Effect s (step generator s event) event := by
  cases event with
  | count thread now pvs =>
    cases hthread : s.threads thread <;> simp [enabled, hthread] at h
    simp only [step, hthread]
    exact effect_setThread (.counted now pvs) rfl rfl (by simp [chosenBy, Shared.setThread])
      (by simp [insertedBy, Shared.setThread]) (by simp [chosenBy, insertedBy])
      (by simp [pending, chosenBy, insertedBy, hthread, Shared.setThread])
  | random thread outcome =>
    cases hthread : s.threads thread <;> simp [enabled, hthread] at h
    rename_i now pvs
    cases outcome with
    | none =>
      simp only [step, hthread]
      exact effect_setThread (.failed now pvs) rfl rfl (by simp [chosenBy, Shared.setThread])
        (by simp [insertedBy, Shared.setThread]) (by simp [chosenBy, insertedBy])
        (by simp [pending, chosenBy, insertedBy, hthread, Shared.setThread])
    | some uuid =>
      simp only [step, hthread]
      exact effect_setThread (.named uuid.toString now pvs) rfl rfl rfl
        (by simp [insertedBy, Shared.setThread, Shared.choose]) (by simp [chosenBy, insertedBy])
        (by simp [pending, chosenBy, insertedBy, hthread, Shared.setThread, Shared.choose])
  | parse thread =>
    cases hthread : s.threads thread <;> simp [enabled, hthread] at h
    rename_i now pvs
    simp only [step, hthread, parse_seq]
    exact effect_setThread (.refused now pvs) rfl rfl (by simp [chosenBy, Shared.setThread])
      (by simp [insertedBy, Shared.setThread]) (by simp [chosenBy, insertedBy])
      (by simp [pending, chosenBy, insertedBy, hthread, Shared.setThread])
  | read thread =>
    cases hthread : s.threads thread <;> simp [enabled, hthread] at h
    rename_i now pvs
    simp only [step, hthread]
    exact effect_setThread (.named (decimal s.handler.seq.toNat) now pvs) rfl rfl rfl
      (by simp [insertedBy, Shared.setThread, Shared.choose]) (by simp [chosenBy, insertedBy])
      (by simp [pending, chosenBy, insertedBy, hthread, Shared.setThread, Shared.choose])
  | insert thread =>
    cases hthread : s.threads thread <;> simp [enabled, hthread] at h
    rename_i id now pvs
    have hpending : pending s thread = [(thread, id)] := by simp [pending, hthread]
    simp only [step, hthread]
    refine effect_setThread .idle rfl (store_seq id now pvs s.handler)
      (by simp [chosenBy, Shared.setThread]) (by rw [insertedBy, hpending]; rfl)
      (by simp [chosenBy, insertedBy, hpending]) ?_
    rw [insertedBy, hpending]
    simp [pending, chosenBy, Shared.setThread]

end Effects

section Logs

/-- What each thread has chosen is what it has inserted and what is pending. -/
def Accounted (s : Shared) : Prop :=
  ∀ thread, s.chosen.filter (·.1 = thread) =
    s.inserted.filter (·.1 = thread) ++ pending s thread

def chosenIds (s : Shared) : List Bytes := s.chosen.map (·.2)

def insertedIds (s : Shared) : List Bytes := s.inserted.map (·.2)

variable {generator : StringGenerator} {cacheLimit : ℕ} {s : Shared}

theorem accounted_step {next : Shared} {event : Event} (h : Accounted s)
    (heffect : Effect s next event) : Accounted next := by
  intro thread
  rw [heffect.chosen, heffect.inserted, List.filter_append, List.filter_append, h thread,
    List.append_assoc, heffect.pending thread, List.append_assoc]

theorem accounted_inductive :
    (calls generator cacheLimit).Inductive (fun _ s => Accounted s) := by
  refine Machine.inductive_of_step ?_ ?_
  · intro thread
    rfl
  · intro s event h henabled
    exact accounted_step h (step_effect henabled)

theorem inserted_subperm (h : Accounted s) : (insertedIds s).Subperm (chosenIds s) := by
  have hpairs : s.inserted.Subperm s.chosen := by
    refine List.subperm_ext_iff.mpr ?_
    intro entry _
    have hcount := congrArg (List.count entry) (h entry.1)
    rw [List.count_append, List.count_filter (by simp), List.count_filter (by simp)] at hcount
    omega
  obtain ⟨log, hperm, hsublist⟩ := hpairs
  exact ⟨log.map (·.2), hperm.map _, hsublist.map _⟩

/-- When no call is in progress, the chosen ids have been inserted. -/
theorem inserted_perm (h : Accounted s) (hidle : Idle s) :
    (insertedIds s).Perm (chosenIds s) := by
  refine List.Perm.map _ (List.perm_iff_count.mpr ?_)
  intro entry
  have hcount := congrArg (List.count entry) (h entry.1)
  rw [pending, hidle entry.1, List.append_nil, List.count_filter (by simp),
    List.count_filter (by simp)] at hcount
  exact hcount.symm

end Logs

section Schedules

def counts (inputs : List Event) : ℕ := inputs.countP isCount

/-- The ids that the random generator produces. -/
def randomIds (inputs : List Event) : List Bytes :=
  inputs.filterMap fun
    | .random _ (some uuid) => some uuid.toString
    | _ => none

/-- Since the last read of the sequence number, some thread has incremented it. -/
def CountedSinceRead (before : List Event) : Prop :=
  ∀ first thread rest, before = first ++ .read thread :: rest → 0 < counts rest

/-- Between two reads of the sequence number, some thread increments it. -/
def Separated (inputs : List Event) : Prop :=
  Everywhere (fun before event => isRead event = true → CountedSinceRead before) inputs

variable {generator : StringGenerator} {cacheLimit : ℕ} {inputs : List Event} {s : Shared}

theorem counts_append (before after : List Event) :
    counts (before ++ after) = counts before + counts after := List.countP_append

theorem seq_inductive : (calls generator cacheLimit).Inductive
    (fun inputs s => s.handler.seq = UInt64.ofNat (counts inputs)) := by
  refine ⟨rfl, ?_⟩
  intro inputs event _ hseq henabled
  have heffect := (@step_effect generator _ event henabled).seq
  rw [counts_append]
  show ((step generator _ event).handler.seq) = _
  rw [heffect, hseq]
  by_cases hcount : isCount event = true
  · rw [if_pos hcount]
    simp [counts, hcount]
  · rw [if_neg hcount]
    simp [counts, hcount]

theorem seq_run (h : (calls generator cacheLimit).Admissible inputs)
    (hcalls : counts inputs < 2 ^ 64) :
    ((calls generator cacheLimit).run inputs).handler.seq.toNat = counts inputs := by
  rw [seq_inductive.run inputs h]
  exact UInt64.toNat_ofNat_of_lt' hcalls

/-- An id that has been chosen is random or was read. -/
def Origin (inputs : List Event) (id : Bytes) : Prop :=
  id ∈ randomIds inputs ∨
    ∃ first thread rest, inputs = first ++ .read thread :: rest ∧ id = decimal (counts first)

theorem randomIds_append (before after : List Event) :
    randomIds (before ++ after) = randomIds before ++ randomIds after := List.filterMap_append

/-- The id that an event gives after n increments. -/
def named (n : ℕ) : Event → List Bytes
  | .random _ (some uuid) => [uuid.toString]
  | .read _ => [decimal n]
  | _ => []

theorem chosenBy_ids (event : Event) :
    (chosenBy s event).map (·.2) = named s.handler.seq.toNat event := by
  cases event with
  | random thread outcome => cases outcome <;> rfl
  | _ => rfl

theorem origin_append_singleton (event : Event) (id : Bytes) :
    Origin (inputs ++ [event]) id ↔ Origin inputs id ∨ id ∈ named (counts inputs) event := by
  have hlast : ∀ first thread rest, inputs ++ [event] = first ++ .read thread :: rest →
      (rest = [] ∧ inputs = first ∧ event = .read thread) ∨
        ∃ rest', inputs = first ++ .read thread :: rest' := by
    intro first thread rest heq
    rcases List.eq_nil_or_concat rest with rfl | ⟨rest', last, rfl⟩
    · obtain ⟨hfirst, hevent⟩ := List.append_inj' heq rfl
      exact Or.inl ⟨rfl, hfirst, List.singleton_inj.mp hevent⟩
    · refine Or.inr ⟨rest', ?_⟩
      rw [List.concat_eq_append, ← List.cons_append, ← List.append_assoc] at heq
      exact (List.append_inj' heq rfl).1
  have hrandom : id ∈ randomIds (inputs ++ [event]) ↔
      id ∈ randomIds inputs ∨ id ∈ randomIds [event] := by
    rw [randomIds_append, List.mem_append]
  constructor
  · rintro (hmem | ⟨first, thread, rest, heq, rfl⟩)
    · rcases hrandom.mp hmem with hold | hnew
      · exact Or.inl (Or.inl hold)
      · refine Or.inr ?_
        cases event with
        | random thread outcome =>
          cases outcome with
          | none => simp [randomIds] at hnew
          | some uuid => simpa [randomIds, named] using hnew
        | _ => simp [randomIds] at hnew
    · rcases hlast first thread rest heq with ⟨-, rfl, rfl⟩ | ⟨rest', hinputs⟩
      · exact Or.inr List.mem_cons_self
      · exact Or.inl (Or.inr ⟨first, thread, rest', hinputs, rfl⟩)
  · rintro ((hmem | ⟨first, thread, rest, rfl, rfl⟩) | hnew)
    · exact Or.inl (hrandom.mpr (Or.inl hmem))
    · exact Or.inr ⟨first, thread, rest ++ [event], by simp, rfl⟩
    · cases event with
      | random thread outcome =>
        cases outcome with
        | none => simp [named] at hnew
        | some uuid =>
          refine Or.inl (hrandom.mpr (Or.inr ?_))
          simpa [randomIds, named] using hnew
      | read thread =>
        rw [named, List.mem_singleton] at hnew
        exact Or.inr ⟨inputs, thread, [], rfl, hnew⟩
      | _ => simp [named] at hnew

theorem chosenIds_append_singleton (event : Event)
    (h : (calls generator cacheLimit).Admissible (inputs ++ [event]))
    (hcalls : counts inputs < 2 ^ 64) :
    chosenIds ((calls generator cacheLimit).run (inputs ++ [event])) =
      chosenIds ((calls generator cacheLimit).run inputs) ++ named (counts inputs) event := by
  obtain ⟨hbefore, henabled⟩ := (Machine.admissible_append_singleton _ _ _).mp h
  have heffect := @step_effect generator _ event henabled
  rw [Machine.run_append_singleton, chosenIds]
  show ((step generator _ event).chosen).map (·.2) = _
  rw [heffect.chosen, List.map_append, chosenBy_ids, seq_run hbefore hcalls]
  rfl

theorem mem_chosenIds (h : (calls generator cacheLimit).Admissible inputs)
    (hcalls : counts inputs < 2 ^ 64) (id : Bytes) :
    id ∈ chosenIds ((calls generator cacheLimit).run inputs) ↔ Origin inputs id := by
  induction inputs using List.reverseRecOn with
  | nil => simp [calls, chosenIds, Origin, randomIds]
  | append_singleton inputs event ih =>
    have hfewer : counts inputs < 2 ^ 64 := by
      rw [counts_append] at hcalls
      omega
    rw [chosenIds_append_singleton event h hfewer, origin_append_singleton, List.mem_append,
      ih (Machine.admissible_of_append _ h) hfewer]

theorem toString_ne_decimal (uuid : Uuid) {n : ℕ} (hn : n < 2 ^ 64) :
    uuid.toString ≠ decimal n := by
  intro heq
  have hlong := toString_length uuid
  have hshort : (decimal n).length ≤ 20 := decimal_length_le (by omega) (by omega)
  rw [heq] at hlong
  omega

theorem decimal_notMem_randomIds {n : ℕ} (hn : n < 2 ^ 64) : decimal n ∉ randomIds inputs := by
  intro hmem
  obtain ⟨event, -, hevent⟩ := List.mem_filterMap.mp hmem
  cases event with
  | random thread outcome =>
    cases outcome with
    | none => simp at hevent
    | some uuid => exact toString_ne_decimal uuid hn (Option.some.inj hevent)
  | _ => simp at hevent

/-- The number that is read is new exactly when it has been incremented since
the last time. -/
theorem read_fresh_iff (hcalls : counts inputs < 2 ^ 64) :
    ¬ Origin inputs (decimal (counts inputs)) ↔ CountedSinceRead inputs := by
  constructor
  · intro hfresh first thread rest heq
    rw [Nat.pos_iff_ne_zero]
    intro hzero
    refine hfresh (Or.inr ⟨first, thread, rest, heq, ?_⟩)
    have hsame : counts inputs = counts first := by
      rw [heq, counts_append]
      simpa [counts, isCount] using hzero
    rw [hsame]
  · rintro hcounted (hmem | ⟨first, thread, rest, heq, hid⟩)
    · exact decimal_notMem_randomIds hcalls hmem
    · have hpos := hcounted first thread rest heq
      have hsame := decimal_injective hid
      rw [heq, counts_append] at hsame
      have hcons : counts (.read thread :: rest) = counts rest := by simp [counts, isCount]
      omega

theorem chosenIds_nodup_iff (h : (calls generator cacheLimit).Admissible inputs)
    (hfresh : (randomIds inputs).Nodup) (hcalls : counts inputs < 2 ^ 64) :
    (chosenIds ((calls generator cacheLimit).run inputs)).Nodup ↔ Separated inputs := by
  induction inputs using List.reverseRecOn with
  | nil => exact ⟨fun _ => everywhere_nil _, fun _ => List.nodup_nil⟩
  | append_singleton inputs event ih =>
    have hfewer : counts inputs < 2 ^ 64 := by
      rw [counts_append] at hcalls
      omega
    have hbefore := Machine.admissible_of_append _ h
    rw [randomIds_append, List.nodup_append'] at hfresh
    obtain ⟨hfreshBefore, -, hdisjoint⟩ := hfresh
    have hrest := ih hbefore hfreshBefore hfewer
    have hmem := @mem_chosenIds generator cacheLimit inputs hbefore hfewer
    rw [chosenIds_append_singleton event h hfewer, Separated, everywhere_append_singleton,
      List.nodup_append', hrest]
    refine and_congr_right (fun _ => ?_)
    cases event with
    | read thread =>
      rw [named, List.disjoint_singleton, hmem, read_fresh_iff hfewer]
      simp [isRead]
    | random thread outcome =>
      cases outcome with
      | none => simp [named, isRead]
      | some uuid =>
        have hnew : ¬ Origin inputs uuid.toString := by
          rintro (hold | ⟨first, other, rest, heq, hid⟩)
          · exact hdisjoint hold (by simp [randomIds])
          · refine toString_ne_decimal uuid ?_ hid
            rw [heq, counts_append] at hfewer
            omega
        rw [named, List.disjoint_singleton, hmem]
        simp [isRead, hnew]
    | _ => simp [named, isRead]

end Schedules

/-- If the sequence number is incremented between any two of its reads, no id is
inserted twice; when no call is in progress, this is the only way. -/
theorem ids_distinct_iff_separated (generator : StringGenerator) (cacheLimit : ℕ)
    (inputs : List Event) (h : (calls generator cacheLimit).Admissible inputs)
    (hfresh : (randomIds inputs).Nodup) (hcalls : counts inputs < 2 ^ 64) :
    (Separated inputs → (insertedIds ((calls generator cacheLimit).run inputs)).Nodup) ∧
      (Idle ((calls generator cacheLimit).run inputs) →
        ((insertedIds ((calls generator cacheLimit).run inputs)).Nodup ↔ Separated inputs)) := by
  have haccounted := accounted_inductive.run inputs h
  have hchosen := chosenIds_nodup_iff h hfresh hcalls
  constructor
  · intro hseparated
    obtain ⟨log, hperm, hsublist⟩ := inserted_subperm haccounted
    exact hperm.nodup_iff.mp (hsublist.nodup (hchosen.mpr hseparated))
  · intro hidle
    rw [(inserted_perm haccounted hidle).nodup_iff, hchosen]

/-- Two calls without random uuids, the second behind the read of the first. -/
def oneAfterTheOther : List Event :=
  [.count 0 0 [], .random 0 none, .parse 0, .read 0, .count 1 0 [], .random 1 none, .insert 0,
    .parse 1, .read 1, .insert 1]

theorem oneAfterTheOther_distinct :
    (Separated oneAfterTheOther →
        (insertedIds ((calls noUuids 10).run oneAfterTheOther)).Nodup) ∧
      (Idle ((calls noUuids 10).run oneAfterTheOther) →
        ((insertedIds ((calls noUuids 10).run oneAfterTheOther)).Nodup ↔
          Separated oneAfterTheOther)) :=
  ids_distinct_iff_separated noUuids 10 oneAfterTheOther
    (Machine.admissible_of_enabledFrom _ _ (by decide +kernel)) (by decide) (by decide)

/-- Both calls increment the number before one of them reads it. -/
def bothCounted : List Event :=
  [.count 0 0 [], .count 1 0 [], .random 0 none, .random 1 none, .parse 0, .parse 1, .read 0,
    .read 1, .insert 0, .insert 1]

theorem bothCounted_same_id :
    (calls noUuids 10).Admissible bothCounted ∧ (randomIds bothCounted).Nodup ∧
      counts bothCounted < 2 ^ 64 ∧
      insertedIds ((calls noUuids 10).run bothCounted) = [ascii "2", ascii "2"] ∧
      ¬ (insertedIds ((calls noUuids 10).run bothCounted)).Nodup := by
  have hids : insertedIds ((calls noUuids 10).run bothCounted) = [ascii "2", ascii "2"] := by
    decide +kernel
  refine ⟨Machine.admissible_of_enabledFrom _ _ (by decide +kernel), by decide, by decide, hids, ?_⟩
  rw [hids]
  decide

end BeastServer.PreviewIds
