import BeastServer.JsonValues
import BeastServer.SamplingProgress
import Mathlib.Logic.Function.Basic

/-!
The samplings of SamplingMock and the requests that start and stop them.
The members of SamplingMock hold samplingMutex, so each is one step; the threads
of the samplings go on meanwhile. Erasing a sampling runs its destructor under
the mutex, until the thread has been joined. A request to start a sampling tests
in one section whether one is running and creates its own in the next.
-/
namespace BeastServer.Samplings

open ByteStrings Exceptions JsonValues Machines SamplingBlocks SamplingBlock SamplingProgress

section Mock

/-- SamplingBlock::getStatus -/
def getStatus (block : SamplingBlock) (detail : Bool) : Json :=
  let status := if block.running = true then ascii "running" else ascii "finished"
  let pairs := [(ascii "id", Json.numberUnsigned block.id), (ascii "status", .string status)]
  if detail = true then
    Json.ofPairs (pairs ++
      [(ascii "progress", .numberInteger (progress block).toInt64),
        (ascii "snaps", .array (block.snaps.map Json.numberUnsigned))])
  else Json.ofPairs pairs

/-- destroyed is the sampling whose destructor runs; the mutex is held then. -/
structure SamplingMock where
  samplingId : UInt64
  samplings : List (UInt64 × SamplingBlock)
  destroyed : Option Stoppable

namespace SamplingMock

def make : SamplingMock := ⟨1, [], none⟩

def isRunning (mock : SamplingMock) : Bool := mock.samplings.any (fun it => it.2.running)

/-- SamplingMock::getStatus; at throws for an id without a sampling. -/
def statusOf (mock : SamplingMock) (sampleId : UInt64) (detail : Bool) : Except Exception Json :=
  match mock.samplings.lookup sampleId with
  | some block => .ok (getStatus block detail)
  | none => .error .mapAt

/-- Where the id is taken, emplace destroys the new sampling again. -/
def start (timeout snapsNeeded : Int32) (mock : SamplingMock) : SamplingMock :=
  let sampleBlock := SamplingBlock.make mock.samplingId timeout snapsNeeded
  match mock.samplings.lookup mock.samplingId with
  | none =>
    { mock with
      samplingId := mock.samplingId + 1
      samplings := (mock.samplingId, sampleBlock) :: mock.samplings }
  | some _ =>
    { mock with
      samplingId := mock.samplingId + 1
      destroyed := some ⟨sampleBlock, .absent⟩ }

def stop (sampleId : UInt64) (mock : SamplingMock) : SamplingMock :=
  match mock.samplings.lookup sampleId with
  | some block =>
    { mock with
      samplings := mock.samplings.filter (fun it => it.1 != sampleId)
      destroyed := some ⟨block, .absent⟩ }
  | none => mock

/-- A step of the thread of a sampling. -/
def runThread (sampleId newSnapId : UInt64) (mock : SamplingMock) : SamplingMock :=
  { mock with
    samplings := mock.samplings.map (fun it =>
      if it.1 = sampleId then (it.1, it.2.run newSnapId) else it) }

/-- A step of the destructor or of the thread that it waits for; the join ends it. -/
def runDestroyed (event : SamplingBlocks.Event) (mock : SamplingMock) : SamplingMock :=
  { mock with
    destroyed := mock.destroyed.bind (fun s =>
      if event = .join then none else some (SamplingBlocks.step s event)) }

/-- All samplings whose threads have not been joined. -/
def blocks (mock : SamplingMock) : List SamplingBlock :=
  mock.samplings.map Prod.snd ++ (mock.destroyed.map Stoppable.block).toList

end SamplingMock

end Mock

section Requests

abbrev ThreadId := ℕ

/-- Where a request to start a sampling is: behind its test, or behind start. -/
inductive RequestState
  | idle
  | tested (timeout snapsNeeded : Int32)
  | started (sampleId : UInt64)

structure Shared where
  mock : SamplingMock
  requests : ThreadId → RequestState
  answers : List (ThreadId × Except Exception Json)

inductive Event
  | test (thread : ThreadId) (timeout snapsNeeded : Int32)
  | start (thread : ThreadId)
  | report (thread : ThreadId)
  | stop (sampleId : UInt64)
  | thread (sampleId newSnapId : UInt64)
  | destroyed (event : SamplingBlocks.Event)

def Shared.setRequest (s : Shared) (thread : ThreadId) (state : RequestState) : Shared :=
  { s with requests := Function.update s.requests thread state }

def Shared.answer (s : Shared) (thread : ThreadId) (result : Except Exception Json) : Shared :=
  { s with answers := s.answers ++ [(thread, result)] }.setRequest thread .idle

/-- The catch clause around getStatus names the id. -/
def reported (mock : SamplingMock) (sampleId : UInt64) : Except Exception Json :=
  match mock.statusOf sampleId false with
  | .ok json => .ok json
  | .error (.outOfRange _) => .error (.notFound (ascii "id: " ++ decimal sampleId.toNat))
  | .error e => .error e

/-- The sections of samplingStartHandler and of a stop, and the threads. -/
def step (s : Shared) : Event → Shared
  | .test thread timeout snapsNeeded =>
    if s.mock.isRunning = true then
      s.answer thread (.error (.runtimeError (ascii "already running")))
    else s.setRequest thread (.tested timeout snapsNeeded)
  | .start thread =>
    match s.requests thread with
    | .tested timeout snapsNeeded =>
      { s with mock := s.mock.start timeout snapsNeeded }.setRequest thread
        (.started s.mock.samplingId)
    | _ => s
  | .report thread =>
    match s.requests thread with
    | .started sampleId => s.answer thread (reported s.mock sampleId)
    | _ => s
  | .stop sampleId => { s with mock := s.mock.stop sampleId }
  | .thread sampleId newSnapId => { s with mock := s.mock.runThread sampleId newSnapId }
  | .destroyed event => { s with mock := s.mock.runDestroyed event }

/-- The mutex is free. -/
def Free (s : Shared) : Prop := s.mock.destroyed.isNone = true

instance (s : Shared) : Decidable (Free s) := inferInstanceAs (Decidable (_ = true))

def isTested : RequestState → Bool
  | .tested _ _ => true
  | _ => false

def isStarted : RequestState → Bool
  | .started _ => true
  | _ => false

def isIdle : RequestState → Bool
  | .idle => true
  | _ => false

def enabled (s : Shared) : Event → Prop
  | .test thread _ _ => Free s ∧ isIdle (s.requests thread) = true
  | .start thread => Free s ∧ isTested (s.requests thread) = true
  | .report thread => Free s ∧ isStarted (s.requests thread) = true
  | .stop _ => Free s
  | .thread _ _ => True
  | .destroyed event =>
    s.mock.destroyed.any (fun s => decide (SamplingBlocks.enabled s event)) = true

instance decidableEnabled (s : Shared) (event : Event) : Decidable (enabled s event) := by
  cases event <;> unfold enabled <;> infer_instance

def requests : Machine Shared Event where
  init := ⟨SamplingMock.make, fun _ => .idle, []⟩
  enabled := enabled
  step := step

instance (s : Shared) (event : Event) : Decidable (requests.enabled s event) :=
  decidableEnabled s event

end Requests

section Exclusion

/-- At most one sampling has its flag set. -/
def AtMostOneRunning (mock : SamplingMock) : Prop :=
  mock.blocks.countP (fun block => block.running) ≤ 1

/-- A request that finds a sampling running is refused and changes no sampling. -/
def Refused (s : Shared) : Event → Prop
  | .test thread timeout snapsNeeded =>
    0 < s.mock.blocks.countP (fun block => block.running) →
      step s (.test thread timeout snapsNeeded) =
        s.answer thread (.error (.runtimeError (ascii "already running")))
  | _ => True

/-- When a request gets to start, no sampling is running. -/
def StartsAlone (s : Shared) : Event → Prop
  | .start _ => s.mock.isRunning = false
  | _ => True

/-- The flag is set, or the thread is about to set it. -/
def isActive (block : SamplingBlock) : Bool :=
  block.running || decide (block.position = .starting)

/-- The flag of a sampling that is not being destroyed is only cleared by its
own thread, and at most one sampling is active. -/
structure Exclusive (mock : SamplingMock) : Prop where
  starting : ∀ it ∈ mock.samplings, it.2.position = .starting → it.2.running = true
  active : mock.blocks.countP isActive ≤ 1

variable {mock : SamplingMock} {s : Shared} {block : SamplingBlock}

/-- No step leads back to the start of the thread. -/
theorem run_started (newSnapId : UInt64) : (block.run newSnapId).position ≠ .starting := by
  unfold run
  split
  case h_3 => split <;> simp
  case h_4 => split <;> simp
  case h_9 hposition => split <;> simp [hposition]
  case h_10 hposition => simp [hposition]
  all_goals simp

/-- Only the first step of the thread sets the flag. -/
theorem run_running (newSnapId : UInt64) (h : (block.run newSnapId).running = true) :
    isActive block = true := by
  unfold run at h
  unfold isActive
  split at h
  case h_1 hposition => simp [hposition]
  case h_3 => split at h <;> simp_all
  case h_4 => split at h <;> simp_all
  case h_9 => split at h <;> simp_all
  all_goals simp_all

theorem isActive_run (newSnapId : UInt64) (h : isActive (block.run newSnapId) = true) :
    isActive block = true := by
  have hrunning : (block.run newSnapId).running = true := by
    simpa [isActive, @run_started block newSnapId] using h
  exact run_running newSnapId hrunning

theorem isActive_step {s : Stoppable} (event : SamplingBlocks.Event)
    (h : isActive (SamplingBlocks.step s event).block = true) : isActive s.block = true := by
  cases event with
  | thread newSnapId => exact isActive_run newSnapId h
  | readRunning => rwa [readRunning_block] at h
  | clearRunning =>
    have hstarting : decide (s.block.position = .starting) = true := h
    simp [isActive, hstarting]
  | join => exact h

theorem active_of_running (h : block.running = true) : isActive block = true := by
  simp [isActive, h]

theorem lookup_mem {samplings : List (UInt64 × SamplingBlock)} {sampleId : UInt64}
    (h : samplings.lookup sampleId = some block) : (sampleId, block) ∈ samplings := by
  obtain ⟨before, after, hsamplings, -⟩ := List.lookup_eq_some_iff.mp h
  rw [hsamplings]
  exact List.mem_append_right _ List.mem_cons_self

/-- The sampling that is taken out of the map is counted outside of it. -/
theorem countP_stop {samplings : List (UInt64 × SamplingBlock)} {sampleId : UInt64}
    (p : SamplingBlock → Bool) (h : samplings.lookup sampleId = some block) :
    ((samplings.filter (fun it => it.1 != sampleId)).map Prod.snd ++ [block]).countP p ≤
      (samplings.map Prod.snd).countP p := by
  have hmem : (sampleId, block) ∈ samplings.filter (fun it => ! (it.1 != sampleId)) :=
    List.mem_filter.mpr ⟨lookup_mem h, by simp⟩
  have htaken : [block].countP p ≤
      (samplings.filter (fun it => ! (it.1 != sampleId))).countP (p ∘ Prod.snd) := by
    rw [List.countP_singleton]
    split
    · rename_i hp
      exact List.countP_pos_iff.mpr ⟨_, hmem, hp⟩
    · exact Nat.zero_le _
  have hsplit := List.countP_eq_countP_filter_add samplings (p ∘ Prod.snd)
    (fun it => it.1 != sampleId)
  rw [List.countP_append, List.countP_map, List.countP_map, hsplit]
  exact Nat.add_le_add_left htaken _

theorem blocks_free (hfree : mock.destroyed = none) :
    mock.blocks = mock.samplings.map Prod.snd := by
  simp [SamplingMock.blocks, hfree]

/-- Where the mutex is free, isRunning counts the flags. -/
theorem isRunning_iff (hfree : mock.destroyed = none) :
    mock.isRunning = true ↔ 0 < mock.blocks.countP (fun block => block.running) := by
  rw [blocks_free hfree, List.countP_map, List.countP_pos_iff, SamplingMock.isRunning,
    List.any_eq_true]
  rfl

theorem exclusive_make : Exclusive SamplingMock.make := by
  constructor
  · intro it hit
    simp [SamplingMock.make] at hit
  · decide

/-- The new sampling is one more, in the map or on its way out of it. -/
theorem countP_start (timeout snapsNeeded : Int32) (p : SamplingBlock → Bool)
    (hfree : mock.destroyed = none)
    (hnew : p (SamplingBlock.make mock.samplingId timeout snapsNeeded) = true) :
    (mock.start timeout snapsNeeded).blocks.countP p = mock.blocks.countP p + 1 := by
  rw [blocks_free hfree]
  unfold SamplingMock.start
  cases hlookup : mock.samplings.lookup mock.samplingId with
  | none =>
    show (([_] ++ mock.samplings.map Prod.snd) ++
      (mock.destroyed.map Stoppable.block).toList).countP p = _
    rw [hfree, Option.map_none, Option.toList_none, List.append_nil, List.countP_append,
      List.countP_singleton, if_pos hnew]
    omega
  | some taken =>
    show (mock.samplings.map Prod.snd ++ [_]).countP p = _
    rw [List.countP_append, List.countP_singleton, if_pos hnew]

/-- A sampling is started where no flag is set, hence where none is active. -/
theorem exclusive_start (timeout snapsNeeded : Int32) (hfree : mock.destroyed = none)
    (halone : mock.isRunning = false) (h : Exclusive mock) :
    Exclusive (mock.start timeout snapsNeeded) := by
  have hquiet : mock.blocks.countP isActive = 0 := by
    rw [blocks_free hfree, List.countP_map, List.countP_eq_zero]
    intro it hit hactive
    have hflag : it.2.running = false := by
      rw [SamplingMock.isRunning, List.any_eq_false] at halone
      simpa using halone it hit
    have hstarting : it.2.position = .starting := by
      simpa [isActive, hflag] using hactive
    rw [h.starting it hit hstarting] at hflag
    cases hflag
  constructor
  · unfold SamplingMock.start
    cases hlookup : mock.samplings.lookup mock.samplingId with
    | none =>
      intro it hit hstarting
      rcases List.mem_cons.mp hit with rfl | hmem
      · rfl
      · exact h.starting it hmem hstarting
    | some taken => exact h.starting
  · rw [countP_start timeout snapsNeeded isActive hfree rfl, hquiet]

theorem exclusive_stop (sampleId : UInt64) (hfree : mock.destroyed = none) (h : Exclusive mock) :
    Exclusive (mock.stop sampleId) := by
  unfold SamplingMock.stop
  cases hlookup : mock.samplings.lookup sampleId with
  | none => exact h
  | some block =>
    constructor
    · intro it hit hstarting
      exact h.starting it (List.mem_filter.mp hit).1 hstarting
    · have hactive := h.active
      rw [blocks_free hfree] at hactive
      exact le_trans (countP_stop isActive hlookup) hactive

theorem exclusive_runThread (sampleId newSnapId : UInt64) (h : Exclusive mock) :
    Exclusive (mock.runThread sampleId newSnapId) := by
  constructor
  · intro it hit hstarting
    obtain ⟨before, hbefore, rfl⟩ := List.mem_map.mp hit
    split at hstarting
    · exact absurd hstarting (run_started newSnapId)
    · rename_i hother
      rw [if_neg hother]
      exact h.starting before hbefore hstarting
  · refine le_trans ?_ h.active
    rw [SamplingMock.blocks, SamplingMock.blocks, List.countP_append, List.countP_append]
    refine Nat.add_le_add_right ?_ _
    rw [SamplingMock.runThread, List.map_map, List.countP_map, List.countP_map]
    refine List.countP_mono_left ?_
    intro it _ hactive
    simp only [Function.comp_apply] at hactive ⊢
    split at hactive
    · exact isActive_run newSnapId hactive
    · exact hactive

theorem exclusive_runDestroyed (event : SamplingBlocks.Event) (h : Exclusive mock) :
    Exclusive (mock.runDestroyed event) := by
  constructor
  · exact h.starting
  · refine le_trans ?_ h.active
    rw [SamplingMock.blocks, SamplingMock.blocks, List.countP_append, List.countP_append]
    refine Nat.add_le_add_left ?_ _
    unfold SamplingMock.runDestroyed
    cases hdestroyed : mock.destroyed with
    | none => exact le_refl _
    | some s =>
      by_cases hjoin : event = .join
      · simp [hjoin]
      · simp only [Option.bind_some, if_neg hjoin, Option.map_some, Option.toList_some,
          List.countP_singleton]
        by_cases hactive : isActive (SamplingBlocks.step s event).block = true
        · rw [if_pos hactive, if_pos (isActive_step event hactive)]
        · rw [if_neg hactive]
          exact Nat.zero_le _

theorem exclusive_step (event : Event) (h : Exclusive s.mock) (henabled : enabled s event)
    (halone : StartsAlone s event) : Exclusive (step s event).mock := by
  cases event with
  | test thread timeout snapsNeeded =>
    show Exclusive (ite _ _ _ : Shared).mock
    split
    · exact h
    · exact h
  | start thread =>
    obtain ⟨hfree, htested⟩ := henabled
    cases hrequest : s.requests thread <;> simp [hrequest, isTested] at htested
    simp only [step, hrequest]
    exact exclusive_start _ _ (Option.isNone_iff_eq_none.mp hfree) halone h
  | report thread =>
    obtain ⟨-, hstarted⟩ := henabled
    cases hrequest : s.requests thread <;> simp [hrequest, isStarted] at hstarted
    simp only [step, hrequest]
    exact h
  | stop sampleId => exact exclusive_stop sampleId (Option.isNone_iff_eq_none.mp henabled) h
  | thread sampleId newSnapId => exact exclusive_runThread sampleId newSnapId h
  | destroyed event => exact exclusive_runDestroyed event h

theorem atMostOneRunning_of_exclusive (h : Exclusive mock) : AtMostOneRunning mock :=
  le_trans (List.countP_mono_left (fun _ _ hrunning => active_of_running hrunning)) h.active

/-- The new sampling runs, so no other may do so. -/
theorem startsAlone_of_atMostOne {event : Event} (henabled : enabled s event)
    (h : AtMostOneRunning (step s event).mock) : StartsAlone s event := by
  cases event with
  | start thread =>
    obtain ⟨hfree, htested⟩ := henabled
    have hnone := Option.isNone_iff_eq_none.mp hfree
    cases hrequest : s.requests thread <;> simp [hrequest, isTested] at htested
    rename_i timeout snapsNeeded
    have hmock : (step s (.start thread)).mock = s.mock.start timeout snapsNeeded := by
      simp only [step, hrequest]
      rfl
    rw [hmock, AtMostOneRunning, countP_start timeout snapsNeeded _ hnone rfl] at h
    by_contra hrunning
    have hsome := (isRunning_iff hnone).mp (Bool.not_eq_false _ ▸ hrunning)
    omega
  | _ => trivial

theorem refused_step {event : Event} (henabled : enabled s event) : Refused s event := by
  cases event with
  | test thread timeout snapsNeeded =>
    intro hsome
    obtain ⟨hfree, -⟩ := henabled
    have hrunning := (isRunning_iff (Option.isNone_iff_eq_none.mp hfree)).mpr hsome
    simp only [step, if_pos hrunning]
  | _ => trivial

theorem exclusive_run (inputs : List Event) (h : requests.Admissible inputs)
    (halone : Everywhere (fun before event => StartsAlone (requests.run before) event) inputs) :
    Exclusive (requests.run inputs).mock := by
  induction inputs using List.reverseRecOn with
  | nil => exact exclusive_make
  | append_singleton inputs event ih =>
    obtain ⟨hbefore, henabled⟩ := (Machine.admissible_append_singleton _ _ _).mp h
    obtain ⟨haloneBefore, hnow⟩ := (everywhere_append_singleton _ _ _).mp halone
    rw [Machine.run_append_singleton]
    exact exclusive_step event (ih hbefore haloneBefore) henabled hnow

/-- Over all interleavings: at most one sampling runs in every state, and the
requests that find one are refused, if and only if no request gets to start
while a sampling is running. -/
theorem one_running_iff_starts_alone (inputs : List Event) (h : requests.Admissible inputs) :
    ((∀ before after, inputs = before ++ after → AtMostOneRunning (requests.run before).mock) ∧
        Everywhere (fun before event => Refused (requests.run before) event) inputs) ↔
      Everywhere (fun before event => StartsAlone (requests.run before) event) inputs := by
  constructor
  · intro hexclusive before event after heq
    refine startsAlone_of_atMostOne (h before event after heq) ?_
    have hnext := hexclusive.1 (before ++ [event]) after (by rw [heq, List.append_cons])
    rwa [Machine.run_append_singleton] at hnext
  · intro halone
    constructor
    · intro before after heq
      rw [heq] at h halone
      exact atMostOneRunning_of_exclusive (exclusive_run before
        (Machine.admissible_of_append _ h) (everywhere_of_append _ before after halone))
    · intro before event after heq
      exact refused_step (h before event after heq)

/-- A request for a second sampling while the first one runs. -/
def secondRefused : List Event := [.test 0 60 (-1), .start 0, .test 1 60 (-1), .report 0]

theorem one_running_iff_secondRefused :
    ((∀ before after, secondRefused = before ++ after →
          AtMostOneRunning (requests.run before).mock) ∧
        Everywhere (fun before event => Refused (requests.run before) event) secondRefused) ↔
      Everywhere (fun before event => StartsAlone (requests.run before) event) secondRefused :=
  one_running_iff_starts_alone secondRefused
    (Machine.admissible_of_enabledFrom _ _ (by decide +kernel))

/-- Both requests test before one of them starts its sampling. -/
def bothTested : List Event := [.test 0 60 (-1), .test 1 60 (-1), .start 0, .start 1]

theorem bothTested_two_running :
    requests.Admissible bothTested ∧
      (requests.run bothTested).mock.blocks.countP (fun block => block.running) = 2 ∧
      ¬ AtMostOneRunning (requests.run bothTested).mock := by
  have htwo : (requests.run bothTested).mock.blocks.countP (fun block => block.running) = 2 := by
    decide +kernel
  refine ⟨Machine.admissible_of_enabledFrom _ _ (by decide +kernel), htwo, ?_⟩
  rw [AtMostOneRunning, htwo]
  decide

end Exclusion

end BeastServer.Samplings
