import BeastServer.Machines
import Mathlib.Algebra.Order.Ring.Int
import Mathlib.Data.List.Basic
import Mathlib.Data.Nat.Find

/-!
A sampling and the loop that its thread runs.
Each access to a shared member is one step of the thread. The loop ends when
enough seconds have elapsed or enough snaps are listed, but the list is cut to
its last thirty snaps, so that more than thirty are never counted. A sampling is
stopped from outside by clearing its flag and joining the thread, which sets
that flag itself when it starts.
-/
namespace BeastServer.SamplingBlocks

open Machines

section Blocks

/-- What the thread of a sampling does next; appending holds the new snap, and
trimming is the inner loop. -/
inductive Position
  | starting
  | resetting
  | testing
  | deciding
  | ending
  | sleeping
  | snapping
  | appending (newSnapId : UInt64)
  | trimming
  | finished
  deriving DecidableEq

/-- rounds and sampled are counters of the model: how often the body of the loop
has been entered, and how often its sampling branch has counted a second. -/
structure SamplingBlock where
  id : UInt64
  snaps : List UInt64
  running : Bool
  timeout : Int32
  snapsNeeded : Int32
  elapsed : Int32
  position : Position
  rounds : ℕ
  sampled : ℕ
  deriving DecidableEq

def maxSnaps : ℕ := 30

namespace SamplingBlock

def make (id : UInt64) (timeout snapsNeeded : Int32) : SamplingBlock where
  id := id
  snaps := []
  running := true
  timeout := timeout
  snapsNeeded := snapsNeeded
  elapsed := 0
  position := .starting
  rounds := 0
  sampled := 0

/-- The condition under which the loop clears its flag. -/
def Done (block : SamplingBlock) : Prop :=
  (block.timeout > 0 ∧ block.elapsed ≥ block.timeout) ∨
    (block.snapsNeeded > 0 ∧ Int32.ofNat block.snaps.length ≥ block.snapsNeeded)

instance (block : SamplingBlock) : Decidable (Done block) :=
  inferInstanceAs (Decidable (_ ∨ _))

/-- One step of SamplingBlock::run; newSnapId is what generateSnap returns. -/
def run (newSnapId : UInt64) (block : SamplingBlock) : SamplingBlock :=
  match block.position with
  | .starting => { block with running := true, position := .resetting }
  | .resetting => { block with elapsed := 0, position := .testing }
  | .testing =>
    if block.running = true then
      { block with position := .deciding, rounds := block.rounds + 1 }
    else { block with position := .finished }
  | .deciding =>
    if block.Done then { block with position := .ending }
    else { block with position := .sleeping }
  | .ending => { block with running := false, position := .testing }
  | .sleeping =>
    { block with
      elapsed := block.elapsed + 1
      position := .snapping
      sampled := block.sampled + 1 }
  | .snapping => { block with position := .appending newSnapId }
  | .appending newSnapId =>
    { block with snaps := block.snaps ++ [newSnapId], position := .trimming }
  | .trimming =>
    if block.snaps.length > maxSnaps then { block with snaps := block.snaps.tail }
    else { block with position := .testing }
  | .finished => block

/-- The steps of the thread while nobody stops the sampling. -/
def runAll (newSnapIds : List UInt64) (block : SamplingBlock) : SamplingBlock :=
  newSnapIds.foldl (fun block newSnapId => block.run newSnapId) block

end SamplingBlock

end Blocks

open SamplingBlock

section Loops

/-- The loop's condition after n rounds of sampling. -/
def DoneAfter (timeout snapsNeeded : Int32) (n : ℕ) : Prop :=
  (0 < timeout.toInt ∧ timeout.toInt ≤ n) ∨
    (0 < snapsNeeded.toInt ∧ snapsNeeded.toInt ≤ (min n maxSnaps : ℕ))

/-- The thread is about to test the flag for the round after n samples. -/
structure AtHead (timeout snapsNeeded : Int32) (n : ℕ) (block : SamplingBlock) : Prop where
  position : block.position = .testing
  running : block.running = true
  timeout : block.timeout = timeout
  snapsNeeded : block.snapsNeeded = snapsNeeded
  elapsed : block.elapsed = Int32.ofNat n
  sampled : block.sampled = n
  snaps : block.snaps.length = min n maxSnaps

/-- The sampling leaves its loop after k samples: from some number of steps on
its thread has finished with k of them. -/
def LeavesAfter (block : SamplingBlock) (k : ℕ) : Prop :=
  ∃ bound, ∀ newSnapIds : List UInt64, bound ≤ newSnapIds.length →
    (runAll newSnapIds block).position = .finished ∧ (runAll newSnapIds block).sampled = k

variable {timeout snapsNeeded : Int32} {n : ℕ} {block : SamplingBlock}

theorem runAll_append (first rest : List UInt64) :
    runAll (first ++ rest) block = runAll rest (runAll first block) := List.foldl_append

@[simp] theorem runAll_nil : runAll [] block = block := rfl

@[simp] theorem runAll_cons (newSnapId : UInt64) (rest : List UInt64) :
    runAll (newSnapId :: rest) block = runAll rest (block.run newSnapId) := rfl

theorem pos_iff {x : Int32} : x > 0 ↔ 0 < x.toInt := Int32.lt_iff_toInt_lt

theorem toInt_ofNat {n : ℕ} (hn : n < 2 ^ 31) : (Int32.ofNat n).toInt = n :=
  Int32.toInt_ofNat_of_lt hn

/-- A count that the loop has reached one after the other fits into an int. -/
theorem le_ofNat_iff {limit : Int32} (hpos : 0 < limit.toInt)
    (hreached : ∀ m : ℕ, m < n → (m : ℤ) < limit.toInt) :
    Int32.ofNat n ≥ limit ↔ limit.toInt ≤ n := by
  have hmax := Int32.toInt_lt limit
  have hn : n < 2 ^ 31 := by
    rcases Nat.eq_zero_or_pos n with rfl | hn
    · omega
    · have := hreached (n - 1) (by omega)
      omega
  rw [ge_iff_le, Int32.le_iff_toInt_le, toInt_ofNat hn]

theorem doneAfter_mono {m : ℕ} (hmn : m ≤ n) (h : DoneAfter timeout snapsNeeded m) :
    DoneAfter timeout snapsNeeded n := by
  rcases h with ⟨hpos, hle⟩ | ⟨hpos, hle⟩
  · exact Or.inl ⟨hpos, by omega⟩
  · refine Or.inr ⟨hpos, ?_⟩
    omega

theorem done_iff (helapsed : block.elapsed = Int32.ofNat n)
    (hsnaps : block.snaps.length = min n maxSnaps)
    (hbefore : ∀ m < n, ¬ DoneAfter block.timeout block.snapsNeeded m) :
    block.Done ↔ DoneAfter block.timeout block.snapsNeeded n := by
  rw [Done, DoneAfter, helapsed, hsnaps]
  have hcount : Int32.ofNat (min n maxSnaps) ≥ block.snapsNeeded ↔
      block.snapsNeeded.toInt ≤ (min n maxSnaps : ℕ) := by
    rw [ge_iff_le, Int32.le_iff_toInt_le, toInt_ofNat (by unfold maxSnaps; omega)]
  rw [hcount, pos_iff, pos_iff]
  have htime : 0 < block.timeout.toInt →
      (Int32.ofNat n ≥ block.timeout ↔ block.timeout.toInt ≤ n) := by
    intro hpos
    refine le_ofNat_iff hpos ?_
    intro m hm
    by_contra hle
    exact hbefore m hm (Or.inl ⟨hpos, by omega⟩)
  rw [and_congr_right htime]

/-- The steps of a round up to the inner loop; the fourth takes the new snap. -/
theorem runAll_sampling (hposition : block.position = .testing) (hrunning : block.running = true)
    (hundone : ¬ block.Done) (a b c newSnapId d : UInt64) :
    runAll [a, b, c, newSnapId, d] block =
      { block with
        snaps := block.snaps ++ [newSnapId]
        elapsed := block.elapsed + 1
        position := .trimming
        rounds := block.rounds + 1
        sampled := block.sampled + 1 } := by
  have htested : block.run a =
      { block with position := .deciding, rounds := block.rounds + 1 } := by
    simp [run, hposition, hrunning]
  have hdecided : ({ block with position := .deciding, rounds := block.rounds + 1 }).run b =
      { block with position := .sleeping, rounds := block.rounds + 1 } := if_neg hundone
  rw [runAll_cons, htested, runAll_cons, hdecided]
  rfl

/-- The inner loop drops the oldest snap when there are too many. -/
theorem runAll_trimming {k : ℕ} (hposition : block.position = .trimming)
    (hlength : block.snaps.length ≤ maxSnaps + 1) (newSnapIds : List UInt64)
    (hsteps : newSnapIds.length = k + 1) (hk : k = block.snaps.length - maxSnaps) :
    runAll newSnapIds block =
      { block with snaps := block.snaps.drop k, position := .testing } := by
  rcases Nat.eq_zero_or_pos k with rfl | hpos
  · obtain ⟨a, rfl⟩ := List.length_eq_one_iff.mp hsteps
    have hfits : ¬ block.snaps.length > maxSnaps := by omega
    simp [run, hposition, hfits]
  · obtain rfl : k = 1 := by omega
    obtain ⟨a, b, rfl⟩ := List.length_eq_two.mp hsteps
    have hlong : block.snaps.length > maxSnaps := by omega
    have hfits : ¬ block.snaps.length - 1 > maxSnaps := by omega
    simp [run, hposition, hlong, hfits]

/-- The steps of the round after n samples. -/
def roundSteps (n : ℕ) : ℕ := 5 + (min n maxSnaps + 1 - maxSnaps + 1)

theorem round_ofAtHead (h : AtHead timeout snapsNeeded n block) (hundone : ¬ block.Done)
    (newSnapIds : List UInt64) (hlength : newSnapIds.length = roundSteps n) :
    AtHead timeout snapsNeeded (n + 1) (runAll newSnapIds block) := by
  obtain ⟨a, b, c, newSnapId, d, rest, rfl⟩ : ∃ a b c newSnapId d rest,
      newSnapIds = [a, b, c, newSnapId, d] ++ rest := by
    match newSnapIds, hlength with
    | a :: b :: c :: newSnapId :: d :: rest, _ => exact ⟨a, b, c, newSnapId, d, rest, rfl⟩
    | [], hlength => simp [roundSteps] at hlength
    | [_], hlength => simp [roundSteps] at hlength; omega
    | [_, _], hlength => simp [roundSteps] at hlength; omega
    | [_, _, _], hlength => simp [roundSteps] at hlength; omega
    | [_, _, _, _], hlength => simp [roundSteps] at hlength; omega
  have hsnaps := h.snaps
  rw [List.length_append] at hlength
  simp only [roundSteps, List.length_cons, List.length_nil] at hlength
  rw [runAll_append, runAll_sampling h.position h.running hundone,
    @runAll_trimming _ (min n maxSnaps + 1 - maxSnaps) rfl (by simp; omega) rest (by omega)
      (by simp [hsnaps])]
  refine ⟨rfl, h.running, h.timeout, h.snapsNeeded, ?_, ?_, ?_⟩
  · show block.elapsed + 1 = _
    rw [h.elapsed, Int32.ofNat_add]
    rfl
  · show block.sampled + 1 = _
    rw [h.sampled]
  · simp only [List.length_drop, List.length_append, List.length_singleton, hsnaps]
    omega

theorem atHead_done_iff (h : AtHead timeout snapsNeeded n block)
    (hbefore : ∀ m < n, ¬ DoneAfter timeout snapsNeeded m) :
    block.Done ↔ DoneAfter timeout snapsNeeded n := by
  obtain ⟨-, -, rfl, rfl, helapsed, -, hsnaps⟩ := h
  exact done_iff helapsed hsnaps hbefore

/-- As long as the condition does not hold, one round follows the other. -/
theorem reaches_head (id : UInt64) (hbefore : ∀ m < n, ¬ DoneAfter timeout snapsNeeded m) :
    ∃ steps ≥ n, ∀ newSnapIds : List UInt64, newSnapIds.length = steps →
      AtHead timeout snapsNeeded n (runAll newSnapIds (make id timeout snapsNeeded)) := by
  induction n with
  | zero =>
    refine ⟨2, by omega, ?_⟩
    intro newSnapIds hlength
    match newSnapIds, hlength with
    | [a, b], _ => exact ⟨rfl, rfl, rfl, rfl, rfl, rfl, rfl⟩
  | succ n ih =>
    obtain ⟨steps, hsteps, hhead⟩ := ih (fun m hm => hbefore m (by omega))
    refine ⟨steps + roundSteps n, by unfold roundSteps; omega, ?_⟩
    intro newSnapIds hlength
    have hfirst := hhead (newSnapIds.take steps) (by rw [List.length_take]; omega)
    have hundone := (atHead_done_iff hfirst (fun m hm => hbefore m (by omega))).not.mpr
      (hbefore n (by omega))
    have hround := round_ofAtHead hfirst hundone (newSnapIds.drop steps)
      (by rw [List.length_drop]; omega)
    rwa [← runAll_append, List.take_append_drop] at hround

theorem runAll_finished (hposition : block.position = .finished) (newSnapIds : List UInt64) :
    runAll newSnapIds block = block := by
  induction newSnapIds with
  | nil => rfl
  | cons newSnapId rest ih =>
    have hsame : block.run newSnapId = block := by simp [run, hposition]
    rw [runAll_cons, hsame, ih]

/-- When the condition holds, the thread clears the flag and leaves the loop. -/
theorem runAll_done (h : AtHead timeout snapsNeeded n block) (hdone : block.Done)
    (newSnapIds : List UInt64) (hlength : 4 ≤ newSnapIds.length) :
    (runAll newSnapIds block).position = .finished ∧ (runAll newSnapIds block).sampled = n := by
  match newSnapIds, hlength with
  | a :: b :: c :: d :: rest, _ =>
    have htested : block.run a =
        { block with position := .deciding, rounds := block.rounds + 1 } := by
      simp [run, h.position, h.running]
    have hdecided : ({ block with position := .deciding, rounds := block.rounds + 1 }).run b =
        { block with position := .ending, rounds := block.rounds + 1 } := if_pos hdone
    have hended : (({ block with position := .ending, rounds := block.rounds + 1 }).run c).run d =
        { block with position := .finished, running := false, rounds := block.rounds + 1 } := rfl
    rw [runAll_cons, htested, runAll_cons, hdecided, runAll_cons, runAll_cons, hended,
      runAll_finished rfl]
    exact ⟨rfl, h.sampled⟩

/-- The loop is left after the least number of samples that meets the condition. -/
theorem leavesAfter_of_least (id : UInt64) (hdone : DoneAfter timeout snapsNeeded n)
    (hbefore : ∀ m < n, ¬ DoneAfter timeout snapsNeeded m) :
    LeavesAfter (make id timeout snapsNeeded) n := by
  obtain ⟨steps, -, hhead⟩ := @reaches_head timeout snapsNeeded n id hbefore
  refine ⟨steps + 4, ?_⟩
  intro newSnapIds hlength
  have hfirst := hhead (newSnapIds.take steps) (by rw [List.length_take]; omega)
  have hrest := runAll_done hfirst ((atHead_done_iff hfirst hbefore).mpr hdone)
    (newSnapIds.drop steps) (by rw [List.length_drop]; omega)
  rwa [← runAll_append, List.take_append_drop] at hrest

theorem leavesAfter_unique {k : ℕ} (hn : LeavesAfter block n) (hk : LeavesAfter block k) :
    n = k := by
  obtain ⟨boundN, hn⟩ := hn
  obtain ⟨boundK, hk⟩ := hk
  have hlength := @List.length_replicate UInt64 (boundN + boundK) 0
  rw [← (hn (List.replicate (boundN + boundK) 0) (by omega)).2,
    (hk (List.replicate (boundN + boundK) 0) (by omega)).2]

/-- Where no number of samples meets the condition, the loop is never left. -/
theorem not_leavesAfter {k : ℕ} (id : UInt64)
    (hnever : ∀ m, ¬ DoneAfter timeout snapsNeeded m) :
    ¬ LeavesAfter (make id timeout snapsNeeded) k := by
  intro ⟨bound, hleaves⟩
  obtain ⟨steps, hsteps, hhead⟩ := @reaches_head timeout snapsNeeded bound id (fun m _ => hnever m)
  have hlength := @List.length_replicate UInt64 steps 0
  have hposition := (hhead (List.replicate steps 0) hlength).position
  rw [(hleaves (List.replicate steps 0) (by omega)).1] at hposition
  cases hposition

theorem leavesAfter_iff {k : ℕ} (id : UInt64) :
    LeavesAfter (make id timeout snapsNeeded) k ↔
      DoneAfter timeout snapsNeeded k ∧ ∀ m < k, ¬ DoneAfter timeout snapsNeeded m := by
  classical
  constructor
  · intro hleaves
    by_cases hsome : ∃ m, DoneAfter timeout snapsNeeded m
    · have hleast := leavesAfter_of_least id (Nat.find_spec hsome)
        (fun m hm => Nat.find_min hsome hm)
      rw [leavesAfter_unique hleaves hleast]
      exact ⟨Nat.find_spec hsome, fun m hm => Nat.find_min hsome hm⟩
    · exact absurd hleaves (not_leavesAfter id (not_exists.mp hsome))
  · intro ⟨hdone, hbefore⟩
    exact leavesAfter_of_least id hdone hbefore

/-- The smallest positive one of the two values, at least one of which is positive. -/
def smallestPositive (timeout snapsNeeded : Int32) : ℕ :=
  if timeout.toInt ≤ 0 then snapsNeeded.toInt.toNat
  else if snapsNeeded.toInt ≤ 0 then timeout.toInt.toNat
  else min timeout.toInt.toNat snapsNeeded.toInt.toNat

/-- The loop is left after as many samples as asked for, unless the snaps are to
end it and more of them are needed than are kept. -/
theorem leaves_after_smallest_iff (id : UInt64) (timeout snapsNeeded : Int32)
    (h : 0 < timeout.toInt ∨ 0 < snapsNeeded.toInt) :
    LeavesAfter (make id timeout snapsNeeded) (smallestPositive timeout snapsNeeded) ↔
      ¬ (30 < snapsNeeded.toInt ∧ (timeout.toInt ≤ 0 ∨ snapsNeeded.toInt < timeout.toInt)) := by
  rw [leavesAfter_iff]
  simp only [DoneAfter, smallestPositive, maxSnaps]
  constructor
  · intro hleast hlimits
    obtain ⟨hdone, -⟩ := hleast
    split_ifs at hdone <;> omega
  · intro hfew
    constructor
    · split_ifs <;> omega
    · intro m hm
      split_ifs at hm <;> omega

/-- A minute without a number of snaps, as a request without a body asks for. -/
theorem leaves_after_smallest_iff_minute :
    LeavesAfter (make 1 60 (-1)) (smallestPositive 60 (-1)) ↔
      ¬ (30 < (-1 : Int32).toInt ∧ ((60 : Int32).toInt ≤ 0 ∨
        (-1 : Int32).toInt < (60 : Int32).toInt)) :=
  leaves_after_smallest_iff 1 60 (-1) (by decide)

/-- A sampling that is asked for one snap more than it keeps never ends. -/
theorem thirtyOneSnaps_never_end :
    (∀ k, ¬ LeavesAfter (make 1 (-1) 31) k) ∧
      ¬ LeavesAfter (make 1 (-1) 31) (smallestPositive (-1) 31) := by
  have hnever : ∀ m, ¬ DoneAfter (-1) 31 m := by
    intro m hdone
    have htimeout : (-1 : Int32).toInt = -1 := by decide
    have hsnaps : (31 : Int32).toInt = 31 := by decide
    rw [DoneAfter, htimeout, hsnaps, maxSnaps] at hdone
    omega
  exact ⟨fun k => not_leavesAfter 1 hnever, not_leavesAfter 1 hnever⟩

end Loops

section Stops

/-- Where the thread that calls SamplingBlock::stop is. -/
inductive Stopper
  | absent
  | clearing
  | joining
  | joined
  deriving DecidableEq

/-- A sampling with its own thread and the one that stops it. -/
structure Stoppable where
  block : SamplingBlock
  stopper : Stopper
  deriving DecidableEq

inductive Event
  | thread (newSnapId : UInt64)
  | readRunning
  | clearRunning
  | join
  deriving DecidableEq

def step (s : Stoppable) : Event → Stoppable
  | .thread newSnapId => { s with block := s.block.run newSnapId }
  | .readRunning =>
    if s.block.running = true then { s with stopper := .clearing }
    else { s with stopper := .joining }
  | .clearRunning => { block := { s.block with running := false }, stopper := .joining }
  | .join => { s with stopper := .joined }

def enabled (s : Stoppable) : Event → Prop
  | .thread _ => True
  | .readRunning => s.stopper = .absent
  | .clearRunning => s.stopper = .clearing
  | .join => s.stopper = .joining ∧ s.block.position = .finished

instance decidableEnabled (s : Stoppable) (event : Event) : Decidable (enabled s event) := by
  cases event <;> unfold enabled <;> infer_instance

def stoppable (id : UInt64) (timeout snapsNeeded : Int32) : Machine Stoppable Event where
  init := ⟨make id timeout snapsNeeded, .absent⟩
  enabled := enabled
  step := step

instance (id : UInt64) (timeout snapsNeeded : Int32) (s : Stoppable) (event : Event) :
    Decidable ((stoppable id timeout snapsNeeded).enabled s event) :=
  decidableEnabled s event

/-- How many snaps are listed at a step of the loop, with n samples counted. -/
def Listed (position : Position) (n length : ℕ) : Prop :=
  match position with
  | .starting => n = 0 ∧ length = 0
  | .resetting => n = 0 ∧ length = 0
  | .testing => length = min n maxSnaps
  | .deciding => length = min n maxSnaps
  | .ending => length = min n maxSnaps
  | .sleeping => length = min n maxSnaps
  | .snapping => 0 < n ∧ length = min (n - 1) maxSnaps
  | .appending _ => 0 < n ∧ length = min (n - 1) maxSnaps
  | .trimming => 0 < n ∧ (length = min (n - 1) maxSnaps + 1 ∨ length = min n maxSnaps)
  | .finished => length = min n maxSnaps

/-- The counters agree, and each sample was taken before the condition held. -/
structure Tracked (timeout snapsNeeded : Int32) (block : SamplingBlock) : Prop where
  limits : block.timeout = timeout ∧ block.snapsNeeded = snapsNeeded
  elapsed : block.elapsed = Int32.ofNat block.sampled
  listed : Listed block.position block.sampled block.snaps.length
  before : ∀ m < block.sampled, ¬ DoneAfter timeout snapsNeeded m
  sleeping : block.position = .sleeping → ¬ DoneAfter timeout snapsNeeded block.sampled

variable {timeout snapsNeeded : Int32} {block : SamplingBlock}

theorem tracked_make (id : UInt64) : Tracked timeout snapsNeeded (make id timeout snapsNeeded) where
  limits := ⟨rfl, rfl⟩
  elapsed := rfl
  listed := ⟨rfl, rfl⟩
  before m hm := by simp [make] at hm
  sleeping h := by cases h

/-- A step that counts no second and does not lead to the sleep. -/
theorem tracked_moves {next : SamplingBlock} (h : Tracked timeout snapsNeeded block)
    (hlimits : next.timeout = block.timeout ∧ next.snapsNeeded = block.snapsNeeded)
    (helapsed : next.elapsed = block.elapsed) (hsampled : next.sampled = block.sampled)
    (hlisted : Listed next.position block.sampled next.snaps.length)
    (hawake : next.position ≠ .sleeping) : Tracked timeout snapsNeeded next where
  limits := ⟨hlimits.1.trans h.limits.1, hlimits.2.trans h.limits.2⟩
  elapsed := by rw [helapsed, hsampled, h.elapsed]
  listed := by rw [hsampled]; exact hlisted
  before m hm := h.before m (by omega)
  sleeping hsleep := absurd hsleep hawake

theorem tracked_run (newSnapId : UInt64) (h : Tracked timeout snapsNeeded block) :
    Tracked timeout snapsNeeded (block.run newSnapId) := by
  have hlisted := h.listed
  cases hposition : block.position with
  | starting =>
    simp only [run, hposition, Listed] at hlisted ⊢
    exact tracked_moves h ⟨rfl, rfl⟩ rfl rfl hlisted (by simp)
  | resetting =>
    simp only [run, hposition, Listed] at hlisted ⊢
    have helapsed : (0 : Int32) = block.elapsed := by
      rw [h.elapsed, hlisted.1]
      rfl
    exact tracked_moves h ⟨rfl, rfl⟩ helapsed rfl (by simp [Listed, hlisted]) (by simp)
  | testing =>
    simp only [run, hposition, Listed] at hlisted ⊢
    split
    · exact tracked_moves h ⟨rfl, rfl⟩ rfl rfl hlisted (by simp)
    · exact tracked_moves h ⟨rfl, rfl⟩ rfl rfl hlisted (by simp)
  | deciding =>
    simp only [run, hposition, Listed] at hlisted ⊢
    obtain ⟨⟨rfl, rfl⟩, helapsed, -, hbefore, -⟩ := h
    by_cases hdone : block.Done
    · rw [if_pos hdone]
      exact ⟨⟨rfl, rfl⟩, helapsed, hlisted, hbefore, fun h => by cases h⟩
    · rw [if_neg hdone]
      exact ⟨⟨rfl, rfl⟩, helapsed, hlisted, hbefore,
        fun _ => (done_iff helapsed hlisted hbefore).not.mp hdone⟩
  | ending =>
    simp only [run, hposition, Listed] at hlisted ⊢
    exact tracked_moves h ⟨rfl, rfl⟩ rfl rfl hlisted (by simp)
  | sleeping =>
    simp only [run, hposition, Listed] at hlisted ⊢
    refine ⟨h.limits, ?_, ⟨by simp, hlisted⟩, ?_, fun h => by cases h⟩
    · show block.elapsed + 1 = _
      rw [h.elapsed, Int32.ofNat_add]
      rfl
    · intro m hm
      rcases Nat.lt_succ_iff_lt_or_eq.mp hm with hlt | rfl
      · exact h.before m hlt
      · exact h.sleeping hposition
  | snapping =>
    simp only [run, hposition, Listed] at hlisted ⊢
    exact tracked_moves h ⟨rfl, rfl⟩ rfl rfl hlisted (by simp)
  | appending newSnapId =>
    simp only [run, hposition, Listed] at hlisted ⊢
    refine tracked_moves h ⟨rfl, rfl⟩ rfl rfl ⟨hlisted.1, Or.inl ?_⟩ (by simp)
    rw [List.length_append, hlisted.2]
    rfl
  | trimming =>
    simp only [run, hposition, Listed] at hlisted ⊢
    obtain ⟨hpos, hlength⟩ := hlisted
    split
    · refine tracked_moves h ⟨rfl, rfl⟩ rfl rfl ?_ (by simp)
      simp only [Listed, List.length_tail]
      exact ⟨hpos, Or.inr (by omega)⟩
    · refine tracked_moves h ⟨rfl, rfl⟩ rfl rfl ?_ (by simp)
      show block.snaps.length = min block.sampled maxSnaps
      omega
  | finished =>
    simp only [run, hposition]
    exact h

theorem readRunning_block (s : Stoppable) : (step s .readRunning).block = s.block := by
  simp only [step]
  split
  · rfl
  · rfl

theorem tracked_inductive (id : UInt64) : (stoppable id timeout snapsNeeded).Inductive
    (fun _ s => Tracked timeout snapsNeeded s.block) := by
  refine Machine.inductive_of_step (tracked_make id) ?_
  intro s event h _
  cases event with
  | thread newSnapId => exact tracked_run newSnapId h
  | readRunning =>
    show Tracked timeout snapsNeeded (step s .readRunning).block
    rwa [readRunning_block]
  | clearRunning => exact ⟨h.limits, h.elapsed, h.listed, h.before, h.sleeping⟩
  | join => exact h

/-- The steps that are left to a thread that finds its flag cleared. -/
def stepsLeft (block : SamplingBlock) : ℕ :=
  match block.position with
  | .starting => 3
  | .resetting => 2
  | .testing => 1
  | .deciding => 6 + (block.snaps.length + 1 - maxSnaps)
  | .ending => 2
  | .sleeping => 5 + (block.snaps.length + 1 - maxSnaps)
  | .snapping => 4 + (block.snaps.length + 1 - maxSnaps)
  | .appending _ => 3 + (block.snaps.length + 1 - maxSnaps)
  | .trimming => 2 + (block.snaps.length - maxSnaps)
  | .finished => 0

theorem stepsLeft_le (h : Tracked timeout snapsNeeded block) : stepsLeft block ≤ 7 := by
  have hlisted := h.listed
  unfold stepsLeft
  cases hposition : block.position <;> simp only [hposition, Listed] at hlisted ⊢ <;> omega

/-- The second that is still counted in the round in progress. -/
def pendingSample (block : SamplingBlock) : ℕ :=
  match block.position with
  | .deciding => 1
  | .sleeping => 1
  | _ => 0

theorem pendingSample_le (block : SamplingBlock) : pendingSample block ≤ 1 := by
  unfold pendingSample
  split <;> omega

/-- The flag has been cleared behind the thread's own assignment; at that time
the counters of the loop were rounds and sampled. -/
structure Leaving (rounds sampled : ℕ) (block : SamplingBlock) : Prop where
  cleared : block.running = false
  started : block.position ≠ .starting
  rounds_eq : block.rounds = rounds
  sampled_le : block.sampled + pendingSample block ≤ sampled + 1

variable {rounds sampled : ℕ}

/-- The flag stays cleared, no round is begun, and the thread gets nearer to its end. -/
theorem leaving_run (newSnapId : UInt64) (h : Leaving rounds sampled block) :
    Leaving rounds sampled (block.run newSnapId) ∧
      stepsLeft (block.run newSnapId) ≤ stepsLeft block - 1 := by
  obtain ⟨hcleared, hstarted, hrounds, hsampled⟩ := h
  cases hposition : block.position with
  | starting => exact absurd hposition hstarted
  | resetting =>
    simp only [run, stepsLeft, pendingSample, hposition] at hsampled ⊢
    exact ⟨⟨hcleared, by simp, hrounds, hsampled⟩, by omega⟩
  | testing =>
    have hflag : ¬ block.running = true := by simp [hcleared]
    simp only [run, stepsLeft, pendingSample, hposition, if_neg hflag] at hsampled ⊢
    exact ⟨⟨hcleared, by simp, hrounds, hsampled⟩, by omega⟩
  | deciding =>
    simp only [run, stepsLeft, pendingSample, hposition] at hsampled ⊢
    by_cases hdone : block.Done
    · rw [if_pos hdone]
      exact ⟨⟨hcleared, by simp, hrounds, by simp only [pendingSample]; omega⟩,
        by simp only; omega⟩
    · rw [if_neg hdone]
      exact ⟨⟨hcleared, by simp, hrounds, hsampled⟩, by simp only; omega⟩
  | ending =>
    simp only [run, stepsLeft, pendingSample, hposition] at hsampled ⊢
    exact ⟨⟨rfl, by simp, hrounds, hsampled⟩, by omega⟩
  | sleeping =>
    simp only [run, stepsLeft, pendingSample, hposition] at hsampled ⊢
    exact ⟨⟨hcleared, by simp, hrounds, hsampled⟩, by omega⟩
  | snapping =>
    simp only [run, stepsLeft, pendingSample, hposition] at hsampled ⊢
    exact ⟨⟨hcleared, by simp, hrounds, hsampled⟩, by omega⟩
  | appending newSnapId =>
    simp only [run, stepsLeft, pendingSample, hposition, List.length_append,
      List.length_singleton] at hsampled ⊢
    exact ⟨⟨hcleared, by simp, hrounds, hsampled⟩, by omega⟩
  | trimming =>
    simp only [run, stepsLeft, pendingSample, hposition] at hsampled ⊢
    by_cases hlong : block.snaps.length > maxSnaps
    · rw [if_pos hlong]
      exact ⟨⟨hcleared, by simp, hrounds, hsampled⟩,
        by simp only [List.length_tail]; omega⟩
    · rw [if_neg hlong]
      exact ⟨⟨hcleared, by simp, hrounds, hsampled⟩, by simp only; omega⟩
  | finished =>
    simp only [run, stepsLeft, hposition]
    exact ⟨⟨hcleared, hstarted, hrounds, hsampled⟩, by omega⟩

def isThread : Event → Bool
  | .thread _ => true
  | _ => false

def threadSteps (inputs : List Event) : ℕ := inputs.countP isThread

/-- From the time at which stop clears the flag it stays cleared, the loop is
not entered again, at most the second in progress is counted, and seven further
steps of the thread end it, so that the join returns. -/
def StopsForGood (M : Machine Stoppable Event) (before : List Event) : Prop :=
  ∀ after, M.Admissible (before ++ .clearRunning :: after) →
    (M.run (before ++ .clearRunning :: after)).block.running = false ∧
      (M.run (before ++ .clearRunning :: after)).block.rounds = (M.run before).block.rounds ∧
      (M.run (before ++ .clearRunning :: after)).block.sampled ≤
        (M.run before).block.sampled + 1 ∧
      (7 ≤ threadSteps after →
        (M.run (before ++ .clearRunning :: after)).block.position = .finished)

variable {id : UInt64} {before after : List Event}

theorem leaving_after (h : (stoppable id timeout snapsNeeded).Admissible
      (before ++ .clearRunning :: after))
    (hstarted : ((stoppable id timeout snapsNeeded).run before).block.position ≠ .starting) :
    Leaving ((stoppable id timeout snapsNeeded).run before).block.rounds
        ((stoppable id timeout snapsNeeded).run before).block.sampled
        ((stoppable id timeout snapsNeeded).run (before ++ .clearRunning :: after)).block ∧
      stepsLeft ((stoppable id timeout snapsNeeded).run
        (before ++ .clearRunning :: after)).block ≤ 7 - threadSteps after := by
  induction after using List.reverseRecOn with
  | nil =>
    have hbefore := Machine.admissible_of_append _ h
    have hfew := stepsLeft_le ((tracked_inductive id).run before hbefore)
    rw [Machine.run_append_singleton]
    refine ⟨⟨rfl, hstarted, rfl, ?_⟩, hfew⟩
    exact Nat.add_le_add_left (pendingSample_le _) _
  | append_singleton after event ih =>
    rw [← List.cons_append, ← List.append_assoc] at h ⊢
    obtain ⟨hfirst, henabled⟩ := (Machine.admissible_append_singleton _ _ _).mp h
    obtain ⟨hleaving, hleft⟩ := ih hfirst
    rw [Machine.run_append_singleton, threadSteps, List.countP_append, ← threadSteps]
    cases event with
    | thread newSnapId =>
      obtain ⟨hnext, hnearer⟩ := leaving_run newSnapId hleaving
      refine ⟨hnext, ?_⟩
      have hone : List.countP isThread [.thread newSnapId] = 1 := rfl
      show stepsLeft (run newSnapId _) ≤ _
      omega
    | readRunning =>
      show Leaving _ _ (step _ .readRunning).block ∧ stepsLeft (step _ .readRunning).block ≤ _
      rw [readRunning_block]
      exact ⟨hleaving, hleft⟩
    | clearRunning =>
      exact ⟨⟨rfl, hleaving.started, hleaving.rounds_eq, hleaving.sampled_le⟩, hleft⟩
    | join => exact ⟨hleaving, hleft⟩

/-- A stop is not lost if and only if the thread has made its own assignment to
the flag before stop clears it. -/
theorem stops_for_good_iff_started (id : UInt64) (timeout snapsNeeded : Int32)
    (before : List Event)
    (h : (stoppable id timeout snapsNeeded).Admissible (before ++ [.clearRunning])) :
    StopsForGood (stoppable id timeout snapsNeeded) before ↔
      ((stoppable id timeout snapsNeeded).run before).block.position ≠ .starting := by
  constructor
  · intro hgood hstarting
    have hnext : (stoppable id timeout snapsNeeded).Admissible
        (before ++ .clearRunning :: [.thread 0]) := by
      rw [List.append_cons]
      exact (Machine.admissible_append_singleton _ _ _).mpr ⟨h, trivial⟩
    have hcleared := (hgood [.thread 0] hnext).1
    rw [List.append_cons, Machine.run_append_singleton, Machine.run_append_singleton] at hcleared
    have hset : ∀ block : SamplingBlock, block.position = .starting →
        (run 0 { block with running := false }).running = true := by
      intro block hposition
      simp [run, hposition]
    exact absurd ((hset _ hstarting).symm.trans hcleared) (by decide)
  · intro hstarted after hafter
    obtain ⟨hleaving, hleft⟩ := leaving_after hafter hstarted
    refine ⟨hleaving.cleared, hleaving.rounds_eq, ?_, ?_⟩
    · exact le_trans (Nat.le_add_right _ _) hleaving.sampled_le
    · intro hsteps
      have hnone : stepsLeft ((stoppable id timeout snapsNeeded).run
          (before ++ .clearRunning :: after)).block = 0 := by omega
      unfold stepsLeft at hnone
      split at hnone <;> first | assumption | omega

theorem stops_for_good_iff_started_sleeping :
    StopsForGood (stoppable 1 60 (-1)) [.thread 0, .thread 0, .thread 0, .thread 0,
        .readRunning] ↔
      ((stoppable 1 60 (-1)).run [.thread 0, .thread 0, .thread 0, .thread 0,
        .readRunning]).block.position ≠ .starting :=
  stops_for_good_iff_started 1 60 (-1) _
    (Machine.admissible_of_enabledFrom _ _ (by decide))

/-- The sampling is stopped before its thread runs: the thread then sets the
flag again and goes into its loop. -/
theorem stop_is_lost :
    (stoppable 1 60 (-1)).Admissible [.readRunning, .clearRunning, .thread 0, .thread 0,
        .thread 0] ∧
      ((stoppable 1 60 (-1)).run [.readRunning, .clearRunning]).block.running = false ∧
      ((stoppable 1 60 (-1)).run [.readRunning, .clearRunning, .thread 0, .thread 0,
        .thread 0]).block.running = true ∧
      ((stoppable 1 60 (-1)).run [.readRunning, .clearRunning, .thread 0, .thread 0,
        .thread 0]).block.rounds = 1 ∧
      ¬ StopsForGood (stoppable 1 60 (-1)) [.readRunning] := by
  have hlost : (stoppable 1 60 (-1)).Admissible [.readRunning, .clearRunning, .thread 0,
      .thread 0, .thread 0] := Machine.admissible_of_enabledFrom _ _ (by decide)
  refine ⟨hlost, by decide, by decide, by decide, ?_⟩
  intro hgood
  have hcleared := (hgood [.thread 0, .thread 0, .thread 0] hlost).1
  exact absurd hcleared (by decide)

end Stops

end BeastServer.SamplingBlocks
