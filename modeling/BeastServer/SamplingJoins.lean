import BeastServer.Samplings

/-!
The join at the end of a sampling.
Erasing a sampling clears its flag and joins its thread while samplingMutex is
held. The thread may have made any number of steps before the flag is cleared.
If it has made none, its own first assignment undoes the clearing, and the join
waits until the loop ends by itself, which it need not do.
-/
namespace BeastServer.SamplingJoins

open Machines SamplingBlocks SamplingBlock SamplingProgress Samplings

section Joins

/-- The sampling after steps of its thread and the clearing of its flag. -/
def cleared (earlier : List UInt64) (block : SamplingBlock) : SamplingBlock :=
  { runAll earlier block with running := false }

/-- The thread ends, whatever it is that it gets to run with. -/
def Joins (earlier : List UInt64) (block : SamplingBlock) : Prop :=
  ∃ bound, ∀ later : List UInt64, bound ≤ later.length →
    (runAll later (cleared earlier block)).position = .finished

/-- The loop ends although nobody stops the sampling. -/
def EndsAlone (block : SamplingBlock) : Prop :=
  0 < block.timeout.toInt ∨ 0 < block.snapsNeeded.toInt ∧ block.snapsNeeded.toInt ≤ maxSnaps

instance (block : SamplingBlock) : Decidable (EndsAlone block) :=
  inferInstanceAs (Decidable (_ ∨ _))

/-- The thread has set the flag before it is cleared, or the loop ends alone. -/
def Joinable (earlier : List UInt64) (block : SamplingBlock) : Prop :=
  (runAll earlier block).position ≠ .starting ∨ EndsAlone block

instance (earlier : List UInt64) (block : SamplingBlock) : Decidable (Joinable earlier block) :=
  inferInstanceAs (Decidable (_ ∨ _))

/-- The counters agree, and a thread that has not started finds a new sampling. -/
structure Sound (block : SamplingBlock) : Prop where
  tracked : Tracked block.timeout block.snapsNeeded block
  unstarted : block.position = .starting →
    { block with running := true } = make block.id block.timeout block.snapsNeeded

variable {block : SamplingBlock} {earlier : List UInt64}

theorem doneAfter_iff (timeout snapsNeeded : Int32) :
    (∃ n, DoneAfter timeout snapsNeeded n) ↔
      0 < timeout.toInt ∨ 0 < snapsNeeded.toInt ∧ snapsNeeded.toInt ≤ maxSnaps := by
  unfold DoneAfter maxSnaps
  constructor
  · intro ⟨n, hdone⟩
    omega
  · intro hends
    rcases hends with htime | ⟨hsnaps, hfew⟩
    · exact ⟨timeout.toInt.toNat, Or.inl ⟨htime, by omega⟩⟩
    · exact ⟨30, Or.inr ⟨hsnaps, by omega⟩⟩

/-- A thread whose flag is cleared behind its own assignment gets to its end. -/
theorem leaving_runAll {rounds sampled : ℕ} (later : List UInt64)
    (h : Leaving rounds sampled block) :
    stepsLeft (runAll later block) ≤ stepsLeft block - later.length := by
  induction later generalizing block with
  | nil => exact le_refl _
  | cons newSnapId later ih =>
    obtain ⟨hleaving, hnearer⟩ := leaving_run newSnapId h
    have hrest := ih hleaving
    rw [runAll_cons, List.length_cons]
    omega

theorem finished_of_stepsLeft (h : stepsLeft block = 0) : block.position = .finished := by
  unfold stepsLeft at h
  split at h <;> first | assumption | omega

theorem joins_of_started (hsound : Sound block)
    (hstarted : (runAll earlier block).position ≠ .starting) : Joins earlier block := by
  have hleaving : Leaving (runAll earlier block).rounds (runAll earlier block).sampled
      (cleared earlier block) := by
    refine ⟨rfl, hstarted, rfl, ?_⟩
    exact Nat.add_le_add_left (pendingSample_le _) _
  have hfew : stepsLeft (cleared earlier block) ≤ 7 := by
    have hsame : stepsLeft (cleared earlier block) = stepsLeft (runAll earlier block) := rfl
    rw [hsame]
    exact stepsLeft_le (tracked_runAll earlier hsound.tracked)
  refine ⟨7, ?_⟩
  intro later hlater
  have hleft := leaving_runAll later hleaving
  exact finished_of_stepsLeft (by omega)

/-- Any step of the thread leads away from its start. -/
theorem runAll_started (h : (runAll earlier block).position = .starting) : earlier = [] := by
  rcases List.eq_nil_or_concat earlier with hnil | ⟨first, last, rfl⟩
  · exact hnil
  · rw [List.concat_eq_append, runAll_append] at h
    exact absurd h (run_started last)

/-- The first step of the thread sets the flag that has been cleared. -/
theorem runAll_cleared (hsound : Sound block) (hposition : block.position = .starting)
    (newSnapId : UInt64) (later : List UInt64) :
    runAll (newSnapId :: later) { block with running := false } =
      runAll (newSnapId :: later) (make block.id block.timeout block.snapsNeeded) := by
  rw [← hsound.unstarted hposition, runAll_cons, runAll_cons]
  simp only [run, hposition]

theorem joins_iff_of_unstarted (hsound : Sound block) (hposition : block.position = .starting) :
    Joins [] block ↔ EndsAlone block := by
  classical
  rw [EndsAlone, ← doneAfter_iff]
  constructor
  · intro ⟨bound, hjoins⟩
    by_contra hnever
    obtain ⟨steps, hsteps, hhead⟩ := @reaches_head block.timeout block.snapsNeeded (bound + 1)
      block.id (fun m _ => not_exists.mp hnever m)
    have hlength := @List.length_replicate UInt64 steps 0
    have hends := hjoins (List.replicate steps 0) (by omega)
    have htesting := (hhead (List.replicate steps 0) hlength).position
    obtain ⟨k, rfl⟩ := Nat.exists_eq_add_of_le' (show 1 ≤ steps by omega)
    rw [List.replicate_succ] at hends htesting
    rw [cleared, runAll_nil, runAll_cleared hsound hposition, htesting] at hends
    cases hends
  · intro hdone
    obtain ⟨bound, hleaves⟩ := leavesAfter_of_least block.id (Nat.find_spec hdone)
      (fun m hm => Nat.find_min hdone hm)
    refine ⟨bound + 1, ?_⟩
    intro later hlater
    match later, hlater with
    | newSnapId :: later, hlater =>
      rw [cleared, runAll_nil, runAll_cleared hsound hposition]
      exact (hleaves (newSnapId :: later) (by omega)).1

theorem joins_iff (hsound : Sound block) : Joins earlier block ↔ Joinable earlier block := by
  by_cases hstarted : (runAll earlier block).position = .starting
  · obtain rfl := runAll_started hstarted
    rw [joins_iff_of_unstarted hsound hstarted, Joinable]
    exact (or_iff_right (not_not.mpr hstarted)).symm
  · exact iff_of_true (joins_of_started hsound hstarted) (Or.inl hstarted)

end Joins

section Endings

/-- The loop has no limit under which it ends, and the flag is set, or the first
assignment of the thread sets it. -/
def Endless (block : SamplingBlock) : Prop :=
  ¬ EndsAlone block ∧ (block.position = .starting ∨
    block.running = true ∧ block.position ≠ .ending ∧ block.position ≠ .finished)

instance (block : SamplingBlock) : Decidable (Endless block) :=
  inferInstanceAs (Decidable (_ ∧ _))

variable {block : SamplingBlock} {n : ℕ}

/-- Without a limit, the condition of the loop never holds. -/
theorem not_done (h : Tracked block.timeout block.snapsNeeded block) (hends : ¬ EndsAlone block)
    (hposition : block.position = .deciding) : ¬ block.Done := by
  have hsnaps := h.listed
  rw [hposition] at hsnaps
  rw [EndsAlone, ← doneAfter_iff] at hends
  exact (done_iff h.elapsed hsnaps h.before).not.mpr (not_exists.mp hends block.sampled)

theorem endless_run (newSnapId : UInt64) (h : Tracked block.timeout block.snapsNeeded block)
    (hendless : Endless block) : Endless (block.run newSnapId) := by
  obtain ⟨hends, hflag⟩ := hendless
  have hlimits := (tracked_run newSnapId h).limits
  refine ⟨?_, ?_⟩
  · unfold EndsAlone at hends ⊢
    rwa [hlimits.1, hlimits.2]
  rcases hflag with hstarting | ⟨hrunning, hending, hfinished⟩
  · exact Or.inr (by simp [run, hstarting])
  · refine Or.inr ?_
    cases hposition : block.position with
    | testing => simp [run, hposition, hrunning]
    | deciding =>
      have hundone := not_done h hends hposition
      simp [run, hposition, hrunning, hundone]
    | trimming =>
      simp only [run, hposition]
      split <;> exact ⟨hrunning, by simp, by simp⟩
    | ending => exact absurd hposition hending
    | finished => exact absurd hposition hfinished
    | _ => simp [run, hposition, hrunning]

theorem endless_unfinished (h : Endless block) : block.position ≠ .finished := by
  rcases h.2 with hstarting | ⟨-, -, hfinished⟩
  · rw [hstarting]
    simp
  · exact hfinished

theorem endless_runAll (ids : List UInt64) (h : Tracked block.timeout block.snapsNeeded block)
    (hendless : Endless block) : Endless (runAll ids block) := by
  induction ids generalizing block with
  | nil => exact hendless
  | cons newSnapId ids ih =>
    have hnext := tracked_run newSnapId h
    refine ih ?_ (endless_run newSnapId h hendless)
    rw [hnext.limits.1, hnext.limits.2]
    exact hnext

/-- The samples that are missing to n come first, then the steps to the next one. -/
def rank (n : ℕ) (block : SamplingBlock) : ℕ :=
  20 * (n + 1 - block.sampled) +
    match block.position with
    | .starting => 10
    | .resetting => 9
    | .testing => if block.running = true then 8 else 1
    | .deciding => 7
    | .ending => 2
    | .sleeping => 6
    | .snapping => 14
    | .appending _ => 13
    | .trimming => 10 + (block.snaps.length - maxSnaps)
    | .finished => 0

/-- Where n samples meet the condition, each step leads nearer to the end. -/
theorem rank_run (newSnapId : UInt64) (h : Tracked block.timeout block.snapsNeeded block)
    (hdone : DoneAfter block.timeout block.snapsNeeded n) (hposition : block.position ≠ .finished) :
    rank n (block.run newSnapId) < rank n block := by
  have hlisted := h.listed
  cases hnow : block.position with
  | finished => exact absurd hnow hposition
  | testing =>
    simp only [rank, run, hnow]
    split <;> simp only <;> omega
  | deciding =>
    simp only [rank, run, hnow]
    split <;> simp only <;> omega
  | sleeping =>
    have hmore : block.sampled < n := by
      by_contra hle
      exact h.sleeping hnow (doneAfter_mono (by omega) hdone)
    simp only [rank, run, hnow]
    omega
  | appending held =>
    simp only [hnow, Listed] at hlisted
    simp only [rank, run, hnow, List.length_append, List.length_singleton]
    omega
  | trimming =>
    simp only [rank, run, hnow]
    by_cases hlong : block.snaps.length > maxSnaps
    · simp only [if_pos hlong, List.length_tail]
      omega
    · simp only [if_neg hlong]
      split <;> omega
  | ending => simp [rank, run, hnow]
  | resetting =>
    simp only [rank, run, hnow]
    split <;> omega
  | _ =>
    simp only [rank, run, hnow]
    omega

theorem finishes_of_endsAlone (h : Tracked block.timeout block.snapsNeeded block)
    (hends : EndsAlone block) : ∃ ids, (runAll ids block).position = .finished := by
  rw [EndsAlone, ← doneAfter_iff] at hends
  obtain ⟨n, hdone⟩ := hends
  induction hrank : rank n block using Nat.strong_induction_on generalizing block with
  | _ r ih =>
    by_cases hposition : block.position = .finished
    · exact ⟨[], hposition⟩
    · have hnext := tracked_run 0 h
      have hless := rank_run 0 h hdone hposition
      rw [← hnext.limits.1, ← hnext.limits.2] at hdone hnext
      obtain ⟨ids, hfinished⟩ := ih _ (hrank ▸ hless) hnext hdone rfl
      exact ⟨0 :: ids, hfinished⟩

theorem finishes_of_cleared (h : Tracked block.timeout block.snapsNeeded block)
    (hcleared : block.running = false) (hstarted : block.position ≠ .starting) :
    ∃ ids, (runAll ids block).position = .finished := by
  have hleaving : Leaving block.rounds block.sampled block :=
    ⟨hcleared, hstarted, rfl, Nat.add_le_add_left (pendingSample_le _) _⟩
  have hleft := leaving_runAll (List.replicate 7 0) hleaving
  have hfew := stepsLeft_le h
  rw [List.length_replicate] at hleft
  exact ⟨List.replicate 7 0, finished_of_stepsLeft (by omega)⟩

/-- From any state that its counters allow, the thread can get to its end unless
its loop is endless. -/
theorem finishes_iff (h : Tracked block.timeout block.snapsNeeded block) :
    (∃ ids, (runAll ids block).position = .finished) ↔ ¬ Endless block := by
  constructor
  · intro ⟨ids, hfinished⟩ hendless
    exact endless_unfinished (endless_runAll ids h hendless) hfinished
  · intro hendless
    by_cases hends : EndsAlone block
    · exact finishes_of_endsAlone h hends
    by_cases hstarting : block.position = .starting
    · exact absurd ⟨hends, Or.inl hstarting⟩ hendless
    cases hrunning : block.running with
    | false => exact finishes_of_cleared h hrunning hstarting
    | true =>
      by_cases hending : block.position = .ending
      · exact ⟨[0, 0], by simp [run, hending]⟩
      by_cases hfinished : block.position = .finished
      · exact ⟨[], hfinished⟩
      · exact absurd ⟨hends, Or.inr ⟨hrunning, hending, hfinished⟩⟩ hendless

end Endings

section Reachable

variable {block : SamplingBlock} {mock : SamplingMock} {s : Shared}

theorem sound_make (id : UInt64) (timeout snapsNeeded : Int32) :
    Sound (make id timeout snapsNeeded) := ⟨tracked_make id, fun _ => rfl⟩

theorem sound_run (newSnapId : UInt64) (h : Sound block) : Sound (block.run newSnapId) := by
  have htracked := tracked_run newSnapId h.tracked
  refine ⟨?_, fun hstarting => absurd hstarting (run_started newSnapId)⟩
  rw [htracked.limits.1, htracked.limits.2]
  exact htracked

theorem sound_cleared (h : Sound block) : Sound { block with running := false } where
  tracked := ⟨h.tracked.limits, h.tracked.elapsed, h.tracked.listed, h.tracked.before,
    h.tracked.sleeping⟩
  unstarted := h.unstarted

theorem sound_step {s : Stoppable} (event : SamplingBlocks.Event) (h : Sound s.block) :
    Sound (SamplingBlocks.step s event).block := by
  cases event with
  | thread newSnapId => exact sound_run newSnapId h
  | readRunning => rwa [readRunning_block]
  | clearRunning => exact sound_cleared h
  | join => exact h

/-- Every sampling whose thread has not been joined is sound. -/
def AllSound (mock : SamplingMock) : Prop := ∀ block ∈ mock.blocks, Sound block

theorem mem_blocks : block ∈ mock.blocks ↔
    (∃ id, (id, block) ∈ mock.samplings) ∨ ∃ s, mock.destroyed = some s ∧ s.block = block := by
  simp [SamplingMock.blocks]

theorem allSound_start (timeout snapsNeeded : Int32) (h : AllSound mock) :
    AllSound (mock.start timeout snapsNeeded) := by
  intro block hblock
  unfold SamplingMock.start at hblock
  cases hlookup : mock.samplings.lookup mock.samplingId with
  | none =>
    simp only [hlookup] at hblock
    rcases mem_blocks.mp hblock with ⟨id, hmem⟩ | hdestroyed
    · rcases List.mem_cons.mp hmem with heq | hmem
      · rw [(Prod.mk.inj heq).2]
        exact sound_make _ timeout snapsNeeded
      · exact h block (mem_blocks.mpr (Or.inl ⟨id, hmem⟩))
    · exact h block (mem_blocks.mpr (Or.inr hdestroyed))
  | some taken =>
    simp only [hlookup] at hblock
    rcases mem_blocks.mp hblock with hmem | ⟨s, hs, rfl⟩
    · exact h block (mem_blocks.mpr (Or.inl hmem))
    · rw [← Option.some.inj hs]
      exact sound_make _ timeout snapsNeeded

theorem allSound_stop (sampleId : UInt64) (h : AllSound mock) :
    AllSound (mock.stop sampleId) := by
  intro block hblock
  unfold SamplingMock.stop at hblock
  cases hlookup : mock.samplings.lookup sampleId with
  | none =>
    simp only [hlookup] at hblock
    exact h block hblock
  | some stopped =>
    simp only [hlookup] at hblock
    rcases mem_blocks.mp hblock with ⟨id, hmem⟩ | ⟨s, hs, rfl⟩
    · exact h block (mem_blocks.mpr (Or.inl ⟨id, (List.mem_filter.mp hmem).1⟩))
    · rw [← Option.some.inj hs]
      exact h stopped (mem_blocks.mpr (Or.inl ⟨sampleId, lookup_mem hlookup⟩))

theorem allSound_runThread (sampleId newSnapId : UInt64) (h : AllSound mock) :
    AllSound (mock.runThread sampleId newSnapId) := by
  intro block hblock
  rcases mem_blocks.mp hblock with ⟨id, hmem⟩ | hdestroyed
  · obtain ⟨it, hit, heq⟩ := List.mem_map.mp hmem
    have hsound := h it.2 (mem_blocks.mpr (Or.inl ⟨it.1, hit⟩))
    split at heq
    · rw [← (Prod.mk.inj heq).2]
      exact sound_run newSnapId hsound
    · rw [heq] at hsound
      exact hsound
  · exact h block (mem_blocks.mpr (Or.inr hdestroyed))

theorem allSound_runDestroyed (event : SamplingBlocks.Event) (h : AllSound mock) :
    AllSound (mock.runDestroyed event) := by
  intro block hblock
  rcases mem_blocks.mp hblock with hmem | ⟨s, hs, rfl⟩
  · exact h block (mem_blocks.mpr (Or.inl hmem))
  · obtain ⟨before, hbefore, hnext⟩ := Option.bind_eq_some_iff.mp hs
    have hsound := h before.block (mem_blocks.mpr (Or.inr ⟨before, hbefore, rfl⟩))
    split at hnext
    · cases hnext
    · rw [← Option.some.inj hnext]
      exact sound_step event hsound

theorem allSound_step (event : Samplings.Event) (h : AllSound s.mock) :
    AllSound (Samplings.step s event).mock := by
  cases event with
  | test thread timeout snapsNeeded =>
    show AllSound (ite _ _ _ : Shared).mock
    split
    · exact h
    · exact h
  | start thread =>
    simp only [Samplings.step]
    split
    · exact allSound_start _ _ h
    · exact h
  | report thread =>
    simp only [Samplings.step]
    split
    · exact h
    · exact h
  | stop sampleId => exact allSound_stop sampleId h
  | thread sampleId newSnapId => exact allSound_runThread sampleId newSnapId h
  | destroyed event => exact allSound_runDestroyed event h

theorem allSound_inductive : requests.Inductive (fun _ s => AllSound s.mock) := by
  refine Machine.inductive_of_step ?_ ?_
  · intro block hblock
    cases hblock
  · intro s event h _
    exact allSound_step event h

/-- In every state that the requests lead to, and whatever steps the thread of
a sampling makes before a stop clears the flag: the stop returns if and only if
the thread had set the flag before, or the sampling would have ended alone. -/
theorem stop_returns_iff (inputs : List Samplings.Event) (h : requests.Admissible inputs)
    (sampleId : UInt64) (block : SamplingBlock) (earlier : List UInt64)
    (hlive : (requests.run inputs).mock.samplings.lookup sampleId = some block) :
    Joins earlier block ↔ (block.position ≠ .starting ∨ earlier ≠ []) ∨ EndsAlone block := by
  have hsound : Sound block := allSound_inductive.run inputs h block
    (mem_blocks.mpr (Or.inl ⟨sampleId, lookup_mem hlive⟩))
  rw [joins_iff hsound, Joinable]
  apply or_congr_left
  constructor
  · intro hstarted
    by_cases hnil : earlier = []
    · rw [hnil] at hstarted
      exact Or.inl hstarted
    · exact Or.inr hnil
  · intro hmoved hstarting
    obtain rfl := runAll_started hstarting
    exact hmoved.elim (fun hne => hne hstarting) (fun hne => hne rfl)

/-- A sampling without limits is stopped before its thread has begun. -/
theorem stop_returns_iff_unlimited :
    Joins [] (make 1 (-1) (-1)) ↔
      ((make 1 (-1) (-1)).position ≠ .starting ∨ ([] : List UInt64) ≠ []) ∨
        EndsAlone (make 1 (-1) (-1)) :=
  stop_returns_iff [.test 0 (-1) (-1), .start 0]
    (Machine.admissible_of_enabledFrom _ _ (by decide +kernel)) 1 (make 1 (-1) (-1)) []
    (by decide +kernel)

end Reachable

end BeastServer.SamplingJoins
