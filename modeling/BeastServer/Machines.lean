import Mathlib.Data.List.Induction
import Mathlib.Logic.Basic

/-!
Machines driven by a finite sequence of inputs.
A machine has an initial state, a condition under which an input can occur and
a total step function; all nondeterminism (schedules, clocks, outcomes of the
environment) is part of the input. Invariants are proved once for the initial
state and once for a step; the rules here carry them to every admissible run,
and carry a comparison of two step properties to the runs that satisfy them.
-/
namespace BeastServer.Machines

structure Machine (σ ι : Type*) where
  init : σ
  enabled : σ → ι → Prop
  step : σ → ι → σ

variable {σ ι : Type*}

/-- The property P holds at each step of the run, of the inputs before the
step and the input of the step. -/
def Everywhere (P : List ι → ι → Prop) (inputs : List ι) : Prop :=
  ∀ before i after, inputs = before ++ i :: after → P before i

theorem everywhere_nil (P : List ι → ι → Prop) : Everywhere P [] := by
  intro before i after h
  simp at h

theorem everywhere_append_singleton (P : List ι → ι → Prop) (inputs : List ι) (i : ι) :
    Everywhere P (inputs ++ [i]) ↔ Everywhere P inputs ∧ P inputs i := by
  constructor
  · intro h
    refine ⟨?_, h inputs i [] rfl⟩
    intro before j after heq
    exact h before j (after ++ [i]) (by rw [heq, List.append_assoc, List.cons_append])
  · intro ⟨hall, hlast⟩ before j after heq
    rcases List.eq_nil_or_concat after with rfl | ⟨rest, last, rfl⟩
    · obtain ⟨rfl, hj⟩ := List.append_inj' heq rfl
      obtain rfl : i = j := by simpa using hj
      exact hlast
    · have heq' : inputs ++ [i] = (before ++ j :: rest) ++ [last] := by
        rw [heq, List.append_assoc, List.cons_append, List.concat_eq_append]
      exact hall before j rest (List.append_inj' heq' rfl).1

theorem everywhere_of_append (P : List ι → ι → Prop) (before after : List ι)
    (h : Everywhere P (before ++ after)) : Everywhere P before := by
  intro first i rest heq
  exact h first i (rest ++ after) (by rw [heq, List.append_assoc, List.cons_append])

namespace Machine

def run (M : Machine σ ι) (inputs : List ι) : σ := inputs.foldl M.step M.init

/-- Each input of the run can occur in the state it meets. -/
def Admissible (M : Machine σ ι) (inputs : List ι) : Prop :=
  Everywhere (fun before i => M.enabled (M.run before) i) inputs

/-- The trace property I holds before the first step, and one more step of an
admissible run preserves it. It may mention the inputs so far. -/
structure Inductive (M : Machine σ ι) (I : List ι → σ → Prop) : Prop where
  start : I [] M.init
  preserved : ∀ inputs i, M.Admissible inputs → I inputs (M.run inputs) →
    M.enabled (M.run inputs) i → I (inputs ++ [i]) (M.step (M.run inputs) i)

@[simp] theorem run_nil (M : Machine σ ι) : M.run [] = M.init := rfl

@[simp] theorem run_append_singleton (M : Machine σ ι) (inputs : List ι) (i : ι) :
    M.run (inputs ++ [i]) = M.step (M.run inputs) i := by
  simp [run]

theorem admissible_nil (M : Machine σ ι) : M.Admissible [] := everywhere_nil _

theorem admissible_append_singleton (M : Machine σ ι) (inputs : List ι) (i : ι) :
    M.Admissible (inputs ++ [i]) ↔ M.Admissible inputs ∧ M.enabled (M.run inputs) i :=
  everywhere_append_singleton _ inputs i

theorem admissible_of_append (M : Machine σ ι) {before after : List ι}
    (h : M.Admissible (before ++ after)) : M.Admissible before :=
  everywhere_of_append _ before after h

/-- Where every input can occur in every state, all runs are admissible. -/
theorem admissible_of_enabled (M : Machine σ ι) (h : ∀ s i, M.enabled s i) (inputs : List ι) :
    M.Admissible inputs :=
  fun before i _ _ => h (M.run before) i

/-- Rule for checkers: a check of a whole sequence that looks at one input after
the other, and may carry data k that is adequate for the state it meets. -/
theorem admissible_of_check {κ : Type*} (M : Machine σ ι) {Adequate : κ → σ → Prop}
    {check : σ → κ → List ι → Bool}
    (hcons : ∀ s k i rest, Adequate k s → check s k (i :: rest) = true →
      M.enabled s i ∧ ∃ k', Adequate k' (M.step s i) ∧ check (M.step s i) k' rest = true)
    (inputs : List ι) (k : κ) (hk : Adequate k M.init) (h : check M.init k inputs = true) :
    M.Admissible inputs := by
  have hall : ∀ (rest before : List ι) (k : κ), M.Admissible before →
      Adequate k (M.run before) → check (M.run before) k rest = true →
      M.Admissible (before ++ rest) := by
    intro rest
    induction rest with
    | nil =>
      intro before k hbefore _ _
      rwa [List.append_nil]
    | cons i rest ih =>
      intro before k hbefore hk hcheck
      obtain ⟨henabled, k', hk', hrest⟩ := hcons _ k i rest hk hcheck
      rw [← run_append_singleton] at hk' hrest
      rw [List.append_cons]
      have hnext := (admissible_append_singleton M before i).mpr ⟨hbefore, henabled⟩
      exact ih (before ++ [i]) k' hnext hk' hrest
  exact hall inputs [] k (admissible_nil M) hk h

/-- Each input is enabled when the inputs before it have been run from s. -/
def enabledFrom (M : Machine σ ι) [∀ s i, Decidable (M.enabled s i)] : σ → List ι → Bool
  | _, [] => true
  | s, i :: rest => decide (M.enabled s i) && enabledFrom M (M.step s i) rest

theorem admissible_of_enabledFrom (M : Machine σ ι) [∀ s i, Decidable (M.enabled s i)]
    (inputs : List ι) (h : M.enabledFrom M.init inputs = true) : M.Admissible inputs := by
  have hcons : ∀ s (_ : Unit) i rest, True → M.enabledFrom s (i :: rest) = true →
      M.enabled s i ∧ ∃ _ : Unit, True ∧ M.enabledFrom (M.step s i) rest = true := by
    intro s _ i rest _ hcheck
    obtain ⟨hfirst, hrest⟩ := Bool.and_eq_true_iff.mp hcheck
    exact ⟨of_decide_eq_true hfirst, (), trivial, hrest⟩
  exact admissible_of_check M hcons inputs () trivial h

/-- Run rule: an inductive trace property holds after every admissible run. -/
theorem Inductive.run {M : Machine σ ι} {I : List ι → σ → Prop} (hI : M.Inductive I)
    (inputs : List ι) (h : M.Admissible inputs) : I inputs (M.run inputs) := by
  induction inputs using List.reverseRecOn with
  | nil => exact hI.start
  | append_singleton inputs i ih =>
    obtain ⟨hall, hlast⟩ := (admissible_append_singleton M inputs i).mp h
    rw [run_append_singleton]
    exact hI.preserved inputs i hall (ih hall) hlast

/-- An invariant of the states alone is an inductive trace property. -/
theorem inductive_of_step {M : Machine σ ι} {I : σ → Prop} (hstart : I M.init)
    (hstep : ∀ s i, I s → M.enabled s i → I (M.step s i)) :
    M.Inductive (fun _ s => I s) where
  start := hstart
  preserved _ i _ hI henabled := hstep _ i hI henabled

/-- A further inductive property may use one that has been proved before. -/
theorem Inductive.and_then {M : Machine σ ι} {I J : List ι → σ → Prop} (hI : M.Inductive I)
    (hstart : J [] M.init)
    (hstep : ∀ inputs i, I inputs (M.run inputs) → J inputs (M.run inputs) →
      M.enabled (M.run inputs) i → J (inputs ++ [i]) (M.step (M.run inputs) i)) :
    M.Inductive J where
  start := hstart
  preserved inputs i h hJ henabled := hstep inputs i (hI.run inputs h) hJ henabled

theorem Inductive.and {M : Machine σ ι} {I J : List ι → σ → Prop} (hI : M.Inductive I)
    (hJ : M.Inductive J) : M.Inductive (fun inputs s => I inputs s ∧ J inputs s) where
  start := ⟨hI.start, hJ.start⟩
  preserved inputs i h hIJ henabled :=
    ⟨hI.preserved inputs i h hIJ.1 henabled, hJ.preserved inputs i h hIJ.2 henabled⟩

/-- What follows from an inductive property and an enabled input holds at
every step of an admissible run. -/
theorem Inductive.everywhere {M : Machine σ ι} {I : List ι → σ → Prop} (hI : M.Inductive I)
    (inputs : List ι) (h : M.Admissible inputs) {P : List ι → ι → Prop}
    (hP : ∀ before i, I before (M.run before) → M.enabled (M.run before) i → P before i) :
    Everywhere P inputs := by
  intro before i after heq
  have hbefore : M.Admissible before :=
    everywhere_of_append _ before (i :: after) (by rw [← heq]; exact h)
  exact hP before i (hI.run before hbefore) (h before i after heq)

/-- Two step properties that agree on the states of an inductive property
agree on whole admissible runs. -/
theorem Inductive.everywhere_congr {M : Machine σ ι} {I : List ι → σ → Prop}
    (hI : M.Inductive I) (inputs : List ι) (h : M.Admissible inputs)
    {P Q : List ι → ι → Prop}
    (hPQ : ∀ before i, I before (M.run before) → M.enabled (M.run before) i →
      (P before i ↔ Q before i)) :
    Everywhere P inputs ↔ Everywhere Q inputs := by
  have hiff : Everywhere (fun before i => P before i ↔ Q before i) inputs :=
    hI.everywhere inputs h hPQ
  constructor
  · intro hP before i after heq
    exact (hiff before i after heq).mp (hP before i after heq)
  · intro hQ before i after heq
    exact (hiff before i after heq).mpr (hQ before i after heq)

/-- Once E holds, the inputs that are left preserve it and leave a view of the
state as it was: then so does the rest of the run. -/
theorem frozen_run {γ : Type*} (M : Machine σ ι) (E : σ → Prop) (view : σ → γ)
    {before after : List ι}
    (hstep : ∀ i ∈ after, ∀ s, E s → M.enabled s i →
      E (M.step s i) ∧ view (M.step s i) = view s)
    (h : M.Admissible (before ++ after)) (hE : E (M.run before)) :
    E (M.run (before ++ after)) ∧ view (M.run (before ++ after)) = view (M.run before) := by
  induction after using List.reverseRecOn with
  | nil =>
    rw [List.append_nil]
    exact ⟨hE, rfl⟩
  | append_singleton after i ih =>
    rw [← List.append_assoc] at h ⊢
    obtain ⟨hall, hlast⟩ := (admissible_append_singleton M _ i).mp h
    have hbefore : ∀ j ∈ after, ∀ s, E s → M.enabled s j →
        E (M.step s j) ∧ view (M.step s j) = view s :=
      fun j hj => hstep j (List.mem_append_left _ hj)
    obtain ⟨hend, hview⟩ := ih hbefore hall
    obtain ⟨hend', hview'⟩ := hstep i (by simp) _ hend hlast
    rw [run_append_singleton]
    exact ⟨hend', hview'.trans hview⟩

end Machine

end BeastServer.Machines
