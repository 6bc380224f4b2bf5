import BeastServer.Machines

/-!
Machines that follow each other.
A view of the states of one machine is the state of another one all along a run
if and only if every step of the run is a step of the other machine for the view.
The inputs of the second machine are made of those of the first one, so that it
may see less of them.
-/
namespace BeastServer.Simulations

open Machines Machine

variable {σ τ ι κ : Type*}

/-- The view of the state after each input is where the other machine is. -/
def Follows (M : Machine σ ι) (N : Machine τ κ) (view : σ → τ) (seen : ι → κ)
    (before : List ι) (i : ι) : Prop :=
  view (M.run (before ++ [i])) = N.run ((before ++ [i]).map seen)

/-- One step of the first machine is one step of the other for the view. -/
def StepFollows (M : Machine σ ι) (N : Machine τ κ) (view : σ → τ) (seen : ι → κ)
    (before : List ι) (i : ι) : Prop :=
  view (M.step (M.run before) i) = N.step (view (M.run before)) (seen i)

variable {M : Machine σ ι} {N : Machine τ κ} {view : σ → τ} {seen : ι → κ}

theorem run_map_append (before : List ι) (i : ι) :
    N.run ((before ++ [i]).map seen) = N.step (N.run (before.map seen)) (seen i) := by
  rw [List.map_append, List.map_singleton, run_append_singleton]

/-- Simulation rule: steps that follow make runs that follow. -/
theorem view_run_of_stepFollows (hinit : view M.init = N.init) (inputs : List ι)
    (h : Everywhere (StepFollows M N view seen) inputs) :
    view (M.run inputs) = N.run (inputs.map seen) := by
  induction inputs using List.reverseRecOn with
  | nil => exact hinit
  | append_singleton inputs i ih =>
    obtain ⟨hall, hlast⟩ := (everywhere_append_singleton _ inputs i).mp h
    rw [run_append_singleton, hlast, ih hall, run_map_append]

theorem view_run_of_follows (hinit : view M.init = N.init) (inputs : List ι)
    (h : Everywhere (Follows M N view seen) inputs) :
    view (M.run inputs) = N.run (inputs.map seen) := by
  rcases List.eq_nil_or_concat inputs with rfl | ⟨before, i, rfl⟩
  · exact hinit
  · rw [List.concat_eq_append] at h ⊢
    exact ((everywhere_append_singleton _ before i).mp h).2

theorem follows_iff (hinit : view M.init = N.init) (inputs : List ι) :
    Everywhere (Follows M N view seen) inputs ↔
      Everywhere (StepFollows M N view seen) inputs := by
  constructor
  · intro h before i after heq
    have hbefore := view_run_of_follows hinit before
      (everywhere_of_append _ before (i :: after) (heq ▸ h))
    have hnext := h before i after heq
    unfold Follows at hnext
    unfold StepFollows
    rw [hbefore, ← run_append_singleton, hnext, run_map_append]
  · intro h before i after heq
    apply view_run_of_stepFollows hinit
    refine everywhere_of_append (StepFollows M N view seen) (before ++ [i]) after ?_
    rw [List.append_assoc, List.singleton_append, ← heq]
    exact h

end BeastServer.Simulations
