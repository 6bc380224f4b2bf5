import BeastServer.Machines
import Mathlib.Data.List.Nodup

/-!
Tokens in the custody of places.
The steps of a machine bring new tokens in, move tokens from one place to
another and take tokens out. When the tokens brought in are all different, no
token is ever at two places and none is taken out twice: whatever is taken out
was at one place, and is at no place from then on.
-/
namespace BeastServer.Custody

open Machines

variable {σ ι Place Token : Type*}

/-- No token is at two places. -/
def AtOnePlace (held : Place → Token → Prop) : Prop :=
  ∀ a b token, held a token → held b token → a = b

/-- What one step may do to the tokens. -/
structure Handover (before after : Place → Token → Prop) (broughtIn takenOut : List Token) :
    Prop where
  origin : ∀ a token, after a token → token ∈ broughtIn ∨ ∃ b, before b token
  single : AtOnePlace before → (∀ token ∈ broughtIn, ∀ a, ¬ before a token) → AtOnePlace after
  source : ∀ token ∈ takenOut, ∃ a, before a token
  gone : AtOnePlace before → ∀ token ∈ takenOut, ∀ a, ¬ after a token

section Steps

variable {before after : Place → Token → Prop}

/-- Tokens may get lost. -/
theorem handover_of_le (h : ∀ a token, after a token → before a token) :
    Handover before after [] [] where
  origin a token hafter := Or.inr ⟨a, h a token hafter⟩
  single hone _ a b token ha hb := hone a b token (h a token ha) (h b token hb)
  source token hmem := by simp at hmem
  gone _ token hmem := by simp at hmem

theorem handover_bring (place : Place) (new : Token)
    (h : ∀ a token, after a token → before a token ∨ (a = place ∧ token = new)) :
    Handover before after [new] [] where
  origin a token hafter := by
    rcases h a token hafter with hold | ⟨-, rfl⟩
    · exact Or.inr ⟨a, hold⟩
    · exact Or.inl List.mem_cons_self
  single hone hfresh a b token ha hb := by
    have hnew : ∀ c, ¬ before c new := hfresh new List.mem_cons_self
    rcases h a token ha with holdA | ⟨rfl, rfl⟩
    · rcases h b token hb with holdB | ⟨-, rfl⟩
      · exact hone a b token holdA holdB
      · exact absurd holdA (hnew a)
    · rcases h b _ hb with holdB | ⟨rfl, -⟩
      · exact absurd holdB (hnew b)
      · rfl
  source token hmem := by simp at hmem
  gone _ token hmem := by simp at hmem

theorem handover_move (left entered : Place) (moved : Token) (hleft : before left moved)
    (h : ∀ a token, after a token →
      (a ≠ left ∧ before a token) ∨ (a = entered ∧ token = moved)) :
    Handover before after [] [] where
  origin a token hafter := by
    rcases h a token hafter with ⟨-, hold⟩ | ⟨-, rfl⟩
    · exact Or.inr ⟨a, hold⟩
    · exact Or.inr ⟨left, hleft⟩
  single hone _ a b token ha hb := by
    rcases h a token ha with ⟨hneA, holdA⟩ | ⟨rfl, rfl⟩
    · rcases h b token hb with ⟨-, holdB⟩ | ⟨-, rfl⟩
      · exact hone a b token holdA holdB
      · exact absurd (hone a left _ holdA hleft) hneA
    · rcases h b _ hb with ⟨hneB, holdB⟩ | ⟨rfl, -⟩
      · exact absurd (hone b left _ holdB hleft) hneB
      · rfl
  source token hmem := by simp at hmem
  gone _ token hmem := by simp at hmem

/-- Tokens are taken out of places that are cleared. -/
theorem handover_takeOut {takenOut : List Token} (cleared : Place → Prop)
    (hkept : ∀ a token, after a token → before a token ∧ ¬ cleared a)
    (htaken : ∀ token ∈ takenOut, ∃ a, cleared a ∧ before a token) :
    Handover before after [] takenOut where
  origin a token hafter := Or.inr ⟨a, (hkept a token hafter).1⟩
  single hone _ a b token ha hb := hone a b token (hkept a token ha).1 (hkept b token hb).1
  source token hmem := by
    obtain ⟨a, -, hbefore⟩ := htaken token hmem
    exact ⟨a, hbefore⟩
  gone hone token hmem a hafter := by
    obtain ⟨b, hcleared, hbefore⟩ := htaken token hmem
    obtain ⟨hold, hnot⟩ := hkept a token hafter
    rw [hone a b token hold hbefore] at hnot
    exact hnot hcleared

end Steps

section Runs

variable (M : Machine σ ι) (held : σ → Place → Token → Prop) (broughtIn : ι → List Token)
  (takenOut : σ → ι → List Token)

def NeverTakenOut (token : Token) (inputs : List ι) : Prop :=
  Everywhere (fun before i => token ∉ takenOut (M.run before) i) inputs

/-- Each token is at one place at most, was brought in, and is at no place once
it has been taken out. -/
structure Accounted (inputs : List ι) (s : σ) : Prop where
  single : AtOnePlace (held s)
  brought : ∀ a token, held s a token → token ∈ inputs.flatMap broughtIn
  taken : ∀ token, NeverTakenOut M takenOut token inputs ∨
    (token ∈ inputs.flatMap broughtIn ∧ ∀ a, ¬ held s a token)

variable {M held broughtIn takenOut}

theorem accounted_step {inputs : List ι} {i : ι}
    (h : Accounted M held broughtIn takenOut inputs (M.run inputs))
    (hstep : Handover (held (M.run inputs)) (held (M.step (M.run inputs) i)) (broughtIn i)
      (takenOut (M.run inputs) i))
    (hnew : ∀ token ∈ broughtIn i, token ∉ inputs.flatMap broughtIn) :
    Accounted M held broughtIn takenOut (inputs ++ [i]) (M.step (M.run inputs) i) where
  single := hstep.single h.single (fun token hmem a hheld =>
    hnew token hmem (h.brought a token hheld))
  brought a token hheld := by
    rw [List.flatMap_append, List.mem_append, List.flatMap_singleton]
    rcases hstep.origin a token hheld with hbrought | ⟨b, hbefore⟩
    · exact Or.inr hbrought
    · exact Or.inl (h.brought b token hbefore)
  taken token := by
    rw [List.flatMap_append, List.mem_append, List.flatMap_singleton]
    by_cases hnow : token ∈ takenOut (M.run inputs) i
    · obtain ⟨a, hbefore⟩ := hstep.source token hnow
      exact Or.inr ⟨Or.inl (h.brought a token hbefore), hstep.gone h.single token hnow⟩
    · rcases h.taken token with hnever | ⟨hbrought, hnowhere⟩
      · exact Or.inl ((everywhere_append_singleton _ inputs i).mpr ⟨hnever, hnow⟩)
      · refine Or.inr ⟨Or.inl hbrought, ?_⟩
        intro a hheld
        rcases hstep.origin a token hheld with hagain | ⟨b, hbefore⟩
        · exact hnew token hagain hbrought
        · exact hnowhere b hbefore

/-- Run rule: a token that a step takes out has not been taken out before. -/
theorem taken_out_once (hstart : ∀ a token, ¬ held M.init a token)
    (hstep : ∀ s i, M.enabled s i →
      Handover (held s) (held (M.step s i)) (broughtIn i) (takenOut s i))
    (inputs : List ι) (h : M.Admissible inputs) (hnodup : (inputs.flatMap broughtIn).Nodup) :
    Everywhere (fun before i => ∀ token ∈ takenOut (M.run before) i,
      NeverTakenOut M takenOut token before) inputs := by
  have haccounted : M.Inductive (fun before s =>
      (before.flatMap broughtIn).Nodup → Accounted M held broughtIn takenOut before s) := by
    refine ⟨?_, ?_⟩
    · intro _
      exact ⟨fun a _ token ha => absurd ha (hstart a token),
        fun a token ha => absurd ha (hstart a token), fun _ => Or.inl (everywhere_nil _)⟩
    · intro before i _ hbefore henabled hdistinct
      rw [List.flatMap_append, List.flatMap_singleton, List.nodup_append] at hdistinct
      obtain ⟨hfirst, -, hdisjoint⟩ := hdistinct
      refine accounted_step (hbefore hfirst) (hstep _ i henabled) ?_
      intro token hnew hold
      exact hdisjoint token hold token hnew rfl
  intro before i after heq token htaken
  have hbefore : M.Admissible before :=
    everywhere_of_append _ before (i :: after) (by rw [← heq]; exact h)
  have hdistinct : (before.flatMap broughtIn).Nodup := by
    rw [heq, List.flatMap_append, List.nodup_append] at hnodup
    exact hnodup.1
  have hhandover := hstep _ i (h before i after heq)
  rcases (haccounted.run before hbefore hdistinct).taken token with hnever | ⟨-, hnowhere⟩
  · exact hnever
  · obtain ⟨a, hheld⟩ := hhandover.source token htaken
    exact absurd hheld (hnowhere a)

end Runs

end BeastServer.Custody
