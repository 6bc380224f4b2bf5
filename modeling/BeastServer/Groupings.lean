import BeastServer.Machines
import Mathlib.Data.Fintype.Defs
import Mathlib.Data.Fintype.Basic
import Mathlib.Logic.Function.Basic

/-!
Groups that are gathered from several sources.
One slot gathers the items of one subject: a leading item, of which only the last
one counts, and a line of items from each source. Items become stale and are
dropped. The slot is complete when it has a leading item, no line is empty and
some line is long enough; it is then handed over and emptied. A slot sees of
each post whether it is its own, and otherwise only that time has passed.
-/
namespace BeastServer.Groupings

open Machines

section Slots

variable {κ α : Type*}

structure Slot (κ α : Type*) where
  lead : Option α
  lines : κ → List α

inductive Arrival (κ α : Type*)
  | lead (item : α)
  | line (source : κ) (item : α)

/-- What a slot sees of a post: the items that are fresh, and its own arrival. -/
structure Seen (κ α : Type*) where
  fresh : α → Bool
  arrival : Option (Arrival κ α)

namespace Slot

def empty : Slot κ α := ⟨none, fun _ => []⟩

def keep (fresh : α → Bool) (slot : Slot κ α) : Slot κ α where
  lead := slot.lead.filter fresh
  lines source := (slot.lines source).filter fresh

def add [DecidableEq κ] (slot : Slot κ α) : Arrival κ α → Slot κ α
  | .lead item => { slot with lead := some item }
  | .line source item =>
    { slot with lines := Function.update slot.lines source (slot.lines source ++ [item]) }

def receive [DecidableEq κ] (slot : Slot κ α) : Option (Arrival κ α) → Slot κ α
  | none => slot
  | some arrival => slot.add arrival

/-- What a post makes of the slot before it is looked at whether it is complete. -/
def arrive [DecidableEq κ] (seen : Seen κ α) (slot : Slot κ α) : Slot κ α :=
  (slot.keep seen.fresh).receive seen.arrival

def Complete (enough : ℕ) (slot : Slot κ α) : Prop :=
  slot.lead.isSome = true ∧ (∀ source, 0 < (slot.lines source).length) ∧
    ∃ source, enough ≤ (slot.lines source).length

instance [Fintype κ] (enough : ℕ) (slot : Slot κ α) : Decidable (slot.Complete enough) :=
  inferInstanceAs (Decidable (_ ∧ _))

def settle [Fintype κ] (enough : ℕ) (slot : Slot κ α) : Slot κ α :=
  if slot.Complete enough then empty else slot

end Slot

open Slot

/-- The machine of one slot. -/
def gathering (κ α : Type*) [DecidableEq κ] [Fintype κ] (enough : ℕ) :
    Machine (Slot κ α) (Seen κ α) where
  init := Slot.empty
  enabled _ _ := True
  step slot seen := (slot.arrive seen).settle enough

variable {enough : ℕ} {slot : Slot κ α} [Fintype κ]

theorem settle_of_not_complete (h : ¬ slot.Complete enough) : slot.settle enough = slot :=
  if_neg h

end Slots

end BeastServer.Groupings
