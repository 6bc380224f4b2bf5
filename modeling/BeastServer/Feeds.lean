import Mathlib.Data.List.Induction
import Mathlib.Data.List.Basic
import Mathlib.Data.List.Nodup

/-!
Feeds with one reader.
Entries are appended one at a time and only a bounded number of the newest is
kept; a reader asks from time to time for what is new and names the newest
entry it knows. What has not been read at some time are the entries appended
since the last reading, so no entry is unread at two readings.
-/
namespace BeastServer.Feeds

variable {α : Type*}

section Windows

/-- The newest entries of a history, the newest first. -/
def newest (bound : ℕ) (history : List α) : List α := history.reverse.take bound

@[simp] theorem newest_nil (bound : ℕ) : newest bound ([] : List α) = [] := by
  simp [newest]

theorem newest_append_singleton (bound : ℕ) (history : List α) (a : α) :
    newest bound (history ++ [a]) = (a :: newest bound history).take bound := by
  unfold newest
  rw [List.reverse_append, List.reverse_singleton, List.singleton_append]
  cases bound with
  | zero => rfl
  | succ bound =>
    rw [List.take_succ_cons, List.take_succ_cons, List.take_take, Nat.min_eq_left (by omega)]

theorem newest_subset (bound : ℕ) (history : List α) : newest bound history ⊆ history := by
  intro a ha
  exact List.mem_reverse.mp (List.mem_of_mem_take ha)

theorem newest_nodup (bound : ℕ) {history : List α} (h : history.Nodup) :
    (newest bound history).Nodup :=
  (List.nodup_reverse.mpr h).sublist (List.take_sublist _ _)

theorem newest_length (bound : ℕ) (history : List α) :
    (newest bound history).length = min bound history.length := by
  simp [newest]

/-- What an entry drives out is the oldest entry, perhaps itself. -/
theorem newest_drops_oldest {bound : ℕ} {history : List α} {a x : α}
    (hx : x ∈ a :: newest bound history) (hgone : x ∉ newest bound (history ++ [a])) :
    (a :: newest bound history).getLast? = some x := by
  rw [newest_append_singleton] at hgone
  have hlength : (a :: newest bound history).length ≤ bound + 1 := by
    rw [List.length_cons, newest_length]
    omega
  have hdropped : x ∈ (a :: newest bound history).drop bound := by
    rw [← List.take_append_drop bound (a :: newest bound history)] at hx
    rcases List.mem_append.mp hx with hkept | hdropped
    · exact absurd hkept hgone
    · exact hdropped
  have hone : (a :: newest bound history).drop bound = [x] := by
    have hshort : ((a :: newest bound history).drop bound).length ≤ 1 := by
      rw [List.length_drop]
      omega
    cases hrest : (a :: newest bound history).drop bound with
    | nil =>
      rw [hrest] at hdropped
      simp at hdropped
    | cons y rest =>
      rw [hrest] at hdropped hshort
      have hnil : rest = [] := by
        apply List.eq_nil_of_length_eq_zero
        rw [List.length_cons] at hshort
        omega
      subst hnil
      rw [List.mem_singleton.mp hdropped]
  rw [← List.take_append_drop bound (a :: newest bound history), hone]
  simp

end Windows

section Readers

inductive Operation (α : Type*)
  | append (a : α)
  | read

namespace Operation

def appended : List (Operation α) → List α
  | [] => []
  | append a :: rest => a :: appended rest
  | read :: rest => appended rest

def remember (entries : List α) : Operation α → List α
  | append a => a :: entries
  | read => []

end Operation

open Operation

/-- The entries appended after the last reading, the newest first. -/
def unread (operations : List (Operation α)) : List α := operations.foldl remember []

variable {operations before after : List (Operation α)} {a : α}

@[simp] theorem appended_append :
    appended (before ++ after) = appended before ++ appended after := by
  induction before with
  | nil => rfl
  | cons operation before ih => cases operation <;> simp [appended, ih]

@[simp] theorem unread_append_entry :
    unread (operations ++ [append a]) = a :: unread operations := by
  simp [unread, remember]

@[simp] theorem unread_append_read : unread (operations ++ [read]) = [] := by
  simp [unread, remember]

/-- A reading leaves nothing unread, whatever was appended before it. -/
theorem unread_after_read : unread (before ++ read :: after) = unread after := by
  simp [unread, remember]

/-- What is unread was appended last. -/
theorem unread_suffix : (unread operations).reverse <:+ appended operations := by
  induction operations using List.reverseRecOn with
  | nil => exact List.suffix_rfl
  | append_singleton operations operation ih =>
    cases operation with
    | append a =>
      obtain ⟨seen, hseen⟩ := ih
      refine ⟨seen, ?_⟩
      rw [unread_append_entry, List.reverse_cons, ← List.append_assoc, hseen, appended_append]
      rfl
    | read =>
      rw [unread_append_read]
      exact List.nil_suffix

theorem mem_appended_of_unread (h : a ∈ unread operations) : a ∈ appended operations :=
  unread_suffix.subset (List.mem_reverse.mpr h)

/-- No entry is unread at two readings. -/
theorem unread_disjoint (hnodup : (appended (before ++ read :: after)).Nodup)
    (hbefore : a ∈ unread before) : a ∉ unread (before ++ read :: after) := by
  intro hafter
  rw [unread_after_read] at hafter
  rw [appended_append] at hnodup
  exact (List.nodup_append.mp hnodup).2.2 a (mem_appended_of_unread hbefore) a
    (mem_appended_of_unread hafter) rfl

end Readers

section Cursors

variable [DecidableEq α] {fresh seen : List α} {cursor : α}

/-- A reader that knows the newest of the seen entries, or none of the entries
while there are none, gets what is fresh. -/
theorem takeWhile_newest (bound : ℕ) (hfresh : cursor ∉ fresh)
    (hcursor : ∀ newest, seen.head? = some newest → newest = cursor) :
    ((fresh ++ seen).take bound).takeWhile (fun a => decide (a ≠ cursor)) =
      fresh.take bound := by
  have hall : ∀ a ∈ fresh.take bound, decide (a ≠ cursor) = true := by
    intro a ha
    apply decide_eq_true
    intro heq
    rw [heq] at ha
    exact hfresh (List.mem_of_mem_take ha)
  rw [List.take_append, List.takeWhile_append_of_pos hall]
  cases seen with
  | nil => simp
  | cons newest rest =>
    have hsame : newest = cursor := hcursor newest rfl
    cases bound - fresh.length with
    | zero => simp
    | succ left => simp [hsame]

/-- At most limit entries, where the limit 0 stands for none. -/
def cut (limit : ℕ) (entries : List α) : List α :=
  if limit = 0 then entries else entries.take limit

omit [DecidableEq α] in
theorem cut_subset (limit : ℕ) (entries : List α) : cut limit entries ⊆ entries := by
  unfold cut
  split
  · exact List.Subset.refl _
  · exact List.take_subset _ _

omit [DecidableEq α] in
/-- A cut is empty only where there is nothing, and begins with the newest entry. -/
theorem cut_head? (limit : ℕ) (entries : List α) :
    (cut limit entries).head? = entries.head? := by
  unfold cut
  split
  · rfl
  · rename_i hlimit
    rw [List.head?_take, if_neg hlimit]

end Cursors

end BeastServer.Feeds
