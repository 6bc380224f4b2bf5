import Mathlib.Data.List.Basic
import Mathlib.Logic.Function.Basic

/-!
Loops that erase elements from a vector or from a map.
The vector is compacted in place: the elements to keep are moved to the front
one by one, and the tail is cut off. The map is walked with an iterator that
erase moves on. Both keep the elements that do not satisfy the predicate, in
their order. A map is listed by its entries in some order, one for each key.
-/
namespace BeastServer.EraseLoops

section Vectors

variable {α : Type*} (p : α → Bool)

/-- The loop of std::remove_if with i at the next element to look at and first
at the next place to fill. What it has moved away is not looked at again. -/
def removeFrom : ℕ → ℕ → ℕ → List α → List α × ℕ
  | 0, _, first, xs => (xs, first)
  | rounds + 1, i, first, xs =>
    match xs[i]? with
    | none => (xs, first)
    | some x =>
      if p x then removeFrom rounds (i + 1) first xs
      else removeFrom rounds (i + 1) (first + 1) (xs.set first x)

/-- std::remove_if: the vector afterwards and the new end. -/
def removeIf (xs : List α) : List α × ℕ :=
  let first := xs.findIdx p
  removeFrom p (xs.length - (first + 1)) (first + 1) first xs

/-- The vector is cut off at the new end. -/
def eraseRemoved (xs : List α) : List α := (removeIf p xs).1.take (removeIf p xs).2

theorem take_set_succ {xs : List α} {first : ℕ} (hfirst : first < xs.length) (x : α) :
    (xs.set first x).take (first + 1) = xs.take first ++ [x] := by
  have hlength : first < (xs.set first x).length := by rwa [List.length_set]
  rw [List.take_succ_eq_append_getElem hlength, List.getElem_set_self, List.take_set,
    List.set_eq_of_length_le (List.length_take_le _ _)]

/-- What is in front of first stays, and of the rest what is to be kept. -/
theorem removeFrom_eq {rounds i first : ℕ} {xs : List α} (hfirst : first ≤ i)
    (hrounds : xs.length ≤ i + rounds) :
    (removeFrom p rounds i first xs).1.take (removeFrom p rounds i first xs).2 =
      xs.take first ++ (xs.drop i).filter (fun x => !p x) := by
  induction rounds generalizing i first xs with
  | zero =>
    rw [removeFrom, List.drop_eq_nil_of_le (by omega)]
    simp
  | succ rounds ih =>
    by_cases hi : i < xs.length
    · have hdrop : xs.drop i = xs[i] :: xs.drop (i + 1) := List.drop_eq_getElem_cons hi
      simp only [removeFrom, List.getElem?_eq_getElem hi]
      split
      · rename_i hp
        rw [ih (by omega) (by omega), hdrop, List.filter_cons_of_neg (by simp [hp])]
      · rename_i hp
        rw [ih (by omega) (by rw [List.length_set]; omega), take_set_succ (by omega),
          List.drop_set_of_lt (by omega), hdrop, List.filter_cons_of_pos (by simp [hp]),
          List.append_assoc, List.singleton_append]
    · simp only [removeFrom, List.getElem?_eq_none (Nat.le_of_not_lt hi)]
      rw [List.drop_eq_nil_of_le (by omega)]
      simp

theorem eraseRemoved_eq (xs : List α) : eraseRemoved p xs = xs.filter (fun x => !p x) := by
  have hkept : (xs.take (xs.findIdx p)).filter (fun x => !p x) = xs.take (xs.findIdx p) := by
    rw [List.filter_eq_self]
    intro x hx
    obtain ⟨i, hi, rfl⟩ := List.mem_take_iff_getElem.mp hx
    have hnot := List.not_of_lt_findIdx (show i < xs.findIdx p by omega)
    simpa using hnot
  rw [eraseRemoved, removeIf, removeFrom_eq p (by omega) (by omega)]
  by_cases hfound : xs.findIdx p < xs.length
  · have hp : p xs[xs.findIdx p] = true := List.findIdx_getElem
    conv_rhs => rw [← List.take_append_drop (xs.findIdx p) xs]
    rw [List.filter_append, hkept, List.drop_eq_getElem_cons hfound,
      List.filter_cons_of_neg (by simp [hp])]
  · rw [List.drop_eq_nil_of_le (by omega), ← hkept, List.take_of_length_le (by omega)]
    simp

end Vectors

section Maps

variable {K V W : Type*}

/-- The loop over a map with its iterator after the entries that it has kept:
erase moves the iterator to the next entry. -/
def eraseLoop (p : V → Bool) (kept : List (K × V)) : List (K × V) → List (K × V)
  | [] => kept
  | entry :: rest =>
    if p entry.2 then eraseLoop p kept rest else eraseLoop p (kept ++ [entry]) rest

theorem eraseLoop_eq (p : V → Bool) (kept entries : List (K × V)) :
    eraseLoop p kept entries = kept ++ entries.filter (fun entry => !p entry.2) := by
  induction entries generalizing kept with
  | nil => simp [eraseLoop]
  | cons entry rest ih =>
    rw [eraseLoop]
    split
    · rename_i hp
      rw [ih]
      simp [hp]
    · rename_i hp
      rw [ih]
      simp [hp]

/-- The entries are those of the map, in some order. -/
structure Enumerates (entries : List (K × V)) (map : K → Option V) : Prop where
  nodup : (entries.map Prod.fst).Nodup
  mem_iff : ∀ key value, (key, value) ∈ entries ↔ map key = some value

variable {entries : List (K × V)} {map : K → Option V}

theorem enumerates_map (h : Enumerates entries map) (f : V → W) :
    Enumerates (entries.map (fun entry => (entry.1, f entry.2)))
      (fun key => (map key).map f) where
  nodup := by
    rw [List.map_map]
    exact h.nodup
  mem_iff key value := by
    simp only [List.mem_map, Prod.exists, Prod.mk.injEq, Option.map_eq_some_iff]
    constructor
    · intro ⟨key', before, hmem, hkey, hvalue⟩
      subst hkey
      exact ⟨before, (h.mem_iff _ _).mp hmem, hvalue⟩
    · intro ⟨before, hbefore, hvalue⟩
      exact ⟨key, before, (h.mem_iff _ _).mpr hbefore, rfl, hvalue⟩

theorem enumerates_filter (h : Enumerates entries map) (p : V → Bool) :
    Enumerates (entries.filter (fun entry => p entry.2)) (fun key => (map key).filter p) where
  nodup := h.nodup.sublist (List.filter_sublist.map Prod.fst)
  mem_iff key value := by
    rw [List.mem_filter, h.mem_iff, Option.filter_eq_some_iff]

end Maps

end BeastServer.EraseLoops
