import Mathlib.Computability.RegularExpressions

/-!
Regular expressions that are written as text.
A pattern is made from literal words, classes of letters, repetition and
options. The rules here say which words such a pattern matches, so that the
language of a concrete pattern is read off its shape.
-/
namespace BeastServer.Patterns

open Computability RegularExpression

variable {α : Type*}

/-- The literal word. -/
def word : List α → RegularExpression α
  | [] => 1
  | a :: w => char a * word w

/-- One letter of the class. -/
def oneOf : List α → RegularExpression α
  | [] => 0
  | a :: letters => char a + oneOf letters

def many1 (P : RegularExpression α) : RegularExpression α := P * P.star

def optional (P : RegularExpression α) : RegularExpression α := P + 1

theorem mem_word {w x : List α} : x ∈ (word w).matches' ↔ x = w := by
  induction w generalizing x with
  | nil => exact Language.mem_one x
  | cons a w ih =>
    rw [word, matches'_mul, Language.mem_mul]
    constructor
    · intro hmem
      obtain ⟨first, hfirst, rest, hrest, rfl⟩ := hmem
      rw [matches'_char] at hfirst
      obtain rfl := Set.mem_singleton_iff.mp hfirst
      rw [ih.mp hrest, List.singleton_append]
    · intro heq
      subst heq
      exact ⟨[a], rfl, w, ih.mpr rfl, rfl⟩

theorem mem_oneOf {letters x : List α} :
    x ∈ (oneOf letters).matches' ↔ ∃ a ∈ letters, x = [a] := by
  induction letters with
  | nil =>
    have hnone : x ∉ (oneOf ([] : List α)).matches' := Language.notMem_zero x
    simp [hnone]
  | cons a letters ih =>
    rw [oneOf, matches'_add, Language.mem_add, ih, matches'_char]
    simp only [List.exists_mem_cons_iff]
    exact Iff.rfl

/-- Repeated letters of a class form the words over the class. -/
theorem mem_star_oneOf {letters x : List α} :
    x ∈ (oneOf letters).star.matches' ↔ ∀ a ∈ x, a ∈ letters := by
  rw [matches'_star, Language.mem_kstar]
  constructor
  · intro hmem
    obtain ⟨pieces, rfl, hpieces⟩ := hmem
    intro a ha
    obtain ⟨piece, hpiece, hmem⟩ := List.mem_flatten.mp ha
    obtain ⟨b, hb, rfl⟩ := mem_oneOf.mp (hpieces piece hpiece)
    rwa [List.mem_singleton.mp hmem]
  · intro hall
    refine ⟨x.map (fun a => [a]), ?_, ?_⟩
    · rw [← List.flatMap_def, List.flatMap_singleton']
    · intro piece hpiece
      obtain ⟨a, ha, rfl⟩ := List.mem_map.mp hpiece
      exact mem_oneOf.mpr ⟨a, hall a ha, rfl⟩

theorem mem_many1_oneOf {letters x : List α} :
    x ∈ (many1 (oneOf letters)).matches' ↔ x ≠ [] ∧ ∀ a ∈ x, a ∈ letters := by
  rw [many1, matches'_mul, Language.mem_mul]
  constructor
  · intro hmem
    obtain ⟨first, hfirst, rest, hrest, rfl⟩ := hmem
    obtain ⟨a, ha, rfl⟩ := mem_oneOf.mp hfirst
    refine ⟨by simp, ?_⟩
    intro b hb
    rcases List.mem_cons.mp hb with rfl | hb
    · exact ha
    · exact mem_star_oneOf.mp hrest b hb
  · intro ⟨hne, hall⟩
    cases x with
    | nil => exact absurd rfl hne
    | cons a rest =>
      refine ⟨[a], mem_oneOf.mpr ⟨a, hall a List.mem_cons_self, rfl⟩, rest, ?_, rfl⟩
      exact mem_star_oneOf.mpr (fun b hb => hall b (List.mem_cons_of_mem a hb))

theorem mem_add {P Q : RegularExpression α} {x : List α} :
    x ∈ (P + Q).matches' ↔ x ∈ P.matches' ∨ x ∈ Q.matches' := by
  rw [matches'_add, Language.mem_add]

theorem mem_mul {P Q : RegularExpression α} {x : List α} :
    x ∈ (P * Q).matches' ↔ ∃ y ∈ P.matches', ∃ z ∈ Q.matches', y ++ z = x := by
  rw [matches'_mul, Language.mem_mul]

/-- What follows a literal word. -/
theorem mem_word_mul {w x : List α} {P : RegularExpression α} :
    x ∈ (word w * P).matches' ↔ ∃ y ∈ P.matches', x = w ++ y := by
  rw [mem_mul]
  constructor
  · intro hmem
    obtain ⟨first, hfirst, y, hy, rfl⟩ := hmem
    rw [mem_word.mp hfirst]
    exact ⟨y, hy, rfl⟩
  · intro hmem
    obtain ⟨y, hy, rfl⟩ := hmem
    exact ⟨w, mem_word.mpr rfl, y, hy, rfl⟩

end BeastServer.Patterns
