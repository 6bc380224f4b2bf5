import BeastServer.ByteStrings
import Mathlib.Tactic.SplitIfs

/-!
Well-formed UTF-8.
A first byte says which ranges the bytes after it must lie in; a byte string is
well formed when it is read to its end with no byte missing. ASCII bytes stand
for themselves and can never continue a character, so ASCII text around a byte
string, or in place of its control characters, does not change the answer.
-/
namespace BeastServer.Utf8

open ByteStrings

/-- Inclusive bounds of a byte. -/
structure Range where
  low : UInt8
  high : UInt8
  deriving DecidableEq

def Range.contains (range : Range) (c : UInt8) : Bool :=
  decide (range.low ≤ c ∧ c ≤ range.high)

def tail : Range := ⟨0x80, 0xBF⟩

/-- The ranges of the bytes that follow the first byte of a character. -/
def continuation (c : UInt8) : Option (List Range) :=
  if c < 0x80 then some []
  else if c < 0xC2 then none
  else if c ≤ 0xDF then some [tail]
  else if c = 0xE0 then some [⟨0xA0, 0xBF⟩, tail]
  else if c = 0xED then some [⟨0x80, 0x9F⟩, tail]
  else if c ≤ 0xEF then some [tail, tail]
  else if c = 0xF0 then some [⟨0x90, 0xBF⟩, tail, tail]
  else if c ≤ 0xF3 then some [tail, tail, tail]
  else if c = 0xF4 then some [⟨0x80, 0x8F⟩, tail, tail]
  else none

/-- The bytes complete a character of which these ranges are missing, and go on
with whole characters. -/
def completes : List Range → Bytes → Bool
  | [], [] => true
  | _ :: _, [] => false
  | [], c :: rest =>
    match continuation c with
    | some ranges => completes ranges rest
    | none => false
  | range :: ranges, c :: rest => range.contains c && completes ranges rest

/-- The ranges that are missing after one more byte. -/
def advance : List Range → UInt8 → Option (List Range)
  | [], c => continuation c
  | range :: ranges, c => if range.contains c = true then some ranges else none

theorem completes_cons (ranges : List Range) (c : UInt8) (rest : Bytes) :
    completes ranges (c :: rest) =
      match advance ranges c with
      | some ranges => completes ranges rest
      | none => false := by
  cases ranges with
  | nil => rfl
  | cons range ranges =>
    rw [completes, advance]
    cases range.contains c <;> rfl

def WellFormed (bytes : Bytes) : Prop := completes [] bytes = true

instance (bytes : Bytes) : Decidable (WellFormed bytes) :=
  inferInstanceAs (Decidable (_ = true))

/-- No ASCII byte lies in these ranges. -/
def High (ranges : List Range) : Prop := ∀ range ∈ ranges, 128 ≤ range.low

theorem high_nil : High [] := by
  intro range h
  simp at h

theorem high_continuation {c : UInt8} {ranges : List Range} (h : continuation c = some ranges) :
    High ranges := by
  unfold continuation at h
  split_ifs at h <;> cases h <;> simp [High, tail, UInt8.le_iff_toNat_le]

variable {ranges : List Range} {c : UInt8} {bytes rest suffix : Bytes}

theorem continuation_ascii (h : c < 128) : continuation c = some [] := if_pos h

theorem contains_ascii {range : Range} (hrange : 128 ≤ range.low) (h : c < 128) :
    range.contains c = false := by
  have hlow : ¬ range.low ≤ c := by
    intro hle
    exact absurd (UInt8.le_trans hrange hle) (UInt8.not_le.mpr h)
  simp [Range.contains, hlow]

theorem wellFormed_of_isAscii (h : IsAscii bytes) : WellFormed bytes := by
  induction bytes with
  | nil => rfl
  | cons c rest ih =>
    obtain ⟨hc, hrest⟩ := isAscii_cons.mp h
    unfold WellFormed
    rw [completes, continuation_ascii hc]
    exact ih hrest

theorem wellFormed_append_of_isAscii (h : IsAscii bytes) :
    WellFormed (bytes ++ rest) ↔ WellFormed rest := by
  induction bytes with
  | nil => rfl
  | cons c bytes ih =>
    obtain ⟨hc, hbytes⟩ := isAscii_cons.mp h
    unfold WellFormed
    rw [List.cons_append, completes, continuation_ascii hc]
    exact ih hbytes

/-- ASCII text at the end neither completes nor breaks a character. -/
theorem completes_append_ascii (hranges : High ranges) (hsuffix : IsAscii suffix)
    (hne : suffix ≠ []) : completes ranges (bytes ++ suffix) = completes ranges bytes := by
  induction bytes generalizing ranges with
  | nil =>
    cases ranges with
    | nil => exact wellFormed_of_isAscii hsuffix
    | cons range ranges =>
      obtain ⟨c, rest, rfl⟩ := List.exists_cons_of_ne_nil hne
      have hrange := hranges range List.mem_cons_self
      have hc := contains_ascii hrange (isAscii_cons.mp hsuffix).1
      show (range.contains c && completes ranges rest) = false
      rw [hc, Bool.false_and]
  | cons c bytes ih =>
    cases ranges with
    | nil =>
      rw [List.cons_append, completes, completes]
      cases hc : continuation c with
      | none => rfl
      | some ranges => exact ih (high_continuation hc)
    | cons range ranges =>
      have hrest : High ranges := fun r hr => hranges r (List.mem_cons_of_mem range hr)
      rw [List.cons_append, completes, completes, ih hrest]

theorem wellFormed_append_ascii (hsuffix : IsAscii suffix) (hne : suffix ≠ []) :
    WellFormed (bytes ++ suffix) ↔ WellFormed bytes := by
  unfold WellFormed
  rw [completes_append_ascii high_nil hsuffix hne]

/-- ASCII text in place of some ASCII bytes does not change the answer. -/
theorem completes_flatMap {escape : UInt8 → Bytes} (hranges : High ranges)
    (hescape : ∀ c, escape c = [c] ∨ c < 128 ∧ IsAscii (escape c) ∧ escape c ≠ []) :
    completes ranges (bytes.flatMap escape) = completes ranges bytes := by
  induction bytes generalizing ranges with
  | nil => rfl
  | cons c bytes ih =>
    rw [List.flatMap_cons]
    rcases hescape c with hsame | ⟨hc, hascii, hne⟩
    · rw [hsame, List.singleton_append]
      cases ranges with
      | nil =>
        rw [completes, completes]
        cases hcont : continuation c with
        | none => rfl
        | some ranges => exact ih (high_continuation hcont)
      | cons range ranges =>
        have hrest : High ranges := fun r hr => hranges r (List.mem_cons_of_mem range hr)
        rw [completes, completes, ih hrest]
    · cases ranges with
      | nil =>
        have hprefix := @wellFormed_append_of_isAscii (escape c) (bytes.flatMap escape) hascii
        rw [completes, continuation_ascii hc]
        exact (Bool.eq_iff_iff.mpr hprefix).trans (ih high_nil)
      | cons range ranges =>
        have hrange := hranges range List.mem_cons_self
        obtain ⟨d, later, hd⟩ := List.exists_cons_of_ne_nil hne
        rw [hd] at hascii ⊢
        have hfirst := contains_ascii hrange (isAscii_cons.mp hascii).1
        rw [List.cons_append, completes, completes, hfirst, contains_ascii hrange hc,
          Bool.false_and, Bool.false_and]

theorem wellFormed_flatMap {escape : UInt8 → Bytes}
    (hescape : ∀ c, escape c = [c] ∨ c < 128 ∧ IsAscii (escape c) ∧ escape c ≠ []) :
    WellFormed (bytes.flatMap escape) ↔ WellFormed bytes := by
  unfold WellFormed
  rw [completes_flatMap high_nil hescape]

end BeastServer.Utf8
