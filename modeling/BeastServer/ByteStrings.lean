import Mathlib.Algebra.GroupWithZero.Nat

/-!
Byte strings, the model of std::string and of char buffers.
Texts of the program are ASCII literals; numbers are printed in decimal as
std::to_string does, bytes in lower-case hexadecimal.
-/
namespace BeastServer.ByteStrings

abbrev Bytes := List UInt8

def ascii (text : String) : Bytes := text.toList.map Char.toUInt8

/-- std::to_string of an unsigned number. -/
def decimal (n : ℕ) : Bytes := (Nat.toDigits 10 n).map Char.toUInt8

/-- The two lower-case hexadecimal digits of a byte. -/
def hexDigits (byte : UInt8) : Bytes :=
  (Nat.digitChar (byte.toNat / 16)).toUInt8 :: [(Nat.digitChar (byte.toNat % 16)).toUInt8]

/-- The two upper-case hexadecimal digits of a byte. -/
def upperHex (byte : UInt8) : Bytes :=
  (hexDigits byte).map (fun digit => if 97 ≤ digit then digit - 32 else digit)

def slash : UInt8 := 47

def isDigit (c : UInt8) : Bool := decide (48 ≤ c ∧ c ≤ 57)

/-- What holds of all the bytes by their numbers holds of every byte. -/
theorem forall_byte {P : UInt8 → Prop} (h : ∀ n < 256, P (UInt8.ofNat n)) (c : UInt8) : P c := by
  have hc := h c.toNat c.toNat_lt
  rwa [UInt8.ofNat_toNat] at hc

def IsAscii (bytes : Bytes) : Prop := ∀ c ∈ bytes, c < 128

instance (bytes : Bytes) : Decidable (IsAscii bytes) :=
  List.decidableBAll (· < 128) bytes

@[simp] theorem isAscii_nil : IsAscii [] := by
  intro c h
  simp at h

@[simp] theorem isAscii_cons {c : UInt8} {bytes : Bytes} :
    IsAscii (c :: bytes) ↔ c < 128 ∧ IsAscii bytes := by
  simp [IsAscii]

@[simp] theorem isAscii_append {first second : Bytes} :
    IsAscii (first ++ second) ↔ IsAscii first ∧ IsAscii second := by
  simp [IsAscii, or_imp, forall_and]

/-- A text is ASCII if its characters are. -/
theorem isAscii_ascii {text : List Char} (h : text.all (fun d => decide (d.toNat < 128)) = true) :
    IsAscii (ascii (String.ofList text)) := by
  intro c hc
  rw [ascii, String.toList_ofList] at hc
  obtain ⟨d, hd, rfl⟩ := List.mem_map.mp hc
  have hlow : d.toNat < 128 := of_decide_eq_true (List.all_eq_true.mp h d hd)
  rw [UInt8.lt_iff_toNat_lt]
  show d.toNat % 256 < 128
  omega

private theorem digitChar_bounds {n : ℕ} {d : Char} (hd : d ∈ Nat.toDigits 10 n) :
    48 ≤ d.toNat ∧ d.toNat ≤ 57 := by
  have hdigit : d.isDigit = true := Nat.isDigit_of_mem_toDigits (by omega) (by omega) hd
  simpa [Char.isDigit, UInt32.le_iff_toNat_le] using hdigit

private theorem toUInt8_toNat {d : Char} (h : d.toNat ≤ 57) : d.toUInt8.toNat = d.toNat := by
  have : d.toUInt8.toNat = d.toNat % 256 := rfl
  omega

theorem isDigit_of_mem_decimal {n : ℕ} {c : UInt8} (h : c ∈ decimal n) : isDigit c = true := by
  obtain ⟨d, hd, rfl⟩ := List.mem_map.mp h
  obtain ⟨hlow, hhigh⟩ := digitChar_bounds hd
  simp only [isDigit, decide_eq_true_eq, UInt8.le_iff_toNat_le, toUInt8_toNat hhigh]
  exact ⟨hlow, hhigh⟩

/-- The digits, by their values. -/
theorem exists_digit {c : UInt8} (h : isDigit c = true) :
    ∃ n : Fin 10, c = UInt8.ofNat (48 + n.val) := by
  obtain ⟨hlow, hhigh⟩ := of_decide_eq_true h
  have hlow' : 48 ≤ c.toNat := hlow
  have hhigh' : c.toNat ≤ 57 := hhigh
  refine ⟨⟨c.toNat - 48, by omega⟩, ?_⟩
  rw [Nat.add_sub_cancel' hlow', UInt8.ofNat_toNat]

@[simp] theorem isAscii_decimal (n : ℕ) : IsAscii (decimal n) := by
  intro c h
  have hdigit := isDigit_of_mem_decimal h
  simp only [isDigit, decide_eq_true_eq, UInt8.le_iff_toNat_le] at hdigit
  have hhigh : c.toNat ≤ 57 := hdigit.2
  rw [UInt8.lt_iff_toNat_lt]
  show c.toNat < 128
  omega

theorem decimal_ne_nil (n : ℕ) : decimal n ≠ [] := by
  simp [decimal, Nat.toDigits_ne_nil]

theorem decimal_length_le {n k : ℕ} (hk : 0 < k) (h : n < 10 ^ k) : (decimal n).length ≤ k := by
  rw [decimal, List.length_map, Nat.length_toDigits_le_iff (by omega) hk]
  exact h

theorem decimal_of_lt_ten {n : ℕ} (h : n < 10) : decimal n = [n.digitChar.toUInt8] := by
  rw [decimal, Nat.toDigits_of_lt_base h, List.map_singleton]

/-- No leading zero is printed. -/
theorem decimal_head {n : ℕ} (hn : 0 < n) : (decimal n).head? ≠ some 48 := by
  induction n using Nat.strongRecOn with
  | ind n ih =>
    by_cases hsmall : n < 10
    · have hall : ∀ n < 10, 0 < n → (n.digitChar.toUInt8) ≠ 48 := by decide
      rw [decimal_of_lt_ten hsmall]
      intro heq
      exact hall n hsmall hn (Option.some.inj heq)
    · have hsplit : decimal n = decimal (n / 10) ++ [(n % 10).digitChar.toUInt8] := by
        rw [decimal, Nat.toDigits_of_base_le (by omega) (by omega), List.map_append]
        rfl
      obtain ⟨c, digits, hdigits⟩ := List.exists_cons_of_ne_nil (decimal_ne_nil (n / 10))
      have hshorter := ih (n / 10) (by omega) (by omega)
      rw [hdigits] at hshorter
      rw [hsplit, hdigits]
      exact hshorter

/-- The number that digits stand for. -/
def digitsValue (digits : Bytes) : ℕ := digits.foldl (fun n c => 10 * n + (c.toNat - 48)) 0

/-- The number is read back from its digits. -/
theorem digitsValue_decimal (n : ℕ) : digitsValue (decimal n) = n := by
  have hsame : ∀ (digits : List Char), (∀ d ∈ digits, d.toNat ≤ 57) → ∀ start : ℕ,
      (digits.map Char.toUInt8).foldl (fun n c => 10 * n + (c.toNat - 48)) start =
        Nat.ofDigitChars 10 digits start := by
    intro digits
    induction digits with
    | nil =>
      intro _ start
      rfl
    | cons d digits ih =>
      intro h start
      have hd : d.toUInt8.toNat = d.toNat := toUInt8_toNat (h d List.mem_cons_self)
      rw [List.map_cons, List.foldl_cons, Nat.ofDigitChars_cons, hd]
      exact ih (fun e he => h e (List.mem_cons_of_mem d he)) _
  rw [digitsValue, decimal, hsame _ (fun d hd => (digitChar_bounds hd).2),
    Nat.ofDigitChars_ten_toDigits]

theorem decimal_injective {m n : ℕ} (h : decimal m = decimal n) : m = n := by
  rw [← digitsValue_decimal m, h, digitsValue_decimal]

end BeastServer.ByteStrings
