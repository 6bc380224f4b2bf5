import BeastServer.ByteStrings
import Mathlib.Tactic.Ring

/-!
Bit strings and the base64 alphabet.
Bits are most significant first. Regrouping cuts a bit string into groups of a
width and keeps what is left over; it can be continued from what was left. An
encoding regroups the bits of the bytes by six and fills the last group with
zeros, and a padding letter stands for six zero bits when it is read back.
-/
namespace BeastServer.Base64

open ByteStrings

section Bits

abbrev Bits := List Bool

def bitsOf : ℕ → ℕ → Bits
  | 0, _ => []
  | width + 1, n => n.testBit width :: bitsOf width n

def zeros (n : ℕ) : Bits := List.replicate n false

def value (bits : Bits) : ℕ := bits.foldl (fun n bit => 2 * n + bit.toNat) 0

@[simp] theorem bitsOf_length (width n : ℕ) : (bitsOf width n).length = width := by
  induction width with
  | zero => rfl
  | succ width ih => simp [bitsOf, ih]

private theorem foldl_bitsOf (width n start : ℕ) :
    (bitsOf width n).foldl (fun n bit => 2 * n + bit.toNat) start =
      2 ^ width * start + n % 2 ^ width := by
  induction width generalizing start with
  | zero => simp [bitsOf, Nat.mod_one]
  | succ width ih =>
    have hbit : n % 2 ^ (width + 1) = 2 ^ width * (n.testBit width).toNat + n % 2 ^ width := by
      rw [Nat.mod_pow_succ, Nat.toNat_testBit, Nat.add_comm]
    simp only [bitsOf, List.foldl_cons]
    rw [ih, hbit]
    ring

theorem value_bitsOf {width n : ℕ} (h : n < 2 ^ width) : value (bitsOf width n) = n := by
  rw [value, foldl_bitsOf, Nat.mod_eq_of_lt h]
  simp

def byteBits (byte : UInt8) : Bits := bitsOf 8 byte.toNat

def toByte (bits : Bits) : UInt8 := UInt8.ofNat (value bits)

@[simp] theorem byteBits_length (byte : UInt8) : (byteBits byte).length = 8 := bitsOf_length 8 _

@[simp] theorem toByte_byteBits (byte : UInt8) : toByte (byteBits byte) = byte := by
  have hlt : byte.toNat < 2 ^ 8 := byte.toNat_lt
  rw [toByte, byteBits, value_bitsOf hlt, UInt8.ofNat_toNat]

end Bits

section Regrouping

/-- The groups of the given width, and the bits left over. -/
def regroup (width : ℕ) : Bits → Bits → List Bits × Bits
  | pending, [] => ([], pending)
  | pending, bit :: rest =>
    if pending.length + 1 < width then regroup width (pending ++ [bit]) rest
    else
      let (groups, left) := regroup width [] rest
      ((pending ++ [bit]) :: groups, left)

variable {width : ℕ} {pending bits more : Bits}

theorem regroup_append :
    regroup width pending (bits ++ more) =
      ((regroup width pending bits).1 ++ (regroup width (regroup width pending bits).2 more).1,
        (regroup width (regroup width pending bits).2 more).2) := by
  induction bits generalizing pending with
  | nil => rfl
  | cons bit rest ih =>
    simp only [List.cons_append, regroup]
    split
    · exact ih
    · rw [ih]
      rfl

/-- Too few bits for a group are all left over. -/
theorem regroup_short (h : pending.length + bits.length < width) :
    regroup width pending bits = ([], pending ++ bits) := by
  induction bits generalizing pending with
  | nil => simp [regroup]
  | cons bit rest ih =>
    rw [List.length_cons] at h
    rw [regroup, if_pos (by omega), ih (by simp; omega)]
    simp

/-- Just enough bits for one group leave nothing over. -/
theorem regroup_exact (hbits : bits ≠ []) (h : pending.length + bits.length = width) :
    regroup width pending bits = ([pending ++ bits], []) := by
  induction bits generalizing pending with
  | nil => exact absurd rfl hbits
  | cons bit rest ih =>
    rw [List.length_cons] at h
    cases rest with
    | nil =>
      rw [List.length_nil] at h
      rw [regroup, if_neg (by omega)]
      rfl
    | cons next rest =>
      rw [List.length_cons] at h
      rw [regroup, if_pos (by omega), ih (by simp) (by simp; omega)]
      simp

/-- Bits for one group and not for two. -/
theorem regroup_full (hpending : pending.length < width)
    (hfull : width ≤ pending.length + bits.length)
    (hnext : pending.length + bits.length < 2 * width) :
    regroup width pending bits =
      ([(pending ++ bits).take width], (pending ++ bits).drop width) := by
  have hmissing : (bits.take (width - pending.length)).length = width - pending.length := by
    rw [List.length_take]
    omega
  have hfirst : regroup width pending (bits.take (width - pending.length)) =
      ([pending ++ bits.take (width - pending.length)], []) := by
    apply regroup_exact
    · intro hnil
      rw [hnil, List.length_nil] at hmissing
      omega
    · omega
  have hlater : regroup width [] (bits.drop (width - pending.length)) =
      ([], bits.drop (width - pending.length)) := by
    apply regroup_short
    rw [List.length_nil, List.length_drop]
    omega
  conv_lhs => rw [← List.take_append_drop (width - pending.length) bits]
  rw [regroup_append, hfirst, hlater, List.take_append, List.drop_append,
    List.take_of_length_le hpending.le, List.drop_eq_nil_of_le hpending.le]
  rfl

theorem regroup_left_length (hwidth : 0 < width) (h : pending.length < width) :
    (regroup width pending bits).2.length < width := by
  induction bits generalizing pending with
  | nil => exact h
  | cons bit rest ih =>
    rw [regroup]
    split
    · exact ih (by simpa using ‹_›)
    · exact ih (by simpa using hwidth)

/-- Regrouping loses no bit and keeps their order. -/
theorem regroup_flatten :
    (regroup width pending bits).1.flatten ++ (regroup width pending bits).2 = pending ++ bits := by
  induction bits generalizing pending with
  | nil => simp [regroup]
  | cons bit rest ih =>
    rw [regroup]
    split
    · rw [ih]
      simp
    · have hrest := @ih []
      simp only [List.flatten_cons, List.append_assoc, hrest]
      simp

theorem regroup_group_length (h : pending.length < width) :
    ∀ group ∈ (regroup width pending bits).1, group.length = width := by
  induction bits generalizing pending with
  | nil => simp [regroup]
  | cons bit rest ih =>
    rw [regroup]
    split
    · exact ih (by simpa using ‹_›)
    · intro group hgroup
      rcases List.mem_cons.mp hgroup with rfl | hmem
      · simp
        omega
      · exact ih (by simp; omega) group hmem

theorem regroup_groups_length (hwidth : 0 < width) (h : pending.length < width) :
    (regroup width pending bits).1.length = (pending.length + bits.length) / width := by
  induction bits generalizing pending with
  | nil =>
    rw [List.length_nil, Nat.add_zero, Nat.div_eq_of_lt h]
    rfl
  | cons bit rest ih =>
    rw [regroup]
    split
    · rw [ih (by simpa using ‹_›)]
      congr 1
      simp
      omega
    · have hfull : pending.length + (bit :: rest).length = rest.length + width := by
        rw [List.length_cons]
        omega
      rw [List.length_cons, ih (by simpa using hwidth), hfull, Nat.add_div_right _ hwidth]
      simp

/-- The bits of bytes are regrouped by eight into these bytes. -/
theorem regroup_byteBits (bytes : Bytes) :
    regroup 8 [] (bytes.flatMap byteBits) = (bytes.map byteBits, []) := by
  induction bytes with
  | nil => rfl
  | cons byte rest ih =>
    have hbyte : regroup 8 [] (byteBits byte) = ([byteBits byte], []) := by
      refine regroup_exact ?_ (by simp)
      intro hnil
      have hlength := byteBits_length byte
      simp [hnil] at hlength
    rw [List.flatMap_cons, regroup_append, hbyte, ih]
    rfl

end Regrouping

section Alphabet

def letters : Bytes :=
  ascii "ABCDEFGHIJKLMNOPQRSTUVWXYZabcdefghijklmnopqrstuvwxyz0123456789+/"

/-- The padding letter. -/
def equalSign : UInt8 := 61

def toLetter (group : Bits) : UInt8 := letters.getD (value group) 0

/-- The six bits a character stands for; the padding letter stands for zeros. -/
def toSixBits (c : UInt8) : Option Bits :=
  if c = equalSign then some (zeros 6) else (letters.idxOf? c).map (bitsOf 6)

/-- A letter or the padding letter. -/
def isEncoded (c : UInt8) : Bool := (toSixBits c).isSome

/-- The last group is filled with zeros. -/
def encode (data : Bytes) : Bytes :=
  let (groups, left) := regroup 6 [] (data.flatMap byteBits)
  groups.map toLetter ++ if left = [] then [] else [toLetter (left ++ zeros (6 - left.length))]

theorem toSixBits_length {c : UInt8} {bits : Bits} (h : toSixBits c = some bits) :
    bits.length = 6 := by
  unfold toSixBits at h
  split at h
  · obtain rfl := Option.some.inj h
    rfl
  · obtain ⟨index, -, rfl⟩ := Option.map_eq_some_iff.mp h
    exact bitsOf_length 6 index

/-- The bits that the characters of a text stand for. -/
def encodedBits (text : Bytes) : Bits := text.flatMap (fun c => (toSixBits c).getD [])

theorem toSixBits_toLetter {group : Bits} (h : group.length = 6) :
    toSixBits (toLetter group) = some group := by
  have hall : ∀ a b c d e f : Bool,
      toSixBits (toLetter [a, b, c, d, e, f]) = some [a, b, c, d, e, f] := by
    decide +kernel
  match group, h with
  | [a, b, c, d, e, f], _ => exact hall a b c d e f

theorem encodedBits_map_toLetter {groups : List Bits} (h : ∀ group ∈ groups, group.length = 6) :
    encodedBits (groups.map toLetter) = groups.flatten := by
  induction groups with
  | nil => rfl
  | cons group rest ih =>
    have hgroup : group.length = 6 := h group List.mem_cons_self
    have hrest := ih (fun g hg => h g (List.mem_cons_of_mem _ hg))
    simp only [encodedBits, List.map_cons, List.flatMap_cons, List.flatten_cons] at hrest ⊢
    rw [toSixBits_toLetter hgroup, hrest]
    rfl

variable {data : Bytes}

/-- The groups of an encoding, the last one filled up. -/
theorem encode_eq (data : Bytes) : ∃ groups : List Bits,
    encode data = groups.map toLetter ∧ (∀ group ∈ groups, group.length = 6) ∧
      ∃ fill, groups.flatten = data.flatMap byteBits ++ zeros fill := by
  have hlength := @regroup_group_length 6 [] (data.flatMap byteBits) (by simp)
  have hleft := @regroup_left_length 6 [] (data.flatMap byteBits) (by omega) (by simp)
  have hflatten := @regroup_flatten 6 [] (data.flatMap byteBits)
  unfold encode
  generalize regroup 6 [] (data.flatMap byteBits) = cut at hlength hleft hflatten
  obtain ⟨groups, left⟩ := cut
  by_cases hnil : left = []
  · refine ⟨groups, by simp [hnil], hlength, 0, ?_⟩
    simpa [hnil, zeros] using hflatten
  · refine ⟨groups ++ [left ++ zeros (6 - left.length)], by simp [hnil], ?_,
      6 - left.length, ?_⟩
    · intro group hgroup
      rcases List.mem_append.mp hgroup with hmem | hlast
      · exact hlength group hmem
      · rw [List.mem_singleton.mp hlast, List.length_append, zeros, List.length_replicate]
        exact Nat.add_sub_cancel' hleft.le
    · rw [List.nil_append] at hflatten
      rw [← hflatten, List.flatten_append, List.flatten_singleton, List.append_assoc]

/-- The characters of an encoding stand for the bits of the data and zeros. -/
theorem encodedBits_encode (data : Bytes) :
    ∃ fill, encodedBits (encode data) = data.flatMap byteBits ++ zeros fill := by
  obtain ⟨groups, hencode, hlength, fill, hfill⟩ := encode_eq data
  refine ⟨fill, ?_⟩
  rw [hencode, encodedBits_map_toLetter hlength, hfill]

theorem isEncoded_of_mem_encode {c : UInt8} (h : c ∈ encode data) : isEncoded c = true := by
  obtain ⟨groups, hencode, hlength, -⟩ := encode_eq data
  rw [hencode] at h
  obtain ⟨group, hgroup, rfl⟩ := List.mem_map.mp h
  simp [isEncoded, toSixBits_toLetter (hlength group hgroup)]

theorem encode_length (data : Bytes) : (encode data).length = (4 * data.length + 2) / 3 := by
  have hbits : (data.flatMap byteBits).length = 8 * data.length := by
    induction data with
    | nil => rfl
    | cons byte rest ih =>
      rw [List.flatMap_cons, List.length_append, ih, byteBits_length, List.length_cons]
      omega
  have hcount := @regroup_groups_length 6 [] (data.flatMap byteBits) (by omega) (by simp)
  have hleft := @regroup_left_length 6 [] (data.flatMap byteBits) (by omega) (by simp)
  have hflatten := congrArg List.length (@regroup_flatten 6 [] (data.flatMap byteBits))
  have hgroups := @regroup_group_length 6 [] (data.flatMap byteBits) (by simp)
  unfold encode
  generalize regroup 6 [] (data.flatMap byteBits) = cut at hcount hleft hflatten hgroups
  obtain ⟨groups, left⟩ := cut
  rw [List.length_append, List.length_flatten, List.map_congr_left hgroups] at hflatten
  simp only [List.map_const', List.sum_replicate_nat, List.length_nil, Nat.zero_add,
    List.nil_append, hbits] at hcount hflatten
  by_cases hnil : left = []
  · rw [hnil, List.length_nil] at hflatten
    simp only [hnil, if_true, List.append_nil, List.length_map]
    omega
  · have hpos : 0 < left.length := List.length_pos_iff.mpr hnil
    simp only [hnil, if_false, List.length_append, List.length_map, List.length_singleton]
    omega

end Alphabet

end BeastServer.Base64
