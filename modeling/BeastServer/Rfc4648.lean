import BeastServer.Base64

/-!
The base64 encoding of RFC 4648, and the encoding by regrouped bits.
The reference takes three bytes as one number of 24 bits and cuts it into four
numbers of six bits. Missing bytes count as zeros, and a padding letter stands
for each group that has none of the bits of the data.
-/
namespace BeastServer.Rfc4648

open ByteStrings Base64

section Reference

/-- The letter of a number below 64. -/
def letter (n : ℕ) : UInt8 :=
  if n < 26 then UInt8.ofNat (65 + n)
  else if n < 52 then UInt8.ofNat (97 + (n - 26))
  else if n < 62 then UInt8.ofNat (48 + (n - 52))
  else if n = 62 then 43
  else 47

def padding : UInt8 := 61

/-- The 24 bits of three bytes as a number. -/
def group (a b c : ℕ) : ℕ := a * 2 ^ 16 + b * 2 ^ 8 + c

/-- The letter of one of the four groups of six bits, counted from the first. -/
def sextet (n i : ℕ) : UInt8 := letter (n / 2 ^ (18 - 6 * i) % 2 ^ 6)

def rfcEncode : Bytes → Bytes
  | [] => []
  | [a] =>
    let n := group a.toNat 0 0
    [sextet n 0, sextet n 1, padding, padding]
  | [a, b] =>
    let n := group a.toNat b.toNat 0
    [sextet n 0, sextet n 1, sextet n 2, padding]
  | a :: b :: c :: rest =>
    let n := group a.toNat b.toNat c.toNat
    [sextet n 0, sextet n 1, sextet n 2, sextet n 3] ++ rfcEncode rest

example : rfcEncode [255, 128, 0, 254] = ascii "/4AA/g==" := by decide

theorem rfcEncode_length (data : Bytes) :
    (rfcEncode data).length = 4 * ((data.length + 2) / 3) := by
  induction data using rfcEncode.induct with
  | case1 => rfl
  | case2 a => simp [rfcEncode]
  | case3 a b => simp [rfcEncode]
  | case4 a b c rest ih =>
    simp only [rfcEncode, List.length_append, List.length_cons, List.length_nil, ih]
    omega

end Reference

section Bits

/-- Only the last bits of a number are looked at. -/
theorem bitsOf_mod {width j : ℕ} (h : width ≤ j) (n : ℕ) :
    bitsOf width (n % 2 ^ j) = bitsOf width n := by
  induction width with
  | zero => rfl
  | succ width ih =>
    have hbit : (n % 2 ^ j).testBit width = n.testBit width := by
      rw [Nat.testBit_mod_two_pow, decide_eq_true (show width < j by omega), Bool.true_and]
    rw [bitsOf, bitsOf, hbit, ih (by omega)]

/-- The first bits of a number are those of its quotient. -/
theorem bitsOf_add (m k n : ℕ) : bitsOf (m + k) n = bitsOf m (n / 2 ^ k) ++ bitsOf k n := by
  induction m with
  | zero => simp [bitsOf]
  | succ m ih =>
    rw [Nat.add_right_comm, bitsOf, bitsOf, ih, List.cons_append, Nat.testBit_div_two_pow]

theorem bitsOf_append {k n : ℕ} (m first : ℕ) (hn : n < 2 ^ k) :
    bitsOf m first ++ bitsOf k n = bitsOf (m + k) (first * 2 ^ k + n) := by
  have hquotient : (first * 2 ^ k + n) / 2 ^ k = first := by
    rw [Nat.add_comm, Nat.add_mul_div_right _ _ (Nat.two_pow_pos k), Nat.div_eq_of_lt hn,
      Nat.zero_add]
  have hrest : bitsOf k (first * 2 ^ k + n) = bitsOf k n := by
    rw [← bitsOf_mod le_rfl, Nat.mul_add_mod_of_lt hn]
  rw [bitsOf_add, hquotient, hrest]

/-- The bits of a number are the bits of its groups. -/
theorem bitsOf_group {a b c : ℕ} (hb : b < 2 ^ 8) (hc : c < 2 ^ 8) :
    bitsOf 8 a ++ bitsOf 8 b ++ bitsOf 8 c = bitsOf 24 (group a b c) := by
  have hgroup : (a * 2 ^ 8 + b) * 2 ^ 8 + c = group a b c := by
    unfold group
    omega
  rw [bitsOf_append 8 a hb, bitsOf_append (8 + 8) _ hc, hgroup]

def sextetBits (n i : ℕ) : Bits := bitsOf 6 (n / 2 ^ (18 - 6 * i))

theorem bitsOf_sextets (n : ℕ) :
    bitsOf 24 n = sextetBits n 0 ++ sextetBits n 1 ++ sextetBits n 2 ++ sextetBits n 3 := by
  have hlast : sextetBits n 3 = bitsOf 6 n := by simp [sextetBits]
  have hthird : sextetBits n 2 = bitsOf 6 (n / 2 ^ 6) := rfl
  have hsecond : sextetBits n 1 = bitsOf 6 (n / 2 ^ 6 / 2 ^ 6) := by
    rw [Nat.div_div_eq_div_mul]
    rfl
  have hfirst : sextetBits n 0 = bitsOf 6 (n / 2 ^ 6 / 2 ^ 6 / 2 ^ 6) := by
    rw [Nat.div_div_eq_div_mul, Nat.div_div_eq_div_mul]
    rfl
  rw [hfirst, hsecond, hthird, hlast, ← bitsOf_add 6 6, ← bitsOf_add (6 + 6) 6,
    ← bitsOf_add (6 + 6 + 6) 6]

theorem toLetter_sextetBits (n i : ℕ) : toLetter (sextetBits n i) = sextet n i := by
  have hletters : ∀ m < 64, letters.getD m 0 = letter m := by decide +kernel
  have hsmall : n / 2 ^ (18 - 6 * i) % 2 ^ 6 < 2 ^ 6 := Nat.mod_lt _ (Nat.two_pow_pos 6)
  rw [toLetter, sextetBits, ← bitsOf_mod le_rfl, value_bitsOf hsmall]
  exact hletters _ hsmall

end Bits

section Encoding

variable {width : ℕ}

/-- Whole groups are cut off as they are, and what is too short is left over. -/
theorem regroup_groups {groups : List Bits} {left : Bits} (hwidth : 0 < width)
    (hgroups : ∀ group ∈ groups, group.length = width) (hleft : left.length < width) :
    regroup width [] (groups.flatten ++ left) = (groups, left) := by
  induction groups with
  | nil => exact regroup_short (by simpa using hleft)
  | cons group rest ih =>
    have hlength : group.length = width := hgroups group List.mem_cons_self
    have hgroup : regroup width [] group = ([group], []) := by
      refine regroup_exact ?_ (by simpa using hlength)
      intro hnil
      rw [hnil, List.length_nil] at hlength
      omega
    rw [List.flatten_cons, List.append_assoc, regroup_append, hgroup,
      ih (fun g hg => hgroups g (List.mem_cons_of_mem _ hg))]
    rfl

theorem bitsOf_zero (width : ℕ) : bitsOf width 0 = zeros width := by
  induction width with
  | zero => rfl
  | succ width ih => rw [bitsOf, ih, Nat.zero_testBit, zeros, zeros, List.replicate_succ]

/-- Whole groups at the front are encoded by themselves. -/
theorem encode_groups {data more : Bytes} {groups : List Bits}
    (hgroups : ∀ group ∈ groups, group.length = 6)
    (hbits : data.flatMap byteBits = groups.flatten ++ more.flatMap byteBits) :
    encode data = groups.map toLetter ++ encode more := by
  have hfront : regroup 6 [] groups.flatten = (groups, []) := by
    have hall := @regroup_groups 6 groups [] (by omega) hgroups (by simp)
    rwa [List.append_nil] at hall
  unfold encode
  rw [hbits, regroup_append, hfront]
  simp

/-- Some bits after whole groups are filled up with zeros. -/
theorem encode_left {data : Bytes} {groups : List Bits} {left : Bits}
    (hgroups : ∀ group ∈ groups, group.length = 6) (hleft : left.length < 6) (hsome : left ≠ [])
    (hbits : data.flatMap byteBits = groups.flatten ++ left) :
    encode data = groups.map toLetter ++ [toLetter (left ++ zeros (6 - left.length))] := by
  unfold encode
  rw [hbits, regroup_groups (by omega) hgroups hleft]
  simp [hsome]

theorem sextetBits_eq {n m i : ℕ} (h : m = n / 2 ^ (18 - 6 * i)) : bitsOf 6 m = sextetBits n i := by
  rw [h, sextetBits]

theorem sextetBits_length (n i : ℕ) : (sextetBits n i).length = 6 := bitsOf_length _ _

theorem encode_one (a : UInt8) :
    encode [a] = [sextet (group a.toNat 0 0) 0, sextet (group a.toNat 0 0) 1] := by
  have hfirst : bitsOf 6 (a.toNat / 2 ^ 2) = sextetBits (group a.toNat 0 0) 0 := by
    apply sextetBits_eq
    unfold group
    omega
  have hlast : bitsOf 2 a.toNat ++ zeros 4 = sextetBits (group a.toNat 0 0) 1 := by
    rw [← bitsOf_zero, bitsOf_append 2 _ (Nat.two_pow_pos 4)]
    apply sextetBits_eq
    unfold group
    omega
  have hbits : [a].flatMap byteBits =
      [sextetBits (group a.toNat 0 0) 0].flatten ++ bitsOf 2 a.toNat := by
    rw [← hfirst, List.flatMap_singleton, byteBits, bitsOf_add 6 2, List.flatten_singleton]
  rw [encode_left (by simp [sextetBits_length]) (by simp) (by simp [bitsOf]) hbits, bitsOf_length,
    hlast]
  simp [toLetter_sextetBits]

theorem encode_two (a b : UInt8) :
    encode [a, b] =
      [sextet (group a.toNat b.toNat 0) 0, sextet (group a.toNat b.toNat 0) 1,
        sextet (group a.toNat b.toNat 0) 2] := by
  have hb : b.toNat < 2 ^ 8 := b.toNat_lt
  have hfirst : bitsOf 6 ((a.toNat * 2 ^ 8 + b.toNat) / 2 ^ 4 / 2 ^ 6) =
      sextetBits (group a.toNat b.toNat 0) 0 := by
    apply sextetBits_eq
    unfold group
    omega
  have hsecond : bitsOf 6 ((a.toNat * 2 ^ 8 + b.toNat) / 2 ^ 4) =
      sextetBits (group a.toNat b.toNat 0) 1 := by
    apply sextetBits_eq
    unfold group
    omega
  have hlast : bitsOf 4 (a.toNat * 2 ^ 8 + b.toNat) ++ zeros 2 =
      sextetBits (group a.toNat b.toNat 0) 2 := by
    rw [← bitsOf_zero, bitsOf_append 4 _ (Nat.two_pow_pos 2)]
    apply sextetBits_eq
    unfold group
    omega
  have hbits : [a, b].flatMap byteBits =
      [sextetBits (group a.toNat b.toNat 0) 0, sextetBits (group a.toNat b.toNat 0) 1].flatten ++
        bitsOf 4 (a.toNat * 2 ^ 8 + b.toNat) := by
    have hboth : [a, b].flatMap byteBits = bitsOf 8 a.toNat ++ bitsOf 8 b.toNat := by
      simp [byteBits]
    have hcut : bitsOf 16 (a.toNat * 2 ^ 8 + b.toNat) =
        bitsOf 12 ((a.toNat * 2 ^ 8 + b.toNat) / 2 ^ 4) ++
          bitsOf 4 (a.toNat * 2 ^ 8 + b.toNat) := bitsOf_add 12 4 _
    have hfront := bitsOf_add 6 6 ((a.toNat * 2 ^ 8 + b.toNat) / 2 ^ 4)
    rw [hboth, bitsOf_append 8 _ hb, hcut, hfront, hfirst, hsecond]
    simp
  rw [encode_left (by simp [sextetBits_length]) (by simp) (by simp [bitsOf]) hbits, bitsOf_length,
    hlast]
  simp [toLetter_sextetBits]

/-- Three bytes are encoded by themselves. -/
theorem encode_three (a b c : UInt8) (rest : Bytes) :
    encode (a :: b :: c :: rest) =
      [sextet (group a.toNat b.toNat c.toNat) 0, sextet (group a.toNat b.toNat c.toNat) 1,
        sextet (group a.toNat b.toNat c.toNat) 2, sextet (group a.toNat b.toNat c.toNat) 3] ++
        encode rest := by
  have hbits : (a :: b :: c :: rest).flatMap byteBits =
      [sextetBits (group a.toNat b.toNat c.toNat) 0, sextetBits (group a.toNat b.toNat c.toNat) 1,
        sextetBits (group a.toNat b.toNat c.toNat) 2,
        sextetBits (group a.toNat b.toNat c.toNat) 3].flatten ++ rest.flatMap byteBits := by
    have hthree : (a :: b :: c :: rest).flatMap byteBits =
        bitsOf 8 a.toNat ++ bitsOf 8 b.toNat ++ bitsOf 8 c.toNat ++ rest.flatMap byteBits := by
      simp [byteBits]
    rw [hthree, bitsOf_group b.toNat_lt c.toNat_lt, bitsOf_sextets]
    simp
  rw [encode_groups (by simp [sextetBits_length]) hbits]
  simp [toLetter_sextetBits]

/-- The regrouped bits and the padding are the reference encoding. -/
theorem rfcEncode_eq (data : Bytes) :
    rfcEncode data =
      encode data ++ List.replicate ((3 - data.length % 3) % 3) padding := by
  induction data using rfcEncode.induct with
  | case1 => rfl
  | case2 a =>
    rw [rfcEncode, encode_one]
    rfl
  | case3 a b =>
    rw [rfcEncode, encode_two]
    rfl
  | case4 a b c rest ih =>
    have hcount : (3 - (a :: b :: c :: rest).length % 3) % 3 = (3 - rest.length % 3) % 3 := by
      simp only [List.length_cons]
      omega
    rw [rfcEncode, encode_three, ih, hcount, List.append_assoc]

end Encoding

end BeastServer.Rfc4648
