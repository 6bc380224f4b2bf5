import BeastServer.DisclosedBytes
import Mathlib.Data.Rat.Cast.Order
import Mathlib.Tactic.FieldSimp

/-!
The numbers of a decoded picture.
The conversions of the JSON library cast every kind of number to the type of
the field, so a field is the number of its member only when that number can be
written as one. Negative, fractional and larger numbers are accepted too, and
so are the booleans for the fields of 32 bits.
-/
namespace BeastServer.ExactNumbers

open ByteStrings Exceptions JsonValues PostedPictures Programs PictureJson DisclosedBytes

section Numbers

/-- The number a finite double stands for. -/
def value (x : Double) : ℚ :=
  let magnitude : ℚ := x.mantissa * 2 ^ ((max x.exponent 1 : ℕ) - 1075 : ℤ)
  if 2 ^ 63 ≤ x.bits.toNat then -magnitude else magnitude

/-- The number a JSON value is, if it is one. -/
def number : Json → Option ℚ
  | .numberUnsigned n => some n.toNat
  | .numberInteger n => some n.toInt
  | .numberFloat x => if x.isFinite then some (value x) else none
  | _ => none

/-- A negated natural number is one only when both are zero. -/
theorem signed_eq {m n : ℕ} {negative : Prop} [Decidable negative]
    (h : (if negative then -(m : ℚ) else (m : ℚ)) = n) :
    (if negative then -(m : ℤ) else m) = n := by
  split at h
  · rename_i hnegative
    rw [if_pos hnegative]
    exact_mod_cast h
  · rename_i hpositive
    rw [if_neg hpositive]
    exact_mod_cast h

/-- The value of a double that is a natural number is its integer part. -/
theorem truncated_of_value {x : Double} {n : ℕ} (h : value x = n) : x.truncated = n := by
  unfold value at h
  unfold Double.truncated
  generalize max x.exponent 1 = exponent at h ⊢
  by_cases hlarge : 1075 ≤ exponent
  · obtain ⟨k, rfl⟩ := Nat.exists_eq_add_of_le hlarge
    have hpower : (2 : ℚ) ^ (((1075 + k : ℕ) : ℤ) - 1075) = ((2 ^ k : ℕ) : ℚ) := by
      have hk : ((1075 + k : ℕ) : ℤ) - 1075 = k := by omega
      rw [hk, zpow_natCast]
      norm_cast
    simp only [hpower, ← Nat.cast_mul] at h
    simp only [if_pos hlarge, Nat.add_sub_cancel_left]
    exact signed_eq h
  · obtain ⟨k, hk⟩ := Nat.exists_eq_add_of_lt (Nat.lt_of_not_le hlarge)
    have hpower : (2 : ℚ) ^ ((exponent : ℤ) - 1075) = ((2 ^ (1075 - exponent) : ℕ) : ℚ)⁻¹ := by
      have hexponent : (exponent : ℤ) - 1075 = -((1075 - exponent : ℕ) : ℤ) := by omega
      rw [hexponent, zpow_neg, zpow_natCast]
      norm_cast
    have hpositive : 0 < 2 ^ (1075 - exponent) := Nat.two_pow_pos _
    have hne : ((2 ^ (1075 - exponent) : ℕ) : ℚ) ≠ 0 := by exact_mod_cast hpositive.ne'
    -- the mantissa is the number times the power of two
    have hmantissa : (if 2 ^ 63 ≤ x.bits.toNat then -(x.mantissa : ℚ) else x.mantissa) =
        ((n * 2 ^ (1075 - exponent) : ℕ) : ℚ) := by
      rw [Nat.cast_mul, ← h, hpower]
      split
      · field_simp
      · field_simp
    have hwhole := signed_eq hmantissa
    simp only [if_neg hlarge]
    split
    · rename_i hnegative
      rw [if_pos hnegative] at hwhole
      have hzero : x.mantissa = 0 := by omega
      have hn : n * 2 ^ (1075 - exponent) = 0 := by omega
      have hn' : n = 0 := by
        rcases Nat.mul_eq_zero.mp hn with hn | hn
        · exact hn
        · omega
      simp [hzero, hn']
    · rename_i hsign
      rw [if_neg hsign] at hwhole
      have hm : x.mantissa = n * 2 ^ (1075 - exponent) := by exact_mod_cast hwhole
      rw [hm]
      exact congrArg Nat.cast (Nat.mul_div_cancel n hpositive)

theorem toUnsigned_of_value (host : Host) {x : Double} {n : ℕ} (hfinite : x.isFinite = true)
    (hvalue : value x = n) (hn : n < 2 ^ 32) : (host.toUnsigned x).toNat = n := by
  have htruncated := truncated_of_value hvalue
  have hsize : n < UInt32.size := hn
  unfold Host.toUnsigned
  rw [htruncated, if_pos ⟨hfinite, by omega, by simpa using hsize⟩]
  simp
  omega

theorem toUnsignedLong_of_value (host : Host) {x : Double} {n : ℕ} (hfinite : x.isFinite = true)
    (hvalue : value x = n) (hn : n < 2 ^ 64) : (host.toUnsignedLong x).toNat = n := by
  have htruncated := truncated_of_value hvalue
  have hsize : n < UInt64.size := hn
  unfold Host.toUnsignedLong
  rw [htruncated, if_pos ⟨hfinite, by omega, by simpa using hsize⟩]
  simp
  omega

end Numbers

section Fields

variable {host : Host} {json : Json}

/-- The member of the key is the given natural number. -/
def IsNumber (json : Json) (key : String) (n : ℕ) : Prop :=
  ∃ member, json.atKey (ascii key) = .ok member ∧ number member = some (n : ℚ)

/-- The member of the key is a natural number of the given width. -/
def InRange (json : Json) (key : String) (width : ℕ) : Prop :=
  ∃ n < 2 ^ width, IsNumber json key n

theorem toUInt64_of_toInt {v : Int64} {n : ℕ} (h : v.toInt = n) : v.toUInt64.toNat = n := by
  have hpositive : 0 ≤ v := by
    rw [Int64.le_iff_toInt_le, h]
    exact Int.natCast_nonneg n
  rw [Int64.toNat_toUInt64_of_le hpositive, ← Int64.toNat_toInt, h]
  exact Int.toNat_natCast n

theorem getUnsigned_exact {member : Json} {stored : UInt32} {n : ℕ}
    (h : member.getUnsigned host = .ok stored) (hnumber : number member = some (n : ℚ))
    (hn : n < 2 ^ 32) : stored.toNat = n := by
  cases member with
  | numberUnsigned v =>
    obtain rfl := Except.ok.inj h
    have hv : v.toNat = n := by exact_mod_cast Option.some.inj hnumber
    rw [UInt64.toNat_toUInt32, hv]
    omega
  | numberInteger v =>
    obtain rfl := Except.ok.inj h
    rw [UInt64.toNat_toUInt32, toUInt64_of_toInt (by exact_mod_cast Option.some.inj hnumber)]
    omega
  | numberFloat x =>
    obtain rfl := Except.ok.inj h
    simp only [number, Option.ite_none_right_eq_some, Option.some.injEq] at hnumber
    exact toUnsigned_of_value host hnumber.1 hnumber.2 hn
  | _ => cases hnumber

theorem getUnsignedLong_exact {member : Json} {stored : UInt64} {n : ℕ}
    (h : member.getUnsignedLong host = .ok stored) (hnumber : number member = some (n : ℚ))
    (hn : n < 2 ^ 64) : stored.toNat = n := by
  cases member with
  | numberUnsigned v =>
    obtain rfl := Except.ok.inj h
    exact_mod_cast Option.some.inj hnumber
  | numberInteger v =>
    obtain rfl := Except.ok.inj h
    exact toUInt64_of_toInt (by exact_mod_cast Option.some.inj hnumber)
  | numberFloat x =>
    obtain rfl := Except.ok.inj h
    simp only [number, Option.ite_none_right_eq_some, Option.some.injEq] at hnumber
    exact toUnsignedLong_of_value host hnumber.1 hnumber.2 hn
  | _ => cases hnumber

/-- A member is read by a conversion, and the conversion is exact on the
numbers of its width. -/
theorem isNumber_iff_inRange {key : String} {member : Json} {stored width : ℕ}
    (hmember : json.atKey (ascii key) = .ok member) (hstored : stored < 2 ^ width)
    (hexact : ∀ n : ℕ, n < 2 ^ width → number member = some (n : ℚ) → stored = n) :
    IsNumber json key stored ↔ InRange json key width := by
  constructor
  · intro hnumber
    exact ⟨stored, hstored, hnumber⟩
  · intro ⟨n, hn, other, hother, hnumber⟩
    obtain rfl := Except.ok.inj (hmember.symm.trans hother)
    refine ⟨member, hmember, ?_⟩
    rw [hexact n hn hnumber]
    exact hnumber

theorem unsignedAt_isNumber_iff {key : String} {stored : UInt32}
    (h : unsignedAt host json key = .ok stored) :
    IsNumber json key stored.toNat ↔ InRange json key 32 := by
  unfold unsignedAt at h
  cases hmember : json.atKey (ascii key) with
  | error e =>
    rw [hmember] at h
    cases h
  | ok member =>
    rw [hmember] at h
    apply isNumber_iff_inRange hmember stored.toNat_lt
    intro n hn hnumber
    exact getUnsigned_exact h hnumber hn

theorem unsignedLongAt_isNumber_iff {key : String} {stored : UInt64}
    (h : unsignedLongAt host json key = .ok stored) :
    IsNumber json key stored.toNat ↔ InRange json key 64 := by
  unfold unsignedLongAt at h
  cases hmember : json.atKey (ascii key) with
  | error e =>
    rw [hmember] at h
    cases h
  | ok member =>
    rw [hmember] at h
    apply isNumber_iff_inRange hmember stored.toNat_lt
    intro n hn hnumber
    exact getUnsignedLong_exact h hnumber hn

end Fields

section Accepted

variable {host : Host} {json : Json} {into : PostPicture} {decoded : Decoding}

/-- The fields are the numbers of the members. -/
structure Exact (json : Json) (picture : PostPicture) : Prop where
  camera : IsNumber json "camera" picture.cameraId.toNat
  object : IsNumber json "object" picture.objectId.toNat
  width : IsNumber json "width" picture.width.toNat
  height : IsNumber json "height" picture.height.toNat
  size : IsNumber json "size" picture.size.toNat
  timestamp : IsNumber json "timestamp" picture.timestamp.toNat

/-- The members are natural numbers of the widths of the fields. -/
structure AllInRange (json : Json) : Prop where
  camera : InRange json "camera" 32
  object : InRange json "object" 32
  width : InRange json "width" 32
  height : InRange json "height" 32
  size : InRange json "size" 32
  timestamp : InRange json "timestamp" 64

/-- An accepted picture has the fields that the members say. -/
theorem declares_of_accepted (h : (fromJson host json).run ⟨into, []⟩ = .ok ⟨⟩ decoded) :
    ∃ text, Declares host json decoded.picture text := by
  obtain ⟨declared, text, block, hdeclares, hnew, -⟩ := exists_of_accepted h
  rw [fromJson_run hdeclares hnew] at h
  have hsame : { decoded.picture with data := .null } = { declared with data := .null } :=
    (@behaves_parseData _ (fun picture => { picture with data := .null }) (fun _ => True)
      (fun _ _ _ => rfl) trivial (fun _ _ => trivial) text).ok _ _ _ h
  obtain ⟨hcamera, hobject, htype, htimestamp, hwidth, hheight, hsize, -⟩ :=
    PostPicture.mk.injEq .. ▸ hsame
  refine ⟨text, ?_⟩
  constructor
  · rw [hdeclares.camera, hcamera]
  · rw [hdeclares.width, hwidth]
  · rw [hdeclares.height, hheight]
  · rw [hdeclares.object, hobject]
  · rw [hdeclares.timestamp, htimestamp]
  · rw [hdeclares.size, hsize]
  · rw [htype]
    exact hdeclares.type
  · exact hdeclares.data

theorem exact_iff (h : (fromJson host json).run ⟨into, []⟩ = .ok ⟨⟩ decoded) :
    Exact json decoded.picture ↔ AllInRange json := by
  obtain ⟨text, hdeclares⟩ := declares_of_accepted h
  have hcamera := unsignedAt_isNumber_iff hdeclares.camera
  have hobject := unsignedAt_isNumber_iff hdeclares.object
  have hwidth := unsignedAt_isNumber_iff hdeclares.width
  have hheight := unsignedAt_isNumber_iff hdeclares.height
  have hsize := unsignedAt_isNumber_iff hdeclares.size
  have htimestamp := unsignedLongAt_isNumber_iff hdeclares.timestamp
  constructor
  · intro hexact
    exact ⟨hcamera.mp hexact.camera, hobject.mp hexact.object, hwidth.mp hexact.width,
      hheight.mp hexact.height, hsize.mp hexact.size, htimestamp.mp hexact.timestamp⟩
  · intro hrange
    exact ⟨hcamera.mpr hrange.camera, hobject.mpr hrange.object, hwidth.mpr hrange.width,
      hheight.mpr hrange.height, hsize.mpr hrange.size, htimestamp.mpr hrange.timestamp⟩

end Accepted

theorem isNumber_unique {json : Json} {key : String} {m n : ℕ} (h : IsNumber json key m)
    (h' : IsNumber json key n) : m = n := by
  obtain ⟨member, hmember, hm⟩ := h
  obtain ⟨other, hother, hn⟩ := h'
  obtain rfl := Except.ok.inj (hmember.symm.trans hother)
  exact_mod_cast Option.some.inj (hm.symm.trans hn)

/-- Pictures that are grouped together were posted with the same object number. -/
theorem same_object {json other : Json} {first second : PostPicture} (h : Exact json first)
    (h' : Exact other second) (hgroup : first.objectId = second.objectId) (n : ℕ) :
    IsNumber json "object" n ↔ IsNumber other "object" n := by
  constructor
  · intro hn
    rw [isNumber_unique hn h.object, hgroup]
    exact h'.object
  · intro hn
    rw [isNumber_unique hn h'.object, ← hgroup]
    exact h.object

/-- An accepted JSON has its numbers in the fields when they are natural
numbers of the widths of the fields, and never otherwise. Among such JSONs
those with different object numbers have different objects. -/
theorem fields_exact_iff_in_range (host : Host) (json : Json) (into : PostPicture)
    (decoded : Decoding) (h : (fromJson host json).run ⟨into, []⟩ = .ok ⟨⟩ decoded) :
    (Exact json decoded.picture ↔ AllInRange json) ∧
      ∀ other decoded', (fromJson host other).run ⟨into, []⟩ = .ok ⟨⟩ decoded' →
        AllInRange json → AllInRange other →
          decoded.picture.objectId = decoded'.picture.objectId →
            ∀ n, IsNumber json "object" n ↔ IsNumber other "object" n := by
  refine ⟨exact_iff h, ?_⟩
  intro other decoded' h' hrange hrange' hgroup
  exact same_object ((exact_iff h).mpr hrange) ((exact_iff h').mpr hrange') hgroup

section Sample

/-- An empty face of the given object. -/
def withObject (object : Json) : Json :=
  Json.ofPairs
    [(ascii "camera", Json.ofUnsigned 0), (ascii "object", object),
      (ascii "type", .string (ascii "face")), (ascii "timestamp", .numberUnsigned 0),
      (ascii "width", Json.ofUnsigned 0), (ascii "height", Json.ofUnsigned 0),
      (ascii "size", Json.ofUnsigned 0), (ascii "data", .string [])]

def decodedObject (object : Json) : Decoding :=
  finalState (fromJson Host.zeroed (withObject object)) ⟨createPicture, []⟩

end Sample

theorem fields_exact_iff_in_range_one :
    Exact (withObject (.numberUnsigned 1)) (decodedObject (.numberUnsigned 1)).picture ↔
      AllInRange (withObject (.numberUnsigned 1)) :=
  (fields_exact_iff_in_range Host.zeroed (withObject (.numberUnsigned 1)) createPicture
    (decodedObject (.numberUnsigned 1)) (run_of_returned (by decide +kernel))).1

/-- The object numbers 1 and 4294967297 are both accepted as the object 1. -/
theorem object_numbers_collide :
    (fromJson Host.zeroed (withObject (.numberUnsigned 1))).run ⟨createPicture, []⟩ =
        .ok ⟨⟩ (decodedObject (.numberUnsigned 1)) ∧
      (fromJson Host.zeroed (withObject (.numberUnsigned 4294967297))).run ⟨createPicture, []⟩ =
        .ok ⟨⟩ (decodedObject (.numberUnsigned 4294967297)) ∧
      (decodedObject (.numberUnsigned 1)).picture.objectId =
        (decodedObject (.numberUnsigned 4294967297)).picture.objectId ∧
      ¬ Exact (withObject (.numberUnsigned 4294967297))
        (decodedObject (.numberUnsigned 4294967297)).picture := by
  refine ⟨run_of_returned (by decide +kernel), run_of_returned (by decide +kernel),
    by decide +kernel, ?_⟩
  intro hexact
  obtain ⟨member, hmember, hnumber⟩ := hexact.object
  have hobject : (decodedObject (.numberUnsigned 4294967297)).picture.objectId = 1 := by
    decide +kernel
  obtain rfl : Json.numberUnsigned 4294967297 = member := Except.ok.inj hmember
  rw [hobject] at hnumber
  have hcast : (4294967297 : UInt64).toNat = (1 : UInt32).toNat := by
    exact_mod_cast Option.some.inj hnumber
  exact absurd hcast (by decide)

end BeastServer.ExactNumbers
