import BeastServer.PictureJson
import Mathlib.Data.List.TakeWhile

/-!
The bounds of the picture decoder.
Every six-bit value brings the next byte nearer, so the number of decodable
characters at the front of the data string decides how many bytes are stored,
and its length whether the last byte is begun and not finished. The sizes that
to_json writes fit only when they are multiples of three.
-/
namespace BeastServer.DecoderBounds

open ByteStrings Exceptions JsonValues PostedPictures Base64 Programs PictureJson

def InBounds (accesses : List Access) : Prop := ∀ access ∈ accesses, access.InBounds

@[simp] theorem inBounds_nil : InBounds [] := by
  intro access h
  simp at h

theorem forall_append_singleton {good : Access → Prop} {accesses : List Access}
    {access : Access} :
    (∀ a ∈ accesses ++ [access], good a) ↔ (∀ a ∈ accesses, good a) ∧ good access := by
  simp [or_imp, forall_and]

/-- A store meets its block; a read changes nothing. -/
def KeepsBlock : Access → Prop
  | .read _ _ => True
  | .store index size => index < size

def StoresInBounds (accesses : List Access) : Prop := ∀ access ∈ accesses, KeepsBlock access

@[simp] theorem storesInBounds_nil : StoresInBounds [] := by
  intro access h
  simp at h

/-- The number of characters before the first that is no letter. -/
def decodable (text : Bytes) : ℕ := (text.takeWhile isEncoded).length

/-- The number of bytes that the characters of a text make. -/
def decodedLength (text : Bytes) : ℕ := 3 * text.length / 4

theorem decodable_le (text : Bytes) : decodable text ≤ text.length :=
  (List.takeWhile_sublist _).length_le

theorem decodable_of_none {c : UInt8} {rest : Bytes} (h : toSixBits c = none) :
    decodable (c :: rest) = 0 := by
  simp [decodable, isEncoded, h]

theorem decodable_of_some {c : UInt8} {rest : Bytes} {bits : Bits} (h : toSixBits c = some bits) :
    decodable (c :: rest) = decodable rest + 1 := by
  simp [decodable, isEncoded, h]

/-- The bits held between two characters: a byte that has begun holds six. -/
def Holding (held : ℕ) (begun : Bool) : Prop :=
  if begun = true then held = 6 else held = 0 ∨ held = 2 ∨ held = 4

theorem holding_le {held : ℕ} {begun : Bool} (h : Holding held begun) : held ≤ 6 := by
  unfold Holding at h
  split at h
  · omega
  · omega

/-- Six more bits that do not complete a byte begin one. -/
theorem holding_begun {held bits : Bits} {begun : Bool} (h : Holding held.length begun)
    (hsix : bits.length = 6) (hshort : held.length + bits.length < 8) :
    Holding (held ++ bits).length true := by
  unfold Holding at h ⊢
  rw [if_pos rfl, List.length_append]
  split at h
  · omega
  · omega

theorem holding_stored {held bits : Bits} {begun : Bool} (h : Holding held.length begun)
    (hsix : bits.length = 6) (hfull : 8 ≤ held.length + bits.length) :
    Holding ((held ++ bits).drop 8).length false := by
  unfold Holding at h ⊢
  rw [if_neg (by simp), List.length_drop, List.length_append]
  split at h
  · omega
  · omega

section Copying

variable {s : Decoding} {length index position : ℕ} {held : Bits} {begun : Bool}
  {text rest : Bytes}

/-- Which accesses of the copy are good, where a store is when it meets the block
and a read when it meets the text: the induction is on the text that is left, and
what is held decides whether a character completes a byte. -/
theorem copy_accesses {good : Access → Prop}
    (hread : ∀ position, position < length → good (.read position length))
    (hstore : ∀ index size, good (.store index size) ↔ index < size)
    (hheld : Holding held.length begun) (hposition : position + rest.length = length) :
    (∀ access ∈ (finalState (copy length held begun index position rest) s).accesses,
        good access) ↔
      (∀ access ∈ s.accesses, good access) ∧
        ((held.length + 6 * decodable rest) / 8 = 0 ∨
          index + (held.length + 6 * decodable rest) / 8 ≤ s.picture.size.toNat) ∧
        (decodable rest = rest.length ∧ (held.length + 6 * rest.length) % 8 = 6 →
          good (.read length length)) := by
  induction rest generalizing held begun index position s with
  | nil =>
    cases begun with
    | false =>
      have hsmall : held.length = 0 ∨ held.length = 2 ∨ held.length = 4 := by
        simpa [Holding] using hheld
      rw [finalState_ok copy_end]
      apply (and_iff_left _).symm
      simp only [decodable, List.takeWhile_nil, List.length_nil]
      constructor
      · omega
      · intro hend
        omega
    | true =>
      have hsix : held.length = 6 := by simpa [Holding] using hheld
      obtain rfl : position = length := hposition
      rw [finalState_error copy_past_end, forall_append_singleton]
      simp [decodable, hsix]
  | cons c rest ih =>
    have hhere : good (.read position length) := by
      apply hread
      rw [List.length_cons] at hposition
      omega
    have hnext : position + 1 + rest.length = length := by
      rw [List.length_cons] at hposition
      omega
    have hsmall := holding_le hheld
    cases hc : toSixBits c with
    | none =>
      rw [finalState_error (copy_refused hc), forall_append_singleton, decodable_of_none hc]
      simp only [hhere, and_true, List.length_cons]
      apply (and_iff_left _).symm
      constructor
      · omega
      · intro hend
        omega
    | some bits =>
      have hsix := toSixBits_length hc
      rw [decodable_of_some hc, List.length_cons]
      by_cases hshort : held.length + bits.length < 8
      · have hholding := holding_begun hheld hsix hshort
        have hheld' : held.length + bits.length + 6 * decodable rest =
            held.length + 6 * (decodable rest + 1) := by omega
        have hall : held.length + bits.length + 6 * rest.length =
            held.length + 6 * (rest.length + 1) := by omega
        rw [finalState, copy_begun hc hshort, ← finalState, ih hholding hnext,
          forall_append_singleton]
        simp only [hhere, and_true, List.length_append, hheld', hall, Nat.add_right_cancel_iff]
      · have hfull : 8 ≤ held.length + bits.length := by omega
        have hholding := holding_stored hheld hsix hfull
        have hall : (held.length + bits.length - 8 + 6 * rest.length) % 8 =
            (held.length + 6 * (rest.length + 1)) % 8 := by omega
        rw [finalState, copy_stored hc hfull, ← finalState, ih hholding hnext,
          forall_append_singleton, forall_append_singleton]
        simp only [hhere, and_true, List.length_append, List.length_drop, and_assoc, hall, hstore,
          Nat.add_right_cancel_iff]
        apply and_congr_right
        intro _
        rw [← and_assoc]
        apply and_congr_left
        intro _
        omega

theorem copy_inBounds (hheld : Holding held.length begun)
    (hposition : position + rest.length = length) :
    InBounds (finalState (copy length held begun index position rest) s).accesses ↔
      InBounds s.accesses ∧
        ((held.length + 6 * decodable rest) / 8 = 0 ∨
          index + (held.length + 6 * decodable rest) / 8 ≤ s.picture.size.toNat) ∧
        ¬ (decodable rest = rest.length ∧ (held.length + 6 * rest.length) % 8 = 6) := by
  have hend : ¬ Access.InBounds (.read length length) := Nat.lt_irrefl length
  rw [InBounds, copy_accesses (fun _ hread => hread) (fun _ _ => Iff.rfl) hheld hposition,
    imp_iff_not hend, ← InBounds]

theorem copy_storesInBounds (hheld : Holding held.length begun)
    (hposition : position + rest.length = length) :
    StoresInBounds (finalState (copy length held begun index position rest) s).accesses ↔
      StoresInBounds s.accesses ∧
        ((held.length + 6 * decodable rest) / 8 = 0 ∨
          index + (held.length + 6 * decodable rest) / 8 ≤ s.picture.size.toNat) := by
  rw [StoresInBounds, copy_accesses (fun _ _ => trivial) (fun _ _ => Iff.rfl) hheld hposition,
    ← StoresInBounds]
  apply and_congr_right
  intro _
  exact and_iff_left (fun _ => trivial)

/-- A copy that returns has decoded every character. -/
theorem copy_returned (h : returned (copy length held begun index position rest) s ≠ none) :
    decodable rest = rest.length := by
  induction rest generalizing held begun index position s with
  | nil => rfl
  | cons c rest ih =>
    cases hc : toSixBits c with
    | none => exact absurd (returned_error (copy_refused hc)) h
    | some bits =>
      rw [decodable_of_some hc, List.length_cons]
      by_cases hshort : held.length + bits.length < 8
      · rw [returned, copy_begun hc hshort, ← returned] at h
        rw [ih h]
      · rw [returned, copy_stored hc (by omega), ← returned] at h
        rw [ih h]

end Copying

section Requirement

/-- While from_json runs no access is out of bounds, and it does not return
when the data string makes more bytes than the declared size. -/
def Bounded (host : Host) (json : Json) (picture : PostPicture) : Prop :=
  InBounds (finalState (fromJson host json) ⟨picture, []⟩).accesses ∧
    ∀ declared text, Declares host json declared text →
      declared.size.toNat < decodedLength text →
        returned (fromJson host json) ⟨picture, []⟩ = none

/-- The bytes of the decodable characters fit, and the text does not end just
after the first character of a byte. -/
def Fits (size : ℕ) (text : Bytes) : Prop :=
  3 * decodable text / 4 ≤ size ∧ ¬ (decodable text = text.length ∧ text.length % 4 = 1)

variable {host : Host} {json : Json} {picture declared : PostPicture} {text block : Bytes}

theorem fromJson_inBounds (hdeclares : Declares host json declared text)
    (hnew : host.operatorNew declared.size.toNat = some block) :
    InBounds (finalState (fromJson host json) ⟨picture, []⟩).accesses ↔
      Fits declared.size.toNat text := by
  have hholding : Holding ([] : Bits).length false := Or.inl rfl
  rw [finalState, fromJson_run hdeclares hnew, ← finalState, finalState_parseData,
    copy_inBounds hholding (Nat.zero_add _)]
  unfold Fits
  simp only [List.length_nil, inBounds_nil, true_and]
  have := decodable_le text
  omega

theorem fromJson_returned (hdeclares : Declares host json declared text)
    (hnew : host.operatorNew declared.size.toNat = some block)
    (h : returned (fromJson host json) ⟨picture, []⟩ ≠ none) :
    decodable text = text.length := by
  rw [returned, fromJson_run hdeclares hnew, ← returned, returned_parseData] at h
  exact copy_returned h

theorem fromJson_unread_returned
    (h : ∀ declared text block, Declares host json declared text →
      host.operatorNew declared.size.toNat ≠ some block) :
    InBounds (finalState (fromJson host json) ⟨picture, []⟩).accesses ∧
      returned (fromJson host json) ⟨picture, []⟩ = none := by
  obtain ⟨e, left, hrun⟩ := @fromJson_unread ⟨picture, []⟩ host json h
  rw [finalState_error hrun, returned_error hrun]
  exact ⟨inBounds_nil, rfl⟩

theorem bounded_iff_of_declares (hdeclares : Declares host json declared text)
    (hnew : host.operatorNew declared.size.toNat = some block) :
    Bounded host json picture ↔ Fits declared.size.toNat text := by
  constructor
  · intro hbounded
    exact (fromJson_inBounds hdeclares hnew).mp hbounded.1
  · intro hfits
    refine ⟨(fromJson_inBounds hdeclares hnew).mpr hfits, ?_⟩
    intro other otherText hother hlong
    have hsize : other.size = declared.size :=
      Except.ok.inj (hother.size.symm.trans hdeclares.size)
    have htext : otherText = text := Except.ok.inj (hother.data.symm.trans hdeclares.data)
    rw [hsize, htext, decodedLength] at hlong
    by_contra hreturned
    have hall := fromJson_returned hdeclares hnew hreturned
    have hfit := hfits.1
    rw [hall] at hfit
    omega

/-- The decoder stays in bounds and refuses what does not fit exactly when
the size and the data string that it gets to decode fit each other. -/
theorem bounded_iff_fits (host : Host) (json : Json) (picture : PostPicture) :
    Bounded host json picture ↔
      ∀ declared text block, Declares host json declared text →
        host.operatorNew declared.size.toNat = some block → Fits declared.size.toNat text := by
  by_cases hread : ∃ declared text block, Declares host json declared text ∧
      host.operatorNew declared.size.toNat = some block
  · obtain ⟨declared, text, block, hdeclares, hnew⟩ := hread
    constructor
    · intro hbounded other otherText otherBlock hother hotherNew
      exact (bounded_iff_of_declares hother hotherNew).mp hbounded
    · intro hfits
      exact (bounded_iff_of_declares hdeclares hnew).mpr (hfits _ _ _ hdeclares hnew)
  · have hunread : ∀ declared text block, Declares host json declared text →
        host.operatorNew declared.size.toNat ≠ some block := by
      intro declared text block hdeclares hnew
      exact hread ⟨declared, text, block, hdeclares, hnew⟩
    obtain ⟨hbounds, hnone⟩ := @fromJson_unread_returned host json picture hunread
    constructor
    · intro _ declared text block hdeclares hnew
      exact absurd hnew (hunread declared text block hdeclares)
    · intro _
      exact ⟨hbounds, fun _ _ _ _ => hnone⟩

instance (accesses : List Access) : Decidable (InBounds accesses) :=
  inferInstanceAs (Decidable (∀ access ∈ accesses, access.InBounds))

/-- A picture of one byte. -/
def oneByte : PostPicture := { createPicture with size := 1, data := .live [65] }

/-- Its data string QQ== makes three bytes, which are stored in a block of one. -/
theorem oneByte_not_bounded : ¬ Bounded Host.zeroed (toJson oneByte) createPicture := by
  intro hbounded
  have houtside : ¬ InBounds
      (finalState (fromJson Host.zeroed (toJson oneByte)) ⟨createPicture, []⟩).accesses := by
    decide +kernel
  exact houtside hbounded.1

end Requirement

section Encoded

variable {host : Host} {source picture : PostPicture} {bytes block : Bytes}

theorem getData_eq (h : source.Holds bytes) :
    getData source =
      encode bytes ++ List.replicate ((3 - bytes.length % 3) % 3) equalSign := by
  rw [getData, h.first, h.length]

theorem isEncoded_of_mem_getData (h : source.Holds bytes) {c : UInt8} (hc : c ∈ getData source) :
    isEncoded c = true := by
  rw [getData_eq h] at hc
  rcases List.mem_append.mp hc with hletter | hpadding
  · exact isEncoded_of_mem_encode hletter
  · rw [(List.mem_replicate.mp hpadding).2]
    rfl

theorem decodable_getData (h : source.Holds bytes) :
    decodable (getData source) = (getData source).length := by
  have hall : (getData source).takeWhile isEncoded = getData source := by
    rw [List.takeWhile_eq_self_iff]
    intro c hc
    exact isEncoded_of_mem_getData h hc
  rw [decodable, hall]

/-- Every three bytes, the last ones filled up, become four characters. -/
theorem getData_length (h : source.Holds bytes) :
    (getData source).length = 4 * ((bytes.length + 2) / 3) := by
  rw [getData_eq h, List.length_append, List.length_replicate, encode_length]
  omega

/-- What to_json writes is decoded in bounds when the size is a multiple of
three, and never otherwise. -/
theorem toJson_bounded_iff (h : source.Holds bytes)
    (hnew : host.operatorNew source.size.toNat = some block) :
    Bounded host (toJson source) picture ↔ source.size.toNat % 3 = 0 := by
  have hlength := getData_length h
  have hdecodable := decodable_getData h
  have hsize := h.length
  rw [bounded_iff_of_declares (declares_toJson host source) hnew, Fits, hdecodable, hlength]
  omega

end Encoded

end BeastServer.DecoderBounds
