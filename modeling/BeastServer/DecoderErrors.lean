import BeastServer.DecoderBounds

/-!
What a failing from_json leaves in the picture and on the heap.
The size is overwritten before the type and the data string are read, and the
old block is deleted before the new one is allocated. A picture with a block
keeps a block of its size only when none of these steps comes between; a
picture without data has nothing to lose. A text that is refused late has
already been decoded up to the bad character, and these bytes must fit.
-/
namespace BeastServer.DecoderErrors

open ByteStrings Exceptions JsonValues PostedPictures Base64 Programs PictureJson DecoderBounds

/-- The data is null or a live block of exactly size bytes. -/
def Sound (picture : PostPicture) : Prop :=
  picture.data = .null ∨ ∃ block, picture.data = .live block ∧ block.length = picture.size.toNat

/-- The members that are read up to the size, with the size they give. -/
structure SizeRead (host : Host) (json : Json) (size : UInt32) : Prop where
  camera : ∃ n, unsignedAt host json "camera" = .ok n
  width : ∃ n, unsignedAt host json "width" = .ok n
  height : ∃ n, unsignedAt host json "height" = .ok n
  object : ∃ n, unsignedAt host json "object" = .ok n
  timestamp : ∃ n, unsignedLongAt host json "timestamp" = .ok n
  size : unsignedAt host json "size" = .ok size

/-- The members that are read after the size. -/
structure TextRead (json : Json) (text : Bytes) : Prop where
  type : ∃ typeName, stringAt json "type" = .ok typeName
  data : stringAt json "data" = .ok text

/-- from_json throws before it reads the size; or on the type or the data string,
and the picture has no block or an equal size; or without memory for a new block,
and there is no old one; or in the text, after bytes that fit the new block. -/
def Harmless (host : Host) (json : Json) (picture : PostPicture) : Prop :=
  ∀ size, SizeRead host json size →
    ((∀ text, ¬ TextRead json text) ∧ (picture.data = .null ∨ size = picture.size)) ∨
      ∃ text, TextRead json text ∧
        ((host.operatorNew size.toNat = none ∧ picture.data = .null) ∨
          ((∃ block, host.operatorNew size.toNat = some block) ∧
            3 * decodable text / 4 ≤ size.toNat))

section Blocks

/-- The size of the block, if there is one. -/
def blockLength : Buffer → Option ℕ
  | .null => none
  | .live block => some block.length
  | .deleted => none

/-- What decides whether the picture is sound. -/
def shape (picture : PostPicture) : UInt32 × Option ℕ := (picture.size, blockLength picture.data)

theorem blockLength_store (buffer : Buffer) (index : ℕ) (byte : UInt8) :
    blockLength (buffer.store index byte) = blockLength buffer := by
  cases buffer <;> simp [Buffer.store, blockLength]

theorem sound_of_blockLength {picture : PostPicture}
    (h : blockLength picture.data = some picture.size.toNat) : Sound picture := by
  cases hdata : picture.data with
  | null => exact Or.inl hdata
  | live block =>
    rw [hdata] at h
    exact Or.inr ⟨block, hdata, Option.some.inj h⟩
  | deleted =>
    rw [hdata] at h
    cases h

/-- A block that is kept fits exactly the size that it was made for. -/
theorem sound_resized {picture left : PostPicture} (hsound : Sound picture)
    (hdata : left.data = picture.data) :
    Sound left ↔ picture.data = .null ∨ left.size = picture.size := by
  rw [Sound, hdata]
  rcases hsound with hnull | ⟨block, hlive, hlength⟩
  · exact iff_of_true (Or.inl hnull) (Or.inl hnull)
  · apply or_congr_right
    constructor
    · intro hleft
      obtain ⟨block', hlive', hlength'⟩ := hleft
      obtain rfl := Buffer.live.inj (hlive.symm.trans hlive')
      exact UInt32.toNat_inj.mp (hlength'.symm.trans hlength)
    · intro hsame
      exact ⟨block, hlive, by rw [hsame, hlength]⟩

theorem sound_deleted {picture left : PostPicture} (hsound : Sound picture)
    (hdata : left.data = picture.data.delete) : Sound left ↔ picture.data = .null := by
  rw [Sound, hdata]
  rcases hsound with hnull | ⟨block, hlive, -⟩
  · rw [hnull]
    exact iff_of_true (Or.inl rfl) rfl
  · rw [hlive]
    apply iff_of_false
    · intro hleft
      rcases hleft with hnull | ⟨block', hlive', -⟩
      · cases hnull
      · cases hlive'
    · intro hnull
      cases hnull

/-- Decoding stores into the block and never replaces it. -/
theorem shape_store (picture : PostPicture) (index : ℕ) (byte : UInt8) :
    shape { picture with data := picture.data.store index byte } = shape picture := by
  simp only [shape, blockLength_store]

end Blocks

section Failures

/-- The points at which from_json fails, with what is left of the size, the data
and the stores. -/
inductive FailedAt (host : Host) (json : Json) (s after : Decoding) : Prop
  | member (hsize : ∀ size, ¬ SizeRead host json size)
      (hkept : after.picture.size = s.picture.size)
      (hdata : after.picture.data = s.picture.data) (hstores : after.accesses = s.accesses)
  | text (hsize : SizeRead host json after.picture.size) (htext : ∀ text, ¬ TextRead json text)
      (hdata : after.picture.data = s.picture.data) (hstores : after.accesses = s.accesses)
  | block (text : Bytes) (hsize : SizeRead host json after.picture.size)
      (htext : TextRead json text) (hnone : host.operatorNew after.picture.size.toNat = none)
      (hdata : after.picture.data = s.picture.data.delete) (hstores : after.accesses = s.accesses)
  | letter (text : Bytes) (hsize : SizeRead host json after.picture.size)
      (htext : TextRead json text)
      (hnew : ∃ block, host.operatorNew after.picture.size.toNat = some block)
      (hdata : blockLength after.picture.data = some after.picture.size.toNat)
      (hstores : StoresInBounds after.accesses ↔ StoresInBounds s.accesses ∧
        3 * decodable text / 4 ≤ after.picture.size.toNat)

variable {host : Host} {json : Json} {s after : Decoding} {e : Exception}

theorem getTo_bind_error {α : Type} {member : Except Exception α}
    {set : α → PostPicture → PostPicture} {f : PUnit → DecodingProgram PUnit}
    (h : (getTo member set >>= f).run s = .error e after) :
    (∃ e, member = .error e ∧ after = s) ∨
      ∃ a, member = .ok a ∧ (f ⟨⟩).run { s with picture := set a s.picture } = .error e after := by
  cases hmember : member with
  | error e' =>
    rw [bind_error (getTo_error hmember)] at h
    cases h
    exact Or.inl ⟨_, rfl, rfl⟩
  | ok a =>
    rw [bind_ok (getTo_ok hmember)] at h
    exact Or.inr ⟨a, rfl, h⟩

/-- What parseData has stored, whether it returns or throws. -/
theorem parseData_storesInBounds (text : Bytes) :
    StoresInBounds (finalState (parseData text) s).accesses ↔
      StoresInBounds s.accesses ∧ 3 * decodable text / 4 ≤ s.picture.size.toNat := by
  have hholding : Holding ([] : Bits).length false := Or.inl rfl
  rw [finalState_parseData, copy_storesInBounds hholding (Nat.zero_add _)]
  apply and_congr_right
  intro _
  simp only [List.length_nil]
  omega

/-- The part of from_json after the members fails in allocate or in parseData. -/
theorem decode_error {text : Bytes} (hsize : SizeRead host json s.picture.size)
    (htext : TextRead json text)
    (h : (allocate host >>= fun _ => parseData text).run s = .error e after) :
    FailedAt host json s after := by
  cases hnew : host.operatorNew s.picture.size.toNat with
  | none =>
    rw [bind_error (allocate_fails hnew)] at h
    cases h
    exact .block text hsize htext hnew rfl rfl
  | some block =>
    rw [bind_ok (allocate_ok hnew)] at h
    have hdecoding := @behaves_parseData _ shape (fun _ => True) shape_store trivial
      (fun _ _ => trivial) text
    have hshape := (hdecoding.error _ e after h).1
    have hkept : after.picture.size = s.picture.size := congrArg Prod.fst hshape
    have hlive : blockLength after.picture.data = some block.length := congrArg Prod.snd hshape
    have hstores := @parseData_storesInBounds
      { s with picture := { s.picture with data := .live block } } text
    rw [finalState_error h] at hstores
    rw [← hkept] at hsize hnew
    refine .letter text hsize htext ⟨block, hnew⟩ ?_ ?_
    · rw [hlive, host.operatorNew_length _ _ hnew]
    · rw [hkept]
      exact hstores

theorem not_ok_of_error {α : Type} {member : Except Exception α} {e : Exception}
    (h : member = .error e) : ¬ ∃ a, member = .ok a := by
  rintro ⟨a, ha⟩
  rw [h] at ha
  cases ha

/-- Where from_json can fail: one case for each member that it reads. -/
theorem fromJson_error (h : (fromJson host json).run s = .error e after) :
    FailedAt host json s after := by
  unfold fromJson at h
  rcases getTo_bind_error h with ⟨_, hcamera, rfl⟩ | ⟨camera, hcamera, h⟩
  · exact .member (fun _ hread => not_ok_of_error hcamera hread.camera) rfl rfl rfl
  rcases getTo_bind_error h with ⟨_, hwidth, rfl⟩ | ⟨width, hwidth, h⟩
  · exact .member (fun _ hread => not_ok_of_error hwidth hread.width) rfl rfl rfl
  rcases getTo_bind_error h with ⟨_, hheight, rfl⟩ | ⟨height, hheight, h⟩
  · exact .member (fun _ hread => not_ok_of_error hheight hread.height) rfl rfl rfl
  rcases getTo_bind_error h with ⟨_, hobject, rfl⟩ | ⟨object, hobject, h⟩
  · exact .member (fun _ hread => not_ok_of_error hobject hread.object) rfl rfl rfl
  rcases getTo_bind_error h with ⟨_, htimestamp, rfl⟩ | ⟨timestamp, htimestamp, h⟩
  · exact .member (fun _ hread => not_ok_of_error htimestamp hread.timestamp) rfl rfl rfl
  rcases getTo_bind_error h with ⟨_, hsize, rfl⟩ | ⟨size, hsize, h⟩
  · exact .member (fun _ hread => not_ok_of_error hsize ⟨_, hread.size⟩) rfl rfl rfl
  -- from here on the size is the one of the JSON
  have hread : SizeRead host json size :=
    ⟨⟨camera, hcamera⟩, ⟨width, hwidth⟩, ⟨height, hheight⟩, ⟨object, hobject⟩,
      ⟨timestamp, htimestamp⟩, hsize⟩
  rcases getTo_bind_error h with ⟨_, htype, rfl⟩ | ⟨typeName, htype, h⟩
  · exact .text hread (fun _ htext => not_ok_of_error htype htext.type) rfl rfl
  cases hdata : stringAt json "data" with
  | error e' =>
    rw [hdata, bind_error (run_ofExcept_error _ _)] at h
    cases h
    exact .text hread (fun _ htext => not_ok_of_error hdata ⟨_, htext.data⟩) rfl rfl
  | ok text =>
    rw [hdata, bind_ok (run_ofExcept_ok _ _)] at h
    have htext : TextRead json text := ⟨⟨typeName, htype⟩, hdata⟩
    cases decode_error hread htext h with
    | member hsize' hkept hdata' hstores => exact absurd hread (hsize' size)
    | text hsize' hnone hdata' hstores => exact absurd htext (hnone text)
    | block text' hsize' htext' hnone hdata' hstores =>
      exact .block text' hsize' htext' hnone hdata' hstores
    | letter text' hsize' htext' hnew hdata' hstores =>
      exact .letter text' hsize' htext' hnew hdata' hstores

theorem sizeRead_unique {size size' : UInt32} (h : SizeRead host json size)
    (h' : SizeRead host json size') : size = size' :=
  Except.ok.inj (h.size.symm.trans h'.size)

theorem textRead_unique {text text' : Bytes} (h : TextRead json text) (h' : TextRead json text') :
    text = text' :=
  Except.ok.inj (h.data.symm.trans h'.data)

/-- A block is lost at the type or the data string unless the size stays the
same, and always when there is no memory for the new one; a text that is refused
spoils the heap when what comes before the bad character does not fit. -/
theorem sound_of_failedAt (hsound : Sound s.picture) (hbefore : StoresInBounds s.accesses)
    (hfailed : FailedAt host json s after) :
    Sound after.picture ∧ StoresInBounds after.accesses ↔ Harmless host json s.picture := by
  cases hfailed with
  | member hsize hkept hdata hstores =>
    have hleft : Sound after.picture := by
      rw [Sound, hdata, hkept]
      exact hsound
    have hharmless : Harmless host json s.picture := fun size hread => absurd hread (hsize size)
    rw [hstores]
    exact iff_of_true ⟨hleft, hbefore⟩ hharmless
  | text hsize htext hdata hstores =>
    rw [hstores, and_iff_left hbefore, sound_resized hsound hdata]
    constructor
    · intro hkept size hread
      rw [sizeRead_unique hread hsize]
      exact Or.inl ⟨htext, hkept⟩
    · intro hharmless
      rcases hharmless after.picture.size hsize with ⟨-, hkept⟩ | ⟨text, hread, -⟩
      · exact hkept
      · exact absurd hread (htext text)
  | block text hsize htext hnone hdata hstores =>
    rw [hstores, and_iff_left hbefore, sound_deleted hsound hdata]
    constructor
    · intro hnull size hread
      rw [sizeRead_unique hread hsize]
      exact Or.inr ⟨text, htext, Or.inl ⟨hnone, hnull⟩⟩
    · intro hharmless
      rcases hharmless after.picture.size hsize with ⟨hmissing, -⟩ | ⟨other, -, hend⟩
      · exact absurd htext (hmissing text)
      · rcases hend with ⟨-, hnull⟩ | ⟨⟨block, hnew⟩, -⟩
        · exact hnull
        · rw [hnone] at hnew
          cases hnew
  | letter text hsize htext hnew hdata hstores =>
    rw [hstores, and_iff_right hbefore, and_iff_right (sound_of_blockLength hdata)]
    constructor
    · intro hfits size hread
      rw [sizeRead_unique hread hsize]
      exact Or.inr ⟨text, htext, Or.inr ⟨hnew, hfits⟩⟩
    · intro hharmless
      rcases hharmless after.picture.size hsize with ⟨hmissing, -⟩ | ⟨text', htext', hend⟩
      · exact absurd htext (hmissing text)
      · rcases hend with ⟨hnone, -⟩ | ⟨-, hfits⟩
        · obtain ⟨block, hblock⟩ := hnew
          rw [hnone] at hblock
          cases hblock
        · rw [textRead_unique htext htext']
          exact hfits

end Failures

/-- After an exception the data is null or a block of exactly size bytes and no
byte has been stored past a block, when the failure is harmless and never otherwise. -/
theorem sound_after_error_iff (host : Host) (json : Json) (e : Exception)
    (picture : PostPicture) (after : Decoding) (hsound : Sound picture)
    (hrun : (fromJson host json).run ⟨picture, []⟩ = .error e after) :
    Sound after.picture ∧ StoresInBounds after.accesses ↔ Harmless host json picture :=
  sound_of_failedAt hsound storesInBounds_nil (fromJson_error hrun)

section Sample

/-- A picture of two bytes. -/
def twoBytes : PostPicture := { createPicture with size := 2, data := .live [7, 8] }

/-- A face of nine bytes, without its data string. -/
def withoutData : Json :=
  Json.ofPairs
    [(ascii "camera", Json.ofUnsigned 0), (ascii "object", Json.ofUnsigned 0),
      (ascii "type", .string (ascii "face")), (ascii "timestamp", .numberUnsigned 0),
      (ascii "width", Json.ofUnsigned 0), (ascii "height", Json.ofUnsigned 0),
      (ascii "size", Json.ofUnsigned 9)]

def keyMissing : Exception := .json .outOfRange 403 (ascii "key 'data' not found")

end Sample

theorem sound_after_error_iff_without_data :
    Sound { twoBytes with size := 9 } ∧ StoresInBounds [] ↔
      Harmless Host.zeroed withoutData twoBytes :=
  sound_after_error_iff Host.zeroed withoutData keyMissing twoBytes
    ⟨{ twoBytes with size := 9 }, []⟩ (Or.inr ⟨[7, 8], rfl, rfl⟩) rfl

/-- The old block of two bytes is left with a size of nine. -/
theorem unsound_without_data :
    ∃ e after, (fromJson Host.zeroed withoutData).run ⟨twoBytes, []⟩ = .error e after ∧
      Sound twoBytes ∧ ¬ Sound after.picture := by
  refine ⟨keyMissing, ⟨{ twoBytes with size := 9 }, []⟩, rfl, Or.inr ⟨[7, 8], rfl, rfl⟩, ?_⟩
  rintro (hnull | ⟨block, hlive, hlength⟩)
  · cases hnull
  · cases hlive
    cases hlength

end BeastServer.DecoderErrors
