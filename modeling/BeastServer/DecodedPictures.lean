import BeastServer.DecoderBounds

/-!
Decoding what was encoded.
A text of letters makes the bytes that its bits regroup into, stored one after
the other; the bits of an encoding begin with the bits of its data. What comes
after them is stored past the block, and the block holds the data.
-/
namespace BeastServer.DecodedPictures

open ByteStrings Exceptions JsonValues PostedPictures Base64 Programs PictureJson DecoderBounds

def storeAll (buffer : Buffer) (index : ℕ) : Bytes → Buffer
  | [] => buffer
  | byte :: rest => storeAll (buffer.store index byte) (index + 1) rest

/-- Stores past the end of the block miss it. -/
theorem storeAll_missed {block bytes : Bytes} {index : ℕ} (hindex : block.length ≤ index) :
    storeAll (.live block) index bytes = .live block := by
  induction bytes generalizing index with
  | nil => rfl
  | cons byte rest ih =>
    rw [storeAll, Buffer.store, List.set_eq_of_length_le hindex]
    exact ih (by omega)

theorem take_set_succ {block : Bytes} {index : ℕ} (hindex : index < block.length) (byte : UInt8) :
    (block.set index byte).take (index + 1) = block.take index ++ [byte] := by
  have hlength : index < (block.set index byte).length := by simpa using hindex
  rw [List.take_succ_eq_append_getElem hlength, List.getElem_set_self, List.take_set,
    List.set_eq_of_length_le (List.length_take_le _ _)]

/-- Enough bytes fill the rest of the block; the others miss it. -/
theorem storeAll_live {block bytes : Bytes} {index : ℕ} (hindex : index ≤ block.length)
    (henough : block.length ≤ index + bytes.length) :
    storeAll (.live block) index bytes =
      .live (block.take index ++ bytes.take (block.length - index)) := by
  by_cases hend : index = block.length
  · rw [storeAll_missed hend.ge, hend]
    simp
  · induction bytes generalizing block index with
    | nil =>
      rw [List.length_nil] at henough
      omega
    | cons byte rest ih =>
      rw [List.length_cons] at henough
      have hroom : block.length - index = block.length - (index + 1) + 1 := by omega
      rw [storeAll, Buffer.store, hroom, List.take_succ_cons]
      by_cases hlast : index + 1 = block.length
      · have hwhole : (block.set index byte).take (index + 1) = block.set index byte := by
          apply List.take_of_length_le
          rw [List.length_set]
          omega
        rw [storeAll_missed (by rw [List.length_set]; omega), ← hwhole, take_set_succ (by omega),
          hlast]
        simp
      · rw [ih (by rw [List.length_set]; omega) (by rw [List.length_set]; omega)
          (by rw [List.length_set]; exact hlast), take_set_succ (by omega), List.length_set]
        simp

section Copying

variable {s : Decoding} {length index position : ℕ} {held : Bits} {begun : Bool} {text rest : Bytes}

/-- A text of letters that completes its last byte is stored byte by byte. -/
theorem copy_ok (hheld : Holding held.length begun) (hall : ∀ c ∈ rest, isEncoded c = true)
    (hcomplete : (held.length + 6 * rest.length) % 8 ≠ 6) :
    ∃ accesses, (copy length held begun index position rest).run s = .ok ⟨⟩
      ⟨{ s.picture with
          data := storeAll s.picture.data index
            ((regroup 8 held (encodedBits rest)).1.map toByte) }, accesses⟩ := by
  induction rest generalizing held begun index position s with
  | nil =>
    cases begun with
    | false => exact ⟨s.accesses, rfl⟩
    | true =>
      have hsix : held.length = 6 := by simpa [Holding] using hheld
      simp [hsix] at hcomplete
  | cons c rest ih =>
    have hrest : ∀ d ∈ rest, isEncoded d = true :=
      fun d hd => hall d (List.mem_cons_of_mem c hd)
    obtain ⟨bits, hc⟩ := Option.isSome_iff_exists.mp (hall c List.mem_cons_self)
    have hsix := toSixBits_length hc
    have hbits : encodedBits (c :: rest) = bits ++ encodedBits rest := by
      simp [encodedBits, hc]
    rw [List.length_cons] at hcomplete
    rw [hbits, regroup_append]
    by_cases hshort : held.length + bits.length < 8
    · have hholding := holding_begun hheld hsix hshort
      rw [copy_begun hc hshort, regroup_short hshort]
      exact ih hholding hrest (by rw [List.length_append]; omega)
    · have hfull : 8 ≤ held.length + bits.length := by omega
      have hholding := holding_stored hheld hsix hfull
      have hone : regroup 8 held bits = ([(held ++ bits).take 8], (held ++ bits).drop 8) := by
        have hsmall := holding_le hheld
        apply regroup_full
        · omega
        · omega
        · omega
      rw [copy_stored hc hfull, hone]
      exact ih hholding hrest (by rw [List.length_drop, List.length_append]; omega)

end Copying

/-- Regrouping the bits of an encoding gives back its bytes first. -/
theorem regroup_encodedBits_getData {source : PostPicture} {bytes : Bytes}
    (h : source.Holds bytes) :
    ∃ more, (regroup 8 [] (encodedBits (getData source))).1.map toByte = bytes ++ more := by
  obtain ⟨fill, hfill⟩ := encodedBits_encode bytes
  have hbits : encodedBits (getData source) = bytes.flatMap byteBits ++
      (zeros fill ++ encodedBits (List.replicate ((3 - bytes.length % 3) % 3) equalSign)) := by
    rw [getData_eq h, encodedBits, List.flatMap_append, ← encodedBits, hfill, List.append_assoc]
    rfl
  have hback : (bytes.map byteBits).map toByte = bytes := by
    have hsame : ∀ byte ∈ bytes, (toByte ∘ byteBits) byte = byte :=
      fun byte _ => toByte_byteBits byte
    rw [List.map_map]
    exact (List.map_congr_left hsame).trans (List.map_id' bytes)
  rw [hbits, regroup_append, regroup_byteBits, List.map_append, hback]
  exact ⟨_, rfl⟩

/-- Decoding undoes encoding: from_json of what to_json wrote returns and gives
any picture the fields of the one that was written, and its bytes. -/
theorem fromJson_toJson (host : Host) (source into : PostPicture) (bytes block : Bytes)
    (h : source.Holds bytes) (hnew : host.operatorNew source.size.toNat = some block) :
    ∃ decoded accesses,
      (fromJson host (toJson source)).run ⟨into, []⟩ = .ok ⟨⟩ ⟨decoded, accesses⟩ ∧
        decoded.cameraId = source.cameraId ∧ decoded.objectId = source.objectId ∧
        decoded.objectType = source.objectType ∧ decoded.timestamp = source.timestamp ∧
        decoded.width = source.width ∧ decoded.height = source.height ∧
        decoded.size = source.size ∧
        decoded.data.bytes.take source.size.toNat = bytes ∧
        decoded.equal source = true := by
  have hholding : Holding ([] : Bits).length false := Or.inl rfl
  have hblock : block.length = bytes.length := by
    rw [host.operatorNew_length _ _ hnew, h.length]
  have hall : ∀ c ∈ getData source, isEncoded c = true :=
    fun c hc => isEncoded_of_mem_getData h hc
  have hcomplete : (([] : Bits).length + 6 * (getData source).length) % 8 ≠ 6 := by
    rw [getData_length h, List.length_nil]
    omega
  obtain ⟨more, hmore⟩ := regroup_encodedBits_getData h
  obtain ⟨accesses, hcopy⟩ := @copy_ok ⟨{ source with data := .live block }, []⟩
    (getData source).length 0 0 [] false (getData source) hholding hall hcomplete
  have hdata : storeAll (.live block) 0 (bytes ++ more) = .live bytes := by
    rw [storeAll_live (Nat.zero_le _) (by rw [List.length_append]; omega), hblock]
    simp
  have hlive : (Buffer.live bytes).bytes.take source.size.toNat = bytes :=
    List.take_of_length_le h.length.le
  refine ⟨{ source with data := .live bytes }, accesses, ?_, rfl, rfl, rfl, rfl, rfl, rfl, rfl,
    hlive, ?_⟩
  · rw [fromJson_run (declares_toJson host source) hnew, parseData_ok hcopy, hmore, hdata]
  · simp [PostPicture.equal, hlive, h.first]

/-- Every byte value and a size that is not a multiple of three. -/
theorem fromJson_toJson_two : ∃ decoded accesses,
    (fromJson Host.zeroed (toJson { createPicture with size := 2, data := .live [0, 255] })).run
        ⟨createPicture, []⟩ = .ok ⟨⟩ ⟨decoded, accesses⟩ ∧
      decoded.data.bytes.take 2 = [0, 255] := by
  obtain ⟨decoded, accesses, hrun, -, -, -, -, -, -, -, hbytes, -⟩ :=
    fromJson_toJson Host.zeroed { createPicture with size := 2, data := .live [0, 255] }
      createPicture [0, 255] [0, 0] ⟨by simp, rfl, rfl⟩ rfl
  exact ⟨decoded, accesses, hrun, hbytes⟩

end BeastServer.DecodedPictures
