import BeastServer.DecodedPictures
import BeastServer.PicturePreviews

/-!
What a served picture shows of the memory of the server.
The block of a decoded picture is as long as its declared size, and the bytes
that the data string makes are stored at its front. The rest of the block keeps
what the memory held before, so two runs that differ in nothing but the memory
give the same bytes exactly when the data string makes enough of them.
-/
namespace BeastServer.DisclosedBytes

open ByteStrings Exceptions JsonValues PostedPictures Base64 Programs PictureJson DecoderBounds
open DecodedPictures PicturePreviews

/-- The hosts differ in nothing but their memory. -/
structure SameButMemory (host other : Host) : Prop where
  strtod : other.strtod = host.strtod
  toChars : other.toChars = host.toChars
  castUnsigned : other.castUnsigned = host.castUnsigned
  castUnsignedLong : other.castUnsignedLong = host.castUnsignedLong

/-- Two runs of from_json that accept the JSON make pictures of the same bytes,
whatever the new blocks held. -/
def FromJsonAlone (host : Host) (json : Json) : Prop :=
  ∀ other into into' decoded decoded', SameButMemory host other →
    (fromJson host json).run ⟨into, []⟩ = .ok ⟨⟩ decoded →
      (fromJson other json).run ⟨into', []⟩ = .ok ⟨⟩ decoded' →
        PictureView.ofPicture decoded.picture = PictureView.ofPicture decoded'.picture

/-- The data string makes at least as many bytes as the JSON declares. -/
def Filled (host : Host) (json : Json) : Prop :=
  ∀ size text, unsignedAt host json "size" = .ok size → stringAt json "data" = .ok text →
    size.toNat ≤ decodedLength text

section Hosts

variable {host other : Host} {json : Json}

theorem unsignedAt_same (h : SameButMemory host other) (key : String) :
    unsignedAt other json key = unsignedAt host json key := by
  unfold unsignedAt
  cases json.atKey (ascii key) with
  | error e => rfl
  | ok member =>
    show member.getUnsigned other = member.getUnsigned host
    cases member <;> simp [Json.getUnsigned, Host.toUnsigned, h.castUnsigned]

theorem unsignedLongAt_same (h : SameButMemory host other) (key : String) :
    unsignedLongAt other json key = unsignedLongAt host json key := by
  unfold unsignedLongAt
  cases json.atKey (ascii key) with
  | error e => rfl
  | ok member =>
    show member.getUnsignedLong other = member.getUnsignedLong host
    cases member <;> simp [Json.getUnsignedLong, Host.toUnsignedLong, h.castUnsignedLong]

theorem declares_same {declared : PostPicture} {text : Bytes} (h : SameButMemory host other)
    (hdeclares : Declares host json declared text) : Declares other json declared text where
  camera := (unsignedAt_same h "camera").trans hdeclares.camera
  width := (unsignedAt_same h "width").trans hdeclares.width
  height := (unsignedAt_same h "height").trans hdeclares.height
  object := (unsignedAt_same h "object").trans hdeclares.object
  timestamp := (unsignedLongAt_same h "timestamp").trans hdeclares.timestamp
  size := (unsignedAt_same h "size").trans hdeclares.size
  type := hdeclares.type
  data := hdeclares.data

/-- The same host with every byte of its free memory one greater. -/
def shifted (host : Host) : Host :=
  { host with
    operatorNew := fun size => (host.operatorNew size).map (List.map (· + 1))
    operatorNew_length := by
      intro size block h
      obtain ⟨before, hbefore, rfl⟩ := Option.map_eq_some_iff.mp h
      rw [List.length_map]
      exact host.operatorNew_length size before hbefore }

theorem same_shifted (host : Host) : SameButMemory host (shifted host) := ⟨rfl, rfl, rfl, rfl⟩

end Hosts

section Stored

/-- The bytes that the characters of a text make. -/
def decodedBytes (text : Bytes) : Bytes := (regroup 8 [] (encodedBits text)).1.map toByte

theorem encodedBits_length {text : Bytes} (hall : ∀ c ∈ text, isEncoded c = true) :
    (encodedBits text).length = 6 * text.length := by
  induction text with
  | nil => rfl
  | cons c rest ih =>
    obtain ⟨bits, hc⟩ := Option.isSome_iff_exists.mp (hall c List.mem_cons_self)
    have hsix := toSixBits_length hc
    have hrest := ih (fun d hd => hall d (List.mem_cons_of_mem c hd))
    have hbits : encodedBits (c :: rest) = bits ++ encodedBits rest := by
      simp [encodedBits, hc]
    rw [hbits, List.length_append, List.length_cons]
    omega

theorem decodedBytes_length {text : Bytes} (hall : ∀ c ∈ text, isEncoded c = true) :
    (decodedBytes text).length = decodedLength text := by
  have hgroups := @regroup_groups_length 8 [] (encodedBits text) (by omega) (by simp)
  rw [decodedBytes, List.length_map, hgroups, encodedBits_length hall, decodedLength,
    List.length_nil]
  omega

/-- Bytes that end within the block leave the rest of it as it was. -/
theorem storeAll_within {block bytes : Bytes} {index : ℕ}
    (hroom : index + bytes.length ≤ block.length) :
    storeAll (.live block) index bytes =
      .live (block.take index ++ bytes ++ block.drop (index + bytes.length)) := by
  induction bytes generalizing block index with
  | nil => simp [storeAll]
  | cons byte rest ih =>
    rw [List.length_cons] at hroom
    rw [storeAll, Buffer.store, ih (by rw [List.length_set]; omega), take_set_succ (by omega),
      List.drop_set_of_lt (by omega), List.length_cons]
    simp [Nat.add_comm, Nat.add_left_comm]

/-- All the block afterwards: the bytes at its front, then what it held before. -/
theorem storeAll_block (block bytes : Bytes) :
    storeAll (.live block) 0 bytes =
      .live ((bytes ++ block.drop bytes.length).take block.length) := by
  by_cases hroom : bytes.length ≤ block.length
  · have hlength : (bytes ++ block.drop bytes.length).length = block.length := by
      rw [List.length_append, List.length_drop]
      omega
    rw [storeAll_within (by omega), List.take_of_length_le hlength.le]
    simp
  · rw [storeAll_live (Nat.zero_le _) (by omega), List.drop_eq_nil_of_le (by omega)]
    simp

end Stored

section Accepted

variable {host : Host} {json : Json} {into declared : PostPicture} {text block : Bytes}
  {decoded : Decoding}

/-- A copy that returns has not begun a byte without finishing it. -/
theorem copy_returned_complete {s : Decoding} {length index position : ℕ} {held : Bits}
    {begun : Bool} {rest : Bytes} (hheld : Holding held.length begun)
    (h : returned (copy length held begun index position rest) s ≠ none) :
    (held.length + 6 * rest.length) % 8 ≠ 6 := by
  induction rest generalizing held begun index position s with
  | nil =>
    cases begun with
    | true => exact absurd (returned_error copy_past_end) h
    | false =>
      have hsmall : held.length = 0 ∨ held.length = 2 ∨ held.length = 4 := by
        simpa [Holding] using hheld
      rw [List.length_nil]
      omega
  | cons c rest ih =>
    cases hc : toSixBits c with
    | none => exact absurd (returned_error (copy_refused hc)) h
    | some bits =>
      have hsix := toSixBits_length hc
      rw [List.length_cons]
      by_cases hshort : held.length + bits.length < 8
      · rw [returned, copy_begun hc hshort, ← returned] at h
        have hrest := ih (holding_begun hheld hsix hshort) h
        rw [List.length_append] at hrest
        omega
      · rw [returned, copy_stored hc (by omega), ← returned] at h
        have hrest := ih (holding_stored hheld hsix (by omega)) h
        rw [List.length_drop, List.length_append] at hrest
        omega

/-- What a text must be like for from_json to accept it. -/
structure Decodes (text : Bytes) : Prop where
  letters : ∀ c ∈ text, isEncoded c = true
  complete : 6 * text.length % 8 ≠ 6

theorem decodes_of_copy {s : Decoding}
    (h : returned (copy text.length [] false 0 0 text) s ≠ none) : Decodes text where
  letters := by
    have hall : (text.takeWhile isEncoded).length = text.length := copy_returned h
    have hwhole : text.takeWhile isEncoded = text :=
      (List.takeWhile_sublist isEncoded).eq_of_length hall
    exact List.takeWhile_eq_self_iff.mp hwhole
  complete := by
    have hholding : Holding ([] : Bits).length false := Or.inl rfl
    simpa using copy_returned_complete hholding h

/-- from_json accepts the JSON exactly in this case. -/
theorem exists_of_accepted (h : (fromJson host json).run ⟨into, []⟩ = .ok ⟨⟩ decoded) :
    ∃ declared text block, Declares host json declared text ∧
      host.operatorNew declared.size.toNat = some block ∧ Decodes text := by
  by_contra hnone
  have hreturned : returned (fromJson host json) ⟨into, []⟩ ≠ none := by
    rw [returned_ok h]
    simp
  by_cases hread : ∃ declared text block, Declares host json declared text ∧
      host.operatorNew declared.size.toNat = some block
  · obtain ⟨declared, text, block, hdeclares, hnew⟩ := hread
    rw [returned, fromJson_run hdeclares hnew, ← returned, returned_parseData] at hreturned
    exact hnone ⟨declared, text, block, hdeclares, hnew, decodes_of_copy hreturned⟩
  · refine hreturned (fromJson_unread_returned ?_).2
    intro declared text block hdeclares hnew
    exact hread ⟨declared, text, block, hdeclares, hnew⟩

theorem fromJson_accepts (hdeclares : Declares host json declared text)
    (hnew : host.operatorNew declared.size.toNat = some block) (hdecodes : Decodes text) :
    ∃ decoded, (fromJson host json).run ⟨into, []⟩ = .ok ⟨⟩ decoded ∧
      PictureView.ofPicture decoded.picture =
        ⟨(decodedBytes text ++ block.drop (decodedBytes text).length).take
          declared.size.toNat⟩ := by
  have hholding : Holding ([] : Bits).length false := Or.inl rfl
  have hlength : block.length = declared.size.toNat := host.operatorNew_length _ _ hnew
  obtain ⟨accesses, hcopy⟩ := @copy_ok ⟨{ declared with data := .live block }, []⟩
    text.length 0 0 [] false text hholding hdecodes.letters (by simpa using hdecodes.complete)
  refine ⟨⟨{ declared with data := storeAll (.live block) 0 (decodedBytes text) }, accesses⟩,
    ?_, ?_⟩
  · rw [fromJson_run hdeclares hnew, parseData_ok hcopy, decodedBytes]
  · simp [PictureView.ofPicture, Buffer.bytes, storeAll_block, List.take_take, hlength]

/-- The view of an accepted picture, in the terms of the JSON and the block. -/
theorem view_of_accepted (h : (fromJson host json).run ⟨into, []⟩ = .ok ⟨⟩ decoded)
    (hdeclares : Declares host json declared text)
    (hnew : host.operatorNew declared.size.toNat = some block) (hdecodes : Decodes text) :
    PictureView.ofPicture decoded.picture =
      ⟨(decodedBytes text ++ block.drop (decodedBytes text).length).take
        declared.size.toNat⟩ := by
  obtain ⟨same, hrun, hview⟩ := @fromJson_accepts host json into declared text block hdeclares
    hnew hdecodes
  rw [h] at hrun
  obtain ⟨-, rfl⟩ := EStateM.Result.ok.inj hrun
  exact hview

theorem fromJsonAlone_of_filled (h : Filled host json) : FromJsonAlone host json := by
  intro other into into' decoded decoded' hsame hrun hrun'
  obtain ⟨declared, text, block, hdeclares, hnew, hdecodes⟩ := exists_of_accepted hrun
  obtain ⟨declared', text', block', hdeclares', hnew', hdecodes'⟩ := exists_of_accepted hrun'
  have hdeclares'' := declares_same hsame hdeclares
  have hsize : declared'.size = declared.size :=
    Except.ok.inj (hdeclares'.size.symm.trans hdeclares''.size)
  have htext : text' = text := Except.ok.inj (hdeclares'.data.symm.trans hdeclares.data)
  subst htext
  have henough : declared.size.toNat ≤ (decodedBytes text').length := by
    rw [decodedBytes_length hdecodes.letters]
    exact h _ _ hdeclares.size hdeclares.data
  rw [view_of_accepted hrun hdeclares hnew hdecodes,
    view_of_accepted hrun' hdeclares' hnew' hdecodes', hsize,
    List.take_append_of_le_length henough, List.take_append_of_le_length henough]

theorem filled_of_fromJsonAlone (hrun : (fromJson host json).run ⟨into, []⟩ = .ok ⟨⟩ decoded)
    (h : FromJsonAlone host json) : Filled host json := by
  intro size text hsize htext
  obtain ⟨declared, text', block, hdeclares, hnew, hdecodes⟩ := exists_of_accepted hrun
  obtain rfl : declared.size = size := Except.ok.inj (hdeclares.size.symm.trans hsize)
  obtain rfl : text' = text := Except.ok.inj (hdeclares.data.symm.trans htext)
  have hsame := same_shifted host
  have hnew' : (shifted host).operatorNew declared.size.toNat = some (block.map (· + 1)) := by
    simp [shifted, hnew]
  obtain ⟨decoded', hrun', hview'⟩ := @fromJson_accepts (shifted host) json into declared text' _
    (declares_same hsame hdeclares) hnew' hdecodes
  have hview := view_of_accepted hrun hdeclares hnew hdecodes
  have hequal := h (shifted host) into into decoded decoded' hsame hrun hrun'
  rw [hview, hview', PictureView.mk.injEq] at hequal
  have hlength : block.length = declared.size.toNat := host.operatorNew_length _ _ hnew
  rw [← decodedBytes_length hdecodes.letters]
  by_contra hshort
  have hin : (decodedBytes text').length < block.length := by omega
  have hbyte := congrArg (fun bytes => bytes[(decodedBytes text').length]?) hequal
  simp only [← hlength, List.getElem?_take, hin, if_true, List.getElem?_append_right le_rfl,
    Nat.sub_self, List.getElem?_drop, Nat.add_zero, List.getElem?_map,
    List.getElem?_eq_getElem hin, Option.map_some, Option.some.injEq] at hbyte
  have hnat := congrArg UInt8.toNat hbyte
  rw [UInt8.toNat_add] at hnat
  have := UInt8.toNat_lt block[(decodedBytes text').length]
  simp at hnat
  omega

end Accepted

/-- For every JSON that from_json accepts: its bytes are a function of the JSON
exactly when the data string makes at least as many as are declared. -/
theorem fromJsonAlone_iff_filled (host : Host) (json : Json) (into : PostPicture)
    (decoded : Decoding) (h : (fromJson host json).run ⟨into, []⟩ = .ok ⟨⟩ decoded) :
    FromJsonAlone host json ↔ Filled host json :=
  ⟨filled_of_fromJsonAlone h, fromJsonAlone_of_filled⟩

section Sample

/-- A face of the given size and data string, and nothing else. -/
def sizeAndData (size : UInt32) (data : String) : Json :=
  Json.ofPairs
    [(ascii "camera", Json.ofUnsigned 0), (ascii "object", Json.ofUnsigned 0),
      (ascii "type", .string (ascii "face")), (ascii "timestamp", .numberUnsigned 0),
      (ascii "width", Json.ofUnsigned 0), (ascii "height", Json.ofUnsigned 0),
      (ascii "size", Json.ofUnsigned size), (ascii "data", .string (ascii data))]

end Sample

theorem fromJsonAlone_iff_filled_two :
    FromJsonAlone Host.zeroed (sizeAndData 2 "AP8=") ↔
      Filled Host.zeroed (sizeAndData 2 "AP8=") :=
  fromJsonAlone_iff_filled Host.zeroed (sizeAndData 2 "AP8=") createPicture
    (finalState (fromJson Host.zeroed (sizeAndData 2 "AP8=")) ⟨createPicture, []⟩)
    (run_of_returned (by decide +kernel))

/-- One byte is declared and none is sent: what is served is what the memory
held before. -/
theorem memory_shown_by_empty_data : ¬ FromJsonAlone Host.zeroed (sizeAndData 1 "") := by
  intro h
  have hviews := h (shifted Host.zeroed) createPicture createPicture
    (finalState (fromJson Host.zeroed (sizeAndData 1 "")) ⟨createPicture, []⟩)
    (finalState (fromJson (shifted Host.zeroed) (sizeAndData 1 "")) ⟨createPicture, []⟩)
    (same_shifted Host.zeroed) (run_of_returned (by decide +kernel))
    (run_of_returned (by decide +kernel))
  exact absurd hviews (by decide +kernel)

end BeastServer.DisclosedBytes
