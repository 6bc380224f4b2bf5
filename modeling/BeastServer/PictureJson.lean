import BeastServer.Base64
import BeastServer.JsonValues
import BeastServer.PostedPictures
import BeastServer.Programs

/-!
The JSON of a posted picture: to_json and from_json.
The decoder is a program on the picture that also keeps a log of its accesses
to the data string and to the block it fills; the log is what a bounds checker
would see and nothing reads it. An exception leaves the picture as far as it
had been overwritten.
-/
namespace BeastServer.PictureJson

open ByteStrings Exceptions JsonValues PostedPictures Base64 Programs

inductive Access
  /-- An encoded character is read from a string of the given length. -/
  | read (index length : ℕ)
  /-- A byte is stored into a block of the given size. -/
  | store (index size : ℕ)
  deriving DecidableEq

def Access.InBounds : Access → Prop
  | read index length => index < length
  | store index size => index < size

instance (access : Access) : Decidable access.InBounds := by
  cases access <;> exact inferInstanceAs (Decidable (_ < _))

structure Decoding where
  picture : PostPicture
  accesses : List Access
  deriving DecidableEq

abbrev DecodingProgram := Program Exception Decoding

section Encoder

def getObjectType (picture : PostPicture) : Bytes :=
  if picture.objectType = .face then ascii "face" else ascii "body"

def getData (picture : PostPicture) : Bytes :=
  let size := picture.size.toNat
  encode (picture.data.bytes.take size) ++ List.replicate ((3 - size % 3) % 3) equalSign

def toJson (picture : PostPicture) : Json :=
  Json.ofPairs
    [(ascii "camera", Json.ofUnsigned picture.cameraId),
      (ascii "object", Json.ofUnsigned picture.objectId),
      (ascii "type", .string (getObjectType picture)),
      (ascii "timestamp", .numberUnsigned picture.timestamp),
      (ascii "width", Json.ofUnsigned picture.width),
      (ascii "height", Json.ofUnsigned picture.height),
      (ascii "size", Json.ofUnsigned picture.size),
      (ascii "data", .string (getData picture))]

end Encoder

section Decoder

def logAccess (access : Access) : DecodingProgram PUnit :=
  modify (fun s => { s with accesses := s.accesses ++ [access] })

def setPicture (change : PostPicture → PostPicture) : DecodingProgram PUnit :=
  modify (fun s => { s with picture := change s.picture })

/-- `*result = byte` for the given index of the block. -/
def storeByte (index : ℕ) (byte : UInt8) : DecodingProgram PUnit := do
  logAccess (.store index (← get).picture.size.toNat)
  setPicture (fun picture => { picture with data := picture.data.store index byte })

/-- std::copy through the iterator that makes bytes of six-bit values, with
the bits it holds. Between two bytes it compares with the end of the text; when
a byte has begun it pulls characters until it has eight bits, and at the end of
the text the next one is the terminator, which is no letter. -/
def copy (length : ℕ) (held : Bits) (begun : Bool) (index position : ℕ) :
    Bytes → DecodingProgram PUnit
  | [] =>
    if begun = true then do
      logAccess (.read position length)
      throw .invalidBase64Character
    else pure ⟨⟩
  | c :: rest => do
    logAccess (.read position length)
    match toSixBits c with
    | none => throw .invalidBase64Character
    | some bits =>
      if held.length + bits.length < 8 then
        copy length (held ++ bits) true index (position + 1) rest
      else do
        storeByte index (toByte ((held ++ bits).take 8))
        copy length ((held ++ bits).drop 8) false (index + 1) (position + 1) rest

def parseData (data : Bytes) : DecodingProgram PUnit :=
  tryCatch (copy data.length [] false 0 0 data) (fun err => throw (.runtimeError err.what))

def unsignedAt (host : Host) (json : Json) (key : String) : Except Exception UInt32 := do
  (← json.atKey (ascii key)).getUnsigned host

def unsignedLongAt (host : Host) (json : Json) (key : String) : Except Exception UInt64 := do
  (← json.atKey (ascii key)).getUnsignedLong host

def stringAt (json : Json) (key : String) : Except Exception Bytes := do
  (← json.atKey (ascii key)).getString

/-- A member is read and then assigned to a field. -/
def getTo {α : Type} (member : Except Exception α) (set : α → PostPicture → PostPicture) :
    DecodingProgram PUnit := do
  setPicture (set (← ofExcept member))

def allocate (host : Host) : DecodingProgram PUnit := do
  setPicture (fun picture => { picture with data := picture.data.delete })
  match host.operatorNew (← get).picture.size.toNat with
  | none => throw .badAlloc
  | some block => setPicture (fun picture => { picture with data := .live block })

def fromJson (host : Host) (json : Json) : DecodingProgram PUnit := do
  getTo (unsignedAt host json "camera") (fun n picture => { picture with cameraId := n })
  getTo (unsignedAt host json "width") (fun n picture => { picture with width := n })
  getTo (unsignedAt host json "height") (fun n picture => { picture with height := n })
  getTo (unsignedAt host json "object") (fun n picture => { picture with objectId := n })
  getTo (unsignedLongAt host json "timestamp") (fun n picture => { picture with timestamp := n })
  getTo (unsignedAt host json "size") (fun n picture => { picture with size := n })
  getTo (stringAt json "type") (fun typeName picture =>
    { picture with objectType := if typeName = ascii "face" then .face else .body })
  let encodedData ← ofExcept (stringAt json "data")
  allocate host
  parseData encodedData

section Runs

variable {s : Decoding} {host : Host} {json : Json}

@[simp] theorem logAccess_run (access : Access) :
    (logAccess access).run s = .ok ⟨⟩ { s with accesses := s.accesses ++ [access] } := rfl

@[simp] theorem setPicture_run (change : PostPicture → PostPicture) :
    (setPicture change).run s = .ok ⟨⟩ { s with picture := change s.picture } := rfl

@[simp] theorem storeByte_run (index : ℕ) (byte : UInt8) :
    (storeByte index byte).run s = .ok ⟨⟩
      { picture := { s.picture with data := s.picture.data.store index byte }
        accesses := s.accesses ++ [.store index s.picture.size.toNat] } := rfl

theorem getTo_ok {α : Type} {a : α} {member : Except Exception α}
    {set : α → PostPicture → PostPicture} (h : member = .ok a) :
    (getTo member set).run s = .ok ⟨⟩ { s with picture := set a s.picture } := by
  rw [h]
  rfl

theorem getTo_error {α : Type} {e : Exception} {member : Except Exception α}
    {set : α → PostPicture → PostPicture} (h : member = .error e) :
    (getTo member set).run s = .error e s := by
  rw [h]
  rfl

variable {length index position : ℕ} {held bits : Bits} {begun : Bool} {c : UInt8}
  {rest : Bytes}

theorem copy_end :
    (copy length held false index position []).run s = .ok ⟨⟩ s := rfl

theorem copy_past_end :
    (copy length held true index position []).run s =
      .error .invalidBase64Character
        { s with accesses := s.accesses ++ [.read position length] } := rfl

theorem copy_refused (h : toSixBits c = none) :
    (copy length held begun index position (c :: rest)).run s =
      .error .invalidBase64Character
        { s with accesses := s.accesses ++ [.read position length] } := by
  rw [copy, bind_ok (logAccess_run _), h]
  rfl

theorem copy_begun (h : toSixBits c = some bits) (hshort : held.length + bits.length < 8) :
    (copy length held begun index position (c :: rest)).run s =
      (copy length (held ++ bits) true index (position + 1) rest).run
        { s with accesses := s.accesses ++ [.read position length] } := by
  rw [copy, bind_ok (logAccess_run _), h]
  show EStateM.run (if _ then _ else _) _ = _
  rw [if_pos hshort]

theorem copy_stored (h : toSixBits c = some bits) (hfull : 8 ≤ held.length + bits.length) :
    (copy length held begun index position (c :: rest)).run s =
      (copy length ((held ++ bits).drop 8) false (index + 1) (position + 1) rest).run
        { picture :=
            { s.picture with
              data := s.picture.data.store index (toByte ((held ++ bits).take 8)) }
          accesses :=
            s.accesses ++ [.read position length] ++ [.store index s.picture.size.toNat] } := by
  rw [copy, bind_ok (logAccess_run _), h]
  show EStateM.run (if _ then _ else _) _ = _
  rw [if_neg (by omega), bind_ok (storeByte_run _ _)]

/-- The members of the JSON say what the fields of the picture are, and the
text is its data string. -/
structure Declares (host : Host) (json : Json) (picture : PostPicture) (text : Bytes) : Prop where
  camera : unsignedAt host json "camera" = .ok picture.cameraId
  width : unsignedAt host json "width" = .ok picture.width
  height : unsignedAt host json "height" = .ok picture.height
  object : unsignedAt host json "object" = .ok picture.objectId
  timestamp : unsignedLongAt host json "timestamp" = .ok picture.timestamp
  size : unsignedAt host json "size" = .ok picture.size
  type : ∃ typeName, stringAt json "type" = .ok typeName ∧
    picture.objectType = if typeName = ascii "face" then .face else .body
  data : stringAt json "data" = .ok text

variable {declared : PostPicture} {text block : Bytes}

/-- What to_json writes declares the picture it was written from. -/
theorem declares_toJson (host : Host) (picture : PostPicture) :
    Declares host (toJson picture) picture (getData picture) where
  camera := Json.getUnsigned_ofUnsigned host picture.cameraId
  width := Json.getUnsigned_ofUnsigned host picture.width
  height := Json.getUnsigned_ofUnsigned host picture.height
  object := Json.getUnsigned_ofUnsigned host picture.objectId
  timestamp := rfl
  size := Json.getUnsigned_ofUnsigned host picture.size
  type := by
    refine ⟨getObjectType picture, rfl, ?_⟩
    unfold getObjectType
    cases picture.objectType <;> rfl
  data := rfl

theorem allocate_ok (h : host.operatorNew s.picture.size.toNat = some block) :
    (allocate host).run s =
      .ok ⟨⟩ { s with picture := { s.picture with data := .live block } } := by
  unfold allocate
  rw [bind_ok (setPicture_run _), bind_ok (EStateM.run_get _)]
  simp only [h, setPicture_run]

theorem allocate_fails (h : host.operatorNew s.picture.size.toNat = none) :
    (allocate host).run s =
      .error .badAlloc { s with picture := { s.picture with data := s.picture.data.delete } } := by
  unfold allocate
  rw [bind_ok (setPicture_run _), bind_ok (EStateM.run_get _)]
  simp only [h, run_throw]

/-- When all members are there the decoder runs on the new block. -/
theorem fromJson_run (h : Declares host json declared text)
    (hnew : host.operatorNew declared.size.toNat = some block) :
    (fromJson host json).run s =
      (parseData text).run { s with picture := { declared with data := .live block } } := by
  obtain ⟨typeName, htype, hface⟩ := h.type
  unfold fromJson
  rw [bind_ok (getTo_ok h.camera), bind_ok (getTo_ok h.width), bind_ok (getTo_ok h.height),
    bind_ok (getTo_ok h.object), bind_ok (getTo_ok h.timestamp), bind_ok (getTo_ok h.size),
    bind_ok (getTo_ok htype), h.data, bind_ok (run_ofExcept_ok _ _), bind_ok (allocate_ok hnew),
    ← hface]

/-- The handler of parseData changes the exception and nothing else. -/
theorem parseData_ok {t : Decoding} (h : (copy text.length [] false 0 0 text).run s = .ok ⟨⟩ t) :
    (parseData text).run s = .ok ⟨⟩ t :=
  tryCatch_ok h

theorem parseData_error {t : Decoding} {e : Exception}
    (h : (copy text.length [] false 0 0 text).run s = .error e t) :
    (parseData text).run s = .error (.runtimeError e.what) t :=
  tryCatch_error h

theorem finalState_parseData :
    finalState (parseData text) s = finalState (copy text.length [] false 0 0 text) s := by
  cases hrun : (copy text.length [] false 0 0 text).run s with
  | ok u t => rw [finalState_ok (parseData_ok hrun), finalState_ok hrun]
  | error e t => rw [finalState_error (parseData_error hrun), finalState_error hrun]

theorem returned_parseData :
    returned (parseData text) s = returned (copy text.length [] false 0 0 text) s := by
  cases hrun : (copy text.length [] false 0 0 text).run s with
  | ok u t => rw [returned_ok (parseData_ok hrun), returned_ok hrun]
  | error e t => rw [returned_error (parseData_error hrun), returned_error hrun]

section Behaviour

variable {γ : Type} {view : PostPicture → γ} {thrown : Exception → Prop}

/-- Decoding the data string changes the picture by storing bytes and in no
other way. -/
theorem behaves_copy
    (hview : ∀ picture index byte,
      view { picture with data := picture.data.store index byte } = view picture)
    (hthrown : thrown .invalidBase64Character)
    (length : ℕ) (held : Bits) (begun : Bool) (index position : ℕ) (text : Bytes) :
    Behaves (fun s => view s.picture) thrown (copy length held begun index position text) := by
  have hlog : ∀ access, Behaves (fun s => view s.picture) thrown (logAccess access) :=
    fun access => behaves_modify (fun _ => rfl)
  induction text generalizing held begun index position with
  | nil =>
    rw [copy]
    split
    · apply behaves_bind (hlog _)
      intro _
      exact behaves_throw hthrown
    · exact behaves_pure _
  | cons c rest ih =>
    rw [copy]
    apply behaves_bind (hlog _)
    intro _
    cases toSixBits c with
    | none => exact behaves_throw hthrown
    | some bits =>
      show Behaves _ _ (if _ then _ else _)
      split
      · exact ih _ _ _ _
      · apply behaves_bind
        · apply behaves_bind behaves_get
          intro s
          apply behaves_bind (hlog _)
          intro _
          exact behaves_modify (fun t => hview t.picture _ _)
        · intro _
          exact ih _ _ _ _

theorem behaves_parseData
    (hview : ∀ picture index byte,
      view { picture with data := picture.data.store index byte } = view picture)
    (hthrown : thrown .invalidBase64Character)
    (hagain : ∀ e, thrown e → thrown (.runtimeError e.what)) (text : Bytes) :
    Behaves (fun s => view s.picture) thrown (parseData text) := by
  apply behaves_tryCatch (behaves_copy hview hthrown _ _ _ _ _ _)
  intro e he
  exact behaves_throw (hagain e he)

end Behaviour

/-- The program throws without an access to the data. -/
def ThrowsUnread (x : DecodingProgram PUnit) (s : Decoding) : Prop :=
  ∃ e picture, x.run s = .error e { s with picture := picture }

private theorem throwsUnread_getTo {α : Type} {member : Except Exception α}
    {set : α → PostPicture → PostPicture} {f : PUnit → DecodingProgram PUnit}
    (h : ∀ a, member = .ok a → ThrowsUnread (f ⟨⟩) { s with picture := set a s.picture }) :
    ThrowsUnread (getTo member set >>= f) s := by
  cases hmember : member with
  | error e => exact ⟨e, s.picture, bind_error (getTo_error rfl)⟩
  | ok a =>
    obtain ⟨e, picture, hrun⟩ := h a hmember
    exact ⟨e, picture, (bind_ok (getTo_ok rfl)).trans hrun⟩

/-- When a member is missing or of another type, or no block can be had,
from_json throws before it decodes anything. -/
theorem fromJson_unread
    (h : ∀ declared text block, Declares host json declared text →
      host.operatorNew declared.size.toNat ≠ some block) :
    ThrowsUnread (fromJson host json) s := by
  unfold fromJson
  apply throwsUnread_getTo
  intro camera hcamera
  apply throwsUnread_getTo
  intro width hwidth
  apply throwsUnread_getTo
  intro height hheight
  apply throwsUnread_getTo
  intro object hobject
  apply throwsUnread_getTo
  intro timestamp htimestamp
  apply throwsUnread_getTo
  intro size hsize
  apply throwsUnread_getTo
  intro typeName htype
  cases hdata : stringAt json "data" with
  | error e => exact ⟨e, _, bind_error (run_ofExcept_error _ _)⟩
  | ok text =>
    have hnone : host.operatorNew size.toNat = none := by
      apply Option.eq_none_iff_forall_ne_some.mpr
      intro block
      exact h ⟨camera, object, _, timestamp, width, height, size, .null⟩ text block
        ⟨hcamera, hwidth, hheight, hobject, htimestamp, hsize, ⟨typeName, htype, rfl⟩, hdata⟩
    exact ⟨.badAlloc, _, (bind_ok (run_ofExcept_ok _ _)).trans (bind_error (allocate_fails hnone))⟩

end Runs

end Decoder

end BeastServer.PictureJson
