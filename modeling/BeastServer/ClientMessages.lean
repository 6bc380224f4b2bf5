import BeastServer.DecodedPictures
import BeastServer.ServerSafety

/-!
The client library of the cameras: postPictures, DemoClient and HttpClient.
A picture is written as JSON and posted to the server on the same machine. The
server reads the JSON that has been written and makes the same picture of it, byte
for byte, so a picture of any size is posted by the request that is sent for it.
-/
namespace BeastServer.ClientMessages

open ByteStrings Exceptions HttpMessages JsonValues JsonTokens JsonParsers JsonSerializers
open JsonRoundTrips AcceptedTexts PostedPictures PictureJson
open DecoderBounds DecodedPictures
open Base64
open JsonApi (parseJson getPicture)
open ServerSafety

section Clients

structure HttpClient where
  host : Bytes
  port : UInt16
  target : Bytes

/-- The request that is written, with its fields. -/
structure Message where
  method : Verb
  target : Bytes
  version : ℕ
  host : Bytes
  userAgent : Bytes
  contentType : Bytes
  contentLength : ℕ
  body : Bytes

/-- What leaves a function of the client. -/
inductive Failure
  | exception (e : Exception)
  | network

/-- Resolving, connecting, writing and reading the response; none if one of them throws. -/
abbrev Network := HttpClient → Message → Option Response

def getClientAgent : Bytes := ascii "UNIS-WEB-CLIENT/1.0"

def httpVersion : ℕ := 11

namespace HttpClient

def message (mime data : Bytes) (client : HttpClient) : Message where
  method := .post
  target := client.target
  version := httpVersion
  host := client.host
  userAgent := getClientAgent
  contentType := mime
  contentLength := data.length
  body := data

def post (network : Network) (mime data : Bytes) (client : HttpClient) :
    Except Failure Response :=
  match network client (client.message mime data) with
  | some resp => .ok resp
  | none => .error .network

end HttpClient

structure DemoClient where
  server : Bytes
  port : UInt16

def DemoClient.post (host : Host) (network : Network) (path : Bytes) (json : Json)
    (client : DemoClient) : Except Failure Response :=
  match dump host json with
  | .ok text =>
    HttpClient.post network (ascii "application/json") text ⟨client.server, client.port, path⟩
  | .error e => .error (.exception e)

def postPictures (host : Host) (network : Network) (picture : PostPicture) : Int32 :=
  match DemoClient.post host network (ascii "/api/v1/realtime/preview/pictures")
    (toJson picture) ⟨ascii "127.0.0.1", 8088⟩ with
  | .ok _ => 0
  | .error _ => 1

/-- What the parser of the server reads: no field asks to close or to upgrade. -/
def Message.request (message : Message) : Request where
  method := message.method
  target := message.target
  version := message.version
  keepAlive := true
  upgradeFields := false
  body := message.body

def pictureClient : HttpClient :=
  ⟨ascii "127.0.0.1", 8088, ascii "/api/v1/realtime/preview/pictures"⟩

def pictureMessage (text : Bytes) : Message :=
  pictureClient.message (ascii "application/json") text

theorem postPictures_of_dump {host : Host} {picture : PostPicture} {text : Bytes}
    (network : Network) (h : dump host (toJson picture) = .ok text) :
    postPictures host network picture =
      if (network pictureClient (pictureMessage text)).isSome = true then 0 else 1 := by
  rw [postPictures, DemoClient.post, h]
  show (match HttpClient.post network (ascii "application/json") text pictureClient with
    | .ok _ => (0 : Int32)
    | .error _ => 1) = _
  rw [HttpClient.post, ← pictureMessage]
  cases network pictureClient (pictureMessage text) with
  | some resp => rfl
  | none => rfl

/-- The request in which the picture is posted. -/
def Sends (host : Host) (picture : PostPicture) (req : Request) : Prop :=
  ∃ text, dump host (toJson picture) = .ok text ∧ req = (pictureMessage text).request

end Clients

section Wire

variable {host : Host} {picture received : PostPicture} {bytes block : Bytes} {req : Request}

theorem isAscii_getData (h : picture.Holds bytes) : IsAscii (getData picture) := by
  intro c hc
  have hencoded := isEncoded_of_mem_getData h hc
  have hletters : IsAscii letters := by decide
  unfold isEncoded toSixBits at hencoded
  split at hencoded
  · rename_i hequal
    rw [hequal]
    decide
  · rw [Option.isSome_map, List.isSome_idxOf?] at hencoded
    exact hletters c hencoded

theorem sound_picture (h : picture.Holds bytes) : Sound (toJson picture) := by
  have hkeys : ∀ key ∈ ([ascii "camera", ascii "object", ascii "type", ascii "timestamp",
      ascii "width", ascii "height", ascii "size", ascii "data"] : List Bytes), IsAscii key := by
    decide
  simp only [List.forall_mem_cons] at hkeys
  obtain ⟨hcamera, hobject, htype, htimestamp, hwidth, hheight, hsize, hdata, -⟩ := hkeys
  have htypeName : IsAscii (getObjectType picture) := by
    unfold getObjectType
    split
    · decide
    · decide
  apply PreviewLists.sound_ofPairs
  simp only [List.forall_mem_cons]
  exact ⟨⟨hcamera, PreviewLists.sound_unsigned _⟩, ⟨hobject, PreviewLists.sound_unsigned _⟩,
    ⟨htype, PreviewLists.sound_string htypeName⟩, ⟨htimestamp, PreviewLists.sound_unsigned _⟩,
    ⟨hwidth, PreviewLists.sound_unsigned _⟩, ⟨hheight, PreviewLists.sound_unsigned _⟩,
    ⟨hsize, PreviewLists.sound_unsigned _⟩,
    ⟨hdata, PreviewLists.sound_string (isAscii_getData h)⟩, by simp⟩

/-- A picture is written, and the server reads the same JSON. -/
theorem parse_picture (hhost : RoundTrips host) (h : picture.Holds bytes) :
    ∃ text, dump host (toJson picture) = .ok text ∧ parseJson host text = .ok (toJson picture) := by
  obtain ⟨text, q, hdump, hparse⟩ := parse_dump hhost (sound_picture h).proper
  refine ⟨text, hdump, ?_⟩
  rw [parseJson, hparse]
  rfl

/-- The picture that the server makes of the JSON has the bytes of the client. -/
theorem getPicture_toJson (h : picture.Holds bytes)
    (hnew : host.operatorNew picture.size.toNat = some block) :
    getPicture host (toJson picture) = .ok { picture with data := .live bytes } := by
  have hall : ∀ c ∈ getData picture, isEncoded c = true :=
    fun c hc => isEncoded_of_mem_getData h hc
  have hcomplete : (([] : Bits).length + 6 * (getData picture).length) % 8 ≠ 6 := by
    rw [getData_length h, List.length_nil]
    omega
  obtain ⟨more, hmore⟩ := regroup_encodedBits_getData h
  obtain ⟨accesses, hcopy⟩ := @copy_ok ⟨{ picture with data := .live block }, []⟩
    (getData picture).length 0 0 [] false (getData picture) (Or.inl rfl) hall hcomplete
  have hblock : block.length = bytes.length := by
    rw [host.operatorNew_length _ _ hnew, h.length]
  have hdata : storeAll (.live block) 0 (bytes ++ more) = .live bytes := by
    rw [storeAll_live (Nat.zero_le _) (by rw [List.length_append]; omega), hblock]
    simp
  have hrun := parseData_ok hcopy
  rw [hmore, hdata] at hrun
  rw [getPicture, fromJson_run (declares_toJson host picture) hnew, hrun]

theorem posts_of_sends (hhost : RoundTrips host) (h : picture.Holds bytes)
    (hnew : host.operatorNew picture.size.toNat = some block) (hsends : Sends host picture req) :
    Posts host req { picture with data := .live bytes } := by
  obtain ⟨text, hdump, rfl⟩ := hsends
  obtain ⟨text', hdump', hparse⟩ := parse_picture hhost h
  obtain rfl := Except.ok.inj (hdump.symm.trans hdump')
  exact ⟨rfl, Or.inr rfl, toJson picture, hparse, getPicture_toJson h hnew⟩

/-- Every picture that holds its bytes can be sent. -/
theorem exists_sent (hhost : RoundTrips host) (h : picture.Holds bytes) :
    ∃ req, Sends host picture req := by
  obtain ⟨text, hdump, -⟩ := parse_picture hhost h
  exact ⟨_, text, hdump, rfl⟩

/-- The request that is sent is a plain one, and goes to the endpoint of the pictures. -/
theorem plain_of_sends (h : Sends host picture req) :
    req.isUpgrade = false ∧ 0 ∉ req.target := by
  obtain ⟨text, -, rfl⟩ := h
  exact ⟨rfl, (by decide : 0 ∉ ascii "/api/v1/realtime/preview/pictures")⟩

end Wire

end BeastServer.ClientMessages
