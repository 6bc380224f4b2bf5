import BeastServer.ByteStrings

/-!
HTTP requests and responses with string bodies, as far as the server reads and
writes them. Header fields that the server only passes to the HTTP library are
represented by what the library answers about them.
-/
namespace BeastServer.HttpMessages

open ByteStrings

inductive Verb
  | get
  | head
  | post
  | other (name : Bytes)
  deriving DecidableEq

structure Request where
  method : Verb
  target : Bytes
  version : ℕ
  /-- What keep_alive() answers. -/
  keepAlive : Bool
  /-- The Connection field has the token upgrade and the Upgrade field has websocket. -/
  upgradeFields : Bool
  body : Bytes
  deriving DecidableEq

/-- boost::beast::websocket::is_upgrade -/
def Request.isUpgrade (req : Request) : Bool :=
  decide (req.version ≥ 11) && decide (req.method = .get) && req.upgradeFields

structure Response where
  status : ℕ
  version : ℕ
  server : Bytes
  contentType : Bytes
  contentLength : Option ℕ
  /-- What keep_alive() answers. -/
  keepAlive : Bool
  body : Bytes
  deriving DecidableEq

namespace Response

/-- need_eof() of a response that is not chunked. -/
def needEof (res : Response) : Bool :=
  if res.status = 204 ∨ res.status = 304 ∨ res.status / 100 = 1 ∨ res.contentLength.isSome then
    !res.keepAlive
  else true

/-- prepare_payload() of a response with a string body. -/
def preparePayload (res : Response) : Response :=
  { res with contentLength := some res.body.length }

end Response

end BeastServer.HttpMessages
