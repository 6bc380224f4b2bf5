import BeastServer.HttpSessions
import BeastServer.JsonParsers
import BeastServer.JsonSerializers
import BeastServer.PictureJson
import BeastServer.PicturePreviews

/-!
The JSON endpoints: JsonApiRequestHandler and the handler of posted pictures.
A response is built by dumping a JSON object, so building it may throw; for the
responses of the catch clauses this happens outside of every try block. What a
call does not determine itself (the platform, the clock, the uuid generators,
the order of a map) is collected in Circumstances.
-/
namespace BeastServer.JsonApi

open ByteStrings Exceptions Programs HttpMessages HttpSessions JsonValues JsonParsers
open JsonSerializers PostedPictures PictureJson PictureCaches PicturePreviews

section Responses

def getServerSignature : Bytes := ascii "UNIS-WEB-SERVER/1.0"

/-- A response with a dumped JSON value as its body. -/
def jsonResponse (host : Host) (status : ℕ) (req : Request) (json : Json) :
    Except Exception Response := do
  let body ← dump host json
  let res : Response :=
    { status := status
      version := req.version
      server := getServerSignature
      contentType := ascii "application/json"
      contentLength := none
      keepAlive := req.keepAlive
      body := body }
  pure res.preparePayload

def createJsonOkRequest (host : Host) (req : Request) (json : Json) :
    Except Exception Response := do
  jsonResponse host 200 req (← json.emplace (ascii "ret") (.numberInteger 0))

def errorJson (error : Bytes) : Json :=
  Json.ofPairs [(ascii "ret", .numberInteger 1), (ascii "error", .string error)]

def createJsonBadRequest (host : Host) (req : Request) (why : Bytes) : Except Exception Response :=
  jsonResponse host 400 req (errorJson why)

def createJsonNotFound (host : Host) (req : Request) (target : Bytes) :
    Except Exception Response :=
  jsonResponse host 404 req (errorJson (target ++ ascii " not found"))

def createJsonServerError (host : Host) (req : Request) (what : Bytes) :
    Except Exception Response :=
  jsonResponse host 500 req (errorJson what)

end Responses

section Handlers

structure ApiState where
  cache : PictureCache
  previews : PicturePreviewHandler
  session : HttpSession

abbrev ApiProgram := Program Exception ApiState

abbrev HandlerFunction := Request → ApiProgram Json

def onCache {α : Type} (x : CacheProgram α) : ApiProgram α :=
  within ApiState.cache (fun cache s => { s with cache := cache }) x

def send (res : Response) : ApiProgram PUnit :=
  modify (fun s => { s with session := s.session.enqueue res })

def handleRequest (host : Host) (func : HandlerFunction) (req : Request) : ApiProgram PUnit :=
  if req.method ≠ .get ∧ req.method ≠ .post then do
    send (← ofExcept (createJsonBadRequest host req (ascii "Unsupported method.")))
  else
    tryCatch
      (do
        let json ← func req
        send (← ofExcept (createJsonOkRequest host req json)))
      (fun ex =>
        match ex with
        | .notFound _ => do send (← ofExcept (createJsonNotFound host req req.target))
        | ex => do send (← ofExcept (createJsonServerError host req ex.what)))

structure Circumstances where
  host : Host
  generator : StringGenerator
  /-- The identity and the construction time of the wrapper. -/
  post : ℕ
  created : ℤ
  /-- The clock reading of cleanup and the iteration order of process. -/
  now : ℤ
  order : List ObjectId
  /-- The random uuid and the time of a preview, if the call creates one. -/
  random : Option Uuid
  time : ℤ

/-- nlohmann::json::parse -/
def parseJson (host : Host) (text : Bytes) : Except Exception Json :=
  match parse host text with
  | .ok json _ => .ok json
  | .error e _ => .error e

/-- get_to into the new picture of the wrapper. -/
def getPicture (host : Host) (json : Json) : Except Exception PostPicture :=
  match (fromJson host json).run ⟨createPicture, []⟩ with
  | .ok _ decoded => .ok decoded.picture
  | .error e _ => .error e

def createPreview (c : Circumstances) (pvs : Pvs) : ApiProgram PUnit :=
  modify (fun s =>
    if pvs.isEmpty then s
    else
      { s with
        previews :=
          PicturePreviewHandler.createPreview c.generator c.random c.time (pictureViews pvs)
            s.previews })

/-- Both catch clauses of the source throw the text of the exception again. -/
def picPostHandler (c : Circumstances) : HandlerFunction := fun req =>
  tryCatch
    (do
      let json ← ofExcept (parseJson c.host req.body)
      let picture ← ofExcept (getPicture c.host json)
      let pvs ← onCache (addPicture ⟨⟨picture, c.created, c.post⟩, c.now, c.order⟩)
      createPreview c pvs
      pure .null)
    (fun err => throw (.runtimeError err.what))

end Handlers

end BeastServer.JsonApi
