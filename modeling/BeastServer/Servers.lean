import BeastServer.PreviewLists
import BeastServer.Routes
import BeastServer.SamplingRequests
import BeastServer.StaticRequests

/-!
The whole server between a request and its response.
The router picks one of the eight handlers that main registers. The endpoints of
JSON share JsonApiRequestHandler, which is stated here for functions on all of the
server's state; the other handlers are those of the earlier modules. A handler
returns, or an exception leaves it, or it does not end.
-/
namespace BeastServer.Servers

open ByteStrings Exceptions Programs HttpMessages HttpSessions JsonValues JsonParsers
open JsonApi hiding handleRequest send picPostHandler
open AnsweredRequests OkResponses PostedPictures PictureCaches PicturePreviews UriRouters
open PreviewVisits Samplings SamplingRequests StaticRequests

section States

/-- What stays the same as long as the server runs. The JSON library writes
doubles so that they can be read again, an argument of main has no NUL, and a
path that is longer than pathMax is no directory. -/
structure Platform where
  host : Host
  roundTrips : JsonTokens.RoundTrips host
  generator : StringGenerator
  lexical : LexicalConvert
  castInt : Double → Int32
  documentRoot : Bytes
  root_nul : 0 ∉ documentRoot
  pathMax : ℕ

/-- What a request meets: the clock, the generators, the order of a map, the
files, and the steps of the thread of a sampling that is stopped. -/
structure Moment (p : Platform) where
  post : ℕ
  created : ℤ
  now : ℤ
  order : List ObjectId
  random : Option Uuid
  time : ℤ
  fs : FileSystem
  bounded : ∀ path : Bytes, p.pathMax < path.length → fs.isDirectory path = false
  earlier : List UInt64

def Platform.circumstances (p : Platform) (m : Moment p) : Circumstances where
  host := p.host
  generator := p.generator
  post := m.post
  created := m.created
  now := m.now
  order := m.order
  random := m.random
  time := m.time

/-- The state that a handler works on; the session is that of its connection. -/
structure ServerState where
  cache : PictureCache
  previews : PicturePreviewHandler
  mock : SamplingMock
  accesses : List Access
  session : HttpSession

abbrev ServerProgram := Program Escape ServerState

namespace ServerState

def api (s : ServerState) : ApiState := ⟨s.cache, s.previews, s.session⟩

def setApi (a : ApiState) (s : ServerState) : ServerState :=
  { s with cache := a.cache, previews := a.previews, session := a.session }

def files (s : ServerState) : StaticState := ⟨s.accesses, s.session⟩

def setFiles (f : StaticState) (s : ServerState) : ServerState :=
  { s with accesses := f.accesses, session := f.session }

def setMock (mock : SamplingMock) (s : ServerState) : ServerState := { s with mock := mock }

def send (res : Response) (s : ServerState) : ServerState :=
  { s with session := s.session.enqueue res }

end ServerState

open ServerState

def onApi {α : Type} (x : ApiProgram α) : ServerProgram α :=
  EStateM.adaptExcept Escape.exception (within api setApi x)

def onFiles {α : Type} (x : StaticProgram α) : ServerProgram α :=
  EStateM.adaptExcept (fun _ => Escape.endless) (within files setFiles x)

def onMock {α : Type} (x : MockProgram α) : ServerProgram α :=
  within ServerState.mock setMock x

end States

section Handlers

/-- The response of the catch clauses to an exception, sent; a handler that does
not end has no exception. -/
def sendCaught (host : Host) (req : Request) : Escape → ServerProgram PUnit
  | .exception e => do modify (ServerState.send (← raise (caughtResponse host req e)))
  | .endless => throw .endless

/-- JsonApiRequestHandler::handleRequest -/
def handleRequest (host : Host) (func : Request → ServerProgram Json) (req : Request) :
    ServerProgram PUnit :=
  if req.method ≠ .get ∧ req.method ≠ .post then do
    modify (ServerState.send
      (← raise (createJsonBadRequest host req (ascii "Unsupported method."))))
  else
    tryCatch
      (do
        let json ← func req
        modify (ServerState.send (← raise (createJsonOkRequest host req json))))
      (sendCaught host req)

def reportStatus (lexical : LexicalConvert) (req : Request) : ServerProgram Json := do
  let s ← get
  onApi (SamplingStatus.samplingStatusHandler lexical s.mock req)

/-- The status of a sampling is asked for under the mutex, unless the id is zero. -/
def samplingStatusHandler (lexical : LexicalConvert) (req : Request) : ServerProgram Json :=
  if SamplingStatus.extracted lexical req = 0 then reportStatus lexical req
  else do
    onMock lock
    reportStatus lexical req

/-- The handlers that main registers. The rounds of the loop over index.html are
enough, as its path gets longer in each of them. -/
def handlerOf (p : Platform) (m : Moment p) : Endpoint → Request → ServerProgram PUnit
  | .version => handleRequest p.host (fun req => onApi (versionApiHandler req))
  | .samplingStart =>
    handleRequest p.host (fun req => onMock (samplingStartHandler p.castInt p.host m.earlier req))
  | .samplingStatus => handleRequest p.host (samplingStatusHandler p.lexical)
  | .samplingStop =>
    handleRequest p.host (fun req => onMock (samplingStopHandler p.host m.earlier req))
  | .picture => fun req => onApi (PreviewVisits.handleRequest p.lexical p.host req)
  | .pictures =>
    handleRequest p.host (fun req => onApi (JsonApi.picPostHandler (p.circumstances m) req))
  | .preview => handleRequest p.host (fun req => onApi (PreviewLists.picListHandler req))
  | .static => fun req =>
    onFiles (StaticRequests.handleRequest m.fs p.documentRoot (p.pathMax + 2) req)

/-- The router calls the handler that it finds; main registers one for every target. -/
def serve (p : Platform) (m : Moment p) (req : Request) : ServerProgram PUnit :=
  match resolve handlers req.target with
  | some endpoint => handlerOf p m endpoint req
  | none => pure ⟨⟩

end Handlers

section Programs

variable {α : Type} {s : ServerState} {host : Host} {req : Request}
  {func : Request → ServerProgram Json}

theorem onApi_ok {x : ApiProgram α} {a : α} {t : ApiState} (h : x.run s.api = .ok a t) :
    (onApi x).run s = .ok a (s.setApi t) := by
  rw [onApi, EStateM.run_adaptExcept, within_ok h]

theorem onApi_error {x : ApiProgram α} {e : Exception} {t : ApiState}
    (h : x.run s.api = .error e t) : (onApi x).run s = .error (.exception e) (s.setApi t) := by
  rw [onApi, EStateM.run_adaptExcept, within_error h]

/-- What is sent for a result of a function. -/
def responseTo (host : Host) (req : Request) : Except Exception Json → Except Exception Response
  | .ok json =>
    match createJsonOkRequest host req json with
    | .ok res => .ok res
    | .error e => caughtResponse host req e
  | .error e => caughtResponse host req e

/-- A response that can be built is sent; if it cannot, the exception escapes. -/
def sent (response : Except Exception Response) (s : ServerState) :
    EStateM.Result Escape ServerState PUnit :=
  match response with
  | .ok res => .ok ⟨⟩ (s.send res)
  | .error e => .error (.exception e) s

theorem run_send (response : Except Exception Response) (s : ServerState) :
    (do modify (ServerState.send (← raise response)) : ServerProgram PUnit).run s =
      sent response s := by
  cases response with
  | ok res => rfl
  | error e => rfl

theorem handleRequest_unsupported (hget : req.method ≠ .get) (hpost : req.method ≠ .post) :
    (handleRequest host func req).run s =
      sent (createJsonBadRequest host req (ascii "Unsupported method.")) s := by
  unfold handleRequest
  rw [if_pos ⟨hget, hpost⟩]
  exact run_send _ s

theorem handleRequest_ok {json : Json} {t : ServerState}
    (hmethod : req.method = .get ∨ req.method = .post) (h : (func req).run s = .ok json t) :
    (handleRequest host func req).run s = sent (responseTo host req (.ok json)) t := by
  unfold handleRequest
  rw [if_neg (by tauto)]
  cases hres : createJsonOkRequest host req json with
  | ok res =>
    have hrun : (do
        let json ← func req
        modify (ServerState.send (← raise (createJsonOkRequest host req json))) :
          ServerProgram PUnit).run s = .ok ⟨⟩ (t.send res) := by
      rw [bind_ok h, hres]
      rfl
    rw [tryCatch_ok hrun, responseTo, hres]
    rfl
  | error e =>
    have hrun : (do
        let json ← func req
        modify (ServerState.send (← raise (createJsonOkRequest host req json))) :
          ServerProgram PUnit).run s = .error (.exception e) t := by
      rw [bind_ok h, hres]
      rfl
    rw [tryCatch_error hrun, responseTo, hres]
    exact run_send _ t

theorem handleRequest_error {e : Exception} {t : ServerState}
    (hmethod : req.method = .get ∨ req.method = .post)
    (h : (func req).run s = .error (.exception e) t) :
    (handleRequest host func req).run s = sent (responseTo host req (.error e)) t := by
  unfold handleRequest
  rw [if_neg (by tauto), tryCatch_error (bind_error h)]
  exact run_send _ t

theorem handleRequest_endless {t : ServerState}
    (hmethod : req.method = .get ∨ req.method = .post)
    (h : (func req).run s = .error .endless t) :
    (handleRequest host func req).run s = .error .endless t := by
  unfold handleRequest
  rw [if_neg (by tauto), tryCatch_error (bind_error h)]
  rfl

/-- What the handler of the earlier modules does with a response. -/
theorem run_apiSend (response : Except Exception Response) (s : ServerState) (t : ApiState) :
    (onApi (do JsonApi.send (← ofExcept response))).run (s.setApi t) =
      sent response (s.setApi t) := by
  cases response with
  | ok res => rfl
  | error e => rfl

/-- A program on the state of the earlier modules, from a later state. -/
theorem onApi_run_setApi {x y : ApiProgram PUnit} {t : ApiState} (h : x.run s.api = y.run t) :
    (onApi x).run s = (onApi y).run (s.setApi t) := by
  have hput : ∀ u : ApiState, (s.setApi t).setApi u = s.setApi u := fun _ => rfl
  have hget : (s.setApi t).api = t := rfl
  cases hrun : y.run t with
  | ok a u =>
    rw [hrun] at h
    rw [onApi_ok h, onApi_ok (show y.run (s.setApi t).api = _ from hrun), hput]
  | error e u =>
    rw [hrun] at h
    rw [onApi_error h, onApi_error (show y.run (s.setApi t).api = _ from hrun), hput]

end Programs

end BeastServer.Servers
