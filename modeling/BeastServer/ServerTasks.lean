import BeastServer.Sections
import BeastServer.Servers

/-!
The handlers of the server, cut where other threads may come in between.
The members of PictureCache, PicturePreviewHandler and SamplingMock hold a mutex
for a part of their work each; a part is a section, and so is every access that
holds no mutex. The destructor of a sampling keeps the mutex from one section to
the next, and its join waits for the thread of the sampling.
-/
namespace BeastServer.ServerTasks

open ByteStrings Exceptions Programs HttpMessages HttpSessions JsonValues JsonParsers
open AnsweredRequests OkResponses PostedPictures PictureCaches GroupCompletion PicturePreviews
open PreviewVisits Samplings SamplingRequests StaticRequests UriRouters
open JsonApi hiding handleRequest send picPostHandler createPreview
open Sections Servers

section States

/-- What the handlers of all connections work on, and the requests that have been
read so far. -/
structure Shared where
  cache : PictureCache
  previews : PicturePreviewHandler
  mock : SamplingMock
  accesses : List Access
  arrived : List Request

namespace Shared

def setCache (cache : PictureCache) (s : Shared) : Shared := { s with cache := cache }

def setPreviews (previews : PicturePreviewHandler) (s : Shared) : Shared :=
  { s with previews := previews }

def setMock (mock : SamplingMock) (s : Shared) : Shared := { s with mock := mock }

def record (access : Access) (s : Shared) : Shared :=
  { s with accesses := s.accesses ++ [access] }

/-- What the handler of a connection sees. -/
def withSession (session : HttpSession) (s : Shared) : ServerState :=
  ⟨s.cache, s.previews, s.mock, s.accesses, session⟩

end Shared

abbrev HandlerTask (p : Platform) (α : Type) := Task Shared (Moment p) (Except Exception α)

variable {p : Platform} {α : Type}

def Always (_ : Moment p) (_ : Shared) : Prop := True

def onCache (x : Moment p → CacheProgram α) : HandlerTask p α :=
  execute Always (fun m => within Shared.cache Shared.setCache (x m))

def onPreviews (x : Moment p → HandlerProgram α) : HandlerTask p α :=
  execute Always (fun m => within Shared.previews Shared.setPreviews (x m))

/-- The catch clauses of a function. -/
def caught (clauses : Exception → Exception) (task : HandlerTask p α) : HandlerTask p α :=
  task.bind (fun r => .finished (r.mapError clauses))

end States

section Pictures

variable (p : Platform)

/-- PictureCache::addPicture up to the call of createPreview. -/
def addPicture (picture : PostPictureWrapper) : HandlerTask p Pvs :=
  (onCache (fun m => modify (cleanup m.now))).andThen fun _ =>
    (onCache (fun _ => addNewPic picture)).andThen fun _ =>
      execute (fun m s => IterationOrder s.cache m.order)
        (fun m => within Shared.cache Shared.setCache (process m.order))

/-- The id of a preview; the sequence number is read anew each time. -/
def chooseId (random : Option Uuid) : Task Shared (Moment p) Bytes :=
  match random with
  | some uuid => .finished uuid.toString
  | none =>
    (Task.atomic Always (fun _ s => (p.generator.parse (decimal s.previews.seq.toNat), s))).bind
      fun
      | some uuid => .finished uuid.toString
      | none => Task.atomic Always (fun _ s => (decimal s.previews.seq.toNat, s))

/-- PicturePreviewHandler::createPreview, if there is something to preview. -/
def createPreview (pvs : Pvs) : HandlerTask p PUnit :=
  if pvs.isEmpty then .finished (.ok ⟨⟩)
  else
    (Task.atomic Always (fun m s =>
      ((m.time, m.random), s.setPreviews (PicturePreviewHandler.nextSeq s.previews)))).bind
      fun now =>
        (chooseId p now.2).bind fun id =>
          Task.atomic Always (fun _ s =>
            (.ok ⟨⟩, s.setPreviews
              (PicturePreviewHandler.store id now.1 (pictureViews pvs) s.previews)))

/-- The moment m is that of the construction of the wrapper. -/
def picPostHandler (m : Moment p) (req : Request) : HandlerTask p Json :=
  caught (fun err => .runtimeError err.what)
    ((Task.finished (parseJson p.host req.body)).andThen fun json =>
      (Task.finished (getPicture p.host json)).andThen fun picture =>
        (addPicture p ⟨picture, m.created, m.post⟩).andThen fun pvs =>
          (createPreview p pvs).andThen fun _ => .finished (.ok .null))

def picListHandler (req : Request) : HandlerTask p Json :=
  (onPreviews (fun _ => PreviewPolls.picListHandler req.target)).andThen fun pics =>
    .finished (.ok (PreviewLists.listJson pics))

end Pictures

section Sampling

variable (p : Platform)

/-- samplingMutex is free. -/
def Free (_ : Moment p) (s : Shared) : Prop := s.mock.destroyed = none

/-- A step of the destructor, whose thread holds the mutex. -/
def CanDestroy (event : SamplingBlocks.Event) (_ : Moment p) (s : Shared) : Prop :=
  s.mock.destroyed.any (fun d => decide (SamplingBlocks.enabled d event)) = true

def destroyStep (event : SamplingBlocks.Event) (s : Shared) : Shared :=
  s.setMock (s.mock.runDestroyed event)

def joinThread : Task Shared (Moment p) Unit :=
  .enter (CanDestroy p .join) (fun _ => destroyStep .join) (fun _ _ => .finished ⟨⟩)

/-- The destructor of the sampling that is destroyed, if there is one. -/
def destroy (mock : SamplingMock) : Task Shared (Moment p) Unit :=
  if mock.destroyed.isSome = true then
    .enter (CanDestroy p .readRunning) (fun _ => destroyStep .readRunning) fun _ s =>
      if s.mock.destroyed.any (fun d => d.block.running) = true then
        .enter (CanDestroy p .clearRunning) (fun _ => destroyStep .clearRunning)
          (fun _ _ => joinThread p)
      else joinThread p
  else .finished ⟨⟩

/-- samplingStartHandler once the limits have been read. -/
def startSampling (limits : Int32 × Int32) : HandlerTask p Json :=
  (Task.atomic (Free p) (fun _ s => (s.mock.isRunning, s))).bind fun running =>
    if running = true then .finished (.error (.runtimeError (ascii "already running")))
    else
      (Task.atomic (Free p) (fun _ s =>
        (s.mock, s.setMock (s.mock.start limits.1 limits.2)))).bind fun mock =>
          (destroy p (mock.start limits.1 limits.2)).bind fun _ =>
            Task.atomic (Free p) (fun _ s => (reported s.mock mock.samplingId, s))

def samplingStartHandler (req : Request) : HandlerTask p Json :=
  (Task.finished (limitsOf p.castInt p.host req.body)).andThen (startSampling p)

/-- samplingStopHandler once the id has been read. -/
def stopSampling (id : UInt64) : HandlerTask p Json :=
  (Task.atomic (Free p) (fun _ s => (s.mock.stop id, s.setMock (s.mock.stop id)))).bind
    fun mock => (destroy p mock).bind fun _ => .finished (.ok .null)

def samplingStopHandler (req : Request) : HandlerTask p Json :=
  caught stopCaught ((Task.finished (idOf p.host req.body)).andThen (stopSampling p))

/-- The catch clause around getStatus names the target. -/
def statusCaught (req : Request) : Exception → Exception
  | .outOfRange _ => .notFound req.target
  | ex => ex

def samplingStatusHandler (req : Request) : HandlerTask p Json :=
  if SamplingStatus.extracted p.lexical req = 0 then
    .finished (.error (.runtimeError (ascii "invalid id format")))
  else
    caught (statusCaught req)
      (Task.atomic (Free p) (fun _ s =>
        (s.mock.statusOf (SamplingStatus.extracted p.lexical req) true, s)))

end Sampling

section Handlers

variable (p : Platform)

/-- JsonApiRequestHandler::handleRequest, with the response instead of its sending. -/
def handleRequest (func : Request → HandlerTask p Json) (req : Request) : HandlerTask p Response :=
  if req.method ≠ .get ∧ req.method ≠ .post then
    .finished (createJsonBadRequest p.host req (ascii "Unsupported method."))
  else (func req).bind (fun r => .finished (responseTo p.host req r))

/-- The function of the version endpoint. -/
def versionApiHandler (_ : Request) : HandlerTask p Json :=
  .finished (.ok (.string (ascii "\x7b\"ret\":0,\"version\":\"1.0\"\x7d")))

/-- PicturePreviewHandler::handleRequest -/
def pictureHandler (req : Request) : HandlerTask p Response :=
  if req.method ≠ .get then
    .finished (createJsonBadRequest p.host req (ascii "Unsupported method."))
  else
    (onPreviews (fun _ => visitPreview p.lexical p.host req)).bind fun
      | .ok res => .finished (.ok res)
      | .error ex => .finished (createJsonServerError p.host req ex.what)

/-- The files may change between two rounds; a loop that needs more rounds than
there are never ends. -/
def indexLoop : ℕ → Bytes → Task Shared (Moment p) Bytes
  | 0, path => .enter (fun _ _ => False) (fun _ s => s) (fun _ _ => .finished path)
  | rounds + 1, path =>
    .enter Always (fun _ s => s.record (.stat (cString path))) fun m _ =>
      if m.fs.isDirectory (cString path) = true then
        indexLoop rounds (path ++ ascii "/index.html")
      else .finished path

/-- StaticRequestHandler::handleRequest -/
def staticHandler (req : Request) : HandlerTask p Response :=
  if req.method ≠ .get ∧ req.method ≠ .head then
    .finished (.ok (createBadRequest req (ascii "Unsupported method.")))
  else if Illegal req.target then
    .finished (.ok (createBadRequest req (ascii "Illegal request-target")))
  else
    (indexLoop p (p.pathMax + 2) (startPath p.documentRoot req.target)).bind fun path =>
      Task.atomic Always (fun m s =>
        (.ok (answer m.fs req path), s.record (.openFile (cString path))))

/-- The handlers that main registers. -/
def handlerOf (m : Moment p) : Endpoint → Request → HandlerTask p Response
  | .version => handleRequest p (versionApiHandler p)
  | .samplingStart => handleRequest p (samplingStartHandler p)
  | .samplingStatus => handleRequest p (samplingStatusHandler p)
  | .samplingStop => handleRequest p (samplingStopHandler p)
  | .picture => pictureHandler p
  | .pictures => handleRequest p (picPostHandler p m)
  | .preview => handleRequest p (picListHandler p)
  | .static => staticHandler p

def routed (target : Bytes) : Endpoint := (resolve handlers target).getD .static

/-- What is left to do for a request that has just been read. -/
def serve (m : Moment p) (req : Request) : HandlerTask p Response :=
  handlerOf p m (routed req.target) req

end Handlers

end BeastServer.ServerTasks
