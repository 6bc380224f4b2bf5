import BeastServer.JsonApi
import BeastServer.Paths

/-!
The handler of files: StaticRequestHandler.
The path is the document root followed by the target, and index.html is appended
as long as the path is a directory. The file system answers stat and open, and
the paths that it is asked about are recorded. The loop is cut off after a number
of rounds, which the source does not do.
-/
namespace BeastServer.StaticRequests

open ByteStrings Programs HttpMessages HttpSessions Paths
open JsonApi (getServerSignature)

section FileSystems

inductive OpenError
  | noSuchFile
  | other (message : Bytes)
  deriving DecidableEq

structure FileSystem where
  /-- stat succeeds, and the path is a directory. -/
  isDirectory : Bytes → Bool
  /-- The bytes of the file, or why it cannot be opened. -/
  openFile : Bytes → Except OpenError Bytes

inductive Access
  | stat (path : Bytes)
  | openFile (path : Bytes)
  deriving DecidableEq

def Access.path : Access → Bytes
  | stat path => path
  | openFile path => path

structure StaticState where
  accesses : List Access
  session : HttpSession

inductive OutOfRounds
  | outOfRounds

abbrev StaticProgram := Program OutOfRounds StaticState

/-- What the system reads of c_str(). -/
def cString (text : Bytes) : Bytes := text.takeWhile (fun c => decide (c ≠ 0))

def record (access : Access) : StaticProgram PUnit :=
  modify (fun s => { s with accesses := s.accesses ++ [access] })

/-- utils::isDirectory -/
def isDirectory (fs : FileSystem) (path : Bytes) : StaticProgram Bool := do
  record (.stat (cString path))
  pure (fs.isDirectory (cString path))

/-- file_body::value_type::open -/
def openBody (fs : FileSystem) (path : Bytes) : StaticProgram (Except OpenError Bytes) := do
  record (.openFile (cString path))
  pure (fs.openFile (cString path))

def send (res : Response) : StaticProgram PUnit :=
  modify (fun s => { s with session := s.session.enqueue res })

end FileSystems

section Responses

def dot : UInt8 := 46

/-- boost::beast::iequals -/
def iequals (a b : Bytes) : Bool :=
  let lower (c : UInt8) : UInt8 := if 65 ≤ c ∧ c ≤ 90 then c + 32 else c
  a.map lower == b.map lower

def mimeTypes : List (Bytes × Bytes) :=
  [(ascii ".htm", ascii "text/html"), (ascii ".html", ascii "text/html"),
    (ascii ".css", ascii "text/css"), (ascii ".txt", ascii "text/plain"),
    (ascii ".js", ascii "application/javascript"), (ascii ".json", ascii "application/json"),
    (ascii ".xml", ascii "application/xml"), (ascii ".png", ascii "image/png"),
    (ascii ".jpe", ascii "image/jpeg"), (ascii ".jpeg", ascii "image/jpeg"),
    (ascii ".jpg", ascii "image/jpeg"), (ascii ".gif", ascii "image/gif"),
    (ascii ".bmp", ascii "image/bmp"), (ascii ".ico", ascii "image/vnd.microsoft.icon"),
    (ascii ".tiff", ascii "image/tiff"), (ascii ".tif", ascii "image/tiff"),
    (ascii ".svg", ascii "image/svg+xml"), (ascii ".svgz", ascii "image/svg+xml")]

/-- The path from its last dot on. -/
def extension (path : Bytes) : Bytes :=
  if dot ∈ path then dot :: (path.reverse.takeWhile (fun c => decide (c ≠ dot))).reverse else []

def getMimeType (path : Bytes) : Bytes :=
  match mimeTypes.find? (fun entry => iequals (extension path) entry.1) with
  | some entry => entry.2
  | none => ascii "application/data"

def htmlResponse (status : ℕ) (req : Request) (body : Bytes) : Response :=
  let res : Response :=
    { status := status
      version := req.version
      server := getServerSignature
      contentType := ascii "text/html"
      contentLength := none
      keepAlive := req.keepAlive
      body := body }
  res.preparePayload

def createBadRequest (req : Request) (why : Bytes) : Response := htmlResponse 400 req why

def createNotFound (req : Request) (target : Bytes) : Response :=
  htmlResponse 404 req (ascii "The resource '" ++ target ++ ascii "' was not found.")

def createServerError (req : Request) (what : Bytes) : Response :=
  htmlResponse 500 req (ascii "An error occurred: '" ++ what ++ ascii "'")

/-- The response with the length of the file and some of its bytes: none or all. -/
def fileResponse (req : Request) (path : Bytes) (size : ℕ) (body : Bytes) : Response where
  status := 200
  version := req.version
  server := getServerSignature
  contentType := getMimeType path
  contentLength := some size
  keepAlive := req.keepAlive
  body := body

end Responses

section Handler

/-- boost::string_view::find -/
def find (needle text : Bytes) : Option ℕ := text.tails.findIdx? needle.isPrefixOf

/-- The targets that are refused. -/
def Illegal (target : Bytes) : Prop :=
  target = [] ∨ target.head? ≠ some slash ∨ find (ascii "..") target ≠ none

instance decidableIllegal (target : Bytes) : Decidable (Illegal target) :=
  inferInstanceAs (Decidable (_ ∨ _ ∨ _))

def pathConcat (base path : Bytes) : Bytes :=
  if base = [] then path else withoutLast slash base ++ path

/-- The path before the loop. -/
def startPath (documentRoot target : Bytes) : Bytes :=
  let path := pathConcat documentRoot target
  if target.getLast? = some slash then path ++ ascii "index.html" else path

def indexLoop (fs : FileSystem) : ℕ → Bytes → StaticProgram Bytes
  | 0, _ => throw .outOfRounds
  | rounds + 1, path => do
    if (← isDirectory fs path) = true then indexLoop fs rounds (path ++ ascii "/index.html")
    else pure path

/-- The part of handleRequest after the loop. -/
def serve (fs : FileSystem) (req : Request) (path : Bytes) : StaticProgram PUnit := do
  match ← openBody fs path with
  | .error .noSuchFile => send (createNotFound req req.target)
  | .error (.other message) => send (createServerError req message)
  | .ok body =>
    let size := body.length
    if req.method = .head then send (fileResponse req path size [])
    else send (fileResponse req path size body)

/-- StaticRequestHandler::handleRequest -/
def handleRequest (fs : FileSystem) (documentRoot : Bytes) (rounds : ℕ) (req : Request) :
    StaticProgram PUnit :=
  if req.method ≠ .get ∧ req.method ≠ .head then
    send (createBadRequest req (ascii "Unsupported method."))
  else if Illegal req.target then send (createBadRequest req (ascii "Illegal request-target"))
  else do
    let path ← indexLoop fs rounds (startPath documentRoot req.target)
    serve fs req path

end Handler

section Loop

variable {fs : FileSystem} {path file : Bytes}

/-- Where the loop stops. -/
inductive LeadsTo (fs : FileSystem) : Bytes → Bytes → Prop
  | file {path : Bytes} (h : fs.isDirectory (cString path) = false) : LeadsTo fs path path
  | directory {path file : Bytes} (h : fs.isDirectory (cString path) = true)
      (hindex : LeadsTo fs (path ++ ascii "/index.html") file) : LeadsTo fs path file

theorem leadsTo_unique {other : Bytes} (h : LeadsTo fs path file) (hother : LeadsTo fs path other) :
    file = other := by
  induction h with
  | file hfile =>
    cases hother with
    | file _ => rfl
    | directory hdirectory _ =>
      rw [hfile] at hdirectory
      cases hdirectory
  | directory hdirectory _ ih =>
    cases hother with
    | file hfile =>
      rw [hdirectory] at hfile
      cases hfile
    | directory _ hindex => exact ih hindex

theorem isDirectory_run (s : StaticState) :
    (isDirectory fs path).run s =
      .ok (fs.isDirectory (cString path)) ⟨s.accesses ++ [.stat (cString path)], s.session⟩ := rfl

theorem indexLoop_file {rounds : ℕ} (h : fs.isDirectory (cString path) = false)
    (s : StaticState) :
    (indexLoop fs (rounds + 1) path).run s =
      .ok path ⟨s.accesses ++ [.stat (cString path)], s.session⟩ := by
  rw [indexLoop, bind_ok (isDirectory_run s), h, if_neg Bool.false_ne_true]
  rfl

theorem indexLoop_directory {rounds : ℕ} (h : fs.isDirectory (cString path) = true)
    (s : StaticState) :
    (indexLoop fs (rounds + 1) path).run s =
      (indexLoop fs rounds (path ++ ascii "/index.html")).run
        ⟨s.accesses ++ [.stat (cString path)], s.session⟩ := by
  rw [indexLoop, bind_ok (isDirectory_run s), h, if_pos rfl]

/-- Rule for the loop: what appending index.html preserves holds of every path
that is looked at and of the path at which the loop stops. -/
theorem indexLoop_run {I : Bytes → Prop} (hI : ∀ p, I p → I (p ++ ascii "/index.html"))
    (h : LeadsTo fs path file) (hpath : I path) (s : StaticState) :
    I file ∧ ∃ enough stats,
      (∀ access ∈ stats, ∃ p, I p ∧ access = Access.stat (cString p)) ∧
        ∀ rounds, enough ≤ rounds → (indexLoop fs rounds path).run s =
          .ok file ⟨s.accesses ++ stats, s.session⟩ := by
  induction h generalizing s with
  | @file path h =>
    refine ⟨hpath, 1, [.stat (cString path)], ?_, ?_⟩
    · intro access haccess
      exact ⟨path, hpath, List.mem_singleton.mp haccess⟩
    · intro rounds hrounds
      obtain ⟨before, rfl⟩ := Nat.exists_eq_add_of_le' hrounds
      exact indexLoop_file h s
  | @directory path file h hindex ih =>
    obtain ⟨hfile, enough, stats, hstats, hrun⟩ :=
      ih (hI path hpath) ⟨s.accesses ++ [.stat (cString path)], s.session⟩
    refine ⟨hfile, enough + 1, .stat (cString path) :: stats, ?_, ?_⟩
    · intro access haccess
      rcases List.mem_cons.mp haccess with rfl | hmem
      · exact ⟨path, hpath, rfl⟩
      · exact hstats access hmem
    · intro rounds hrounds
      obtain ⟨before, rfl⟩ := Nat.exists_eq_add_of_le' (show 1 ≤ rounds by omega)
      rw [indexLoop_directory h, hrun before (by omega), List.append_assoc]
      rfl

/-- A loop that returns has found the path to which its path leads. -/
theorem leadsTo_of_indexLoop {rounds : ℕ} {s t : StaticState}
    (h : (indexLoop fs rounds path).run s = .ok file t) :
    LeadsTo fs path file ∧ t.session = s.session := by
  induction rounds generalizing path s with
  | zero => cases h
  | succ rounds ih =>
    cases hdirectory : fs.isDirectory (cString path) with
    | false =>
      rw [indexLoop_file hdirectory] at h
      cases h
      exact ⟨.file hdirectory, rfl⟩
    | true =>
      rw [indexLoop_directory hdirectory] at h
      obtain ⟨hindex, hsession⟩ := ih h
      exact ⟨.directory hdirectory hindex, hsession⟩

end Loop

section Serving

variable {fs : FileSystem} {documentRoot path file : Bytes} {req : Request}

/-- The response of serve. -/
def answer (fs : FileSystem) (req : Request) (path : Bytes) : Response :=
  match fs.openFile (cString path) with
  | .error .noSuchFile => createNotFound req req.target
  | .error (.other message) => createServerError req message
  | .ok body => fileResponse req path body.length (if req.method = .head then [] else body)

theorem serve_run (s : StaticState) :
    (serve fs req path).run s =
      .ok ⟨⟩
        ⟨s.accesses ++ [.openFile (cString path)], s.session.enqueue (answer fs req path)⟩ := by
  have hopen : (openBody fs path).run s = .ok (fs.openFile (cString path))
      ⟨s.accesses ++ [.openFile (cString path)], s.session⟩ := rfl
  unfold serve answer
  rw [bind_ok hopen]
  cases fs.openFile (cString path) with
  | error e =>
    cases e with
    | noSuchFile => rfl
    | other message => rfl
  | ok body =>
    by_cases hhead : req.method = .head
    · simp only [hhead, if_true]
      rfl
    · simp only [hhead, if_false]
      rfl

/-- What handleRequest answers without looking at the file system. -/
def refusal (req : Request) : Option Response :=
  if req.method ≠ .get ∧ req.method ≠ .head then
    some (createBadRequest req (ascii "Unsupported method."))
  else if Illegal req.target then some (createBadRequest req (ascii "Illegal request-target"))
  else none

theorem handleRequest_refused {rounds : ℕ} {res : Response} (h : refusal req = some res)
    (s : StaticState) :
    (handleRequest fs documentRoot rounds req).run s =
      .ok ⟨⟩ ⟨s.accesses, s.session.enqueue res⟩ := by
  unfold refusal at h
  unfold handleRequest
  split at h
  · rename_i hmethod
    obtain rfl := Option.some.inj h
    rw [if_pos hmethod]
    rfl
  · rename_i hmethod
    rw [if_neg hmethod]
    split at h
    · rename_i hillegal
      obtain rfl := Option.some.inj h
      rw [if_pos hillegal]
      rfl
    · cases h

theorem handleRequest_served {rounds : ℕ} (h : refusal req = none) (s : StaticState) :
    (handleRequest fs documentRoot rounds req).run s =
      (indexLoop fs rounds (startPath documentRoot req.target) >>= serve fs req).run s := by
  unfold refusal at h
  unfold handleRequest
  split at h
  · cases h
  · rename_i hmethod
    split at h
    · cases h
    · rename_i hlegal
      rw [if_neg hmethod, if_neg hlegal]

end Serving

end BeastServer.StaticRequests
