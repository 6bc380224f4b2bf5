import BeastServer.PreviewVisits
import BeastServer.StaticRequests

/-!
The responses to HEAD requests.
Only the file handler knows HEAD, and only for a file that it can open: then it
leaves out the body and keeps the rest of what a GET is answered. Its error
responses are the ones of GET, body included, and the other handlers answer a
HEAD with the error response for an unsupported method.
-/
namespace BeastServer.HeadResponses

open ByteStrings Exceptions Programs HttpMessages HttpSessions JsonValues JsonApi
open AnsweredRequests PreviewVisits StaticRequests

/-- The handlers that can be registered. -/
inductive Handler
  | json (func : HandlerFunction)
  | picture (lexical : LexicalConvert)
  | static (documentRoot : Bytes)

/-- A response that a handler enqueues for a request. -/
inductive Answers (host : Host) (fs : FileSystem) : Handler → Request → Response → Prop
  | json {func : HandlerFunction} {req : Request} {res : Response} {s t : ApiState}
      (hrun : (JsonApi.handleRequest host func req).run s = .ok ⟨⟩ t)
      (hsession : t.session = s.session.enqueue res) : Answers host fs (.json func) req res
  | picture {lexical : LexicalConvert} {req : Request} {res : Response} {s t : ApiState}
      (hrun : (PreviewVisits.handleRequest lexical host req).run s = .ok ⟨⟩ t)
      (hsession : t.session = s.session.enqueue res) : Answers host fs (.picture lexical) req res
  | static {documentRoot : Bytes} {rounds : ℕ} {req : Request} {res : Response} {s t : StaticState}
      (hrun : (StaticRequests.handleRequest fs documentRoot rounds req).run s = .ok ⟨⟩ t)
      (hsession : t.session = s.session.enqueue res) :
      Answers host fs (.static documentRoot) req res

/-- A HEAD request for the target is answered without a body, and by the file
handler otherwise as a GET request. -/
def HeadAgrees (host : Host) (fs : FileSystem) (handler : Handler) (target : Bytes) : Prop :=
  ∀ head res, head.method = .head → head.target = target → Answers host fs handler head res →
    res.body = [] ∧
      ∀ documentRoot, handler = .static documentRoot →
        ∀ get res', get.method = .get → get.target = target → Answers host fs handler get res' →
          res.status = res'.status ∧ res.contentType = res'.contentType ∧
            res.contentLength = res'.contentLength

/-- The handler is the one of files, and the target leads to a file that can be opened. -/
def Served (fs : FileSystem) (handler : Handler) (target : Bytes) : Prop :=
  ∃ documentRoot, handler = .static documentRoot ∧ ¬ Illegal target ∧
    ∀ file, LeadsTo fs (startPath documentRoot target) file →
      ∃ body, fs.openFile (cString file) = .ok body

def headRequest (target : Bytes) : Request := ⟨.head, target, 11, true, false, []⟩

section Bodies

variable {host : Host} {fs : FileSystem} {req : Request} {path : Bytes}

/-- The JSON handlers' response to a method that they do not support. -/
theorem unsupported_ok : ∃ res,
    createJsonBadRequest host req (ascii "Unsupported method.") = .ok res ∧ res.body ≠ [] := by
  have hwell : Utf8.WellFormed (ascii "Unsupported method.") :=
    Utf8.wellFormed_of_isAscii (by decide)
  obtain ⟨res, hres, -, hbody⟩ := @errorResponse_ok host req 400 _ hwell
  exact ⟨res, hres, hbody⟩

theorem refusal_body {res : Response} (h : refusal req = some res) : res.body ≠ [] := by
  unfold refusal at h
  split at h
  · obtain rfl := Option.some.inj h
    simp [createBadRequest, htmlResponse, Response.preparePayload, ascii]
  · split at h
    · obtain rfl := Option.some.inj h
      simp [createBadRequest, htmlResponse, Response.preparePayload, ascii]
    · cases h

theorem answer_head (hhead : req.method = .head) :
    (answer fs req path).body = [] ↔ ∃ body, fs.openFile (cString path) = .ok body := by
  unfold answer
  cases hopen : fs.openFile (cString path) with
  | ok body => simp [hhead, fileResponse]
  | error e =>
    cases e with
    | noSuchFile => simp [createNotFound, htmlResponse, Response.preparePayload, ascii]
    | other message => simp [createServerError, htmlResponse, Response.preparePayload, ascii]

end Bodies

section Static

variable {host : Host} {fs : FileSystem} {documentRoot : Bytes} {req : Request} {res : Response}

/-- What the file handler answers: a refusal, or the response for the path at
which the loop stops. -/
theorem answers_static_iff : Answers host fs (.static documentRoot) req res ↔
    refusal req = some res ∨ (refusal req = none ∧
      ∃ file, LeadsTo fs (startPath documentRoot req.target) file ∧ res = answer fs req file) := by
  constructor
  · intro h
    cases h with
    | @static _ rounds _ _ s t hrun hsession =>
      cases hrefusal : refusal req with
      | some refused =>
        rw [handleRequest_refused hrefusal] at hrun
        cases hrun
        exact Or.inl (congrArg some (enqueue_injective hsession))
      | none =>
        rw [handleRequest_served hrefusal] at hrun
        refine Or.inr ⟨rfl, ?_⟩
        cases hloop : (indexLoop fs rounds (startPath documentRoot req.target)).run s with
        | error e u =>
          rw [bind_error hloop] at hrun
          cases hrun
        | ok file u =>
          obtain ⟨hfile, hsame⟩ := leadsTo_of_indexLoop hloop
          rw [bind_ok hloop, serve_run] at hrun
          cases hrun
          rw [← hsame] at hsession
          exact ⟨file, hfile, (enqueue_injective hsession).symm⟩
  · intro h
    have idle : StaticState := ⟨[], HttpSession.run 0⟩
    rcases h with hrefused | ⟨hnone, file, hfile, rfl⟩
    · have hrun : (StaticRequests.handleRequest fs documentRoot 0 req).run idle = _ :=
        handleRequest_refused hrefused idle
      exact .static hrun rfl
    · obtain ⟨-, enough, stats, -, hloop⟩ :=
        @indexLoop_run fs _ file (fun _ => True) (fun _ _ => trivial) hfile trivial idle
      have hrun : (StaticRequests.handleRequest fs documentRoot enough req).run idle = _ :=
        (handleRequest_served hnone idle).trans
          ((bind_ok (hloop enough le_rfl)).trans (serve_run _))
      exact .static hrun rfl

theorem refusal_eq_none (hmethod : req.method = .get ∨ req.method = .head)
    (hlegal : ¬ Illegal req.target) : refusal req = none := by
  unfold refusal
  rw [if_neg (by tauto), if_neg hlegal]

theorem refusal_illegal (hmethod : req.method = .get ∨ req.method = .head)
    (hillegal : Illegal req.target) :
    refusal req = some (createBadRequest req (ascii "Illegal request-target")) := by
  unfold refusal
  rw [if_neg (by tauto), if_pos hillegal]

/-- The file handler agrees exactly on the targets that lead to a file. -/
theorem headAgrees_static_iff (target : Bytes) :
    HeadAgrees host fs (.static documentRoot) target ↔ ¬ Illegal target ∧
      ∀ file, LeadsTo fs (startPath documentRoot target) file →
        ∃ body, fs.openFile (cString file) = .ok body := by
  constructor
  · intro h
    have hbody : ∀ res, Answers host fs (.static documentRoot) (headRequest target) res →
        res.body = [] := fun res hres => (h (headRequest target) res rfl rfl hres).1
    have hlegal : ¬ Illegal target := by
      intro hillegal
      have hrefusal := @refusal_illegal (headRequest target) (Or.inr rfl) hillegal
      exact refusal_body hrefusal (hbody _ (answers_static_iff.mpr (Or.inl hrefusal)))
    refine ⟨hlegal, ?_⟩
    intro file hfile
    have hnone := @refusal_eq_none (headRequest target) (Or.inr rfl) hlegal
    have hanswer := hbody _ (answers_static_iff.mpr (Or.inr ⟨hnone, file, hfile, rfl⟩))
    exact (@answer_head fs (headRequest target) file rfl).mp hanswer
  · intro h head res hhead htarget hres
    obtain ⟨hlegal, hopen⟩ := h
    have hserved : ∀ req res, req.method = .get ∨ req.method = .head → req.target = target →
        Answers host fs (.static documentRoot) req res →
          ∃ file, LeadsTo fs (startPath documentRoot target) file ∧ res = answer fs req file := by
      intro req res hmethod htarget hres
      rcases answers_static_iff.mp hres with hrefused | ⟨-, file, hfile, hanswer⟩
      · rw [refusal_eq_none hmethod (htarget ▸ hlegal)] at hrefused
        cases hrefused
      · rw [htarget] at hfile
        exact ⟨file, hfile, hanswer⟩
    obtain ⟨file, hfile, rfl⟩ := hserved head res (Or.inr hhead) htarget hres
    obtain ⟨body, hbody⟩ := hopen file hfile
    refine ⟨(answer_head hhead).mpr ⟨body, hbody⟩, ?_⟩
    intro root _ get res' hget htarget' hres'
    obtain ⟨other, hother, rfl⟩ := hserved get res' (Or.inl hget) htarget' hres'
    obtain rfl := leadsTo_unique hfile hother
    simp only [answer, hbody, fileResponse, and_self]

end Static

section Others

variable {host : Host} {fs : FileSystem} {func : HandlerFunction} {lexical : LexicalConvert}
  {target : Bytes}

/-- A response with a body to a HEAD request. -/
theorem not_headAgrees {handler : Handler} {res : Response}
    (h : Answers host fs handler (headRequest target) res) (hbody : res.body ≠ []) :
    ¬ HeadAgrees host fs handler target :=
  fun hagrees => hbody (hagrees (headRequest target) res rfl rfl h).1

theorem not_headAgrees_json : ¬ HeadAgrees host fs (.json func) target := by
  obtain ⟨res, hres, hbody⟩ := @unsupported_ok host (headRequest target)
  have hrun : (JsonApi.handleRequest host func (headRequest target)).run freshServer =
      .ok ⟨⟩ { freshServer with session := freshServer.session.enqueue res } := by
    unfold JsonApi.handleRequest
    rw [if_pos ⟨nofun, nofun⟩, hres]
    rfl
  exact not_headAgrees (.json hrun rfl) hbody

theorem not_headAgrees_picture : ¬ HeadAgrees host fs (.picture lexical) target := by
  obtain ⟨res, hres, hbody⟩ := @unsupported_ok host (headRequest target)
  have hrun : (PreviewVisits.handleRequest lexical host (headRequest target)).run freshServer =
      .ok ⟨⟩ { freshServer with session := freshServer.session.enqueue res } := by
    unfold PreviewVisits.handleRequest
    rw [if_pos nofun, hres]
    rfl
  exact not_headAgrees (.picture hrun rfl) hbody

end Others

/-- HEAD agrees with GET exactly where the file handler has a file to serve. -/
theorem headAgrees_iff_served (host : Host) (fs : FileSystem) (handler : Handler)
    (target : Bytes) : HeadAgrees host fs handler target ↔ Served fs handler target := by
  cases handler with
  | json func =>
    refine iff_of_false not_headAgrees_json ?_
    intro hserved
    obtain ⟨documentRoot, hstatic, -⟩ := hserved
    cases hstatic
  | picture lexical =>
    refine iff_of_false not_headAgrees_picture ?_
    intro hserved
    obtain ⟨documentRoot, hstatic, -⟩ := hserved
    cases hstatic
  | static documentRoot =>
    rw [headAgrees_static_iff]
    constructor
    · intro h
      exact ⟨documentRoot, rfl, h⟩
    · intro hserved
      obtain ⟨root, hstatic, h⟩ := hserved
      cases hstatic
      exact h

/-- The file system without files. -/
def noFiles : FileSystem where
  isDirectory _ := false
  openFile _ := .error .noSuchFile

/-- HEAD of a missing file is answered with the text of the 404 response. -/
theorem head_missing_has_body :
    ¬ HeadAgrees Host.zeroed noFiles (.static (ascii "/srv")) (ascii "/missing") := by
  intro h
  have hnone : refusal (headRequest (ascii "/missing")) = none := by decide
  have hfile : LeadsTo noFiles (startPath (ascii "/srv") (ascii "/missing"))
      (ascii "/srv/missing") := .file rfl
  have hanswer := (h (headRequest (ascii "/missing")) _ rfl rfl
    (answers_static_iff.mpr (Or.inr ⟨hnone, _, hfile, rfl⟩))).1
  exact absurd hanswer (by decide)

end BeastServer.HeadResponses
