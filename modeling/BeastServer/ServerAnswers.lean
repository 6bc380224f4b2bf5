import BeastServer.DisclosedBytes
import BeastServer.Schedules

/-!
What the clients of the server can rely on, whatever the others do.
Each request is answered once, in the order of its connection and within the
contract of its endpoint; a picture that is shown has been posted before; no file
outside of the document root is touched; and a request outside of the samplings
needs a bounded number of sections, none of which waits. The server stays up until a
peer has gone too early, or the response to a body with unreadable bytes cannot be
built.
-/
namespace BeastServer.ServerAnswers

open ByteStrings Exceptions JsonValues JsonParsers PostedPictures PictureJson HttpMessages
open HttpSessions HttpPipelines Machines UriRouters AnsweredRequests
open DecodedPictures DisclosedBytes PicturePreviews Schedules
open JsonApi (parseJson getPicture)
open ContainedPaths (getDocs)
open HttpListeners (Outcome)
open OkResponses (versionRequest)
open PreviewLists (listRequest)
open Sections ApiContracts ServerSafety ServerProgress ServerRuns
open Servers hiding handleRequest samplingStatusHandler handlerOf serve
open ServerTasks hiding addPicture

variable {p : Platform} {inputs : List (Event p)} {s : Server p} {c : ℕ} {conn : Connection p}
  {event : Event p}

section Samples

def docsPath : Bytes := ascii "/tmp/docs"

def indexPath : Bytes := ascii "/tmp/docs/index.html"

/-- What is left to do for a directory once its path has been followed so far. -/
def docsTask (rounds : ℕ) (path : Bytes) : HandlerTask bitsPlatform Response :=
  (ServerTasks.indexLoop bitsPlatform rounds path).bind fun path =>
    Task.atomic Always (fun m s =>
      (.ok (StaticRequests.answer m.fs getDocs path),
        s.record (.openFile (StaticRequests.cString path))))

def openTask : HandlerTask bitsPlatform Response :=
  Task.atomic Always (fun m s =>
    (.ok (StaticRequests.answer m.fs getDocs indexPath), s.record (.openFile indexPath)))

theorem serve_getDocs (m : Moment bitsPlatform) :
    serve bitsPlatform m getDocs = docsTask 18 docsPath := by
  have hrouted : routed getDocs.target = .static := by decide +kernel
  have hmethod : ¬ (getDocs.method ≠ .get ∧ getDocs.method ≠ .head) := by decide
  have hlegal : ¬ StaticRequests.Illegal getDocs.target := by decide
  have hpath : StaticRequests.startPath bitsPlatform.documentRoot getDocs.target = docsPath := by
    decide
  rw [serve, hrouted]
  show staticHandler bitsPlatform getDocs = docsTask 18 docsPath
  rw [staticHandler, if_neg hmethod, if_neg hlegal, hpath]
  rfl

theorem ready_docsTask (rounds : ℕ) (path : Bytes) (shared : Shared) :
    (docsTask (rounds + 1) path).Ready docsMoment shared :=
  Task.ready_bind (trivial : (ServerTasks.indexLoop bitsPlatform (rounds + 1) path).Ready _ _)

theorem advance_indexLoop (m : Moment p) (rounds : ℕ) (path : Bytes) (shared : Shared) :
    (ServerTasks.indexLoop p (rounds + 1) path).advance m shared =
      (shared.record (.stat (StaticRequests.cString path)),
        if m.fs.isDirectory (StaticRequests.cString path) = true then
          ServerTasks.indexLoop p rounds (path ++ ascii "/index.html")
        else .finished path) := rfl

theorem advance_docs (rounds : ℕ) (shared : Shared) :
    (docsTask (rounds + 1) docsPath).advance docsMoment shared =
      (shared.record (.stat docsPath), docsTask rounds indexPath) := by
  have hpath : StaticRequests.cString docsPath = docsPath := by decide
  have hdirectory : docsMoment.fs.isDirectory docsPath = true := by decide
  have hnext : docsPath ++ ascii "/index.html" = indexPath := by decide
  have hready : (ServerTasks.indexLoop bitsPlatform (rounds + 1) docsPath).Ready docsMoment
    shared := trivial
  rw [docsTask, Task.advance_bind hready, advance_indexLoop, hpath, if_pos hdirectory, hnext]
  rfl

theorem advance_index (rounds : ℕ) (shared : Shared) :
    (docsTask (rounds + 1) indexPath).advance docsMoment shared =
      (shared.record (.stat indexPath), openTask) := by
  have hpath : StaticRequests.cString indexPath = indexPath := by decide
  have hfile : ¬ docsMoment.fs.isDirectory indexPath = true := by decide
  have hready : (ServerTasks.indexLoop bitsPlatform (rounds + 1) indexPath).Ready docsMoment
    shared := trivial
  rw [docsTask, Task.advance_bind hready, advance_indexLoop, hpath, if_neg hfile]
  show (_, Task.atomic Always _) = _
  rw [hpath]
  rfl

theorem serve_version (m : Moment bitsPlatform) :
    ∃ res, serve bitsPlatform m versionRequest = .finished (.ok res) := by
  have hrouted : routed versionRequest.target = .version := by decide +kernel
  have hmethod : ¬ (versionRequest.method ≠ .get ∧ versionRequest.method ≠ .post) := by decide
  obtain ⟨res, hres, -⟩ := @responseTo_returned bitsPlatform.host versionRequest _
    bitsPlatform.roundTrips (.string (ascii "\x7b\"ret\":0,\"version\":\"1.0\"\x7d"))
  refine ⟨res, ?_⟩
  rw [serve, hrouted]
  show handleRequest bitsPlatform (versionApiHandler bitsPlatform) versionRequest = _
  rw [handleRequest, if_neg hmethod, ← hres]
  rfl

/-- The list of a server without previews. -/
theorem advance_list (m : Moment bitsPlatform) {shared : Shared}
    (h : shared.previews = PicturePreviewHandler.make 30) :
    ∃ update rest res, serve bitsPlatform m listRequest = .enter Always update rest ∧
      (serve bitsPlatform m listRequest).advance m shared = (shared, .finished (.ok res)) := by
  have hrouted : routed listRequest.target = .preview := by decide +kernel
  have hmethod : ¬ (listRequest.method ≠ .get ∧ listRequest.method ≠ .post) := by decide
  have hempty : (PreviewPolls.picListHandler listRequest.target).run shared.previews =
      .ok [] shared.previews := by
    rw [h]
    rfl
  obtain ⟨res, hres, -⟩ := @responseTo_returned bitsPlatform.host listRequest _
    bitsPlatform.roundTrips (@writable_listJson [] (by simp))
  have hlist : serve bitsPlatform m listRequest =
      (picListHandler bitsPlatform listRequest).bind
        (fun r => .finished (responseTo bitsPlatform.host listRequest r)) := by
    rw [serve, hrouted]
    show handleRequest bitsPlatform (picListHandler bitsPlatform) listRequest = _
    rw [handleRequest, if_neg hmethod]
  have hadvance : (onPreviews (fun _ : Moment bitsPlatform =>
      PreviewPolls.picListHandler listRequest.target)).advance m shared =
        (shared, .finished (.ok [])) := by
    show ((attempt _ shared).2, Task.finished (attempt _ shared).1) = _
    rw [attempt_within, attempt_ok hempty]
    rfl
  have hready : (onPreviews (fun _ : Moment bitsPlatform =>
      PreviewPolls.picListHandler listRequest.target)).Ready m shared := trivial
  refine ⟨_, _, res, by rw [hlist]; rfl, ?_⟩
  rw [hlist, picListHandler, Task.andThen, Task.advance_bind (Task.ready_bind hready),
    Task.advance_bind hready, hadvance, ← hres]
  rfl

/-- Two clients connect; one asks for a directory, the other one for the list. -/
def bothAsked : List (Event bitsPlatform) :=
  [.accept 0 client 0, .accept 1 client 0, .receive 0 getDocs docsMoment,
    .receive 1 listRequest docsMoment]

def docsConnection (task : HandlerTask bitsPlatform Response) : Connection bitsPlatform :=
  ⟨0, HttpSession.run 0, some ⟨getDocs, task⟩, []⟩

def listConnection (task : HandlerTask bitsPlatform Response) : Connection bitsPlatform :=
  ⟨0, HttpSession.run 0, some ⟨listRequest, task⟩, []⟩

theorem leads_bothAsked : ∃ s, Leads bothAsked s ∧ s.shared.accesses = [] ∧
    s.shared.previews = PicturePreviewHandler.make 30 ∧
      s.connections 0 = some (docsConnection (docsTask 18 docsPath)) ∧
        s.connections 1 = some (listConnection (serve bitsPlatform docsMoment listRequest)) := by
  have hfirst := (@leads_nil bitsPlatform).accept 0 Nat.one_pos rfl
  have hsecond := hfirst.accept 1 Nat.one_pos rfl
  have hdocs := hsecond.receive (c := 0) docsMoment (serve_getDocs docsMoment) rfl rfl Nat.one_pos
    rfl (by decide)
  have hlist := hdocs.receive (c := 1) docsMoment
    (Eq.refl (serve bitsPlatform docsMoment listRequest)) rfl rfl Nat.one_pos rfl (by decide)
  exact ⟨_, hlist, rfl, rfl, rfl, rfl⟩

/-- Between the sections of the first client, the second one gets its list and
sends its next request without waiting for it to be written. -/
def docsSections : List (Event bitsPlatform) :=
  [.advance 0 docsMoment, .advance 1 docsMoment, .respond 1 1,
    .receive 1 versionRequest docsMoment, .advance 0 docsMoment, .respond 1 2,
    .advance 0 docsMoment]

/-- The first client has its file, and sends its next request. -/
def bothAnswered : List (Event bitsPlatform) :=
  bothAsked ++ docsSections ++ [.respond 0 3, .receive 0 listRequest docsMoment]

theorem leads_docsSections : ∃ s res second, Leads (bothAsked ++ docsSections) s ∧
    s.shared.accesses = [.stat docsPath, .stat indexPath, .openFile indexPath] ∧
    s.connections 0 = some (docsConnection (.finished (.ok res))) ∧
      s.connections 1 = some second ∧ second.working = none := by
  obtain ⟨s, hasked, hnone, hprevious, hdocs, hlist⟩ := leads_bothAsked
  have hdirectory := hasked.advance docsMoment (advance_docs 17 s.shared) hdocs rfl
    (ready_docsTask 17 docsPath _)
  obtain ⟨update, rest, list, hserve, hlisted⟩ := @advance_list docsMoment
    (s.shared.record (.stat docsPath)) hprevious
  have hready : (serve bitsPlatform docsMoment listRequest).Ready docsMoment
      (s.shared.record (.stat docsPath)) := by
    rw [hserve]
    exact trivial
  have hsection := hdirectory.advance docsMoment hlisted
    ((setConnection_other (by decide)).trans hlist) rfl hready
  have hresponded := hsection.respond 1 setConnection_same rfl
  obtain ⟨version, hversion⟩ := serve_version docsMoment
  have hreceived := hresponded.receive docsMoment hversion setConnection_same rfl Nat.one_pos rfl
    (by decide)
  have hindex := hreceived.advance (c := 0) docsMoment (advance_index 16 _) rfl rfl
    (ready_docsTask 16 indexPath _)
  have hanswered := hindex.respond (c := 1) 2 rfl rfl
  have hopened := hanswered.advance (c := 0) docsMoment
    (Eq.refl (openTask.advance docsMoment _)) rfl rfl trivial
  refine ⟨_, _, _, hopened, ?_, rfl, rfl, rfl⟩
  show s.shared.accesses ++ [.stat docsPath] ++ [.stat indexPath] ++ [.openFile indexPath] = _
  rw [hnone]
  rfl

theorem leads_bothAnswered : ∃ s first second, Leads bothAnswered s ∧
    s.connections 0 = some first ∧ first.working.map Work.request = some listRequest ∧
      s.connections 1 = some second ∧ second.working = none := by
  obtain ⟨s, res, second, hdocs, -, hfirst, hsecond, hidle⟩ := leads_docsSections
  have hresponded := hdocs.respond 3 hfirst rfl
  have hreceived := hresponded.receive docsMoment
    (Eq.refl (serve bitsPlatform docsMoment listRequest)) setConnection_same rfl Nat.one_pos rfl
    (by decide)
  rw [List.append_assoc] at hreceived
  have hother : (s.setConnection 0 ((docsConnection (.finished (.ok res))).respond getDocs res
      3)).connections 1 = some second := (setConnection_other (by decide)).trans hsecond
  exact ⟨_, _, second, hreceived, setConnection_same, rfl,
    (setConnection_other (by decide)).trans hother, hidle⟩

end Samples

section Order

/-- The requests that are read on a connection. -/
def requestsAt (c : ℕ) (inputs : List (Event p)) : List Request :=
  inputs.filterMap (fun event =>
    match event with
    | .receive other req _ => if other = c then some req else none
    | _ => none)

/-- The requests that have been answered, with their responses. -/
def answered (conn : Connection p) : List Exchange :=
  (received conn.history).filter (fun exchange => !exchange.request.isUpgrade)

def inHand (conn : Connection p) : List Request := (conn.working.map Work.request).toList

/-- Whatever has been read on a connection has been answered, but for the request
that it works on. -/
def InOrder (inputs : List (Event p)) (s : Server p) : Prop :=
  ∀ c, requestsAt c inputs =
    (s.connections c).elim [] (fun conn => (answered conn).map Exchange.request ++ inHand conn)

theorem requestsAt_append (c : ℕ) (first second : List (Event p)) :
    requestsAt c (first ++ second) = requestsAt c first ++ requestsAt c second := by
  simp [requestsAt]

theorem requestsAt_receive {other : ℕ} {req : Request} {m : Moment p} :
    requestsAt c [.receive other req m] = if other = c then [req] else [] := by
  by_cases hother : other = c
  · simp [requestsAt, hother]
  · simp [requestsAt, hother]

theorem answered_complete {event : HttpSessions.Event} (h : isRequest event = false) :
    answered (conn.complete event) = answered conn := by
  have hnone : (received [event]).filter (fun exchange => !exchange.request.isUpgrade) = [] := by
    rw [List.filter_eq_nil_iff]
    intro exchange hmem
    simp [received_of_isRequest h exchange hmem]
  show (received (conn.history ++ [event])).filter _ = _
  rw [received_append, List.filter_append, hnone, List.append_nil]
  rfl

theorem answered_respond {req : Request} {res : Response} {now : ℤ} (h : req.isUpgrade = false) :
    answered (conn.respond req res now) = answered conn ++ [⟨req, res⟩] := by
  show (received (conn.history ++ [.read (.request ⟨req, res⟩) now])).filter _ = _
  rw [received_append, received_request, List.filter_append]
  simp [answered, h]

theorem inOrder_event (h : InOrder inputs s) (hevent : ∀ c, requestsAt c [event] = []) :
    InOrder (inputs ++ [event]) s := by
  intro c
  rw [requestsAt_append, hevent c, List.append_nil]
  exact h c

theorem inOrder_setConnection
    (h : ∀ other, other ≠ c → requestsAt other inputs = (s.connections other).elim []
      (fun conn => (answered conn).map Exchange.request ++ inHand conn))
    (hconn : requestsAt c inputs = (answered conn).map Exchange.request ++ inHand conn) :
    InOrder inputs (s.setConnection c conn) := by
  intro other
  by_cases hother : other = c
  · rw [hother, setConnection_same]
    exact hconn
  · rw [setConnection_other hother]
    exact h other hother

theorem inOrder_inductive (p : Platform) :
    (server p).Inductive (InOrder (p := p)) := by
  apply (kept_inductive p).and_then
  · intro c
    rfl
  intro inputs event hkept h henabled
  obtain ⟨-, hpossible⟩ := henabled
  generalize (server p).run inputs = s at hkept h hpossible
  show InOrder (inputs ++ [event]) (step s event)
  cases event with
  | accept c outcome now =>
    have hsame := @inOrder_event p inputs s (.accept c outcome now) h (fun _ => rfl)
    by_cases hgone : outcome.Gone
    · obtain ⟨listener, heq⟩ := @step_accept_gone p s c outcome now hgone
      rw [heq]
      exact hsame
    · obtain ⟨listener, heq⟩ := @step_accept p s c outcome now hgone
      rw [heq]
      cases outcome with
      | error => exact hsame
      | accepted socket =>
        apply inOrder_setConnection (fun other _ => hsame other)
        rw [hsame c, hpossible.2]
        rfl
  | complete c event =>
    obtain ⟨conn, hconn, -, hevent, -⟩ := hpossible
    have hsame := @inOrder_event p inputs s (.complete c event) h (fun _ => rfl)
    rw [step_complete hconn]
    apply inOrder_setConnection (fun other _ => hsame other)
    rw [hsame c, hconn, answered_complete hevent]
    rfl
  | receive c req m =>
    obtain ⟨conn, hconn, hidle, -⟩ := hpossible
    rw [step_receive hconn]
    apply inOrder_setConnection
    · intro other hother
      rw [requestsAt_append, requestsAt_receive, if_neg (Ne.symm hother), List.append_nil]
      exact h other
    · rw [requestsAt_append, requestsAt_receive, if_pos rfl, h c, hconn]
      simp [inHand, hidle, answered]
  | advance c m =>
    obtain ⟨conn, work, hconn, hworking, -⟩ := hpossible
    have hsame := @inOrder_event p inputs s (.advance c m) h (fun _ => rfl)
    rw [step_advance hconn hworking]
    apply inOrder_setConnection (fun other _ => hsame other)
    rw [hsame c, hconn]
    simp [inHand, hworking, answered]
  | respond c now =>
    obtain ⟨conn, req, r, hconn, hworking⟩ := hpossible
    have hsame := @inOrder_event p inputs s (.respond c now) h (fun _ => rfl)
    have hplain := ((hkept.connections c conn hconn).working _ hworking).1.plain
    rw [step_respond hconn hworking]
    cases r with
    | error e => exact hsame
    | ok res =>
      apply inOrder_setConnection (fun other _ => hsame other)
      rw [hsame c, hconn, answered_respond hplain]
      simp [inHand, hworking, ServerRuns.Connection.respond, ServerRuns.Connection.complete]
  | thread sampleId newSnapId =>
    exact @inOrder_event p inputs s (.thread sampleId newSnapId) h (fun _ => rfl)
  | destroyed newSnapId =>
    exact @inOrder_event p inputs s (.destroyed newSnapId) h (fun _ => rfl)

/-- Without upgrades, all that has been received has been answered. -/
theorem answered_eq (h : ∀ event ∈ conn.history, Ordinary event) :
    answered conn = received conn.history := by
  apply List.filter_eq_self.mpr
  intro exchange hmem
  obtain ⟨event, hevent, hreceived⟩ := List.mem_filterMap.mp hmem
  have hordinary := h event hevent
  cases event with
  | read result now =>
    cases result with
    | failed error => cases hreceived
    | request other =>
      obtain rfl := Option.some.inj hreceived
      simp [hordinary.1]
  | write error now => cases hreceived
  | timerExpires now => cases hreceived
  | timer error now => cases hreceived

/-- On every connection, however the handlers interleave: each request is answered
once and in order, but for the one in hand, each response is within the contract of
its endpoint, and while the completions are ordinary, the responses are written in
that order. -/
theorem answered_in_order (p : Platform) (inputs : List (Event p))
    (h : (server p).Admissible inputs) (c : ℕ) (conn : Connection p)
    (hconn : ((server p).run inputs).connections c = some conn) :
    requestsAt c inputs = (answered conn).map Exchange.request ++ inHand conn ∧
      (∀ exchange ∈ answered conn,
        ContractAt p.host exchange.request (routed exchange.request.target) exchange.response) ∧
      ((∀ event ∈ conn.history, Ordinary event) →
        conn.session.written ++ conn.session.workers = (answered conn).map Exchange.response ∧
          conn.session.workers.length ≤ limit) := by
  have horder := (inOrder_inductive p).run inputs h c
  rw [hconn] at horder
  have hkept := ((kept_inductive p).run inputs h).connections c conn hconn
  refine ⟨horder, ?_, ?_⟩
  · intro exchange hmem
    obtain ⟨hreceived, hplain⟩ := List.mem_filter.mp hmem
    have hupgrade : exchange.request.isUpgrade = false := by simpa using hplain
    exact (hkept.responses exchange hreceived hupgrade).1.1
  · intro hordinary
    have hpipelined := (pipelined_inductive conn.start).run conn.history hkept.admissible hordinary
    rw [← hkept.session_eq] at hpipelined
    rw [answered_eq hordinary]
    exact ⟨hpipelined.order, hpipelined.bounded⟩

theorem answered_in_order_both :
    ∃ first second, ((server bitsPlatform).run bothAnswered).connections 0 = some first ∧
      ((server bitsPlatform).run bothAnswered).connections 1 = some second ∧
      inHand first = [listRequest] ∧ inHand second = [] ∧
      (requestsAt 0 bothAnswered = (answered first).map Exchange.request ++ inHand first ∧
        (∀ exchange ∈ answered first, ContractAt bitsPlatform.host exchange.request
          (routed exchange.request.target) exchange.response) ∧
        ((∀ event ∈ first.history, Ordinary event) →
          first.session.written ++ first.session.workers =
              (answered first).map Exchange.response ∧
            first.session.workers.length ≤ limit)) ∧
      requestsAt 1 bothAnswered = (answered second).map Exchange.request ++ inHand second ∧
        (∀ exchange ∈ answered second, ContractAt bitsPlatform.host exchange.request
          (routed exchange.request.target) exchange.response) ∧
        ((∀ event ∈ second.history, Ordinary event) →
          second.session.written ++ second.session.workers =
              (answered second).map Exchange.response ∧
            second.session.workers.length ≤ limit) := by
  obtain ⟨s, first, second, hleads, hfirst, hworking, hsecond, hidle⟩ := leads_bothAnswered
  rw [← hleads.run_eq] at hfirst hsecond
  refine ⟨first, second, hfirst, hsecond, ?_, ?_,
    answered_in_order bitsPlatform bothAnswered hleads.admissible 0 first hfirst,
    answered_in_order bitsPlatform bothAnswered hleads.admissible 1 second hsecond⟩
  · rw [inHand, hworking]
    rfl
  · rw [inHand, hidle]
    rfl

end Order

section Origins

/-- The bytes that the post puts into a block: those that its data string makes and,
where they are fewer than it declares, what the memory of the block held behind them. -/
def Fills (host : Host) (post : Request) (bytes : Bytes) : Prop :=
  ∃ json declared text block, parseJson host post.body = .ok json ∧
    Declares host json declared text ∧ host.operatorNew declared.size.toNat = some block ∧
      bytes = (decodedBytes text ++ block.drop (decodedBytes text).length).take
        declared.size.toNat

/-- A picture that is shown has been posted before, or it is empty. -/
def PostedBefore (before : List (Event p)) (event : Event p) : Prop :=
  ∀ c now conn req res, event = .respond c now →
    ((server p).run before).connections c = some conn →
      conn.working = some ⟨req, .finished (.ok res)⟩ → routed req.target = .picture →
        res.status = 200 →
          res.body = [] ∨ ∃ post ∈ requests before,
            (∃ picture, Posts p.host post picture ∧
              res.body = (PictureView.ofPicture picture).data) ∧ Fills p.host post res.body

theorem fills_of_posts {host : Host} {post : Request} {picture : PostPicture}
    (h : Posts host post picture) : Fills host post (PictureView.ofPicture picture).data := by
  obtain ⟨-, -, json, hparse, hpicture⟩ := h
  unfold getPicture at hpicture
  cases hrun : (fromJson host json).run ⟨createPicture, []⟩ with
  | error e decoded =>
    rw [hrun] at hpicture
    cases hpicture
  | ok _ decoded =>
    rw [hrun] at hpicture
    obtain rfl := Except.ok.inj hpicture
    obtain ⟨declared, text, block, hdeclares, hnew, hdecodes⟩ := exists_of_accepted hrun
    refine ⟨json, declared, text, block, hparse, hdeclares, hnew, ?_⟩
    rw [view_of_accepted hrun hdeclares hnew hdecodes]

theorem postedBefore_of_kept {before : List (Event p)} (h : Kept before ((server p).run before)) :
    PostedBefore before event := by
  intro c now conn req res _ hconn hworking hpicture hok
  have hhand := ((h.connections c conn hconn).working _ hworking).1
  obtain ⟨⟨-, -, hshown⟩, -⟩ := safe_result hhand.safe
  rcases hshown hpicture hok with hnone | ⟨view, ⟨picture, ⟨post, hmem, hposts⟩, rfl⟩, hbody⟩
  · exact Or.inl hnone
  · rw [h.arrived] at hmem
    refine Or.inr ⟨post, hmem, ⟨picture, hposts, hbody⟩, ?_⟩
    rw [hbody]
    exact fills_of_posts hposts

/-- However posts and visits interleave, no response shows anything but the block that
one of the posts before has filled. -/
theorem pictures_posted_before (p : Platform) (inputs : List (Event p))
    (h : (server p).Admissible inputs) : Everywhere PostedBefore inputs :=
  (kept_inductive p).everywhere inputs h (fun _ _ hkept _ => postedBefore_of_kept hkept)

/-- A client posts the pictures of a group, and a viewer is shown the first of them. -/
theorem pictures_posted_before_visit : ∃ (before : List (Event bitsPlatform)) (conn : _)
    (res : Response), ((server bitsPlatform).run before).connections 10 = some conn ∧
      conn.working = some ⟨visitRequest, .finished (.ok res)⟩ ∧ res.status = 200 ∧
        res.body = [10, 1, 2] ∧ Everywhere PostedBefore (before ++ [.respond 10 0]) := by
  obtain ⟨before, s, conn, res, -, hleads, hconn, hworking, hstatus, hbody⟩ := exists_visited
  have hshown := hleads.respond 0 hconn hworking
  rw [← hleads.run_eq] at hconn
  exact ⟨before, conn, res, hconn, hworking, hstatus, hbody,
    pictures_posted_before bitsPlatform _ hshown.admissible⟩

/-- Whatever the clients ask for, and however the files change in between, no path
outside of the document root is looked up or opened. -/
theorem accesses_contained (p : Platform) (inputs : List (Event p))
    (h : (server p).Admissible inputs) (hne : p.documentRoot ≠ []) :
    ∀ access ∈ ((server p).run inputs).shared.accesses,
      ContainedPaths.Below p.documentRoot access.path :=
  ((kept_inductive p).run inputs h).sourced.contained hne

theorem accesses_contained_docs :
    ((server bitsPlatform).run (bothAsked ++ docsSections)).shared.accesses =
        [.stat docsPath, .stat indexPath, .openFile indexPath] ∧
      ContainedPaths.Below bitsPlatform.documentRoot docsPath ∧
        ContainedPaths.Below bitsPlatform.documentRoot indexPath := by
  obtain ⟨s, -, -, hleads, haccesses, -⟩ := leads_docsSections
  have hcontained := accesses_contained bitsPlatform _ hleads.admissible (by decide)
  rw [← hleads.run_eq] at haccesses
  rw [haccesses] at hcontained
  exact ⟨haccesses, hcontained (.stat docsPath) (by simp),
    hcontained (.openFile indexPath) (by simp)⟩

end Origins

section Escapes

/-- The peer has gone before the session is made, or the response to a body with
unreadable bytes is due. -/
def Fatal (s : Server p) : Event p → Prop
  | .accept _ outcome _ => outcome.Gone
  | .respond c _ => ∃ conn work, s.connections c = some conn ∧ conn.working = some work ∧
      UnreadableAt p.host work.request (routed work.request.target)
  | _ => False

theorem escaped_step (h : Kept inputs s) (hup : s.escaped = none) (hpossible : Possible s event) :
    (step s event).escaped = none ↔ ¬ Fatal s event := by
  cases event with
  | accept c outcome now =>
    by_cases hgone : outcome.Gone
    · obtain ⟨listener, heq⟩ := @step_accept_gone p s c outcome now hgone
      rw [heq]
      exact iff_of_false (by simp) (not_not.mpr hgone)
    · obtain ⟨listener, heq⟩ := @step_accept p s c outcome now hgone
      rw [heq]
      cases outcome with
      | error => exact iff_of_true hup hgone
      | accepted socket => exact iff_of_true hup hgone
  | complete c event =>
    obtain ⟨conn, hconn, -⟩ := hpossible
    rw [step_complete hconn]
    exact iff_of_true hup not_false
  | receive c req m =>
    obtain ⟨conn, hconn, -⟩ := hpossible
    rw [step_receive hconn]
    exact iff_of_true hup not_false
  | advance c m =>
    obtain ⟨conn, work, hconn, hworking, -⟩ := hpossible
    rw [step_advance hconn hworking]
    exact iff_of_true hup not_false
  | respond c now =>
    obtain ⟨conn, req, r, hconn, hworking⟩ := hpossible
    have hresult := safe_result ((h.connections c conn hconn).working _ hworking).1.safe
    rw [step_respond hconn hworking]
    cases r with
    | ok res =>
      refine iff_of_true hup ?_
      rintro ⟨conn', work, hconn', hworking', hunreadable⟩
      obtain rfl := Option.some.inj (hconn.symm.trans hconn')
      obtain rfl := Option.some.inj (hworking.symm.trans hworking')
      exact hresult.1.2.1 hunreadable
    | error e =>
      refine iff_of_false (by simp [responded]) (not_not.mpr ?_)
      exact ⟨conn, _, hconn, hworking, hresult.1⟩
  | thread sampleId newSnapId => exact iff_of_true hup not_false
  | destroyed newSnapId => exact iff_of_true hup not_false

/-- The server stays up exactly as long as no peer has gone too early and no body
with unreadable bytes has been answered. -/
theorem up_iff_none_fatal (p : Platform) (inputs : List (Event p))
    (h : (server p).Admissible inputs) :
    ((server p).run inputs).escaped = none ↔
      Everywhere (fun before event => ¬ Fatal ((server p).run before) event) inputs := by
  have hinductive : (server p).Inductive (fun inputs s => s.escaped = none ↔
      Everywhere (fun before event => ¬ Fatal ((server p).run before) event) inputs) := by
    apply (kept_inductive p).and_then
    · exact iff_of_true rfl (everywhere_nil _)
    · intro inputs event hkept ih henabled
      obtain ⟨hup, hpossible⟩ := henabled
      rw [everywhere_append_singleton, and_iff_right (ih.mp hup)]
      exact escaped_step hkept hup hpossible
  exact hinductive.run inputs h

/-- The second peer has gone before its session is made. -/
def goneRun : List (Event bitsPlatform) := [.accept 0 client 0, .accept 1 (.accepted ⟨none⟩) 0]

theorem admissible_goneRun : (server bitsPlatform).Admissible goneRun := by
  have hfirst : Leads [.accept 0 client 0] (connected 0 (server bitsPlatform).init) :=
    leads_nil.accept 0 Nat.one_pos rfl
  refine (Machine.admissible_append_singleton _ [_] _).mpr ⟨hfirst.admissible, ?_⟩
  rw [hfirst.run_eq]
  exact ⟨rfl, Nat.one_pos, rfl⟩

/-- A body is refused whose only byte cannot be written. -/
def unreadableRun : List (Event bitsPlatform) :=
  [.accept 0 client 0, .receive 0 unreadablePost firstMoment, .respond 0 1]

theorem unreadableAt_unreadablePost :
    UnreadableAt bitsPlatform.host unreadablePost (routed unreadablePost.target) := by
  have hparse := @parse_refused bitsPlatform.host unreadablePost.body _ rfl rfl
  rw [routed_pictures rfl]
  exact ⟨Or.inr rfl, _, _, hparse, rfl, by decide⟩

theorem serve_unreadablePost :
    ∃ r, serve bitsPlatform firstMoment unreadablePost = .finished r := by
  have hparse := parseJson_error (@parse_refused bitsPlatform.host unreadablePost.body _ rfl rfl)
  have hmethod : ¬ (unreadablePost.method ≠ .get ∧ unreadablePost.method ≠ .post) := by decide
  rw [serve, routed_pictures rfl]
  show ∃ r, handleRequest bitsPlatform (picPostHandler bitsPlatform firstMoment) unreadablePost = _
  rw [handleRequest, if_neg hmethod, picPostHandler]
  show ∃ r, ((caught _ ((Task.finished
    (parseJson bitsPlatform.host unreadablePost.body)).andThen _)).bind _) = _
  rw [hparse]
  exact ⟨_, rfl⟩

theorem leads_unreadablePost : ∃ s conn r,
    Leads [.accept 0 client 0, .receive 0 unreadablePost firstMoment] s ∧
      s.connections 0 = some conn ∧ conn.working = some ⟨unreadablePost, .finished r⟩ := by
  obtain ⟨r, hserve⟩ := serve_unreadablePost
  have hfirst := (@leads_nil bitsPlatform).accept 0 Nat.one_pos rfl
  have hreceived := hfirst.receive firstMoment hserve setConnection_same rfl Nat.one_pos rfl
    (by decide)
  exact ⟨_, _, r, hreceived, setConnection_same, rfl⟩

theorem up_iff_none_fatal_lost :
    ((((server bitsPlatform).run goneRun).escaped = none ↔
        Everywhere (fun before event => ¬ Fatal ((server bitsPlatform).run before) event)
          goneRun) ∧
      ((server bitsPlatform).run goneRun).escaped ≠ none) ∧
    (((server bitsPlatform).run unreadableRun).escaped = none ↔
        Everywhere (fun before event => ¬ Fatal ((server bitsPlatform).run before) event)
          unreadableRun) ∧
      ((server bitsPlatform).run unreadableRun).escaped ≠ none := by
  obtain ⟨s, conn, r, hleads, hconn, hworking⟩ := leads_unreadablePost
  have hrespond : (server bitsPlatform).Admissible unreadableRun := by
    refine (Machine.admissible_append_singleton _ [_, _] _).mpr ⟨hleads.admissible, ?_⟩
    rw [hleads.run_eq]
    exact ⟨hleads.up, conn, unreadablePost, r, hconn, hworking⟩
  have hgone := up_iff_none_fatal bitsPlatform goneRun admissible_goneRun
  have hlost := up_iff_none_fatal bitsPlatform unreadableRun hrespond
  refine ⟨⟨hgone, ?_⟩, hlost, ?_⟩
  · rw [Ne, hgone]
    intro hall
    exact hall [_] _ [] rfl rfl
  · rw [Ne, hlost]
    intro hall
    refine hall [_, _] _ [] rfl ⟨conn, _, ?_, hworking, unreadableAt_unreadablePost⟩
    rw [hleads.run_eq]
    exact hconn

end Escapes

section Progress

/-- The connection works on the request, with at most n sections left. -/
def Left (n : ℕ) (req : Request) (c : ℕ) (s : Server p) : Prop :=
  ∃ conn task, s.connections c = some conn ∧ conn.working = some ⟨req, task⟩ ∧
    Waitless (agreement p) n task

def isAdvance (c : ℕ) : Event p → Bool
  | .advance other _ => decide (other = c)
  | _ => false

/-- What the other connections do takes no section away. -/
theorem left_other {n : ℕ} {req : Request} {other : ℕ} {conn' : Connection p}
    (h : Left n req c s) (hother : c ≠ other) : Left n req c (s.setConnection other conn') := by
  obtain ⟨conn, task, hconn, hrest⟩ := h
  refine ⟨conn, task, ?_, hrest⟩
  rw [setConnection_other hother]
  exact hconn

theorem left_advance {n : ℕ} {req : Request} {m : Moment p} (hsourced : Sourced p s.shared)
    (h : Left n req c s) (hpossible : Possible s (.advance c m)) :
    ∃ k, n = k + 1 ∧ Left k req c (step s (.advance c m)) := by
  obtain ⟨conn, task, hconn, hworking, hwaitless⟩ := h
  obtain ⟨conn', work, hconn', hworking', hready⟩ := hpossible
  obtain rfl := Option.some.inj (hconn.symm.trans hconn')
  obtain rfl := Option.some.inj (hworking.symm.trans hworking')
  obtain ⟨k, hk, hnext⟩ := waitless_advance hwaitless hsourced hready
  refine ⟨k, hk, ?_⟩
  rw [step_advance hconn hworking]
  exact ⟨_, _, setConnection_same, rfl, hnext⟩

/-- Each section of the request is one less, and no event adds one. -/
theorem left_step {n : ℕ} {req : Request} (hsourced : Sourced p s.shared)
    (h : Left n req c s) (hpossible : Possible s event)
    (hrespond : ∀ now, event ≠ .respond c now) :
    ∃ k, k + (if isAdvance c event = true then 1 else 0) ≤ n ∧ Left k req c (step s event) := by
  cases event with
  | accept other outcome now =>
    obtain ⟨conn, task, hconn, hrest⟩ := h
    have hother : c ≠ other := by
      rintro rfl
      rw [hpossible.2] at hconn
      cases hconn
    refine ⟨n, by simp [isAdvance], ?_⟩
    by_cases hgone : outcome.Gone
    · obtain ⟨listener, heq⟩ := @step_accept_gone p s other outcome now hgone
      rw [heq]
      exact ⟨conn, task, hconn, hrest⟩
    · obtain ⟨listener, heq⟩ := @step_accept p s other outcome now hgone
      rw [heq]
      cases outcome with
      | error => exact ⟨conn, task, hconn, hrest⟩
      | accepted socket => exact left_other ⟨conn, task, hconn, hrest⟩ hother
  | complete other event =>
    obtain ⟨conn', hconn', -⟩ := hpossible
    refine ⟨n, by simp [isAdvance], ?_⟩
    rw [step_complete hconn']
    by_cases hother : c = other
    · obtain ⟨conn, task, hconn, hworking, hwaitless⟩ := h
      obtain rfl := hother
      obtain rfl := Option.some.inj (hconn.symm.trans hconn')
      exact ⟨_, task, setConnection_same, hworking, hwaitless⟩
    · exact left_other h hother
  | receive other req' m =>
    obtain ⟨conn', hconn', hidle, -⟩ := hpossible
    refine ⟨n, by simp [isAdvance], ?_⟩
    rw [step_receive hconn']
    refine left_other (s := s.arrive req') h ?_
    rintro rfl
    obtain ⟨conn, task, hconn, hworking, -⟩ := h
    obtain rfl := Option.some.inj (hconn.symm.trans hconn')
    rw [hidle] at hworking
    cases hworking
  | advance other m =>
    by_cases hother : c = other
    · obtain rfl := hother
      obtain ⟨k, rfl, hleft⟩ := left_advance hsourced h hpossible
      exact ⟨k, by simp [isAdvance], hleft⟩
    · obtain ⟨conn', work, hconn', hworking', -⟩ := hpossible
      refine ⟨n, by simp [isAdvance, Ne.symm hother], ?_⟩
      rw [step_advance hconn' hworking']
      exact left_other h hother
  | respond other now =>
    have hother : c ≠ other := by
      rintro rfl
      exact hrespond now rfl
    obtain ⟨conn', req', r, hconn', hworking'⟩ := hpossible
    refine ⟨n, by simp [isAdvance], ?_⟩
    rw [step_respond hconn' hworking']
    cases r with
    | ok res => exact left_other h hother
    | error e => exact h
  | thread sampleId newSnapId => exact ⟨n, by simp [isAdvance], h⟩
  | destroyed newSnapId => exact ⟨n, by simp [isAdvance], h⟩

theorem left_of_working {work : Work p} (h : Kept inputs s) (hconn : s.connections c = some conn)
    (hworking : conn.working = some work) (hwaits : WaitsForNobody (routed work.request.target)) :
    Left (sectionsOf p) work.request c s :=
  ⟨conn, work.task, hconn, hworking,
    ((h.connections c conn hconn).working work hworking).1.waitless hwaits⟩

/-- However the others interleave, a request outside of the samplings goes through a
bounded number of sections until its response is due. -/
theorem sections_bounded (p : Platform) (before after : List (Event p))
    (h : (server p).Admissible (before ++ after)) (c : ℕ) (conn : Connection p) (work : Work p)
    (hconn : ((server p).run before).connections c = some conn)
    (hworking : conn.working = some work) (hwaits : WaitsForNobody (routed work.request.target))
    (hrespond : ∀ now, .respond c now ∉ after) :
    after.countP (isAdvance c) ≤ sectionsOf p := by
  have hbefore := Machine.admissible_of_append _ h
  have hstart := left_of_working ((kept_inductive p).run before hbefore) hconn hworking hwaits
  have hleft : ∃ k, k + after.countP (isAdvance c) ≤ sectionsOf p ∧
      Left k work.request c ((server p).run (before ++ after)) := by
    clear hbefore
    induction after using List.reverseRecOn with
    | nil =>
      rw [List.append_nil]
      exact ⟨sectionsOf p, by simp, hstart⟩
    | append_singleton after event ih =>
      rw [← List.append_assoc] at h ⊢
      obtain ⟨hall, hlast⟩ := (Machine.admissible_append_singleton _ _ _).mp h
      obtain ⟨k, hk, hleft⟩ := ih hall (fun now hmem => hrespond now (List.mem_append_left _ hmem))
      have hkept := (kept_inductive p).run _ hall
      have hother : ∀ now, event ≠ .respond c now := by
        rintro now rfl
        exact hrespond now (List.mem_append_right _ (List.mem_singleton.mpr rfl))
      obtain ⟨k', hk', hleft'⟩ := left_step hkept.sourced hleft hlast.2 hother
      refine ⟨k', ?_, ?_⟩
      · rw [List.countP_append, List.countP_singleton]
        omega
      · rw [Machine.run_append_singleton]
        exact hleft'
  obtain ⟨k, hk, -⟩ := hleft
  omega

theorem waits_getDocs : WaitsForNobody (routed getDocs.target) := by
  have hrouted : routed getDocs.target = .static := by decide +kernel
  rw [hrouted]
  exact ⟨by decide, by decide, by decide⟩

theorem sections_bounded_docs :
    docsSections.countP (isAdvance 0) = 3 ∧
      docsSections.countP (isAdvance 0) ≤ sectionsOf bitsPlatform := by
  obtain ⟨s, hasked, -, -, hdocs, -⟩ := leads_bothAsked
  obtain ⟨t, res, second, hleads, -⟩ := leads_docsSections
  rw [← hasked.run_eq] at hdocs
  exact ⟨rfl, sections_bounded bitsPlatform bothAsked docsSections hleads.admissible 0 _
    ⟨getDocs, docsTask 18 docsPath⟩ hdocs rfl waits_getDocs (by simp [docsSections])⟩

/-- With at most n sections of its own the request is answered, after those that its
connection has answered before. -/
def AnsweredWithin (n : ℕ) (req : Request) (c : ℕ) (conn : Connection p)
    (inputs : List (Event p)) : Prop :=
  ∃ (moments : List (Moment p)) (s : Server p) (conn' : Connection p) (res : Response),
    moments.length ≤ n ∧
      Leads (inputs ++ moments.map (Event.advance c) ++ [.respond c 0]) s ∧
        s.connections c = some conn' ∧ conn'.working = none ∧
          answered conn' = answered conn ++ [⟨req, res⟩]

/-- A section of the request, and then the rest of them. -/
theorem exists_finished {n : ℕ} {req : Request} {task : HandlerTask p Response}
    (h : Leads inputs s) (hconn : s.connections c = some conn)
    (hworking : conn.working = some ⟨req, task⟩) (hwaitless : Waitless (agreement p) n task) :
    ∃ (moments : List (Moment p)) (t : Server p) (conn' : Connection p)
      (r : Except Exception Response), moments.length ≤ n ∧
        Leads (inputs ++ moments.map (Event.advance c)) t ∧ t.connections c = some conn' ∧
          conn'.working = some ⟨req, .finished r⟩ ∧ conn'.history = conn.history := by
  induction n generalizing inputs s conn task with
  | zero =>
    cases hwaitless with
    | finished n r =>
      exact ⟨[], s, conn, r, le_rfl, by simpa using h, hconn, hworking, rfl⟩
  | succ n ih =>
    cases hwaitless with
    | finished n r =>
      exact ⟨[], s, conn, r, Nat.zero_le _, by simpa using h, hconn, hworking, rfl⟩
    | enter hfree hrest =>
      have hkept := (kept_inductive p).run inputs h.admissible
      rw [h.run_eq] at hkept
      obtain ⟨m, hm⟩ := hfree _ hkept.sourced
      have hnext := h.advance m rfl hconn hworking hm
      obtain ⟨moments, t, conn', r, hlength, hlater, hconn', hfinished, hhistory⟩ :=
        ih hnext setConnection_same rfl (hrest m s.shared hkept.sourced hm)
      refine ⟨m :: moments, t, conn', r, ?_, ?_, hconn', hfinished, hhistory⟩
      · rw [List.length_cons]
        omega
      · rw [List.append_assoc] at hlater
        exact hlater

theorem answeredWithin_of_readable {work : Work p} (h : Leads inputs s)
    (hconn : s.connections c = some conn) (hworking : conn.working = some work)
    (hwaits : WaitsForNobody (routed work.request.target))
    (hreadable : ¬ UnreadableAt p.host work.request (routed work.request.target)) :
    AnsweredWithin (sectionsOf p) work.request c conn inputs := by
  have hkept := (kept_inductive p).run inputs h.admissible
  rw [h.run_eq] at hkept
  have hwaitless := ((hkept.connections c conn hconn).working work hworking).1.waitless hwaits
  obtain ⟨moments, t, conn', r, hlength, hfinished, hconn', hworking', hhistory⟩ :=
    exists_finished h hconn hworking hwaitless
  have hlast := (kept_inductive p).run _ hfinished.admissible
  rw [hfinished.run_eq] at hlast
  obtain ⟨hhand, -⟩ := (hlast.connections c conn' hconn').working _ hworking'
  cases r with
  | error e => exact absurd (safe_result hhand.safe).1 hreadable
  | ok res =>
    refine ⟨moments, _, _, res, hlength, hfinished.respond 0 hconn' hworking', setConnection_same,
      rfl, ?_⟩
    rw [answered_respond hhand.plain, answered, hhistory]
    rfl

/-- The request needs no other thread: its own sections can be entered one after the
other, until it is answered. -/
theorem answered_undisturbed (p : Platform) (inputs : List (Event p))
    (h : (server p).Admissible inputs) (hup : ((server p).run inputs).escaped = none) (c : ℕ)
    (conn : Connection p) (work : Work p)
    (hconn : ((server p).run inputs).connections c = some conn)
    (hworking : conn.working = some work) (hwaits : WaitsForNobody (routed work.request.target))
    (hreadable : ¬ UnreadableAt p.host work.request (routed work.request.target)) :
    AnsweredWithin (sectionsOf p) work.request c conn inputs :=
  answeredWithin_of_readable ⟨h, rfl, hup⟩ hconn hworking hwaits hreadable

/-- A post whose JSON breaks off. -/
def brokenPost : Request :=
  ⟨.post, ascii "/api/v1/realtime/preview/pictures", 11, true, false, ascii "\x7b\"camera\":4"⟩

/-- The directory is between two sections when the post is in hand. -/
def postAsked : List (Event bitsPlatform) :=
  [.accept 0 client 0, .accept 1 client 0, .receive 0 getDocs docsMoment,
    .receive 1 brokenPost docsMoment, .advance 0 docsMoment]

theorem leads_postAsked : ∃ s, Leads postAsked s ∧
    s.connections 0 = some (docsConnection (docsTask 17 indexPath)) ∧
      s.connections 1 = some ⟨0, HttpSession.run 0,
        some ⟨brokenPost, serve bitsPlatform docsMoment brokenPost⟩, []⟩ := by
  have hfirst := (@leads_nil bitsPlatform).accept 0 Nat.one_pos rfl
  have hsecond := hfirst.accept 1 Nat.one_pos rfl
  have hdocs := hsecond.receive (c := 0) docsMoment (serve_getDocs docsMoment) rfl rfl Nat.one_pos
    rfl (by decide)
  have hpost := hdocs.receive (c := 1) docsMoment
    (Eq.refl (serve bitsPlatform docsMoment brokenPost)) rfl rfl Nat.one_pos rfl (by decide)
  have hdirectory := hpost.advance (c := 0) docsMoment (advance_docs 17 _) rfl rfl
    (ready_docsTask 17 docsPath _)
  exact ⟨_, hdirectory, rfl, rfl⟩

theorem answered_undisturbed_both :
    AnsweredWithin (sectionsOf bitsPlatform) getDocs 0 (docsConnection (docsTask 17 indexPath))
        postAsked ∧
      AnsweredWithin (sectionsOf bitsPlatform) brokenPost 1 ⟨0, HttpSession.run 0,
        some ⟨brokenPost, serve bitsPlatform docsMoment brokenPost⟩, []⟩ postAsked := by
  obtain ⟨s, hleads, hdocs, hpost⟩ := leads_postAsked
  have hstatic : routed getDocs.target = .static := by decide +kernel
  have hup := hleads.up
  rw [← hleads.run_eq] at hup hdocs hpost
  constructor
  · refine answered_undisturbed bitsPlatform postAsked hleads.admissible hup 0 _
      ⟨getDocs, docsTask 17 indexPath⟩ hdocs rfl waits_getDocs ?_
    rw [hstatic]
    exact not_false
  · refine answered_undisturbed bitsPlatform postAsked hleads.admissible hup 1 _
      ⟨brokenPost, serve bitsPlatform docsMoment brokenPost⟩ hpost rfl ?_
      (readableAt_of_isAscii (by decide : IsAscii (ascii "\x7b\"camera\":4")))
    rw [routed_pictures rfl]
    exact ⟨by decide, by decide, by decide⟩

end Progress

end BeastServer.ServerAnswers
