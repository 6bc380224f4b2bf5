import BeastServer.AdvertisedUrls
import BeastServer.HttpListeners
import BeastServer.HttpPipelines
import BeastServer.ServerProgress

/-!
Runs of the whole server: its listener, all of its connections and the threads of
the samplings. A completion runs on the strand of its connection, so a connection
works on one request at a time, but the sections of the handlers of different
connections come in any order. An exception that leaves a handler or the
constructor of a session leaves io_context::run, and the server with it.
-/
namespace BeastServer.ServerRuns

open ByteStrings Exceptions HttpMessages HttpSessions HttpPipelines Machines UriRouters
open CacheSections PictureCaches PicturePreviews
open AdvertisedUrls (picPreviewCacheNum)
open HttpListeners (HttpListener Outcome SystemError onAccept onAccept_run onAccept_throws)
open Samplings hiding Shared Event step enabled decidableEnabled
open SamplingJoins (allSound_runThread allSound_runDestroyed)
open StaticRequests hiding handleRequest send serve indexLoop record
open Sections ApiContracts ServerSafety ServerProgress
open Servers hiding handleRequest samplingStatusHandler handlerOf serve
open ServerTasks hiding addPicture

section States

/-- A request and what is left to do for it. -/
structure Work (p : Platform) where
  request : Request
  task : HandlerTask p Response

/-- A session, the request that it works on, and the completions so far. -/
structure Connection (p : Platform) where
  start : ℤ
  session : HttpSession
  working : Option (Work p)
  history : List HttpSessions.Event

namespace Connection

variable {p : Platform}

def make (now : ℤ) : Connection p := ⟨now, HttpSession.run now, none, []⟩

def complete (event : HttpSessions.Event) (conn : Connection p) : Connection p :=
  { conn with
    session := HttpSessions.step conn.session event
    history := conn.history ++ [event] }

/-- The response is enqueued, and the next read is started while there is room. -/
def respond (req : Request) (res : Response) (now : ℤ) (conn : Connection p) : Connection p :=
  complete (.read (.request ⟨req, res⟩) now) { conn with working := none }

end Connection

/-- What has left io_context::run. -/
inductive Escaped
  | system (e : SystemError)
  | exception (e : Exception)

structure Server (p : Platform) where
  shared : Shared
  listener : HttpListener
  connections : ℕ → Option (Connection p)
  escaped : Option Escaped

def Server.setConnection {p : Platform} (s : Server p) (c : ℕ) (conn : Connection p) : Server p :=
  { s with connections := Function.update s.connections c (some conn) }

def Server.setShared {p : Platform} (s : Server p) (shared : Shared) : Server p :=
  { s with shared := shared }

/-- A request has been read. -/
def Server.arrive {p : Platform} (s : Server p) (req : Request) : Server p :=
  s.setShared { s.shared with arrived := s.shared.arrived ++ [req] }

end States

section Steps

variable {p : Platform}

/-- A completion that delivers a request is split: receive, the sections of the
handler, and respond. -/
inductive Event (p : Platform)
  | accept (c : ℕ) (outcome : Outcome) (now : ℤ)
  | complete (c : ℕ) (event : HttpSessions.Event)
  | receive (c : ℕ) (req : Request) (m : Moment p)
  | advance (c : ℕ) (m : Moment p)
  | respond (c : ℕ) (now : ℤ)
  | thread (sampleId newSnapId : UInt64)
  | destroyed (newSnapId : UInt64)

/-- A completion that the handlers have to do with. -/
def isRequest : HttpSessions.Event → Bool
  | .read (.request exchange) _ => !exchange.request.isUpgrade
  | _ => false

/-- The deadline passes whatever the strand does. -/
def isTimerExpires : HttpSessions.Event → Bool
  | .timerExpires _ => true
  | _ => false

def accepted (c : ℕ) (outcome : Outcome) (now : ℤ) (s : Server p) : Server p :=
  match outcome with
  | .error => s
  | .accepted _ => s.setConnection c (Connection.make now)

def advanced (c : ℕ) (conn : Connection p) (work : Work p) (m : Moment p) (s : Server p) :
    Server p :=
  let next := work.task.advance m s.shared
  (s.setShared next.1).setConnection c { conn with working := some { work with task := next.2 } }

def responded (c : ℕ) (conn : Connection p) (req : Request) (now : ℤ) (s : Server p) :
    Except Exception Response → Server p
  | .ok res => s.setConnection c (conn.respond req res now)
  | .error e => { s with escaped := some (.exception e) }

def step (s : Server p) : Event p → Server p
  | .accept c outcome now =>
    match (onAccept outcome).run { s.listener with accepts := s.listener.accepts - 1 } with
    | .ok _ listener => accepted c outcome now { s with listener := listener }
    | .error e listener => { s with listener := listener, escaped := some (.system e) }
  | .complete c event =>
    match s.connections c with
    | some conn => s.setConnection c (conn.complete event)
    | none => s
  | .receive c req m =>
    match s.connections c with
    | some conn => (s.arrive req).setConnection c { conn with working := some ⟨req, serve p m req⟩ }
    | none => s
  | .advance c m =>
    match s.connections c with
    | some conn =>
      match conn.working with
      | some work => advanced c conn work m s
      | none => s
    | none => s
  | .respond c now =>
    match s.connections c with
    | some conn =>
      match conn.working with
      | some ⟨req, .finished r⟩ => responded c conn req now s r
      | _ => s
    | none => s
  | .thread sampleId newSnapId =>
    s.setShared (s.shared.setMock (s.shared.mock.runThread sampleId newSnapId))
  | .destroyed newSnapId =>
    s.setShared (s.shared.setMock (s.shared.mock.runDestroyed (.thread newSnapId)))

/-- The parser of the HTTP library passes no NUL in a target. -/
def Possible (s : Server p) : Event p → Prop
  | .accept c _ _ => 0 < s.listener.accepts ∧ s.connections c = none
  | .complete c event => ∃ conn, s.connections c = some conn ∧
      HttpSessions.enabled conn.session event ∧ isRequest event = false ∧
        (conn.working = none ∨ isTimerExpires event = true)
  | .receive c req _ => ∃ conn, s.connections c = some conn ∧ conn.working = none ∧
      0 < conn.session.reads ∧ req.isUpgrade = false ∧ 0 ∉ req.target
  | .advance c m => ∃ conn work, s.connections c = some conn ∧ conn.working = some work ∧
      work.task.Ready m s.shared
  | .respond c _ => ∃ conn req r, s.connections c = some conn ∧
      conn.working = some ⟨req, .finished r⟩
  | .thread _ _ => True
  | .destroyed _ => s.shared.mock.destroyed.isSome = true

def firstShared : Shared where
  cache := PictureCache.empty
  previews := PicturePreviewHandler.make picPreviewCacheNum
  mock := SamplingMock.make
  accesses := []
  arrived := []

def server (p : Platform) : Machine (Server p) (Event p) where
  init := ⟨firstShared, ⟨1, []⟩, fun _ => none, none⟩
  enabled s event := s.escaped = none ∧ Possible s event
  step := step

variable {s : Server p} {c : ℕ} {conn : Connection p} {work : Work p}

theorem step_accept {outcome : Outcome} {now : ℤ} (h : ¬ outcome.Gone) :
    ∃ listener, step s (.accept c outcome now) =
      accepted c outcome now { s with listener := listener } := by
  unfold step
  dsimp only
  rw [onAccept_run h]
  exact ⟨_, rfl⟩

theorem step_accept_gone {outcome : Outcome} {now : ℤ} (h : outcome.Gone) :
    ∃ listener, step s (.accept c outcome now) =
      { s with listener := listener, escaped := some (.system .notConnected) } := by
  unfold step
  dsimp only
  rw [onAccept_throws h]
  exact ⟨_, rfl⟩

theorem step_complete {event : HttpSessions.Event} (h : s.connections c = some conn) :
    step s (.complete c event) = s.setConnection c (conn.complete event) := by
  rw [step, h]

theorem step_receive {req : Request} {m : Moment p} (h : s.connections c = some conn) :
    step s (.receive c req m) =
      (s.arrive req).setConnection c { conn with working := some ⟨req, serve p m req⟩ } := by
  rw [step, h]

theorem step_advance {m : Moment p} (h : s.connections c = some conn)
    (hworking : conn.working = some work) :
    step s (.advance c m) = advanced c conn work m s := by
  rw [step, h]
  dsimp only
  rw [hworking]

theorem step_respond {req : Request} {r : Except Exception Response} {now : ℤ}
    (h : s.connections c = some conn) (hworking : conn.working = some ⟨req, .finished r⟩) :
    step s (.respond c now) = responded c conn req now s r := by
  rw [step, h]
  dsimp only
  rw [hworking]

theorem setConnection_same : (s.setConnection c conn).connections c = some conn := by
  simp [Server.setConnection]

theorem setConnection_other {other : ℕ} (h : other ≠ c) :
    (s.setConnection c conn).connections other = s.connections other := by
  simp [Server.setConnection, h]

/-- A connection after another one has been set. -/
theorem setConnection_cases {other : ℕ} {conn' : Connection p}
    (h : (s.setConnection c conn).connections other = some conn') :
    other = c ∧ conn' = conn ∨ other ≠ c ∧ s.connections other = some conn' := by
  by_cases hother : other = c
  · rw [hother, setConnection_same] at h
    exact Or.inl ⟨hother, (Option.some.inj h).symm⟩
  · rw [setConnection_other hother] at h
    exact Or.inr ⟨hother, h⟩

end Steps

section Invariant

variable {p : Platform} {inputs : List (Event p)} {s : Server p} {shared shared' : Shared} {c : ℕ}
  {conn : Connection p} {event : Event p}

/-- What is left to do for a request that a connection works on. -/
structure InHand (p : Platform) (shared : Shared) (work : Work p) : Prop where
  safe : Safe (agreement p) (Replied p work.request) shared work.task
  waitless : WaitsForNobody (routed work.request.target) →
    Waitless (agreement p) (sectionsOf p) work.task
  plain : work.request.isUpgrade = false

/-- A connection runs its session, and its responses are those of the handlers. -/
structure ConnectionKept (p : Platform) (shared : Shared) (conn : Connection p) : Prop where
  admissible : (session conn.start).Admissible conn.history
  session_eq : conn.session = (session conn.start).run conn.history
  working : ∀ work, conn.working = some work → InHand p shared work ∧ 0 < conn.session.reads
  responses : ∀ exchange ∈ received conn.history, exchange.request.isUpgrade = false →
    Replied p exchange.request shared (.ok exchange.response)

theorem replied_later {req : Request} {r : Except Exception Response}
    (h : Replied p req shared r) (hlater : (agreement p).later shared shared') :
    Replied p req shared' r := by
  cases r with
  | error e => exact h
  | ok res =>
    obtain ⟨⟨hcontract, hreadable, hshown⟩, hjudged⟩ := h
    exact ⟨⟨hcontract, hreadable, fun heq hok => shown_later (hshown heq hok) hlater⟩, hjudged⟩

/-- A connection keeps its properties while others change the state. -/
theorem connectionKept_later (h : ConnectionKept p shared conn)
    (hlater : (agreement p).later shared shared') : ConnectionKept p shared' conn where
  admissible := h.admissible
  session_eq := h.session_eq
  working work hwork := by
    obtain ⟨hhand, hreads⟩ := h.working work hwork
    exact ⟨⟨safe_later hlater hhand.safe, hhand.waitless, hhand.plain⟩, hreads⟩
  responses exchange hmem hplain := replied_later (h.responses exchange hmem hplain) hlater

theorem connectionKept_make (now : ℤ) : ConnectionKept p shared (Connection.make now) where
  admissible := Machine.admissible_nil _
  session_eq := rfl
  working work hwork := by cases hwork
  responses exchange hmem := by cases hmem

/-- The session takes a step of its own machine. -/
theorem history_complete (h : ConnectionKept p shared conn) {event : HttpSessions.Event}
    (henabled : HttpSessions.enabled conn.session event) :
    (session conn.start).Admissible (conn.complete event).history ∧
      (conn.complete event).session = (session conn.start).run (conn.complete event).history := by
  have hsession := h.session_eq
  constructor
  · refine (Machine.admissible_append_singleton _ _ _).mpr ⟨h.admissible, ?_⟩
    rw [← hsession]
    exact henabled
  · show HttpSessions.step conn.session event = (session conn.start).run (conn.history ++ [event])
    rw [hsession, Machine.run_append_singleton]
    rfl

theorem received_of_isRequest {event : HttpSessions.Event} (h : isRequest event = false) :
    ∀ exchange ∈ received [event], exchange.request.isUpgrade = true := by
  intro exchange hmem
  cases event with
  | read result now =>
    cases result with
    | failed error => cases hmem
    | request other =>
      rw [received_request, List.mem_singleton] at hmem
      rw [hmem]
      simpa [isRequest] using h
  | write error now => cases hmem
  | timerExpires now => cases hmem
  | timer error now => cases hmem

theorem connectionKept_complete (h : ConnectionKept p shared conn) {event : HttpSessions.Event}
    (henabled : HttpSessions.enabled conn.session event) (hevent : isRequest event = false)
    (hidle : conn.working = none ∨ isTimerExpires event = true) :
    ConnectionKept p shared (conn.complete event) := by
  obtain ⟨hadmissible, hsession⟩ := history_complete h henabled
  refine ⟨hadmissible, hsession, ?_, ?_⟩
  · intro work hwork
    have hbusy : conn.working = some work := hwork
    rcases hidle with hnone | htimer
    · rw [hnone] at hbusy
      cases hbusy
    · obtain ⟨now, rfl⟩ : ∃ now, event = .timerExpires now := by
        cases event with
        | timerExpires now => exact ⟨now, rfl⟩
        | _ => cases htimer
      exact h.working work hbusy
  · intro exchange hmem hplain
    have hreceived : exchange ∈ received conn.history ++ received [event] := by
      rw [← received_append]
      exact hmem
    rcases List.mem_append.mp hreceived with hold | hnew
    · exact h.responses exchange hold hplain
    · rw [received_of_isRequest hevent exchange hnew] at hplain
      cases hplain

theorem connectionKept_respond (h : ConnectionKept p shared conn) {req : Request} {res : Response}
    {now : ℤ} (hworking : conn.working = some ⟨req, .finished (.ok res)⟩) :
    ConnectionKept p shared (conn.respond req res now) := by
  obtain ⟨hhand, hreads⟩ := h.working _ hworking
  have hidle : ConnectionKept p shared { conn with working := none } :=
    ⟨h.admissible, h.session_eq, fun work hwork => (by cases hwork), h.responses⟩
  obtain ⟨hadmissible, hsession⟩ :=
    history_complete hidle (show HttpSessions.enabled conn.session
      (.read (.request ⟨req, res⟩) now) from hreads)
  refine ⟨hadmissible, hsession, fun work hwork => (by cases hwork), ?_⟩
  intro exchange hmem hplain
  have hreceived : exchange ∈ received conn.history ++ [⟨req, res⟩] := by
    rw [← received_request ⟨req, res⟩ now, ← received_append]
    exact hmem
  rcases List.mem_append.mp hreceived with hold | hnew
  · exact h.responses exchange hold hplain
  · rw [List.mem_singleton.mp hnew]
    exact safe_result hhand.safe

/-- The requests of a run, in the order in which they have been read. -/
def requests (inputs : List (Event p)) : List Request :=
  inputs.filterMap (fun event =>
    match event with
    | .receive _ req _ => some req
    | _ => none)

theorem requests_append (first second : List (Event p)) :
    requests (first ++ second) = requests first ++ requests second := by
  simp [requests]

/-- The state of the handlers can be traced to requests, and every connection is kept. -/
structure Kept (inputs : List (Event p)) (s : Server p) : Prop where
  sourced : Sourced p s.shared
  arrived : s.shared.arrived = requests inputs
  connections : ∀ c conn, s.connections c = some conn → ConnectionKept p s.shared conn

theorem kept_event (h : Kept inputs s) (hevent : requests [event] = []) :
    Kept (inputs ++ [event]) s where
  sourced := h.sourced
  arrived := by
    rw [requests_append, hevent, List.append_nil]
    exact h.arrived
  connections := h.connections

theorem kept_setConnection (h : Kept inputs s) (hconn : ConnectionKept p s.shared conn) :
    Kept inputs (s.setConnection c conn) where
  sourced := h.sourced
  arrived := h.arrived
  connections other conn' hother := by
    rcases setConnection_cases hother with ⟨-, rfl⟩ | ⟨-, hold⟩
    · exact hconn
    · exact h.connections other conn' hold

theorem kept_setShared (h : Kept inputs s) (hkeeps : (agreement p).Keeps s.shared shared) :
    Kept inputs (s.setShared shared) where
  sourced := hkeeps.1
  arrived := hkeeps.2.trans h.arrived
  connections other conn' hother :=
    connectionKept_later (h.connections other conn' hother) hkeeps.later

theorem later_arrive (req : Request) :
    (agreement p).later s.shared (s.arrive req).shared :=
  ⟨[req], rfl⟩

theorem kept_arrive {req : Request} {m : Moment p} (h : Kept inputs s) :
    Kept (inputs ++ [.receive c req m]) (s.arrive req) where
  sourced := by
    have hlater := @later_arrive p s req
    refine ⟨?_, h.sourced.ids, ?_, h.sourced.finite, h.sourced.contained, h.sourced.sound⟩
    · exact fun w hw => posted_later (h.sourced.cached w hw) hlater
    · exact fun id pvs hid view hview => traced_later (h.sourced.views id pvs hid view hview) hlater
  arrived := by
    rw [requests_append, ← h.arrived]
    rfl
  connections other conn' hother :=
    connectionKept_later (h.connections other conn' hother) (later_arrive req)

theorem kept_init : Kept [] (server p).init where
  sourced := by
    refine ⟨?_, ?_, ?_, ⟨[], supported_empty⟩, fun _ access haccess => (by cases haccess),
      fun block hblock => (by cases hblock)⟩
    · rintro w (⟨id, hface⟩ | ⟨id, lines, i, hbody, -⟩)
      · cases hface
      · cases hbody
    · exact fun id pvs hid => by cases hid
    · exact fun id pvs hid => by cases hid
  arrived := rfl
  connections c conn hconn := by cases hconn

theorem kept_advance {m : Moment p} {work : Work p} (h : Kept inputs s)
    (hconn : s.connections c = some conn) (hworking : conn.working = some work)
    (hready : work.task.Ready m s.shared) : Kept inputs (advanced c conn work m s) := by
  have hkept := h.connections c conn hconn
  obtain ⟨hhand, hreads⟩ := hkept.working work hworking
  obtain ⟨hkeeps, hsafe⟩ := safe_advance hhand.safe h.sourced hready
  apply kept_setConnection (kept_setShared h hkeeps)
  refine ⟨hkept.admissible, hkept.session_eq, ?_, ?_⟩
  · intro work' hwork'
    obtain rfl := Option.some.inj hwork'
    refine ⟨⟨hsafe, ?_, hhand.plain⟩, hreads⟩
    intro hwaits
    obtain ⟨n, hn, hwaitless⟩ := waitless_advance (hhand.waitless hwaits) h.sourced hready
    exact waitless_mono hwaitless (by omega)
  · exact (connectionKept_later hkept hkeeps.later).responses

theorem kept_receive {req : Request} {m : Moment p} (h : Kept inputs s)
    (hconn : s.connections c = some conn) (hreads : 0 < conn.session.reads)
    (hplain : req.isUpgrade = false) (hnul : 0 ∉ req.target) :
    Kept (inputs ++ [.receive c req m])
      ((s.arrive req).setConnection c { conn with working := some ⟨req, serve p m req⟩ }) := by
  have hkept := connectionKept_later (h.connections c conn hconn) (@later_arrive p s req)
  apply kept_setConnection (kept_arrive h)
  refine ⟨hkept.admissible, hkept.session_eq, ?_, hkept.responses⟩
  intro work hwork
  obtain rfl := Option.some.inj hwork
  have harrived : req ∈ (s.arrive req).shared.arrived :=
    List.mem_append_right _ (List.mem_singleton.mpr rfl)
  exact ⟨⟨safe_replied harrived hnul, waitless_serve hnul, hplain⟩, hreads⟩

/-- Every event of the server keeps this, in any order. -/
theorem kept_inductive (p : Platform) : (server p).Inductive (Kept (p := p)) where
  start := kept_init
  preserved inputs event _ h henabled := by
    obtain ⟨-, hpossible⟩ := henabled
    generalize (server p).run inputs = s at h hpossible
    show Kept (inputs ++ [event]) (step s event)
    cases event with
    | accept c outcome now =>
      by_cases hgone : outcome.Gone
      · obtain ⟨listener, heq⟩ := @step_accept_gone p s c outcome now hgone
        rw [heq]
        have hkept := @kept_event p inputs s (.accept c outcome now) h rfl
        exact ⟨hkept.sourced, hkept.arrived, hkept.connections⟩
      · obtain ⟨listener, heq⟩ := @step_accept p s c outcome now hgone
        rw [heq]
        have hkept : Kept (inputs ++ [.accept c outcome now]) { s with listener := listener } := by
          have hsame := @kept_event p inputs s (.accept c outcome now) h rfl
          exact ⟨hsame.sourced, hsame.arrived, hsame.connections⟩
        cases outcome with
        | error => exact hkept
        | accepted socket => exact kept_setConnection hkept (connectionKept_make now)
    | complete c event =>
      obtain ⟨conn, hconn, henabled, hevent, hidle⟩ := hpossible
      rw [step_complete hconn]
      apply kept_setConnection (@kept_event p inputs s (.complete c event) h rfl)
      exact connectionKept_complete (h.connections c conn hconn) henabled hevent hidle
    | receive c req m =>
      obtain ⟨conn, hconn, -, hreads, hplain, hnul⟩ := hpossible
      rw [step_receive hconn]
      exact kept_receive h hconn hreads hplain hnul
    | advance c m =>
      obtain ⟨conn, work, hconn, hworking, hready⟩ := hpossible
      rw [step_advance hconn hworking]
      exact kept_advance (@kept_event p inputs s (.advance c m) h rfl) hconn hworking hready
    | respond c now =>
      obtain ⟨conn, req, r, hconn, hworking⟩ := hpossible
      rw [step_respond hconn hworking]
      have hkept := @kept_event p inputs s (.respond c now) h rfl
      cases r with
      | ok res =>
        exact kept_setConnection hkept
          (connectionKept_respond (h.connections c conn hconn) hworking)
      | error e => exact ⟨hkept.sourced, hkept.arrived, hkept.connections⟩
    | thread sampleId newSnapId =>
      exact kept_setShared (@kept_event p inputs s (.thread sampleId newSnapId) h rfl)
        (keeps_frame h.sourced rfl rfl rfl rfl
          (allSound_runThread sampleId newSnapId h.sourced.sound))
    | destroyed newSnapId =>
      exact kept_setShared (@kept_event p inputs s (.destroyed newSnapId) h rfl)
        (keeps_frame h.sourced rfl rfl rfl rfl
          (allSound_runDestroyed (.thread newSnapId) h.sourced.sound))

end Invariant

end BeastServer.ServerRuns
