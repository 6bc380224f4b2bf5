import BeastServer.ByteStrings
import BeastServer.Machines
import BeastServer.Programs

/-!
Accepting connections: HttpListener and the threads of main.
An input is the completion of the accept operation in one of the threads that
run the io_context. The constructor of a session asks the socket for the remote
endpoint, which throws when the peer has gone, and this happens before the next
accept is started. Nothing between onAccept and io_context::run catches it.
-/
namespace BeastServer.HttpListeners

open ByteStrings Programs Machines

section Listener

/-- boost::asio::ip::tcp::endpoint, with the address as a text. -/
structure Endpoint where
  address : Bytes
  port : UInt16
  deriving DecidableEq

/-- boost::system::system_error -/
inductive SystemError
  | notConnected
  deriving DecidableEq

/-- An accepted socket; the endpoint is absent once the peer has disconnected. -/
structure Socket where
  remote : Option Endpoint
  deriving DecidableEq

def Socket.remoteEndpoint (socket : Socket) : Except SystemError Endpoint :=
  match socket.remote with
  | some endpoint => .ok endpoint
  | none => .error .notConnected

/-- The part of HttpSession that its constructor computes. -/
structure Session where
  peerAddress : Bytes
  deriving DecidableEq

/-- HttpSession::HttpSession -/
def makeSession (socket : Socket) : Except SystemError Session := do
  let address := (← socket.remoteEndpoint).address
  let port := (← socket.remoteEndpoint).port
  pure ⟨address ++ ascii ":" ++ decimal port.toNat⟩

structure HttpListener where
  /-- The number of outstanding async_accept operations. -/
  accepts : ℕ
  /-- The sessions that have been run. -/
  sessions : List Session
  deriving DecidableEq

abbrev ListenerProgram := Program SystemError HttpListener

def doAccept : ListenerProgram PUnit := modify (fun s => { s with accepts := s.accepts + 1 })

/-- How accepting a connection ends. -/
inductive Outcome
  | error
  | accepted (socket : Socket)
  deriving DecidableEq

def runSession (session : Session) : ListenerProgram PUnit :=
  modify (fun s => { s with sessions := s.sessions ++ [session] })

def onAccept (outcome : Outcome) : ListenerProgram PUnit := do
  match outcome with
  | .error => pure ⟨⟩
  | .accepted socket => do
    let session ← ofExcept (makeSession socket)
    runSession session
  doAccept

end Listener

section Threads

inductive Process
  | running
  /-- std::terminate has been called. -/
  | terminated
  /-- main has caught an exception, stopped the io_context and returned. -/
  | returned
  deriving DecidableEq

structure Server where
  listener : HttpListener
  process : Process
  deriving DecidableEq

/-- An accept operation completes in one of the runners or, as none, in the main thread. -/
structure Event (runners : ℕ) where
  thread : Option (Fin runners)
  outcome : Outcome
  deriving DecidableEq

variable {runners : ℕ}

/-- What an exception does that leaves io_context::run. In the main thread the
vector of the runners is destroyed before the exception is caught, and none of
the runners has been joined. -/
def escape (thread : Option (Fin runners)) : Process :=
  match thread with
  | some _ => .terminated
  | none => if runners = 0 then .returned else .terminated

def step (s : Server) (event : Event runners) : Server :=
  match s.process with
  | .running =>
    match (onAccept event.outcome).run { s.listener with accepts := s.listener.accepts - 1 } with
    | .ok _ listener => ⟨listener, .running⟩
    | .error _ listener => ⟨listener, escape event.thread⟩
  | _ => s

/-- The server after the first doAccept of HttpListener::run. -/
def server (runners : ℕ) : Machine Server (Event runners) where
  init := ⟨⟨1, []⟩, .running⟩
  enabled s _ := s.process = .running ∧ 0 < s.listener.accepts
  step := step

end Threads

section Steps

variable {runners : ℕ} {s : Server} {event : Event runners} {outcome : Outcome}
  {listener : HttpListener}

/-- The peer had disconnected before the session was constructed. -/
def Outcome.Gone (outcome : Outcome) : Prop := outcome = .accepted ⟨none⟩

/-- The sessions that an outcome leads to. -/
def Outcome.sessions : Outcome → List Session
  | .error => []
  | .accepted ⟨none⟩ => []
  | .accepted ⟨some endpoint⟩ =>
    [⟨endpoint.address ++ ascii ":" ++ decimal endpoint.port.toNat⟩]

theorem onAccept_run (h : ¬ outcome.Gone) :
    (onAccept outcome).run listener =
      .ok ⟨⟩ ⟨listener.accepts + 1, listener.sessions ++ outcome.sessions⟩ := by
  cases outcome with
  | error =>
    rw [Outcome.sessions, List.append_nil]
    rfl
  | accepted socket =>
    obtain ⟨remote⟩ := socket
    cases remote with
    | none => exact absurd rfl h
    | some endpoint => rfl

theorem onAccept_throws (h : outcome.Gone) :
    (onAccept outcome).run listener = .error .notConnected listener := by
  rw [h]
  rfl

theorem step_accepts (hrunning : s.process = .running) (h : ¬ event.outcome.Gone) :
    step s event = ⟨⟨s.listener.accepts - 1 + 1, s.listener.sessions ++ event.outcome.sessions⟩,
      .running⟩ := by
  unfold step
  rw [hrunning, onAccept_run h]

theorem step_escapes (hrunning : s.process = .running) (h : event.outcome.Gone) :
    step s event = ⟨⟨s.listener.accepts - 1, s.listener.sessions⟩, escape event.thread⟩ := by
  unfold step
  rw [hrunning, onAccept_throws h]

theorem escape_ne_running (thread : Option (Fin runners)) : escape thread ≠ .running := by
  cases thread with
  | some runner => simp [escape]
  | none =>
    by_cases hrunners : runners = 0
    · simp [escape, hrunners]
    · simp [escape, hrunners]

end Steps

section Runs

variable {runners : ℕ}

/-- The accept operation can complete, exactly one is outstanding afterwards,
and no exception has left io_context::run. -/
def Rearmed (before : List (Event runners)) (event : Event runners) : Prop :=
  (server runners).enabled ((server runners).run before) event ∧
    ((server runners).run (before ++ [event])).listener.accepts = 1 ∧
      ((server runners).run (before ++ [event])).process = .running

/-- While no peer has gone, every connection gets its session and one accept
operation is outstanding. -/
theorem run_eq (inputs : List (Event runners)) (h : ∀ event ∈ inputs, ¬ event.outcome.Gone) :
    (server runners).run inputs =
      ⟨⟨1, inputs.flatMap (fun event => event.outcome.sessions)⟩, .running⟩ := by
  induction inputs using List.reverseRecOn with
  | nil => rfl
  | append_singleton inputs event ih =>
    have hbefore := ih (fun e he => h e (List.mem_append_left _ he))
    have hstep := @step_accepts runners ((server runners).run inputs) event
      (by rw [hbefore]) (h event (by simp))
    rw [hbefore] at hstep
    rw [Machine.run_append_singleton, hbefore, List.flatMap_append, List.flatMap_singleton]
    exact hstep

/-- The server accepts connections for ever exactly when no peer disconnects
between being accepted and the construction of its session. -/
theorem accepting_iff_none_gone (inputs : List (Event runners)) :
    Everywhere Rearmed inputs ↔ ∀ event ∈ inputs, ¬ event.outcome.Gone := by
  induction inputs using List.reverseRecOn with
  | nil => exact iff_of_true (everywhere_nil _) (by simp)
  | append_singleton inputs event ih =>
    rw [everywhere_append_singleton, ih]
    constructor
    · intro h
      obtain ⟨hbefore, henabled, -, hrunning⟩ := h
      intro e he
      rcases List.mem_append.mp he with hmem | hmem
      · exact hbefore e hmem
      · rw [List.mem_singleton.mp hmem]
        intro hgone
        rw [Machine.run_append_singleton] at hrunning
        have hescaped := @step_escapes runners _ event henabled.1 hgone
        exact escape_ne_running event.thread
          ((congrArg Server.process hescaped).symm.trans hrunning)
    · intro h
      have hbefore : ∀ e ∈ inputs, ¬ e.outcome.Gone :=
        fun e he => h e (List.mem_append_left _ he)
      refine ⟨hbefore, ?_, ?_, ?_⟩
      · rw [run_eq inputs hbefore]
        exact ⟨rfl, Nat.one_pos⟩
      · rw [run_eq _ h]
      · rw [run_eq _ h]

/-- A client that connects and resets at once ends the server. -/
theorem gone_peer_ends_server :
    ¬ Everywhere Rearmed [(⟨some 0, .accepted ⟨none⟩⟩ : Event 3)] ∧
      ((server 3).run [⟨some 0, .accepted ⟨none⟩⟩]).listener.accepts = 0 ∧
        ((server 3).run [⟨some 0, .accepted ⟨none⟩⟩]).process = .terminated := by
  refine ⟨?_, rfl, rfl⟩
  intro h
  obtain ⟨-, haccepts, -⟩ := h [] ⟨some 0, .accepted ⟨none⟩⟩ [] rfl
  cases haccepts

end Runs

end BeastServer.HttpListeners
