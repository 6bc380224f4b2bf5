import BeastServer.HttpSessions
import BeastServer.JsonParsers
import BeastServer.Machines
import BeastServer.Mailboxes
import BeastServer.MultiBuffers

/-!
One websocket connection: WebsocketSession with its timer, its message queue
and the thread that processes the messages.
The state counts the operations that are outstanding; an input is the
completion of one of them, a control frame, a failure of the stream or a step
of the processing thread, so the inputs of a run are an interleaving of them.
The wait on the condition variable may end at any time. What the session has
done is recorded in a log.
-/
namespace BeastServer.WebsocketSessions

open ByteStrings Exceptions JsonValues JsonParsers PictureJson HttpSessions Machines Mailboxes
open MultiBuffers

inductive WsError
  | success
  | operationAborted
  /-- boost::beast::websocket::error::closed -/
  | closed
  | other
  deriving DecidableEq

/-- Where the thread of processProc is. In pickMsg it may be blocked, which
the mailbox knows. -/
inductive Proc
  | notStarted
  /-- at the test of the loop -/
  | testing
  | picking
  | holding (msg : Bytes)
  | finished
  /-- after front() of an empty list, where the behaviour is undefined -/
  | undefined
  /-- after an exception has left the thread -/
  | terminated
  deriving DecidableEq

inductive Action
  | startRead
  | activity (now : ℤ)
  | append (msg : Bytes)
  | startPing (now : ℤ)
  | close (now : ℤ)
  deriving DecidableEq

structure WebsocketSession where
  /-- ws.is_open() -/
  isOpen : Bool
  /-- ws.next_layer() has not been closed. -/
  connected : Bool
  timer : Timer
  pingState : ℕ
  accepting : Bool
  /-- The numbers of outstanding async_read and async_ping operations. -/
  reads : ℕ
  pings : ℕ
  mailbox : Mailbox Bytes
  proc : Proc
  log : List Action
  /-- The accesses to the segments of the buffer. -/
  accesses : List Access

namespace WebsocketSession

def defaultTimeout : ℤ := 15

def perform (action : Action) (s : WebsocketSession) : WebsocketSession :=
  { s with log := s.log ++ [action] }

def expiresAfter (now : ℤ) (s : WebsocketSession) : WebsocketSession :=
  { s with timer := s.timer.expiresAt (.time (now + defaultTimeout)) }

def asyncWait (s : WebsocketSession) : WebsocketSession := { s with timer := s.timer.asyncWait }

def onTimer (error : WsError) (now : ℤ) (s : WebsocketSession) : WebsocketSession :=
  if error ≠ .success ∧ error ≠ .operationAborted then s
  else if s.timer.expiry.reached now then
    if s.isOpen = true ∧ s.pingState = 0 then
      asyncWait (perform (.startPing now)
        { expiresAfter now { s with pingState := 1 } with pings := s.pings + 1 })
    else perform (.close now) { s with connected := false }
  else asyncWait s

def activity (now : ℤ) (s : WebsocketSession) : WebsocketSession :=
  perform (.activity now) (expiresAfter now { s with pingState := 0 })

def onPing (error : WsError) (s : WebsocketSession) : WebsocketSession :=
  if error = .operationAborted then s
  else if error ≠ .success then s
  else if s.pingState = 1 then { s with pingState := 2 } else s

def onControlCallback (now : ℤ) (s : WebsocketSession) : WebsocketSession := activity now s

def doRead (s : WebsocketSession) : WebsocketSession :=
  perform .startRead { s with reads := s.reads + 1 }

/-- The string is made of the buffer and put into the queue. -/
def enqueue (buffer : MultiBuffer) (s : WebsocketSession) : WebsocketSession :=
  perform (.append buffer.msg)
    { s with
      mailbox := s.mailbox.put buffer.msg
      accesses := s.accesses ++ buffer.msgAccesses }

/-- utils::handleSystemError writes a line to the log of the server and
returns, so the other errors take the way of a successful read. -/
def onRead (error : WsError) (buffer : MultiBuffer) (now : ℤ) (s : WebsocketSession) :
    WebsocketSession :=
  if error = .operationAborted then s
  else if error = .closed then s
  else doRead (enqueue buffer (activity now s))

def onAccept (error : WsError) (s : WebsocketSession) : WebsocketSession :=
  if error = .operationAborted then s
  else if error ≠ .success then s
  else doRead { s with proc := .testing }

/-- msg.swap(queue.front()) and queue.pop_front() -/
def popMsg (s : WebsocketSession) : WebsocketSession :=
  match s.mailbox.take? with
  | some (msg, mailbox) => { s with mailbox := mailbox, proc := .holding msg }
  | none => { s with proc := .undefined }

/-- pickMsg until it blocks or returns. -/
def pickMsg (s : WebsocketSession) : WebsocketSession :=
  if s.mailbox.queue = [] then { s with mailbox := s.mailbox.block } else popMsg s

/-- The rest of pickMsg when the wait ends; the queue is not tested again. -/
def waitReturns (s : WebsocketSession) : WebsocketSession :=
  popMsg { s with mailbox := s.mailbox.unblock }

/-- The loop of processProc tests the stream. -/
def testOpen (s : WebsocketSession) : WebsocketSession :=
  { s with proc := if s.isOpen = true then .picking else .finished }

/-- The message is parsed; a parse_error is caught, other exceptions are not. -/
def parseMsg (host : Host) (msg : Bytes) : Proc :=
  if msg = [] then .testing
  else
    match parse host msg with
    | .ok _ _ => .testing
    | .error (.json .parseError _ _) _ => .testing
    | .error _ _ => .terminated

def processMsg (host : Host) (s : WebsocketSession) : WebsocketSession :=
  match s.proc with
  | .holding msg => { s with proc := parseMsg host msg }
  | _ => s

/-- WebsocketSession::doAccept of a session that has just been made. -/
def doAccept (start : ℤ) : WebsocketSession :=
  { expiresAfter start
      (onTimer .success start
        { isOpen := false, connected := true, timer := ⟨.max, 0, 0, 0⟩, pingState := 0,
          accepting := false, reads := 0, pings := 0, mailbox := .empty, proc := .notStarted,
          log := [], accesses := [] }) with
    accepting := true }

end WebsocketSession

open WebsocketSession

inductive Event
  | accept (error : WsError)
  | read (error : WsError) (buffer : MultiBuffer) (now : ℤ)
  | ping (error : WsError)
  | timerExpires (now : ℤ)
  | timer (error : WsError) (now : ℤ)
  /-- A ping, pong or close frame arrives while a read is outstanding. -/
  | control (now : ℤ)
  /-- An operation fails the stream; its completion comes later. -/
  | streamFails
  | testOpen
  | pickMsg
  /-- The wait on conditionForQueue returns, notified or not. -/
  | waitReturns
  | processMsg

def enabled (s : WebsocketSession) : Event → Prop
  | .accept _ => s.accepting = true
  | .read _ _ _ => 0 < s.reads
  | .ping _ => 0 < s.pings
  | .timerExpires now => 0 < s.timer.waiting ∧ s.timer.expiry.reached now = true
  | .timer .success _ => 0 < s.timer.expired
  | .timer .operationAborted _ => 0 < s.timer.aborted
  | .timer _ _ => False
  | .control _ => 0 < s.reads
  | .streamFails => 0 < s.reads + s.pings
  | .testOpen => s.proc = .testing
  | .pickMsg => s.proc = .picking ∧ s.mailbox.waiter = .none
  | .waitReturns => s.proc = .picking ∧ s.mailbox.waiter ≠ .none
  | .processMsg => ∃ msg, s.proc = .holding msg

instance decidableHolding (proc : Proc) : Decidable (∃ msg, proc = .holding msg) :=
  match proc with
  | .holding msg => isTrue ⟨msg, rfl⟩
  | .notStarted => isFalse (fun h => nomatch h.choose_spec)
  | .testing => isFalse (fun h => nomatch h.choose_spec)
  | .picking => isFalse (fun h => nomatch h.choose_spec)
  | .finished => isFalse (fun h => nomatch h.choose_spec)
  | .undefined => isFalse (fun h => nomatch h.choose_spec)
  | .terminated => isFalse (fun h => nomatch h.choose_spec)

instance decidableEnabled (s : WebsocketSession) (event : Event) : Decidable (enabled s event) :=
  match event with
  | .accept _ => inferInstanceAs (Decidable (s.accepting = true))
  | .read _ _ _ => inferInstanceAs (Decidable (0 < s.reads))
  | .ping _ => inferInstanceAs (Decidable (0 < s.pings))
  | .timerExpires now =>
    inferInstanceAs (Decidable (0 < s.timer.waiting ∧ s.timer.expiry.reached now = true))
  | .timer .success _ => inferInstanceAs (Decidable (0 < s.timer.expired))
  | .timer .operationAborted _ => inferInstanceAs (Decidable (0 < s.timer.aborted))
  | .timer .closed _ => isFalse not_false
  | .timer .other _ => isFalse not_false
  | .control _ => inferInstanceAs (Decidable (0 < s.reads))
  | .streamFails => inferInstanceAs (Decidable (0 < s.reads + s.pings))
  | .testOpen => inferInstanceAs (Decidable (s.proc = .testing))
  | .pickMsg => inferInstanceAs (Decidable (s.proc = .picking ∧ s.mailbox.waiter = .none))
  | .waitReturns => inferInstanceAs (Decidable (s.proc = .picking ∧ s.mailbox.waiter ≠ .none))
  | .processMsg => decidableHolding s.proc

def timerCompleted (error : WsError) (timer : Timer) : Timer :=
  match error with
  | .operationAborted => { timer with aborted := timer.aborted - 1 }
  | _ => { timer with expired := timer.expired - 1 }

/-- An operation on the stream that fails leaves it not open. -/
def completes (error : WsError) (s : WebsocketSession) : WebsocketSession :=
  { s with isOpen := s.isOpen && decide (error = .success) }

def step (host : Host) (s : WebsocketSession) : Event → WebsocketSession
  | .accept error =>
    onAccept error { s with accepting := false, isOpen := decide (error = .success) }
  | .read error buffer now =>
    onRead error buffer now (completes error { s with reads := s.reads - 1 })
  | .ping error => onPing error (completes error { s with pings := s.pings - 1 })
  | .timerExpires _ => { s with timer := timerExpires s.timer }
  | .timer error now => onTimer error now { s with timer := timerCompleted error s.timer }
  | .control now => onControlCallback now s
  | .streamFails => { s with isOpen := false }
  | .testOpen => WebsocketSession.testOpen s
  | .pickMsg => WebsocketSession.pickMsg s
  | .waitReturns => WebsocketSession.waitReturns s
  | .processMsg => WebsocketSession.processMsg host s

def session (host : Host) (start : ℤ) : Machine WebsocketSession Event where
  init := doAccept start
  enabled := enabled
  step := step host

instance decidableSession (host : Host) (start : ℤ) (s : WebsocketSession) (event : Event) :
    Decidable ((session host start).enabled s event) := decidableEnabled s event

end BeastServer.WebsocketSessions
