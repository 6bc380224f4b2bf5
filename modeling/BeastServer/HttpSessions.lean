import BeastServer.HttpMessages
import BeastServer.Machines

/-!
One HTTP connection: HttpSession with its response queue and its timer.
The state counts the operations that are outstanding, and an input is the
completion of one of them with an outcome and a clock reading, so the inputs
of a run are the order in which the operations complete. A request comes with
the response that its handler enqueues before it returns. What has been
dispatched and what has been written is recorded in the state.
-/
namespace BeastServer.HttpSessions

open HttpMessages Machines

section Timer

inductive Deadline
  | min
  | time (t : ℤ)
  | max
  deriving DecidableEq

def Deadline.reached (now : ℤ) : Deadline → Bool
  | min => true
  | time t => decide (t ≤ now)
  | max => false

/-- The timer: waits that are pending, and completions that are queued, either
as expired or as aborted because the deadline was moved. -/
structure Timer where
  expiry : Deadline
  waiting : ℕ
  expired : ℕ
  aborted : ℕ
  deriving DecidableEq

namespace Timer

/-- Moving the deadline cancels the pending waits. -/
def expiresAt (timer : Timer) (deadline : Deadline) : Timer :=
  { timer with expiry := deadline, waiting := 0, aborted := timer.aborted + timer.waiting }

def asyncWait (timer : Timer) : Timer := { timer with waiting := timer.waiting + 1 }

end Timer

end Timer

section Session

inductive Socket
  | opened
  | closed
  | upgraded
  deriving DecidableEq

inductive ErrorCode
  | success
  | operationAborted
  | endOfStream
  | other
  deriving DecidableEq

/-- A request and the response that its handler enqueues. -/
structure Exchange where
  request : Request
  response : Response
  deriving DecidableEq

def limit : ℕ := 16

def timeout : ℤ := 15

structure HttpSession where
  socket : Socket
  timer : Timer
  workers : List Response
  /-- The number of outstanding async_read operations. -/
  reads : ℕ
  /-- The messages of the outstanding async_write operations. -/
  writes : List Response
  dispatched : List Exchange
  written : List Response
  deriving DecidableEq

namespace HttpSession

def doRead (now : ℤ) (s : HttpSession) : HttpSession :=
  { s with timer := s.timer.expiresAt (.time (now + timeout)), reads := s.reads + 1 }

/-- Closing a socket that has been moved away does nothing. -/
def doClose (s : HttpSession) : HttpSession :=
  match s.socket with
  | .upgraded => s
  | _ => { s with socket := .closed }

def onTimer (error : ErrorCode) (now : ℤ) (s : HttpSession) : HttpSession :=
  if error ≠ .success ∧ error ≠ .operationAborted then s
  else if s.timer.expiry = .min then s
  else if s.timer.expiry.reached now then doClose s
  else { s with timer := s.timer.asyncWait }

/-- The worker at the front starts to write its message. -/
def startFront (s : HttpSession) : HttpSession :=
  match s.workers with
  | [] => s
  | msg :: _ => { s with writes := s.writes ++ [msg] }

def isFull (s : HttpSession) : Bool := decide (s.workers.length ≥ limit)

/-- HttpSession::Queue::operator() -/
def enqueue (msg : Response) (s : HttpSession) : HttpSession :=
  let queued := { s with workers := s.workers ++ [msg] }
  if queued.workers.length = 1 then startFront queued else queued

/-- HttpSession::Queue::onWrite; the answer is whether the queue was full. -/
def queueOnWrite (s : HttpSession) : Bool × HttpSession :=
  (isFull s, startFront { s with workers := s.workers.tail })

def upgrade (s : HttpSession) : HttpSession :=
  { s with timer := s.timer.expiresAt .min, socket := .upgraded }

/-- The router calls the handler, which enqueues the response. -/
def dispatch (exchange : Exchange) (s : HttpSession) : HttpSession :=
  enqueue exchange.response { s with dispatched := s.dispatched ++ [exchange] }

def readNext (now : ℤ) (s : HttpSession) : HttpSession :=
  if isFull s then s else doRead now s

inductive ReadResult
  | failed (error : ErrorCode)
  | request (exchange : Exchange)
  deriving DecidableEq

def onRead (result : ReadResult) (now : ℤ) (s : HttpSession) : HttpSession :=
  match result with
  | .failed error => if error = .endOfStream then doClose s else s
  | .request exchange =>
    if exchange.request.isUpgrade then upgrade s
    else readNext now (dispatch exchange s)

def onWrite (error : ErrorCode) (close : Bool) (now : ℤ) (s : HttpSession) : HttpSession :=
  if error ≠ .success then s
  else if close then doClose s
  else
    let (full, next) := queueOnWrite s
    if full then doRead now next else next

/-- HttpSession::run of a session that has just been made. -/
def run (start : ℤ) : HttpSession :=
  doRead start (onTimer .success start
    { socket := .opened, timer := ⟨.max, 0, 0, 0⟩, workers := [], reads := 0, writes := [],
      dispatched := [], written := [] })

end HttpSession

open HttpSession

/-- Completions of outstanding operations; timerExpires lets a pending wait
complete once its deadline has been reached. -/
inductive Event
  | read (result : ReadResult) (now : ℤ)
  | write (error : ErrorCode) (now : ℤ)
  | timerExpires (now : ℤ)
  | timer (error : ErrorCode) (now : ℤ)
  deriving DecidableEq

def enabled (s : HttpSession) : Event → Prop
  | .read _ _ => 0 < s.reads
  | .write _ _ => s.writes ≠ []
  | .timerExpires now => 0 < s.timer.waiting ∧ s.timer.expiry.reached now = true
  | .timer .success _ => 0 < s.timer.expired
  | .timer .operationAborted _ => 0 < s.timer.aborted
  | .timer _ _ => False

instance decidableEnabled (s : HttpSession) (event : Event) : Decidable (enabled s event) :=
  match event with
  | .read _ _ => inferInstanceAs (Decidable (0 < s.reads))
  | .write _ _ => inferInstanceAs (Decidable (s.writes ≠ []))
  | .timerExpires now =>
    inferInstanceAs (Decidable (0 < s.timer.waiting ∧ s.timer.expiry.reached now = true))
  | .timer .success _ => inferInstanceAs (Decidable (0 < s.timer.expired))
  | .timer .operationAborted _ => inferInstanceAs (Decidable (0 < s.timer.aborted))
  | .timer .endOfStream _ => isFalse not_false
  | .timer .other _ => isFalse not_false

/-- The write of the message that was started first completes. -/
def completeWrite (error : ErrorCode) (now : ℤ) (s : HttpSession) : HttpSession :=
  match s.writes with
  | [] => s
  | msg :: rest =>
    onWrite error msg.needEof now
      { s with
        writes := rest
        written := if error = .success then s.written ++ [msg] else s.written }

def timerExpires (timer : Timer) : Timer :=
  { timer with waiting := timer.waiting - 1, expired := timer.expired + 1 }

def timerCompleted (error : ErrorCode) (timer : Timer) : Timer :=
  match error with
  | .operationAborted => { timer with aborted := timer.aborted - 1 }
  | _ => { timer with expired := timer.expired - 1 }

def step (s : HttpSession) : Event → HttpSession
  | .read result now => onRead result now { s with reads := s.reads - 1 }
  | .write error now => completeWrite error now s
  | .timerExpires _ => { s with timer := timerExpires s.timer }
  | .timer error now => onTimer error now { s with timer := timerCompleted error s.timer }

def session (start : ℤ) : Machine HttpSession Event where
  init := HttpSession.run start
  enabled := enabled
  step := step

instance decidableSession (start : ℤ) (s : HttpSession) (event : Event) :
    Decidable ((session start).enabled s event) := decidableEnabled s event

/-- The response that is enqueued can be told from the session. -/
theorem enqueue_injective {s : HttpSession} {res other : Response}
    (h : s.enqueue res = s.enqueue other) : res = other := by
  have hworkers : ∀ msg, (s.enqueue msg).workers = s.workers ++ [msg] := by
    intro msg
    unfold HttpSession.enqueue HttpSession.startFront
    simp only
    split
    · split
      · rfl
      · rfl
    · rfl
  have hlast := congrArg HttpSession.workers h
  rw [hworkers, hworkers] at hlast
  exact List.singleton_inj.mp (List.append_cancel_left hlast)

end Session

end BeastServer.HttpSessions
