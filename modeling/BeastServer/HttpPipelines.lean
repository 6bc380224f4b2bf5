import BeastServer.HttpSessions

/-!
The pipelining invariant of an HTTP session.
In every run at most one read and one write are outstanding and at most sixteen
responses are queued. While no operation fails, no response asks to close and
no request asks to upgrade, a read is outstanding exactly when the queue has
room, the response at its front is being written, and the responses written
and queued are those of the requests in the order in which they were read.
-/
namespace BeastServer.HttpPipelines

open ByteStrings HttpMessages HttpSessions HttpSession Machines

variable {s : HttpSession} {exchange : Exchange} {now : ℤ}

section Operations

@[simp] theorem doRead_socket : (doRead now s).socket = s.socket := rfl

@[simp] theorem doRead_workers : (doRead now s).workers = s.workers := rfl

@[simp] theorem doRead_reads : (doRead now s).reads = s.reads + 1 := rfl

@[simp] theorem doRead_writes : (doRead now s).writes = s.writes := rfl

@[simp] theorem doRead_dispatched : (doRead now s).dispatched = s.dispatched := rfl

@[simp] theorem doRead_written : (doRead now s).written = s.written := rfl

theorem startFront_eq :
    startFront s = { s with writes := s.writes ++ s.workers.head?.toList } := by
  unfold startFront
  split
  · rename_i hworkers
    have hnone : s.writes ++ s.workers.head?.toList = s.writes := by
      rw [hworkers, List.head?_nil, Option.toList_none, List.append_nil]
    rw [hnone]
  · rename_i msg rest hworkers
    have hsome : s.workers.head?.toList = [msg] := by
      rw [hworkers, List.head?_cons, Option.toList_some]
    rw [hsome]

theorem dispatch_eq :
    dispatch exchange s =
      { s with
        dispatched := s.dispatched ++ [exchange]
        workers := s.workers ++ [exchange.response]
        writes := if s.workers = [] then s.writes ++ [exchange.response] else s.writes } := by
  unfold dispatch enqueue
  by_cases hworkers : s.workers = []
  · simp [hworkers, startFront]
  · simp [hworkers]

/-- A request without upgrade: its response is queued, and the next read starts
while there is room. -/
theorem onRead_request (hplain : exchange.request.isUpgrade = false) :
    onRead (.request exchange) now s =
      if limit ≤ s.workers.length + 1 then dispatch exchange s
      else doRead now (dispatch exchange s) := by
  simp [onRead, hplain, readNext, isFull, dispatch_eq]

theorem onWrite_next {msg : Response} (hopen : msg.needEof = false) :
    onWrite .success msg.needEof now s =
      if limit ≤ s.workers.length then
        doRead now (startFront { s with workers := s.workers.tail })
      else startFront { s with workers := s.workers.tail } := by
  simp [onWrite, hopen, queueOnWrite, isFull]

end Operations

section Received

/-- The requests that the reads of a run deliver, upgrades included. -/
def received (inputs : List Event) : List Exchange :=
  inputs.filterMap (fun event =>
    match event with
    | .read (.request exchange) _ => some exchange
    | _ => none)

@[simp] theorem received_append (first second : List Event) :
    received (first ++ second) = received first ++ received second := by
  simp [received]

@[simp] theorem received_request (exchange : Exchange) (now : ℤ) :
    received [.read (.request exchange) now] = [exchange] := rfl

@[simp] theorem received_failed (error : ErrorCode) (now : ℤ) :
    received [.read (.failed error) now] = [] := rfl

@[simp] theorem received_write (error : ErrorCode) (now : ℤ) :
    received [.write error now] = [] := rfl

@[simp] theorem received_timerExpires (now : ℤ) : received [.timerExpires now] = [] := rfl

@[simp] theorem received_timer (error : ErrorCode) (now : ℤ) :
    received [.timer error now] = [] := rfl

end Received

section Timer

theorem doClose_frame : ∃ socket, doClose s = { s with socket := socket } ∧
    (s.socket = .upgraded ↔ socket = .upgraded) := by
  unfold doClose
  cases hsocket : s.socket with
  | upgraded =>
    have hsame : s = { s with socket := .upgraded } := by rw [← hsocket]
    exact ⟨.upgraded, hsame, by simp⟩
  | opened => exact ⟨.closed, rfl, by simp⟩
  | closed => exact ⟨.closed, rfl, by simp⟩

/-- The timer touches nothing but itself and the socket. -/
theorem onTimer_frame (error : ErrorCode) (now : ℤ) :
    ∃ socket timer, onTimer error now s = { s with socket := socket, timer := timer } ∧
      (s.socket = .upgraded ↔ socket = .upgraded) := by
  unfold onTimer
  split
  · exact ⟨s.socket, s.timer, rfl, Iff.rfl⟩
  · split
    · exact ⟨s.socket, s.timer, rfl, Iff.rfl⟩
    · split
      · obtain ⟨socket, hclose, hsocket⟩ := @doClose_frame s
        exact ⟨socket, s.timer, hclose, hsocket⟩
      · exact ⟨s.socket, s.timer.asyncWait, rfl, Iff.rfl⟩

theorem step_timer_frame (error : ErrorCode) (now : ℤ) :
    ∃ socket timer, step s (.timer error now) = { s with socket := socket, timer := timer } ∧
      (s.socket = .upgraded ↔ socket = .upgraded) :=
  @onTimer_frame { s with timer := timerCompleted error s.timer } error now

end Timer

section Ordinary

/-- A completion without error, closing response or upgrade. -/
def Ordinary : Event → Prop
  | .read (.request exchange) _ =>
    exchange.request.isUpgrade = false ∧ exchange.response.needEof = false
  | .read (.failed _) _ => False
  | .write error _ => error = .success
  | .timerExpires _ => True
  | .timer _ _ => True

/-- One write is outstanding exactly when the queue is not empty, for its
front; one read is outstanding exactly when the queue is not full; what has
been written and what is queued are the responses in the order of the reads. -/
structure Pipelined (inputs : List Event) (s : HttpSession) : Prop where
  bounded : s.workers.length ≤ limit
  writes : s.writes = s.workers.head?.toList
  reads : s.reads = if s.workers.length < limit then 1 else 0
  order : s.written ++ s.workers = (received inputs).map Exchange.response

theorem pipelined_run (start : ℤ) : Pipelined [] (HttpSession.run start) := by
  constructor <;> simp [HttpSession.run, doRead, onTimer, Deadline.reached, received, limit]

theorem pipelined_read {inputs : List Event} (h : Pipelined inputs s)
    (hreads : 0 < s.reads) (hplain : exchange.request.isUpgrade = false) :
    Pipelined (inputs ++ [.read (.request exchange) now])
      (onRead (.request exchange) now { s with reads := s.reads - 1 }) := by
  have hroom : s.workers.length < limit := by
    by_contra hfull
    rw [h.reads, if_neg hfull] at hreads
    omega
  have hone : s.reads = 1 := by rw [h.reads, if_pos hroom]
  have hwrites : (if s.workers = [] then s.writes ++ [exchange.response] else s.writes) =
      (s.workers ++ [exchange.response]).head?.toList := by
    rw [h.writes]
    cases s.workers with
    | nil => rfl
    | cons msg rest => rfl
  have horder : s.written ++ (s.workers ++ [exchange.response]) =
      (received (inputs ++ [.read (.request exchange) now])).map Exchange.response := by
    rw [← List.append_assoc, h.order, received_append, received_request, List.map_append]
    rfl
  have hlength : (s.workers ++ [exchange.response]).length = s.workers.length + 1 := by simp
  rw [onRead_request hplain]
  by_cases hfull : limit ≤ s.workers.length + 1
  · rw [if_pos hfull, dispatch_eq]
    refine ⟨?_, hwrites, ?_, horder⟩
    · change (s.workers ++ [exchange.response]).length ≤ limit
      omega
    · change s.reads - 1 = if (s.workers ++ [exchange.response]).length < limit then 1 else 0
      rw [if_neg (by omega)]
      omega
  · rw [if_neg hfull, dispatch_eq]
    refine ⟨?_, hwrites, ?_, horder⟩
    · change (s.workers ++ [exchange.response]).length ≤ limit
      omega
    · change s.reads - 1 + 1 = if (s.workers ++ [exchange.response]).length < limit then 1 else 0
      rw [if_pos (by omega)]
      omega

theorem pipelined_write {inputs : List Event} (h : Pipelined inputs s) (hwriting : s.writes ≠ [])
    (hopen : ∀ msg ∈ s.workers, msg.needEof = false) :
    Pipelined (inputs ++ [.write .success now]) (completeWrite .success now s) := by
  cases hworkers : s.workers with
  | nil =>
    rw [h.writes, hworkers] at hwriting
    simp at hwriting
  | cons msg rest =>
    have hwrites : s.writes = [msg] := by rw [h.writes, hworkers]; rfl
    have hbounded := h.bounded
    have hreads := h.reads
    have horder := h.order
    rw [hworkers, List.length_cons] at hbounded hreads
    rw [hworkers] at horder
    have horder' : (s.written ++ [msg]) ++ rest =
        (received (inputs ++ [.write .success now])).map Exchange.response := by
      rw [received_append, received_write, List.append_nil, ← horder]
      simp
    have hmsg : msg.needEof = false := hopen msg (by rw [hworkers]; exact List.mem_cons_self)
    unfold completeWrite
    simp only [hwrites, if_true]
    rw [onWrite_next hmsg]
    simp only [hworkers, List.length_cons, List.tail_cons, startFront_eq, List.nil_append]
    by_cases hfull : limit ≤ rest.length + 1
    · rw [if_pos hfull]
      refine ⟨by simp only [doRead]; omega, rfl, ?_, horder'⟩
      rw [if_neg (by omega)] at hreads
      simp only [doRead, hreads]
      rw [if_pos (by omega)]
    · rw [if_neg hfull]
      refine ⟨by simp only; omega, rfl, ?_, horder'⟩
      rw [if_pos (by omega)] at hreads
      simp only [hreads]
      rw [if_pos (by omega)]

theorem pipelined_frame {inputs : List Event} {event : Event} {next : HttpSession}
    (h : Pipelined inputs s) (hevent : received [event] = []) (hworkers : next.workers = s.workers)
    (hreads : next.reads = s.reads) (hwrites : next.writes = s.writes)
    (hwritten : next.written = s.written) : Pipelined (inputs ++ [event]) next := by
  constructor
  · rw [hworkers]
    exact h.bounded
  · rw [hwrites, hworkers]
    exact h.writes
  · rw [hreads, hworkers]
    exact h.reads
  · rw [hwritten, hworkers, received_append, hevent, List.append_nil]
    exact h.order

theorem open_of_ordinary {inputs : List Event} (h : ∀ event ∈ inputs, Ordinary event) :
    ∀ exchange ∈ received inputs, exchange.response.needEof = false := by
  intro exchange hmem
  obtain ⟨event, hevent, hreceived⟩ := List.mem_filterMap.mp hmem
  have hordinary := h event hevent
  cases event with
  | read result now =>
    cases result with
    | failed error => simp at hreceived
    | request other =>
      obtain rfl := Option.some.inj hreceived
      exact hordinary.2
  | write error now => simp at hreceived
  | timerExpires now => simp at hreceived
  | timer error now => simp at hreceived

theorem pipelined_step {inputs : List Event} (event : Event) (h : Pipelined inputs s)
    (hall : ∀ event ∈ inputs, Ordinary event) (hevent : Ordinary event)
    (henabled : enabled s event) : Pipelined (inputs ++ [event]) (step s event) := by
  cases event with
  | read result now =>
    cases result with
    | failed error => exact hevent.elim
    | request exchange => exact pipelined_read h henabled hevent.1
  | write error now =>
    obtain rfl : error = .success := hevent
    refine pipelined_write h henabled ?_
    intro msg hmsg
    have hmem : msg ∈ (received inputs).map Exchange.response := by
      rw [← h.order]
      exact List.mem_append_right _ hmsg
    obtain ⟨exchange, hexchange, rfl⟩ := List.mem_map.mp hmem
    exact open_of_ordinary hall exchange hexchange
  | timerExpires now => exact pipelined_frame h rfl rfl rfl rfl rfl
  | timer error now =>
    obtain ⟨socket, timer, heq, -⟩ := @step_timer_frame s error now
    rw [heq]
    exact pipelined_frame h rfl rfl rfl rfl rfl

theorem pipelined_inductive (start : ℤ) :
    (session start).Inductive (fun inputs s =>
      (∀ event ∈ inputs, Ordinary event) → Pipelined inputs s) where
  start _ := pipelined_run start
  preserved inputs event _ ih henabled hall := by
    have hbefore : ∀ event ∈ inputs, Ordinary event := fun e he => hall e (by simp [he])
    exact pipelined_step event (ih hbefore) hbefore (hall event (by simp)) henabled

end Ordinary

section Samples

/-- A request for the given target, answered by an empty response. -/
def sampleExchange (target : String) (keepAlive upgradeFields : Bool) : Exchange where
  request := {
    method := .get, target := ascii target, version := 11, keepAlive := keepAlive,
    upgradeFields := upgradeFields, body := [] }
  response := Response.preparePayload {
    status := 200, version := 11, server := [], contentType := [], contentLength := none,
    keepAlive := keepAlive, body := [] }

end Samples

/-- In every run of ordinary completions the session is pipelined: the queue
holds at most sixteen responses, one write is outstanding exactly when it is
not empty, one read exactly when it is not full, and the responses are written
in the order of their requests, each once. -/
theorem pipelining_invariant (start : ℤ) (inputs : List Event)
    (h : (session start).Admissible inputs) (hordinary : ∀ event ∈ inputs, Ordinary event) :
    Pipelined inputs ((session start).run inputs) :=
  (pipelined_inductive start).run inputs h hordinary

def twoPipelined : List Event :=
  [.read (.request (sampleExchange "/a" true false)) 1, .timer .operationAborted 1,
    .read (.request (sampleExchange "/b" true false)) 2, .write .success 3, .write .success 4]

theorem pipelining_invariant_two :
    Pipelined twoPipelined ((session 0).run twoPipelined) :=
  pipelining_invariant 0 twoPipelined
    (Machine.admissible_of_enabledFrom (session 0) twoPipelined (by decide +kernel))
    (by simp [twoPipelined, Ordinary, sampleExchange, Request.isUpgrade, Response.needEof,
      Response.preparePayload])

end BeastServer.HttpPipelines
