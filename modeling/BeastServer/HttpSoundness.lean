import BeastServer.HttpPipelines
import Mathlib.Order.Nat

/-!
What holds in every run of an HTTP session, errors included.
A response that asks to close never leaves the queue, so nothing behind it is
written, and the queue limits how many requests are dispatched after it. When
a request asks for an upgrade the reading stops, whatever is still queued.
-/
namespace BeastServer.HttpSoundness

open HttpMessages HttpSessions HttpSession HttpPipelines Machines

variable {s : HttpSession} {exchange : Exchange} {now : ℤ} {inputs : List Event}

/-- The responses that have left the queue, what is being written and what has
been written. A response that asks to close stays at the front for ever. -/
structure Queued (s : HttpSession) (popped : List Response) : Prop where
  order : popped ++ s.workers = s.dispatched.map Exchange.response
  open_popped : ∀ msg ∈ popped, msg.needEof = false
  writes : s.writes = [] ∨ s.writes = s.workers.head?.toList
  written : s.written = popped ∨
    (s.written = popped ++ s.workers.head?.toList ∧ s.writes = [] ∧ s.workers ≠ [])

/-- Before an upgrade all requests have been dispatched; after it no read is
outstanding and none will be started. -/
def Reading (inputs : List Event) (s : HttpSession) : Prop :=
  (s.socket ≠ .upgraded ∧ s.dispatched = received inputs ∧
      ∀ exchange ∈ received inputs, exchange.request.isUpgrade = false) ∨
    (s.socket = .upgraded ∧ s.reads = 0 ∧ s.workers.length < limit)

/-- What holds in every run, errors included. -/
structure Sound (inputs : List Event) (s : HttpSession) : Prop where
  bounded : s.workers.length ≤ limit
  reads : s.reads ≤ 1
  room : 0 < s.reads → s.workers.length < limit
  queued : ∃ popped, Queued s popped
  reading : Reading inputs s

theorem queued_dispatch {popped : List Response} (h : Queued s popped) :
    Queued (dispatch exchange s) popped := by
  rw [dispatch_eq]
  refine ⟨?_, h.open_popped, ?_, ?_⟩
  · change popped ++ (s.workers ++ [exchange.response]) = (s.dispatched ++ [exchange]).map _
    rw [← List.append_assoc, h.order, List.map_append]
    rfl
  · by_cases hempty : s.workers = []
    · have hnone : s.writes = [] := by
        rcases h.writes with hnone | hfront
        · exact hnone
        · rw [hfront, hempty]
          rfl
      simp [hempty, hnone]
    · rcases h.writes with hnone | hfront
      · exact Or.inl (by simp [hempty, hnone])
      · refine Or.inr ?_
        simp only [hempty, if_false, hfront]
        cases hworkers : s.workers with
        | nil => exact absurd hworkers hempty
        | cons msg rest => rfl
  · rcases h.written with hall | ⟨hfront, hnone, hne⟩
    · exact Or.inl hall
    · refine Or.inr ⟨?_, ?_, by simp⟩
      · simp only [hfront]
        cases hworkers : s.workers with
        | nil => exact absurd hworkers hne
        | cons msg rest => rfl
      · simp [hne, hnone]

theorem queued_congr {next : HttpSession} {popped : List Response} (h : Queued s popped)
    (hworkers : next.workers = s.workers) (hwrites : next.writes = s.writes)
    (hdispatched : next.dispatched = s.dispatched) (hwritten : next.written = s.written) :
    Queued next popped := by
  constructor
  · rw [hworkers, hdispatched]
    exact h.order
  · exact h.open_popped
  · rw [hwrites, hworkers]
    exact h.writes
  · rw [hwritten, hwrites, hworkers]
    exact h.written

/-- While a response is being written, only those before it have been written. -/
theorem written_of_writing {popped : List Response} (h : Queued s popped)
    (hwriting : s.writes ≠ []) : s.written = popped := by
  rcases h.written with hall | ⟨-, hnone, -⟩
  · exact hall
  · exact absurd hnone hwriting

/-- The response at the front has been written and leaves the queue. -/
theorem queued_pop {next : HttpSession} {popped rest : List Response} {msg : Response}
    (h : Queued s popped) (hfront : s.workers = msg :: rest) (hopen : msg.needEof = false)
    (hworkers : next.workers = rest) (hwrites : next.writes = rest.head?.toList)
    (hdispatched : next.dispatched = s.dispatched) (hwritten : next.written = popped ++ [msg]) :
    Queued next (popped ++ [msg]) := by
  constructor
  · rw [hworkers, hdispatched, ← h.order, hfront, List.append_assoc]
    rfl
  · intro m hm
    rcases List.mem_append.mp hm with hm | hm
    · exact h.open_popped m hm
    · rw [List.mem_singleton.mp hm, hopen]
  · rw [hworkers]
    exact Or.inr hwrites
  · exact Or.inl hwritten

/-- Nothing is received or dispatched, and no read is started. -/
theorem reading_frame {next : HttpSession} {event : Event} (h : Reading inputs s)
    (hevent : received [event] = []) (hsocket : s.socket = .upgraded ↔ next.socket = .upgraded)
    (hworkers : next.workers.length ≤ s.workers.length) (hreads : next.reads ≤ s.reads)
    (hdispatched : next.dispatched = s.dispatched) : Reading (inputs ++ [event]) next := by
  unfold Reading
  rw [received_append, hevent, List.append_nil, hdispatched, ← hsocket]
  rcases h with ⟨hopen, hall⟩ | ⟨hupgraded, hstopped, hroom⟩
  · exact Or.inl ⟨fun hup => hopen (hsocket.mpr hup), hall⟩
  · exact Or.inr ⟨hupgraded, by omega, by omega⟩

/-- A request that is not an upgrade is dispatched, and the reading goes on
while there is room. -/
theorem sound_request (h : Sound inputs s) (hreads : 0 < s.reads)
    (hplain : exchange.request.isUpgrade = false) :
    Sound (inputs ++ [.read (.request exchange) now])
      (onRead (.request exchange) now { s with reads := s.reads - 1 }) := by
  have hone := h.reads
  have hroom := h.room hreads
  obtain ⟨popped, hqueued⟩ := h.queued
  have hqueued' : Queued (dispatch exchange { s with reads := s.reads - 1 }) popped :=
    queued_dispatch (queued_congr hqueued rfl rfl rfl rfl)
  have hlength : (dispatch exchange { s with reads := s.reads - 1 }).workers.length =
      s.workers.length + 1 := by
    rw [dispatch_eq]
    simp
  have hzero : (dispatch exchange { s with reads := s.reads - 1 }).reads = 0 := by
    rw [dispatch_eq]
    change s.reads - 1 = 0
    omega
  have hreading : (dispatch exchange { s with reads := s.reads - 1 }).socket ≠ .upgraded ∧
      (dispatch exchange { s with reads := s.reads - 1 }).dispatched =
        received (inputs ++ [.read (.request exchange) now]) ∧
      ∀ x ∈ received (inputs ++ [.read (.request exchange) now]), x.request.isUpgrade = false := by
    rcases h.reading with ⟨hsocket, hdispatched, hnone⟩ | ⟨-, hstopped, -⟩
    · rw [dispatch_eq, received_append, received_request]
      refine ⟨hsocket, by simp [hdispatched], ?_⟩
      intro x hx
      rcases List.mem_append.mp hx with hx | hx
      · exact hnone x hx
      · rw [List.mem_singleton.mp hx, hplain]
    · omega
  rw [onRead_request hplain]
  by_cases hfull : limit ≤ s.workers.length + 1
  · rw [if_pos hfull]
    refine ⟨by omega, by omega, by omega, ⟨popped, hqueued'⟩, Or.inl hreading⟩
  · rw [if_neg hfull]
    refine ⟨?_, ?_, ?_, ⟨popped, ?_⟩, Or.inl hreading⟩
    · rw [doRead_workers]
      omega
    · rw [doRead_reads]
      omega
    · rw [doRead_workers]
      omega
    · exact queued_congr hqueued' rfl rfl rfl rfl

theorem sound_upgrade (h : Sound inputs s) (hreads : 0 < s.reads) (event : Event) :
    Sound (inputs ++ [event]) (upgrade { s with reads := s.reads - 1 }) := by
  have hone := h.reads
  have hroom := h.room hreads
  obtain ⟨popped, hqueued⟩ := h.queued
  have hzero : s.reads - 1 = 0 := by omega
  refine ⟨h.bounded, ?_, fun _ => hroom, ⟨popped, ?_⟩, Or.inr ⟨rfl, hzero, hroom⟩⟩
  · change s.reads - 1 ≤ 1
    omega
  · exact queued_congr hqueued rfl rfl rfl rfl

/-- Steps that leave the queue and the reading alone, or stop a read. -/
theorem sound_frame {next : HttpSession} {event : Event} (h : Sound inputs s)
    (hevent : received [event] = []) (hsocket : s.socket = .upgraded ↔ next.socket = .upgraded)
    (hworkers : next.workers = s.workers) (hreads : next.reads ≤ s.reads)
    (hwrites : next.writes = s.writes) (hdispatched : next.dispatched = s.dispatched)
    (hwritten : next.written = s.written) : Sound (inputs ++ [event]) next := by
  obtain ⟨popped, hqueued⟩ := h.queued
  refine ⟨?_, hreads.trans h.reads, ?_, ⟨popped, ?_⟩, ?_⟩
  · rw [hworkers]
    exact h.bounded
  · intro hpos
    rw [hworkers]
    exact h.room (by omega)
  · exact queued_congr hqueued hworkers hwrites hdispatched hwritten
  · exact reading_frame h.reading hevent hsocket (by rw [hworkers]) hreads hdispatched

/-- A write that fails, or whose response asks to close, is the last one. -/
theorem sound_lastWrite {next : HttpSession} {event : Event} {msg : Response}
    {rest : List Response} (h : Sound inputs s) (hevent : received [event] = [])
    (hfront : s.workers = msg :: rest) (hwriting : s.writes ≠ [])
    (hsocket : s.socket = .upgraded ↔ next.socket = .upgraded)
    (hworkers : next.workers = s.workers) (hreads : next.reads = s.reads)
    (hwrites : next.writes = []) (hdispatched : next.dispatched = s.dispatched)
    (hwritten : next.written = s.written ∨ next.written = s.written ++ [msg]) :
    Sound (inputs ++ [event]) next := by
  obtain ⟨popped, hqueued⟩ := h.queued
  have hpopped := written_of_writing hqueued hwriting
  refine ⟨?_, ?_, ?_, ⟨popped, ?_⟩, ?_⟩
  · rw [hworkers]
    exact h.bounded
  · rw [hreads]
    exact h.reads
  · rw [hreads, hworkers]
    exact h.room
  · refine ⟨?_, hqueued.open_popped, Or.inl hwrites, ?_⟩
    · rw [hworkers, hdispatched]
      exact hqueued.order
    · rcases hwritten with hsame | hmore
      · exact Or.inl (hsame.trans hpopped)
      · refine Or.inr ⟨?_, hwrites, ?_⟩
        · rw [hmore, hpopped, hworkers, hfront]
          rfl
        · rw [hworkers, hfront]
          exact List.cons_ne_nil msg rest
  · exact reading_frame h.reading hevent hsocket (by rw [hworkers]) hreads.le hdispatched

/-- A write without error of a response that keeps the connection open: the
next response is written, and reading resumes if the queue was full. -/
theorem sound_nextWrite {event : Event} {msg : Response} {rest : List Response}
    (h : Sound inputs s) (hevent : received [event] = []) (hfront : s.workers = msg :: rest)
    (hwriting : s.writes ≠ []) (hopen : msg.needEof = false) :
    Sound (inputs ++ [event])
      (onWrite .success msg.needEof now
        { s with writes := [], written := s.written ++ [msg] }) := by
  obtain ⟨popped, hqueued⟩ := h.queued
  have hbounded := h.bounded
  have hreads := h.reads
  have hroom := h.room
  rw [hfront, List.length_cons] at hbounded hroom
  have hpopped := written_of_writing hqueued hwriting
  rw [onWrite_next hopen, startFront_eq]
  change Sound _ (if limit ≤ s.workers.length then _ else _)
  by_cases hfull : limit ≤ s.workers.length
  · rw [if_pos hfull]
    rw [hfront, List.length_cons] at hfull
    have hstopped : s.reads = 0 := by omega
    refine ⟨?_, ?_, fun _ => ?_, ⟨popped ++ [msg], ?_⟩, ?_⟩
    · simp only [doRead_workers, hfront, List.tail_cons]
      omega
    · simp [hstopped]
    · simp only [doRead_workers, hfront, List.tail_cons]
      omega
    · apply queued_pop hqueued hfront hopen
      · simp [hfront]
      · simp [hfront]
      · rfl
      · simp [hpopped]
    · rcases h.reading with ⟨hsocket, hall⟩ | ⟨-, -, hshort⟩
      · refine Or.inl ⟨hsocket, ?_⟩
        rw [received_append, hevent, List.append_nil]
        exact hall
      · rw [hfront, List.length_cons] at hshort
        omega
  · rw [if_neg hfull]
    have hshorter : s.workers.tail.length ≤ s.workers.length := by simp
    refine ⟨?_, hreads, fun hpos => ?_, ⟨popped ++ [msg], ?_⟩, ?_⟩
    · exact hshorter.trans h.bounded
    · exact hshorter.trans_lt (h.room hpos)
    · apply queued_pop hqueued hfront hopen
      · simp [hfront]
      · simp [hfront]
      · rfl
      · simp [hpopped]
    · exact reading_frame h.reading hevent Iff.rfl hshorter le_rfl rfl

theorem sound_write (error : ErrorCode) (h : Sound inputs s) (hwriting : s.writes ≠ []) :
    Sound (inputs ++ [.write error now]) (completeWrite error now s) := by
  obtain ⟨popped, hqueued⟩ := h.queued
  have hwrites : s.writes = s.workers.head?.toList := by
    rcases hqueued.writes with hnone | hfront
    · exact absurd hnone hwriting
    · exact hfront
  cases hworkers : s.workers with
  | nil =>
    rw [hworkers] at hwrites
    exact absurd hwrites hwriting
  | cons msg rest =>
    rw [hworkers] at hwrites
    have hone : s.writes = [msg] := hwrites
    have hcomplete : completeWrite error now s =
        onWrite error msg.needEof now
          { s with
            writes := []
            written := if error = .success then s.written ++ [msg] else s.written } := by
      unfold completeWrite
      rw [hone]
    rw [hcomplete]
    by_cases herror : error = .success
    · subst herror
      cases hclose : msg.needEof with
      | false =>
        rw [← hclose]
        exact sound_nextWrite h rfl hworkers hwriting hclose
      | true =>
        obtain ⟨socket, heq, hsocket⟩ :=
          @doClose_frame { s with writes := [], written := s.written ++ [msg] }
        have hlast : onWrite .success true now
            { s with writes := [], written := s.written ++ [msg] } =
              doClose { s with writes := [], written := s.written ++ [msg] } := by
          simp [onWrite]
        simp only [if_true]
        rw [hlast, heq]
        exact sound_lastWrite h rfl hworkers hwriting hsocket rfl rfl rfl rfl (Or.inr rfl)
    · have hfailed : onWrite error msg.needEof now
          { s with writes := [], written := s.written } =
            { s with writes := [], written := s.written } := by
        simp [onWrite, herror]
      rw [if_neg herror, hfailed]
      exact sound_lastWrite h rfl hworkers hwriting Iff.rfl rfl rfl rfl rfl (Or.inl rfl)

theorem sound_step (event : Event) (h : Sound inputs s) (henabled : enabled s event) :
    Sound (inputs ++ [event]) (step s event) := by
  cases event with
  | read result now =>
    have hreads : 0 < s.reads := henabled
    cases result with
    | failed error =>
      by_cases heof : error = .endOfStream
      · obtain ⟨socket, heq, hsocket⟩ := @doClose_frame { s with reads := s.reads - 1 }
        have hclose : step s (.read (.failed error) now) =
            doClose { s with reads := s.reads - 1 } := by
          simp [step, onRead, heof]
        rw [hclose, heq]
        exact sound_frame h rfl hsocket rfl (Nat.sub_le _ _) rfl rfl rfl
      · have hstop : step s (.read (.failed error) now) = { s with reads := s.reads - 1 } := by
          simp [step, onRead, heof]
        rw [hstop]
        exact sound_frame h rfl Iff.rfl rfl (Nat.sub_le _ _) rfl rfl rfl
    | request exchange =>
      cases hplain : exchange.request.isUpgrade with
      | false => exact sound_request h hreads hplain
      | true =>
        have hupgrade : step s (.read (.request exchange) now) =
            upgrade { s with reads := s.reads - 1 } := by
          simp [step, onRead, hplain]
        rw [hupgrade]
        exact sound_upgrade h hreads _
  | write error now => exact sound_write error h henabled
  | timerExpires now => exact sound_frame h rfl Iff.rfl rfl le_rfl rfl rfl rfl
  | timer error now =>
    obtain ⟨socket, timer, heq, hsocket⟩ := @step_timer_frame s error now
    rw [heq]
    exact sound_frame h rfl hsocket rfl le_rfl rfl rfl rfl

theorem sound_run (start : ℤ) : Sound [] (HttpSession.run start) := by
  have hone : (HttpSession.run start).reads = 1 := rfl
  refine ⟨Nat.zero_le _, hone.le, fun _ => Nat.succ_pos _, ⟨[], ?_⟩, Or.inl ⟨?_, rfl, ?_⟩⟩
  · exact ⟨rfl, by simp, Or.inl rfl, Or.inl rfl⟩
  · simp [HttpSession.run, doRead, onTimer, Deadline.reached]
  · simp [received]

theorem sound_inductive (start : ℤ) : (session start).Inductive Sound where
  start := sound_run start
  preserved _ event _ h henabled := sound_step event h henabled

/-- A closing response and all that follow it stay in the queue, and nothing
behind it is written. -/
theorem closing_stays {pre post : List Exchange} (h : Sound inputs s)
    (hdispatched : s.dispatched = pre ++ exchange :: post)
    (hclose : exchange.response.needEof = true) :
    post.length + 1 ≤ s.workers.length ∧
      s.written <+: (pre ++ [exchange]).map Exchange.response := by
  obtain ⟨popped, hqueued⟩ := h.queued
  have horder := hqueued.order
  rw [hdispatched, List.map_append, List.map_cons] at horder
  have hshort : popped.length ≤ pre.length := by
    by_contra hlong
    have hmem : exchange.response ∈ popped := by
      have hget : (popped ++ s.workers)[pre.length]? = some exchange.response := by
        rw [horder, List.getElem?_append_right (by simp)]
        simp
      rw [List.getElem?_append_left (by omega)] at hget
      exact List.mem_of_getElem? hget
    have hopen := hqueued.open_popped _ hmem
    rw [hclose] at hopen
    simp at hopen
  have hlengths := congrArg List.length horder
  simp only [List.length_append, List.length_cons, List.length_map] at hlengths
  refine ⟨by omega, ?_⟩
  have hwritten : s.written <+: popped ++ s.workers.take 1 := by
    rcases hqueued.written with hall | ⟨hfront, -, -⟩
    · rw [hall]
      exact List.prefix_append _ _
    · rw [hfront]
      cases s.workers with
      | nil => exact List.prefix_rfl
      | cons msg rest => exact List.prefix_rfl
  have hfirst : popped ++ s.workers.take 1 = (popped ++ s.workers).take (popped.length + 1) := by
    rw [List.take_append, List.take_of_length_le (Nat.le_succ popped.length),
      Nat.add_sub_cancel_left]
  have hall : (pre ++ [exchange]).map Exchange.response =
      (popped ++ s.workers).take (pre.length + 1) := by
    rw [horder, List.take_append, List.take_of_length_le (by simp), List.length_map,
      Nat.add_sub_cancel_left]
    simp
  rw [hall]
  rw [hfirst] at hwritten
  exact hwritten.trans (List.take_prefix_take_left (by omega))

end BeastServer.HttpSoundness
