import BeastServer.HttpSoundness

/-!
The deadline of an HTTP session.
A read moves the deadline, which aborts the wait that is pending; its completion
arms the timer again, and so does a completion that comes too early. So one wait
is pending or completed until the timer closes the socket. An upgrade moves the
deadline to the minimum, which no later read undoes.
-/
namespace BeastServer.SessionDeadlines

open HttpMessages HttpSessions HttpSession HttpPipelines HttpSoundness Machines

section Timers

variable {timer : Timer} {deadline : Deadline}

/-- Waits that are pending and completions that are queued. -/
def outstanding (timer : Timer) : ℕ := timer.waiting + timer.expired + timer.aborted

@[simp] theorem outstanding_expiresAt :
    outstanding (timer.expiresAt deadline) = outstanding timer := by
  simp only [outstanding, Timer.expiresAt]
  omega

@[simp] theorem outstanding_asyncWait : outstanding timer.asyncWait = outstanding timer + 1 := by
  simp only [outstanding, Timer.asyncWait]
  omega

theorem outstanding_timerExpires (h : 0 < timer.waiting) :
    outstanding (timerExpires timer) = outstanding timer := by
  simp only [outstanding, timerExpires]
  omega

theorem outstanding_timerCompleted {s : HttpSession} {error : ErrorCode} {now : ℤ}
    (h : enabled s (.timer error now)) :
    outstanding (timerCompleted error s.timer) + 1 = outstanding s.timer := by
  cases error with
  | success =>
    have hexpired : 0 < s.timer.expired := h
    simp only [outstanding, timerCompleted]
    omega
  | operationAborted =>
    have haborted : 0 < s.timer.aborted := h
    simp only [outstanding, timerCompleted]
    omega
  | endOfStream => exact absurd h id
  | other => exact absurd h id

end Timers

section Observations

/-- The clock reading of a completion. -/
def clock : Event → ℤ
  | .read _ now => now
  | .write _ now => now
  | .timerExpires now => now
  | .timer _ now => now

/-- The event makes onTimer shut the socket down and close it, which an open
socket shows. -/
def Closes (s : HttpSession) (event : Event) : Prop :=
  ∃ error now, event = .timer error now ∧
    (step { s with socket := .opened } event).socket = .closed

def readsLeft (s : HttpSession) : Event → ℕ
  | .read _ _ => s.reads - 1
  | _ => s.reads

/-- The event makes doRead start a read. -/
def StartsRead (s : HttpSession) (event : Event) : Prop :=
  readsLeft s event < (step s event).reads

instance decidableStartsRead (s : HttpSession) (event : Event) : Decidable (StartsRead s event) :=
  inferInstanceAs (Decidable (_ < _))

/-- The session with the deadline that doRead has set last. -/
def follow (start : ℤ) (inputs : List Event) : HttpSession × ℤ :=
  inputs.foldl
    (fun seen event =>
      (step seen.1 event, if StartsRead seen.1 event then clock event + timeout else seen.2))
    (HttpSession.run start, start + timeout)

def lastDeadline (start : ℤ) (inputs : List Event) : ℤ := (follow start inputs).2

theorem follow_fst (start : ℤ) (inputs : List Event) :
    (follow start inputs).1 = (session start).run inputs := by
  induction inputs using List.reverseRecOn with
  | nil => rfl
  | append_singleton inputs event ih =>
    rw [Machine.run_append_singleton, ← ih, follow, List.foldl_append]
    rfl

theorem lastDeadline_append (start : ℤ) (inputs : List Event) (event : Event) :
    lastDeadline start (inputs ++ [event]) =
      if StartsRead ((session start).run inputs) event then clock event + timeout
      else lastDeadline start inputs := by
  rw [← follow_fst, lastDeadline, follow, List.foldl_append]
  rfl

end Observations

section Steps

variable {s : HttpSession} {event : Event} {error : ErrorCode} {now : ℤ} {inputs : List Event}

/-- What a step does to the deadline and the waits of the timer. -/
inductive TimerEffect (s : HttpSession) (event : Event) : Prop
  | reads (hopen : s.socket ≠ .upgraded) (hstill : (step s event).socket ≠ .upgraded)
      (hstarts : StartsRead s event)
      (htimer : (step s event).timer = s.timer.expiresAt (.time (clock event + timeout)))
      (hcloses : ¬ Closes s event)
  | keeps (hsocket : s.socket = .upgraded ↔ (step s event).socket = .upgraded)
      (hstarts : ¬ StartsRead s event) (hexpiry : (step s event).timer.expiry = s.timer.expiry)
      (houtstanding : outstanding (step s event).timer = outstanding s.timer)
      (hcloses : ¬ Closes s event)
  | upgrades (hupgraded : (step s event).socket = .upgraded) (hstarts : ¬ StartsRead s event)
      (hexpiry : (step s event).timer.expiry = .min) (hcloses : ¬ Closes s event)
  | closes (hsocket : s.socket = .upgraded ↔ (step s event).socket = .upgraded)
      (hstarts : ¬ StartsRead s event) (hexpiry : (step s event).timer.expiry = s.timer.expiry)
      (hreached : s.timer.expiry ≠ .min ∧ s.timer.expiry.reached (clock event) = true)
      (hcloses : Closes s event)
  | stops (hsocket : s.socket = .upgraded ↔ (step s event).socket = .upgraded)
      (hstarts : ¬ StartsRead s event) (hexpiry : (step s event).timer.expiry = s.timer.expiry)
      (hmin : s.timer.expiry = .min) (hcloses : ¬ Closes s event)

theorem not_closes_of_ne (h : ∀ error now, event ≠ .timer error now) : ¬ Closes s event := by
  intro hcloses
  obtain ⟨error, now, hevent, -⟩ := hcloses
  exact h error now hevent

variable {next : HttpSession}

theorem not_startsRead (hstep : step s event = next) (hreads : next.reads = readsLeft s event) :
    ¬ StartsRead s event := by
  unfold StartsRead
  rw [hstep]
  omega

theorem timerEffect_frame (hstep : step s event = next)
    (hsocket : s.socket = .upgraded ↔ next.socket = .upgraded)
    (hreads : next.reads = readsLeft s event) (htimer : next.timer = s.timer)
    (hcloses : ¬ Closes s event) : TimerEffect s event := by
  have hsame : (step s event).timer = s.timer := by rw [hstep, htimer]
  refine .keeps ?_ (not_startsRead hstep hreads) (by rw [hsame]) (by rw [hsame]) hcloses
  rw [hstep]
  exact hsocket

/-- A read is started on a session that is not upgraded. -/
theorem timerEffect_reads (hstep : step s event = next) (hopen : s.socket ≠ .upgraded)
    (hsocket : next.socket = s.socket) (hreads : next.reads = readsLeft s event + 1)
    (htimer : next.timer = s.timer.expiresAt (.time (clock event + timeout)))
    (hcloses : ¬ Closes s event) : TimerEffect s event := by
  refine .reads hopen ?_ ?_ ?_ hcloses
  · rw [hstep, hsocket]
    exact hopen
  · unfold StartsRead
    rw [hstep]
    omega
  · rw [hstep]
    exact htimer

/-- Before an upgrade the timer of a completion is armed again, unless its
deadline has passed; after one it is not. -/
theorem timerEffect_timer (henabled : enabled s (.timer error now)) :
    TimerEffect s (.timer error now) := by
  have hcompleted := outstanding_timerCompleted henabled
  have herror : ¬ (error ≠ .success ∧ error ≠ .operationAborted) := by
    cases error with
    | success => simp
    | operationAborted => simp
    | endOfStream => exact absurd henabled id
    | other => exact absurd henabled id
  have hexpiry : (timerCompleted error s.timer).expiry = s.timer.expiry := by
    cases error <;> rfl
  have hstep : ∀ t : HttpSession, t.timer = s.timer → step t (.timer error now) =
      if s.timer.expiry = .min then { t with timer := timerCompleted error s.timer }
      else if s.timer.expiry.reached now = true then
        doClose { t with timer := timerCompleted error s.timer }
      else { t with timer := (timerCompleted error s.timer).asyncWait } := by
    intro t ht
    simp only [step, onTimer, if_neg herror, ht, hexpiry]
  have hopened := hstep { s with socket := .opened } rfl
  have hself := hstep s rfl
  by_cases hmin : s.timer.expiry = .min
  · rw [if_pos hmin] at hopened hself
    refine .stops ?_ (not_startsRead hself rfl) ?_ hmin ?_
    · rw [hself]
    · rw [hself]
      exact hexpiry
    · intro hcloses
      obtain ⟨-, -, -, hclosed⟩ := hcloses
      rw [hopened] at hclosed
      cases hclosed
  · rw [if_neg hmin] at hopened hself
    by_cases hreached : s.timer.expiry.reached now = true
    · rw [if_pos hreached] at hopened hself
      obtain ⟨socket, hclose, hsocket⟩ :=
        @doClose_frame { s with timer := timerCompleted error s.timer }
      rw [hclose] at hself
      refine .closes ?_ (not_startsRead hself rfl) ?_ ⟨hmin, hreached⟩
        ⟨error, now, rfl, by rw [hopened]; rfl⟩
      · rw [hself]
        exact hsocket
      · rw [hself]
        exact hexpiry
    · rw [if_neg hreached] at hopened hself
      refine .keeps ?_ (not_startsRead hself rfl) ?_ ?_ ?_
      · rw [hself]
      · rw [hself]
        exact hexpiry
      · rw [hself, outstanding_asyncWait, hcompleted]
      · intro hcloses
        obtain ⟨-, -, -, hclosed⟩ := hcloses
        rw [hopened] at hclosed
        cases hclosed

theorem timerEffect_read (result : ReadResult) (h : Sound inputs s) (hreads : 0 < s.reads) :
    TimerEffect s (.read result now) := by
  have hcloses : ¬ Closes s (.read result now) := not_closes_of_ne (by simp)
  have hopen : s.socket ≠ .upgraded := by
    rcases h.reading with ⟨hopen, -, -⟩ | ⟨-, hnone, -⟩
    · exact hopen
    · omega
  cases result with
  | failed error =>
    by_cases heof : error = .endOfStream
    · obtain ⟨socket, hclose, hsocket⟩ := @doClose_frame { s with reads := s.reads - 1 }
      have hstep : step s (.read (.failed error) now) = _ :=
        (show _ = doClose { s with reads := s.reads - 1 } by simp [step, onRead, heof]).trans hclose
      exact timerEffect_frame hstep hsocket rfl rfl hcloses
    · have hstep : step s (.read (.failed error) now) = { s with reads := s.reads - 1 } := by
        simp [step, onRead, heof]
      exact timerEffect_frame hstep Iff.rfl rfl rfl hcloses
  | request exchange =>
    cases hplain : exchange.request.isUpgrade with
    | true =>
      have hstep : step s (.read (.request exchange) now) =
          upgrade { s with reads := s.reads - 1 } := by
        simp [step, onRead, hplain]
      refine .upgrades ?_ (not_startsRead hstep rfl) ?_ hcloses
      · rw [hstep]
        rfl
      · rw [hstep]
        rfl
    | false =>
      have hstep : step s (.read (.request exchange) now) =
          if limit ≤ s.workers.length + 1 then dispatch exchange { s with reads := s.reads - 1 }
          else doRead now (dispatch exchange { s with reads := s.reads - 1 }) :=
        onRead_request hplain
      by_cases hfull : limit ≤ s.workers.length + 1
      · rw [if_pos hfull, dispatch_eq] at hstep
        exact timerEffect_frame hstep Iff.rfl rfl rfl hcloses
      · rw [if_neg hfull, dispatch_eq] at hstep
        exact timerEffect_reads hstep hopen rfl rfl rfl hcloses

/-- A write may resume the reading, but not after an upgrade, since the queue
was not full then. -/
theorem timerEffect_write (h : Sound inputs s) (hwriting : s.writes ≠ []) :
    TimerEffect s (.write error now) := by
  have hcloses : ¬ Closes s (.write error now) := not_closes_of_ne (by simp)
  cases hwrites : s.writes with
  | nil => exact absurd hwrites hwriting
  | cons msg rest =>
    have hstep : step s (.write error now) =
        onWrite error msg.needEof now
          { s with
            writes := rest
            written := if error = .success then s.written ++ [msg] else s.written } := by
      simp only [step, completeWrite, hwrites]
    by_cases herror : error = .success
    · cases hclose : msg.needEof with
      | true =>
        obtain ⟨socket, heq, hsocket⟩ :=
          @doClose_frame { s with
            writes := rest
            written := if error = .success then s.written ++ [msg] else s.written }
        have hclosed := hstep.trans
          ((show onWrite error msg.needEof now _ = doClose _ by
            simp [onWrite, herror, hclose]).trans heq)
        exact timerEffect_frame hclosed hsocket rfl rfl hcloses
      | false =>
        subst herror
        rw [onWrite_next hclose, startFront_eq] at hstep
        by_cases hfull : limit ≤ s.workers.length
        · have hopen : s.socket ≠ .upgraded := by
            rcases h.reading with ⟨hopen, -, -⟩ | ⟨-, -, hroom⟩
            · exact hopen
            · omega
          rw [if_pos hfull] at hstep
          exact timerEffect_reads hstep hopen rfl rfl rfl hcloses
        · rw [if_neg hfull] at hstep
          exact timerEffect_frame hstep Iff.rfl rfl rfl hcloses
    · have hfailed := hstep.trans
        (show onWrite error msg.needEof now _ = _ by simp [onWrite, herror]; rfl)
      exact timerEffect_frame hfailed Iff.rfl rfl rfl hcloses

theorem timerEffect_step (event : Event) (h : Sound inputs s) (henabled : enabled s event) :
    TimerEffect s event := by
  cases event with
  | read result now => exact timerEffect_read result h henabled
  | write error now => exact timerEffect_write h henabled
  | timerExpires now =>
    refine .keeps Iff.rfl (lt_irrefl s.reads) rfl ?_ (not_closes_of_ne (by simp))
    exact outstanding_timerExpires henabled.1
  | timer error now => exact timerEffect_timer henabled

end Steps

section Runs

variable {start : ℤ} {s : HttpSession} {inputs : List Event} {event : Event}

/-- onTimer has not closed the socket. -/
def NeverCloses (start : ℤ) (inputs : List Event) : Prop :=
  Everywhere (fun before event => ¬ Closes ((session start).run before) event) inputs

/-- The deadline is the one that doRead set last, or the minimum after an
upgrade; and until the timer closes the socket one wait is outstanding. -/
structure Armed (start : ℤ) (inputs : List Event) (s : HttpSession) : Prop where
  sound : Sound inputs s
  expiry : (s.socket ≠ .upgraded ∧ s.timer.expiry = .time (lastDeadline start inputs)) ∨
    (s.socket = .upgraded ∧ s.timer.expiry = .min)
  outstanding : NeverCloses start inputs → s.socket ≠ .upgraded → outstanding s.timer = 1

theorem run_open (start : ℤ) : (HttpSession.run start).socket ≠ .upgraded := by
  simp [HttpSession.run, doRead, onTimer, Deadline.reached]

theorem armed_run (start : ℤ) : Armed start [] (HttpSession.run start) := by
  have htimer : (HttpSession.run start).timer = ⟨.time (start + timeout), 0, 0, 1⟩ := by
    simp [HttpSession.run, doRead, onTimer, Deadline.reached, Timer.expiresAt, Timer.asyncWait]
  refine ⟨sound_run start, Or.inl ⟨run_open start, ?_⟩, ?_⟩
  · rw [htimer]
    rfl
  · intro _ _
    rw [htimer]
    rfl

theorem armed_step (h : Armed start inputs ((session start).run inputs))
    (henabled : enabled ((session start).run inputs) event) :
    Armed start (inputs ++ [event]) (step ((session start).run inputs) event) := by
  obtain ⟨hsound, hexpiry, houtstanding⟩ := h
  have hsound' := sound_step event hsound henabled
  have hnever : NeverCloses start (inputs ++ [event]) ↔
      NeverCloses start inputs ∧ ¬ Closes ((session start).run inputs) event :=
    everywhere_append_singleton _ inputs event
  have hkept : ¬ StartsRead ((session start).run inputs) event →
      lastDeadline start (inputs ++ [event]) = lastDeadline start inputs := by
    intro hstarts
    rw [lastDeadline_append, if_neg hstarts]
  cases timerEffect_step event hsound henabled with
  | reads hopen hstill hstarts htimer hcloses =>
    refine ⟨hsound', Or.inl ⟨hstill, ?_⟩, ?_⟩
    · rw [htimer, lastDeadline_append, if_pos hstarts]
      rfl
    · intro hall _
      rw [htimer, outstanding_expiresAt]
      exact houtstanding (hnever.mp hall).1 hopen
  | keeps hsocket hstarts hsame hcount hcloses =>
    refine ⟨hsound', ?_, ?_⟩
    · rw [hsame, hkept hstarts, ← hsocket]
      simpa only [ne_eq, hsocket] using hexpiry
    · intro hall hstill
      rw [hcount]
      exact houtstanding (hnever.mp hall).1 (fun hup => hstill (hsocket.mp hup))
  | upgrades hupgraded hstarts hmin hcloses =>
    exact ⟨hsound', Or.inr ⟨hupgraded, hmin⟩, fun _ hstill => absurd hupgraded hstill⟩
  | closes hsocket hstarts hsame hreached hcloses =>
    refine ⟨hsound', ?_, fun hall _ => absurd hcloses (hnever.mp hall).2⟩
    rw [hsame, hkept hstarts, ← hsocket]
    simpa only [ne_eq, hsocket] using hexpiry
  | stops hsocket hstarts hsame hmin hcloses =>
    have hupgraded : ((session start).run inputs).socket = .upgraded := by
      rcases hexpiry with ⟨-, htime⟩ | ⟨hupgraded, -⟩
      · rw [hmin] at htime
        cases htime
      · exact hupgraded
    refine ⟨hsound', Or.inr ⟨hsocket.mp hupgraded, hsame.trans hmin⟩, ?_⟩
    intro _ hstill
    exact absurd (hsocket.mp hupgraded) hstill

theorem armed_inductive (start : ℤ) : (session start).Inductive (Armed start) where
  start := armed_run start
  preserved _ _ _ h henabled := armed_step h henabled

/-- The timer closes the socket only after the deadline, and not after an upgrade. -/
theorem deadline_of_closes (h : Armed start inputs s) (henabled : enabled s event)
    (hcloses : Closes s event) :
    s.socket ≠ .upgraded ∧ lastDeadline start inputs ≤ clock event := by
  cases timerEffect_step event h.sound henabled with
  | reads _ _ _ _ hnot => exact absurd hcloses hnot
  | keeps _ _ _ _ hnot => exact absurd hcloses hnot
  | upgrades _ _ _ hnot => exact absurd hcloses hnot
  | stops _ _ _ _ hnot => exact absurd hcloses hnot
  | closes hsocket hstarts hsame hreached _ =>
    rcases h.expiry with ⟨hopen, htime⟩ | ⟨-, hmin⟩
    · have hpassed := hreached.2
      rw [htime] at hpassed
      exact ⟨hopen, of_decide_eq_true hpassed⟩
    · exact absurd hmin hreached.1

end Runs

section Upgrades

variable {s : HttpSession} {now : ℤ}

theorem doClose_upgraded : (doClose s).socket = .upgraded ↔ s.socket = .upgraded := by
  obtain ⟨socket, hclose, hsocket⟩ := @doClose_frame s
  rw [hclose]
  exact hsocket.symm

theorem onWrite_upgraded (error : ErrorCode) (close : Bool) :
    (onWrite error close now s).socket = .upgraded ↔ s.socket = .upgraded := by
  simp only [onWrite, queueOnWrite, startFront_eq]
  split_ifs
  · exact Iff.rfl
  · exact doClose_upgraded
  · exact Iff.rfl
  · exact Iff.rfl

theorem readNext_socket : (readNext now s).socket = s.socket := by
  unfold readNext
  split
  · rfl
  · exact doRead_socket

/-- The socket is moved away when an upgrade is read, and at no other time. -/
theorem upgraded_step (event : Event) : (step s event).socket = .upgraded ↔
    s.socket = .upgraded ∨ ∃ exchange ∈ received [event], exchange.request.isUpgrade = true := by
  cases event with
  | read result now =>
    cases result with
    | failed error =>
      simp only [step, onRead, received_failed, List.not_mem_nil, false_and, exists_false, or_false]
      split_ifs
      · exact doClose_upgraded
      · exact Iff.rfl
    | request exchange =>
      simp only [step, onRead, received_request, List.mem_singleton, exists_eq_left]
      cases hupgrade : exchange.request.isUpgrade with
      | true => simp [upgrade]
      | false => simp [readNext_socket, dispatch_eq]
  | write error now =>
    simp only [step, completeWrite, received_write, List.not_mem_nil, false_and, exists_false,
      or_false]
    split
    · exact Iff.rfl
    · exact onWrite_upgraded error _
  | timerExpires now => simp [step]
  | timer error now =>
    obtain ⟨socket, timer, hstep, hsocket⟩ := @step_timer_frame s error now
    simp only [hstep, received_timer, List.not_mem_nil, false_and, exists_false, or_false]
    exact hsocket.symm

/-- The session is upgraded exactly when it has read an upgrade. -/
theorem upgraded_iff (start : ℤ) (inputs : List Event) :
    ((session start).run inputs).socket = .upgraded ↔
      ∃ exchange ∈ received inputs, exchange.request.isUpgrade = true := by
  induction inputs using List.reverseRecOn with
  | nil =>
    simp only [received, List.filterMap_nil, List.not_mem_nil, false_and, exists_false, iff_false]
    exact run_open start
  | append_singleton inputs event ih =>
    rw [Machine.run_append_singleton, received_append]
    simp only [List.mem_append, or_and_right, exists_or]
    rw [← ih]
    exact upgraded_step event

end Upgrades

/-- Until the timer closes the socket or the session is upgraded exactly one
wait is pending or completed, for the deadline that doRead set last; and the
timer closes the socket only when that deadline has passed and never after an
upgrade. -/
theorem deadline_armed (start : ℤ) (inputs : List Event)
    (h : (session start).Admissible inputs) :
    (NeverCloses start inputs → ((session start).run inputs).socket ≠ .upgraded →
      outstanding ((session start).run inputs).timer = 1 ∧
        ((session start).run inputs).timer.expiry = .time (lastDeadline start inputs)) ∧
      Everywhere (fun before event => Closes ((session start).run before) event →
        ((session start).run before).socket ≠ .upgraded ∧
          lastDeadline start before ≤ clock event) inputs := by
  constructor
  · intro hnever hopen
    have harmed := (armed_inductive start).run inputs h
    refine ⟨harmed.outstanding hnever hopen, ?_⟩
    rcases harmed.expiry with ⟨-, htime⟩ | ⟨hupgraded, -⟩
    · exact htime
    · exact absurd hupgraded hopen
  · exact (armed_inductive start).everywhere inputs h
      (fun before event harmed henabled hcloses => deadline_of_closes harmed henabled hcloses)

/-- The wait is armed again after the first read, and the timer closes an idle session. -/
def idleSession : List Event :=
  [.timer .operationAborted 0, .timerExpires 15, .timer .success 15]

theorem deadline_armed_idle :
    (NeverCloses 0 idleSession → ((session 0).run idleSession).socket ≠ .upgraded →
      outstanding ((session 0).run idleSession).timer = 1 ∧
        ((session 0).run idleSession).timer.expiry = .time (lastDeadline 0 idleSession)) ∧
      Everywhere (fun before event => Closes ((session 0).run before) event →
        ((session 0).run before).socket ≠ .upgraded ∧
          lastDeadline 0 before ≤ clock event) idleSession :=
  deadline_armed 0 idleSession
    (Machine.admissible_of_enabledFrom (session 0) idleSession (by decide))

end BeastServer.SessionDeadlines
