import BeastServer.SessionDeadlines
import BeastServer.WebsocketSessions

/-!
The pings of a websocket session.
The last ping is unanswered as long as no activity follows it, and then the
deadline is the one that was set with it; so the timer closes an open stream
only when a ping has been left unanswered for the whole timeout. Activity makes
the session forget that a ping is outstanding, so a ping that completes late can
be overtaken by the next one: nothing but such an activity leads to that, and
each one may, because the wait that it aborts can be served after the new deadline.
-/
namespace BeastServer.KeepAlives

open JsonValues Machines WebsocketSessions WebsocketSession
open SessionDeadlines (outstanding outstanding_expiresAt outstanding_asyncWait
  outstanding_timerExpires)

section Logs

/-- The time of the last ping, unless there has been activity since. -/
def note (found : Option ℤ) : Action → Option ℤ
  | .startPing now => some now
  | .activity _ => none
  | _ => found

def unanswered (log : List Action) : Option ℤ := log.foldl note none

def isPing : Action → Bool
  | .startPing _ => true
  | _ => false

def startedPings (log : List Action) : ℕ := log.countP isPing

def completedPings (inputs : List Event) : ℕ :=
  inputs.countP fun
    | .ping _ => true
    | _ => false

/-- Nothing that the timer or the ping state depends on. -/
def isNeutral : Action → Bool
  | .startRead => true
  | .append _ => true
  | _ => false

variable {log actions : List Action}

theorem unanswered_append_singleton (action : Action) :
    unanswered (log ++ [action]) = note (unanswered log) action := by
  rw [unanswered, List.foldl_append]
  rfl

theorem unanswered_append_neutral (h : ∀ action ∈ actions, isNeutral action = true) :
    unanswered (log ++ actions) = unanswered log := by
  induction actions using List.reverseRecOn with
  | nil => rw [List.append_nil]
  | append_singleton actions action ih =>
    have hsame := ih (fun a ha => h a (List.mem_append_left _ ha))
    have hneutral := h action (by simp)
    rw [← List.append_assoc, unanswered_append_singleton, hsame]
    cases action with
    | startRead => rfl
    | append msg => rfl
    | activity now => cases hneutral
    | startPing now => cases hneutral
    | close now => cases hneutral

theorem startedPings_append_neutral (h : ∀ action ∈ actions, isNeutral action = true) :
    startedPings (log ++ actions) = startedPings log := by
  have hnone : actions.countP isPing = 0 := by
    apply List.countP_eq_zero.mpr
    intro action haction
    have hneutral := h action haction
    cases action with
    | startPing now => cases hneutral
    | _ => simp [isPing]
  rw [startedPings, List.countP_append, hnone]
  rfl

theorem startedPings_append_singleton (action : Action) :
    startedPings (log ++ [action]) = startedPings log + if isPing action = true then 1 else 0 := by
  rw [startedPings, List.countP_append, List.countP_singleton]
  rfl

end Logs

section Steps

variable {host : Host} {s : WebsocketSession} {event : Event} {error : WsError} {now : ℤ}

/-- A control frame or a message of the peer. A read that fails with another
error than the two that onRead tests for calls activity() too, on a stream that
is no longer open. -/
def isActivity : Event → Bool
  | .control _ => true
  | .read error _ _ => error = .success
  | _ => false

/-- What activity does: the deadline is put off, and no ping counts as unanswered. -/
structure Refreshed (s next : WebsocketSession) (now : ℤ) : Prop where
  log : ∃ actions, (∀ action ∈ actions, isNeutral action = true) ∧
    next.log = s.log ++ [.activity now] ++ actions
  pingState : next.pingState = 0
  timer : next.timer = s.timer.expiresAt (.time (now + defaultTimeout))
  frame : next.isOpen = s.isOpen ∧ next.connected = s.connected ∧ next.pings = s.pings

theorem refreshed_step (h : isActivity event = true) :
    ∃ now, Refreshed s (step host s event) now := by
  cases event with
  | control now =>
    exact ⟨now, ⟨[], by simp, by rw [List.append_nil]; rfl⟩, rfl, rfl, rfl, rfl, rfl⟩
  | read error buffer now =>
    obtain rfl : error = .success := of_decide_eq_true h
    refine ⟨now, ⟨[.append buffer.msg, .startRead], by simp [isNeutral], ?_⟩, rfl, rfl, ?_, rfl,
      rfl⟩
    · simp [step, onRead, doRead, enqueue, activity, perform, expiresAfter, completes]
    · exact Bool.and_true s.isOpen
  | _ => cases h

/-- After a control frame or a message no ping counts as unanswered. -/
theorem unanswered_of_activity (h : isActivity event = true) :
    unanswered (step host s event).log = none := by
  obtain ⟨now, hrefreshed⟩ := @refreshed_step host s event h
  obtain ⟨actions, hactions, hlog⟩ := hrefreshed.log
  rw [hlog, unanswered_append_neutral hactions, unanswered_append_singleton]
  rfl

/-- What a step does to the ping state, the deadline, the connection, the
outstanding pings and the log. -/
inductive Effect (s next : WebsocketSession) (event : Event) : Prop
  | quiet (actions : List Action) (hactions : ∀ action ∈ actions, isNeutral action = true)
      (hlog : next.log = s.log ++ actions) (hstate : next.pingState = 0 ↔ s.pingState = 0)
      (hexpiry : next.timer.expiry = s.timer.expiry) (hconnected : next.connected = s.connected)
      (hpings : next.pings + completedPings [event] = s.pings)
  | active (now : ℤ) (actions : List Action)
      (hactions : ∀ action ∈ actions, isNeutral action = true)
      (hwhy : isActivity event = true ∨ next.isOpen = false)
      (hlog : next.log = s.log ++ [.activity now] ++ actions) (hstate : next.pingState = 0)
      (hconnected : next.connected = s.connected)
      (hpings : next.pings + completedPings [event] = s.pings)
  | pings (error : WsError) (now : ℤ) (hevent : event = .timer error now)
      (hreached : s.timer.expiry.reached now = true) (hopen : s.isOpen = true)
      (hidle : s.pingState = 0) (hlog : next.log = s.log ++ [.startPing now])
      (hstate : next.pingState = 1) (hexpiry : next.timer.expiry = .time (now + defaultTimeout))
      (hconnected : next.connected = s.connected) (hpings : next.pings = s.pings + 1)
  | closes (error : WsError) (now : ℤ) (hevent : event = .timer error now)
      (hreached : s.timer.expiry.reached now = true)
      (hwhy : ¬ (s.isOpen = true ∧ s.pingState = 0)) (hlog : next.log = s.log ++ [.close now])
      (hstate : next.pingState = s.pingState) (hexpiry : next.timer.expiry = s.timer.expiry)
      (hconnected : next.connected = false) (hpings : next.pings = s.pings)

/-- A step that leaves all of this alone. -/
theorem effect_frame {next : WebsocketSession} (hlog : next.log = s.log)
    (hstate : next.pingState = s.pingState) (hexpiry : next.timer.expiry = s.timer.expiry)
    (hconnected : next.connected = s.connected)
    (hpings : next.pings + completedPings [event] = s.pings) : Effect s next event :=
  .quiet [] (by simp) (by rw [hlog, List.append_nil]) (by rw [hstate]) hexpiry hconnected hpings

theorem timerCompleted_expiry : (timerCompleted error s.timer).expiry = s.timer.expiry := by
  cases error <;> rfl

/-- The wait of the timer completes with success or as aborted. -/
theorem step_timer (henabled : enabled s (.timer error now)) :
    step host s (.timer error now) =
      if s.timer.expiry.reached now = true then
        if s.isOpen = true ∧ s.pingState = 0 then
          asyncWait (perform (.startPing now)
            { expiresAfter now
                { s with timer := timerCompleted error s.timer, pingState := 1 } with
              pings := s.pings + 1 })
        else
          perform (.close now)
            { s with timer := timerCompleted error s.timer, connected := false }
      else asyncWait { s with timer := timerCompleted error s.timer } := by
  have herror : ¬ (error ≠ .success ∧ error ≠ .operationAborted) := by
    cases error with
    | success => simp
    | operationAborted => simp
    | closed => exact absurd henabled id
    | other => exact absurd henabled id
  simp only [step, onTimer, if_neg herror, timerCompleted_expiry]

theorem effect_timer (henabled : enabled s (.timer error now)) :
    Effect s (step host s (.timer error now)) (.timer error now) := by
  have hexpiry := @timerCompleted_expiry s error
  have hstep := @step_timer host s error now henabled
  by_cases hreached : s.timer.expiry.reached now = true
  · rw [if_pos hreached] at hstep
    by_cases hping : s.isOpen = true ∧ s.pingState = 0
    · rw [if_pos hping] at hstep
      rw [hstep]
      exact .pings error now rfl hreached hping.1 hping.2 rfl rfl rfl rfl rfl
    · rw [if_neg hping] at hstep
      rw [hstep]
      exact .closes error now rfl hreached hping rfl rfl hexpiry rfl rfl
  · rw [if_neg hreached] at hstep
    rw [hstep]
    exact effect_frame rfl rfl hexpiry rfl rfl

theorem effect_ping (henabled : 0 < s.pings) :
    Effect s (step host s (.ping error)) (.ping error) := by
  have hpings : s.pings - 1 + completedPings [.ping error] = s.pings := by
    show s.pings - 1 + 1 = s.pings
    omega
  have hstep : ∃ t, step host s (.ping error) = t ∧ t.log = s.log ∧
      (t.pingState = 0 ↔ s.pingState = 0) ∧ t.timer = s.timer ∧ t.connected = s.connected ∧
        t.pings = s.pings - 1 := by
    refine ⟨_, rfl, ?_⟩
    simp only [step, onPing]
    split
    · exact ⟨rfl, Iff.rfl, rfl, rfl, rfl⟩
    · split
      · exact ⟨rfl, Iff.rfl, rfl, rfl, rfl⟩
      · split
        · rename_i hone
          have hbefore : s.pingState = 1 := hone
          refine ⟨rfl, ?_, rfl, rfl, rfl⟩
          simp [hbefore]
        · exact ⟨rfl, Iff.rfl, rfl, rfl, rfl⟩
  obtain ⟨t, ht, hlog, hstate, htimer, hconnected, hleft⟩ := hstep
  rw [ht]
  refine .quiet [] (by simp) (by rw [hlog, List.append_nil]) hstate (by rw [htimer]) hconnected ?_
  rw [hleft, hpings]

theorem effect_step (event : Event) (henabled : enabled s event) :
    Effect s (step host s event) event := by
  cases event with
  | accept error =>
    cases error with
    | success => exact .quiet [.startRead] (by simp [isNeutral]) rfl Iff.rfl rfl rfl rfl
    | operationAborted => exact effect_frame rfl rfl rfl rfl rfl
    | closed => exact effect_frame rfl rfl rfl rfl rfl
    | other => exact effect_frame rfl rfl rfl rfl rfl
  | read error buffer now =>
    have hneutral : ∀ action ∈ [Action.append buffer.msg, .startRead], isNeutral action = true := by
      simp [isNeutral]
    cases error with
    | success =>
      have hlog : (step host s (.read .success buffer now)).log =
          s.log ++ [.activity now] ++ [.append buffer.msg, .startRead] := by
        simp [step, onRead, doRead, enqueue, activity, perform, expiresAfter, completes]
      exact .active now _ hneutral (Or.inl rfl) hlog rfl rfl rfl
    | operationAborted => exact effect_frame rfl rfl rfl rfl rfl
    | closed => exact effect_frame rfl rfl rfl rfl rfl
    | other =>
      have hlog : (step host s (.read .other buffer now)).log =
          s.log ++ [.activity now] ++ [.append buffer.msg, .startRead] := by
        simp [step, onRead, doRead, enqueue, activity, perform, expiresAfter, completes]
      exact .active now _ hneutral (Or.inr (Bool.and_false s.isOpen)) hlog rfl rfl rfl
  | ping error => exact effect_ping henabled
  | timerExpires now => exact effect_frame rfl rfl rfl rfl rfl
  | timer error now => exact effect_timer henabled
  | control now =>
    have hlog : (step host s (.control now)).log = s.log ++ [.activity now] ++ [] := by
      rw [List.append_nil]
      rfl
    exact .active now [] (by simp) (Or.inl rfl) hlog rfl rfl rfl
  | streamFails => exact effect_frame rfl rfl rfl rfl rfl
  | testOpen => exact effect_frame rfl rfl rfl rfl rfl
  | pickMsg =>
    simp only [step, pickMsg]
    split
    · exact effect_frame rfl rfl rfl rfl rfl
    · unfold popMsg
      split <;> exact effect_frame rfl rfl rfl rfl rfl
  | waitReturns =>
    simp only [step, waitReturns]
    unfold popMsg
    split <;> exact effect_frame rfl rfl rfl rfl rfl
  | processMsg =>
    simp only [step, processMsg]
    split <;> exact effect_frame rfl rfl rfl rfl rfl

end Steps

section Runs

variable {host : Host} {start : ℤ} {s : WebsocketSession} {event : Event} {inputs : List Event}

/-- A ping that is unanswered has set the deadline, and the pings that have not
completed are outstanding. -/
structure Pinged (inputs : List Event) (s : WebsocketSession) : Prop where
  answer : (s.pingState = 0 ∧ unanswered s.log = none) ∨
    (s.pingState ≠ 0 ∧ ∃ p, unanswered s.log = some p ∧
      s.timer.expiry = .time (p + defaultTimeout))
  pings : s.pings + completedPings inputs = startedPings s.log

theorem completedPings_append (inputs : List Event) (event : Event) :
    completedPings (inputs ++ [event]) = completedPings inputs + completedPings [event] := by
  rw [completedPings, List.countP_append]
  rfl

theorem pinged_step (h : Pinged inputs s) (henabled : enabled s event) :
    Pinged (inputs ++ [event]) (step host s event) := by
  obtain ⟨hanswer, hpings⟩ := h
  cases @effect_step host s event henabled with
  | quiet actions hactions hlog hstate hexpiry hconnected hcount =>
    constructor
    · rw [hlog, unanswered_append_neutral hactions, hexpiry, hstate]
      simpa only [ne_eq, hstate] using hanswer
    · rw [hlog, startedPings_append_neutral hactions, completedPings_append]
      omega
  | active now actions hactions _ hlog hstate hconnected hcount =>
    constructor
    · rw [hlog, unanswered_append_neutral hactions, unanswered_append_singleton]
      exact Or.inl ⟨hstate, rfl⟩
    · rw [hlog, startedPings_append_neutral hactions, startedPings_append_singleton,
        completedPings_append]
      have hother : (if isPing (.activity now) = true then 1 else 0) = 0 := rfl
      omega
  | pings error now hevent hreached hopen hidle hlog hstate hexpiry hconnected hcount =>
    constructor
    · rw [hlog, unanswered_append_singleton]
      exact Or.inr ⟨by omega, now, rfl, hexpiry⟩
    · rw [hlog, startedPings_append_singleton, completedPings_append, hcount, hevent]
      have hping : (if isPing (.startPing now) = true then 1 else 0) = 1 := rfl
      have hnone : completedPings [.timer error now] = 0 := rfl
      omega
  | closes error now hevent hreached hwhy hlog hstate hexpiry _ hcount =>
    constructor
    · rw [hlog, unanswered_append_singleton, hstate, hexpiry]
      exact hanswer
    · rw [hlog, startedPings_append_singleton, completedPings_append, hcount, hevent]
      have hother : (if isPing (.close now) = true then 1 else 0) = 0 := rfl
      have hnone : completedPings [.timer error now] = 0 := rfl
      omega

theorem pinged_inductive : (session host start).Inductive Pinged where
  start := ⟨Or.inl ⟨rfl, rfl⟩, rfl⟩
  preserved _ _ _ h henabled := pinged_step h henabled

/-- The event makes onTimer shut the connection down and close it. -/
def Closes (host : Host) (s : WebsocketSession) (event : Event) (now : ℤ) : Prop :=
  (step host s event).log = s.log ++ [.close now]

/-- The stream is not open, or the last ping has been unanswered for the timeout. -/
def Silent (s : WebsocketSession) (now : ℤ) : Prop :=
  s.isOpen = false ∨ ∃ p, unanswered s.log = some p ∧ p + defaultTimeout ≤ now

theorem silent_of_closes {now : ℤ} (h : Pinged inputs s) (henabled : enabled s event)
    (hcloses : Closes host s event now) : Silent s now := by
  unfold Closes at hcloses
  cases @effect_step host s event henabled with
  | quiet actions hactions hlog _ _ _ _ =>
    have hmem : Action.close now ∈ actions := by
      rw [List.append_cancel_left (hlog.symm.trans hcloses)]
      exact List.mem_singleton_self _
    exact absurd (hactions _ hmem) (by simp [isNeutral])
  | active other actions _ _ hlog _ _ _ =>
    rw [hlog, List.append_assoc] at hcloses
    have hsame := List.append_cancel_left hcloses
    cases hsame
  | pings error other _ _ _ _ hlog _ _ _ _ =>
    have hsame := List.append_cancel_left (hlog.symm.trans hcloses)
    cases hsame
  | closes error other hevent hreached hwhy hlog _ _ _ _ =>
    have hsame := List.append_cancel_left (hlog.symm.trans hcloses)
    obtain rfl : other = now := by simpa using hsame
    cases hopen : s.isOpen with
    | false => exact Or.inl hopen
    | true =>
      rcases h.answer with ⟨hidle, -⟩ | ⟨-, p, hp, hexpiry⟩
      · exact absurd ⟨hopen, hidle⟩ hwhy
      · rw [hexpiry] at hreached
        exact Or.inr ⟨p, hp, of_decide_eq_true hreached⟩

/-- When the timer completes, the stream is open and the last ping has been
answered or its deadline has not passed. -/
def Attended (s : WebsocketSession) (event : Event) : Prop :=
  ∀ error now, event = .timer error now →
    s.isOpen = true ∧ ∀ p, unanswered s.log = some p → now < p + defaultTimeout

theorem connected_step (h : Pinged inputs s) (henabled : enabled s event)
    (hattended : Attended s event) : (step host s event).connected = s.connected := by
  have hclosed := fun now => @silent_of_closes host s event inputs now h henabled
  cases @effect_step host s event henabled with
  | quiet _ _ _ _ _ hconnected _ => exact hconnected
  | active _ _ _ _ _ _ hconnected _ => exact hconnected
  | pings _ _ _ _ _ _ _ _ _ hconnected _ => exact hconnected
  | closes error now hevent hreached hwhy hlog _ _ _ _ =>
    obtain ⟨hopen, hearly⟩ := hattended error now hevent
    rcases hclosed now hlog with hnot | ⟨p, hp, hlate⟩
    · rw [hopen] at hnot
      cases hnot
    · have hbefore := hearly p hp
      omega

theorem connected_run (h : (session host start).Admissible inputs)
    (hattended : Everywhere
      (fun before event => Attended ((session host start).run before) event) inputs) :
    ((session host start).run inputs).connected = true := by
  induction inputs using List.reverseRecOn with
  | nil => rfl
  | append_singleton inputs event ih =>
    obtain ⟨hall, henabled⟩ := (Machine.admissible_append_singleton _ inputs event).mp h
    obtain ⟨hbefore, hlast⟩ := (everywhere_append_singleton _ inputs event).mp hattended
    rw [Machine.run_append_singleton]
    exact (connected_step (pinged_inductive.run inputs hall) henabled hlast).trans
      (ih hall hbefore)

end Runs

/-- The timer closes the connection only when the stream is not open or the
last ping has been unanswered for the timeout; so a peer that answers in time
stays connected. -/
theorem closes_only_silent (host : Host) (start : ℤ) (inputs : List Event)
    (h : (session host start).Admissible inputs) :
    Everywhere (fun before event => ∀ now, Closes host ((session host start).run before) event now →
      Silent ((session host start).run before) now) inputs ∧
      (Everywhere (fun before event => Attended ((session host start).run before) event) inputs →
        ((session host start).run inputs).connected = true) :=
  ⟨pinged_inductive.everywhere inputs h
    (fun _ _ hpinged henabled _ hcloses => silent_of_closes hpinged henabled hcloses),
    connected_run h⟩

section Overlaps

variable {host : Host} {start : ℤ} {s : WebsocketSession} {event : Event} {inputs : List Event}
  {error : WsError} {now : ℤ}

/-- The event starts a ping only when every ping that was started has completed. -/
def Alone (host : Host) (before : List Event) (s : WebsocketSession) (event : Event) : Prop :=
  ∀ now, (step host s event).log = s.log ++ [.startPing now] →
    startedPings s.log = completedPings before

/-- Activity that reaches an open stream, which the timer has not closed yet,
finds no ping outstanding. -/
def Answered (s : WebsocketSession) (event : Event) : Prop :=
  isActivity event = true → s.isOpen = true → s.connected = true → s.pings = 0

/-- When a ping is started. -/
theorem startsPing_iff {now : ℤ} (henabled : enabled s event) :
    (step host s event).log = s.log ++ [.startPing now] ↔
      (∃ error, event = .timer error now) ∧ s.timer.expiry.reached now = true ∧
        s.isOpen = true ∧ s.pingState = 0 := by
  constructor
  · intro hstarts
    cases @effect_step host s event henabled with
    | quiet actions hactions hlog _ _ _ _ =>
      have hmem : Action.startPing now ∈ actions := by
        rw [List.append_cancel_left (hlog.symm.trans hstarts)]
        exact List.mem_singleton_self _
      exact absurd (hactions _ hmem) (by simp [isNeutral])
    | active other actions _ _ hlog _ _ _ =>
      rw [hlog, List.append_assoc] at hstarts
      have hsame := List.append_cancel_left hstarts
      cases hsame
    | pings error other hevent hreached hopen hidle hlog _ _ _ _ =>
      have hsame := List.append_cancel_left (hlog.symm.trans hstarts)
      obtain rfl : other = now := by simpa using hsame
      exact ⟨⟨error, hevent⟩, hreached, hopen, hidle⟩
    | closes error other _ _ _ hlog _ _ _ _ =>
      have hsame := List.append_cancel_left (hlog.symm.trans hstarts)
      cases hsame
  · intro h
    obtain ⟨⟨error, rfl⟩, hreached, hopen, hidle⟩ := h
    rw [step_timer henabled, if_pos hreached, if_pos ⟨hopen, hidle⟩]
    rfl

/-- One wait of the timer is pending or completed until the timer closes the
connection, and before the handshake no ping can have been started. -/
structure Armed (s : WebsocketSession) : Prop where
  waits : outstanding s.timer = if s.connected = true then 1 else 0
  accepting : s.accepting = true → s.isOpen = false ∧ s.pings = 0

theorem armed_frame {next : WebsocketSession} (h : Armed s)
    (htimer : outstanding next.timer = outstanding s.timer)
    (hconnected : next.connected = s.connected)
    (haccepting : next.accepting = true → s.accepting = true)
    (hopen : next.isOpen = true → s.isOpen = true) (hpings : next.pings ≤ s.pings) :
    Armed next where
  waits := by rw [htimer, hconnected, h.waits]
  accepting hnext := by
    obtain ⟨hclosed, hnone⟩ := h.accepting (haccepting hnext)
    refine ⟨?_, by omega⟩
    apply Bool.eq_false_iff.mpr
    intro hstill
    rw [hopen hstill] at hclosed
    cases hclosed

theorem outstanding_completed (henabled : enabled s (.timer error now)) :
    outstanding (timerCompleted error s.timer) + 1 = outstanding s.timer := by
  cases error with
  | success =>
    have hexpired : 0 < s.timer.expired := henabled
    simp only [outstanding, timerCompleted]
    omega
  | operationAborted =>
    have haborted : 0 < s.timer.aborted := henabled
    simp only [outstanding, timerCompleted]
    omega
  | closed => exact absurd henabled id
  | other => exact absurd henabled id

/-- A completion of the timer is served on a connection that it has not closed. -/
theorem connected_of_timer (h : Armed s) (henabled : enabled s (.timer error now)) :
    s.connected = true := by
  have hone := outstanding_completed henabled
  by_contra hclosed
  rw [h.waits, if_neg hclosed] at hone
  cases hone

theorem armed_timer (h : Armed s) (henabled : enabled s (.timer error now)) :
    Armed (step host s (.timer error now)) := by
  have hone := outstanding_completed henabled
  have hconnected := connected_of_timer h henabled
  have hwaits := h.waits
  rw [if_pos hconnected] at hwaits
  rw [step_timer henabled]
  split
  · split
    · rename_i hping
      constructor
      · show outstanding ((timerCompleted error s.timer).expiresAt _).asyncWait = _
        rw [outstanding_asyncWait, outstanding_expiresAt, hone, hwaits]
        exact (if_pos hconnected).symm
      · intro haccepting
        have hclosed := (h.accepting haccepting).1
        rw [hping.1] at hclosed
        cases hclosed
    · constructor
      · show outstanding (timerCompleted error s.timer) = 0
        omega
      · exact h.accepting
  · exact armed_frame h (outstanding_asyncWait.trans hone) rfl id id le_rfl

theorem armed_step (h : Armed s) (henabled : enabled s event) : Armed (step host s event) := by
  have hand : ∀ b, (s.isOpen && b) = true → s.isOpen = true := by
    intro b hboth
    exact (Bool.and_eq_true_iff.mp hboth).1
  cases event with
  | accept error =>
    have hwaits : outstanding (step host s (.accept error)).timer = outstanding s.timer ∧
        (step host s (.accept error)).connected = s.connected ∧
        (step host s (.accept error)).accepting = false := by
      cases error <;> exact ⟨rfl, rfl, rfl⟩
    obtain ⟨htimer, hconnected, hdone⟩ := hwaits
    constructor
    · rw [htimer, hconnected, h.waits]
    · intro haccepting
      rw [hdone] at haccepting
      cases haccepting
  | read error buffer now =>
    cases error with
    | success => exact armed_frame h outstanding_expiresAt rfl id (hand _) le_rfl
    | operationAborted => exact armed_frame h rfl rfl id (hand _) le_rfl
    | closed => exact armed_frame h rfl rfl id (hand _) le_rfl
    | other => exact armed_frame h outstanding_expiresAt rfl id (hand _) le_rfl
  | ping error =>
    simp only [step, onPing]
    split
    · exact armed_frame h rfl rfl id (hand _) (Nat.sub_le _ _)
    · split
      · exact armed_frame h rfl rfl id (hand _) (Nat.sub_le _ _)
      · split
        · exact armed_frame h rfl rfl id (hand _) (Nat.sub_le _ _)
        · exact armed_frame h rfl rfl id (hand _) (Nat.sub_le _ _)
  | timerExpires now =>
    exact armed_frame h (outstanding_timerExpires henabled.1) rfl id id le_rfl
  | timer error now => exact armed_timer h henabled
  | control now => exact armed_frame h outstanding_expiresAt rfl id id le_rfl
  | streamFails => exact armed_frame h rfl rfl id (fun hopen => by cases hopen) le_rfl
  | testOpen => exact armed_frame h rfl rfl id id le_rfl
  | pickMsg =>
    simp only [step, pickMsg]
    split
    · exact armed_frame h rfl rfl id id le_rfl
    · unfold popMsg
      split <;> exact armed_frame h rfl rfl id id le_rfl
  | waitReturns =>
    simp only [step, waitReturns]
    unfold popMsg
    split <;> exact armed_frame h rfl rfl id id le_rfl
  | processMsg =>
    simp only [step, processMsg]
    split <;> exact armed_frame h rfl rfl id id le_rfl

theorem armed_inductive : (session host start).Inductive (fun _ s => Armed s) where
  start := ⟨rfl, fun _ => ⟨rfl, rfl⟩⟩
  preserved _ _ _ h henabled := armed_step h henabled

/-- Only the handshake opens the stream. -/
theorem isOpen_step (hopen : (step host s event).isOpen = true) :
    s.isOpen = true ∨ ∃ error, event = .accept error := by
  have hand : ∀ b, (s.isOpen && b) = true → s.isOpen = true ∨ ∃ error, event = .accept error := by
    intro b hboth
    exact Or.inl (Bool.and_eq_true_iff.mp hboth).1
  cases event with
  | accept error => exact Or.inr ⟨error, rfl⟩
  | read error buffer now => cases error <;> exact hand _ hopen
  | ping error =>
    simp only [step, onPing] at hopen
    split at hopen
    · exact hand _ hopen
    · split at hopen
      · exact hand _ hopen
      · split at hopen <;> exact hand _ hopen
  | timerExpires now => exact Or.inl hopen
  | timer error now =>
    simp only [step, onTimer] at hopen
    split at hopen
    · exact Or.inl hopen
    · split at hopen
      · split at hopen <;> exact Or.inl hopen
      · exact Or.inl hopen
  | control now => exact Or.inl hopen
  | streamFails => cases hopen
  | testOpen => exact Or.inl hopen
  | pickMsg =>
    simp only [step, pickMsg] at hopen
    split at hopen
    · exact Or.inl hopen
    · unfold popMsg at hopen
      split at hopen <;> exact Or.inl hopen
  | waitReturns =>
    simp only [step, waitReturns] at hopen
    unfold popMsg at hopen
    split at hopen <;> exact Or.inl hopen
  | processMsg =>
    simp only [step, processMsg] at hopen
    split at hopen <;> exact Or.inl hopen

/-- When the session remembers no ping, none is outstanding, as long as one more
could be started. -/
def Settled (s : WebsocketSession) : Prop :=
  s.pingState = 0 → s.isOpen = true → s.connected = true → s.pings = 0

/-- A step that brings no ping settles one that was settled before. -/
theorem settled_frame (harmed : Armed s) (h : Settled s) (henabled : enabled s event)
    (hstate : (step host s event).pingState = 0 → s.pingState = 0)
    (hconnected : (step host s event).connected = s.connected)
    (hpings : (step host s event).pings ≤ s.pings) : Settled (step host s event) := by
  intro hidle hopen hstill
  have hnone : s.pings = 0 := by
    rcases isOpen_step hopen with hbefore | ⟨error, rfl⟩
    · exact h (hstate hidle) hbefore (hconnected ▸ hstill)
    · exact (harmed.accepting henabled).2
  omega

theorem settled_step (harmed : Armed s) (h : Settled s) (henabled : enabled s event)
    (hanswered : Answered s event) : Settled (step host s event) := by
  cases @effect_step host s event henabled with
  | quiet actions _ _ hstate _ hconnected hpings =>
    exact settled_frame harmed h henabled hstate.mp hconnected (by omega)
  | active now actions _ hwhy _ _ hconnected hpings =>
    intro _ hopen hstill
    rcases hwhy with hactivity | hclosed
    · obtain ⟨_, hrefreshed⟩ := @refreshed_step host s event hactivity
      obtain ⟨hsame, -, hsamePings⟩ := hrefreshed.frame
      rw [hsamePings]
      exact hanswered hactivity (hsame ▸ hopen) (hconnected ▸ hstill)
    · rw [hclosed] at hopen
      cases hopen
  | pings error now _ _ _ _ _ hstate _ _ _ =>
    intro hidle
    rw [hstate] at hidle
    cases hidle
  | closes error now _ _ _ _ _ _ hconnected _ =>
    intro _ _ hstill
    rw [hconnected] at hstill
    cases hstill

theorem settled_run (h : (session host start).Admissible inputs)
    (hanswered : Everywhere
      (fun before event => Answered ((session host start).run before) event) inputs) :
    Settled ((session host start).run inputs) := by
  induction inputs using List.reverseRecOn with
  | nil =>
    intro _ hopen
    cases hopen
  | append_singleton inputs event ih =>
    obtain ⟨hall, henabled⟩ := (Machine.admissible_append_singleton _ inputs event).mp h
    obtain ⟨hbefore, hlast⟩ := (everywhere_append_singleton _ inputs event).mp hanswered
    rw [Machine.run_append_singleton]
    exact settled_step (armed_inductive.run inputs hall) (ih hall hbefore) henabled hlast

/-- Whatever comes next, no ping is started before the earlier ones have completed. -/
def NextAlone (host : Host) (before : List Event) (s : WebsocketSession) : Prop :=
  ∀ event, enabled s event → Alone host before s event

theorem nextAlone_of_settled (hpinged : Pinged inputs s) (harmed : Armed s) (h : Settled s) :
    NextAlone host inputs s := by
  intro event henabled now hstarts
  obtain ⟨⟨error, rfl⟩, -, hopen, hidle⟩ := (startsPing_iff henabled).mp hstarts
  have hnone := h hidle hopen (connected_of_timer harmed henabled)
  have hpings := hpinged.pings
  omega

/-- Activity aborts the wait of the timer, but the completion of the wait can be
served as late as the new deadline, and then it starts a ping. -/
theorem exists_startsPing {now : ℤ} (harmed : Armed s) {next : WebsocketSession}
    (h : Refreshed s next now) (hopen : s.isOpen = true) (hconnected : s.connected = true) :
    ∃ event, enabled next event ∧
      (step host next event).log = next.log ++ [.startPing (now + defaultTimeout)] := by
  have hone : next.timer.expired + next.timer.aborted = 1 := by
    have hwaits := harmed.waits
    rw [if_pos hconnected] at hwaits
    rw [h.timer]
    show s.timer.expired + (s.timer.aborted + s.timer.waiting) = 1
    unfold outstanding at hwaits
    omega
  have hreached : next.timer.expiry.reached (now + defaultTimeout) = true := by
    rw [h.timer]
    exact decide_eq_true (le_refl _)
  have hstarts : ∀ error, enabled next (.timer error (now + defaultTimeout)) →
      (step host next (.timer error (now + defaultTimeout))).log =
        next.log ++ [.startPing (now + defaultTimeout)] := by
    intro error henabled
    exact (startsPing_iff henabled).mpr
      ⟨⟨error, rfl⟩, hreached, h.frame.1.trans hopen, h.pingState⟩
  rcases Nat.eq_zero_or_pos next.timer.expired with hnone | hexpired
  · have haborted : enabled next (.timer .operationAborted (now + defaultTimeout)) := by
      show 0 < next.timer.aborted
      omega
    exact ⟨_, haborted, hstarts _ haborted⟩
  · exact ⟨.timer .success (now + defaultTimeout), hexpired, hstarts .success hexpired⟩

/-- Nothing that can come after the step starts a ping too early only if the step
was no activity with a ping outstanding. -/
theorem answered_of_nextAlone (harmed : Armed s)
    (hpinged : Pinged (inputs ++ [event]) (step host s event))
    (h : NextAlone host (inputs ++ [event]) (step host s event)) : Answered s event := by
  intro hactivity hopen hconnected
  obtain ⟨now, hrefreshed⟩ := @refreshed_step host s event hactivity
  obtain ⟨later, henabled, hstarts⟩ := @exists_startsPing host s now harmed _ hrefreshed hopen
    hconnected
  have hall := h later henabled _ hstarts
  have hpings := hpinged.pings
  have hsame := hrefreshed.frame.2.2
  omega

end Overlaps

/-- At no point of a run can a ping be started before the earlier ones have
completed, exactly when activity finds no ping outstanding; then no step of the
run does so. -/
theorem pings_alone_iff (host : Host) (start : ℤ) (inputs : List Event)
    (h : (session host start).Admissible inputs) :
    ((∀ before, before <+: inputs →
        NextAlone host before ((session host start).run before)) ↔
      Everywhere (fun before event => Answered ((session host start).run before) event) inputs) ∧
      (Everywhere (fun before event => Answered ((session host start).run before) event) inputs →
        Everywhere (fun before event =>
          Alone host before ((session host start).run before) event) inputs) := by
  have hnext : Everywhere
      (fun before event => Answered ((session host start).run before) event) inputs →
      ∀ before, before <+: inputs → NextAlone host before ((session host start).run before) := by
    rintro hanswered before ⟨after, rfl⟩
    have hall := Machine.admissible_of_append _ h
    exact nextAlone_of_settled (pinged_inductive.run before hall) (armed_inductive.run before hall)
      (settled_run hall (everywhere_of_append _ _ _ hanswered))
  refine ⟨⟨?_, hnext⟩, ?_⟩
  · intro halone before event after heq
    have hall : (session host start).Admissible ((before ++ [event]) ++ after) := by
      rw [List.append_assoc, List.singleton_append, ← heq]
      exact h
    have hone := Machine.admissible_of_append _ hall
    have hlater := halone (before ++ [event]) ⟨after, by simp [heq]⟩
    have hpinged := pinged_inductive.run _ hone
    rw [Machine.run_append_singleton] at hlater hpinged
    exact answered_of_nextAlone
      (armed_inductive.run before (Machine.admissible_of_append _ hone)) hpinged hlater
  · intro hanswered before event after heq
    exact hnext hanswered before ⟨event :: after, heq.symm⟩ event (h before event after heq)

section Sample

/-- The handshake succeeds, and the first ping is started at the deadline. -/
def firstPing : List Event :=
  [.accept .success, .timer .operationAborted 0, .timerExpires 15, .timer .success 15]

/-- A frame of the peer arrives, but the ping has not completed at the next deadline. -/
def slowPing : List Event :=
  firstPing ++ [.control 16, .timer .operationAborted 16, .timerExpires 31, .timer .success 31]

/-- The ping completes before a frame of the peer arrives, and the next one follows. -/
def answeredPing : List Event :=
  firstPing ++ [.ping .success, .control 16, .timer .operationAborted 16, .timerExpires 31,
    .timer .success 31]

theorem answeredPing_admissible : (session Host.zeroed 0).Admissible answeredPing :=
  Machine.admissible_of_enabledFrom _ _ (by decide)

instance decidableAnswered (s : WebsocketSession) (event : Event) : Decidable (Answered s event) :=
  inferInstanceAs (Decidable (_ → _ → _ → _))

/-- The condition is looked up like the one under which an input can occur. -/
theorem answeredPing_answered :
    Everywhere (fun before event =>
      Answered ((session Host.zeroed 0).run before) event) answeredPing :=
  Machine.admissible_of_enabledFrom { session Host.zeroed 0 with enabled := Answered } _ (by decide)

theorem slowPing_admissible : (session Host.zeroed 0).Admissible slowPing :=
  Machine.admissible_of_enabledFrom _ _ (by decide)

theorem firstPing_admissible : (session Host.zeroed 0).Admissible firstPing :=
  Machine.admissible_of_append _ slowPing_admissible

end Sample

theorem closes_only_silent_firstPing :
    Everywhere (fun before event => ∀ now,
      Closes Host.zeroed ((session Host.zeroed 0).run before) event now →
        Silent ((session Host.zeroed 0).run before) now) firstPing ∧
      (Everywhere (fun before event =>
        Attended ((session Host.zeroed 0).run before) event) firstPing →
          ((session Host.zeroed 0).run firstPing).connected = true) :=
  closes_only_silent Host.zeroed 0 firstPing firstPing_admissible

theorem pings_alone_iff_answeredPing :
    (∀ before, before <+: answeredPing →
        NextAlone Host.zeroed before ((session Host.zeroed 0).run before)) ∧
      Everywhere (fun before event =>
        Alone Host.zeroed before ((session Host.zeroed 0).run before) event) answeredPing :=
  ⟨(pings_alone_iff Host.zeroed 0 answeredPing answeredPing_admissible).1.mpr
      answeredPing_answered,
    (pings_alone_iff Host.zeroed 0 answeredPing answeredPing_admissible).2 answeredPing_answered⟩

/-- The second ping is started while the first one is outstanding. -/
theorem slowPing_overtaken :
    (session Host.zeroed 0).Admissible slowPing ∧
      ¬ Everywhere (fun before event =>
        Alone Host.zeroed before ((session Host.zeroed 0).run before) event) slowPing := by
  refine ⟨slowPing_admissible, ?_⟩
  intro halone
  have hlast := halone
    (firstPing ++ [.control 16, .timer .operationAborted 16, .timerExpires 31])
    (.timer .success 31) [] rfl 31 rfl
  cases hlast

end BeastServer.KeepAlives
