import BeastServer.WebsocketReads

/-!
The thread that processes the messages of a websocket session.
It takes the messages in the order in which they were appended, as long as its
wait returns after a notification only. It tests the stream between two
messages and not while it waits, so a read that completes with operation_aborted
or closed while the thread is about to wait leaves it blocked.
-/
namespace BeastServer.WebsocketQueues

open ByteStrings JsonValues Machines Mailboxes MultiBuffers WebsocketSessions WebsocketReads
open WebsocketSession Mailbox

variable {host : Host} {start : ℤ} {s : WebsocketSession}

/-- The queue and the thread fit together. -/
structure Served (s : WebsocketSession) : Prop where
  sound : s.mailbox.Sound
  blocked : s.mailbox.waiter ≠ .none → s.proc = .picking
  handshake : s.accepting = true → s.proc = .notStarted

/-- The queue, the thread and the handshake. -/
def queueView (s : WebsocketSession) : Mailbox Bytes × Proc × Bool :=
  (s.mailbox, s.proc, s.accepting)

theorem fields_of_queueView {t : WebsocketSession} (h : queueView t = queueView s) :
    t.mailbox = s.mailbox ∧ t.proc = s.proc ∧ t.accepting = s.accepting := by
  simpa only [queueView, Prod.mk.injEq] using h

theorem Served.of_view (h : Served s) {t : WebsocketSession}
    (hview : queueView t = queueView s) : Served t := by
  obtain ⟨hmailbox, hproc, haccepting⟩ := fields_of_queueView hview
  exact ⟨by rw [hmailbox]; exact h.sound, by rw [hmailbox, hproc]; exact h.blocked,
    by rw [haccepting, hproc]; exact h.handshake⟩

/-- The timer handler leaves the queue, the thread and the stream alone. -/
theorem onTimer_frame (error : WsError) (now : ℤ) :
    queueView (onTimer error now s) = queueView s ∧ (onTimer error now s).reads = s.reads ∧
      (onTimer error now s).isOpen = s.isOpen := by
  unfold onTimer
  split
  · exact ⟨rfl, rfl, rfl⟩
  · split
    · split <;> exact ⟨rfl, rfl, rfl⟩
    · exact ⟨rfl, rfl, rfl⟩

theorem onPing_frame (error : WsError) :
    queueView (onPing error s) = queueView s ∧ (onPing error s).reads = s.reads ∧
      (onPing error s).isOpen = s.isOpen := by
  unfold onPing
  split
  · exact ⟨rfl, rfl, rfl⟩
  · split
    · exact ⟨rfl, rfl, rfl⟩
    · split <;> exact ⟨rfl, rfl, rfl⟩

theorem popMsg_empty (h : s.mailbox.queue = []) : popMsg s = { s with proc := .undefined } := by
  unfold popMsg
  rw [take?_eq_none.mpr h]

theorem popMsg_cons {msg : Bytes} {rest : List Bytes} (h : s.mailbox.queue = msg :: rest) :
    popMsg s =
      { s with
        mailbox := { s.mailbox with queue := rest, taken := s.mailbox.taken ++ [msg] }
        proc := .holding msg } := by
  unfold popMsg take?
  rw [h]

theorem served_popMsg (hsound : s.mailbox.Sound) (hwaiter : s.mailbox.waiter = .none)
    (hstarted : s.accepting = false) : Served (popMsg s) := by
  unfold popMsg
  cases htake : s.mailbox.take? with
  | none =>
    refine ⟨hsound, fun hwaits => absurd hwaiter hwaits, ?_⟩
    intro haccepting
    simp [hstarted] at haccepting
  | some taken =>
    obtain ⟨msg, mailbox⟩ := taken
    have hafter : mailbox.waiter = .none := by
      rw [waiter_take htake, hwaiter]
    refine ⟨sound_take hsound hwaiter htake, fun hwaits => absurd hafter hwaits, ?_⟩
    intro haccepting
    simp [hstarted] at haccepting

theorem Served.started (h : Served s) (hproc : s.proc ≠ .notStarted) : s.accepting = false := by
  cases haccepting : s.accepting with
  | false => rfl
  | true => exact absurd (h.handshake haccepting) hproc

theorem Served.unblocked (h : Served s) (hproc : s.proc ≠ .picking) :
    s.mailbox.waiter = .none := by
  by_contra hwaits
  exact hproc (h.blocked hwaits)

/-- A step of a thread that does not wait. -/
theorem Served.moved (h : Served s) (hwaiter : s.mailbox.waiter = .none) {t : WebsocketSession}
    (hmailbox : t.mailbox = s.mailbox) (hstarted : t.accepting = false) : Served t := by
  refine ⟨by rw [hmailbox]; exact h.sound, ?_, ?_⟩
  · intro hwaits
    rw [hmailbox] at hwaits
    exact absurd hwaiter hwaits
  · intro haccepting
    simp [hstarted] at haccepting

theorem served_onRead (error : WsError) (buffer : MultiBuffer) (now : ℤ) (h : Served s) :
    Served (onRead error buffer now s) := by
  unfold onRead
  split
  · exact h
  · split
    · exact h
    · refine ⟨sound_put buffer.msg h.sound, ?_, h.handshake⟩
      intro hwaits
      apply h.blocked
      intro hnone
      exact hwaits (by simp [doRead, perform, enqueue, activity, expiresAfter, put, hnone,
        Waiter.notifyOne])

theorem served_step (event : Event) (h : Served s) (henabled : enabled s event) :
    Served (step host s event) := by
  cases event with
  | accept error =>
    have hproc := h.handshake henabled
    have hwaiter := h.unblocked (by simp [hproc])
    cases error with
    | success => exact h.moved hwaiter rfl rfl
    | operationAborted => exact h.moved hwaiter rfl rfl
    | closed => exact h.moved hwaiter rfl rfl
    | other => exact h.moved hwaiter rfl rfl
  | read error buffer now => exact served_onRead error buffer now (h.of_view rfl)
  | ping error => exact h.of_view (onPing_frame error).1
  | timerExpires now => exact h.of_view rfl
  | timer error now => exact h.of_view (onTimer_frame error now).1
  | control now => exact h.of_view rfl
  | streamFails => exact h.of_view rfl
  | testOpen =>
    have hproc : s.proc = .testing := henabled
    exact h.moved (h.unblocked (by simp [hproc])) rfl (h.started (by simp [hproc]))
  | pickMsg =>
    obtain ⟨hproc, hwaiter⟩ := henabled
    have hstarted := h.started (by simp [hproc])
    simp only [step, pickMsg]
    split
    · rename_i hempty
      refine ⟨sound_block h.sound hempty, fun _ => hproc, ?_⟩
      intro haccepting
      simp [hstarted] at haccepting
    · exact served_popMsg h.sound hwaiter hstarted
  | waitReturns =>
    obtain ⟨hproc, -⟩ := henabled
    exact served_popMsg (sound_unblock h.sound) rfl (h.started (by simp [hproc]))
  | processMsg =>
    obtain ⟨msg, hproc⟩ := henabled
    simp only [step, processMsg, hproc]
    exact h.moved (h.unblocked (by simp [hproc])) rfl (h.started (by simp [hproc]))

theorem served_inductive : (session host start).Inductive (fun _ s => Served s) := by
  refine Machine.inductive_of_step ?_ (fun s event => served_step event)
  exact ⟨sound_empty, fun hwaits => absurd rfl hwaits, fun _ => rfl⟩

section Order

/-- The step does not take the front of an empty queue; what it returns of the
queue is recorded, and what has been returned is what was appended, in order,
up to what is in the queue. -/
structure PicksInOrder (host : Host) (s : WebsocketSession) (event : Event) : Prop where
  nonempty : s.proc ≠ .undefined → (step host s event).proc ≠ .undefined
  returned : ∀ msg, s.proc = .picking → (step host s event).proc = .holding msg →
    (step host s event).mailbox.taken = s.mailbox.taken ++ [msg]
  inOrder : (step host s event).mailbox.putIn =
    (step host s event).mailbox.taken ++ (step host s event).mailbox.queue

/-- When the wait returns, notify_one has been called since it began. -/
def ReturnsNotified (s : WebsocketSession) : Event → Prop
  | .waitReturns => s.mailbox.waiter = .notified
  | _ => True

theorem proc_popMsg (s : WebsocketSession) :
    (s.mailbox.queue = [] ∧ (popMsg s).proc = .undefined) ∨
      ∃ msg, (popMsg s).proc = .holding msg ∧
        (popMsg s).mailbox.taken = s.mailbox.taken ++ [msg] := by
  cases hqueue : s.mailbox.queue with
  | nil => exact Or.inl ⟨rfl, by rw [popMsg_empty hqueue]⟩
  | cons msg rest => exact Or.inr ⟨msg, by rw [popMsg_cons hqueue], by rw [popMsg_cons hqueue]⟩

theorem parseMsg_cases (host : Host) (msg : Bytes) :
    parseMsg host msg = .testing ∨ parseMsg host msg = .terminated := by
  unfold parseMsg
  split
  · exact Or.inl rfl
  · split
    · exact Or.inl rfl
    · exact Or.inl rfl
    · exact Or.inr rfl

/-- The steps that move the thread. -/
def isThreadEvent : Event → Bool
  | .accept _ => true
  | .testOpen => true
  | .pickMsg => true
  | .waitReturns => true
  | .processMsg => true
  | _ => false

theorem proc_frame (event : Event) (h : isThreadEvent event = false) :
    (step host s event).proc = s.proc := by
  cases event with
  | read error buffer now =>
    simp only [step, onRead]
    split
    · rfl
    · split <;> rfl
  | ping error =>
    exact (fields_of_queueView (onPing_frame error).1).2.1
  | timerExpires now => rfl
  | timer error now =>
    exact (fields_of_queueView (onTimer_frame error now).1).2.1
  | control now => rfl
  | streamFails => rfl
  | _ => cases h

theorem proc_pickMsg (h : s.mailbox.queue ≠ []) :
    ∃ msg, (pickMsg s).proc = .holding msg ∧
      (pickMsg s).mailbox.taken = s.mailbox.taken ++ [msg] := by
  unfold pickMsg
  rw [if_neg h]
  rcases proc_popMsg s with ⟨hempty, -⟩ | hpopped
  · exact absurd hempty h
  · exact hpopped

theorem undefined_waitReturns : (waitReturns s).proc = .undefined ↔ s.mailbox.queue = [] := by
  unfold waitReturns
  constructor
  · intro hundefined
    rcases proc_popMsg { s with mailbox := s.mailbox.unblock } with ⟨hempty, -⟩ | ⟨msg, hproc, -⟩
    · exact hempty
    · rw [hundefined] at hproc
      cases hproc
  · intro hempty
    rw [@popMsg_empty { s with mailbox := s.mailbox.unblock } hempty]

/-- Only the end of a wait can meet an empty queue. -/
theorem undefined_step (event : Event) (h : Served s) (henabled : enabled s event) :
    (step host s event).proc = .undefined ↔
      s.proc = .undefined ∨ (event = .waitReturns ∧ s.mailbox.queue = []) := by
  cases event with
  | accept error =>
    have hproc := h.handshake henabled
    cases error <;> simp [step, onAccept, doRead, perform, hproc]
  | testOpen =>
    have hproc : s.proc = .testing := henabled
    simp only [step, WebsocketSession.testOpen, hproc]
    split <;> simp
  | pickMsg =>
    obtain ⟨hproc, -⟩ := henabled
    by_cases hempty : s.mailbox.queue = []
    · simp [step, pickMsg, hempty, hproc]
    · obtain ⟨msg, hholding, -⟩ := proc_pickMsg hempty
      simp [step, hholding, hproc]
  | waitReturns =>
    obtain ⟨hproc, -⟩ := henabled
    simp only [step, undefined_waitReturns, hproc]
    simp
  | processMsg =>
    obtain ⟨msg, hproc⟩ := henabled
    simp only [step, processMsg, hproc]
    rcases parseMsg_cases host msg with hparse | hparse <;> simp [hparse]
  | _ => rw [proc_frame _ rfl]; simp

/-- What the thread holds after pickMsg is the message taken last. -/
theorem returned_step (event : Event) {msg : Bytes} (henabled : enabled s event)
    (hpicking : s.proc = .picking) (hholding : (step host s event).proc = .holding msg) :
    (step host s event).mailbox.taken = s.mailbox.taken ++ [msg] := by
  have hpopped : ∀ {t : WebsocketSession}, (popMsg t).proc = .holding msg →
      (popMsg t).mailbox.taken = t.mailbox.taken ++ [msg] := by
    intro t hproc
    rcases proc_popMsg t with ⟨-, hundefined⟩ | ⟨taken, hproc', htaken⟩
    · rw [hproc] at hundefined
      cases hundefined
    · rw [hproc] at hproc'
      obtain rfl := Proc.holding.inj hproc'
      exact htaken
  cases event with
  | accept error => cases error <;> simp [step, onAccept, doRead, perform, hpicking] at hholding
  | testOpen =>
    have hproc : s.proc = .testing := henabled
    simp [hproc] at hpicking
  | pickMsg =>
    by_cases hempty : s.mailbox.queue = []
    · simp [step, pickMsg, hempty, hpicking] at hholding
    · simp only [step, pickMsg, if_neg hempty] at hholding ⊢
      exact hpopped hholding
  | waitReturns => exact hpopped hholding
  | processMsg =>
    obtain ⟨other, hproc⟩ := henabled
    simp [hproc] at hpicking
  | _ =>
    rw [proc_frame _ rfl, hpicking] at hholding
    cases hholding

theorem picksInOrder_iff (event : Event) (h : Served s) (henabled : enabled s event) :
    PicksInOrder host s event ↔ s.proc = .undefined ∨ ReturnsNotified s event := by
  have hundefined := @undefined_step host s event h henabled
  constructor
  · intro hpicks
    by_cases hproc : s.proc = .undefined
    · exact Or.inl hproc
    · refine Or.inr ?_
      cases event with
      | waitReturns =>
        refine (notified_iff h.sound henabled.2).mpr ?_
        intro hempty
        exact hpicks.nonempty hproc (hundefined.mpr (Or.inr ⟨rfl, hempty⟩))
      | _ => trivial
  · intro hnotified
    refine ⟨?_, fun msg => returned_step event henabled,
      (served_step event h henabled).sound.conserved⟩
    intro hproc hafter
    rcases hundefined.mp hafter with hbefore | ⟨rfl, hempty⟩
    · exact hproc hbefore
    · rcases hnotified with hbefore | hreturns
      · exact hproc hbefore
      · exact (notified_iff h.sound henabled.2).mp hreturns hempty

/-- Over a whole interleaving: pickMsg never takes from an empty queue and
returns what was appended, in order, exactly when every wait that returns has
been notified. -/
theorem picks_in_order_iff_notified (host : Host) (start : ℤ) (inputs : List Event)
    (h : (session host start).Admissible inputs) :
    Everywhere (fun before event => PicksInOrder host ((session host start).run before) event)
        inputs ↔
      Everywhere (fun before event => ReturnsNotified ((session host start).run before) event)
        inputs := by
  refine served_inductive.everywhere_congr inputs h ?_
  intro before event hserved henabled
  rw [picksInOrder_iff event hserved henabled]
  constructor
  · intro hor
    rcases hor with hproc | hreturns
    · cases event with
      | waitReturns =>
        have hpicking := henabled.1
        rw [hproc] at hpicking
        cases hpicking
      | _ => trivial
    · exact hreturns
  · exact Or.inr

/-- The thread waits, is notified of a message and takes it. -/
def oneMessage : List Event :=
  [.accept .success, .testOpen, .pickMsg, .read .success (oneSegment [49]) 1, .waitReturns]

theorem picks_in_order_iff_on_one_message :
    Everywhere (fun before event =>
        PicksInOrder Host.zeroed ((session Host.zeroed 0).run before) event) oneMessage ↔
      Everywhere (fun before event => ReturnsNotified ((session Host.zeroed 0).run before) event)
        oneMessage :=
  picks_in_order_iff_notified Host.zeroed 0 oneMessage
    (Machine.admissible_of_enabledFrom _ oneMessage (by decide +kernel))

/-- The wait returns without a notification, and front() of the empty queue is
taken. -/
theorem front_of_empty_queue :
    (session Host.zeroed 0).Admissible [.accept .success, .testOpen, .pickMsg, .waitReturns] ∧
      ¬ Everywhere (fun before event =>
          PicksInOrder Host.zeroed ((session Host.zeroed 0).run before) event)
        [.accept .success, .testOpen, .pickMsg, .waitReturns] := by
  refine ⟨Machine.admissible_of_enabledFrom _ _ (by decide +kernel), ?_⟩
  intro h
  have hlast := h [.accept .success, .testOpen, .pickMsg] .waitReturns [] rfl
  exact hlast.nonempty (by decide +kernel) (by decide +kernel)

end Order

section Shutdown

/-- The connection is closed, no read is outstanding, and the thread is blocked
on an empty queue. -/
structure Leaked (s : WebsocketSession) : Prop where
  closed : s.isOpen = false
  reads : s.reads = 0
  picking : s.proc = .picking
  blocked : s.mailbox.waiter ≠ .none
  empty : s.mailbox.queue = []

/-- The thread is in pickMsg and finds, or has found, nothing. -/
def FoundNothing (s : WebsocketSession) : Prop := s.proc = .picking ∧ s.mailbox.queue = []

/-- The reading does not end while the thread finds nothing. -/
def EndsServed (s : WebsocketSession) : Event → Prop
  | .read error _ _ => error = .operationAborted ∨ error = .closed → ¬ FoundNothing s
  | _ => True

/-- When the reading has ended the stream is closed, and the thread will see it. -/
def Released (s : WebsocketSession) : Prop :=
  Ended s → s.isOpen = false ∧ ¬ FoundNothing s

/-- The steps that the reading side and the thread do not take part in. -/
def isOtherEvent : Event → Bool
  | .ping _ => true
  | .timerExpires _ => true
  | .timer _ _ => true
  | .control _ => true
  | .streamFails => true
  | _ => false

theorem other_frame (event : Event) (h : isOtherEvent event = true) :
    queueView (step host s event) = queueView s ∧ (step host s event).reads = s.reads ∧
      (s.isOpen = false → (step host s event).isOpen = false) := by
  cases event with
  | ping error =>
    obtain ⟨hview, hreads, hopen⟩ :=
      @onPing_frame (completes error { s with pings := s.pings - 1 }) error
    refine ⟨hview, hreads, fun hclosed => hopen.trans ?_⟩
    simp [completes, hclosed]
  | timerExpires now => exact ⟨rfl, rfl, fun h => h⟩
  | timer error now =>
    obtain ⟨hview, hreads, hopen⟩ :=
      @onTimer_frame { s with timer := timerCompleted error s.timer } error now
    exact ⟨hview, hreads, fun hclosed => hopen.trans hclosed⟩
  | control now => exact ⟨rfl, rfl, fun h => h⟩
  | streamFails => exact ⟨rfl, rfl, fun _ => rfl⟩
  | _ => cases h

theorem Ended.of_other {event : Event} (h : isOtherEvent event = true)
    (hended : Ended (step host s event)) : Ended s := by
  obtain ⟨hview, hreads, -⟩ := @other_frame host s event h
  obtain ⟨-, -, haccepting⟩ := fields_of_queueView hview
  exact ⟨haccepting.symm.trans hended.1, hreads.symm.trans hended.2⟩

theorem foundNothing_of_view {t : WebsocketSession} (hview : queueView t = queueView s)
    (h : FoundNothing t) : FoundNothing s := by
  obtain ⟨hmailbox, hproc, -⟩ := fields_of_queueView hview
  exact ⟨hproc.symm.trans h.1, by rw [← hmailbox]; exact h.2⟩

theorem popMsg_not_picking (s : WebsocketSession) : (popMsg s).proc ≠ .picking := by
  rcases proc_popMsg s with ⟨-, hproc⟩ | ⟨msg, hproc, -⟩ <;> simp [hproc]

theorem popMsg_frame (s : WebsocketSession) :
    (popMsg s).isOpen = s.isOpen ∧ (popMsg s).reads = s.reads ∧
      (popMsg s).accepting = s.accepting := by
  unfold popMsg
  split <;> exact ⟨rfl, rfl, rfl⟩

theorem released_popMsg (h : Ended s → s.isOpen = false) : Released (popMsg s) := by
  obtain ⟨hopen, hreads, haccepting⟩ := popMsg_frame s
  intro hended
  refine ⟨?_, fun hnothing => popMsg_not_picking s hnothing.1⟩
  rw [hopen]
  exact h ⟨haccepting.symm.trans hended.1, hreads.symm.trans hended.2⟩

theorem released_accept (error : WsError) (hproc : s.proc = .notStarted) :
    Released (step host s (.accept error)) := by
  intro hended
  by_cases herror : error = .success
  · subst herror
    exact absurd hended.2 (Nat.succ_ne_zero _)
  · have hstays : (step host s (.accept error)).isOpen = false ∧
        (step host s (.accept error)).proc = s.proc := by
      cases error <;> simp [step, onAccept] at herror ⊢
    refine ⟨hstays.1, fun hnothing => ?_⟩
    have hpicking := hstays.2.symm.trans hnothing.1
    simp [hproc] at hpicking

/-- A read that ends the reading closes the stream and leaves the thread where it is. -/
theorem released_read {error : WsError} (buffer : MultiBuffer) (now : ℤ)
    (hends : EndsServed s (.read error buffer now)) :
    Released (step host s (.read error buffer now)) := by
  intro hended
  by_cases herror : error = .operationAborted ∨ error = .closed
  · have hclosed : decide (error = .success) = false := by
      rcases herror with rfl | rfl <;> rfl
    simp only [step, onRead_handled buffer now herror]
    refine ⟨?_, hends herror⟩
    show (s.isOpen && decide (error = .success)) = false
    rw [hclosed, Bool.and_false]
  · obtain ⟨haborted, hclosed⟩ := not_or.mp herror
    have hreads := hended.2
    simp only [step, onRead, if_neg haborted, if_neg hclosed] at hreads
    exact absurd hreads (Nat.succ_ne_zero _)

/-- A step in which no thread is left behind keeps the rest released. -/
theorem released_step (event : Event) (hserved : Served s) (h : Released s)
    (henabled : enabled s event) (hends : EndsServed s event) :
    Released (step host s event) := by
  have hother : isOtherEvent event = true → Released (step host s event) := by
    intro hframe hended
    obtain ⟨hview, -, hclosed⟩ := @other_frame host s event hframe
    obtain ⟨hopen, hfound⟩ := h (Ended.of_other hframe hended)
    exact ⟨hclosed hopen, fun hnothing => hfound (foundNothing_of_view hview hnothing)⟩
  cases event with
  | accept error => exact released_accept error (hserved.handshake henabled)
  | read error buffer now => exact released_read buffer now hends
  | testOpen =>
    intro hended
    obtain ⟨hopen, -⟩ := h hended
    refine ⟨hopen, fun hnothing => ?_⟩
    have hproc := hnothing.1
    simp [step, WebsocketSession.testOpen, hopen] at hproc
  | pickMsg =>
    simp only [step, pickMsg]
    split
    · rename_i hempty
      intro hended
      exact absurd ⟨henabled.1, hempty⟩ (h hended).2
    · exact released_popMsg (fun hended => (h hended).1)
  | waitReturns => exact released_popMsg (fun hended => (h hended).1)
  | processMsg =>
    obtain ⟨msg, hproc⟩ := henabled
    simp only [step, processMsg, hproc]
    intro hended
    refine ⟨(h hended).1, fun hnothing => ?_⟩
    rcases parseMsg_cases host msg with hparse | hparse
    · simp [FoundNothing, hparse] at hnothing
    · simp [FoundNothing, hparse] at hnothing
  | _ => exact hother rfl

theorem released_inductive : (session host start).Inductive (fun inputs s =>
    Everywhere (fun before event => EndsServed ((session host start).run before) event) inputs →
      Released s) := by
  refine served_inductive.and_then ?_ ?_
  · intro _ hended
    exact absurd hended.1 (by simp [session, doAccept])
  · intro inputs event hserved hreleased henabled hall
    obtain ⟨hbefore, hends⟩ := (everywhere_append_singleton _ inputs event).mp hall
    exact released_step event hserved (hreleased hbefore) henabled hends

theorem not_leaked (hserved : Served s) (hreleased : Released s) : ¬ Leaked s := by
  intro hleaked
  have hstarted : s.accepting = false := hserved.started (by simp [hleaked.picking])
  exact (hreleased ⟨hstarted, hleaked.reads⟩).2 ⟨hleaked.picking, hleaked.empty⟩

/-- Otherwise the thread is left blocked, at once or when it begins to wait. -/
theorem leaked_of_foundNothing {error : WsError} (buffer : MultiBuffer) (now : ℤ)
    (hloop : ReadLoop s) (hreads : 0 < s.reads)
    (herror : error = .operationAborted ∨ error = .closed) (hnothing : FoundNothing s) :
    Leaked (step host s (.read error buffer now)) ∨
      (enabled (step host s (.read error buffer now)) .pickMsg ∧
        Leaked (step host (step host s (.read error buffer now)) .pickMsg)) := by
  obtain ⟨⟨-, hzero⟩, -⟩ := @ended_of_read host s error buffer now hloop hreads herror
  have hopen : (step host s (.read error buffer now)).isOpen = false := by
    rcases herror with rfl | rfl <;> exact Bool.and_false _
  have hview : queueView (step host s (.read error buffer now)) = queueView s := by
    simp only [step, onRead_handled buffer now herror]
    rfl
  obtain ⟨hmailbox, hproc, -⟩ := fields_of_queueView hview
  have hpicking := hproc.trans hnothing.1
  have hempty : (step host s (.read error buffer now)).mailbox.queue = [] := by
    rw [hmailbox]
    exact hnothing.2
  by_cases hwaits : (step host s (.read error buffer now)).mailbox.waiter = .none
  · refine Or.inr ⟨⟨hpicking, hwaits⟩, ?_⟩
    generalize step host s (.read error buffer now) = t at hopen hzero hpicking hempty
    simp only [step, pickMsg, if_pos hempty]
    exact ⟨hopen, hzero, hpicking, (fun h => by cases h), hempty⟩
  · exact Or.inl ⟨hopen, hzero, hpicking, hwaits, hempty⟩

/-- Over a whole run: if the reading never ends while the thread finds nothing,
the thread is never left blocked. -/
theorem never_leaked (host : Host) (start : ℤ) (inputs : List Event)
    (h : (session host start).Admissible inputs)
    (hends : Everywhere (fun before event => EndsServed ((session host start).run before) event)
      inputs) :
    ∀ before after, inputs = before ++ after → ¬ Leaked ((session host start).run before) := by
  intro before after heq
  rw [heq] at h hends
  have hbefore := Machine.admissible_of_append _ h
  exact not_leaked (served_inductive.run before hbefore)
    (released_inductive.run before hbefore (everywhere_of_append _ before after hends))

/-- The connection is closed while the thread holds the message. -/
theorem endsServed_oneMessage :
    Everywhere (fun before event => EndsServed ((session Host.zeroed 0).run before) event)
      (oneMessage ++ [.read .closed (oneSegment []) 2]) := by
  rw [everywhere_append_singleton]
  constructor
  · intro before event after heq
    have hmem : event ∈ oneMessage := by
      rw [heq]
      simp
    simp only [oneMessage, List.mem_cons, List.not_mem_nil, or_false] at hmem
    rcases hmem with rfl | rfl | rfl | rfl | rfl
    · trivial
    · trivial
    · trivial
    · intro herror
      simp at herror
    · trivial
  · intro _ hnothing
    exact absurd hnothing.1 (by decide +kernel)

theorem never_leaked_on_one_message :
    ¬ Leaked ((session Host.zeroed 0).run (oneMessage ++ [.read .closed (oneSegment []) 2])) :=
  never_leaked Host.zeroed 0 (oneMessage ++ [.read .closed (oneSegment []) 2])
    (Machine.admissible_of_enabledFrom _ _ (by decide +kernel)) endsServed_oneMessage _ []
    (List.append_nil _).symm

/-- The peer closes the connection while the thread waits. -/
theorem leaked_after_close :
    (session Host.zeroed 0).Admissible
        [.accept .success, .testOpen, .pickMsg, .read .closed (oneSegment []) 1] ∧
      Leaked ((session Host.zeroed 0).run
        [.accept .success, .testOpen, .pickMsg, .read .closed (oneSegment []) 1]) := by
  refine ⟨Machine.admissible_of_enabledFrom _ _ (by decide +kernel), ?_⟩
  exact ⟨by decide +kernel, by decide +kernel, by decide +kernel, by decide +kernel,
    by decide +kernel⟩

end Shutdown

end BeastServer.WebsocketQueues
