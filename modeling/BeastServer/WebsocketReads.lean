import BeastServer.WebsocketSessions

/-!
The reading side of a websocket session.
A read appends the string that is made of the buffer, which is the message
only when the buffer has one segment. The read loop goes on after every error
but operation_aborted and closed, so it ends with the first error exactly in
the runs in which no other error occurs, and the queue gets the messages as
they were sent only in those of them in which each message lies in one segment.
-/
namespace BeastServer.WebsocketReads

open ByteStrings JsonValues DecoderBounds Machines Mailboxes MultiBuffers WebsocketSessions
open WebsocketSession Mailbox PictureJson

section Messages

variable {s : WebsocketSession} {buffer : MultiBuffer} {now : ℤ} {error : WsError}

/-- The message is appended as it was received, and making the string reads no
byte beyond the end of a segment. -/
def ReceivesIntact (buffer : MultiBuffer) (now : ℤ) (s : WebsocketSession) : Prop :=
  (onRead .success buffer now s).mailbox.queue = s.mailbox.queue ++ [buffer.data.flatten] ∧
    ∃ accesses, (onRead .success buffer now s).accesses = s.accesses ++ accesses ∧
      InBounds accesses

theorem receivesIntact_iff : ReceivesIntact buffer now s ↔ buffer.Intact := by
  have hqueue : (onRead .success buffer now s).mailbox.queue = s.mailbox.queue ++ [buffer.msg] :=
    rfl
  have haccesses : (onRead .success buffer now s).accesses = s.accesses ++ buffer.msgAccesses :=
    rfl
  unfold ReceivesIntact
  rw [hqueue, haccesses]
  constructor
  · intro ⟨hmsg, accesses, happend, hbounds⟩
    have hsame : buffer.msgAccesses = accesses := List.append_cancel_left happend
    rw [← hsame] at hbounds
    exact ⟨List.singleton_inj.mp (List.append_cancel_left hmsg), hbounds⟩
  · intro ⟨hmsg, hbounds⟩
    rw [hmsg]
    exact ⟨rfl, _, rfl, hbounds⟩

/-- Every message, however it is split: it is received intact exactly when all
its bytes are in the first segment. -/
theorem receives_intact_iff_one_segment (s : WebsocketSession) (buffer : MultiBuffer) (now : ℤ) :
    ReceivesIntact buffer now s ↔ ∀ segment ∈ buffer.data.tail, segment = [] := by
  rw [receivesIntact_iff]
  exact MultiBuffer.intact_iff_oneSegment

/-- A message of 2000 bytes, of which the first 1536 came with the first read. -/
def twoSegments : MultiBuffer := ⟨[List.replicate 1536 97, List.replicate 464 98], fun _ => 0⟩

theorem two_segments_not_intact : ¬ ReceivesIntact twoSegments 1 (doAccept 0) := by
  rw [receivesIntact_iff, MultiBuffer.intact_iff_oneSegment]
  intro h
  have hempty : List.replicate 464 (98 : UInt8) = [] := h _ List.mem_cons_self
  simp at hempty

end Messages

section Reading

/-- What onRead and the callbacks of a read do: start a read, refresh the ping
state and the deadline, append a message. -/
def isReading : Action → Bool
  | .startRead => true
  | .activity _ => true
  | .append _ => true
  | .startPing _ => false
  | .close _ => false

def readActions (s : WebsocketSession) : List Action := s.log.filter isReading

/-- The buffers of the reads that succeeded. -/
def receivedBuffers (inputs : List Event) : List MultiBuffer :=
  inputs.filterMap fun
    | .read .success buffer _ => some buffer
    | _ => none

/-- The messages of the reads that succeeded, as they were sent. -/
def receivedMsgs (inputs : List Event) : List Bytes :=
  (receivedBuffers inputs).map fun buffer => buffer.data.flatten

/-- The strings that are made of these messages, and what making them reads. -/
def appendedMsgs (inputs : List Event) : List Bytes := (receivedBuffers inputs).map MultiBuffer.msg

def msgAccesses (inputs : List Event) : List Access :=
  (receivedBuffers inputs).flatMap MultiBuffer.msgAccesses

/-- After a read that completes with an error nothing is appended, no activity
is noted and no read is started. The queue gets the messages that were read, as
they were sent, and no byte beyond the end of a segment is read for it. -/
structure EndsReading (M : Machine WebsocketSession Event) (inputs : List Event) : Prop where
  ends : ∀ before error buffer now middle after,
    inputs = before ++ .read error buffer now :: (middle ++ after) → error ≠ .success →
      readActions (M.run (before ++ .read error buffer now :: middle)) =
        readActions (M.run before)
  receives : (M.run inputs).mailbox.putIn = receivedMsgs inputs
  inBounds : InBounds (M.run inputs).accesses

/-- No read completes with an error other than operation_aborted and closed. -/
def OnlyHandledErrors (inputs : List Event) : Prop :=
  ∀ buffer now, Event.read .other buffer now ∉ inputs

/-- Every message that is read lies in one segment of the buffer. -/
def InOneSegment (inputs : List Event) : Prop :=
  ∀ buffer now, Event.read .success buffer now ∈ inputs → buffer.OneSegment

variable {host : Host} {start : ℤ} {s : WebsocketSession}

/-- What the reading side has done and what it has outstanding. -/
def readView (s : WebsocketSession) : Bool × ℕ × List Action × List Bytes × List Access :=
  (s.accepting, s.reads, readActions s, s.mailbox.putIn, s.accesses)

theorem fields_of_readView {t : WebsocketSession} (h : readView t = readView s) :
    t.accepting = s.accepting ∧ t.reads = s.reads ∧ readActions t = readActions s ∧
      t.mailbox.putIn = s.mailbox.putIn ∧ t.accesses = s.accesses := by
  simpa only [readView, Prod.mk.injEq] using h

/-- The completions and callbacks of the operations that read. -/
def isReadEvent : Event → Bool
  | .accept _ => true
  | .read _ _ _ => true
  | .control _ => true
  | _ => false

theorem readActions_perform (action : Action) :
    readActions (perform action s) =
      if isReading action = true then readActions s ++ [action] else readActions s := by
  unfold readActions perform
  rw [List.filter_append]
  cases h : isReading action <;> simp [h]

theorem readView_onTimer (error : WsError) (now : ℤ) :
    readView (onTimer error now s) = readView s := by
  have hping : readActions (perform (.startPing now) s) = readActions s := by
    rw [readActions_perform]
    rfl
  have hclose : readActions (perform (.close now) s) = readActions s := by
    rw [readActions_perform]
    rfl
  unfold onTimer
  split
  · rfl
  · split
    · split
      · exact congrArg (fun actions => (s.accepting, s.reads, actions, s.mailbox.putIn, s.accesses))
          hping
      · exact congrArg (fun actions => (s.accepting, s.reads, actions, s.mailbox.putIn, s.accesses))
          hclose
    · rfl

theorem readView_popMsg : readView (popMsg s) = readView s := by
  unfold popMsg
  split
  · rename_i msg mailbox htake
    unfold readView
    exact congrArg (fun putIn => (s.accepting, s.reads, readActions s, putIn, s.accesses))
      (putIn_take htake)
  · rfl

/-- The timer, the pings and the processing thread leave the reading side alone. -/
theorem readView_step (event : Event) (h : isReadEvent event = false) :
    readView (step host s event) = readView s := by
  cases event with
  | accept error => cases h
  | read error buffer now => cases h
  | control now => cases h
  | ping error =>
    simp only [step, onPing]
    split
    · rfl
    · split
      · rfl
      · split <;> rfl
  | timerExpires now => rfl
  | timer error now => exact readView_onTimer error now
  | streamFails => rfl
  | testOpen => rfl
  | pickMsg =>
    simp only [step, pickMsg]
    split
    · rfl
    · exact readView_popMsg
  | waitReturns => exact readView_popMsg
  | processMsg =>
    simp only [step, processMsg]
    split <;> rfl

/-- No read is outstanding and none will be started. -/
def Ended (s : WebsocketSession) : Prop := s.accepting = false ∧ s.reads = 0

/-- At most one read is outstanding, and none before the handshake. -/
structure ReadLoop (s : WebsocketSession) : Prop where
  one : s.reads ≤ 1
  handshake : s.accepting = true → s.reads = 0

theorem ended_step (event : Event) (h : Ended s) (henabled : enabled s event) :
    Ended (step host s event) ∧ readActions (step host s event) = readActions s := by
  have hnot : isReadEvent event = false := by
    obtain ⟨haccepting, hreads⟩ := h
    cases event with
    | accept error => simp [enabled, haccepting] at henabled
    | read error buffer now => simp [enabled, hreads] at henabled
    | control now => simp [enabled, hreads] at henabled
    | _ => rfl
  obtain ⟨haccepting, hreads, hactions, -⟩ :=
    fields_of_readView (@readView_step host s event hnot)
  exact ⟨⟨haccepting.trans h.1, hreads.trans h.2⟩, hactions⟩

/-- Any completion but operation_aborted and closed is noted as activity,
appends a message and starts the next read. -/
theorem readActions_onRead {error : WsError} (buffer : MultiBuffer) (now : ℤ)
    (haborted : error ≠ .operationAborted) (hclosed : error ≠ .closed) :
    readActions (onRead error buffer now s) =
      readActions s ++ [.activity now, .append buffer.msg, .startRead] := by
  simp [onRead, haborted, hclosed, doRead, enqueue, activity, expiresAfter, readActions, perform,
    isReading]

theorem onRead_handled {error : WsError} (buffer : MultiBuffer) (now : ℤ)
    (h : error = .operationAborted ∨ error = .closed) : onRead error buffer now s = s := by
  rcases h with rfl | rfl <;> rfl

/-- A read that ends the reading leaves nothing outstanding. -/
theorem ended_of_read {error : WsError} (buffer : MultiBuffer) (now : ℤ) (h : ReadLoop s)
    (hreads : 0 < s.reads) (herror : error = .operationAborted ∨ error = .closed) :
    Ended (step host s (.read error buffer now)) ∧
      readActions (step host s (.read error buffer now)) = readActions s := by
  have hone := h.one
  have haccepting : s.accepting = false := by
    cases haccepting : s.accepting with
    | false => rfl
    | true =>
      have := h.handshake haccepting
      omega
  simp only [step, onRead_handled buffer now herror]
  refine ⟨⟨haccepting, ?_⟩, rfl⟩
  show s.reads - 1 = 0
  omega

theorem readLoop_step (event : Event) (h : ReadLoop s) (henabled : enabled s event) :
    ReadLoop (step host s event) := by
  have hone := h.one
  have hframe : isReadEvent event = false → ReadLoop (step host s event) := by
    intro hnot
    obtain ⟨haccepting, hreads, -⟩ := fields_of_readView (@readView_step host s event hnot)
    exact ⟨by rw [hreads]; exact hone, by rw [haccepting, hreads]; exact h.handshake⟩
  cases event with
  | accept error =>
    have hnone := h.handshake henabled
    cases error with
    | success =>
      refine ⟨?_, fun haccepting => by cases haccepting⟩
      show s.reads + 1 ≤ 1
      omega
    | operationAborted => exact ⟨hone, fun haccepting => by cases haccepting⟩
    | closed => exact ⟨hone, fun haccepting => by cases haccepting⟩
    | other => exact ⟨hone, fun haccepting => by cases haccepting⟩
  | read error buffer now =>
    have hreads : 0 < s.reads := henabled
    by_cases herror : error = .operationAborted ∨ error = .closed
    · obtain ⟨⟨haccepting, hzero⟩, -⟩ := @ended_of_read host s error buffer now h hreads herror
      exact ⟨by rw [hzero]; omega, fun _ => hzero⟩
    · obtain ⟨haborted, hclosed⟩ := not_or.mp herror
      have hnext : (step host s (.read error buffer now)).reads = s.reads - 1 + 1 := by
        simp [step, onRead, haborted, hclosed, doRead, enqueue, activity, expiresAfter, perform,
          completes]
      have haccepting : (step host s (.read error buffer now)).accepting = s.accepting := by
        simp [step, onRead, haborted, hclosed, doRead, enqueue, activity, expiresAfter, perform,
          completes]
      refine ⟨by omega, ?_⟩
      rw [haccepting]
      intro hshake
      have := h.handshake hshake
      omega
  | control now => exact ⟨hone, h.handshake⟩
  | _ => exact hframe rfl

theorem readLoop_inductive : (session host start).Inductive (fun _ s => ReadLoop s) := by
  refine Machine.inductive_of_step ?_ (fun s event => readLoop_step event)
  exact ⟨Nat.zero_le 1, fun _ => rfl⟩

/-- A successful read puts its string into the queue and notes what it reads for
it; the other steps, but for a read with another error, do neither. -/
theorem appended_step (event : Event) (hother : ∀ buffer now, event ≠ .read .other buffer now) :
    (step host s event).mailbox.putIn = s.mailbox.putIn ++ appendedMsgs [event] ∧
      (step host s event).accesses = s.accesses ++ msgAccesses [event] := by
  have hframe : isReadEvent event = false → receivedBuffers [event] = [] →
      (step host s event).mailbox.putIn = s.mailbox.putIn ++ appendedMsgs [event] ∧
        (step host s event).accesses = s.accesses ++ msgAccesses [event] := by
    intro hnot hnone
    obtain ⟨-, -, -, hputIn, haccesses⟩ := fields_of_readView (@readView_step host s event hnot)
    rw [hputIn, haccesses, appendedMsgs, msgAccesses, hnone]
    exact ⟨(List.append_nil _).symm, (List.append_nil _).symm⟩
  have hsame : ∀ {t : WebsocketSession}, t.mailbox = s.mailbox → t.accesses = s.accesses →
      t.mailbox.putIn = s.mailbox.putIn ++ [] ∧ t.accesses = s.accesses ++ [] := by
    intro t hmailbox haccesses
    rw [hmailbox, haccesses]
    exact ⟨(List.append_nil _).symm, (List.append_nil _).symm⟩
  cases event with
  | accept error => cases error <;> exact hsame rfl rfl
  | read error buffer now =>
    cases error with
    | success =>
      refine ⟨rfl, ?_⟩
      rw [msgAccesses]
      exact congrArg (s.accesses ++ ·) (List.append_nil _).symm
    | operationAborted => exact hsame rfl rfl
    | closed => exact hsame rfl rfl
    | other => exact absurd rfl (hother buffer now)
  | control now => exact hsame rfl rfl
  | _ => exact hframe rfl rfl

/-- Where no other error occurs, the queue gets what is made of the successful reads. -/
theorem appended_inductive : (session host start).Inductive
    (fun inputs s => OnlyHandledErrors inputs →
      s.mailbox.putIn = appendedMsgs inputs ∧ s.accesses = msgAccesses inputs) where
  start := fun _ => ⟨rfl, rfl⟩
  preserved inputs event _ h _ hall := by
    obtain ⟨hputIn, haccesses⟩ :=
      h (fun buffer now hmem => hall buffer now (List.mem_append_left _ hmem))
    have hlast : ∀ buffer now, event ≠ .read .other buffer now := by
      intro buffer now heq
      exact hall buffer now (by simp [heq])
    obtain ⟨hputIn', haccesses'⟩ :=
      @appended_step host ((session host start).run inputs) event hlast
    have hbuffers : receivedBuffers (inputs ++ [event]) =
        receivedBuffers inputs ++ receivedBuffers [event] := List.filterMap_append
    rw [hputIn] at hputIn'
    rw [haccesses] at haccesses'
    refine ⟨hputIn'.trans ?_, haccesses'.trans ?_⟩
    · rw [appendedMsgs, appendedMsgs, appendedMsgs, hbuffers, List.map_append]
    · rw [msgAccesses, msgAccesses, msgAccesses, hbuffers, List.flatMap_append]

theorem mem_receivedBuffers {buffer : MultiBuffer} {inputs : List Event} :
    buffer ∈ receivedBuffers inputs ↔ ∃ now, Event.read .success buffer now ∈ inputs := by
  unfold receivedBuffers
  rw [List.mem_filterMap]
  constructor
  · rintro ⟨event, hevent, hread⟩
    split at hread
    · rename_i now
      obtain rfl := Option.some.inj hread
      exact ⟨now, hevent⟩
    · cases hread
  · rintro ⟨now, hevent⟩
    exact ⟨_, hevent, rfl⟩

/-- The strings are the messages, and made without a read beyond a segment,
exactly when each message lies in one segment. -/
theorem intact_iff_inOneSegment (inputs : List Event) :
    appendedMsgs inputs = receivedMsgs inputs ∧ InBounds (msgAccesses inputs) ↔
      InOneSegment inputs := by
  have hbounds : InBounds (msgAccesses inputs) ↔
      ∀ buffer ∈ receivedBuffers inputs, InBounds buffer.msgAccesses := by
    unfold InBounds msgAccesses
    simp only [List.mem_flatMap, forall_exists_index, and_imp]
    exact ⟨fun h buffer hbuffer access => h access buffer hbuffer,
      fun h access buffer hbuffer => h buffer hbuffer access⟩
  have hall : appendedMsgs inputs = receivedMsgs inputs ∧ InBounds (msgAccesses inputs) ↔
      ∀ buffer ∈ receivedBuffers inputs, buffer.Intact := by
    rw [hbounds, appendedMsgs, receivedMsgs, List.map_inj_left, ← forall_and]
    exact forall_congr' (fun buffer => forall_and.symm)
  rw [hall]
  simp only [MultiBuffer.intact_iff_oneSegment, mem_receivedBuffers, forall_exists_index]
  rfl

theorem handled_of_endsReading {inputs : List Event}
    (h : EndsReading (session host start) inputs) : OnlyHandledErrors inputs := by
  intro buffer now hmem
  obtain ⟨before, after, heq⟩ := List.append_of_mem hmem
  have hsame := h.ends before .other buffer now [] after heq (by simp)
  rw [Machine.run_append_singleton] at hsame
  have hmore : readActions (step host ((session host start).run before) (.read .other buffer now)) =
      readActions ((session host start).run before) ++
        [.activity now, .append buffer.msg, .startRead] := by
    simp only [step]
    rw [readActions_onRead buffer now (by simp) (by simp)]
    rfl
  rw [show (session host start).step = step host from rfl, hmore] at hsame
  simp at hsame

theorem endsReading_of_handled {inputs : List Event}
    (hrun : (session host start).Admissible inputs) (h : OnlyHandledErrors inputs)
    (hone : InOneSegment inputs) : EndsReading (session host start) inputs where
  ends before error buffer now middle after heq herror := by
    have hadmissible : (session host start).Admissible
        ((before ++ [.read error buffer now]) ++ middle) := by
      apply @Machine.admissible_of_append _ _ (session host start) _ after
      rw [List.append_assoc, List.append_assoc, List.singleton_append, ← heq]
      exact hrun
    have hfirst := Machine.admissible_of_append _ hadmissible
    obtain ⟨hbefore, hreads⟩ := (Machine.admissible_append_singleton _ _ _).mp hfirst
    have hhandled : error = .operationAborted ∨ error = .closed := by
      cases error with
      | success => exact absurd rfl herror
      | operationAborted => exact Or.inl rfl
      | closed => exact Or.inr rfl
      | other => exact absurd (by rw [heq]; simp) (h buffer now)
    obtain ⟨hended, hsame⟩ := @ended_of_read host _ error buffer now
      (readLoop_inductive.run before hbefore) hreads hhandled
    have hrest := (Machine.frozen_run (session host start) Ended readActions
      (fun event _ s => ended_step event) hadmissible
      (by rw [Machine.run_append_singleton]; exact hended)).2
    rw [List.append_assoc, List.singleton_append, Machine.run_append_singleton] at hrest
    exact hrest.trans hsame
  receives := (appended_inductive.run inputs hrun h).1.trans
    ((intact_iff_inOneSegment inputs).mpr hone).1
  inBounds := by
    rw [(appended_inductive.run inputs hrun h).2]
    exact ((intact_iff_inOneSegment inputs).mpr hone).2

/-- Over a whole run: the first error ends the reading and the messages are
received as they were sent exactly when no read completes with an error that
onRead does not return for and each message lies in one segment. -/
theorem ends_reading_iff (host : Host) (start : ℤ) (inputs : List Event)
    (h : (session host start).Admissible inputs) :
    EndsReading (session host start) inputs ↔
      OnlyHandledErrors inputs ∧ InOneSegment inputs := by
  constructor
  · intro hends
    have hhandled := handled_of_endsReading hends
    obtain ⟨hputIn, haccesses⟩ := appended_inductive.run inputs h hhandled
    refine ⟨hhandled, (intact_iff_inOneSegment inputs).mp ⟨hputIn.symm.trans hends.receives, ?_⟩⟩
    rw [← haccesses]
    exact hends.inBounds
  · rintro ⟨hhandled, hone⟩
    exact endsReading_of_handled h hhandled hone

def oneSegment (bytes : Bytes) : MultiBuffer := ⟨[bytes], fun _ => 0⟩

/-- Two messages are read and the peer closes the connection. -/
def readAndClosed : List Event :=
  [.accept .success, .read .success (oneSegment [49]) 1, .read .success (oneSegment [50]) 2,
    .streamFails, .read .closed (oneSegment []) 3]

theorem ends_reading_iff_on_closed :
    EndsReading (session Host.zeroed 0) readAndClosed ↔
      OnlyHandledErrors readAndClosed ∧ InOneSegment readAndClosed :=
  ends_reading_iff Host.zeroed 0 readAndClosed
    (Machine.admissible_of_enabledFrom _ readAndClosed (by decide +kernel))

/-- A connection that breaks: the empty string is appended to the queue and a
read of the broken stream is started. -/
theorem broken_stream_read_again :
    (session Host.zeroed 0).Admissible [.accept .success, .read .other (oneSegment []) 1] ∧
      ¬ EndsReading (session Host.zeroed 0)
        [.accept .success, .read .other (oneSegment []) 1] := by
  refine ⟨Machine.admissible_of_enabledFrom _ _ (by decide +kernel), ?_⟩
  intro h
  exact handled_of_endsReading h (oneSegment []) 1 (by simp)

end Reading

end BeastServer.WebsocketReads
