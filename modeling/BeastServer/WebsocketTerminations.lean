import BeastServer.NumberOverflows
import BeastServer.WebsocketQueues

/-!
What brings down the thread that processes the messages of a websocket session.
It catches the parse errors of the JSON library and no other exception, so a
number that is too large goes through, and with it the process ends.
-/
namespace BeastServer.WebsocketTerminations

open ByteStrings Exceptions JsonValues JsonParsers JsonPrefixes NumberOverflows Machines Mailboxes
open MultiBuffers WebsocketSessions WebsocketReads WebsocketQueues WebsocketSession

section Messages

variable {host : Host} {msg : Bytes}

theorem parseMsg_terminated : parseMsg host msg = .terminated ↔ Overflows host msg := by
  rw [← overflowed_iff]
  constructor
  · intro h
    unfold parseMsg at h
    split at h
    · cases h
    · cases hparse : parse host msg with
      | ok value q => simp [hparse] at h
      | error e q =>
        rcases parse_reported e q hparse with ⟨expected, context, -, hrefused⟩ | ⟨-, -, hover⟩
        · rw [hrefused] at h
          cases h
        · exact ⟨q, hparse.symm.trans hover⟩
  · rintro ⟨q, hover⟩
    have hne : msg ≠ [] := by
      rintro rfl
      obtain ⟨before, number, rest, hempty, ⟨-, ⟨c, text, -, rfl, -⟩, -⟩, -⟩ :=
        overflowed_iff.mp ⟨q, hover⟩
      simp at hempty
    unfold parseMsg
    rw [if_neg hne, hover]
    rfl

end Messages

section Runs

variable {host : Host} {start : ℤ} {s : WebsocketSession} {msg : Bytes}

/-- What a step adds to the messages is what it has read. -/
theorem putIn_grows (event : Event) :
    ∃ more, (step host s event).mailbox.putIn = s.mailbox.putIn ++ more ∧
      ∀ msg ∈ more, ∃ error buffer now, event = .read error buffer now ∧ buffer.msg = msg := by
  by_cases hother : ∃ buffer now, event = .read .other buffer now
  · obtain ⟨buffer, now, rfl⟩ := hother
    refine ⟨[buffer.msg], rfl, ?_⟩
    intro msg hmsg
    exact ⟨.other, buffer, now, rfl, (List.mem_singleton.mp hmsg).symm⟩
  · have hstep := @appended_step host s event (fun buffer now h => hother ⟨buffer, now, h⟩)
    refine ⟨appendedMsgs [event], hstep.1, ?_⟩
    intro msg hmsg
    obtain ⟨buffer, hbuffer, hmade⟩ := List.mem_map.mp hmsg
    obtain ⟨now, hevent⟩ := mem_receivedBuffers.mp hbuffer
    exact ⟨.success, buffer, now, (List.mem_singleton.mp hevent).symm, hmade⟩

/-- A read of the run has brought the message. -/
def Delivered (inputs : List Event) (msg : Bytes) : Prop :=
  ∃ error buffer now, Event.read error buffer now ∈ inputs ∧ buffer.msg = msg

theorem delivered_inductive : (session host start).Inductive
    (fun inputs s => ∀ msg ∈ s.mailbox.putIn, Delivered inputs msg) where
  start := fun msg hmsg => absurd hmsg List.not_mem_nil
  preserved inputs event _ h _ := by
    intro msg hmsg
    obtain ⟨more, hmore, hread⟩ := @putIn_grows host ((session host start).run inputs) event
    have hmem : msg ∈ ((session host start).run inputs).mailbox.putIn ++ more := by
      rw [← hmore]
      exact hmsg
    rcases List.mem_append.mp hmem with hbefore | hnew
    · obtain ⟨error, buffer, now, hevent, heq⟩ := h msg hbefore
      exact ⟨error, buffer, now, List.mem_append_left _ hevent, heq⟩
    · obtain ⟨error, buffer, now, rfl, heq⟩ := hread msg hnew
      exact ⟨error, buffer, now, by simp, heq⟩

/-- The message in hand has been put into the queue. -/
theorem holding_step (event : Event) (hserved : Served s) (henabled : enabled s event)
    (h : ∀ msg, s.proc = .holding msg → msg ∈ s.mailbox.putIn)
    (hholding : (step host s event).proc = .holding msg) :
    msg ∈ (step host s event).mailbox.putIn := by
  have hpicked : s.proc = .picking → msg ∈ (step host s event).mailbox.putIn := by
    intro hpicking
    have htaken := returned_step event henabled hpicking hholding
    rw [(served_step event hserved henabled).sound.conserved, htaken]
    simp
  have hframe : isThreadEvent event = false → msg ∈ (step host s event).mailbox.putIn := by
    intro hother
    obtain ⟨more, hmore, -⟩ := @putIn_grows host s event
    rw [proc_frame event hother] at hholding
    rw [hmore]
    exact List.mem_append_left _ (h msg hholding)
  cases event with
  | accept error =>
    have hproc := hserved.handshake henabled
    cases error <;> simp [step, onAccept, doRead, perform, hproc] at hholding
  | testOpen =>
    simp only [step, WebsocketSession.testOpen] at hholding
    split at hholding <;> cases hholding
  | pickMsg => exact hpicked henabled.1
  | waitReturns => exact hpicked henabled.1
  | processMsg =>
    obtain ⟨other, hproc⟩ := henabled
    simp only [step, processMsg, hproc] at hholding
    rcases parseMsg_cases host other with hparse | hparse <;> simp [hparse] at hholding
  | _ => exact hframe rfl

theorem holding_inductive : (session host start).Inductive
    (fun _ s => ∀ msg, s.proc = .holding msg → msg ∈ s.mailbox.putIn) :=
  served_inductive.and_then (fun _ hproc => by cases hproc)
    (fun _ event hserved h henabled _ => holding_step event hserved henabled h)

/-- Only the parsing of a message terminates the thread. -/
theorem terminated_step (event : Event) (h : Served s) (henabled : enabled s event) :
    (step host s event).proc = .terminated ↔
      s.proc = .terminated ∨
        (event = .processMsg ∧ ∃ msg, s.proc = .holding msg ∧ Overflows host msg) := by
  have hpopped : ∀ t : WebsocketSession, (popMsg t).proc ≠ .terminated := by
    intro t hproc
    rcases proc_popMsg t with ⟨-, hundefined⟩ | ⟨msg, hholding, -⟩
    · rw [hproc] at hundefined
      cases hundefined
    · rw [hproc] at hholding
      cases hholding
  cases event with
  | accept error =>
    have hproc := h.handshake henabled
    cases error <;> simp [step, onAccept, doRead, perform, hproc]
  | testOpen =>
    have hproc : s.proc = .testing := henabled
    simp only [step, WebsocketSession.testOpen, hproc]
    split <;> simp
  | pickMsg =>
    have hproc := henabled.1
    simp only [step, pickMsg]
    split
    · simp [hproc]
    · simp [hproc, hpopped s]
  | waitReturns =>
    have hproc := henabled.1
    simp [step, waitReturns, hproc, hpopped]
  | processMsg =>
    obtain ⟨msg, hproc⟩ := henabled
    simp [step, processMsg, hproc, parseMsg_terminated]
  | _ => rw [proc_frame _ rfl]; simp

/-- The step parses no message that overflows. -/
def Spared (host : Host) (s : WebsocketSession) (event : Event) : Prop :=
  ¬ (event = .processMsg ∧ ∃ msg, s.proc = .holding msg ∧ Overflows host msg)

theorem spared_inductive : (session host start).Inductive (fun inputs s =>
    s.proc ≠ .terminated ↔
      Everywhere (fun before event => Spared host ((session host start).run before) event)
        inputs) := by
  refine served_inductive.and_then ?_ ?_
  · exact iff_of_true (fun h => by cases h) (everywhere_nil _)
  · intro inputs event hserved h henabled
    have hstep := @terminated_step host ((session host start).run inputs) event hserved henabled
    rw [everywhere_append_singleton, ← h]
    exact (not_congr hstep).trans not_or

/-- Over a whole interleaving: an exception leaves the thread exactly if it has
parsed a message, which a read of the run brought, that has a number too large
for a double where the parser waits for a value. -/
theorem terminated_iff_overflow (host : Host) (start : ℤ) (inputs : List Event)
    (h : (session host start).Admissible inputs) :
    ((session host start).run inputs).proc = .terminated ↔
      ∃ before after msg, inputs = before ++ .processMsg :: after ∧
        ((session host start).run before).proc = .holding msg ∧ Delivered before msg ∧
        Overflows host msg := by
  have hspared := spared_inductive.run inputs h
  constructor
  · intro hterminated
    by_contra hnone
    refine hspared.mpr ?_ hterminated
    rintro before event after heq ⟨rfl, msg, hholding, hover⟩
    have hbefore : (session host start).Admissible before := by
      rw [heq] at h
      exact Machine.admissible_of_append _ h
    have hmem := holding_inductive.run before hbefore msg hholding
    exact hnone ⟨before, after, msg, heq, hholding,
      delivered_inductive.run before hbefore msg hmem, hover⟩
  · rintro ⟨before, after, msg, heq, hholding, -, hover⟩
    by_contra hne
    exact hspared.mp hne before .processMsg after heq ⟨rfl, msg, hholding, hover⟩

/-- A host whose strtod does as the real one on one number. -/
def infiniteHost : Host :=
  { Host.zeroed with
    strtod := fun text => if text = ascii "1e400" then ⟨0x7FF0000000000000⟩ else ⟨0⟩ }

def infiniteMessage : Bytes := ascii "[1e400]"

/-- The thread waits for the message and takes it. -/
def infinitePicked : List Event :=
  [.accept .success, .testOpen, .pickMsg, .read .success (oneSegment infiniteMessage) 1,
    .waitReturns]

/-- The bracket alone is refused because a value should follow. -/
theorem infiniteMessage_overflows : Overflows infiniteHost infiniteMessage := by
  refine ⟨ascii "[", ascii "1e400", ascii "]", rfl, ?_, ?_⟩
  · have hrest : ∀ d ∈ (ascii "]").head?, JsonLexers.NumberState.any2.next d = none := by
      intro d hd
      obtain rfl := Option.some.inj hd
      rfl
    exact ⟨.valueFloat, ⟨49, ascii "e400", .any2, rfl, Or.inr rfl, rfl, rfl, hrest⟩,
      (fun h => by cases h.1), (fun h => by cases h.1), by decide +kernel⟩
  · rw [awaits_parse, sax_array (by decide) (by decide)]
    exact awaits_of_atEnd ⟨by decide, by decide⟩

theorem terminated_iff_overflow_infinite :
    ((session infiniteHost 0).run (infinitePicked ++ [.processMsg])).proc = .terminated := by
  have hrun : (session infiniteHost 0).Admissible (infinitePicked ++ [.processMsg]) :=
    Machine.admissible_of_enabledFrom _ _ (by decide +kernel)
  have hholding : ((session infiniteHost 0).run infinitePicked).proc =
      .holding infiniteMessage := by
    decide +kernel
  have hread : Delivered infinitePicked infiniteMessage :=
    ⟨.success, oneSegment infiniteMessage, 1, by simp [infinitePicked], by decide⟩
  exact (terminated_iff_overflow infiniteHost 0 _ hrun).mpr
    ⟨infinitePicked, [], infiniteMessage, rfl, hholding, hread, infiniteMessage_overflows⟩

end Runs

end BeastServer.WebsocketTerminations
