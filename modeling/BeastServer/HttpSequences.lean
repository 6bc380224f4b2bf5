import BeastServer.HttpSoundness
import Mathlib.Data.List.TakeWhile

/-!
Closing requests and upgrades in a sequence of pipelined requests.
Whether every order of completions is harmless depends on the sequence alone.
The session reads on behind a request that asks to close, so that request has
to be the last one; and it upgrades with responses pending unless nothing
precedes the upgrade or the queue fills up before the upgrade is read.
-/
namespace BeastServer.HttpSequences

open HttpMessages HttpSessions HttpSession HttpPipelines HttpSoundness Machines

section Properties

/-- No request is dispatched once a response that needs EOF has been enqueued. -/
def NoLateDispatch (s : HttpSession) : Event → Prop
  | .read (.request exchange) _ =>
    exchange.request.isUpgrade = false → ∀ x ∈ s.dispatched, x.response.needEof = false
  | _ => True

/-- When the socket is moved away, every response has been written. -/
def NothingPending (s : HttpSession) : Event → Prop
  | .read (.request exchange) _ =>
    exchange.request.isUpgrade = true →
      s.workers = [] ∧ s.writes = [] ∧ s.written = s.dispatched.map Exchange.response
  | _ => True

/-- The requests before the first upgrade, which are the ones for handlers. -/
def handledPart (requests : List Exchange) : List Exchange :=
  requests.takeWhile (fun exchange => !exchange.request.isUpgrade)

/-- The part from the first request on whose response needs EOF. -/
def fromClosing (requests : List Exchange) : List Exchange :=
  requests.dropWhile (fun exchange => !exchange.response.needEof)

/-- Only the last request that is handled asks to close. -/
def ClosingLast (requests : List Exchange) : Prop :=
  ∀ exchange ∈ (handledPart requests).dropLast, exchange.response.needEof = false

/-- There is no upgrade, or no request before it, or the queue is full of a
closing response and those behind it before the upgrade can be read. -/
def UpgradeHarmless (requests : List Exchange) : Prop :=
  handledPart requests = requests ∨ handledPart requests = [] ∨
    limit ≤ (fromClosing (handledPart requests)).length

end Properties

section Schedules

/-- Each request is read and answered before the next one. -/
def served (requests : List Exchange) : List Event :=
  requests.flatMap (fun exchange => [.read (.request exchange) 0, .write .success 0])

def readAll (requests : List Exchange) : List Event :=
  requests.map (fun exchange => .read (.request exchange) 0)

/-- A run of ordinary completions and closing responses, with what is queued. -/
structure Ready (start : ℤ) (inputs : List Event) (workers : List Response) : Prop where
  admissible : (session start).Admissible inputs
  pipelined : Pipelined inputs ((session start).run inputs)
  queued : ((session start).run inputs).workers = workers

variable {start : ℤ} {inputs : List Event} {workers : List Response} {exchange : Exchange}

theorem ready_nil (start : ℤ) : Ready start [] [] :=
  ⟨Machine.admissible_nil _, pipelined_run start, rfl⟩

theorem Ready.reads (h : Ready start inputs workers) (hroom : workers.length < limit) :
    ((session start).run inputs).reads = 1 := by
  rw [h.pipelined.reads, h.queued, if_pos hroom]

theorem Ready.read (h : Ready start inputs workers) (hroom : workers.length < limit)
    (hplain : exchange.request.isUpgrade = false) :
    Ready start (inputs ++ [.read (.request exchange) 0]) (workers ++ [exchange.response]) := by
  have hreads : 0 < ((session start).run inputs).reads := by
    rw [h.reads hroom]
    omega
  refine ⟨(Machine.admissible_append_singleton _ _ _).mpr ⟨h.admissible, hreads⟩, ?_, ?_⟩
  · rw [Machine.run_append_singleton]
    exact pipelined_read h.pipelined hreads hplain
  · rw [Machine.run_append_singleton]
    change (onRead (.request exchange) 0 { (session start).run inputs with
      reads := ((session start).run inputs).reads - 1 }).workers = _
    rw [onRead_request hplain, dispatch_eq]
    split
    · simp [h.queued]
    · simp [h.queued]

theorem Ready.write {msg : Response} (h : Ready start inputs (msg :: workers))
    (hopen : ∀ m ∈ msg :: workers, m.needEof = false) :
    Ready start (inputs ++ [.write .success 0]) workers := by
  have hwrites : ((session start).run inputs).writes = [msg] := by
    rw [h.pipelined.writes, h.queued]
    rfl
  have hwriting : ((session start).run inputs).writes ≠ [] := by
    rw [hwrites]
    exact List.cons_ne_nil msg []
  refine ⟨(Machine.admissible_append_singleton _ _ _).mpr ⟨h.admissible, hwriting⟩, ?_, ?_⟩
  · rw [Machine.run_append_singleton]
    exact pipelined_write h.pipelined hwriting (by rw [h.queued]; exact hopen)
  · rw [Machine.run_append_singleton]
    change (completeWrite .success 0 ((session start).run inputs)).workers = _
    unfold completeWrite
    rw [hwrites]
    simp only [if_true]
    rw [onWrite_next (hopen msg List.mem_cons_self), startFront_eq]
    split
    · simp [h.queued]
    · simp [h.queued]

/-- Open requests that are answered one by one leave an empty queue. -/
theorem ready_served (start : ℤ) (requests : List Exchange)
    (hplain : ∀ x ∈ requests, x.request.isUpgrade = false)
    (hopen : ∀ x ∈ requests, x.response.needEof = false) :
    Ready start (served requests) [] ∧ received (served requests) = requests := by
  induction requests using List.reverseRecOn with
  | nil => exact ⟨ready_nil start, rfl⟩
  | append_singleton requests exchange ih =>
    obtain ⟨hready, hreceived⟩ := ih (fun x hx => hplain x (by simp [hx]))
      (fun x hx => hopen x (by simp [hx]))
    have hsplit : served (requests ++ [exchange]) =
        served requests ++ [.read (.request exchange) 0] ++ [.write .success 0] := by
      simp [served]
    rw [hsplit]
    have hread := hready.read (by simp [limit]) (hplain exchange (by simp))
    refine ⟨hread.write ?_, ?_⟩
    · intro m hm
      rw [List.mem_singleton.mp hm]
      exact hopen exchange (by simp)
    · rw [received_append, received_append, received_request, received_write, List.append_nil,
        hreceived]

/-- Requests that are only read stay in the queue. -/
theorem Ready.readAll (h : Ready start inputs workers) (requests : List Exchange)
    (hroom : workers.length + requests.length < limit + 1)
    (hplain : ∀ x ∈ requests, x.request.isUpgrade = false) :
    Ready start (inputs ++ HttpSequences.readAll requests)
        (workers ++ requests.map Exchange.response) ∧
      received (inputs ++ HttpSequences.readAll requests) = received inputs ++ requests := by
  induction requests using List.reverseRecOn with
  | nil => simpa [HttpSequences.readAll] using h
  | append_singleton requests exchange ih =>
    rw [List.length_append, List.length_singleton] at hroom
    obtain ⟨hready, hreceived⟩ := ih (by omega) (fun x hx => hplain x (by simp [hx]))
    have hsplit : inputs ++ HttpSequences.readAll (requests ++ [exchange]) =
        (inputs ++ HttpSequences.readAll requests) ++ [.read (.request exchange) 0] := by
      simp [HttpSequences.readAll]
    rw [hsplit]
    refine ⟨?_, ?_⟩
    · have hread := hready.read (by simp; omega) (hplain exchange (by simp))
      simpa using hread
    · rw [received_append, hreceived, received_request, List.append_assoc]

end Schedules

section Splits

variable {requests : List Exchange}

theorem plain_of_mem_handledPart {exchange : Exchange} (h : exchange ∈ handledPart requests) :
    exchange.request.isUpgrade = false := by
  have hall := List.mem_takeWhile_imp h
  simpa using hall

/-- Plain requests at the front of a sequence are in its handled part. -/
theorem handledPart_append {first rest : List Exchange}
    (hplain : ∀ x ∈ first, x.request.isUpgrade = false) :
    handledPart (first ++ rest) = first ++ handledPart rest := by
  unfold handledPart
  rw [List.takeWhile_append_of_pos]
  intro x hx
  simp [hplain x hx]

theorem handledPart_split (h : handledPart requests ≠ requests) :
    ∃ exchange rest, requests = handledPart requests ++ exchange :: rest ∧
      exchange.request.isUpgrade = true := by
  have hsplit : handledPart requests ++
      requests.dropWhile (fun exchange => !exchange.request.isUpgrade) = requests :=
    List.takeWhile_append_dropWhile
  have hhead := List.head?_dropWhile_not (fun exchange => !exchange.request.isUpgrade) requests
  cases hrest : requests.dropWhile (fun exchange => !exchange.request.isUpgrade) with
  | nil =>
    rw [hrest, List.append_nil] at hsplit
    exact absurd hsplit h
  | cons exchange rest =>
    rw [hrest] at hsplit hhead
    exact ⟨exchange, rest, hsplit.symm, by simpa using hhead⟩

/-- The first request that asks to close, if there is one. -/
theorem fromClosing_split (requests : List Exchange) :
    ∃ first, requests = first ++ fromClosing requests ∧
      (∀ x ∈ first, x.response.needEof = false) ∧
      ∀ x rest, fromClosing requests = x :: rest → x.response.needEof = true := by
  refine ⟨requests.takeWhile (fun exchange => !exchange.response.needEof), ?_, ?_, ?_⟩
  · exact List.takeWhile_append_dropWhile.symm
  · intro x hx
    have hopen := List.mem_takeWhile_imp hx
    simpa using hopen
  · intro x rest heq
    have hhead := List.head?_dropWhile_not (fun exchange => !exchange.response.needEof) requests
    rw [fromClosing] at heq
    rw [heq] at hhead
    simpa using hhead

end Splits

section Outcomes

variable {start : ℤ} {inputs : List Event} {exchange : Exchange} {requests : List Exchange}

/-- While a read is outstanding, what has been dispatched is what was received. -/
theorem dispatched_of_reads {s : HttpSession} (h : Sound inputs s) (hreads : 0 < s.reads) :
    s.dispatched = received inputs ∧ ∀ x ∈ received inputs, x.request.isUpgrade = false := by
  rcases h.reading with ⟨-, hall⟩ | ⟨-, hstopped, -⟩
  · exact hall
  · omega

theorem Ready.dispatched {workers : List Response} (h : Ready start inputs workers)
    (hroom : workers.length < limit) :
    ((session start).run inputs).dispatched = received inputs := by
  have hreads := h.reads hroom
  exact (dispatched_of_reads ((sound_inductive start).run inputs h.admissible) (by omega)).1

/-- A read of one more request, at the end of a prefix of the sequence. -/
theorem received_prefix {before after : List Event} {now : ℤ}
    (hbegins : received (before ++ .read (.request exchange) now :: after) <+: requests) :
    ∃ rest, requests = received before ++ exchange :: rest := by
  obtain ⟨rest, hrest⟩ := hbegins
  refine ⟨received after ++ rest, ?_⟩
  rw [← hrest, List.append_cons, received_append, received_append, received_request]
  simp

/-- The state in which a request of the run is read. -/
theorem sound_before_request {before after : List Event} {now : ℤ}
    (h : (session start).Admissible inputs)
    (heq : inputs = before ++ .read (.request exchange) now :: after) :
    Sound before ((session start).run before) ∧ 0 < ((session start).run before).reads := by
  have hreads : 0 < ((session start).run before).reads := h before _ after heq
  rw [heq] at h
  exact ⟨(sound_inductive start).run before (Machine.admissible_of_append _ h), hreads⟩

theorem noLateDispatch_of_closingLast (hlast : ClosingLast requests)
    (h : (session start).Admissible inputs) (hbegins : received inputs <+: requests) :
    Everywhere (fun before event => NoLateDispatch ((session start).run before) event)
      inputs := by
  intro before event after heq
  cases event with
  | read result now =>
    cases result with
    | failed error => trivial
    | request exchange =>
      intro hplain x hx
      obtain ⟨hsound, hreads⟩ := sound_before_request h heq
      obtain ⟨hdispatched, hall⟩ := dispatched_of_reads hsound hreads
      subst heq
      obtain ⟨rest, hrest⟩ := received_prefix hbegins
      refine hlast x ?_
      rw [hdispatched] at hx
      have hone : ∀ y ∈ [exchange], y.request.isUpgrade = false := by
        intro y hy
        rw [List.mem_singleton.mp hy, hplain]
      rw [hrest, handledPart_append hall, ← List.singleton_append, handledPart_append hone,
        List.singleton_append, List.dropLast_append_of_ne_nil (List.cons_ne_nil _ _)]
      exact List.mem_append_left _ hx
  | write error now => trivial
  | timerExpires now => trivial
  | timer error now => trivial

theorem closingLast_of_noLateDispatch
    (h : ∀ inputs, (session start).Admissible inputs → received inputs <+: requests →
      Everywhere (fun before event => NoLateDispatch ((session start).run before) event)
        inputs) : ClosingLast requests := by
  intro c hc
  by_contra hclosing
  obtain ⟨first, hsplit, hopen, hhead⟩ := fromClosing_split (handledPart requests).dropLast
  cases hfrom : fromClosing (handledPart requests).dropLast with
  | nil =>
    rw [hfrom, List.append_nil] at hsplit
    rw [hsplit] at hc
    exact hclosing (hopen c hc)
  | cons closing between =>
    have hclose := hhead closing between hfrom
    rw [hfrom] at hsplit
    have hne : handledPart requests ≠ [] := by
      intro hnil
      rw [hnil] at hc
      simp at hc
    -- The request behind the closing one is dispatched as well.
    obtain ⟨next, rest, hnext⟩ : ∃ next rest,
        between ++ [(handledPart requests).getLast hne] = next :: rest :=
      List.exists_cons_of_ne_nil (by simp)
    have hhandled : handledPart requests = first ++ closing :: next :: rest := by
      rw [← List.dropLast_concat_getLast hne, hsplit, List.append_assoc, List.cons_append, hnext]
    have hplain : ∀ x ∈ first ++ closing :: next :: rest, x.request.isUpgrade = false := by
      intro x hx
      rw [← hhandled] at hx
      exact plain_of_mem_handledPart hx
    obtain ⟨hserved, hreceived⟩ :=
      ready_served start first (fun x hx => hplain x (by simp [hx])) hopen
    have hready := hserved.read (by simp [limit]) (hplain closing (by simp))
    have hlong := hready.read (by simp [limit]) (hplain next (by simp))
    have hbegins : received (served first ++ [.read (.request closing) 0] ++
        [.read (.request next) 0]) <+: requests := by
      rw [received_append, received_append, hreceived, received_request, received_request]
      have hpart : handledPart requests <+: requests := List.takeWhile_prefix _
      refine List.IsPrefix.trans ⟨rest, ?_⟩ hpart
      rw [hhandled]
      simp
    have hlate := h _ hlong.admissible hbegins (served first ++ [.read (.request closing) 0])
      (.read (.request next) 0) [] rfl (hplain next (by simp)) closing
    rw [hready.dispatched (by simp [limit]), received_append, received_request] at hlate
    have hcontra := hlate (by simp)
    rw [hclose] at hcontra
    simp at hcontra

theorem nothing_pending_of_dispatched {s : HttpSession} (h : Sound inputs s)
    (hnone : s.dispatched = []) : s.workers = [] ∧ s.writes = [] ∧ s.written = [] := by
  obtain ⟨popped, hqueued⟩ := h.queued
  have horder := hqueued.order
  rw [hnone, List.map_nil, List.append_eq_nil_iff] at horder
  obtain ⟨hpopped, hworkers⟩ := horder
  refine ⟨hworkers, ?_, ?_⟩
  · rcases hqueued.writes with hno | hfront
    · exact hno
    · rw [hfront, hworkers]
      rfl
  · rcases hqueued.written with hw | ⟨-, -, hne⟩
    · rw [hw, hpopped]
    · exact absurd hworkers hne

theorem nothingPending_of_upgradeHarmless (hharmless : UpgradeHarmless requests)
    (h : (session start).Admissible inputs) (hbegins : received inputs <+: requests) :
    Everywhere (fun before event => NothingPending ((session start).run before) event)
      inputs := by
  intro before event after heq
  cases event with
  | read result now =>
    cases result with
    | failed error => trivial
    | request exchange =>
      intro hupgrade
      obtain ⟨hsound, hreads⟩ := sound_before_request h heq
      obtain ⟨hdispatched, hall⟩ := dispatched_of_reads hsound hreads
      subst heq
      obtain ⟨rest, hrest⟩ := received_prefix hbegins
      have hhandled : handledPart requests = received before := by
        rw [hrest, handledPart_append hall]
        simp [handledPart, hupgrade]
      rcases hharmless with hnone | hempty | hfull
      · rw [hhandled] at hnone
        have hlengths := congrArg List.length (hnone.trans hrest)
        simp at hlengths
      · rw [hhandled] at hempty
        rw [hempty] at hdispatched
        obtain ⟨hworkers, hwrites, hwritten⟩ := nothing_pending_of_dispatched hsound hdispatched
        exact ⟨hworkers, hwrites, by rw [hwritten, hdispatched]; rfl⟩
      · rw [hhandled] at hfull
        obtain ⟨first, hsplit, -, hhead⟩ := fromClosing_split (received before)
        cases hfrom : fromClosing (received before) with
        | nil => simp [hfrom, limit] at hfull
        | cons closing later =>
          rw [hfrom] at hsplit hfull
          have hstays := closing_stays hsound (hdispatched.trans hsplit) (hhead closing later hfrom)
          have hroom := hsound.room hreads
          rw [List.length_cons] at hfull
          omega
  | write error now => trivial
  | timerExpires now => trivial
  | timer error now => trivial

/-- The requests before the upgrade, split so that the second part can stay
queued and the first part can be answered. -/
theorem handledPart_pending (hsome : handledPart requests ≠ [])
    (hshort : ¬ limit ≤ (fromClosing (handledPart requests)).length) :
    ∃ first pending, handledPart requests = first ++ pending ∧
      (∀ x ∈ first, x.response.needEof = false) ∧ pending ≠ [] ∧ pending.length < limit := by
  obtain ⟨first, hsplit, hopen, -⟩ := fromClosing_split (handledPart requests)
  cases hfrom : fromClosing (handledPart requests) with
  | nil =>
    rw [hfrom, List.append_nil] at hsplit
    refine ⟨(handledPart requests).dropLast, [(handledPart requests).getLast hsome],
      (List.dropLast_concat_getLast hsome).symm, ?_, by simp, by simp [limit]⟩
    intro x hx
    refine hopen x ?_
    rw [← hsplit]
    exact List.dropLast_subset _ hx
  | cons closing later =>
    rw [hfrom] at hsplit hshort
    exact ⟨first, closing :: later, hsplit, hopen, List.cons_ne_nil _ _, by omega⟩

theorem upgradeHarmless_of_nothingPending
    (h : ∀ inputs, (session start).Admissible inputs → received inputs <+: requests →
      Everywhere (fun before event => NothingPending ((session start).run before) event)
        inputs) : UpgradeHarmless requests := by
  by_contra hharm
  simp only [UpgradeHarmless, not_or] at hharm
  obtain ⟨hupgraded, hsome, hshort⟩ := hharm
  obtain ⟨exchange, rest, hrequests, hupgrade⟩ := handledPart_split hupgraded
  obtain ⟨first, pending, hhandled, hopen, hpending, hfits⟩ := handledPart_pending hsome hshort
  have hplain : ∀ x ∈ first ++ pending, x.request.isUpgrade = false := by
    intro x hx
    rw [← hhandled] at hx
    exact plain_of_mem_handledPart hx
  obtain ⟨hserved, hreceived⟩ :=
    ready_served start first (fun x hx => hplain x (by simp [hx])) hopen
  obtain ⟨hready, hreceived'⟩ := hserved.readAll pending (by simp; omega)
    (fun x hx => hplain x (by simp [hx]))
  have hreads := hready.reads (by simpa using hfits)
  have hadmissible : (session start).Admissible
      ((served first ++ readAll pending) ++ [.read (.request exchange) 0]) :=
    (Machine.admissible_append_singleton _ _ _).mpr
      ⟨hready.admissible, by change 0 < _; omega⟩
  have hbegins : received ((served first ++ readAll pending) ++ [.read (.request exchange) 0]) <+:
      requests := by
    rw [received_append, hreceived', hreceived, received_request]
    refine ⟨rest, ?_⟩
    rw [← hhandled, List.append_assoc, List.singleton_append]
    exact hrequests.symm
  have hnothing := h _ hadmissible hbegins (served first ++ readAll pending)
    (.read (.request exchange) 0) [] rfl hupgrade
  have hqueue := hready.queued
  rw [hnothing.1] at hqueue
  simp at hqueue
  exact hpending hqueue

end Outcomes

/-- For every sequence of pipelined requests: under every order of completions
no request is dispatched after a closing response was enqueued, if and only if
the request that asks to close is the last one that is handled. -/
theorem no_late_dispatch_iff_closing_last (start : ℤ) (requests : List Exchange) :
    (∀ inputs, (session start).Admissible inputs → received inputs <+: requests →
      Everywhere (fun before event => NoLateDispatch ((session start).run before) event)
        inputs) ↔ ClosingLast requests := by
  constructor
  · exact closingLast_of_noLateDispatch
  · intro hlast inputs h hbegins
    exact noLateDispatch_of_closingLast hlast h hbegins

def closeThenOther : List Event :=
  [.read (.request (sampleExchange "/a" false false)) 0,
    .read (.request (sampleExchange "/b" true false)) 0]

/-- The second request is dispatched while the closing response is written. -/
theorem dispatched_after_close :
    (session 0).Admissible closeThenOther ∧
      ¬ Everywhere (fun before event => NoLateDispatch ((session 0).run before) event)
        closeThenOther := by
  refine ⟨Machine.admissible_of_enabledFrom _ _ (by decide +kernel), ?_⟩
  intro h
  have hlate : (sampleExchange "/a" false false).response.needEof = false :=
    h (closeThenOther.take 1) (.read (.request (sampleExchange "/b" true false)) 0) [] rfl
      (by decide +kernel) (sampleExchange "/a" false false) (by decide +kernel)
  exact absurd hlate (by decide +kernel)

/-- For every sequence of pipelined requests: under every order of completions
all responses have been written when the socket is moved away, if and only if
the upgrade has no request before it, or is not there, or is never read. -/
theorem nothing_pending_iff_upgrade_harmless (start : ℤ) (requests : List Exchange) :
    (∀ inputs, (session start).Admissible inputs → received inputs <+: requests →
      Everywhere (fun before event => NothingPending ((session start).run before) event)
        inputs) ↔ UpgradeHarmless requests := by
  constructor
  · exact upgradeHarmless_of_nothingPending
  · intro hharmless inputs h hbegins
    exact nothingPending_of_upgradeHarmless hharmless h hbegins

def otherThenUpgrade : List Event :=
  [.read (.request (sampleExchange "/a" true false)) 0,
    .read (.request (sampleExchange "/ws" true true)) 0]

/-- The first response is still queued when the socket is moved away. -/
theorem pending_at_upgrade :
    (session 0).Admissible otherThenUpgrade ∧
      ¬ Everywhere (fun before event => NothingPending ((session 0).run before) event)
        otherThenUpgrade := by
  refine ⟨Machine.admissible_of_enabledFrom _ _ (by decide +kernel), ?_⟩
  intro h
  obtain ⟨hempty, -, -⟩ :=
    h (otherThenUpgrade.take 1) (.read (.request (sampleExchange "/ws" true true)) 0) [] rfl
      (by decide +kernel)
  have hqueued : ((session 0).run (otherThenUpgrade.take 1)).workers ≠ [] := by decide +kernel
  exact hqueued hempty

end BeastServer.HttpSequences
