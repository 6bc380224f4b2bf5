import BeastServer.Schedules
import BeastServer.ServerLocks

/-!
When the mutex of the samplings is given back.
In every run of the server at most one handler holds samplingMutex from one section
to the next. The handler gives it back when the thread of its sampling ends, which
the sections of the others neither help nor hinder: if that thread has set the flag
again behind the destructor's back, and nothing else ends its loop, then no
continuation of the run frees the mutex.
-/
namespace BeastServer.MutexReleases

open ByteStrings HttpMessages Machines UriRouters SamplingJoins
open SamplingBlocks (Stoppable SamplingBlock runAll_append)
open SamplingBlocks.SamplingBlock (runAll)
open Samplings hiding Shared Event Free step enabled decidableEnabled
open HttpListeners (Outcome)
open JsonApi (parseJson)
open JsonValues JsonSerializers JsonRoundTrips OkResponses AnsweredRequests
open SamplingRequests (limitsOf idOf)
open Sections ApiContracts ServerSafety ServerRuns ServerLocks Schedules
open Servers hiding handleRequest samplingStatusHandler handlerOf serve
open ServerTasks hiding addPicture

variable {p : Platform} {inputs : List (Event p)} {s : Server p} {c : ℕ} {conn : Connection p}
  {event : Event p} {d : Stoppable}

section Exclusion

/-- What is left to do on each connection. -/
def tasksOf (s : Server p) (c : ℕ) : Option (HandlerTask p Response) :=
  (s.connections c).bind (fun conn => conn.working.map Work.task)

theorem tasksOf_setConnection : tasksOf (s.setConnection c conn) =
    Function.update (tasksOf s) c (conn.working.map Work.task) := by
  funext other
  by_cases hother : other = c
  · subst hother
    rw [Function.update_self, tasksOf, setConnection_same]
    rfl
  · rw [Function.update_of_ne hother, tasksOf, setConnection_other hother]
    rfl

theorem tasksOf_some (hconn : s.connections c = some conn) :
    tasksOf s c = conn.working.map Work.task := by
  rw [tasksOf, hconn]
  rfl

/-- The connection is set while it does nothing, and goes on as it did. -/
theorem tasksOf_same (h : tasksOf s c = conn.working.map Work.task) :
    tasksOf (s.setConnection c conn) = tasksOf s := by
  rw [tasksOf_setConnection, ← h, Function.update_eq_self]

theorem exclusive_step (h : Exclusive samplingLock s.shared (tasksOf s))
    (hpossible : Possible s event) :
    Exclusive samplingLock (step s event).shared (tasksOf (step s event)) := by
  cases event with
  | accept c outcome now =>
    by_cases hgone : outcome.Gone
    · obtain ⟨listener, heq⟩ := @step_accept_gone p s c outcome now hgone
      rw [heq]
      exact h
    · obtain ⟨listener, heq⟩ := @step_accept p s c outcome now hgone
      rw [heq]
      cases outcome with
      | error => exact h
      | accepted socket =>
        have hnone : tasksOf s c = none := by
          rw [tasksOf, hpossible.2]
          rfl
        have hsame : tasksOf ((({ s with listener := listener } : Server p)).setConnection c
            (Connection.make now)) = tasksOf s := tasksOf_same hnone
        show Exclusive samplingLock s.shared (tasksOf (Server.setConnection _ c _))
        rw [hsame]
        exact h
  | complete c event =>
    obtain ⟨conn, hconn, -, -, -⟩ := hpossible
    have hsame : tasksOf (s.setConnection c (conn.complete event)) = tasksOf s :=
      tasksOf_same (@tasksOf_some p s c conn hconn)
    rw [step_complete hconn, hsame]
    exact h
  | receive c req m =>
    obtain ⟨conn, hconn, hidle, -⟩ := hpossible
    rw [step_receive hconn, tasksOf_setConnection]
    have hnone : tasksOf s c = none := by
      rw [tasksOf_some hconn, hidle]
      rfl
    have hshown : Exclusive samplingLock (s.arrive req).shared (tasksOf s) :=
      exclusive_shown h rfl
    refine exclusive_set hshown ?_ ?_
    · intro task k htask
      cases hnone.symm.trans htask
    · intro task htask
      rw [← Option.some.inj htask]
      exact locks_serve
  | advance c m =>
    obtain ⟨conn, work, hconn, hworking, hready⟩ := hpossible
    have hplace : tasksOf s c = some work.task := by
      rw [tasksOf_some hconn, hworking]
      rfl
    rw [step_advance hconn hworking, advanced, tasksOf_setConnection]
    exact exclusive_advance h hplace hready
  | respond c now =>
    obtain ⟨conn, req, r, hconn, hworking⟩ := hpossible
    rw [step_respond hconn hworking]
    cases r with
    | error e => exact h
    | ok res =>
      have hplace : tasksOf s c = some (.finished (.ok res)) := by
        rw [tasksOf_some hconn, hworking]
        rfl
      show Exclusive samplingLock s.shared (tasksOf (s.setConnection c (conn.respond req res now)))
      rw [tasksOf_setConnection]
      refine exclusive_set h ?_ (fun task htask => by cases htask)
      intro task k htask
      rw [← Option.some.inj (hplace.symm.trans htask)]
      exact not_inside_finished
  | thread sampleId newSnapId => exact exclusive_shown h rfl
  | destroyed newSnapId =>
    refine exclusive_shown h ?_
    obtain ⟨d, hd⟩ := Option.isSome_iff_exists.mp hpossible
    rw [shown_some hd, shown_some (destroyed_destroyStep hd)]
    rfl

/-- In every run, at most one handler is between two sections that hold the mutex. -/
theorem exclusive_inductive (p : Platform) :
    (server p).Inductive (fun _ s => Exclusive samplingLock s.shared (tasksOf s)) := by
  refine Machine.inductive_of_step ?_ (fun s event h henabled => exclusive_step h henabled.2)
  exact .free rfl (fun c task htask => by cases htask)

end Exclusion

section Losses

/-- The destructor waits for a thread that never ends. -/
def Lost (d : Stoppable) : Prop := d.stopper = .joining ∧ Endless d.block

theorem sound_destroyed (hsourced : Sourced p s.shared) (hd : s.shared.mock.destroyed = some d) :
    Sound d.block :=
  hsourced.sound d.block (mem_blocks.mpr (Or.inr ⟨d, hd, rfl⟩))

/-- Nothing that the others do changes a destructor that cannot go on, and its thread
stays in its loop. -/
theorem lost_step (hexclusive : Exclusive samplingLock s.shared (tasksOf s))
    (hsourced : Sourced p s.shared) (hd : s.shared.mock.destroyed = some d) (hlost : Lost d)
    (hpossible : Possible s event) :
    ∃ d', (step s event).shared.mock.destroyed = some d' ∧ Lost d' := by
  cases event with
  | accept c outcome now =>
    by_cases hgone : outcome.Gone
    · obtain ⟨listener, heq⟩ := @step_accept_gone p s c outcome now hgone
      rw [heq]
      exact ⟨d, hd, hlost⟩
    · obtain ⟨listener, heq⟩ := @step_accept p s c outcome now hgone
      rw [heq]
      cases outcome with
      | error => exact ⟨d, hd, hlost⟩
      | accepted socket => exact ⟨d, hd, hlost⟩
  | complete c event =>
    obtain ⟨conn, hconn, -, -, -⟩ := hpossible
    rw [step_complete hconn]
    exact ⟨d, hd, hlost⟩
  | receive c req m =>
    obtain ⟨conn, hconn, -, -⟩ := hpossible
    rw [step_receive hconn]
    exact ⟨d, hd, hlost⟩
  | advance c m =>
    obtain ⟨conn, work, hconn, hworking, hready⟩ := hpossible
    have hplace : tasksOf s c = some work.task := by
      rw [tasksOf_some hconn, hworking]
      rfl
    rw [step_advance hconn hworking]
    rcases held_advance hexclusive hplace hready hd with hkeep | hable
    · exact ⟨d, hkeep, hlost⟩
    · exact absurd (hable hlost.1) (endless_unfinished hlost.2)
  | respond c now =>
    obtain ⟨conn, req, r, hconn, hworking⟩ := hpossible
    rw [step_respond hconn hworking]
    cases r with
    | ok res => exact ⟨d, hd, hlost⟩
    | error e => exact ⟨d, hd, hlost⟩
  | thread sampleId newSnapId => exact ⟨d, hd, hlost⟩
  | destroyed newSnapId =>
    have htracked := (sound_destroyed hsourced hd).tracked
    exact ⟨_, destroyed_destroyStep hd, hlost.1, endless_run newSnapId htracked hlost.2⟩

/-- Once lost, the mutex stays lost. -/
theorem lost_run (hd : ((server p).run inputs).shared.mock.destroyed = some d) (hlost : Lost d)
    (rest : List (Event p)) (hrest : (server p).Admissible (inputs ++ rest)) :
    ∃ d', ((server p).run (inputs ++ rest)).shared.mock.destroyed = some d' ∧ Lost d' := by
  induction rest using List.reverseRecOn with
  | nil =>
    rw [List.append_nil]
    exact ⟨d, hd, hlost⟩
  | append_singleton rest event ih =>
    rw [← List.append_assoc] at hrest ⊢
    obtain ⟨hfirst, henabled⟩ := (Machine.admissible_append_singleton _ _ _).mp hrest
    obtain ⟨d', hd', hlost'⟩ := ih hfirst
    rw [Machine.run_append_singleton]
    exact lost_step ((exclusive_inductive p).run _ hfirst)
      ((kept_inductive p).run _ hfirst).sourced hd' hlost' henabled.2

end Losses

section Samples

/-- A text with one member is read as it was written. -/
theorem parse_member {key text : Bytes} {n : UInt64} (hkey : Utf8.WellFormed key)
    (hdump : dump bitsHost (.object [(key, .numberUnsigned n)]) = .ok text) :
    parseJson bitsHost text = .ok (.object [(key, .numberUnsigned n)]) := by
  have hproper : Proper (.object [(key, .numberUnsigned n)]) := by
    refine proper_object ⟨List.pairwise_singleton _ _, ?_⟩ ?_
    · intro member hmember
      rw [List.mem_singleton.mp hmember]
      exact hkey
    · intro member hmember part hpart
      rw [List.mem_singleton.mp hmember] at hpart
      cases hpart
      trivial
  obtain ⟨text', q, hdump', hparse⟩ := parse_dump bitsHost_roundTrips hproper
  obtain rfl := Except.ok.inj (hdump.symm.trans hdump')
  exact parseJson_ok hparse

/-- A sampling without a limit is asked for. -/
def startRequest : Request :=
  ⟨.post, ascii "/api/v1/calibration/sampling/start", 11, true, false,
    ascii "\x7b\"timeout\":0\x7d"⟩

def startTask : HandlerTask bitsPlatform Response :=
  (startSampling bitsPlatform (0, -1)).bind
    (fun r => .finished (responseTo bitsPlatform.host startRequest r))

theorem serve_startRequest : serve bitsPlatform firstMoment startRequest = startTask := by
  have hrouted : routed startRequest.target = .samplingStart := by decide +kernel
  have hparse : parseJson bitsHost startRequest.body =
      .ok (.object [(ascii "timeout", .numberUnsigned 0)]) := parse_member (by decide) rfl
  have hlimits : limitsOf bitsPlatform.castInt bitsPlatform.host startRequest.body =
      .ok (0, -1) := by
    have hbody : startRequest.body.length > 0 := by decide
    rw [limitsOf, if_pos hbody]
    show Except.mapError _ (parseJson bitsHost startRequest.body >>= _) = _
    rw [hparse]
    rfl
  rw [serve, hrouted]
  show handleRequest bitsPlatform (samplingStartHandler bitsPlatform) startRequest = startTask
  rw [handleRequest, if_neg (by decide), samplingStartHandler, hlimits]
  rfl

/-- The sampling is stopped. -/
def stopRequest : Request :=
  ⟨.post, ascii "/api/v1/calibration/sampling/stop", 11, true, false,
    ascii "\x7b\"id\":1\x7d"⟩

def stopTask : HandlerTask bitsPlatform Response :=
  (caught SamplingRequests.stopCaught (stopSampling bitsPlatform 1)).bind
    (fun r => .finished (responseTo bitsPlatform.host stopRequest r))

theorem idOf_stopRequest : idOf bitsPlatform.host stopRequest.body = .ok 1 := by
  have hparse : parseJson bitsHost stopRequest.body =
      .ok (.object [(ascii "id", .numberUnsigned 1)]) := parse_member (by decide) rfl
  show (parseJson bitsHost stopRequest.body >>= _) = _
  rw [hparse]
  rfl

theorem routed_stopRequest : routed stopRequest.target = .samplingStop := by decide +kernel

theorem serve_stopRequest : serve bitsPlatform firstMoment stopRequest = stopTask := by
  rw [serve, routed_stopRequest]
  show handleRequest bitsPlatform (samplingStopHandler bitsPlatform) stopRequest = stopTask
  rw [handleRequest, if_neg (by decide), samplingStopHandler, idOf_stopRequest]
  rfl

/-- The sampling has been started, and its thread has not come to its first step. -/
def started : List (Event bitsPlatform) :=
  [.accept 0 client 0] ++ [.receive 0 startRequest firstMoment] ++ [.advance 0 firstMoment] ++
    [.advance 0 firstMoment]

theorem leads_started : ∃ s, Leads started s ∧ 0 < s.listener.accepts ∧
    s.connections 1 = none ∧ s.connections 2 = none ∧
      s.shared.mock = SamplingMock.make.start 0 (-1) := by
  have hasked := (leads_nil.accept 0 Nat.one_pos rfl).receive firstMoment serve_startRequest
    setConnection_same rfl Nat.one_pos rfl (by decide)
  have htested := hasked.advance firstMoment rfl setConnection_same rfl rfl
  have hstarted := htested.advance firstMoment rfl setConnection_same rfl rfl
  exact ⟨_, hstarted, Nat.one_pos, rfl, rfl, rfl⟩

/-- The sampling is stopped, up to the join. -/
def stopped : List (Event bitsPlatform) :=
  started ++ [.accept 1 client 0] ++ [.receive 1 stopRequest firstMoment] ++
    [.advance 1 firstMoment] ++ [.advance 1 firstMoment] ++ [.advance 1 firstMoment]

def clearedFirst : Stoppable := ⟨cleared [] (SamplingBlock.make 1 0 (-1)), .joining⟩

theorem leads_stopped : ∃ s, Leads stopped s ∧ 0 < s.listener.accepts ∧
    s.connections 2 = none ∧ s.shared.mock.destroyed = some clearedFirst := by
  obtain ⟨⟨shared, listener, connections, escaped⟩, hstarted, haccepts, hvacant, hother, hmock⟩ :=
    leads_started
  obtain ⟨cache, previews, mock, accesses, arrived⟩ := shared
  obtain rfl : mock = SamplingMock.make.start 0 (-1) := hmock
  have hasked := (hstarted.accept 1 haccepts hvacant).receive firstMoment serve_stopRequest
    setConnection_same rfl Nat.one_pos rfl (by decide)
  have herased := hasked.advance firstMoment rfl setConnection_same rfl rfl
  have hread := herased.advance firstMoment rfl setConnection_same rfl rfl
  have hcleared := hread.advance firstMoment rfl setConnection_same rfl rfl
  exact ⟨_, hcleared, Nat.succ_pos _, hother, rfl⟩

end Samples

section Releases

/-- Some continuation of the run frees the mutex. -/
def Releasable (inputs : List (Event p)) : Prop :=
  ∃ rest, (server p).Admissible (inputs ++ rest) ∧
    ((server p).run (inputs ++ rest)).shared.mock.destroyed = none

/-- After the inputs the server is up and a destructor holds the mutex. -/
structure Holding (inputs : List (Event p)) (s : Server p) (d : Stoppable) : Prop where
  leads : Leads inputs s
  destroyed : s.shared.mock.destroyed = some d

theorem releasable_of_append {more : List (Event p)} (h : Releasable (inputs ++ more)) :
    Releasable inputs := by
  obtain ⟨rest, hadmissible, hfree⟩ := h
  rw [List.append_assoc] at hadmissible hfree
  exact ⟨more ++ rest, hadmissible, hfree⟩

theorem Holding.tracked (h : Holding inputs s d) :
    SamplingBlocks.Tracked d.block.timeout d.block.snapsNeeded d.block := by
  obtain ⟨⟨hadmissible, rfl, -⟩, hdestroyed⟩ := h
  exact (sound_destroyed ((kept_inductive p).run inputs hadmissible).sourced hdestroyed).tracked

/-- The thread of the sampling goes on. -/
theorem holding_runAll (h : Holding inputs s d) (ids : List UInt64) :
    ∃ more t, Holding (p := p) (inputs ++ more) t ⟨runAll ids d.block, d.stopper⟩ := by
  induction ids using List.reverseRecOn with
  | nil => exact ⟨[], s, by rw [List.append_nil]; exact h⟩
  | append_singleton ids newSnapId ih =>
    obtain ⟨more, t, hmore⟩ := ih
    have hpossible : Possible t (.destroyed newSnapId) :=
      Option.isSome_iff_exists.mpr ⟨_, hmore.destroyed⟩
    refine ⟨more ++ [.destroyed newSnapId], step t (.destroyed newSnapId), ?_, ?_⟩
    · rw [← List.append_assoc]
      exact hmore.leads.next hpossible hmore.leads.up
    · rw [runAll_append]
      exact destroyed_destroyStep hmore.destroyed

/-- The destructor goes on, if it does not wait for the thread. -/
theorem holder_goes (h : Holding inputs s d) (hable : samplingLock.able d) :
    ∃ event t, Leads (inputs ++ [event]) t ∧ Goes d t.shared.mock.destroyed := by
  have hexclusive := (exclusive_inductive p).run inputs h.leads.admissible
  rw [h.leads.run_eq] at hexclusive
  obtain ⟨c, task, m, hplace, hready, hgoes⟩ := holder_advances hexclusive h.destroyed hable
  obtain ⟨conn, hconn, htask⟩ := Option.bind_eq_some_iff.mp hplace
  obtain ⟨work, hworking, rfl⟩ := Option.map_eq_some_iff.mp htask
  exact ⟨.advance c m, _, h.leads.advance m rfl hconn hworking hready, hgoes⟩

/-- At the join: the thread gets to its end. -/
theorem releasable_joining (h : Holding inputs s d) (hstage : d.stopper = .joining)
    (hends : ¬ Endless d.block) : Releasable inputs := by
  obtain ⟨ids, hfinished⟩ := (finishes_iff h.tracked).mpr hends
  obtain ⟨more, t, hmore⟩ := holding_runAll h ids
  obtain ⟨event, freed, hleads, hgoes⟩ := holder_goes hmore (fun _ => hfinished)
  simp only [Goes, hstage] at hgoes
  rw [← hleads.run_eq] at hgoes
  have hfree : Releasable (inputs ++ more) := ⟨[event], hleads.admissible, hgoes⟩
  exact releasable_of_append hfree

/-- A thread that has started finds its flag cleared. -/
theorem not_endless {block : SamplingBlock} (hcleared : block.running = false)
    (hstarted : block.position ≠ .starting) : ¬ Endless block := by
  rintro ⟨-, hstarting | ⟨hrunning, -⟩⟩
  · exact hstarted hstarting
  · rw [hcleared] at hrunning
    cases hrunning

theorem releasable_clearing (h : Holding inputs s d) (hstage : d.stopper = .clearing)
    (hstarted : d.block.position ≠ .starting) : Releasable inputs := by
  have hable : samplingLock.able d := able_of_stage (by simp [hstage])
  obtain ⟨event, t, hleads, hgoes⟩ := holder_goes h hable
  simp only [Goes, hstage] at hgoes
  exact releasable_of_append (releasable_joining ⟨hleads, hgoes⟩ rfl (not_endless rfl hstarted))

theorem releasable_absent (h : Holding inputs s d) (hstage : d.stopper = .absent)
    (hstarted : d.block.position ≠ .starting) : Releasable inputs := by
  have hable : samplingLock.able d := able_of_stage (by simp [hstage])
  obtain ⟨event, t, hleads, hgoes⟩ := holder_goes h hable
  simp only [Goes, hstage, SamplingBlocks.step] at hgoes
  cases hrunning : d.block.running with
  | true =>
    rw [if_pos hrunning] at hgoes
    exact releasable_of_append (releasable_clearing ⟨hleads, hgoes⟩ rfl hstarted)
  | false =>
    rw [if_neg (by simp [hrunning])] at hgoes
    exact releasable_of_append
      (releasable_joining ⟨hleads, hgoes⟩ rfl (not_endless hrunning hstarted))

theorem releasable_of_not_lost (h : Holding inputs s d) (hlost : ¬ Lost d) :
    Releasable inputs := by
  -- before the flag is cleared, the thread may set it
  obtain ⟨more, t, hmore⟩ := holding_runAll h [0]
  have hstarted : (runAll [0] d.block).position ≠ .starting := run_started 0
  cases hstage : d.stopper with
  | absent => exact releasable_of_append (releasable_absent hmore hstage hstarted)
  | clearing => exact releasable_of_append (releasable_clearing hmore hstage hstarted)
  | joining => exact releasable_joining h hstage (fun hendless => hlost ⟨hstage, hendless⟩)
  | joined =>
    obtain ⟨event, t, -, hgoes⟩ := holder_goes h (able_of_stage (by simp [hstage]))
    simp only [Goes, hstage] at hgoes

/-- In every state of the server in which a destructor holds the mutex: some
continuation gives it back if and only if the destructor does not wait for a thread
whose flag is set again and whose loop has no limit to end it. -/
theorem mutex_released_iff (p : Platform) (inputs : List (Event p)) (d : Stoppable)
    (h : (server p).Admissible inputs) (hup : ((server p).run inputs).escaped = none)
    (hheld : ((server p).run inputs).shared.mock.destroyed = some d) :
    (∃ rest, (server p).Admissible (inputs ++ rest) ∧
        ((server p).run (inputs ++ rest)).shared.mock.destroyed = none) ↔
      ¬ (d.stopper = .joining ∧ Endless d.block) := by
  constructor
  · intro ⟨rest, hrest, hfree⟩ hlost
    obtain ⟨d', hd', -⟩ := lost_run hheld hlost rest hrest
    rw [hfree] at hd'
    cases hd'
  · exact releasable_of_not_lost ⟨⟨h, rfl, hup⟩, hheld⟩

/-- The thread of the sampling has not come to its first step when its flag is cleared. -/
theorem mutex_released_iff_lost :
    (∃ rest, (server bitsPlatform).Admissible (stopped ++ rest) ∧
        ((server bitsPlatform).run (stopped ++ rest)).shared.mock.destroyed = none) ↔
      ¬ (clearedFirst.stopper = .joining ∧ Endless clearedFirst.block) := by
  obtain ⟨s, hstopped, -, -, hdestroyed⟩ := leads_stopped
  have hup := hstopped.up
  rw [← hstopped.run_eq] at hup hdestroyed
  exact mutex_released_iff bitsPlatform stopped clearedFirst hstopped.admissible hup hdestroyed

end Releases

section Waiting

/-- The handler of the request comes to a section that takes the mutex. -/
def NeedsMutex (p : Platform) (req : Request) : Prop :=
  (req.method = .get ∨ req.method = .post) ∧
    match routed req.target with
    | .samplingStart => ∃ limits, limitsOf p.castInt p.host req.body = .ok limits
    | .samplingStatus => SamplingStatus.extracted p.lexical req ≠ 0
    | .samplingStop => ∃ id, idOf p.host req.body = .ok id
    | _ => False

theorem serve_needs {req : Request} (m : Moment p) (h : NeedsMutex p req) :
    ∃ update rest, serve p m req = .enter (Free p) update rest := by
  obtain ⟨hmethod, hneeds⟩ := h
  have hsupported : ¬ (req.method ≠ .get ∧ req.method ≠ .post) := by tauto
  unfold serve
  cases hrouted : routed req.target with
  | samplingStart =>
    rw [hrouted] at hneeds
    obtain ⟨limits, hlimits⟩ := hneeds
    show ∃ update rest, handleRequest p (samplingStartHandler p) req = .enter (Free p) update rest
    rw [handleRequest, if_neg hsupported, samplingStartHandler, hlimits]
    exact ⟨_, _, rfl⟩
  | samplingStatus =>
    rw [hrouted] at hneeds
    show ∃ update rest, handleRequest p (samplingStatusHandler p) req = .enter (Free p) update rest
    rw [handleRequest, if_neg hsupported, samplingStatusHandler, if_neg hneeds]
    exact ⟨_, _, rfl⟩
  | samplingStop =>
    rw [hrouted] at hneeds
    obtain ⟨id, hid⟩ := hneeds
    show ∃ update rest, handleRequest p (samplingStopHandler p) req = .enter (Free p) update rest
    rw [handleRequest, if_neg hsupported, samplingStopHandler, hid]
    exact ⟨_, _, rfl⟩
  | _ =>
    rw [hrouted] at hneeds
    exact hneeds.elim

/-- The connection takes a request, or answers one, or completes anything else than
that its deadline passes. -/
def Serves (c : ℕ) : Event p → Prop
  | .receive other _ _ => other = c
  | .respond other _ => other = c
  | .complete other event => other = c ∧ isTimerExpires event = false
  | _ => False

/-- The connection is about to take the mutex. -/
def Waits (s : Server p) (c : ℕ) : Prop :=
  ∃ conn req update rest, s.connections c = some conn ∧
    conn.working = some ⟨req, .enter (Free p) update rest⟩

/-- A connection is set, and another one waits. -/
theorem waits_setConnection {other : ℕ} (hne : other ≠ c) (h : Waits s c) :
    Waits (s.setConnection other conn) c := by
  obtain ⟨waiting, req, update, rest, hconn, hworking⟩ := h
  exact ⟨waiting, req, update, rest, (setConnection_other hne.symm).trans hconn, hworking⟩

/-- While the mutex is held, a connection that waits for it does nothing else. -/
theorem waits_step (hd : s.shared.mock.destroyed = some d) (h : Waits s c)
    (hpossible : Possible s event) : ¬ Serves c event ∧ Waits (step s event) c := by
  obtain ⟨waiting, req, update, rest, hwaiting, hworking⟩ := h
  have hwaits : Waits s c := ⟨waiting, req, update, rest, hwaiting, hworking⟩
  cases event with
  | accept other outcome now =>
    refine ⟨not_false, ?_⟩
    by_cases hgone : outcome.Gone
    · obtain ⟨listener, heq⟩ := @step_accept_gone p s other outcome now hgone
      rw [heq]
      exact hwaits
    · obtain ⟨listener, heq⟩ := @step_accept p s other outcome now hgone
      rw [heq]
      cases outcome with
      | error => exact hwaits
      | accepted socket =>
        have hne : other ≠ c := by
          rintro rfl
          cases hpossible.2.symm.trans hwaiting
        have hsame : Waits ({ s with listener := listener } : Server p) c := hwaits
        exact waits_setConnection hne hsame
  | complete other event =>
    obtain ⟨conn, hconn, -, -, hidle⟩ := hpossible
    rw [step_complete hconn]
    by_cases hne : other = c
    · subst hne
      obtain rfl := Option.some.inj (hconn.symm.trans hwaiting)
      refine ⟨?_, _, req, update, rest, setConnection_same, hworking⟩
      rintro ⟨-, hother⟩
      rcases hidle with hnone | htimer
      · cases hnone.symm.trans hworking
      · cases hother.symm.trans htimer
    · exact ⟨fun hserves => hne hserves.1, waits_setConnection hne hwaits⟩
  | receive other req' m =>
    obtain ⟨conn, hconn, hidle, -⟩ := hpossible
    have hne : other ≠ c := by
      rintro rfl
      obtain rfl := Option.some.inj (hconn.symm.trans hwaiting)
      cases hidle.symm.trans hworking
    refine ⟨hne, ?_⟩
    rw [step_receive hconn]
    have hsame : Waits (s.arrive req') c := hwaits
    exact waits_setConnection hne hsame
  | advance other m =>
    obtain ⟨conn, work, hconn, hwork, hready⟩ := hpossible
    have hne : other ≠ c := by
      rintro rfl
      obtain rfl := Option.some.inj (hconn.symm.trans hwaiting)
      obtain rfl := Option.some.inj (hwork.symm.trans hworking)
      have hfree : s.shared.mock.destroyed = none := hready
      cases hfree.symm.trans hd
    refine ⟨not_false, ?_⟩
    rw [step_advance hconn hwork]
    have hsame : Waits (s.setShared (work.task.advance m s.shared).1) c := hwaits
    exact waits_setConnection hne hsame
  | respond other now =>
    obtain ⟨conn, req', r, hconn, hwork⟩ := hpossible
    have hne : other ≠ c := by
      rintro rfl
      obtain rfl := Option.some.inj (hconn.symm.trans hwaiting)
      have hsame := Option.some.inj (hwork.symm.trans hworking)
      injection hsame with _ htask
      cases htask
    refine ⟨hne, ?_⟩
    rw [step_respond hconn hwork]
    cases r with
    | ok res => exact waits_setConnection hne hwaits
    | error e => exact hwaits
  | thread sampleId newSnapId => exact ⟨not_false, hwaits⟩
  | destroyed newSnapId => exact ⟨not_false, hwaits⟩

/-- Where the mutex is lost, a request that needs it is never answered, whatever the
others do, and its connection takes no other request. -/
theorem never_answered (p : Platform) (before after : List (Event p)) (c : ℕ) (req : Request)
    (m : Moment p) (d : Stoppable)
    (h : (server p).Admissible (before ++ [.receive c req m] ++ after))
    (hheld : ((server p).run before).shared.mock.destroyed = some d)
    (hlost : d.stopper = .joining ∧ Endless d.block) (hneeds : NeedsMutex p req) :
    ∀ event ∈ after, ¬ Serves c event := by
  suffices hall : (∀ event ∈ after, ¬ Serves c event) ∧
      Waits ((server p).run (before ++ [.receive c req m] ++ after)) c from hall.1
  induction after using List.reverseRecOn with
  | nil =>
    refine ⟨fun event hmem => (by cases hmem), ?_⟩
    rw [List.append_nil] at h ⊢
    obtain ⟨-, -, conn, hconn, -⟩ := (Machine.admissible_append_singleton _ _ _).mp h
    obtain ⟨update, rest, hserve⟩ := serve_needs m hneeds
    have hstep : (server p).run (before ++ [.receive c req m]) = _ :=
      (Machine.run_append_singleton _ _ _).trans (step_receive hconn)
    rw [hstep, hserve]
    exact ⟨_, req, update, rest, setConnection_same, rfl⟩
  | append_singleton after event ih =>
    rw [← List.append_assoc] at h ⊢
    obtain ⟨hfirst, henabled⟩ := (Machine.admissible_append_singleton _ _ _).mp h
    obtain ⟨hnone, hwaits⟩ := ih hfirst
    have hrest : (server p).Admissible (before ++ ([.receive c req m] ++ after)) := by
      rw [← List.append_assoc]
      exact hfirst
    obtain ⟨d', hd', -⟩ := lost_run hheld hlost _ hrest
    rw [← List.append_assoc] at hd'
    obtain ⟨hserves, hnext⟩ := waits_step hd' hwaits henabled.2
    refine ⟨?_, ?_⟩
    · intro other hother
      rcases List.mem_append.mp hother with hold | hlast
      · exact hnone other hold
      · rw [List.mem_singleton.mp hlast]
        exact hserves
    · rw [Machine.run_append_singleton]
      exact hnext

theorem needs_stopRequest : NeedsMutex bitsPlatform stopRequest := by
  refine ⟨Or.inr rfl, ?_⟩
  rw [routed_stopRequest]
  exact ⟨1, idOf_stopRequest⟩

/-- A second client connects once the sampling is being stopped, and its session waits
for the deadline. -/
def reconnected : List (Event bitsPlatform) :=
  stopped ++ [.accept 2 client 0] ++ [.complete 2 (.timer .operationAborted 0)]

/-- The thread of the sampling goes on, and the deadline of the client passes. -/
def stoppedAgain : List (Event bitsPlatform) :=
  [.destroyed 1] ++ [.complete 2 (.timerExpires 30)]

/-- The connection of the second client. -/
def waiting : Connection bitsPlatform :=
  (Connection.make 0).complete (.timer .operationAborted 0)

theorem leads_reconnected : ∃ s, Leads reconnected s ∧ s.connections 2 = some waiting ∧
    s.shared.mock.destroyed = some clearedFirst := by
  obtain ⟨s, hstopped, haccepts, hvacant, hdestroyed⟩ := leads_stopped
  have hwaiting := (hstopped.accept 2 haccepts hvacant).complete
    (.timer .operationAborted 0) setConnection_same (by decide) rfl (Or.inl rfl)
  exact ⟨_, hwaiting, setConnection_same, hdestroyed⟩

theorem leads_stoppedAgain : ∃ s,
    Leads (reconnected ++ [.receive 2 stopRequest firstMoment] ++ stoppedAgain) s := by
  obtain ⟨s, hreconnected, hconn, hdestroyed⟩ := leads_reconnected
  have hasked := hreconnected.receive firstMoment
    (Eq.refl (serve bitsPlatform firstMoment stopRequest)) hconn rfl Nat.one_pos rfl (by decide)
  have hasking : (asked 2 stopRequest (serve bitsPlatform firstMoment stopRequest) waiting
      s).connections 2 = some { waiting with
        working := some ⟨stopRequest, serve bitsPlatform firstMoment stopRequest⟩ } :=
    setConnection_same
  have hthread := @Leads.next bitsPlatform _ _ (.destroyed 1) hasked
    (Option.isSome_iff_exists.mpr ⟨clearedFirst, hdestroyed⟩) hasked.up
  have hpassed := hthread.complete (c := 2) (.timerExpires 30) hasking
    (by decide : HttpSessions.enabled waiting.session (.timerExpires 30)) rfl (Or.inr rfl)
  have hall : reconnected ++ [.receive 2 stopRequest firstMoment] ++ [.destroyed 1] ++
      [.complete 2 (.timerExpires 30)] =
        reconnected ++ [.receive 2 stopRequest firstMoment] ++ stoppedAgain :=
    List.append_assoc _ _ _
  rw [hall] at hpassed
  exact ⟨_, hpassed⟩

theorem destroyed_reconnected :
    ((server bitsPlatform).run reconnected).shared.mock.destroyed = some clearedFirst := by
  obtain ⟨s, hreconnected, -, hdestroyed⟩ := leads_reconnected
  rw [hreconnected.run_eq]
  exact hdestroyed

theorem never_answered_stop :
    (server bitsPlatform).Admissible
        (reconnected ++ [.receive 2 stopRequest firstMoment] ++ stoppedAgain) ∧
      ¬ Serves (p := bitsPlatform) 2 (.destroyed 1) ∧
        ¬ Serves (p := bitsPlatform) 2 (.complete 2 (.timerExpires 30)) := by
  obtain ⟨s, hleads⟩ := leads_stoppedAgain
  have hnever := never_answered bitsPlatform reconnected stoppedAgain 2 stopRequest firstMoment
    clearedFirst hleads.admissible destroyed_reconnected ⟨rfl, by decide⟩ needs_stopRequest
  exact ⟨hleads.admissible, hnever _ (by simp [stoppedAgain]), hnever _ (by simp [stoppedAgain])⟩

end Waiting

end BeastServer.MutexReleases
