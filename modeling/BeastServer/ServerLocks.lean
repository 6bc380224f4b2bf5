import BeastServer.SamplingJoins
import BeastServer.ServerProgress

/-!
The mutex of the samplings over the sections of the handlers.
Only the thread that runs the destructor of a sampling holds samplingMutex from one
section to the next: it reads the flag, clears it if it is set, and joins. The other
handlers do not take the mutex while it is held, or do not need it.
-/
namespace BeastServer.ServerLocks

open ByteStrings Exceptions Programs HttpMessages JsonValues SamplingBlocks SamplingRequests
open PictureCaches hiding addPicture
open Samplings hiding Shared Event Free step enabled decidableEnabled
open PostedPictures PicturePreviews UriRouters Sections ServerTasks ServerProgress
open Servers hiding handleRequest samplingStatusHandler handlerOf serve

section Mutex

/-- What the destructor leaves after its next access. -/
def Goes (d : Stoppable) (next : Option Stoppable) : Prop :=
  match d.stopper with
  | .absent => next = some (step d .readRunning)
  | .clearing => next = some (step d .clearRunning)
  | .joining => next = none
  | .joined => False

/-- samplingMutex, which the thread holds that runs a destructor. -/
def samplingLock : Lock Shared Stoppable Stopper where
  held s := s.mock.destroyed
  stage d := d.stopper
  able d := d.stopper = .joining → d.block.position = .finished
  goes := Goes

variable {p : Platform} {m : Moment p} {s : Shared} {d : Stoppable} {event : SamplingBlocks.Event}
  {req : Request}

theorem canDestroy_iff (h : s.mock.destroyed = some d) :
    CanDestroy p event m s ↔ enabled d event := by
  simp [CanDestroy, h]

theorem destroyed_destroyStep (h : s.mock.destroyed = some d) :
    (destroyStep event s).mock.destroyed = if event = .join then none else some (step d event) := by
  show (s.mock.destroyed.bind _) = _
  rw [h]
  rfl

theorem shown_none (h : s.mock.destroyed = none) : samplingLock.shown s = none := by
  rw [Lock.shown]
  exact Option.map_eq_none_iff.mpr h

theorem shown_some (h : s.mock.destroyed = some d) : samplingLock.shown s = some d.stopper := by
  rw [Lock.shown]
  exact Option.map_eq_some_iff.mpr ⟨d, h, rfl⟩

/-- Only the join waits. -/
theorem able_of_stage (h : d.stopper ≠ .joining) : samplingLock.able d :=
  fun hjoining => absurd hjoining h

theorem exists_canDestroy (h : s.mock.destroyed = some d) (henabled : enabled d event) :
    ∃ m, CanDestroy p event m s :=
  ⟨orderedMoment p [], (canDestroy_iff h).mpr henabled⟩

/-- An access of the destructor, which is at its stage for it. -/
theorem locks_destroyStep {k : Stopper} {α : Type}
    {rest : Moment p → Shared → Task Shared (Moment p) α}
    (henabled : ∀ d : Stoppable, d.stopper = k → (enabled d event ↔ samplingLock.able d))
    (hgoes : ∀ d : Stoppable, d.stopper = k →
      Goes d (if event = .join then none else some (step d event)))
    (hrest : ∀ m s d, s.mock.destroyed = some d → d.stopper = k →
      Locks samplingLock (samplingLock.shown (destroyStep event s)) (rest m s)) :
    Locks samplingLock (some k)
      (.enter (CanDestroy p event) (fun _ => destroyStep event) rest) := by
  refine .inside ?_ ?_ ?_
  · intro s d hheld hstage
    rw [← henabled d hstage]
    exact ⟨fun ⟨m, hm⟩ => (canDestroy_iff hheld).mp hm, exists_canDestroy hheld⟩
  · intro m s d _ hheld hstage
    show Goes d (destroyStep event s).mock.destroyed
    rw [destroyed_destroyStep hheld]
    exact hgoes d hstage
  · exact fun m s d _ hheld hstage => hrest m s d hheld hstage

theorem locks_joinThread : Locks samplingLock (some .joining) (joinThread p) := by
  refine locks_destroyStep ?_ ?_ ?_
  · intro d hstage
    exact ⟨fun henabled _ => henabled.2, fun hable => ⟨hstage, hable hstage⟩⟩
  · intro d hstage
    simp [Goes, hstage]
  · intro m s d hheld _
    have hfree : (destroyStep .join s).mock.destroyed = none := destroyed_destroyStep hheld
    rw [shown_none hfree]
    exact .finished _

theorem locks_clear : Locks samplingLock (some .clearing)
    (.enter (CanDestroy p .clearRunning) (fun _ => destroyStep .clearRunning)
      (fun _ _ => joinThread p)) := by
  refine locks_destroyStep ?_ ?_ ?_
  · exact fun d hstage => iff_of_true hstage (able_of_stage (by simp [hstage]))
  · intro d hstage
    simp [Goes, hstage]
  · intro m s d hheld _
    rw [shown_some (destroyed_destroyStep hheld)]
    exact locks_joinThread

/-- The destructor holds the mutex until it has joined the thread. -/
theorem locks_destroy {mock : SamplingMock}
    (h : ∀ d, mock.destroyed = some d → d.stopper = .absent) :
    Locks samplingLock (mock.destroyed.map Stoppable.stopper) (destroy p mock) := by
  unfold destroy
  cases hdestroyed : mock.destroyed with
  | none => exact .finished _
  | some d =>
    have hstage := h d hdestroyed
    simp only [Option.isSome_some, if_true, Option.map_some, hstage]
    refine locks_destroyStep ?_ ?_ ?_
    · exact fun d hstage => iff_of_true hstage (able_of_stage (by simp [hstage]))
    · intro d hstage
      simp [Goes, hstage]
    · intro m s d hheld _
      rw [shown_some (destroyed_destroyStep hheld), hheld]
      cases hrunning : d.block.running with
      | true =>
        simp only [step, hrunning, Option.any_some, if_true]
        exact locks_clear
      | false =>
        simp only [step, hrunning, Option.any_some]
        exact locks_joinThread

end Mutex

section Handlers

variable {p : Platform} {m : Moment p} {req : Request} {α : Type}

theorem locks_onCache {x : Moment p → CacheProgram α} : Locks samplingLock none (onCache x) := by
  refine locks_atomic ?_
  intro i s _
  rw [attempt_within]
  rfl

theorem locks_onPreviews {x : Moment p → HandlerProgram α} :
    Locks samplingLock none (onPreviews x) := by
  refine locks_atomic ?_
  intro i s _
  rw [attempt_within]
  rfl

theorem locks_caught {o : Option Stopper} {clauses : Exception → Exception}
    {task : HandlerTask p α} (h : Locks samplingLock o task) :
    Locks samplingLock o (caught clauses task) :=
  locks_bind h (fun _ => .finished _)

theorem locks_addPicture {picture : PostPictureWrapper} :
    Locks samplingLock none (addPicture p picture) := by
  unfold addPicture
  apply locks_andThen locks_onCache
  intro _
  apply locks_andThen locks_onCache
  intro _
  refine locks_atomic ?_
  intro i s _
  rw [attempt_within]
  rfl

theorem locks_createPreview {pvs : PictureCaches.Pvs} :
    Locks samplingLock none (createPreview p pvs) := by
  unfold createPreview
  split
  · exact .finished _
  · refine locks_bind (locks_atomic (fun _ _ _ => rfl)) ?_
    intro now
    refine locks_bind ?_ (fun id => locks_atomic (fun _ _ _ => rfl))
    unfold chooseId
    split
    · exact .finished _
    · refine locks_bind (locks_atomic (fun _ _ _ => rfl)) ?_
      intro parsed
      cases parsed with
      | some uuid => exact .finished _
      | none => exact locks_atomic (fun _ _ _ => rfl)

theorem locks_picPostHandler : Locks samplingLock none (picPostHandler p m req) := by
  refine locks_caught (locks_andThen (.finished _) ?_)
  intro json
  refine locks_andThen (.finished _) ?_
  intro picture
  refine locks_andThen locks_addPicture ?_
  intro pvs
  exact locks_andThen locks_createPreview (fun _ => .finished _)

theorem locks_indexLoop (rounds : ℕ) (path : Bytes) :
    Locks samplingLock none (indexLoop p rounds path) := by
  induction rounds generalizing path with
  | zero => exact locks_enter (fun _ _ h => h.elim) (fun _ _ h => h.elim)
  | succ rounds ih =>
    refine locks_enter (fun _ _ _ => rfl) ?_
    intro m s _
    split
    · exact ih _
    · exact .finished _

theorem locks_staticHandler : Locks samplingLock none (staticHandler p req) := by
  unfold staticHandler
  split
  · exact .finished _
  split
  · exact .finished _
  · exact locks_bind (locks_indexLoop _ _) (fun path => locks_atomic (fun _ _ _ => rfl))

theorem locks_pictureHandler : Locks samplingLock none (pictureHandler p req) := by
  unfold pictureHandler
  split
  · exact .finished _
  · refine locks_bind locks_onPreviews ?_
    intro r
    cases r with
    | ok res => exact .finished _
    | error ex => exact .finished _

/-- A section that takes the mutex and destroys a sampling, or none. -/
theorem locks_free {update : Moment p → Shared → Shared}
    {rest : Moment p → Shared → Task Shared (Moment p) α}
    (h : ∀ m s, s.mock.destroyed = none →
      Locks samplingLock (samplingLock.shown (update m s)) (rest m s)) :
    Locks samplingLock none (.enter (Free p) update rest) :=
  .outside (fun _ _ hfree hheld => absurd hfree hheld)
    (fun _ _ hfree hheld => absurd hfree hheld) (fun m s _ hheld => h m s hheld)

theorem absent_start {mock : SamplingMock} (hfree : mock.destroyed = none)
    (timeout snapsNeeded : Int32) :
    ∀ d, (mock.start timeout snapsNeeded).destroyed = some d → d.stopper = .absent := by
  intro d hd
  unfold SamplingMock.start at hd
  cases hlookup : mock.samplings.lookup mock.samplingId with
  | none =>
    simp only [hlookup, hfree] at hd
    cases hd
  | some taken =>
    simp only [hlookup] at hd
    rw [← Option.some.inj hd]

theorem absent_stop {mock : SamplingMock} (hfree : mock.destroyed = none) (sampleId : UInt64) :
    ∀ d, (mock.stop sampleId).destroyed = some d → d.stopper = .absent := by
  intro d hd
  unfold SamplingMock.stop at hd
  cases hlookup : mock.samplings.lookup sampleId with
  | none =>
    simp only [hlookup, hfree] at hd
    cases hd
  | some block =>
    simp only [hlookup] at hd
    rw [← Option.some.inj hd]

theorem locks_samplingStartHandler : Locks samplingLock none (samplingStartHandler p req) := by
  refine locks_andThen (.finished _) ?_
  intro limits
  refine locks_bind (locks_atomic (fun _ _ _ => rfl)) ?_
  intro running
  split
  · exact .finished _
  · refine locks_free ?_
    intro m s hfree
    show Locks samplingLock (Option.map Stoppable.stopper (s.mock.start _ _).destroyed)
      ((destroy p (s.mock.start limits.1 limits.2)).bind _)
    exact locks_bind (locks_destroy (absent_start hfree limits.1 limits.2))
      (fun _ => locks_atomic (fun _ _ _ => rfl))

theorem locks_samplingStopHandler : Locks samplingLock none (samplingStopHandler p req) := by
  refine locks_caught (locks_andThen (.finished _) ?_)
  intro id
  refine locks_free ?_
  intro m s hfree
  show Locks samplingLock (Option.map Stoppable.stopper (s.mock.stop id).destroyed)
    ((destroy p (s.mock.stop id)).bind _)
  exact locks_bind (locks_destroy (absent_stop hfree id)) (fun _ => .finished _)

theorem locks_samplingStatusHandler : Locks samplingLock none (samplingStatusHandler p req) := by
  unfold samplingStatusHandler
  split
  · exact .finished _
  · exact locks_caught (locks_atomic (fun _ _ _ => rfl))

theorem locks_handleRequest {func : Request → HandlerTask p Json}
    (h : Locks samplingLock none (func req)) :
    Locks samplingLock none (handleRequest p func req) := by
  unfold handleRequest
  split
  · exact .finished _
  · exact locks_bind h (fun _ => .finished _)

/-- Every handler treats the mutex as one. -/
theorem locks_serve : Locks samplingLock none (serve p m req) := by
  unfold serve
  cases routed req.target with
  | version => exact locks_handleRequest (.finished _)
  | samplingStart => exact locks_handleRequest locks_samplingStartHandler
  | samplingStatus => exact locks_handleRequest locks_samplingStatusHandler
  | samplingStop => exact locks_handleRequest locks_samplingStopHandler
  | picture => exact locks_pictureHandler
  | pictures => exact locks_handleRequest locks_picPostHandler
  | preview => exact locks_handleRequest (locks_andThen locks_onPreviews (fun _ => .finished _))
  | static => exact locks_staticHandler

end Handlers

end BeastServer.ServerLocks
