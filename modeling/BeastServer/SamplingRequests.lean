import BeastServer.OkResponses
import BeastServer.SamplingJoins
import BeastServer.SamplingStatus

/-!
The endpoints that start and stop a sampling, one request after the other.
A request to start reads its limits from the body, if there is one; a request to
stop reads an id. A handler may leave in a third way besides returning and
throwing: it waits for a thread or for a mutex and is never heard of again.
-/
namespace BeastServer.SamplingRequests

open ByteStrings Exceptions Programs HttpMessages JsonValues JsonParsers JsonApi AnsweredRequests
open OkResponses SamplingBlocks Samplings SamplingJoins

section Conversions

/-- get_to of an int takes booleans too. castInt is the static_cast of a double
whose integer part is not an int, which the language leaves undefined. -/
def getInt (castInt : Double → Int32) : Json → Except Exception Int32
  | .numberUnsigned value => .ok value.toUInt32.toInt32
  | .numberInteger value => .ok value.toInt32
  | .numberFloat value =>
    if value.isFinite = true ∧ -2 ^ 31 ≤ value.truncated ∧ value.truncated < 2 ^ 31 then
      .ok (Int32.ofInt value.truncated)
    else .ok (castInt value)
  | .boolean value => .ok (if value then 1 else 0)
  | json => .error (Json.typeMustBe (ascii "number") json)

/-- The value that find leads to is converted; without one the default stays. -/
def intAt (castInt : Double → Int32) (json : Json) (key : Bytes) (default : Int32) :
    Except Exception Int32 :=
  match Members.find key (membersOf json) with
  | some value => getInt castInt value
  | none => .ok default

/-- A parse error is thrown again with its text; other exceptions pass. -/
def rethrown : Exception → Exception
  | .json .parseError id arg => .runtimeError (Exception.json .parseError id arg).what
  | ex => ex

/-- What samplingStartHandler reads from a body. -/
def limitsOf (castInt : Double → Int32) (host : Host) (body : Bytes) :
    Except Exception (Int32 × Int32) :=
  if body.length > 0 then
    Except.mapError rethrown (do
      let json ← parseJson host body
      let timeout ← intAt castInt json (ascii "timeout") 60
      let snaps ← intAt castInt json (ascii "snaps") (-1)
      pure (timeout, snaps))
  else .ok (60, -1)

/-- What samplingStopHandler reads from a body. -/
def idOf (host : Host) (body : Bytes) : Except Exception UInt64 := do
  let json ← parseJson host body
  (← json.atKey (ascii "id")).getUnsignedLong host

/-- The catch clauses of samplingStopHandler. -/
def stopCaught : Exception → Exception
  | .json .parseError id arg => .runtimeError (Exception.json .parseError id arg).what
  | .json .outOfRange id arg => .runtimeError (Exception.json .outOfRange id arg).what
  | .outOfRange _ => .notFound (ascii "id may not exist")
  | ex => ex

end Conversions

section Handlers

/-- How a handler may leave without a result. -/
inductive Escape
  | exception (e : Exception)
  | endless

/-- Catch clauses that throw again. -/
def Escape.caught (clauses : Exception → Exception) : Escape → Escape
  | exception e => exception (clauses e)
  | endless => endless

abbrev MockProgram := Program Escape SamplingMock

def raise {σ α : Type} : Except Exception α → Program Escape σ α
  | .ok a => pure a
  | .error e => throw (.exception e)

/-- A destructor that waits for its thread keeps samplingMutex. -/
def lock : MockProgram PUnit := do
  if (← get).destroyed.isSome = true then throw .endless

/-- The end of the destructor, with the steps its thread makes before the flag
is cleared. -/
def join (earlier : List UInt64) : MockProgram PUnit := do
  let mock ← get
  match mock.destroyed with
  | none => pure ()
  | some s =>
    if Joinable earlier s.block then set { mock with destroyed := none } else throw .endless

def samplingStartHandler (castInt : Double → Int32) (host : Host) (earlier : List UInt64)
    (req : Request) : MockProgram Json := do
  let (timeout, snaps) ← raise (limitsOf castInt host req.body)
  lock
  let mock ← get
  if mock.isRunning = true then throw (.exception (.runtimeError (ascii "already running")))
  else
    set (mock.start timeout snaps)
    join earlier
    raise (reported (← get) mock.samplingId)

def samplingStopHandler (host : Host) (earlier : List UInt64) (req : Request) :
    MockProgram Json :=
  EStateM.adaptExcept (Escape.caught stopCaught) (do
    let id ← raise (idOf host req.body)
    lock
    modify (fun mock => mock.stop id)
    join earlier
    pure .null)

end Handlers

section Readings

variable {castInt : Double → Int32} {host : Host} {body : Bytes} {json : Json} {e : Exception}
  {limits : Int32 × Int32} {id : UInt64}

theorem bind_ok_except {α β : Type} {a : α} {f : α → Except Exception β} :
    (Except.ok a >>= f) = f a := rfl

theorem plain_getInt (h : getInt castInt json = .error e) : Plain e := by
  cases json with
  | numberFloat value =>
    simp only [getInt] at h
    split at h
    · cases h
    · cases h
  | _ => cases h <;> exact plain_typeMustBe (by decide) _

theorem plain_intAt {key : Bytes} {default : Int32}
    (h : intAt castInt json key default = .error e) : Plain e := by
  unfold intAt at h
  split at h
  · exact plain_getInt h
  · cases h

/-- A text is thrown on as it is, whatever the class of the exception. -/
theorem rethrown_what (e : Exception) : (rethrown e).what = e.what := by
  unfold rethrown
  split
  · rfl
  · rfl

theorem wellFormed_of_plain (h : Plain e) : Utf8.WellFormed e.what :=
  Utf8.wellFormed_of_isAscii h

/-- The text of what parseJson throws can be dumped unless the lexer has kept
unreadable bytes. -/
theorem parseJson_readable (h : parseJson host body = .error e) :
    Utf8.WellFormed e.what ↔ ¬ RefusedUnreadable host body := by
  cases hparse : parse host body with
  | ok json q =>
    rw [parseJson_ok hparse] at h
    cases h
  | error e' q =>
    rw [parseJson_error hparse] at h
    obtain rfl := Except.error.inj h
    rw [wellFormed_what hparse, refusedUnreadable_iff hparse]
    tauto

/-- What the parser throws is a syntax error or a number that is too large. -/
theorem parseJson_json (h : parseJson host body = .error e) :
    ∃ kind n arg, e = .json kind n arg := by
  cases hparse : parse host body with
  | ok json q =>
    rw [parseJson_ok hparse] at h
    cases h
  | error e' q =>
    rw [parseJson_error hparse] at h
    obtain rfl := Except.error.inj h
    rcases parse_reported e' q hparse with ⟨expected, context, -, hsyntax⟩ | ⟨-, -, hlarge⟩
    · obtain ⟨rfl, -⟩ := EStateM.Result.error.inj (hparse.symm.trans hsyntax)
      exact ⟨_, _, _, rfl⟩
    · obtain ⟨rfl, -⟩ := EStateM.Result.error.inj (hparse.symm.trans hlarge)
      exact ⟨_, _, _, rfl⟩

theorem atKey_json {key : Bytes} (h : json.atKey key = .error e) :
    ∃ kind n arg, e = .json kind n arg := by
  unfold Json.atKey at h
  split at h
  · split at h
    · cases h
    · cases h
      exact ⟨_, _, _, rfl⟩
  · cases h
    exact ⟨_, _, _, rfl⟩

theorem getUnsignedLong_json (h : json.getUnsignedLong host = .error e) :
    ∃ kind n arg, e = .json kind n arg := by
  cases json <;> cases h <;> exact ⟨_, _, _, rfl⟩

theorem not_refused_of_parsed (h : parseJson host body = .ok json) :
    ¬ RefusedUnreadable host body := by
  cases hparse : parse host body with
  | ok json' q => exact not_refusedUnreadable hparse
  | error e q =>
    rw [parseJson_error hparse] at h
    cases h

theorem intAt_json {key : Bytes} {default : Int32} (h : intAt castInt json key default = .error e) :
    ∃ kind n arg, e = .json kind n arg := by
  unfold intAt at h
  split at h
  · rename_i value hfind
    cases value with
    | numberFloat value =>
      simp only [getInt] at h
      split at h
      · cases h
      · cases h
    | _ => cases h <;> exact ⟨_, _, _, rfl⟩
  · cases h

/-- The exceptions on the way to the limits are those of the JSON library. -/
theorem limitsOf_json (h : limitsOf castInt host body = .error e) :
    ∃ kind n arg, e = rethrown (.json kind n arg) := by
  have hthrown : ∀ {r : Except Exception (Int32 × Int32)},
      (∀ e', r = .error e' → ∃ kind n arg, e' = .json kind n arg) →
      Except.mapError rethrown r = .error e → ∃ kind n arg, e = rethrown (.json kind n arg) := by
    intro r hr hmap
    cases r with
    | ok limits => cases hmap
    | error e' =>
      obtain ⟨kind, n, arg, rfl⟩ := hr e' rfl
      exact ⟨kind, n, arg, (Except.error.inj hmap).symm⟩
  unfold limitsOf at h
  split at h
  · refine hthrown ?_ h
    intro e' he'
    cases hparse : parseJson host body with
    | error e'' =>
      rw [hparse] at he'
      obtain rfl := Except.error.inj he'
      exact parseJson_json hparse
    | ok json =>
      rw [hparse, bind_ok_except] at he'
      cases htimeout : intAt castInt json (ascii "timeout") 60 with
      | error e'' =>
        rw [htimeout] at he'
        obtain rfl := Except.error.inj he'
        exact intAt_json htimeout
      | ok timeout =>
        rw [htimeout, bind_ok_except] at he'
        cases hsnaps : intAt castInt json (ascii "snaps") (-1) with
        | error e'' =>
          rw [hsnaps] at he'
          obtain rfl := Except.error.inj he'
          exact intAt_json hsnaps
        | ok snaps =>
          rw [hsnaps] at he'
          cases he'
  · cases h

/-- The text of what is thrown on the way to the limits. -/
theorem limitsOf_readable (h : limitsOf castInt host body = .error e) :
    body ≠ [] ∧ (Utf8.WellFormed e.what ↔ ¬ RefusedUnreadable host body) := by
  unfold limitsOf at h
  split at h
  · rename_i hbody
    refine ⟨List.ne_nil_of_length_pos hbody, ?_⟩
    cases hparse : parseJson host body with
    | error e' =>
      rw [hparse] at h
      obtain rfl := Except.error.inj h
      rw [rethrown_what]
      exact parseJson_readable hparse
    | ok json =>
      rw [hparse] at h
      apply iff_of_true _ (not_refused_of_parsed hparse)
      cases htimeout : intAt castInt json (ascii "timeout") 60 with
      | error e' =>
        rw [bind_ok_except, htimeout] at h
        obtain rfl := Except.error.inj h
        rw [rethrown_what]
        exact wellFormed_of_plain (plain_intAt htimeout)
      | ok timeout =>
        cases hsnaps : intAt castInt json (ascii "snaps") (-1) with
        | error e' =>
          rw [bind_ok_except, htimeout, bind_ok_except, hsnaps] at h
          obtain rfl := Except.error.inj h
          rw [rethrown_what]
          exact wellFormed_of_plain (plain_intAt hsnaps)
        | ok snaps =>
          rw [bind_ok_except, htimeout, bind_ok_except, hsnaps] at h
          cases h
  · cases h

theorem limitsOf_ok (h : limitsOf castInt host body = .ok limits) (hbody : body ≠ []) :
    ¬ RefusedUnreadable host body := by
  cases hparse : parseJson host body with
  | ok json => exact not_refused_of_parsed hparse
  | error e =>
    unfold limitsOf at h
    rw [if_pos (List.length_pos_of_ne_nil hbody), hparse] at h
    cases h

theorem idOf_readable (h : idOf host body = .error e) :
    Utf8.WellFormed e.what ↔ ¬ RefusedUnreadable host body := by
  unfold idOf at h
  cases hparse : parseJson host body with
  | error e' =>
    rw [hparse] at h
    obtain rfl := Except.error.inj h
    exact parseJson_readable hparse
  | ok json =>
    rw [hparse] at h
    apply iff_of_true _ (not_refused_of_parsed hparse)
    exact wellFormed_of_plain
      (plain_member (by decide) (fun _ _ => plain_getUnsignedLong) h)

theorem idOf_ok (h : idOf host body = .ok id) : ¬ RefusedUnreadable host body := by
  cases hparse : parseJson host body with
  | ok json => exact not_refused_of_parsed hparse
  | error e =>
    unfold idOf at h
    rw [hparse] at h
    cases h

/-- Reading an id throws no exception of the standard containers. -/
theorem idOf_json (h : idOf host body = .error e) : ∃ kind n arg, e = .json kind n arg := by
  unfold idOf at h
  cases hparse : parseJson host body with
  | error e' =>
    rw [hparse] at h
    obtain rfl := Except.error.inj h
    exact parseJson_json hparse
  | ok json =>
    rw [hparse] at h
    change (do (← json.atKey (ascii "id")).getUnsignedLong host) = Except.error e at h
    cases hmember : json.atKey (ascii "id") with
    | error e' =>
      rw [hmember] at h
      obtain rfl := Except.error.inj h
      exact atKey_json hmember
    | ok value =>
      rw [hmember] at h
      exact getUnsignedLong_json h

/-- So the last catch clause of samplingStopHandler never gets to run. -/
theorem stopCaught_cases (h : idOf host body = .error e) :
    stopCaught e = e ∧ (∃ n arg, e = .json .typeError n arg) ∨
      stopCaught e = .runtimeError e.what := by
  obtain ⟨kind, n, arg, rfl⟩ := idOf_json h
  cases kind with
  | parseError => exact Or.inr rfl
  | outOfRange => exact Or.inr rfl
  | typeError => exact Or.inl ⟨rfl, n, arg, rfl⟩

end Readings

section Runs

variable {castInt : Double → Int32} {host : Host} {earlier : List UInt64} {req : Request}
  {mock : SamplingMock} {id : UInt64}

/-- The request waits for the mutex, or for the thread of a new sampling that
found its id taken. -/
def StartHangs (castInt : Double → Int32) (host : Host) (earlier : List UInt64) (req : Request)
    (mock : SamplingMock) : Prop :=
  ∃ timeout snaps, limitsOf castInt host req.body = .ok (timeout, snaps) ∧
    (mock.destroyed.isSome = true ∨ mock.isRunning = false ∧
      (mock.samplings.lookup mock.samplingId).isSome = true ∧
        ¬ Joinable earlier (SamplingBlock.make mock.samplingId timeout snaps))

/-- The request waits for the mutex, or for the thread of the sampling. -/
def StopHangs (host : Host) (earlier : List UInt64) (req : Request) (mock : SamplingMock) : Prop :=
  ∃ id, idOf host req.body = .ok id ∧
    (mock.destroyed.isSome = true ∨
      ∃ block, mock.samplings.lookup id = some block ∧ ¬ Joinable earlier block)

theorem lock_free (h : mock.destroyed = none) : lock.run mock = .ok ⟨⟩ mock := by
  simp [lock, h]

theorem lock_taken (h : mock.destroyed.isSome = true) : lock.run mock = .error .endless mock := by
  simp [lock, h]

theorem join_none (h : mock.destroyed = none) : (join earlier).run mock = .ok ⟨⟩ mock := by
  simp [join, h]

theorem join_some {s : Stoppable} (h : mock.destroyed = some s) :
    (join earlier).run mock =
      if Joinable earlier s.block then .ok ⟨⟩ { mock with destroyed := none }
      else .error .endless mock := by
  simp only [join, EStateM.run_bind, EStateM.run_get, h]
  split
  · rfl
  · rfl

theorem raise_ok {σ α : Type} {r : Except Exception α} {a : α} (h : r = .ok a) (s : σ) :
    (raise r).run s = .ok a s := by
  rw [h]
  rfl

theorem raise_error {σ α : Type} {r : Except Exception α} {e : Exception} (h : r = .error e)
    (s : σ) : (raise r : Program Escape σ α).run s = .error (.exception e) s := by
  rw [h]
  rfl

/-- The part of samplingStartHandler after the body has been read. -/
def startSampling (earlier : List UInt64) (timeout snaps : Int32) : MockProgram Json := do
  lock
  let mock ← get
  if mock.isRunning = true then throw (.exception (.runtimeError (ascii "already running")))
  else
    set (mock.start timeout snaps)
    join earlier
    raise (reported (← get) mock.samplingId)

theorem samplingStartHandler_read {timeout snaps : Int32}
    (h : limitsOf castInt host req.body = .ok (timeout, snaps)) :
    (samplingStartHandler castInt host earlier req).run mock =
      (startSampling earlier timeout snaps).run mock := by
  unfold samplingStartHandler
  rw [bind_ok (raise_ok h mock)]
  rfl

theorem startSampling_running {timeout snaps : Int32} (hfree : mock.destroyed = none)
    (hrunning : mock.isRunning = true) :
    (startSampling earlier timeout snaps).run mock =
      .error (.exception (.runtimeError (ascii "already running"))) mock := by
  unfold startSampling
  rw [bind_ok (lock_free hfree), EStateM.run_bind, EStateM.run_get]
  simp only [if_pos hrunning]
  rfl

/-- A new id is one that no sampling has. -/
theorem startSampling_new {timeout snaps : Int32} (hfree : mock.destroyed = none)
    (hidle : mock.isRunning = false) (hnew : mock.samplings.lookup mock.samplingId = none) :
    (startSampling earlier timeout snaps).run mock =
      .ok (getStatus (SamplingBlock.make mock.samplingId timeout snaps) false)
        (mock.start timeout snaps) := by
  have hstart : mock.start timeout snaps =
      { mock with
        samplingId := mock.samplingId + 1
        samplings := (mock.samplingId, SamplingBlock.make mock.samplingId timeout snaps) ::
          mock.samplings } := by
    rw [SamplingMock.start, hnew]
  have hreported : reported (mock.start timeout snaps) mock.samplingId =
      .ok (getStatus (SamplingBlock.make mock.samplingId timeout snaps) false) := by
    rw [hstart, reported, SamplingMock.statusOf, List.lookup_cons_self]
  have hjoin : (mock.start timeout snaps).destroyed = none := by
    rw [hstart]
    exact hfree
  unfold startSampling
  rw [bind_ok (lock_free hfree), EStateM.run_bind, EStateM.run_get]
  simp only [hidle, Bool.false_eq_true, if_false]
  rw [EStateM.run_bind, EStateM.run_set]
  simp only
  rw [bind_ok (join_none hjoin), EStateM.run_bind, EStateM.run_get]
  exact raise_ok hreported _

/-- Where the id is taken, the new sampling is destroyed and the old one reported. -/
theorem startSampling_taken {timeout snaps : Int32} {taken : SamplingBlock}
    (hfree : mock.destroyed = none) (hidle : mock.isRunning = false)
    (htaken : mock.samplings.lookup mock.samplingId = some taken) :
    ∃ t, (startSampling earlier timeout snaps).run mock =
      if Joinable earlier (SamplingBlock.make mock.samplingId timeout snaps) then
        .ok (getStatus taken false) t
      else .error .endless (mock.start timeout snaps) := by
  have hstart : mock.start timeout snaps =
      { mock with
        samplingId := mock.samplingId + 1
        destroyed := some ⟨SamplingBlock.make mock.samplingId timeout snaps, .absent⟩ } := by
    rw [SamplingMock.start, htaken]
  have hjoin : (mock.start timeout snaps).destroyed =
      some ⟨SamplingBlock.make mock.samplingId timeout snaps, .absent⟩ := by
    rw [hstart]
  have hreported : reported { mock.start timeout snaps with destroyed := none } mock.samplingId =
      .ok (getStatus taken false) := by
    rw [hstart, reported, SamplingMock.statusOf]
    simp only [htaken]
  refine ⟨{ mock.start timeout snaps with destroyed := none }, ?_⟩
  unfold startSampling
  rw [bind_ok (lock_free hfree), EStateM.run_bind, EStateM.run_get]
  simp only [hidle, Bool.false_eq_true, if_false]
  rw [EStateM.run_bind, EStateM.run_set]
  simp only
  rw [EStateM.run_bind, join_some hjoin]
  by_cases hjoinable : Joinable earlier (SamplingBlock.make mock.samplingId timeout snaps)
  · simp only [if_pos hjoinable]
    rw [EStateM.run_bind, EStateM.run_get]
    exact raise_ok hreported _
  · simp only [if_neg hjoinable]

/-- A request to start waits forever, or it reports a sampling, or it is refused
and the samplings are as before. -/
theorem samplingStartHandler_run :
    (StartHangs castInt host earlier req mock ∧
      ∃ t, (samplingStartHandler castInt host earlier req).run mock = .error .endless t) ∨
    ¬ StartHangs castInt host earlier req mock ∧
      ((∃ limits block t, limitsOf castInt host req.body = .ok limits ∧
        (samplingStartHandler castInt host earlier req).run mock =
          .ok (getStatus block false) t) ∨
      ∃ e, (samplingStartHandler castInt host earlier req).run mock = .error (.exception e) mock ∧
        (limitsOf castInt host req.body = .error e ∨
          (∃ limits, limitsOf castInt host req.body = .ok limits) ∧
            e = .runtimeError (ascii "already running"))) := by
  cases hlimits : limitsOf castInt host req.body with
  | error e =>
    refine Or.inr ⟨?_, Or.inr ⟨e, ?_, Or.inl rfl⟩⟩
    · intro ⟨timeout, snaps, hread, _⟩
      cases hlimits.symm.trans hread
    · unfold samplingStartHandler
      rw [bind_error (raise_error hlimits mock)]
  | ok limits =>
    obtain ⟨timeout, snaps⟩ := limits
    rw [samplingStartHandler_read hlimits]
    by_cases hfree : mock.destroyed = none
    swap
    · have htaken := Option.isSome_iff_ne_none.mpr hfree
      refine Or.inl ⟨⟨timeout, snaps, hlimits, Or.inl htaken⟩, mock, ?_⟩
      unfold startSampling
      rw [bind_error (lock_taken htaken)]
    have hopen : ¬ mock.destroyed.isSome = true := by simp [hfree]
    cases hrunning : mock.isRunning with
    | true =>
      refine Or.inr ⟨?_, Or.inr ⟨_, startSampling_running hfree hrunning, ?_⟩⟩
      · intro ⟨_, _, _, hhangs⟩
        rcases hhangs with htaken | ⟨hidle, _⟩
        · exact hopen htaken
        · exact absurd (hrunning.symm.trans hidle) (by decide)
      · exact Or.inr ⟨⟨_, rfl⟩, rfl⟩
    | false =>
      cases hlookup : mock.samplings.lookup mock.samplingId with
      | none =>
        refine Or.inr ⟨?_, Or.inl ⟨_, _, _, rfl, startSampling_new hfree hrunning hlookup⟩⟩
        intro ⟨_, _, _, hhangs⟩
        rcases hhangs with htaken | ⟨_, htaken, _⟩
        · exact hopen htaken
        · rw [hlookup] at htaken
          cases htaken
      | some taken =>
        obtain ⟨t, hrun⟩ := @startSampling_taken earlier mock timeout snaps taken hfree hrunning
          hlookup
        by_cases hjoinable : Joinable earlier (SamplingBlock.make mock.samplingId timeout snaps)
        · rw [if_pos hjoinable] at hrun
          refine Or.inr ⟨?_, Or.inl ⟨_, taken, t, rfl, hrun⟩⟩
          intro ⟨timeout', snaps', hread, hhangs⟩
          obtain ⟨rfl, rfl⟩ := Prod.mk.inj (Except.ok.inj (hlimits.symm.trans hread))
          rcases hhangs with htaken | ⟨_, _, hnot⟩
          · exact hopen htaken
          · exact hnot hjoinable
        · rw [if_neg hjoinable] at hrun
          refine Or.inl ⟨⟨timeout, snaps, hlimits, Or.inr ⟨hrunning, ?_, hjoinable⟩⟩, _, hrun⟩
          rw [hlookup]
          rfl

/-- The part of samplingStopHandler in its try block, after the body has been read. -/
def stopSampling (earlier : List UInt64) (id : UInt64) : MockProgram Json := do
  lock
  modify (fun mock => mock.stop id)
  join earlier
  pure .null

theorem stopSampling_taken (h : mock.destroyed.isSome = true) :
    (stopSampling earlier id).run mock = .error .endless mock := by
  unfold stopSampling
  rw [bind_error (lock_taken h)]

/-- An id without a sampling is stopped as well. -/
theorem stopSampling_none (hfree : mock.destroyed = none)
    (h : mock.samplings.lookup id = none) :
    (stopSampling earlier id).run mock = .ok .null { mock.stop id with destroyed := none } := by
  have hstop : mock.stop id = mock := by rw [SamplingMock.stop, h]
  have hsame : { mock with destroyed := none } = mock := by rw [← hfree]
  unfold stopSampling
  rw [bind_ok (lock_free hfree), EStateM.run_bind, EStateM.run_modify, hstop]
  simp only
  rw [bind_ok (join_none hfree), hsame]
  rfl

theorem stopSampling_some {block : SamplingBlock} (hfree : mock.destroyed = none)
    (h : mock.samplings.lookup id = some block) :
    (stopSampling earlier id).run mock =
      if Joinable earlier block then .ok .null { mock.stop id with destroyed := none }
      else .error .endless (mock.stop id) := by
  have hstop : (mock.stop id).destroyed = some ⟨block, .absent⟩ := by
    rw [SamplingMock.stop, h]
  unfold stopSampling
  rw [bind_ok (lock_free hfree), EStateM.run_bind, EStateM.run_modify]
  simp only
  rw [EStateM.run_bind, join_some hstop]
  by_cases hjoinable : Joinable earlier block
  · simp only [if_pos hjoinable]
    rfl
  · simp only [if_neg hjoinable]

theorem samplingStopHandler_read (h : idOf host req.body = .ok id) :
    (samplingStopHandler host earlier req).run mock =
      match (stopSampling earlier id).run mock with
      | .ok json t => .ok json t
      | .error escape t => .error (escape.caught stopCaught) t := by
  unfold samplingStopHandler
  rw [EStateM.run_adaptExcept, bind_ok (raise_ok h mock), ← stopSampling]
  cases (stopSampling earlier id).run mock with
  | ok json t => rfl
  | error escape t => rfl

/-- A request to stop waits forever, or it stops the sampling, if there is one,
or it is refused and the samplings are as before. -/
theorem samplingStopHandler_run :
    (StopHangs host earlier req mock ∧
      ∃ t, (samplingStopHandler host earlier req).run mock = .error .endless t) ∨
    ¬ StopHangs host earlier req mock ∧
      ((∃ id, idOf host req.body = .ok id ∧ (samplingStopHandler host earlier req).run mock =
        .ok .null { mock.stop id with destroyed := none }) ∨
      ∃ e, idOf host req.body = .error e ∧ (samplingStopHandler host earlier req).run mock =
        .error (.exception (stopCaught e)) mock) := by
  cases hid : idOf host req.body with
  | error e =>
    refine Or.inr ⟨?_, Or.inr ⟨e, rfl, ?_⟩⟩
    · intro ⟨id, hread, _⟩
      cases hid.symm.trans hread
    · unfold samplingStopHandler
      rw [EStateM.run_adaptExcept, bind_error (raise_error hid mock)]
      rfl
  | ok id =>
    rw [samplingStopHandler_read hid]
    by_cases hfree : mock.destroyed = none
    swap
    · have htaken := Option.isSome_iff_ne_none.mpr hfree
      refine Or.inl ⟨⟨id, hid, Or.inl htaken⟩, mock, ?_⟩
      rw [stopSampling_taken htaken]
      rfl
    have hopen : ¬ mock.destroyed.isSome = true := by simp [hfree]
    cases hlookup : mock.samplings.lookup id with
    | none =>
      rw [stopSampling_none hfree hlookup]
      refine Or.inr ⟨?_, Or.inl ⟨id, rfl, rfl⟩⟩
      intro ⟨other, hread, hhangs⟩
      obtain rfl := Except.ok.inj (hid.symm.trans hread)
      rcases hhangs with htaken | ⟨block, hlive, _⟩
      · exact hopen htaken
      · cases hlookup.symm.trans hlive
    | some block =>
      rw [stopSampling_some hfree hlookup]
      by_cases hjoinable : Joinable earlier block
      · rw [if_pos hjoinable]
        refine Or.inr ⟨?_, Or.inl ⟨id, rfl, rfl⟩⟩
        intro ⟨other, hread, hhangs⟩
        obtain rfl := Except.ok.inj (hid.symm.trans hread)
        rcases hhangs with htaken | ⟨stopped, hlive, hnot⟩
        · exact hopen htaken
        · obtain rfl := Option.some.inj (hlookup.symm.trans hlive)
          exact hnot hjoinable
      · rw [if_neg hjoinable]
        exact Or.inl ⟨⟨id, hid, Or.inr ⟨block, hlookup, hjoinable⟩⟩, _, rfl⟩

end Runs

end BeastServer.SamplingRequests
