import BeastServer.Schedules

/-!
Handlers that are not interrupted.
When the sections of a handler follow each other and meet the same moment, the
response and the state are those of the server with a single thread. So the two
models of the handlers differ only in what other threads may do between sections.
-/
namespace BeastServer.UninterruptedTasks

open ByteStrings Exceptions Programs HttpMessages HttpSessions JsonValues JsonParsers
open AnsweredRequests PostedPictures PicturePreviews UriRouters Sections ServerTasks Machines
open PictureCaches hiding addPicture
open PreviewVisits hiding handleRequest onPreviews
open Samplings hiding Shared step enabled
open SamplingRequests hiding samplingStartHandler samplingStopHandler
open StaticRequests hiding handleRequest send serve indexLoop record
open JsonApi hiding handleRequest send picPostHandler createPreview onCache
open Servers hiding handleRequest samplingStatusHandler handlerOf serve
open Schedules hiding alone_addPicture alone_chooseId alone_createPreview alone_onCache
open AdvertisedUrls (Post Service service)
open ApiContracts (bitsPlatform)
open ClientMessages (exists_sent)
open ServerSafety (Posts)

section Uninterrupted

variable {p : Platform} {m : Moment p} {α β : Type} {s t : Shared} {req : Request}

/-- What a handler leaves that ends with a result. -/
def ended (r : Except Exception α) (s : ServerState) : EStateM.Result Escape ServerState α :=
  match r with
  | .ok a => .ok a s
  | .error e => .error (.exception e) s

/-- A task that gets to its end without interruption does what the program does. -/
def Agrees (m : Moment p) (task : HandlerTask p α) (x : ServerProgram α) : Prop :=
  ∀ s t r session, Alone (fun i => i = m) task s r t →
    x.run (s.withSession session) = ended r (t.withSession session)

theorem alone_caught {clauses : Exception → Exception} {task : HandlerTask p α}
    {r : Except Exception α} (h : Alone (fun i => i = m) (caught clauses task) s r t) :
    ∃ r', Alone (fun i => i = m) task s r' t ∧ r = r'.mapError clauses := by
  obtain ⟨r', u, htask, hover⟩ := alone_bind h
  obtain ⟨rfl, rfl⟩ := alone_finished hover
  exact ⟨r', htask, rfl⟩

theorem alone_onCache {free : Moment p → Shared → Prop} {x : Moment p → CacheProgram α}
    {r : Except Exception α}
    (h : Alone (fun i => i = m)
      (execute free (fun m => within Shared.cache Shared.setCache (x m))) s r t) :
    free m s ∧ ∃ cache, attempt (x m) s.cache = (r, cache) ∧ t = s.setCache cache := by
  obtain ⟨i, hi, hfree, hattempt⟩ := alone_execute h
  rw [hi] at hfree
  rw [hi, attempt_within] at hattempt
  obtain ⟨hr, ht⟩ := Prod.mk.inj hattempt
  exact ⟨hfree, _, Prod.ext hr rfl, ht.symm⟩

theorem alone_onPreviews {x : Moment p → HandlerProgram α} {r : Except Exception α}
    (h : Alone (fun i => i = m) (onPreviews x) s r t) :
    ∃ previews, attempt (x m) s.previews = (r, previews) ∧ t = s.setPreviews previews := by
  obtain ⟨i, hi, -, hattempt⟩ := alone_execute h
  rw [hi, attempt_within] at hattempt
  obtain ⟨hr, ht⟩ := Prod.mk.inj hattempt
  exact ⟨_, Prod.ext hr rfl, ht.symm⟩

theorem attempt_eq_ok {ε σ : Type} {x : Program ε σ α} {s t : σ} {a : α}
    (h : attempt x s = (.ok a, t)) : x.run s = .ok a t := by
  unfold attempt at h
  split at h
  · rename_i hrun
    cases h
    exact hrun
  · cases h

theorem attempt_eq_error {ε σ : Type} {x : Program ε σ α} {s t : σ} {e : ε}
    (h : attempt x s = (.error e, t)) : x.run s = .error e t := by
  unfold attempt at h
  split at h
  · cases h
  · rename_i hrun
    cases h
    exact hrun

/-- The sections of addPicture are those of the call on the cache alone. -/
theorem alone_addPicture {picture : PostPictureWrapper} {r : Except Exception Pvs}
    (h : Alone (fun i => i = m) (addPicture p picture) s r t) :
    ∃ cache, attempt (PictureCaches.addPicture ⟨picture, m.now, m.order⟩) s.cache = (r, cache) ∧
      t = s.setCache cache := by
  have hcleanup : (modify (cleanup m.now) : CacheProgram PUnit).run s.cache =
      .ok ⟨⟩ (cleanup m.now s.cache) := rfl
  obtain ⟨_, u, hfirst, hrest⟩ | ⟨e, -, hfirst⟩ := alone_andThen h
  swap
  · obtain ⟨-, cache, hattempt, -⟩ := alone_onCache hfirst
    rw [attempt_ok hcleanup] at hattempt
    cases hattempt
  obtain ⟨-, cache, hattempt, rfl⟩ := alone_onCache hfirst
  rw [attempt_ok hcleanup] at hattempt
  cases hattempt
  obtain ⟨_, v, hsecond, hthird⟩ | ⟨e, rfl, hsecond⟩ := alone_andThen hrest
  · obtain ⟨-, cache', hadd, rfl⟩ := alone_onCache hsecond
    obtain ⟨-, cache'', hprocess, rfl⟩ := alone_onCache hthird
    have hadded : (addNewPic picture).run (cleanup m.now s.cache) = .ok ⟨⟩ cache' :=
      attempt_eq_ok hadd
    refine ⟨cache'', ?_, rfl⟩
    rw [attempt, PictureCaches.addPicture, bind_ok hcleanup, bind_ok hadded]
    exact hprocess
  · obtain ⟨-, cache', hadd, rfl⟩ := alone_onCache hsecond
    have hthrown : (addNewPic picture).run (cleanup m.now s.cache) = .error e cache' :=
      attempt_eq_error hadd
    refine ⟨cache', ?_, rfl⟩
    rw [attempt, PictureCaches.addPicture, bind_ok hcleanup, bind_error hthrown]

theorem alone_chooseId {random : Option Uuid} {id : Bytes}
    (h : Alone (fun i => i = m) (chooseId p random) s id t) :
    t = s ∧ id = PicturePreviewHandler.makeId p.generator random s.previews.seq := by
  unfold chooseId at h
  cases random with
  | some uuid =>
    obtain ⟨rfl, rfl⟩ := alone_finished h
    exact ⟨rfl, rfl⟩
  | none =>
    obtain ⟨parsed, u, hfirst, hrest⟩ := alone_bind h
    obtain ⟨_, -, -, heq⟩ := alone_atomic hfirst
    obtain ⟨rfl, rfl⟩ := Prod.mk.inj heq
    simp only [PicturePreviewHandler.makeId, PreviewIds.parse_seq] at hrest ⊢
    obtain ⟨_, -, -, heq⟩ := alone_atomic hrest
    obtain ⟨rfl, rfl⟩ := Prod.mk.inj heq
    exact ⟨rfl, rfl⟩

theorem alone_createPreview {pvs : Pvs} {r : Except Exception PUnit}
    (h : Alone (fun i => i = m) (createPreview p pvs) s r t) :
    r = .ok ⟨⟩ ∧ t = if pvs.isEmpty then s else
      s.setPreviews (PicturePreviewHandler.createPreview p.generator m.random m.time
        (pictureViews pvs) s.previews) := by
  unfold createPreview at h
  split at h
  · rename_i hempty
    obtain ⟨rfl, rfl⟩ := alone_finished h
    exact ⟨rfl, (if_pos hempty).symm⟩
  · rename_i hsome
    obtain ⟨now, u, hcount, hrest⟩ := alone_bind h
    obtain ⟨_, rfl, -, heq⟩ := alone_atomic hcount
    obtain ⟨rfl, rfl⟩ := Prod.mk.inj heq
    obtain ⟨id, v, hid, hstore⟩ := alone_bind hrest
    obtain ⟨rfl, rfl⟩ := alone_chooseId hid
    obtain ⟨_, -, -, heq⟩ := alone_atomic hstore
    obtain ⟨rfl, rfl⟩ := Prod.mk.inj heq
    exact ⟨rfl, (if_neg hsome).symm⟩

/-- The part of picPostHandler that follows the parsing. -/
theorem alone_stored {json : Json} {r : Except Exception Json} (session : HttpSession)
    (h : Alone (fun i => i = m) ((Task.finished (getPicture p.host json)).andThen fun picture =>
      (addPicture p ⟨picture, m.created, m.post⟩).andThen fun pvs =>
        (createPreview p pvs).andThen fun _ => .finished (.ok .null)) s r t) :
    attempt (do storePicture (p.circumstances m) json; pure .null) (s.withSession session).api =
        (r, (t.withSession session).api) ∧
      (s.withSession session).setApi (t.withSession session).api = t.withSession session := by
  unfold storePicture
  cases hpicture : getPicture p.host json with
  | error e =>
    rw [hpicture, Task.andThen_error] at h
    obtain ⟨rfl, rfl⟩ := alone_finished h
    have hget : (ofExcept (getPicture (p.circumstances m).host json) : ApiProgram PostPicture).run
        (t.withSession session).api = .error e (t.withSession session).api := by
      rw [show getPicture (p.circumstances m).host json = .error e from hpicture]
      rfl
    exact ⟨attempt_error (bind_error (bind_error hget)), rfl⟩
  | ok picture =>
    rw [hpicture, Task.andThen_ok] at h
    have hget : (ofExcept (getPicture (p.circumstances m).host json) : ApiProgram PostPicture).run
        (s.withSession session).api = .ok picture (s.withSession session).api := by
      rw [show getPicture (p.circumstances m).host json = .ok picture from hpicture]
      rfl
    obtain ⟨pvs, u, hadd, hrest⟩ | ⟨e, rfl, hadd⟩ := alone_andThen h
    · obtain ⟨cache, hcall, rfl⟩ := alone_addPicture hadd
      have hstored : (JsonApi.onCache (PictureCaches.addPicture
          ⟨⟨picture, (p.circumstances m).created, (p.circumstances m).post⟩,
            (p.circumstances m).now, (p.circumstances m).order⟩)).run (s.withSession session).api =
              .ok pvs ⟨cache, s.previews, session⟩ := within_ok (attempt_eq_ok hcall)
      obtain ⟨_, v, hpreview, hover⟩ | ⟨e, rfl, hpreview⟩ := alone_andThen hrest
      · obtain ⟨-, rfl⟩ := alone_createPreview hpreview
        obtain ⟨rfl, rfl⟩ := alone_finished hover
        by_cases hempty : pvs.isEmpty = true
        · rw [if_pos hempty]
          have hnothing : (JsonApi.createPreview (p.circumstances m) pvs).run
              ⟨cache, s.previews, session⟩ = .ok ⟨⟩ ⟨cache, s.previews, session⟩ := by
            simp [JsonApi.createPreview, hempty]
          refine ⟨attempt_ok ?_, rfl⟩
          rw [EStateM.run_bind, bind_ok hget, bind_ok hstored, hnothing]
          rfl
        · rw [if_neg hempty]
          refine ⟨attempt_ok ?_, rfl⟩
          have hpreviewed : (JsonApi.createPreview (p.circumstances m) pvs).run
              ⟨cache, s.previews, session⟩ = .ok ⟨⟩ ⟨cache,
                PicturePreviewHandler.createPreview p.generator m.random m.time
                  (pictureViews pvs) s.previews, session⟩ := by
            simp [JsonApi.createPreview, hempty, Platform.circumstances]
          rw [EStateM.run_bind, bind_ok hget, bind_ok hstored, hpreviewed]
          rfl
      · cases (alone_createPreview hpreview).1
    · obtain ⟨cache, hcall, rfl⟩ := alone_addPicture hadd
      have hthrown : (JsonApi.onCache (PictureCaches.addPicture
          ⟨⟨picture, m.created, m.post⟩, m.now, m.order⟩)).run (s.withSession session).api =
            .error e ⟨cache, s.previews, session⟩ := within_error (attempt_eq_error hcall)
      refine ⟨attempt_error (bind_error ?_), rfl⟩
      rw [bind_ok hget]
      exact bind_error hthrown

theorem agrees_picPostHandler :
    Agrees m (picPostHandler p m req)
      (onApi (JsonApi.picPostHandler (p.circumstances m) req)) := by
  intro s t r session h
  obtain ⟨r', htask, rfl⟩ := alone_caught h
  cases hparse : parseJson p.host req.body with
  | error e =>
    rw [hparse, Task.andThen_error] at htask
    obtain ⟨rfl, rfl⟩ := alone_finished htask
    exact onApi_error (picPostHandler_refused hparse)
  | ok json =>
    rw [hparse, Task.andThen_ok] at htask
    obtain ⟨hstored, hsame⟩ := alone_stored session htask
    cases r' with
    | ok value =>
      have hrun : (JsonApi.picPostHandler (p.circumstances m) req).run (s.withSession session).api =
          .ok value (t.withSession session).api := by
        rw [picPostHandler_parsed hparse]
        exact tryCatch_ok (attempt_eq_ok hstored)
      rw [onApi_ok hrun, hsame]
      rfl
    | error e =>
      have hrun : (JsonApi.picPostHandler (p.circumstances m) req).run (s.withSession session).api =
          .error (.runtimeError e.what) (t.withSession session).api := by
        rw [picPostHandler_parsed hparse, tryCatch_error (attempt_eq_error hstored)]
        rfl
      rw [onApi_error hrun, hsame]
      rfl


/-- The listing is a single section. -/
theorem agrees_picListHandler :
    Agrees m (picListHandler p req) (onApi (PreviewLists.picListHandler req)) := by
  intro s t r session h
  have hsection : ∀ {r' : Except Exception (List Pictures)} {u : Shared},
      Alone (fun i => i = m) (onPreviews (fun _ => PreviewPolls.picListHandler req.target)) s r' u →
      ∃ previews, attempt (PreviewPolls.picListHandler req.target) s.previews = (r', previews) ∧
        u = s.setPreviews previews := fun h => alone_onPreviews h
  obtain ⟨pics, u, hlist, hover⟩ | ⟨e, rfl, hlist⟩ := alone_andThen h
  · obtain ⟨previews, hattempt, rfl⟩ := hsection hlist
    obtain ⟨rfl, rfl⟩ := alone_finished hover
    have hrun : (PreviewLists.picListHandler req).run (s.withSession session).api =
        .ok (PreviewLists.listJson pics) ⟨s.cache, previews, session⟩ := by
      unfold PreviewLists.picListHandler PreviewVisits.onPreviews
      rw [bind_ok (@within_ok _ _ _ _ _ _ _ (s.withSession session).api _ _
        (attempt_eq_ok hattempt))]
      rfl
    exact onApi_ok hrun
  · obtain ⟨previews, hattempt, rfl⟩ := hsection hlist
    have hrun : (PreviewLists.picListHandler req).run (s.withSession session).api =
        .error e ⟨s.cache, previews, session⟩ := by
      unfold PreviewLists.picListHandler PreviewVisits.onPreviews
      exact bind_error (@within_error _ _ _ _ _ _ _ (s.withSession session).api _ _
        (attempt_eq_error hattempt))
    exact onApi_error hrun

end Uninterrupted

section Destructors

variable {p : Platform} {m : Moment p} {s t : Shared} {req : Request} {mock : SamplingMock}

theorem onMock_ok {α : Type} {x : MockProgram α} {a : α} {mock : SamplingMock}
    (session : HttpSession) (h : x.run s.mock = .ok a mock) :
    (onMock x).run (s.withSession session) = .ok a ((s.setMock mock).withSession session) :=
  @within_ok _ _ _ _ _ _ _ (s.withSession session) _ _ h

theorem onMock_error {α : Type} {x : MockProgram α} {e : Escape} {mock : SamplingMock}
    (session : HttpSession) (h : x.run s.mock = .error e mock) :
    (onMock x).run (s.withSession session) = .error e ((s.setMock mock).withSession session) :=
  @within_error _ _ _ _ _ _ _ (s.withSession session) _ _ h

theorem alone_joinThread {u : Unit} (h : Alone (fun i => i = m) (joinThread p) s u t) :
    ∃ d, s.mock.destroyed = some d ∧ d.block.position = .finished ∧
      t = s.setMock { s.mock with destroyed := none } := by
  unfold joinThread at h
  cases h with
  | enter i hi hfree hrest =>
    obtain ⟨-, rfl⟩ := alone_finished hrest
    unfold CanDestroy at hfree
    cases hdestroyed : s.mock.destroyed with
    | none => simp [hdestroyed] at hfree
    | some d =>
      have hends : SamplingBlocks.enabled d .join := by simpa [hdestroyed] using hfree
      refine ⟨d, rfl, hends.2, ?_⟩
      simp [destroyStep, SamplingMock.runDestroyed, hdestroyed]

/-- The destructor is left alone only if its thread has finished before. -/
theorem alone_destroy {u : Unit} (earlier : List UInt64)
    (h : Alone (fun i => i = m) (destroy p s.mock) s u t) :
    (join earlier).run s.mock = .ok ⟨⟩ t.mock ∧ t = s.setMock t.mock := by
  unfold destroy at h
  split at h
  swap
  · rename_i hnone
    obtain ⟨-, rfl⟩ := alone_finished h
    have hfree : t.mock.destroyed = none := by simpa using hnone
    exact ⟨join_none hfree, rfl⟩
  rename_i hsome
  obtain ⟨d, hd⟩ := Option.isSome_iff_exists.mp hsome
  have hjoined : ∀ {block : SamplingBlocks.SamplingBlock}, block.position = d.block.position →
      block.position = .finished → t = s.setMock { s.mock with destroyed := none } →
      (join earlier).run s.mock = .ok ⟨⟩ t.mock ∧ t = s.setMock t.mock := by
    intro block hsame hfinished ht
    have hjoinable : SamplingJoins.Joinable earlier d.block := by
      refine Or.inl ?_
      intro hstarting
      obtain rfl := SamplingJoins.runAll_started hstarting
      rw [SamplingBlocks.runAll_nil, ← hsame, hfinished] at hstarting
      cases hstarting
    rw [join_some hd, if_pos hjoinable, ht]
    exact ⟨rfl, rfl⟩
  cases h with
  | enter i hi hfree hrest =>
    dsimp only at hrest
    split at hrest
    · rename_i hrunning
      cases hrest with
      | enter i' hi' hfree' hrest' =>
        obtain ⟨d', hd', hfinished, ht⟩ := alone_joinThread hrest'
        simp only [hd, Option.any_some] at hrunning
        simp [destroyStep, Shared.setMock, SamplingMock.runDestroyed, hd, SamplingBlocks.step,
          hrunning] at hd'
        subst hd'
        refine hjoined ?_ hfinished ht
        rfl
    · rename_i hrunning
      obtain ⟨d', hd', hfinished, ht⟩ := alone_joinThread hrest
      simp only [hd, Option.any_some] at hrunning
      simp [destroyStep, Shared.setMock, SamplingMock.runDestroyed, hd, SamplingBlocks.step,
        hrunning] at hd'
      subst hd'
      refine hjoined ?_ hfinished ht
      rfl

theorem agrees_samplingStopHandler :
    Agrees m (samplingStopHandler p req)
      (onMock (SamplingRequests.samplingStopHandler p.host m.earlier req)) := by
  intro s t r session h
  obtain ⟨r', htask, rfl⟩ := alone_caught h
  cases hid : idOf p.host req.body with
  | error e =>
    rw [hid, Task.andThen_error] at htask
    obtain ⟨rfl, rfl⟩ := alone_finished htask
    have hrun : (SamplingRequests.samplingStopHandler p.host m.earlier req).run t.mock =
        .error (.exception (stopCaught e)) t.mock := by
      unfold SamplingRequests.samplingStopHandler
      rw [EStateM.run_adaptExcept, bind_error (raise_error hid t.mock)]
      rfl
    exact within_error hrun
  | ok id =>
    rw [hid, Task.andThen_ok] at htask
    obtain ⟨mock, u, hstop, hrest⟩ := alone_bind htask
    obtain ⟨_, -, hfree, heq⟩ := alone_atomic hstop
    obtain ⟨rfl, rfl⟩ := Prod.mk.inj heq
    obtain ⟨_, v, hdestroy, hover⟩ := alone_bind hrest
    obtain ⟨rfl, rfl⟩ := alone_finished hover
    obtain ⟨hended, hframe⟩ :=
      @alone_destroy p m (s.setMock (s.mock.stop id)) t _ m.earlier hdestroy
    have hjoin : (join m.earlier).run (s.mock.stop id) = .ok ⟨⟩ t.mock := hended
    have ht : t = s.setMock t.mock := hframe
    have hrun : (stopSampling m.earlier id).run s.mock = .ok .null t.mock := by
      unfold SamplingRequests.stopSampling
      rw [bind_ok (lock_free hfree), EStateM.run_bind, EStateM.run_modify]
      simp only
      rw [bind_ok hjoin]
      rfl
    have hhandler : (SamplingRequests.samplingStopHandler p.host m.earlier req).run s.mock =
        .ok .null t.mock := by
      rw [samplingStopHandler_read hid, hrun]
    rw [onMock_ok session hhandler, ← ht]
    rfl

theorem agrees_samplingStartHandler :
    Agrees m (samplingStartHandler p req)
      (onMock (SamplingRequests.samplingStartHandler p.castInt p.host m.earlier req)) := by
  intro s t r session h
  cases hlimits : limitsOf p.castInt p.host req.body with
  | error e =>
    unfold samplingStartHandler at h
    rw [hlimits, Task.andThen_error] at h
    obtain ⟨rfl, rfl⟩ := alone_finished h
    have hrun : (SamplingRequests.samplingStartHandler p.castInt p.host m.earlier req).run t.mock =
        .error (.exception e) t.mock := by
      unfold SamplingRequests.samplingStartHandler
      exact bind_error (raise_error hlimits t.mock)
    exact within_error hrun
  | ok limits =>
    unfold samplingStartHandler at h
    rw [hlimits, Task.andThen_ok] at h
    obtain ⟨running, u, htest, hrest⟩ := alone_bind h
    obtain ⟨_, -, hfree, heq⟩ := alone_atomic htest
    obtain ⟨rfl, rfl⟩ := Prod.mk.inj heq
    split at hrest
    · rename_i hrunning
      obtain ⟨rfl, rfl⟩ := alone_finished hrest
      have hrun := @samplingStartHandler_read p.castInt p.host m.earlier req t.mock limits.1
        limits.2 hlimits
      rw [startSampling_running hfree hrunning] at hrun
      exact within_error hrun
    · rename_i hidle
      obtain ⟨mock, v, hstart, hrest⟩ := alone_bind hrest
      obtain ⟨_, -, -, heq⟩ := alone_atomic hstart
      obtain ⟨rfl, rfl⟩ := Prod.mk.inj heq
      obtain ⟨_, w, hdestroy, hreport⟩ := alone_bind hrest
      obtain ⟨_, -, -, heq⟩ := alone_atomic hreport
      obtain ⟨rfl, rfl⟩ := Prod.mk.inj heq
      obtain ⟨hended, hframe⟩ := @alone_destroy p m
        (s.setMock (s.mock.start limits.1 limits.2)) w _ m.earlier hdestroy
      have hjoin : (join m.earlier).run (s.mock.start limits.1 limits.2) = .ok ⟨⟩ w.mock := hended
      have ht : w = s.setMock w.mock := hframe
      have hrun : (startSampling m.earlier limits.1 limits.2).run s.mock =
          (raise (reported w.mock s.mock.samplingId) : MockProgram Json).run w.mock := by
        unfold SamplingRequests.startSampling
        rw [bind_ok (lock_free hfree), EStateM.run_bind, EStateM.run_get]
        simp only [hidle, Bool.false_eq_true, if_false]
        rw [EStateM.run_bind, EStateM.run_set]
        simp only
        rw [bind_ok hjoin, EStateM.run_bind, EStateM.run_get]
      have hhandler := @samplingStartHandler_read p.castInt p.host m.earlier req s.mock limits.1
        limits.2 hlimits
      rw [hrun] at hhandler
      cases hreported : reported w.mock s.mock.samplingId with
      | ok json =>
        rw [raise_ok hreported] at hhandler
        rw [onMock_ok session hhandler, ← ht]
        rfl
      | error e =>
        rw [raise_error hreported] at hhandler
        rw [onMock_error session hhandler, ← ht]
        rfl

theorem reportStatus_run (s : ServerState) :
    (reportStatus p.lexical req).run s =
      (onApi (SamplingStatus.samplingStatusHandler p.lexical s.mock req)).run s := by
  rw [reportStatus, EStateM.run_bind, EStateM.run_get]

theorem agrees_samplingStatusHandler :
    Agrees m (samplingStatusHandler p req) (Servers.samplingStatusHandler p.lexical req) := by
  intro s t r session h
  unfold samplingStatusHandler at h
  unfold Servers.samplingStatusHandler
  split at h
  · rename_i hzero
    obtain ⟨rfl, rfl⟩ := alone_finished h
    rw [if_pos hzero, reportStatus_run]
    exact onApi_error (SamplingStatus.samplingStatusHandler_zero hzero)
  · rename_i hnonzero
    rw [if_neg hnonzero]
    obtain ⟨r', htask, rfl⟩ := alone_caught h
    obtain ⟨_, -, hfree, heq⟩ := alone_atomic htask
    obtain ⟨rfl, rfl⟩ := Prod.mk.inj heq
    have hlock : (onMock lock).run (s.withSession session) = .ok ⟨⟩ (s.withSession session) :=
      within_ok (lock_free hfree)
    rw [bind_ok hlock, reportStatus_run]
    cases hlookup : s.mock.samplings.lookup (SamplingStatus.extracted p.lexical req) with
    | some block =>
      rw [SamplingMock.statusOf, hlookup]
      exact onApi_ok (SamplingStatus.samplingStatusHandler_live hnonzero hlookup)
    | none =>
      rw [SamplingMock.statusOf, hlookup]
      exact onApi_error (SamplingStatus.samplingStatusHandler_missing hnonzero hlookup)

end Destructors

section Requests

variable {p : Platform} {m : Moment p} {s t : Shared} {req : Request} {session : HttpSession}

theorem agrees_versionApiHandler :
    Agrees m (versionApiHandler p req) (onApi (OkResponses.versionApiHandler req)) := by
  intro s t r session h
  obtain ⟨rfl, rfl⟩ := alone_finished h
  rfl

/-- JsonApiRequestHandler sends what the task ends with. -/
theorem handleRequest_alone (func : Request → HandlerTask p Json)
    (func' : Request → ServerProgram Json) {r : Except Exception Response}
    (hfunc : Agrees m (func req) (func' req))
    (h : Alone (fun i => i = m) (handleRequest p func req) s r t) :
    (Servers.handleRequest p.host func' req).run (s.withSession session) =
      sent r (t.withSession session) := by
  unfold handleRequest at h
  split at h
  · rename_i hmethod
    obtain ⟨rfl, rfl⟩ := alone_finished h
    exact handleRequest_unsupported hmethod.1 hmethod.2
  · rename_i hmethod
    have hsupported : req.method = .get ∨ req.method = .post := by tauto
    obtain ⟨r', u, htask, hover⟩ := alone_bind h
    obtain ⟨rfl, rfl⟩ := alone_finished hover
    have hrun := hfunc s t r' session htask
    cases r' with
    | ok json => exact handleRequest_ok hsupported hrun
    | error e => exact handleRequest_error hsupported hrun

theorem pictureHandler_alone {r : Except Exception Response}
    (h : Alone (fun i => i = m) (pictureHandler p req) s r t) :
    (onApi (PreviewVisits.handleRequest p.lexical p.host req)).run (s.withSession session) =
      sent r (t.withSession session) := by
  unfold pictureHandler at h
  unfold PreviewVisits.handleRequest
  split at h
  · rename_i hmethod
    obtain ⟨rfl, rfl⟩ := alone_finished h
    rw [if_pos hmethod]
    exact run_apiSend _ (t.withSession session) (t.withSession session).api
  · rename_i hmethod
    rw [if_neg hmethod]
    obtain ⟨r', u, hvisit, hover⟩ := alone_bind h
    obtain ⟨previews, hattempt, rfl⟩ := alone_onPreviews hvisit
    cases r' with
    | ok res =>
      obtain ⟨rfl, rfl⟩ := alone_finished hover
      have hsend : (do JsonApi.send (← PreviewVisits.onPreviews
          (visitPreview p.lexical p.host req)) : ApiProgram PUnit).run (s.withSession session).api =
            .ok ⟨⟩ (((s.setPreviews previews).withSession session).send res).api := by
        unfold PreviewVisits.onPreviews
        rw [bind_ok (@within_ok _ _ _ _ _ _ _ (s.withSession session).api _ _
          (attempt_eq_ok hattempt))]
        rfl
      exact onApi_ok (tryCatch_ok hsend)
    | error ex =>
      obtain ⟨rfl, rfl⟩ := alone_finished hover
      have hthrown : (do JsonApi.send (← PreviewVisits.onPreviews
          (visitPreview p.lexical p.host req)) : ApiProgram PUnit).run (s.withSession session).api =
            .error ex ((s.setPreviews previews).withSession session).api := by
        unfold PreviewVisits.onPreviews
        exact bind_error (@within_error _ _ _ _ _ _ _ (s.withSession session).api _ _
          (attempt_eq_error hattempt))
      rw [onApi_run_setApi (tryCatch_error hthrown)]
      exact run_apiSend _ (s.withSession session) ((s.setPreviews previews).withSession session).api

theorem indexLoop_alone {rounds : ℕ} {path file : Bytes}
    (h : Alone (fun i => i = m) (indexLoop p rounds path) s file t) :
    (∃ accesses, t = { s with accesses := accesses }) ∧
      (StaticRequests.indexLoop m.fs rounds path).run (s.withSession session).files =
        .ok file (t.withSession session).files := by
  induction rounds generalizing path s with
  | zero =>
    cases h with
    | enter i hi hfree hrest => exact hfree.elim
  | succ rounds ih =>
    cases h with
    | enter i hi hfree hrest =>
      rw [hi] at hrest
      dsimp only at hrest
      split at hrest
      · rename_i hdirectory
        rw [StaticRequests.indexLoop_directory hdirectory]
        obtain ⟨⟨accesses, rfl⟩, hrun⟩ := ih hrest
        exact ⟨⟨accesses, rfl⟩, hrun⟩
      · rename_i hfile
        obtain ⟨rfl, rfl⟩ := alone_finished hrest
        rw [StaticRequests.indexLoop_file (Bool.eq_false_iff.mpr hfile)]
        exact ⟨⟨_, rfl⟩, rfl⟩

theorem staticHandler_alone {r : Except Exception Response}
    (h : Alone (fun i => i = m) (staticHandler p req) s r t) :
    (onFiles (StaticRequests.handleRequest m.fs p.documentRoot (p.pathMax + 2) req)).run
      (s.withSession session) = sent r (t.withSession session) := by
  unfold staticHandler at h
  rw [onFiles, EStateM.run_adaptExcept]
  unfold StaticRequests.handleRequest
  split at h
  · rename_i hmethod
    obtain ⟨rfl, rfl⟩ := alone_finished h
    rw [if_pos hmethod]
    rfl
  · rename_i hmethod
    rw [if_neg hmethod]
    split at h
    · rename_i hillegal
      obtain ⟨rfl, rfl⟩ := alone_finished h
      rw [if_pos hillegal]
      rfl
    · rename_i hlegal
      rw [if_neg hlegal]
      obtain ⟨file, u, hloop, hopen⟩ := alone_bind h
      obtain ⟨i, hi, -, heq⟩ := alone_atomic hopen
      rw [hi] at heq
      obtain ⟨rfl, rfl⟩ := Prod.mk.inj heq
      obtain ⟨⟨accesses, rfl⟩, hrun⟩ := @indexLoop_alone p m s u session _ _ _ hloop
      have hserved : (do
          let path ← StaticRequests.indexLoop m.fs (p.pathMax + 2)
            (startPath p.documentRoot req.target)
          StaticRequests.serve m.fs req path).run (s.withSession session).files =
            .ok ⟨⟩ ⟨accesses ++ [.openFile (cString file)],
              session.enqueue (answer m.fs req file)⟩ := by
        rw [bind_ok hrun, serve_run]
        rfl
      rw [within_ok hserved]
      rfl

/-- Without interruption, a handler of the server with many threads does what it
does on a server with a single one. -/
theorem serve_alone {r : Except Exception Response}
    (h : Alone (fun i => i = m) (serve p m req) s r t) :
    (Servers.serve p m req).run (s.withSession session) = sent r (t.withSession session) := by
  unfold serve routed at h
  obtain ⟨endpoint, hresolve⟩ : ∃ endpoint, resolve handlers req.target = some endpoint := by
    rw [Routes.handlers_eq, Routes.resolve_append_singleton]
    exact ⟨_, rfl⟩
  rw [hresolve, Option.getD_some] at h
  rw [Servers.serve, hresolve]
  cases endpoint with
  | version =>
    exact handleRequest_alone (versionApiHandler p)
      (fun req => onApi (OkResponses.versionApiHandler req)) agrees_versionApiHandler h
  | samplingStart =>
    exact handleRequest_alone (samplingStartHandler p)
      (fun req => onMock (SamplingRequests.samplingStartHandler p.castInt p.host m.earlier req))
      agrees_samplingStartHandler h
  | samplingStatus =>
    exact handleRequest_alone (samplingStatusHandler p) (Servers.samplingStatusHandler p.lexical)
      agrees_samplingStatusHandler h
  | samplingStop =>
    exact handleRequest_alone (samplingStopHandler p)
      (fun req => onMock (SamplingRequests.samplingStopHandler p.host m.earlier req))
      agrees_samplingStopHandler h
  | picture => exact pictureHandler_alone h
  | pictures =>
    exact handleRequest_alone (picPostHandler p m)
      (fun req => onApi (JsonApi.picPostHandler (p.circumstances m) req)) agrees_picPostHandler h
  | preview =>
    exact handleRequest_alone (picListHandler p)
      (fun req => onApi (PreviewLists.picListHandler req)) agrees_picListHandler h
  | static => exact staticHandler_alone h

/-- A server that holds what the service holds, and that nothing else has been asked. -/
def holding (service : Service) : Shared where
  cache := service.cache
  previews := service.store
  mock := SamplingMock.make
  accesses := []
  arrived := []

theorem alone_last {posts : List Post} {post : Post}
    (h : (service p.generator).Admissible (posts ++ [post]))
    (hposts : Posts p.host req post.call.picture.picture) :
    ∃ res, Alone (fun m => m = postMoment p post) (serve p (postMoment p post) req)
      (holding ((service p.generator).run posts)) (.ok res)
      (stored p post (holding ((service p.generator).run posts))) := by
  obtain ⟨-, horder, -⟩ := (Machine.admissible_append_singleton _ _ _).mp h
  exact alone_serve_post hposts horder

theorem stored_holding (posts : List Post) (post : Post) :
    (stored p post (holding ((service p.generator).run posts))).previews =
      ((service p.generator).run (posts ++ [post])).store :=
  (stored_service rfl rfl).2

def lastPost : Post := ⟨sentCall .body 0 19, none, 0⟩

theorem groupPosts_eq : groupPosts = groupPosts.dropLast ++ [lastPost] := rfl

/-- The server before the last picture of the group is posted. -/
def nearlyComplete : Shared := holding ((service bitsPlatform.generator).run groupPosts.dropLast)

theorem nearlyComplete_first : nearlyComplete.previews.pictures (decimal 1) = none := by
  decide +kernel

theorem serve_alone_post : ∃ req res,
    Posts bitsPlatform.host req lastPost.call.picture.picture ∧
    nearlyComplete.previews.pictures (decimal 1) = none ∧
    (stored bitsPlatform lastPost nearlyComplete).previews.pictures (decimal 1) ≠ none ∧
    (Servers.serve bitsPlatform (postMoment bitsPlatform lastPost) req).run
      (nearlyComplete.withSession (HttpSession.run 0)) =
        sent (.ok res)
          ((stored bitsPlatform lastPost nearlyComplete).withSession (HttpSession.run 0)) := by
  have hadmissible := admissible_groupPosts
  rw [groupPosts_eq] at hadmissible
  obtain ⟨req, hsends⟩ := exists_sent bitsPlatform.roundTrips
    (@holds_live (sentPicture .body 0 19) _ rfl rfl)
  have hposts : Posts bitsPlatform.host req lastPost.call.picture.picture :=
    posts_of_live rfl rfl (Option.some_ne_none _) hsends
  obtain ⟨res, halone⟩ := alone_last hadmissible hposts
  have hpublished : (stored bitsPlatform lastPost nearlyComplete).previews.pictures (decimal 1) ≠
      none := by
    obtain ⟨pvs, hpvs, -⟩ := Option.map_eq_some_iff.mp groupPosts_first
    rw [nearlyComplete, stored_holding, ← groupPosts_eq]
    exact Option.ne_none_iff_exists'.mpr ⟨pvs, hpvs⟩
  exact ⟨req, res, hposts, nearlyComplete_first, hpublished, serve_alone halone⟩

end Requests

end BeastServer.UninterruptedTasks
