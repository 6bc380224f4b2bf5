import BeastServer.ApiContracts
import BeastServer.SamplingJoins
import BeastServer.ServerTasks

/-!
What the handlers keep while their sections interleave.
Whatever is in the caches and in the previews has been posted by a request that
has been read. Every handler keeps this, in every order of the sections, and ends
with a response within the contract of its endpoint, in which the bytes of a
picture are those of a posted one, unless its body cannot be quoted.
-/
namespace BeastServer.ServerSafety

open ByteStrings Exceptions Programs HttpMessages JsonValues JsonParsers AnsweredRequests
open ContainedPaths (Below Inside cString_eq inside_startPath)
open OkResponses PostedPictures GroupCompletion CacheSections PicturePreviews UriRouters
open Sections ServerTasks ApiContracts Routes
open PictureCaches hiding addPicture
open PreviewVisits hiding handleRequest onPreviews
open Samplings hiding Shared step enabled
open SamplingJoins (AllSound allSound_start allSound_stop allSound_runDestroyed)
open SamplingRequests hiding samplingStartHandler samplingStopHandler
open StaticRequests hiding handleRequest send serve indexLoop record
open JsonApi hiding handleRequest send picPostHandler createPreview onCache
open Servers hiding handleRequest samplingStatusHandler handlerOf serve

section Provenance

/-- The request posts the picture. -/
def Posts (host : Host) (req : Request) (picture : PostPicture) : Prop :=
  req.target = ascii "/api/v1/realtime/preview/pictures" ∧
    (req.method = .get ∨ req.method = .post) ∧
      ∃ json, parseJson host req.body = .ok json ∧ getPicture host json = .ok picture

def Posted (host : Host) (arrived : List Request) (picture : PostPicture) : Prop :=
  ∃ req ∈ arrived, Posts host req picture

/-- The bytes of a posted picture. -/
def Traced (host : Host) (arrived : List Request) (view : PictureView) : Prop :=
  ∃ picture, Posted host arrived picture ∧ view = PictureView.ofPicture picture

/-- The cache holds the picture. -/
def Cached (cache : PictureCache) (w : PostPictureWrapper) : Prop :=
  (∃ id, cache.faceCaches id = some w) ∨
    ∃ id lines i, cache.bodyCaches id = some lines ∧ w ∈ lines i

/-- Whatever is stored has been posted, under an id that can be written, no file
outside of the document root has been touched, and the samplings count correctly. -/
structure Sourced (p : Platform) (s : Shared) : Prop where
  cached : ∀ w, Cached s.cache w → Posted p.host s.arrived w.picture
  ids : AsciiIds s.previews
  views : ∀ id pvs, s.previews.pictures id = some pvs →
    ∀ view ∈ pvs.snaps ++ pvs.tracks, Traced p.host s.arrived view
  finite : ∃ keys, Supported keys s.cache
  contained : p.documentRoot ≠ [] → ∀ access ∈ s.accesses, Below p.documentRoot access.path
  sound : AllSound s.mock

/-- Requests keep arriving, but not in a section of a handler. -/
def agreement (p : Platform) : Agreement Shared where
  invariant := Sourced p
  may s t := t.arrived = s.arrived
  later s t := s.arrived <+: t.arrived
  refl s := List.prefix_refl s.arrived
  trans := List.IsPrefix.trans
  later_of_may h := by rw [h]

variable {host : Host} {p : Platform} {s t : Shared} {cache : PictureCache}
  {w picture : PostPictureWrapper}

/-- A request posts at most one picture. -/
theorem posts_unique {req : Request} {picture other : PostPicture}
    (h : Posts host req picture) (hother : Posts host req other) : picture = other := by
  obtain ⟨-, -, json, hparse, hpicture⟩ := h
  obtain ⟨-, -, json', hparse', hpicture'⟩ := hother
  obtain rfl := Except.ok.inj (hparse.symm.trans hparse')
  exact Except.ok.inj (hpicture.symm.trans hpicture')

theorem posted_later {picture : PostPicture} (h : Posted p.host s.arrived picture)
    (hlater : (agreement p).later s t) : Posted p.host t.arrived picture := by
  obtain ⟨req, hmem, hposts⟩ := h
  exact ⟨req, hlater.subset hmem, hposts⟩

theorem traced_later {view : PictureView} (h : Traced p.host s.arrived view)
    (hlater : (agreement p).later s t) : Traced p.host t.arrived view := by
  obtain ⟨picture, hposted, rfl⟩ := h
  exact ⟨picture, posted_later hposted hlater, rfl⟩

theorem cached_cleanup {now : ℤ} (h : Cached (cleanup now cache) w) : Cached cache w := by
  rcases h with ⟨id, hface⟩ | ⟨id, lines, i, hbody, hmem⟩
  · exact Or.inl ⟨id, (cleanup_face.mp hface).1⟩
  · obtain ⟨before, hbefore, rfl, -⟩ := cleanup_body.mp hbody
    exact Or.inr ⟨id, before, i, hbefore, (mem_removePictureExpired.mp hmem).1⟩

theorem cached_inserted (h : Cached (inserted picture cache) w) : Cached cache w ∨ w = picture := by
  rcases h with ⟨id, hface⟩ | ⟨id, lines, i, hbody, hmem⟩
  · rw [inserted_face] at hface
    split at hface
    · exact Or.inr (Option.some.inj hface).symm
    · exact Or.inl (Or.inl ⟨id, hface⟩)
  · rw [inserted_body] at hbody
    split at hbody
    · obtain rfl := Option.some.inj hbody
      rcases mem_addToLine.mp hmem with hold | ⟨rfl, -⟩
      · obtain ⟨before, hbefore, hmem'⟩ := mem_linesOf hold
        exact Or.inl (Or.inr ⟨id, before, i, hbefore, hmem'⟩)
      · exact Or.inr rfl
    · exact Or.inl (Or.inr ⟨id, lines, i, hbody, hmem⟩)

theorem cached_eraseAll {ids : List ObjectId} (h : Cached (eraseAll ids cache) w) :
    Cached cache w := by
  rcases h with ⟨id, hface⟩ | ⟨id, lines, i, hbody, hmem⟩
  · exact Or.inl ⟨id, (face_of_eraseAll hface).1⟩
  · exact Or.inr ⟨id, lines, i, (body_of_eraseAll hbody).1, hmem⟩

theorem cached_handedOver {order : List ObjectId} (h : w ∈ handedOver cache order) :
    Cached cache w := by
  obtain ⟨id, -, hview⟩ := List.mem_flatMap.mp h
  rcases mem_objectViews hview with hface | ⟨lines, i, hbody, hmem⟩
  · exact Or.inl ⟨id, hface⟩
  · exact Or.inr ⟨id, lines, i, hbody, hmem⟩

/-- What leaves caches, previews and files alone. -/
theorem keeps_frame (hsourced : Sourced p s) (hcache : t.cache = s.cache)
    (hpictures : t.previews.pictures = s.previews.pictures) (harrived : t.arrived = s.arrived)
    (haccesses : t.accesses = s.accesses) (hsound : AllSound t.mock) :
    (agreement p).Keeps s t := by
  refine ⟨⟨?_, ?_, ?_, ?_, ?_, hsound⟩, harrived⟩
  · rw [hcache, harrived]
    exact hsourced.cached
  · intro id pvs h
    rw [hpictures] at h
    exact hsourced.ids id pvs h
  · rw [hpictures, harrived]
    exact hsourced.views
  · rw [hcache]
    exact hsourced.finite
  · rw [haccesses]
    exact hsourced.contained

theorem keeps_setCache (hsourced : Sourced p s)
    (hcached : ∀ w, Cached cache w → Posted p.host s.arrived w.picture)
    (hfinite : ∃ keys, Supported keys cache) : (agreement p).Keeps s (s.setCache cache) :=
  ⟨⟨hcached, hsourced.ids, hsourced.views, hfinite, hsourced.contained, hsourced.sound⟩, rfl⟩

theorem keeps_setPreviews {previews : PicturePreviewHandler} (hsourced : Sourced p s)
    (hids : AsciiIds previews)
    (hviews : ∀ id pvs, previews.pictures id = some pvs →
      ∀ view ∈ pvs.snaps ++ pvs.tracks, Traced p.host s.arrived view) :
    (agreement p).Keeps s (s.setPreviews previews) :=
  ⟨⟨hsourced.cached, hids, hviews, hsourced.finite, hsourced.contained, hsourced.sound⟩, rfl⟩

theorem keeps_record {access : StaticRequests.Access} (hsourced : Sourced p s)
    (haccess : p.documentRoot ≠ [] → Below p.documentRoot access.path) :
    (agreement p).Keeps s (s.record access) := by
  refine ⟨⟨hsourced.cached, hsourced.ids, hsourced.views, hsourced.finite, ?_,
    hsourced.sound⟩, rfl⟩
  intro hne other hother
  rcases List.mem_append.mp hother with hold | hnew
  · exact hsourced.contained hne other hold
  · rw [List.mem_singleton.mp hnew]
    exact haccess hne

end Provenance

section Pictures

variable {p : Platform} {α : Type} {s : Shared} {req : Request}

/-- A section on the cache. -/
theorem safe_onCache {free : Moment p → Shared → Prop} {x : Moment p → CacheProgram α}
    {Q : Shared → Except Exception α → Prop}
    (h : ∀ m t, (agreement p).later s t → Sourced p t → free m t →
      (agreement p).Keeps t (t.setCache (attempt (x m) t.cache).2) ∧
        ∀ u, (agreement p).later t u → Q u (attempt (x m) t.cache).1) :
    Safe (agreement p) Q s
      (execute free (fun m => within Shared.cache Shared.setCache (x m))) := by
  apply safe_atomic
  intro m t hlater hsourced hfree
  rw [attempt_within]
  exact h m t hlater hsourced hfree

/-- The cache has a place for the picture. -/
def Storable (picture : PostPicture) : Prop :=
  picture.objectType = .face ∨ picture.cameraId.toNat < cacheLines

/-- The pictures that are handed over have been posted; a refusal can be written. -/
def PvsPosted (host : Host) (picture : PostPicture) (s : Shared) : Except Exception Pvs → Prop
  | .ok pvs => Storable picture ∧ ∀ w ∈ pvs, Posted host s.arrived w.picture
  | .error e => ¬ Storable picture ∧ Plain e

theorem safe_addPicture {picture : PostPictureWrapper}
    (h : Posted p.host s.arrived picture.picture) :
    Safe (agreement p) (PvsPosted p.host picture.picture) s (addPicture p picture) := by
  have hcleanup : Safe (agreement p) (fun _ r => r = .ok ⟨⟩) s
      (onCache (fun m : Moment p => modify (cleanup m.now))) := by
    apply safe_onCache
    intro m t _ hsourced _
    have hrun : attempt (modify (cleanup m.now) : CacheProgram PUnit) t.cache =
        (.ok ⟨⟩, cleanup m.now t.cache) := rfl
    rw [hrun]
    refine ⟨keeps_setCache hsourced ?_ ?_, fun _ _ => rfl⟩
    · exact fun w hw => hsourced.cached w (cached_cleanup hw)
    · obtain ⟨keys, hkeys⟩ := hsourced.finite
      exact ⟨keys, supported_cleanup hkeys⟩
  apply safe_andThen hcleanup
  swap
  · intro t e herror
    cases herror t ((agreement p).refl t)
  intro t _ hlater _
  have hposted := posted_later h hlater
  have hinsert : Safe (agreement p)
      (fun _ (r : Except Exception PUnit) => r = .ok ⟨⟩ ∧ Storable picture.picture ∨
        ∃ e, r = .error e ∧ ¬ Storable picture.picture ∧ Plain e) t
      (onCache (fun _ : Moment p => addNewPic picture)) := by
    apply safe_onCache
    intro m u hu hsourced _
    have hkeeps : (agreement p).Keeps u (u.setCache (inserted picture u.cache)) := by
      apply keeps_setCache hsourced
      · intro w hw
        rcases cached_inserted hw with hold | rfl
        · exact hsourced.cached w hold
        · exact posted_later hposted hu
      · obtain ⟨keys, hkeys⟩ := hsourced.finite
        exact ⟨_, supported_inserted hkeys⟩
    by_cases haccepted : Accepted picture
    · rw [attempt_ok (addNewPic_run haccepted)]
      exact ⟨hkeeps, fun _ _ => Or.inl ⟨rfl, haccepted⟩⟩
    · rw [attempt_error (addNewPic_throws haccepted)]
      exact ⟨hkeeps, fun _ _ => Or.inr ⟨_, rfl, haccepted, plain_arrayAt _ _⟩⟩
  apply safe_andThen hinsert
  swap
  · intro u e herror
    rcases herror u ((agreement p).refl u) with ⟨hok, -⟩ | ⟨e', he, hrefused⟩
    · cases hok
    · obtain rfl := Except.error.inj he
      exact hrefused
  intro u _ _ hok
  have hstorable : Storable picture.picture := by
    rcases hok with ⟨-, hstorable⟩ | ⟨e, he, -⟩
    · exact hstorable
    · cases he
  apply safe_onCache
  intro m v _ hsourced horder
  rw [attempt_ok (process_run m.order horder)]
  refine ⟨keeps_setCache hsourced ?_ ?_, ?_⟩
  · exact fun w hw => hsourced.cached w (cached_eraseAll hw)
  · obtain ⟨keys, hkeys⟩ := hsourced.finite
    exact ⟨keys, supported_eraseAll _ hkeys⟩
  · intro v' hv'
    exact ⟨hstorable, fun w hw => posted_later (hsourced.cached w (cached_handedOver hw)) hv'⟩

theorem safe_chooseId {random : Option Uuid} :
    Safe (agreement p) (fun _ id => IsAscii id) s (chooseId p random) := by
  have hmade : ∀ random seq, IsAscii (PicturePreviewHandler.makeId p.generator random seq) :=
    fun random seq => PreviewLists.isAscii_made ⟨p.generator, random, seq, rfl⟩
  unfold chooseId
  cases random with
  | some uuid => exact safe_finished (fun _ _ => hmade (some uuid) 0)
  | none =>
    have hparsed : Safe (agreement p) (fun _ _ => True) s
        (Task.atomic Always (fun (_ : Moment p) s =>
          (p.generator.parse (decimal s.previews.seq.toNat), s))) := by
      apply safe_atomic
      intro m t _ hsourced _
      exact ⟨⟨hsourced, rfl⟩, fun _ _ => trivial⟩
    apply safe_bind hparsed
    intro t r _ _
    cases r with
    | some uuid => exact safe_finished (fun _ _ => hmade (some uuid) 0)
    | none =>
      apply safe_atomic
      intro m u _ hsourced _
      exact ⟨⟨hsourced, rfl⟩, fun _ _ => isAscii_decimal _⟩

theorem safe_createPreview {pvs : Pvs} (h : ∀ w ∈ pvs, Posted p.host s.arrived w.picture) :
    Safe (agreement p) (fun _ r => r = .ok ⟨⟩) s (createPreview p pvs) := by
  unfold createPreview
  split
  · exact safe_finished (fun _ _ => rfl)
  have hcount : Safe (agreement p) (fun _ _ => True) s
      (Task.atomic Always (fun (m : Moment p) s =>
        ((m.time, m.random), s.setPreviews (PicturePreviewHandler.nextSeq s.previews)))) := by
    apply safe_atomic
    intro m t _ hsourced _
    exact ⟨keeps_frame hsourced rfl rfl rfl rfl hsourced.sound, fun _ _ => trivial⟩
  apply safe_bind hcount
  intro t now ht _
  apply safe_bind safe_chooseId
  intro u id hu hascii
  apply safe_atomic
  intro m v hv hsourced _
  refine ⟨keeps_setPreviews hsourced ?_ ?_, fun _ _ => rfl⟩
  · intro j pictures hpictures
    rcases PreviewStores.store_pictures _ _ hpictures with hold | rfl
    · exact hsourced.ids j pictures hold
    · rw [Pictures.make_eq]
      exact hascii
  · intro j pictures hpictures
    rcases PreviewStores.store_pictures _ _ hpictures with hold | rfl
    · exact hsourced.views j pictures hold
    · intro view hview
      rw [Pictures.make_eq, List.take_append_drop] at hview
      obtain ⟨w, hw, rfl⟩ := List.mem_map.mp hview
      have hlater := (agreement p).trans ht ((agreement p).trans hu hv)
      exact ⟨w.picture, posted_later (h w hw) hlater, rfl⟩

end Pictures

section Functions

variable {p : Platform} {m : Moment p} {s : Shared} {req : Request}

/-- What the function of an endpoint may end with. -/
def Concluded (req : Request) (unreadable : Prop) : Except Exception Json → Prop
  | .ok json => Writable json ∧ ¬ unreadable
  | .error e => Utf8.WellFormed (caughtText req e) ↔ ¬ unreadable

theorem safe_caught {α : Type} {task : HandlerTask p α} {clauses : Exception → Exception}
    {Q Q' : Shared → Except Exception α → Prop} (h : Safe (agreement p) Q s task)
    (hq : ∀ t r, (∀ u, (agreement p).later t u → Q u r) → Q' t (r.mapError clauses)) :
    Safe (agreement p) Q' s (caught clauses task) :=
  safe_map h hq

/-- What storing a picture may end with. -/
def Stored (picture : PostPicture) : Except Exception Json → Prop
  | .ok json => json = .null ∧ Storable picture
  | .error e => ¬ Storable picture ∧ Plain e

theorem safe_storePicture {picture : PostPictureWrapper}
    (h : Posted p.host s.arrived picture.picture) :
    Safe (agreement p) (fun _ => Stored picture.picture) s
      ((addPicture p picture).andThen fun pvs =>
        (createPreview p pvs).andThen fun _ => .finished (.ok .null)) := by
  apply safe_andThen (safe_addPicture h)
  swap
  · exact fun t e herror => herror t ((agreement p).refl t)
  intro t pvs _ hpvs
  apply safe_andThen (safe_createPreview hpvs.2)
  · exact fun _ _ _ _ => safe_finished (fun _ _ => ⟨rfl, hpvs.1⟩)
  · intro u e herror
    cases herror u ((agreement p).refl u)

theorem safe_picPostHandler (hreq : req ∈ s.arrived)
    (htarget : req.target = ascii "/api/v1/realtime/preview/pictures")
    (hmethod : req.method = .get ∨ req.method = .post) :
    Safe (agreement p) (fun _ => Concluded req (RefusedUnreadable p.host req.body)) s
      (picPostHandler p m req) := by
  unfold picPostHandler
  cases hparse : parseJson p.host req.body with
  | error e =>
    rw [Task.andThen_error]
    exact safe_finished (fun _ _ => parseJson_readable hparse)
  | ok json =>
    have hreadable := not_refused_of_parsed hparse
    rw [Task.andThen_ok]
    cases hpicture : getPicture p.host json with
    | error e =>
      rw [Task.andThen_error]
      exact safe_finished (fun _ _ => iff_of_true
        (wellFormed_of_plain (plain_getPicture hpicture)) hreadable)
    | ok picture =>
      rw [Task.andThen_ok]
      have hposted : Posted p.host s.arrived picture :=
        ⟨req, hreq, htarget, hmethod, json, hparse, hpicture⟩
      apply safe_caught (safe_storePicture hposted)
      intro t r hr
      have hstored := hr t ((agreement p).refl t)
      cases r with
      | ok json =>
        obtain ⟨rfl, -⟩ := hstored
        exact ⟨.null, hreadable⟩
      | error e => exact iff_of_true (wellFormed_of_plain hstored.2) hreadable

/-- A picture that is posted is taken exactly if the cache has a place for it. -/
theorem safe_picPostHandler_posts {picture : PostPicture} (hreq : req ∈ s.arrived)
    (hposts : Posts p.host req picture) :
    Safe (agreement p) (fun _ r => r = .ok .null ∧ Storable picture ∨
      ∃ text, r = .error (.runtimeError text) ∧ ¬ Storable picture) s
      (picPostHandler p m req) := by
  have hposted : Posted p.host s.arrived picture := ⟨req, hreq, hposts⟩
  obtain ⟨-, -, json, hparse, hpicture⟩ := hposts
  unfold picPostHandler
  rw [hparse, Task.andThen_ok, hpicture, Task.andThen_ok]
  apply safe_caught (safe_storePicture hposted)
  intro t r hr
  have hstored := hr t ((agreement p).refl t)
  cases r with
  | ok json =>
    obtain ⟨rfl, hstorable⟩ := hstored
    exact Or.inl ⟨rfl, hstorable⟩
  | error e => exact Or.inr ⟨e.what, rfl, hstored.1⟩

theorem safe_picListHandler :
    Safe (agreement p) (fun _ => Concluded req False) s (picListHandler p req) := by
  have hlist : Safe (agreement p) (fun _ r =>
      (∃ pics : List Pictures, r = .ok pics ∧ ∀ pvs ∈ pics, IsAscii pvs.uuid) ∨
        r = .error .mapAt) s
      (onPreviews (fun _ : Moment p => PreviewPolls.picListHandler req.target)) := by
    apply safe_atomic
    intro m t _ hsourced _
    rw [attempt_within]
    rcases listPreview_cases ((PreviewPolls.afterLast PreviewPolls.lookup req.target).getD [])
      PreviewPolls.returnLimit t.previews with ⟨pics, hrun, hstored⟩ | hrun
    · have hlisted : (PreviewPolls.picListHandler req.target).run t.previews =
          .ok pics t.previews := hrun
      rw [attempt_ok hlisted]
      refine ⟨keeps_frame hsourced rfl rfl rfl rfl hsourced.sound,
        fun _ _ => Or.inl ⟨pics, rfl, ?_⟩⟩
      intro pvs hpvs
      obtain ⟨id, hid⟩ := hstored pvs hpvs
      exact hsourced.ids id pvs hid
    · have hmissing : (PreviewPolls.picListHandler req.target).run t.previews =
          .error .mapAt t.previews := hrun
      rw [attempt_error hmissing]
      exact ⟨keeps_frame hsourced rfl rfl rfl rfl hsourced.sound, fun _ _ => Or.inr rfl⟩
  apply safe_andThen hlist
  · intro t pics _ hpics
    rcases hpics with ⟨pics', heq, hascii⟩ | heq
    · obtain rfl := Except.ok.inj heq
      exact safe_finished (fun _ _ => ⟨writable_listJson hascii, not_false⟩)
    · cases heq
  · intro t e herror
    rcases herror t ((agreement p).refl t) with ⟨pics, heq, -⟩ | heq
    · cases heq
    · obtain rfl := Except.error.inj heq
      exact iff_of_true (wellFormed_of_plain plain_mapAt) not_false

/-- A section that leaves caches and previews alone. -/
theorem safe_frame {α : Type} {free : Moment p → Shared → Prop} {x : Moment p → Shared → α × Shared}
    {Q : Shared → α → Prop}
    (hframe : ∀ m t, (x m t).2.cache = t.cache ∧
      (x m t).2.previews.pictures = t.previews.pictures ∧ (x m t).2.arrived = t.arrived ∧
        (x m t).2.accesses = t.accesses)
    (hsound : ∀ m t, AllSound t.mock → AllSound (x m t).2.mock) (h : ∀ m t u, Q u (x m t).1) :
    Safe (agreement p) Q s (Task.atomic free x) := by
  apply safe_atomic
  intro m t _ hsourced _
  obtain ⟨hcache, hpictures, harrived, haccesses⟩ := hframe m t
  exact ⟨keeps_frame hsourced hcache hpictures harrived haccesses (hsound m t hsourced.sound),
    fun u _ => h m t u⟩

theorem safe_destroyStep {Q : Shared → Unit → Prop} (event : SamplingBlocks.Event)
    {rest : Moment p → Shared → Task Shared (Moment p) Unit}
    (h : ∀ m t u, Safe (agreement p) Q u (rest m t)) :
    Safe (agreement p) Q s
      (.enter (CanDestroy p event) (fun _ => destroyStep event) rest) :=
  .enter (fun _ _ _ hsourced _ => keeps_frame hsourced rfl rfl rfl rfl
      (allSound_runDestroyed event hsourced.sound))
    (fun m t _ _ _ => h m t _)

theorem safe_destroy (mock : SamplingMock) :
    Safe (agreement p) (fun _ _ => True) s (destroy p mock) := by
  have hjoin : ∀ u, Safe (agreement p) (fun _ _ => True) u (joinThread p) :=
    fun u => safe_destroyStep .join (fun _ _ _ => safe_finished (fun _ _ => trivial))
  unfold destroy
  split
  · apply safe_destroyStep .readRunning
    intro m t u
    split
    · exact safe_destroyStep .clearRunning (fun _ _ v => hjoin v)
    · exact hjoin u
  · exact safe_finished (fun _ _ => trivial)

theorem safe_samplingStartHandler (htarget : IsAscii req.target) :
    Safe (agreement p)
      (fun _ => Concluded req (req.body ≠ [] ∧ RefusedUnreadable p.host req.body)) s
      (samplingStartHandler p req) := by
  unfold samplingStartHandler
  cases hlimits : limitsOf p.castInt p.host req.body with
  | error e =>
    rw [Task.andThen_error]
    exact safe_finished (fun _ _ => limitsOf_text hlimits)
  | ok limits =>
    have hreadable : ¬ (req.body ≠ [] ∧ RefusedUnreadable p.host req.body) :=
      fun h => limitsOf_ok hlimits h.1 h.2
    rw [Task.andThen_ok]
    have htest : Safe (agreement p) (fun _ _ => True) s
        (Task.atomic (Free p) (fun _ s => (s.mock.isRunning, s))) :=
      safe_frame (fun _ _ => ⟨rfl, rfl, rfl, rfl⟩) (fun _ _ hsound => hsound)
        (fun _ _ _ => trivial)
    apply safe_bind htest
    intro t running _ _
    split
    · have hrunning : IsAscii (ascii "already running") := by decide
      exact safe_finished (fun _ _ => iff_of_true (Utf8.wellFormed_of_isAscii hrunning) hreadable)
    have hstart : Safe (agreement p) (fun _ _ => True) t
        (Task.atomic (Free p) (fun _ s =>
          (s.mock, s.setMock (s.mock.start limits.1 limits.2)))) :=
      safe_frame (fun _ _ => ⟨rfl, rfl, rfl, rfl⟩)
        (fun _ _ hsound => allSound_start limits.1 limits.2 hsound) (fun _ _ _ => trivial)
    apply safe_bind hstart
    intro u mock _ _
    apply safe_bind (safe_destroy _)
    intro v _ _ _
    apply safe_frame (fun _ _ => ⟨rfl, rfl, rfl, rfl⟩) (fun _ _ hsound => hsound)
    intro _ w _
    unfold reported
    rw [SamplingMock.statusOf]
    cases w.mock.samplings.lookup mock.samplingId with
    | some block => exact ⟨writable_status block false, hreadable⟩
    | none =>
      have hmissing : IsAscii (req.target ++ ascii " not found") := by
        rw [isAscii_append]
        exact ⟨htarget, by decide⟩
      exact iff_of_true (Utf8.wellFormed_of_isAscii hmissing) hreadable

theorem safe_samplingStopHandler :
    Safe (agreement p) (fun _ => Concluded req (RefusedUnreadable p.host req.body)) s
      (samplingStopHandler p req) := by
  unfold samplingStopHandler
  cases hid : idOf p.host req.body with
  | error e =>
    rw [Task.andThen_error]
    exact safe_finished (fun _ _ => idOf_text hid)
  | ok id =>
    rw [Task.andThen_ok]
    have hstopped : Safe (agreement p) (fun _ (r : Except Exception Json) => r = .ok .null) s
        ((Task.atomic (Free p) (fun _ s => (s.mock.stop id, s.setMock (s.mock.stop id)))).bind
          fun mock => (destroy p mock).bind fun _ => .finished (.ok .null)) := by
      have hstop : Safe (agreement p) (fun _ _ => True) s
          (Task.atomic (Free p) (fun _ s => (s.mock.stop id, s.setMock (s.mock.stop id)))) :=
        safe_frame (fun _ _ => ⟨rfl, rfl, rfl, rfl⟩)
          (fun _ _ hsound => allSound_stop id hsound) (fun _ _ _ => trivial)
      apply safe_bind hstop
      intro t mock _ _
      apply safe_bind (safe_destroy mock)
      exact fun _ _ _ _ => safe_finished (fun _ _ => rfl)
    apply safe_caught hstopped
    intro t r hr
    obtain rfl := hr t ((agreement p).refl t)
    exact ⟨.null, idOf_ok hid⟩

theorem safe_samplingStatusHandler (htarget : IsAscii req.target) :
    Safe (agreement p) (fun _ => Concluded req False) s (samplingStatusHandler p req) := by
  unfold samplingStatusHandler
  split
  · have hinvalid : IsAscii (ascii "invalid id format") := by decide
    exact safe_finished (fun _ _ => iff_of_true (Utf8.wellFormed_of_isAscii hinvalid) not_false)
  have hstatus : Safe (agreement p) (fun _ r =>
      (∃ block, r = .ok (getStatus block true)) ∨ r = .error .mapAt) s
      (Task.atomic (Free p) (fun _ s =>
        (s.mock.statusOf (SamplingStatus.extracted p.lexical req) true, s))) := by
    apply safe_frame (fun _ _ => ⟨rfl, rfl, rfl, rfl⟩) (fun _ _ hsound => hsound)
    intro _ t _
    unfold SamplingMock.statusOf
    cases t.mock.samplings.lookup (SamplingStatus.extracted p.lexical req) with
    | some block => exact Or.inl ⟨block, rfl⟩
    | none => exact Or.inr rfl
  apply safe_caught hstatus
  intro t r hr
  rcases hr t ((agreement p).refl t) with ⟨block, rfl⟩ | rfl
  · exact ⟨writable_status block true, not_false⟩
  · have hmissing : IsAscii (req.target ++ ascii " not found") := by
      rw [isAscii_append]
      exact ⟨htarget, by decide⟩
    exact iff_of_true (Utf8.wellFormed_of_isAscii hmissing) not_false

end Functions

section Handlers

variable {p : Platform} {m : Moment p} {s : Shared} {req : Request} {endpoint : Endpoint}

/-- The bytes of a posted picture, or none. -/
def Shown (host : Host) (arrived : List Request) (body : Bytes) : Prop :=
  body = [] ∨ ∃ view, Traced host arrived view ∧ body = view.data

/-- What a handler may end with. -/
def Responded (p : Platform) (req : Request) (endpoint : Endpoint) (s : Shared) :
    Except Exception Response → Prop
  | .ok res => ContractAt p.host req endpoint res ∧ ¬ UnreadableAt p.host req endpoint ∧
      (endpoint = .picture → res.status = 200 → Shown p.host s.arrived res.body)
  | .error _ => UnreadableAt p.host req endpoint

/-- The status says whether a picture has been taken. -/
def Judged (host : Host) (req : Request) : Except Exception Response → Prop
  | .ok res => ∀ picture, Posts host req picture → (res.status = 200 ↔ Storable picture)
  | .error _ => True

theorem shown_later {t : Shared} {body : Bytes} (h : Shown p.host s.arrived body)
    (hlater : (agreement p).later s t) : Shown p.host t.arrived body := by
  rcases h with hnone | ⟨view, htraced, hbody⟩
  · exact Or.inl hnone
  · exact Or.inr ⟨view, traced_later htraced hlater, hbody⟩

/-- The response to what a function ends with. -/
theorem responded_of_concluded {unreadable : Prop} {r : Except Exception Json}
    (hcontract : ContractAt p.host req endpoint = Contract p.host req)
    (hpicture : endpoint ≠ .picture) (hmethod : req.method = .get ∨ req.method = .post)
    (hunreadable : UnreadableAt p.host req endpoint ↔
      (req.method = .get ∨ req.method = .post) ∧ unreadable)
    (h : Concluded req unreadable r) : Responded p req endpoint s (responseTo p.host req r) := by
  have hanswered : ∀ {res : Response}, Contract p.host req res → ¬ unreadable →
      Responded p req endpoint s (.ok res) := by
    intro res hres hreadable
    refine ⟨?_, ?_, fun heq => absurd heq hpicture⟩
    · rw [hcontract]
      exact hres
    · rw [hunreadable]
      exact fun h => hreadable h.2
  cases r with
  | ok json =>
    obtain ⟨res, hres, hkept⟩ := @responseTo_returned p.host req json p.roundTrips h.1
    rw [hres]
    exact hanswered hkept h.2
  | error e =>
    have hiff := @caughtResponse_isOk p.host req e
    have htext : Utf8.WellFormed (caughtText req e) ↔ ¬ unreadable := h
    rw [htext] at hiff
    show Responded p req endpoint s (caughtResponse p.host req e)
    cases hres : caughtResponse p.host req e with
    | ok res =>
      rw [hres] at hiff
      exact hanswered (contract_caught p.roundTrips hres) (hiff.mp rfl)
    | error e' =>
      rw [hres] at hiff
      refine hunreadable.mpr ⟨hmethod, ?_⟩
      by_contra hreadable
      cases hiff.mpr hreadable

theorem safe_handleRequest {func : Request → HandlerTask p Json} {unreadable : Prop}
    (hcontract : ContractAt p.host req endpoint = Contract p.host req)
    (hpicture : endpoint ≠ .picture)
    (hunreadable : UnreadableAt p.host req endpoint ↔
      (req.method = .get ∨ req.method = .post) ∧ unreadable)
    (h : req.method = .get ∨ req.method = .post →
      Safe (agreement p) (fun _ => Concluded req unreadable) s (func req)) :
    Safe (agreement p) (Responded p req endpoint) s (handleRequest p func req) := by
  unfold handleRequest
  split
  · rename_i hmethod
    apply safe_finished
    intro t _
    have hunsupported : IsAscii (ascii "Unsupported method.") := by decide
    obtain ⟨res, hres, -⟩ := @errorResponse_ok p.host req 400 _
      (Utf8.wellFormed_of_isAscii hunsupported)
    have hbad : createJsonBadRequest p.host req (ascii "Unsupported method.") = .ok res := hres
    rw [hbad]
    refine ⟨?_, ?_, fun heq => absurd heq hpicture⟩
    · rw [hcontract]
      exact contract_error p.roundTrips (by decide) hres
    · rw [hunreadable]
      tauto
  · rename_i hmethod
    have hsupported : req.method = .get ∨ req.method = .post := by tauto
    apply safe_map (h hsupported)
    intro t r hr
    exact responded_of_concluded hcontract hpicture hsupported hunreadable
      (hr t ((agreement p).refl t))

/-- A picture of a preview is one of its views, or there is none. -/
theorem shown_pictureOf {arrived : List Request} {pvs : Pictures} {name : Bytes} {index : ℕ}
    (h : ∀ view ∈ pvs.snaps ++ pvs.tracks, Traced p.host arrived view) :
    Shown p.host arrived (pictureOf pvs name index).data := by
  have hgetD : ∀ views : List PictureView, (∀ view ∈ views, Traced p.host arrived view) →
      Shown p.host arrived (views.getD index ⟨[]⟩).data := by
    intro views hviews
    by_cases hindex : index < views.length
    · rw [List.getD_eq_getElem views _ hindex]
      exact Or.inr ⟨_, hviews _ (List.getElem_mem hindex), rfl⟩
    · rw [List.getD_eq_default views _ (by omega)]
      exact Or.inl rfl
  unfold pictureOf
  split
  · exact hgetD pvs.snaps (fun view hview => h view (List.mem_append_left _ hview))
  · exact hgetD pvs.tracks (fun view hview => h view (List.mem_append_right _ hview))

theorem safe_pictureHandler (h : Routed req.target) :
    Safe (agreement p) (Responded p req .picture) s (pictureHandler p req) := by
  unfold pictureHandler
  split
  · apply safe_finished
    intro t _
    have hunsupported : IsAscii (ascii "Unsupported method.") := by decide
    obtain ⟨res, hres, hstatus, -⟩ := @errorResponse_ok p.host req 400 _
      (Utf8.wellFormed_of_isAscii hunsupported)
    have hbad : createJsonBadRequest p.host req (ascii "Unsupported method.") = .ok res := hres
    rw [hbad]
    refine ⟨contract_picture p.roundTrips (by decide) hres, not_false, ?_⟩
    intro _ hok
    rw [hstatus] at hok
    cases hok
  obtain ⟨uuid, name, index, hrouted⟩ := InventedPictures.routedTo_of_routed h
  have hvisit : Safe (agreement p) (fun t r => ∃ res, r = .ok res ∧
      ContractAt p.host req .picture res ∧
        (res.status = 200 → Shown p.host t.arrived res.body)) s
      (onPreviews (fun _ : Moment p => visitPreview p.lexical p.host req)) := by
    apply safe_atomic
    intro m t _ hsourced _
    rw [attempt_within]
    cases hentry : t.previews.pictures uuid with
    | none =>
      obtain ⟨res, hres, hstatus⟩ := @InventedPictures.createJsonNotFound_ok p.host req
        hrouted.isAscii
      have hrun : (visitPreview p.lexical p.host req).run t.previews = .ok res t.previews :=
        (InventedPictures.visitPreview_routed hrouted).trans
          (answerVisit_missing (getPicture_throws hrouted.kind hentry) hres)
      rw [attempt_ok hrun]
      refine ⟨keeps_frame hsourced rfl rfl rfl rfl hsourced.sound, fun _ _ => ⟨res, rfl, ?_, ?_⟩⟩
      · exact contract_picture p.roundTrips (by decide) hres
      · intro hok
        rw [hstatus] at hok
        cases hok
    | some pvs =>
      have hrun : (visitPreview p.lexical p.host req).run t.previews =
          .ok (pictureResponse req (pictureOf pvs name index)) t.previews :=
        (InventedPictures.visitPreview_routed hrouted).trans
          (answerVisit_found (getPicture_run hrouted.kind hentry))
      rw [attempt_ok hrun]
      refine ⟨keeps_frame hsourced rfl rfl rfl rfl hsourced.sound,
        fun u hu => ⟨_, rfl, ?_, fun _ => ?_⟩⟩
      · exact ⟨⟨rfl, rfl, rfl⟩, Or.inr ⟨rfl, rfl, rfl⟩⟩
      · exact shown_pictureOf (fun view hview =>
          traced_later (hsourced.views uuid pvs hentry view hview) hu)
  apply safe_bind hvisit
  intro t r _ hr
  obtain ⟨res, rfl, hcontract, hshown⟩ := hr
  exact safe_finished (fun u hu => ⟨hcontract, not_false, fun _ hok => shown_later (hshown hok) hu⟩)

theorem below_cString {path : Bytes} (hne : p.documentRoot ≠ [])
    (h : Inside p.documentRoot path) : Below p.documentRoot (cString path) := by
  rw [cString_eq h.nul]
  exact h.below hne

/-- Each path that is tried lies inside, if the first one does. -/
theorem safe_indexLoop (rounds : ℕ) {path : Bytes}
    (h : p.documentRoot ≠ [] → Inside p.documentRoot path) :
    Safe (agreement p) (fun _ file => p.documentRoot ≠ [] → Inside p.documentRoot file) s
      (indexLoop p rounds path) := by
  induction rounds generalizing s path with
  | zero =>
    exact .enter (fun _ _ _ _ hfree => hfree.elim) (fun _ _ _ _ hfree => hfree.elim)
  | succ rounds ih =>
    refine .enter (fun _ _ _ hsourced _ => keeps_record hsourced ?_) ?_
    · exact fun hne => below_cString hne (h hne)
    · intro m t _ _ _
      split
      · exact ih (fun hne => (h hne).index)
      · exact safe_finished (fun _ _ => h)

theorem safe_staticHandler (hnul : 0 ∉ req.target) :
    Safe (agreement p) (Responded p req .static) s (staticHandler p req) := by
  have hanswer : ∀ {res : Response}, ContractAt p.host req .static res →
      ∀ t : Shared, Responded p req .static t (.ok res) :=
    fun hres t => ⟨hres, not_false, fun heq => by cases heq⟩
  unfold staticHandler
  split
  · exact safe_finished (fun t _ => hanswer (html_contract (by decide)) t)
  split
  · exact safe_finished (fun t _ => hanswer (html_contract (by decide)) t)
  rename_i hlegal
  apply safe_bind (safe_indexLoop _ (fun hne => inside_startPath hne p.root_nul hlegal hnul))
  intro t path _ hinside
  apply safe_atomic
  intro m u _ hsourced _
  refine ⟨keeps_record hsourced (fun hne => below_cString hne (hinside hne)), fun v _ => ?_⟩
  exact hanswer (answer_contract m.fs path).1 v

theorem routed_addressed (target : Bytes) : Addressed (routed target) target ∨
    routed target = .static ∧ ∀ other, ¬ Addressed other target := by
  apply resolve_iff.mp
  unfold routed
  rw [handlers_eq, resolve_append_singleton]
  rfl

/-- Every handler keeps the agreement, and ends within its contract. -/
theorem safe_serve (hreq : req ∈ s.arrived) (hnul : 0 ∉ req.target) :
    Safe (agreement p) (Responded p req (routed req.target)) s (serve p m req) := by
  unfold serve
  have haddressed := routed_addressed req.target
  generalize routed req.target = endpoint at haddressed
  cases endpoint with
  | version =>
    refine @safe_handleRequest p s req .version (versionApiHandler p) False rfl (by decide) ?_ ?_
    · simp [UnreadableAt]
    · exact fun _ => safe_finished (fun _ _ => ⟨.string _, not_false⟩)
  | samplingStart =>
    have htarget : req.target = ascii "/api/v1/calibration/sampling/start" :=
      haddressed.resolve_right (by simp)
    have hascii : IsAscii (ascii "/api/v1/calibration/sampling/start") := by decide
    exact safe_handleRequest rfl (by decide) Iff.rfl
      (fun _ => safe_samplingStartHandler (htarget ▸ hascii))
  | samplingStatus =>
    have hascii := isAscii_status (haddressed.resolve_right (by simp))
    refine @safe_handleRequest p s req .samplingStatus (samplingStatusHandler p) False rfl
      (by decide) ?_ ?_
    · simp [UnreadableAt]
    · exact fun _ => safe_samplingStatusHandler hascii
  | samplingStop =>
    exact safe_handleRequest rfl (by decide) Iff.rfl (fun _ => safe_samplingStopHandler)
  | picture =>
    have hpattern := (addressed_iff (picturePattern, .picture) (by simp [apiHandlers])).mpr
      (haddressed.resolve_right (by simp))
    exact safe_pictureHandler (routed_of_picturePattern hpattern)
  | pictures =>
    exact safe_handleRequest rfl (by decide) Iff.rfl
      (fun hmethod => safe_picPostHandler hreq (haddressed.resolve_right (by simp)) hmethod)
  | preview =>
    refine @safe_handleRequest p s req .preview (picListHandler p) False rfl (by decide) ?_ ?_
    · simp [UnreadableAt]
    · exact fun _ => safe_picListHandler
  | static => exact safe_staticHandler hnul

theorem judged_responseTo {picture : PostPicture} {r : Except Exception Json} {res : Response}
    (h : r = .ok .null ∧ Storable picture ∨
      ∃ text, r = .error (.runtimeError text) ∧ ¬ Storable picture)
    (hres : responseTo p.host req r = .ok res) : res.status = 200 ↔ Storable picture := by
  rcases h with ⟨rfl, hstorable⟩ | ⟨text, rfl, hrefused⟩
  · have hproper : JsonRoundTrips.Proper .null := by
      intro part hpart
      cases hpart
      trivial
    obtain ⟨ok, q, hok, hstatus, -⟩ :=
      @exists_okResponse p.host req .null p.roundTrips hproper (Or.inl rfl)
    rw [responseTo, hok] at hres
    obtain rfl := Except.ok.inj hres
    exact iff_of_true hstatus hstorable
  · have hstatus : res.status = 500 := jsonResponse_status hres
    rw [hstatus]
    exact iff_of_false (by decide) hrefused

theorem routed_pictures (h : req.target = ascii "/api/v1/realtime/preview/pictures") :
    routed req.target = .pictures := by
  have hresolve : resolve handlers req.target = some .pictures := resolve_iff.mpr (Or.inl h)
  rw [routed, hresolve, Option.getD_some]

theorem safe_serve_posts {picture : PostPicture} (hreq : req ∈ s.arrived)
    (hposts : Posts p.host req picture) :
    Safe (agreement p)
      (fun _ r => ∀ res, r = .ok res → (res.status = 200 ↔ Storable picture)) s
      (serve p m req) := by
  have hsupported : ¬ (req.method ≠ .get ∧ req.method ≠ .post) := by
    have hmethod := hposts.2.1
    tauto
  rw [serve, routed_pictures hposts.1]
  show Safe (agreement p) _ s (handleRequest p (picPostHandler p m) req)
  rw [handleRequest, if_neg hsupported]
  apply safe_map (safe_picPostHandler_posts hreq hposts)
  intro t r hr res hres
  exact judged_responseTo (hr t ((agreement p).refl t)) hres

/-- What the response to a request is like, and for a post, what it says. -/
def Replied (p : Platform) (req : Request) (s : Shared) (r : Except Exception Response) : Prop :=
  Responded p req (routed req.target) s r ∧ Judged p.host req r

/-- Every handler keeps the agreement, and a post is told whether it has been taken. -/
theorem safe_replied (hreq : req ∈ s.arrived) (hnul : 0 ∉ req.target) :
    Safe (agreement p) (Replied p req) s (serve p m req) := by
  by_cases hposts : ∃ picture, Posts p.host req picture
  swap
  · apply safe_mono (safe_serve hreq hnul)
    intro t r hr
    refine ⟨hr, ?_⟩
    cases r with
    | ok res => exact fun picture h => absurd ⟨picture, h⟩ hposts
    | error e => trivial
  · obtain ⟨picture, hpicture⟩ := hposts
    apply safe_mono (safe_and (safe_serve hreq hnul) (safe_serve_posts hreq hpicture))
    rintro t r ⟨hr, hstatus⟩
    refine ⟨hr, ?_⟩
    cases r with
    | ok res =>
      intro other hother
      obtain rfl : other = picture := posts_unique hother hpicture
      exact hstatus res rfl
    | error e => trivial

end Handlers

end BeastServer.ServerSafety
