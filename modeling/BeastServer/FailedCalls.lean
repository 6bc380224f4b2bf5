import BeastServer.SequentialCalls

/-!
Calls of addPicture that throw.
The entry of the object is made before the line of the camera is looked up, so
a body picture of a camera that does not exist leaves an entry without pictures
behind, unless the object had an entry already. The cache keeps its shape in the
runs in which this is always so, and in no others.
-/
namespace BeastServer.FailedCalls

open PostedPictures Exceptions Programs PictureCaches GroupCompletion CacheSections Machines
open SequentialCalls

/-- A call that throws leaves the maps as cleanup left them. -/
def Atomic (call : Call) (cache : PictureCache) : Prop :=
  returned (addPicture call) cache = none → afterCall call cache = cleanup call.now cache

/-- Every entry of bodyCaches has a line with a picture. -/
def Occupied (cache : PictureCache) : Prop :=
  ∀ id lines, cache.bodyCaches id = some lines → ∃ i, lines i ≠ []

/-- The object of the call has a body picture that has not expired. -/
def StillCached (call : Call) (cache : PictureCache) : Prop :=
  ∃ lines i picture, cache.bodyCaches call.objectId = some lines ∧ picture ∈ lines i ∧
    isExpired call.now picture = false

variable {cache : PictureCache} {call : Call} {picture : PostPictureWrapper} {id : ObjectId}

section Failing

theorem inserted_refused (h : ¬ Accepted picture) :
    inserted picture cache =
      setBody cache picture.picture.objectId (linesOf cache picture.picture.objectId) := by
  obtain ⟨hface, hcamera⟩ := not_or.mp h
  unfold inserted
  cases htype : picture.picture.objectType with
  | face => exact absurd htype hface
  | body => simp only [dif_neg hcamera]

/-- Only an object without an entry gets one. -/
theorem setBody_linesOf_iff :
    setBody cache id (linesOf cache id) = cache ↔ ∃ lines, cache.bodyCaches id = some lines := by
  constructor
  · intro hsame
    have hentry := congrFun (congrArg PictureCache.bodyCaches hsame) id
    simp only [setBody, Function.update_self] at hentry
    exact ⟨_, hentry.symm⟩
  · intro hentry
    obtain ⟨lines, hlines⟩ := hentry
    have hupdate : Function.update cache.bodyCaches id (some lines) = cache.bodyCaches := by
      rw [← hlines, Function.update_eq_self]
    rw [linesOf_of_some hlines, setBody, hupdate]

theorem stillCached_iff :
    (∃ lines, (cleanup call.now cache).bodyCaches call.objectId = some lines) ↔
      StillCached call cache := by
  constructor
  · intro ⟨lines, hlines⟩
    obtain ⟨before, hbefore, rfl, i, hne⟩ := cleanup_body.mp hlines
    obtain ⟨picture, hpicture⟩ := List.exists_mem_of_ne_nil _ hne
    obtain ⟨hmem, hfresh⟩ := mem_removePictureExpired.mp hpicture
    exact ⟨before, i, picture, hbefore, hmem, hfresh⟩
  · intro ⟨before, i, picture, hbefore, hmem, hfresh⟩
    refine ⟨removePictureExpiredInLines call.now before, ?_⟩
    refine cleanup_body.mpr ⟨before, hbefore, rfl, i, ?_⟩
    exact List.ne_nil_of_mem (mem_removePictureExpired.mpr ⟨hmem, hfresh⟩)

theorem afterCall_eq_cleanup_iff (h : ¬ Accepted call.picture) :
    afterCall call cache = cleanup call.now cache ↔ StillCached call cache := by
  rw [afterCall_refused h, beforeProcess_eq, inserted_refused h, ← stillCached_iff]
  exact setBody_linesOf_iff

theorem throws_iff (horder : IterationOrder (beforeProcess call cache) call.order) :
    returned (addPicture call) cache = none ↔ ¬ Accepted call.picture := by
  constructor
  · intro hnone haccepted
    rw [returned_ok (addPicture_run haccepted horder)] at hnone
    cases hnone
  · intro hrefused
    exact returned_error (addPicture_throws hrefused)

end Failing

section Entries

theorem occupied_cleanup (now : ℤ) : Occupied (cleanup now cache) := by
  intro id lines hlines
  obtain ⟨before, hbefore, rfl, hsome⟩ := cleanup_body.mp hlines
  exact hsome

/-- An accepted body picture is in the line of its camera. -/
theorem occupied_inserted (hoccupied : Occupied cache) (h : Accepted picture) :
    Occupied (inserted picture cache) := by
  intro id lines hlines
  rw [inserted_body] at hlines
  split at hlines
  · rename_i hown
    obtain rfl := Option.some.inj hlines
    have hcamera : picture.picture.cameraId.toNat < cacheLines := by
      simpa [Accepted, hown.1] using h
    refine ⟨⟨picture.picture.cameraId.toNat, hcamera⟩, ?_⟩
    exact List.ne_nil_of_mem (mem_addToLine.mpr (Or.inr ⟨rfl, rfl⟩))
  · exact hoccupied id lines hlines

theorem occupied_eraseAll (hoccupied : Occupied cache) (ids : List ObjectId) :
    Occupied (eraseAll ids cache) := by
  intro id lines hlines
  exact hoccupied id lines (body_of_eraseAll hlines).1

theorem occupied_accepted (h : Accepted call.picture)
    (horder : IterationOrder (beforeProcess call cache) call.order) :
    Occupied (afterCall call cache) := by
  rw [afterCall_accepted h horder, beforeProcess_eq]
  exact occupied_eraseAll (occupied_inserted (occupied_cleanup _) h) _

/-- One call: what it needs to leave the cache in order. -/
theorem step_iff (horder : IterationOrder (beforeProcess call cache) call.order) :
    (Atomic call cache ∧ Occupied (afterCall call cache)) ↔
      (¬ Accepted call.picture → StillCached call cache) := by
  constructor
  · intro ⟨hatomic, _⟩ hrefused
    exact (afterCall_eq_cleanup_iff hrefused).mp (hatomic ((throws_iff horder).mpr hrefused))
  · intro hcached
    by_cases h : Accepted call.picture
    · refine ⟨?_, occupied_accepted h horder⟩
      intro hnone
      exact absurd h ((throws_iff horder).mp hnone)
    · have hsame := (afterCall_eq_cleanup_iff h).mpr (hcached h)
      refine ⟨fun _ => hsame, ?_⟩
      rw [hsame]
      exact occupied_cleanup _

end Entries

/-- In a run every failing call is atomic and every entry has a picture when
each refused picture belongs to an object with an unexpired body picture, and
in no other run. -/
theorem failing_calls_atomic_iff (inputs : List Call) (h : calls.Admissible inputs) :
    Everywhere (fun before call => Atomic call (calls.run before) ∧
        Occupied (calls.run (before ++ [call]))) inputs ↔
      Everywhere (fun before call => ¬ Accepted call.picture →
        StillCached call (calls.run before)) inputs := by
  refine between_inductive.everywhere_congr inputs h ?_
  intro before call _ horder
  rw [Machine.run_append_singleton]
  exact step_iff horder

section Sample

/-- A body picture of camera 4 in an empty cache. -/
def fifthCamera : Call := sampleCall [] 7 .body 4 0

theorem fifthCamera_admissible : calls.Admissible [fifthCamera] :=
  admissible_of_ordersMatch _ (by decide +kernel)

end Sample

theorem failing_calls_atomic_iff_fifthCamera :
    Everywhere (fun before call => Atomic call (calls.run before) ∧
        Occupied (calls.run (before ++ [call]))) [fifthCamera] ↔
      Everywhere (fun before call => ¬ Accepted call.picture →
        StillCached call (calls.run before)) [fifthCamera] :=
  failing_calls_atomic_iff [fifthCamera] fifthCamera_admissible

/-- The call throws and leaves an entry with four empty lines behind. -/
theorem fifthCamera_leaves_entry :
    calls.Admissible [fifthCamera] ∧ returned (addPicture fifthCamera) (calls.run []) = none ∧
      ¬ Atomic fifthCamera (calls.run []) ∧ ¬ Occupied (calls.run [fifthCamera]) := by
  have hthrows : returned (addPicture fifthCamera) (calls.run []) = none := by decide +kernel
  have hrefused : ¬ Accepted fifthCamera.picture := by
    unfold Accepted
    decide
  have hentry : (calls.run [fifthCamera]).bodyCaches 7 = some (fun _ => []) := by
    show (afterCall fifthCamera PictureCache.empty).bodyCaches 7 = _
    rw [afterCall_refused hrefused, beforeProcess_eq, inserted_refused hrefused]
    rfl
  refine ⟨fifthCamera_admissible, hthrows, ?_, ?_⟩
  · intro hatomic
    obtain ⟨lines, i, picture, hlines, -⟩ :=
      (afterCall_eq_cleanup_iff hrefused).mp (hatomic hthrows)
    cases hlines
  · intro hoccupied
    obtain ⟨i, hne⟩ := hoccupied 7 _ hentry
    exact hne rfl

end BeastServer.FailedCalls
