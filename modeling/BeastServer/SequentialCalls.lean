import BeastServer.Machines
import BeastServer.CacheSections

/-!
Calls of addPicture executed one after the other.
Between two calls no group is complete, so a call can complete the group of its
own object only, and the vector it hands over holds the views of that object.
The cached face of an object is its last arrival, and each line lists arrivals
in the order in which they came.
-/
namespace BeastServer.SequentialCalls

open PostedPictures Exceptions Programs PictureCaches GroupCompletion CacheSections Machines

/-- The state in which the third section of the call runs. -/
def beforeProcess (call : Call) (cache : PictureCache) : PictureCache :=
  finalState (addNewPic call.picture) (cleanup call.now cache)

def afterCall (call : Call) (cache : PictureCache) : PictureCache :=
  finalState (addPicture call) cache

/-- The vector given to createPreview, empty when it is not called. -/
def handed (call : Call) (cache : PictureCache) : Pvs :=
  (returned (addPicture call) cache).getD []

/-- A call that throws does not iterate, and may come with any order of the keys. -/
def calls : Machine PictureCache Call where
  init := PictureCache.empty
  enabled cache call := IterationOrder (beforeProcess call cache) call.order
  step cache call := afterCall call cache

variable {cache : PictureCache} {call : Call} {id : ObjectId}

theorem beforeProcess_eq :
    beforeProcess call cache = inserted call.picture (cleanup call.now cache) := by
  unfold beforeProcess
  by_cases h : Accepted call.picture
  · exact finalState_ok (addNewPic_run h)
  · exact finalState_error (addNewPic_throws h)

theorem addPicture_run (h : Accepted call.picture)
    (horder : IterationOrder (beforeProcess call cache) call.order) :
    (addPicture call).run cache =
      .ok (handedOver (beforeProcess call cache) call.order)
        (eraseAll (erased (beforeProcess call cache) call.order) (beforeProcess call cache)) := by
  have hsection : (addNewPic call.picture).run (cleanup call.now cache) =
      .ok ⟨⟩ (beforeProcess call cache) := by
    rw [beforeProcess_eq, addNewPic_run h]
  unfold addPicture
  rw [bind_ok (EStateM.run_modify _ _), bind_ok hsection]
  exact process_run call.order horder

theorem addPicture_throws (h : ¬ Accepted call.picture) :
    (addPicture call).run cache =
      .error (.arrayAt call.picture.picture.cameraId.toNat cacheLines)
        (beforeProcess call cache) := by
  have hsection : (addNewPic call.picture).run (cleanup call.now cache) =
      .error (.arrayAt call.picture.picture.cameraId.toNat cacheLines)
        (beforeProcess call cache) := by
    rw [beforeProcess_eq, addNewPic_throws h]
  unfold addPicture
  rw [bind_ok (EStateM.run_modify _ _)]
  exact bind_error hsection

theorem afterCall_accepted (h : Accepted call.picture)
    (horder : IterationOrder (beforeProcess call cache) call.order) :
    afterCall call cache =
      eraseAll (erased (beforeProcess call cache) call.order) (beforeProcess call cache) :=
  finalState_ok (addPicture_run h horder)

theorem afterCall_refused (h : ¬ Accepted call.picture) :
    afterCall call cache = beforeProcess call cache :=
  finalState_error (addPicture_throws h)

theorem handed_accepted (h : Accepted call.picture)
    (horder : IterationOrder (beforeProcess call cache) call.order) :
    handed call cache = handedOver (beforeProcess call cache) call.order := by
  rw [handed, returned_ok (addPicture_run h horder), Option.getD_some]

theorem handed_refused (h : ¬ Accepted call.picture) : handed call cache = [] := by
  rw [handed, returned_error (addPicture_throws h), Option.getD_none]

section Quiet

/-- No group is complete. -/
def Quiet (cache : PictureCache) : Prop := ∀ id, ¬ Complete cache id

theorem quiet_empty : Quiet PictureCache.empty := by
  intro id ⟨face, lines, hface, _⟩
  simp [PictureCache.empty] at hface

/-- From a quiet state a call completes at most the group of its own object. -/
theorem complete_beforeProcess (hquiet : Quiet cache)
    (h : Complete (beforeProcess call cache) id) :
    id = call.objectId ∧ Accepted call.picture := by
  rw [beforeProcess_eq] at h
  by_contra hnot
  have hother : id ≠ call.picture.picture.objectId ∨ ¬ Accepted call.picture :=
    Classical.not_and_iff_not_or_not.mp hnot
  exact hquiet id (complete_of_cleanup (complete_of_inserted h hother))

theorem quiet_afterCall (hquiet : Quiet cache)
    (horder : IterationOrder (beforeProcess call cache) call.order) :
    Quiet (afterCall call cache) := by
  intro id hcomplete
  by_cases h : Accepted call.picture
  · rw [afterCall_accepted h horder] at hcomplete
    exact not_complete_process call.order horder hcomplete
  · rw [afterCall_refused h] at hcomplete
    exact h (complete_beforeProcess hquiet hcomplete).2

theorem keyed_beforeProcess (hkeyed : Keyed cache) : Keyed (beforeProcess call cache) := by
  rw [beforeProcess_eq]
  exact keyed_inserted (keyed_cleanup hkeyed)

theorem keyed_afterCall (hkeyed : Keyed cache)
    (horder : IterationOrder (beforeProcess call cache) call.order) :
    Keyed (afterCall call cache) := by
  by_cases h : Accepted call.picture
  · rw [afterCall_accepted h horder]
    exact keyed_eraseAll (keyed_beforeProcess hkeyed) _
  · rw [afterCall_refused h]
    exact keyed_beforeProcess hkeyed

/-- What holds between two calls. -/
structure Between (cache : PictureCache) : Prop where
  quiet : Quiet cache
  keyed : Keyed cache

theorem between_empty : Between PictureCache.empty := by
  refine ⟨quiet_empty, ?_, ?_⟩
  · intro id picture h
    simp [PictureCache.empty] at h
  · intro id lines i picture h
    simp [PictureCache.empty] at h

theorem between_afterCall (h : Between cache)
    (horder : IterationOrder (beforeProcess call cache) call.order) :
    Between (afterCall call cache) :=
  ⟨quiet_afterCall h.quiet horder, keyed_afterCall h.keyed horder⟩

theorem between_inductive : calls.Inductive (fun _ cache => Between cache) :=
  Machine.inductive_of_step between_empty (fun _ _ h horder => between_afterCall h horder)

/-- The vector of a call holds the views of its own object, or is empty. -/
theorem handed_eq (hquiet : Quiet cache)
    (horder : IterationOrder (beforeProcess call cache) call.order) :
    handed call cache = objectViews (beforeProcess call cache) (call.objectId) := by
  have hother : ∀ id, id ≠ call.objectId →
      objectViews (beforeProcess call cache) id = [] := by
    intro id hid
    by_contra hne
    exact hid (complete_beforeProcess hquiet (objectViews_ne_nil.mp hne)).1
  by_cases h : Accepted call.picture
  · rw [handed_accepted h horder]
    exact handedOver_eq_of_single call.order horder hother
  · rw [handed_refused h]
    by_contra hne
    have hcomplete := objectViews_ne_nil.mp (Ne.symm hne)
    exact h (complete_beforeProcess hquiet hcomplete).2

end Quiet

section Arrivals

/-- The faces of an object in the order in which they were posted. -/
def faceArrivals (calls : List Call) (id : ObjectId) : List PostPictureWrapper :=
  (calls.map Call.picture).filter (fun picture =>
    picture.picture.objectType = .face ∧ picture.picture.objectId = id)

/-- The body pictures of an object and a camera in the order in which they were posted. -/
def bodyArrivals (calls : List Call) (id : ObjectId) (camera : Fin cacheLines) :
    List PostPictureWrapper :=
  (calls.map Call.picture).filter (fun picture =>
    picture.picture.objectType = .body ∧ picture.picture.objectId = id ∧
      picture.picture.cameraId.toNat = camera.val)

/-- The cached face is the last one posted; the lines keep the order of arrival. -/
structure Arrived (calls : List Call) (cache : PictureCache) : Prop where
  face : ∀ id picture, cache.faceCaches id = some picture →
    (faceArrivals calls id).getLast? = some picture
  body : ∀ id lines i, cache.bodyCaches id = some lines →
    (lines i).Sublist (bodyArrivals calls id i)

variable {before : List Call}

theorem arrived_cleanup (now : ℤ) (h : Arrived before cache) :
    Arrived before (cleanup now cache) where
  face id picture hface := h.face id picture (cleanup_face.mp hface).1
  body id lines i hbody := by
    obtain ⟨unclean, hunclean, rfl, -⟩ := cleanup_body.mp hbody
    have hsub : (removePictureExpired now (unclean i)).Sublist (unclean i) :=
      List.filter_sublist
    exact hsub.trans (h.body id unclean i hunclean)

theorem linesOf_sublist (h : Arrived before cache) (i : Fin cacheLines) :
    (linesOf cache id i).Sublist (bodyArrivals before id i) := by
  unfold linesOf
  cases hbody : cache.bodyCaches id with
  | none => exact List.nil_sublist _
  | some lines => exact h.body id lines i hbody

theorem arrived_inserted (h : Arrived before cache) :
    Arrived (before ++ [call]) (inserted call.picture cache) where
  face id picture hface := by
    rw [inserted_face] at hface
    unfold faceArrivals
    rw [List.map_append, List.filter_append]
    split at hface
    · rename_i hown
      obtain rfl := Option.some.inj hface
      simp [hown.1, hown.2]
    · rename_i hother
      have hlast := h.face id picture hface
      have hnot : ¬ (call.picture.picture.objectType = .face ∧
          call.picture.picture.objectId = id) := by
        intro ⟨htype, hid⟩
        exact hother ⟨htype, hid.symm⟩
      simpa [hnot, faceArrivals] using hlast
  body id lines i hbody := by
    rw [inserted_body] at hbody
    unfold bodyArrivals
    rw [List.map_append, List.filter_append]
    split at hbody
    · rename_i hown
      obtain rfl := Option.some.inj hbody
      have hsub : (linesOf cache id i).Sublist (bodyArrivals before id i) :=
        linesOf_sublist h i
      unfold addToLine
      split
      · rename_i hcamera
        refine List.Sublist.append hsub ?_
        simp [hown.1, hown.2, hcamera]
      · exact hsub.trans (List.sublist_append_left _ _)
    · exact (h.body id lines i hbody).trans (List.sublist_append_left _ _)

theorem arrived_eraseAll (ids : List ObjectId) (h : Arrived before cache) :
    Arrived before (eraseAll ids cache) where
  face id picture hface := h.face id picture (face_of_eraseAll hface).1
  body id lines i hbody := h.body id lines i (body_of_eraseAll hbody).1

theorem arrived_beforeProcess (h : Arrived before cache) :
    Arrived (before ++ [call]) (beforeProcess call cache) := by
  rw [beforeProcess_eq]
  exact arrived_inserted (arrived_cleanup call.now h)

theorem arrived_inductive : calls.Inductive Arrived where
  start := by
    constructor
    · intro id picture h
      simp [calls, PictureCache.empty] at h
    · intro id lines i h
      simp [calls, PictureCache.empty] at h
  preserved before call _ h horder := by
    have hmiddle : Arrived (before ++ [call]) (beforeProcess call (calls.run before)) :=
      arrived_beforeProcess h
    change Arrived (before ++ [call]) (afterCall call (calls.run before))
    by_cases haccepted : Accepted call.picture
    · rw [afterCall_accepted haccepted horder]
      exact arrived_eraseAll _ hmiddle
    · rw [afterCall_refused haccepted]
      exact hmiddle

end Arrivals

section Orders

/-- The orders of all calls are checked on the way; keys lists the objects so far. -/
def ordersMatch (cache : PictureCache) (keys : List ObjectId) : List Call → Bool
  | [] => true
  | call :: rest =>
    listsFaces (beforeProcess call cache) (call.objectId :: keys) call.order &&
      ordersMatch (afterCall call cache) (call.objectId :: keys) rest

/-- A sequence of calls whose orders pass the check is a run of the cache. -/
theorem admissible_of_ordersMatch (inputs : List Call)
    (h : ordersMatch PictureCache.empty [] inputs = true) : calls.Admissible inputs := by
  have hcons : ∀ cache keys call rest, Supported keys cache →
      ordersMatch cache keys (call :: rest) = true →
      IterationOrder (beforeProcess call cache) call.order ∧
        ∃ keys', Supported keys' (afterCall call cache) ∧
          ordersMatch (afterCall call cache) keys' rest = true := by
    intro cache keys call rest hkeys hcheck
    obtain ⟨hfirst, hrest⟩ := Bool.and_eq_true_iff.mp hcheck
    have hmiddle : Supported (call.objectId :: keys) (beforeProcess call cache) := by
      rw [beforeProcess_eq]
      exact supported_inserted (supported_cleanup hkeys)
    have horder := iterationOrder_of_listsFaces hmiddle hfirst
    refine ⟨horder, call.objectId :: keys, ?_, hrest⟩
    by_cases haccepted : Accepted call.picture
    · rw [afterCall_accepted haccepted horder]
      exact supported_eraseAll _ hmiddle
    · rw [afterCall_refused haccepted]
      exact hmiddle
  exact Machine.admissible_of_check calls hcons inputs [] supported_empty h

end Orders

section Samples

def samplePicture (id : ObjectId) (type : PictureObjectType) (camera : UInt32) (post : ℕ) :
    PostPictureWrapper where
  picture := { createPicture with objectId := id, objectType := type, cameraId := camera }
  timestamp := 0
  post := post

def sampleCall (order : List ObjectId) (id : ObjectId) (type : PictureObjectType)
    (camera : UInt32) (post : ℕ) : Call where
  picture := samplePicture id type camera post
  now := 0
  order := order

end Samples

end BeastServer.SequentialCalls
