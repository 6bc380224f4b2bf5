import BeastServer.PublishedGroups

/-!
The grouping cache holds no complete group back.
Between two calls no group is complete, and a call hands a group over exactly
when its own insertion completes it. The lookups of process all succeed, so an
exception leaves addPicture only from the insertion, before process runs.
-/
namespace BeastServer.CompletedGroups

open PostedPictures Exceptions Programs PictureCaches GroupCompletion CacheSections
open SequentialCalls Machines

/-- The vectors that the call gives to createPreview. -/
def previewCalls (call : Call) (cache : PictureCache) : List Pvs :=
  match returned (addPicture call) cache with
  | some pvs => if pvs.isEmpty then [] else [pvs]
  | none => []

/-- The insertion of the call makes the object of its picture complete. -/
def JustCompleted (call : Call) (cache : PictureCache) : Prop :=
  ¬ Complete (cleanup call.now cache) call.objectId ∧
    Complete (beforeProcess call cache) call.objectId

structure HoldsNothingBack (call : Call) (cache : PictureCache) : Prop where
  before : Quiet cache
  after : Quiet (afterCall call cache)
  handsOver : JustCompleted call cache → (previewCalls call cache).length = 1
  otherwise : ¬ JustCompleted call cache → previewCalls call cache = []
  /-- process does not run when the insertion throws. -/
  lookups : ∀ cache', (addNewPic call.picture).run (cleanup call.now cache) = .ok ⟨⟩ cache' →
    ∃ pvs cache'', (process call.order).run cache' = .ok pvs cache''

variable {cache : PictureCache} {call : Call}

theorem justCompleted_iff (hquiet : Quiet cache) :
    JustCompleted call cache ↔ Complete (beforeProcess call cache) call.objectId := by
  constructor
  · intro h
    exact h.2
  · intro h
    exact ⟨fun hclean => hquiet _ (complete_of_cleanup hclean), h⟩

theorem previewCalls_eq (horder : IterationOrder (beforeProcess call cache) call.order) :
    previewCalls call cache = if (handed call cache).isEmpty then [] else [handed call cache] := by
  unfold previewCalls
  by_cases h : Accepted call.picture
  · rw [returned_ok (addPicture_run h horder), handed_accepted h horder]
  · rw [returned_error (addPicture_throws h), handed_refused h]
    rfl

/-- The vector of the call is empty unless the call completes its object. -/
theorem handed_ne_nil (hquiet : Quiet cache)
    (horder : IterationOrder (beforeProcess call cache) call.order) :
    handed call cache ≠ [] ↔ JustCompleted call cache := by
  rw [handed_eq hquiet horder, objectViews_ne_nil, justCompleted_iff hquiet]

theorem process_of_insertion {cache' : PictureCache}
    (horder : IterationOrder (beforeProcess call cache) call.order)
    (h : (addNewPic call.picture).run (cleanup call.now cache) = .ok ⟨⟩ cache') :
    (process call.order).run cache' =
      .ok (handedOver cache' call.order) (eraseAll (erased cache' call.order) cache') := by
  have hstate : beforeProcess call cache = cache' := finalState_ok h
  rw [hstate] at horder
  exact process_run call.order horder

theorem holdsNothingBack (hquiet : Quiet cache)
    (horder : IterationOrder (beforeProcess call cache) call.order) :
    HoldsNothingBack call cache where
  before := hquiet
  after := quiet_afterCall hquiet horder
  handsOver hcompleted := by
    have hne := (handed_ne_nil hquiet horder).mpr hcompleted
    rw [previewCalls_eq horder, if_neg (by simpa using hne)]
    rfl
  otherwise hnot := by
    have hnil : handed call cache = [] := by
      by_contra hne
      exact hnot ((handed_ne_nil hquiet horder).mp hne)
    rw [previewCalls_eq horder, hnil]
    rfl
  lookups cache' hinsert := ⟨_, _, process_of_insertion horder hinsert⟩

/-- Over a whole run of calls one after the other. -/
theorem nothing_held_back (inputs : List Call) (h : calls.Admissible inputs) :
    Quiet (calls.run inputs) ∧
      Everywhere (fun before call => HoldsNothingBack call (calls.run before)) inputs := by
  refine ⟨(between_inductive.run inputs h).quiet, between_inductive.everywhere inputs h ?_⟩
  intro before call hbetween horder
  exact holdsNothingBack hbetween.quiet horder

/-- The last call is refused, because there is no camera 4. -/
theorem nothing_held_back_face_last :
    Quiet (calls.run (PublishedGroups.faceLast 5 ++ [sampleCall [] 1 .body 4 14])) ∧
      Everywhere (fun before call => HoldsNothingBack call (calls.run before))
        (PublishedGroups.faceLast 5 ++ [sampleCall [] 1 .body 4 14]) :=
  nothing_held_back (PublishedGroups.faceLast 5 ++ [sampleCall [] 1 .body 4 14])
    (admissible_of_ordersMatch _ (by decide +kernel))

end BeastServer.CompletedGroups
