import BeastServer.Groupings
import BeastServer.LostPictures
import BeastServer.Simulations

/-!
The cache as a family of independent slots.
What the cache holds of an object is a slot of its own, and what is meant to
happen to it depends on the posts of that object and on the time only: neither
the posts of other objects nor the iteration order of the maps should matter.
The cache does behave so exactly in the runs in which the completed object is
always visited last; otherwise other objects are emptied along with it.
-/
namespace BeastServer.IndependentObjects

open PostedPictures PictureCaches GroupCompletion CacheSections SequentialCalls LostPictures
open Machines Simulations Groupings

section Slots

abbrev ObjectSlot := Slot (Fin cacheLines) PostPictureWrapper

/-- What the cache holds of an object; an entry of four empty lines is nothing. -/
def slotOf (id : ObjectId) (cache : PictureCache) : ObjectSlot :=
  ⟨cache.faceCaches id, linesOf cache id⟩

/-- The arrival that a picture is; a camera that does not exist posts nothing. -/
def arrivalOf (picture : PostPictureWrapper) :
    Option (Arrival (Fin cacheLines) PostPictureWrapper) :=
  match picture.picture.objectType with
  | .face => some (.lead picture)
  | .body =>
    if h : picture.picture.cameraId.toNat < cacheLines then
      some (.line ⟨picture.picture.cameraId.toNat, h⟩ picture)
    else none

def arrivalAt (id : ObjectId) (picture : PostPictureWrapper) :
    Option (Arrival (Fin cacheLines) PostPictureWrapper) :=
  if picture.picture.objectId = id then arrivalOf picture else none

/-- What the slot of an object sees of a call. -/
def seenBy (id : ObjectId) (call : Call) : Seen (Fin cacheLines) PostPictureWrapper where
  fresh picture := !isExpired call.now picture
  arrival := arrivalAt id call.picture

/-- The slot of each object gathers on its own; six pictures are enough. -/
abbrev objectGathering : Machine ObjectSlot (Seen (Fin cacheLines) PostPictureWrapper) :=
  gathering (Fin cacheLines) PostPictureWrapper 6

/-- What is handed over of a slot: its views, if it is complete. -/
def handedOf (slot : ObjectSlot) : Pvs :=
  match slot.lead with
  | some face => views face slot.lines
  | none => []

variable {cache : PictureCache} {call : Call} {id : ObjectId} {picture : PostPictureWrapper}

theorem linesOf_none (h : cache.bodyCaches id = none) : linesOf cache id = fun _ => [] := by
  simp [linesOf, h]

theorem complete_slotOf : (slotOf id cache).Complete 6 ↔ Complete cache id := by
  constructor
  · intro ⟨hface, hlines, i, hlong⟩
    obtain ⟨face, hface⟩ := Option.isSome_iff_exists.mp hface
    cases hbody : cache.bodyCaches id with
    | none =>
      have hempty := hlines 0
      simp only [slotOf, linesOf_none hbody] at hempty
      exact absurd hempty (by simp)
    | some lines =>
      simp only [slotOf, linesOf_of_some hbody] at hlines hlong
      exact ⟨face, lines, hface, hbody, fun j => List.ne_nil_of_length_pos (hlines j), i, hlong⟩
  · intro ⟨face, lines, hface, hbody, hfull, i, hlong⟩
    refine ⟨?_, ?_, i, ?_⟩
    · simp [slotOf, hface]
    · intro j
      simp only [slotOf, linesOf_of_some hbody]
      exact List.length_pos_of_ne_nil (hfull j)
    · simp only [slotOf, linesOf_of_some hbody]
      exact hlong

theorem slotOf_cleanup (now : ℤ) : slotOf id (cleanup now cache) =
    (slotOf id cache).keep (fun picture => !isExpired now picture) := by
  have hlines : linesOf (cleanup now cache) id =
      fun i => (linesOf cache id i).filter (fun picture => !isExpired now picture) := by
    cases hbody : cache.bodyCaches id with
    | none => simp [linesOf, cleanup, hbody]
    | some lines =>
      by_cases hempty : ∃ i, removePictureExpiredInLines now lines i ≠ []
      · rw [linesOf_of_some (cleanup_body.mpr ⟨lines, hbody, rfl, hempty⟩), linesOf_of_some hbody]
        rfl
      · have hall : ∀ i, removePictureExpiredInLines now lines i = [] := by
          simpa using hempty
        have hnone : (cleanup now cache).bodyCaches id = none := by
          simp [cleanup, hbody, allLinesEmpty, hall]
        rw [linesOf_none hnone, linesOf_of_some hbody]
        funext i
        exact (hall i).symm
  exact congrArg (Slot.mk _) hlines

theorem linesOf_inserted : linesOf (inserted picture cache) id =
    if picture.picture.objectType = .body ∧ id = picture.picture.objectId then
      addToLine picture (linesOf cache id)
    else linesOf cache id := by
  rw [linesOf, inserted_body]
  split
  · rfl
  · rfl

theorem addToLine_eq (lines : BodyPictureCacheLine)
    (h : picture.picture.cameraId.toNat < cacheLines) :
    addToLine picture lines = Function.update lines ⟨picture.picture.cameraId.toNat, h⟩
      (lines ⟨picture.picture.cameraId.toNat, h⟩ ++ [picture]) := by
  funext i
  unfold addToLine
  by_cases hi : i = ⟨picture.picture.cameraId.toNat, h⟩
  · subst hi
    simp
  · have hne : picture.picture.cameraId.toNat ≠ i.val := fun heq => hi (Fin.ext heq.symm)
    rw [Function.update_of_ne hi, if_neg hne]

theorem addToLine_refused (lines : BodyPictureCacheLine)
    (h : ¬ picture.picture.cameraId.toNat < cacheLines) : addToLine picture lines = lines := by
  funext i
  have hi := i.isLt
  exact if_neg (by omega)

/-- The insertion is the arrival of the picture in the slot of its object. -/
theorem slotOf_inserted : slotOf id (inserted picture cache) =
    (slotOf id cache).receive (arrivalAt id picture) := by
  unfold slotOf arrivalAt
  rw [inserted_face, linesOf_inserted]
  by_cases hid : picture.picture.objectId = id
  · rw [if_pos hid, arrivalOf]
    cases htype : picture.picture.objectType with
    | face => simp [hid, Slot.receive, Slot.add]
    | body =>
      by_cases hcamera : picture.picture.cameraId.toNat < cacheLines
      · simp [hid, hcamera, Slot.receive, Slot.add, addToLine_eq]
      · simp [hid, hcamera, Slot.receive, addToLine_refused]
  · simp [hid, Ne.symm hid, Slot.receive]

/-- Before process the slot has seen the call. -/
theorem slotOf_beforeProcess : slotOf id (beforeProcess call cache) =
    (slotOf id cache).arrive (seenBy id call) := by
  rw [beforeProcess_eq, slotOf_inserted, slotOf_cleanup]
  rfl

end Slots

section Steps

variable {cache : PictureCache} {call : Call} {id : ObjectId}

/-- A call does to each object what its slot does on its own. -/
def Independent (call : Call) (cache : PictureCache) : Prop :=
  ∀ id, slotOf id (afterCall call cache) =
    objectGathering.step (slotOf id cache) (seenBy id call)

theorem slotOf_erased (ids : List ObjectId) (h : id ∈ ids) :
    slotOf id (eraseAll ids cache) = Slot.empty := by
  simp [slotOf, linesOf, eraseAll, h, Slot.empty]

theorem independent_of_completedLast (hbetween : Between cache)
    (horder : IterationOrder (beforeProcess call cache) call.order)
    (hlast : CompletedLast call cache) : Independent call cache := by
  intro id
  show _ = ((slotOf id cache).arrive (seenBy id call)).settle 6
  rw [← slotOf_beforeProcess]
  by_cases hcomplete : Complete (beforeProcess call cache) id
  · have hempty : (slotOf id (beforeProcess call cache)).settle 6 = Slot.empty :=
      if_pos (complete_slotOf.mpr hcomplete)
    obtain ⟨-, haccepted⟩ := complete_beforeProcess hbetween.quiet hcomplete
    obtain ⟨pre, post, hsplit⟩ :=
      List.append_of_mem (complete_mem_candidates call.order horder hcomplete)
    have herased : id ∈ erased (beforeProcess call cache) call.order :=
      (mem_erased call.order).mpr ⟨pre, id, post, hsplit, hcomplete, Or.inl rfl⟩
    rw [hempty, afterCall_accepted haccepted horder, slotOf_erased _ herased]
  · rw [settle_of_not_complete (fun h => hcomplete (complete_slotOf.mp h))]
    have hunpublished : ¬ Published call cache id :=
      fun h => hcomplete ((published_iff hbetween horder).mp h).2
    obtain ⟨hface, hbody⟩ := unpublished_unchanged hbetween horder hlast hunpublished
    unfold slotOf linesOf
    rw [hface, hbody]

/-- An object that is visited after the completed one loses its face. -/
theorem completedLast_of_independent (hbetween : Between cache)
    (horder : IterationOrder (beforeProcess call cache) call.order)
    (h : Independent call cache) : CompletedLast call cache := by
  intro hcomplete pre post hsplit
  by_contra hpost
  obtain ⟨other, rest, rfl⟩ := List.exists_cons_of_ne_nil hpost
  have haccepted := (complete_beforeProcess hbetween.quiet hcomplete).2
  have hmem : other ∈ candidates (beforeProcess call cache) call.order := by
    rw [hsplit]
    simp
  have hne : other ≠ call.objectId := by
    rintro rfl
    have hnodup : (candidates (beforeProcess call cache) call.order).Nodup :=
      horder.nodup.filter _
    rw [hsplit] at hnodup
    simp [List.nodup_append] at hnodup
  have herased : other ∈ erased (beforeProcess call cache) call.order :=
    (mem_erased call.order).mpr
      ⟨pre, call.objectId, other :: rest, hsplit, hcomplete, Or.inr List.mem_cons_self⟩
  have hother : ¬ (slotOf other (beforeProcess call cache)).Complete 6 := by
    intro hslot
    exact hne (complete_beforeProcess hbetween.quiet (complete_slotOf.mp hslot)).1
  have hslot := h other
  change _ = ((slotOf other cache).arrive (seenBy other call)).settle 6 at hslot
  rw [← slotOf_beforeProcess, settle_of_not_complete hother, afterCall_accepted haccepted horder,
    slotOf_erased _ herased] at hslot
  have hface := ((mem_candidates call.order horder).mp hmem).1
  have hnone : (beforeProcess call cache).faceCaches other = none :=
    congrArg Slot.lead hslot.symm
  rw [hnone] at hface
  cases hface

/-- What a call hands over is what the slot of its object hands over. -/
theorem handed_eq_handedOf (hbetween : Between cache)
    (horder : IterationOrder (beforeProcess call cache) call.order) :
    handed call cache =
      handedOf ((slotOf call.objectId cache).arrive (seenBy call.objectId call)) := by
  rw [handed_eq hbetween.quiet horder, ← slotOf_beforeProcess]
  unfold handedOf slotOf objectViews linesOf
  cases (beforeProcess call cache).faceCaches call.objectId with
  | none => rfl
  | some face =>
    cases (beforeProcess call cache).bodyCaches call.objectId with
    | none =>
      have hempty : hasEmpty (fun _ => []) = true := decide_eq_true ⟨0, rfl⟩
      exact (if_pos hempty).symm
    | some lines => rfl

end Steps

section Runs

/-- Every object has what its slot has after the same calls, and the call hands
over what the slot of its object hands over. -/
def EachOnItsOwn (before : List Call) (call : Call) : Prop :=
  (∀ id, Follows calls objectGathering (slotOf id) (seenBy id) before call) ∧
    handed call (calls.run before) =
      handedOf ((objectGathering.run (before.map (seenBy call.objectId))).arrive
        (seenBy call.objectId call))

theorem slotOf_empty (id : ObjectId) : slotOf id calls.init = objectGathering.init := rfl

theorem steps_independent {inputs : List Call} :
    Everywhere (fun before call => Independent call (calls.run before)) inputs ↔
      ∀ id, Everywhere (StepFollows calls objectGathering (slotOf id) (seenBy id)) inputs := by
  constructor
  · intro h id before call after heq
    exact h before call after heq id
  · intro h before call after heq id
    exact h id before call after heq

/-- Over a whole run: the objects are gathered independently of each other if and
only if every call that completes a group visits the completed object last. In
these runs the iteration orders of the maps make no difference at all. -/
theorem each_on_its_own_iff (inputs : List Call) (h : calls.Admissible inputs) :
    Everywhere EachOnItsOwn inputs ↔
      Everywhere (fun before call => CompletedLast call (calls.run before)) inputs := by
  have hcongr : Everywhere (fun before call => Independent call (calls.run before)) inputs ↔
      Everywhere (fun before call => CompletedLast call (calls.run before)) inputs := by
    refine between_inductive.everywhere_congr inputs h ?_
    intro before call hbetween horder
    exact ⟨completedLast_of_independent hbetween horder,
      independent_of_completedLast hbetween horder⟩
  rw [← hcongr, steps_independent]
  constructor
  · intro hall id
    rw [← follows_iff (slotOf_empty id)]
    intro before call after heq
    exact (hall before call after heq).1 id
  · intro hall before call after heq
    refine ⟨?_, ?_⟩
    · intro id
      exact (follows_iff (slotOf_empty id) inputs).mpr (hall id) before call after heq
    · have hbefore : Everywhere
          (StepFollows calls objectGathering (slotOf call.objectId) (seenBy call.objectId))
          before := everywhere_of_append _ before (call :: after) (heq ▸ hall call.objectId)
      have hadmissible : calls.Admissible before :=
        Machine.admissible_of_append calls (heq ▸ h)
      rw [handed_eq_handedOf (between_inductive.run before hadmissible) (h before call after heq),
        view_run_of_stepFollows (slotOf_empty call.objectId) before hbefore]

theorem each_on_its_own_two_objects :
    Everywhere EachOnItsOwn (twoObjects [2, 1]) ↔
      Everywhere (fun before call => CompletedLast call (calls.run before)) (twoObjects [2, 1]) :=
  each_on_its_own_iff (twoObjects [2, 1]) twoObjects_admissible_last

end Runs

end BeastServer.IndependentObjects
