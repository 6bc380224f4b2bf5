import BeastServer.SequentialCalls
import BeastServer.PicturePreviews
import Mathlib.Algebra.BigOperators.Fin

/-!
The vector that a call of addPicture hands to createPreview.
Every line of at least six pictures contributes eleven views, so the vector is
one group of eleven exactly when one line is that long when the group becomes
complete. The store then keeps five snaps and six tracks of it.
-/
namespace BeastServer.PublishedGroups

open PostedPictures PictureCaches GroupCompletion CacheSections SequentialCalls PicturePreviews
open Machines

/-- The vector is the current face, the oldest picture of each camera and the
six oldest pictures of one camera, all of one object; the face is the last one
posted and the lines list pictures in the order in which they were posted. -/
def IsGroup (posts : List Call) (cache : PictureCache) (pvs : Pvs) : Prop :=
  ∃ id face lines camera first0 first1 first2 first3,
    cache.faceCaches id = some face ∧ cache.bodyCaches id = some lines ∧
    (faceArrivals posts id).getLast? = some face ∧
    (∀ i, (lines i).Sublist (bodyArrivals posts id i)) ∧
    (lines 0).head? = some first0 ∧ (lines 1).head? = some first1 ∧
    (lines 2).head? = some first2 ∧ (lines 3).head? = some first3 ∧
    6 ≤ (lines camera).length ∧
    pvs = [face, first0, first1, first2, first3] ++ (lines camera).take 6 ∧ pvs.length = 11

/-- What the store keeps of a vector has five snaps and six tracks. -/
def StoredInFull (pvs : Pvs) : Prop :=
  ∀ uuid now, (Pictures.make uuid now (pictureViews pvs)).snaps.length = 5 ∧
    (Pictures.make uuid now (pictureViews pvs)).tracks.length = 6

/-- If the call hands over a vector, it is one group of eleven views. -/
def OneGroup (posts : List Call) (call : Call) (cache : PictureCache) : Prop :=
  handed call cache ≠ [] →
    IsGroup posts (beforeProcess call cache) (handed call cache) ∧
      StoredInFull (handed call cache)

/-- If the call completes the group of its object, exactly one of the four
lines has at least six pictures. -/
def OneLongLine (call : Call) (cache : PictureCache) : Prop :=
  ∀ lines, Complete (beforeProcess call cache) call.objectId →
    (beforeProcess call cache).bodyCaches call.objectId = some lines →
      ∃! camera, 6 ≤ (lines camera).length

variable {face : PostPictureWrapper} {lines : BodyPictureCacheLine}

def longLines (lines : BodyPictureCacheLine) : Finset (Fin cacheLines) :=
  Finset.univ.filter (fun i => 6 ≤ (lines i).length)

theorem oldest_eq (hfull : ∀ i, lines i ≠ []) :
    ∃ first0 first1 first2 first3, (lines 0).head? = some first0 ∧
      (lines 1).head? = some first1 ∧ (lines 2).head? = some first2 ∧
      (lines 3).head? = some first3 ∧ oldest lines = [first0, first1, first2, first3] := by
  have hhead : ∀ i, ∃ first, (lines i).head? = some first ∧ (lines i).take 1 = [first] := by
    intro i
    cases hline : lines i with
    | nil => exact absurd hline (hfull i)
    | cons first rest => exact ⟨first, rfl, rfl⟩
  obtain ⟨first0, h0, ht0⟩ := hhead 0
  obtain ⟨first1, h1, ht1⟩ := hhead 1
  obtain ⟨first2, h2, ht2⟩ := hhead 2
  obtain ⟨first3, h3, ht3⟩ := hhead 3
  refine ⟨first0, first1, first2, first3, h0, h1, h2, h3, ?_⟩
  simp [oldest, ht0, ht1, ht2, ht3]

theorem lineViews_length (hfull : ∀ i, lines i ≠ []) (line : List PostPictureWrapper) :
    (lineViews face lines line).length = if 6 ≤ line.length then 11 else 0 := by
  obtain ⟨first0, first1, first2, first3, -, -, -, -, holdest⟩ := oldest_eq hfull
  unfold lineViews
  by_cases hlong : 6 ≤ line.length
  · rw [if_pos hlong, if_pos hlong, holdest]
    simp only [List.length_cons, List.length_append, List.length_nil, List.length_take]
    omega
  · rw [if_neg hlong, if_neg hlong]
    rfl

/-- Each long line contributes eleven views. -/
theorem views_length (hfull : ∀ i, lines i ≠ []) :
    (views face lines).length = 11 * (longLines lines).card := by
  have hnone : ¬ hasEmpty lines = true := by
    rw [hasEmpty_eq_false.mpr hfull]
    simp
  have hcard : (longLines lines).card =
      (if 6 ≤ (lines 0).length then 1 else 0) + (if 6 ≤ (lines 1).length then 1 else 0) +
        (if 6 ≤ (lines 2).length then 1 else 0) + (if 6 ≤ (lines 3).length then 1 else 0) := by
    rw [longLines, Finset.card_filter, Fin.sum_univ_four]
  unfold views
  rw [if_neg hnone, hcard]
  simp only [List.length_flatMap, List.map_cons, List.map_nil, List.sum_cons, List.sum_nil,
    lineViews_length hfull]
  split_ifs <;> rfl

theorem card_longLines : (longLines lines).card = 1 ↔ ∃! camera, 6 ≤ (lines camera).length := by
  rw [Finset.card_eq_one]
  unfold longLines
  simp only [Finset.ext_iff, Finset.mem_filter, Finset.mem_univ, true_and, Finset.mem_singleton]
  constructor
  · intro ⟨camera, hcamera⟩
    exact ⟨camera, (hcamera camera).mpr rfl, fun i hi => (hcamera i).mp hi⟩
  · intro ⟨camera, hlong, hunique⟩
    refine ⟨camera, fun i => ⟨hunique i, ?_⟩⟩
    intro heq
    subst heq
    exact hlong

theorem views_eq_of_unique {camera : Fin cacheLines} (hfull : ∀ i, lines i ≠ [])
    (hlong : 6 ≤ (lines camera).length) (hunique : ∀ i, 6 ≤ (lines i).length → i = camera) :
    views face lines = face :: oldest lines ++ (lines camera).take 6 := by
  have hnone : ¬ hasEmpty lines = true := by
    rw [hasEmpty_eq_false.mpr hfull]
    simp
  have hall : [lines 0, lines 1, lines 2, lines 3] = (List.finRange cacheLines).map lines := rfl
  have hother : ∀ i ∈ List.finRange cacheLines, i ≠ camera →
      lineViews face lines (lines i) = [] := by
    intro i _ hi
    rw [lineViews_eq_nil]
    by_contra hlength
    exact hi (hunique i (by omega))
  unfold views
  rw [if_neg hnone, hall, List.flatMap_map,
    flatMap_eq_of_single (List.nodup_finRange _) (List.mem_finRange camera) hother]
  unfold lineViews
  rw [if_pos hlong]

theorem storedInFull_of_length {pvs : Pvs} (h : pvs.length = 11) : StoredInFull pvs := by
  intro uuid now
  have hviews : (pictureViews pvs).length = 11 := by rw [pictureViews, List.length_map, h]
  rw [Pictures.make_eq]
  constructor
  · rw [List.length_take]
    omega
  · rw [List.length_drop]
    omega

variable {cache : PictureCache} {call : Call} {before : List Call}

theorem handed_length (hquiet : Quiet cache)
    (horder : IterationOrder (beforeProcess call cache) call.order)
    (hcomplete : Complete (beforeProcess call cache) call.objectId)
    (hbody : (beforeProcess call cache).bodyCaches call.objectId = some lines) :
    (handed call cache).length = 11 * (longLines lines).card := by
  obtain ⟨face, lines', hface, hbody', hfull, -⟩ := hcomplete
  obtain rfl : lines' = lines := Option.some.inj (hbody'.symm.trans hbody)
  rw [handed_eq hquiet horder, objectViews_eq hface hbody, views_length hfull]

theorem handed_ne_nil (hquiet : Quiet cache)
    (horder : IterationOrder (beforeProcess call cache) call.order) :
    handed call cache ≠ [] ↔ Complete (beforeProcess call cache) call.objectId := by
  rw [handed_eq hquiet horder, objectViews_ne_nil]

theorem oneGroup_of_oneLongLine (hbetween : Between cache) (harrived : Arrived before cache)
    (horder : IterationOrder (beforeProcess call cache) call.order)
    (hline : OneLongLine call cache) : OneGroup (before ++ [call]) call cache := by
  intro hne
  rw [handed_eq hbetween.quiet horder] at hne ⊢
  have hcomplete := objectViews_ne_nil.mp hne
  have hparts := hcomplete
  obtain ⟨face, lines, hface, hbody, hfull, -⟩ := hparts
  obtain ⟨camera, hlong, hunique⟩ := hline lines hcomplete hbody
  have hposted : Arrived (before ++ [call]) (beforeProcess call cache) :=
    arrived_beforeProcess harrived
  obtain ⟨first0, first1, first2, first3, h0, h1, h2, h3, holdest⟩ := oldest_eq hfull
  have hviews : objectViews (beforeProcess call cache) call.objectId =
      [face, first0, first1, first2, first3] ++ (lines camera).take 6 := by
    rw [objectViews_eq hface hbody, views_eq_of_unique hfull hlong hunique, holdest]
  have hlength : (objectViews (beforeProcess call cache) call.objectId).length = 11 := by
    rw [hviews, List.length_append, List.length_take, min_eq_left hlong]
    rfl
  refine ⟨?_, storedInFull_of_length hlength⟩
  exact ⟨call.objectId, face, lines, camera, first0, first1, first2, first3, hface, hbody,
    hposted.face _ _ hface, fun i => hposted.body _ _ i hbody, h0, h1, h2, h3, hlong, hviews,
    hlength⟩

theorem oneLongLine_of_oneGroup (hbetween : Between cache)
    (horder : IterationOrder (beforeProcess call cache) call.order)
    (hgroup : OneGroup (before ++ [call]) call cache) : OneLongLine call cache := by
  intro lines hcomplete hbody
  have hne : handed call cache ≠ [] := (handed_ne_nil hbetween.quiet horder).mpr hcomplete
  obtain ⟨⟨_, _, _, _, _, _, _, _, -, -, -, -, -, -, -, -, -, -, hlength⟩, -⟩ := hgroup hne
  rw [handed_length hbetween.quiet horder hcomplete hbody] at hlength
  rw [← card_longLines]
  omega

section Sample

/-- Object 1 gets a picture of cameras 2 and 3 each, six of camera 0, the given
number of camera 1, and its face last. -/
def faceLast (pictures : ℕ) : List Call :=
  [sampleCall [] 1 .body 2 0, sampleCall [] 1 .body 3 1] ++
    (List.range 6).map (fun n => sampleCall [] 1 .body 0 (2 + n)) ++
    (List.range pictures).map (fun n => sampleCall [] 1 .body 1 (8 + n)) ++
    [sampleCall [1] 1 .face 0 (8 + pictures)]

theorem faceLast_admissible_five : calls.Admissible (faceLast 5) :=
  admissible_of_ordersMatch (faceLast 5) (by decide +kernel)

theorem faceLast_admissible_six : calls.Admissible (faceLast 6) :=
  admissible_of_ordersMatch (faceLast 6) (by decide +kernel)

end Sample

/-- Over a whole run: every vector handed over is one group if and only if
every call that completes a group finds exactly one long line. -/
theorem one_group_iff_one_long_line (inputs : List Call) (h : calls.Admissible inputs) :
    Everywhere (fun before call => OneGroup (before ++ [call]) call (calls.run before)) inputs ↔
      Everywhere (fun before call => OneLongLine call (calls.run before)) inputs := by
  refine (between_inductive.and arrived_inductive).everywhere_congr inputs h ?_
  intro before call ⟨hbetween, harrived⟩ horder
  constructor
  · exact oneLongLine_of_oneGroup hbetween horder
  · exact oneGroup_of_oneLongLine hbetween harrived horder

theorem one_group_iff_on_face_last :
    Everywhere (fun before call => OneGroup (before ++ [call]) call (calls.run before))
        (faceLast 5) ↔
      Everywhere (fun before call => OneLongLine call (calls.run before)) (faceLast 5) :=
  one_group_iff_one_long_line (faceLast 5) faceLast_admissible_five

/-- With six pictures of cameras 0 and 1 the face completes a group that is
handed over as twenty-two views. -/
theorem two_groups_with_two_long_lines :
    calls.Admissible (faceLast 6) ∧
      ¬ Everywhere (fun before call => OneGroup (before ++ [call]) call (calls.run before))
        (faceLast 6) := by
  refine ⟨faceLast_admissible_six, ?_⟩
  intro h
  let before := (faceLast 6).take 14
  let last := sampleCall [1] 1 .face 0 14
  have hlast : OneGroup (before ++ [last]) last (calls.run before) := h before last [] rfl
  have hviews : (handed last (calls.run before)).length = 22 := by decide +kernel
  have hne : handed last (calls.run before) ≠ [] := by
    intro hnil
    simp [hnil] at hviews
  obtain ⟨⟨_, _, _, _, _, _, _, _, -, -, -, -, -, -, -, -, -, -, hlength⟩, -⟩ := hlast hne
  omega

end BeastServer.PublishedGroups
