import BeastServer.ServerSafety
import Mathlib.Data.List.Dedup

/-!
Handlers that wait for nobody.
The sections of a post, of a visit, of a list and of a file can be entered in every
state that the handlers leave, whatever the other threads hold, and there is a bound
on their number. Only the endpoints of the samplings wait, for the mutex that the
destructor of a sampling holds until its thread has been joined.
-/
namespace BeastServer.ServerProgress

open ByteStrings Exceptions Programs HttpMessages JsonValues GroupCompletion CacheSections
open PictureCaches hiding addPicture
open PostedPictures PicturePreviews UriRouters Sections ServerTasks ServerSafety
open Servers hiding handleRequest samplingStatusHandler handlerOf serve

variable {p : Platform} {m : Moment p} {req : Request}

section Orders

/-- A map with finitely many keys can be iterated over. -/
theorem exists_order {cache : PictureCache} (h : ∃ keys, Supported keys cache) :
    ∃ order, IterationOrder cache order := by
  obtain ⟨keys, hkeys⟩ := h
  refine ⟨keys.dedup.filter (fun id => (cache.faceCaches id).isSome), ?_, ?_⟩
  · exact (List.nodup_dedup keys).filter _
  · intro id
    rw [List.mem_filter, List.mem_dedup]
    exact ⟨And.right, fun hid => ⟨hkeys id hid, hid⟩⟩

/-- A moment with the order, on a machine without files. -/
def orderedMoment (p : Platform) (order : List ObjectId) : Moment p where
  post := 0
  created := 0
  now := 0
  order := order
  random := none
  time := 0
  fs := ⟨fun _ => false, fun _ => .error .noSuchFile⟩
  bounded _ _ := rfl
  earlier := []

theorem exists_always (s : Shared) : ∃ i, Always (p := p) i s := ⟨orderedMoment p [], trivial⟩

end Orders

section Bounds

/-- The endpoint works without the mutex of the samplings. -/
def WaitsForNobody (endpoint : Endpoint) : Prop :=
  endpoint ≠ .samplingStart ∧ endpoint ≠ .samplingStatus ∧ endpoint ≠ .samplingStop

/-- The most sections of a request at an endpoint that waits for nobody. -/
def sectionsOf (p : Platform) : ℕ := 7 + p.pathMax

theorem waitless_onCache {α : Type} {x : Moment p → PictureCaches.CacheProgram α} :
    Waitless (agreement p) 1 (onCache x) :=
  waitless_atomic (fun s _ => exists_always s)

theorem waitless_onPreviews {α : Type} {x : Moment p → PicturePreviews.HandlerProgram α} :
    Waitless (agreement p) 1 (onPreviews x) :=
  waitless_atomic (fun s _ => exists_always s)

theorem waitless_caught {α : Type} {n : ℕ} {clauses : Exception → Exception}
    {task : HandlerTask p α} (h : Waitless (agreement p) n task) :
    Waitless (agreement p) n (caught clauses task) :=
  waitless_bind (Nat.add_zero n) h (fun _ => .finished 0 _)

theorem waitless_addPicture {picture : PostPictureWrapper} :
    Waitless (agreement p) 3 (addPicture p picture) := by
  unfold addPicture
  apply waitless_andThen (by omega : 1 + 2 = 3) waitless_onCache
  intro _
  apply waitless_andThen (by omega : 1 + 1 = 2) waitless_onCache
  intro _
  apply waitless_atomic
  intro s hsourced
  obtain ⟨order, horder⟩ := exists_order hsourced.finite
  exact ⟨orderedMoment p order, horder⟩

theorem waitless_chooseId {random : Option Uuid} :
    Waitless (agreement p) 2 (chooseId p random) := by
  unfold chooseId
  cases random with
  | some uuid => exact .finished 2 _
  | none =>
    apply waitless_bind (by omega : 1 + 1 = 2) (waitless_atomic (fun s _ => exists_always s))
    intro uuid
    cases uuid with
    | some uuid => exact .finished 1 _
    | none => exact waitless_atomic (fun s _ => exists_always s)

theorem waitless_createPreview {pvs : Pvs} :
    Waitless (agreement p) 4 (createPreview p pvs) := by
  unfold createPreview
  split
  · exact .finished 4 _
  apply waitless_bind (by omega : 1 + 3 = 4) (waitless_atomic (fun s _ => exists_always s))
  intro now
  apply waitless_bind (by omega : 2 + 1 = 3) waitless_chooseId
  exact fun id => waitless_atomic (fun s _ => exists_always s)

theorem waitless_picPostHandler : Waitless (agreement p) 7 (picPostHandler p m req) := by
  unfold picPostHandler
  apply waitless_caught
  apply waitless_andThen (Nat.zero_add 7) (.finished 0 _)
  intro json
  apply waitless_andThen (Nat.zero_add 7) (.finished 0 _)
  intro picture
  apply waitless_andThen (by omega : 3 + 4 = 7) waitless_addPicture
  intro pvs
  exact waitless_andThen (Nat.add_zero 4) waitless_createPreview (fun _ => .finished 0 _)

theorem waitless_picListHandler : Waitless (agreement p) 1 (picListHandler p req) :=
  waitless_andThen (Nat.add_zero 1) waitless_onPreviews (fun _ => .finished 0 _)

theorem waitless_handleRequest {n : ℕ} {func : Request → HandlerTask p Json}
    (h : Waitless (agreement p) n (func req)) :
    Waitless (agreement p) n (handleRequest p func req) := by
  unfold handleRequest
  split
  · exact .finished n _
  · exact waitless_bind (Nat.add_zero n) h (fun _ => .finished 0 _)

theorem waitless_pictureHandler : Waitless (agreement p) 1 (pictureHandler p req) := by
  unfold pictureHandler
  split
  · exact .finished 1 _
  apply waitless_bind (Nat.add_zero 1) waitless_onPreviews
  intro r
  cases r with
  | ok res => exact .finished 0 _
  | error ex => exact .finished 0 _

/-- The path gets longer in each round, and no long path is a directory, even if the
files change in between. -/
theorem waitless_indexLoop (rounds : ℕ) {path : Bytes} (hnul : 0 ∉ path)
    (hlong : p.pathMax < path.length + rounds) :
    Waitless (agreement p) (rounds + 1) (indexLoop p (rounds + 1) path) := by
  induction rounds generalizing path with
  | zero =>
    refine .enter (fun s _ => exists_always s) ?_
    intro i s _ _
    have hfile : i.fs.isDirectory (StaticRequests.cString path) = false := by
      rw [ContainedPaths.cString_eq hnul]
      exact i.bounded path (by omega)
    rw [if_neg (by simp [hfile])]
    exact .finished 0 path
  | succ rounds ih =>
    refine .enter (fun s _ => exists_always s) ?_
    intro i s _ _
    split
    · have hindex : (ascii "/index.html").length = 11 := by decide
      have hnone : 0 ∉ ascii "/index.html" := by decide
      apply ih
      · rw [List.mem_append, not_or]
        exact ⟨hnul, hnone⟩
      · rw [List.length_append, hindex]
        omega
    · exact .finished _ path

theorem waitless_staticHandler (hnul : 0 ∉ req.target) :
    Waitless (agreement p) (p.pathMax + 3) (staticHandler p req) := by
  unfold staticHandler
  split
  · exact .finished _ _
  split
  · exact .finished _ _
  have hloop : Waitless (agreement p) (p.pathMax + 2)
      (indexLoop p (p.pathMax + 2) (StaticRequests.startPath p.documentRoot req.target)) :=
    waitless_indexLoop (p.pathMax + 1) (ContainedPaths.startPath_nul p.root_nul hnul) (by omega)
  apply waitless_bind (by omega : (p.pathMax + 2) + 1 = p.pathMax + 3) hloop
  exact fun path => waitless_atomic (fun s _ => exists_always s)

/-- The sections of a request outside of the samplings can always be entered. -/
theorem waitless_serve (hnul : 0 ∉ req.target) (h : WaitsForNobody (routed req.target)) :
    Waitless (agreement p) (sectionsOf p) (serve p m req) := by
  unfold serve sectionsOf
  generalize routed req.target = endpoint at h
  cases endpoint with
  | version => exact waitless_handleRequest (.finished _ _)
  | samplingStart => exact absurd rfl h.1
  | samplingStatus => exact absurd rfl h.2.1
  | samplingStop => exact absurd rfl h.2.2
  | picture => exact waitless_mono waitless_pictureHandler (by omega)
  | pictures => exact waitless_mono (waitless_handleRequest waitless_picPostHandler) (by omega)
  | preview => exact waitless_mono (waitless_handleRequest waitless_picListHandler) (by omega)
  | static => exact waitless_mono (waitless_staticHandler hnul) (by omega)

end Bounds

end BeastServer.ServerProgress
