import BeastServer.SequentialCalls

/-!
Calls of addPicture by any number of threads.
The mutex is released between the three sections of a call, so the sections of
different calls interleave in any order; each section is one step. Several
groups can then be complete when one thread runs process, and the vector it
hands over holds the views of all of them.
-/
namespace BeastServer.ConcurrentCalls

open PostedPictures Programs PictureCaches GroupCompletion CacheSections SequentialCalls Machines

abbrev ThreadId := ℕ

inductive ThreadState
  | idle
  | called (picture : PostPictureWrapper)
  | cleaned (picture : PostPictureWrapper)
  | added

structure Shared where
  cache : PictureCache
  threads : ThreadId → ThreadState

def Shared.setThread (s : Shared) (thread : ThreadId) (state : ThreadState) : Shared :=
  { s with threads := Function.update s.threads thread state }

inductive Event
  | call (thread : ThreadId) (picture : PostPictureWrapper)
  | cleanup (thread : ThreadId) (now : ℤ)
  | insert (thread : ThreadId)
  | process (thread : ThreadId) (order : List ObjectId)

/-- The section that inserts; where it throws, the call ends. -/
def insertSection (s : Shared) (thread : ThreadId) (picture : PostPictureWrapper) : Shared :=
  match (addNewPic picture).run s.cache with
  | .ok _ cache => { s with cache := cache }.setThread thread .added
  | .error _ cache => { s with cache := cache }.setThread thread .idle

/-- One step of one thread; an event that does not fit the thread does nothing. -/
def step (s : Shared) : Event → Shared
  | .call thread picture => s.setThread thread (.called picture)
  | .cleanup thread now =>
    match s.threads thread with
    | .called picture =>
      { s with cache := PictureCaches.cleanup now s.cache }.setThread thread (.cleaned picture)
    | _ => s
  | .insert thread =>
    match s.threads thread with
    | .cleaned picture => insertSection s thread picture
    | _ => s
  | .process thread order =>
    match s.threads thread with
    | .added =>
      { s with cache := finalState (PictureCaches.process order) s.cache }.setThread thread .idle
    | _ => s

def enabled (s : Shared) : Event → Prop
  | .call thread _ => s.threads thread = .idle
  | .cleanup thread _ => ∃ picture, s.threads thread = .called picture
  | .insert thread => ∃ picture, s.threads thread = .cleaned picture
  | .process thread order => s.threads thread = .added ∧ IterationOrder s.cache order

def threads : Machine Shared Event where
  init := ⟨PictureCache.empty, fun _ => .idle⟩
  enabled := enabled
  step := step

/-- The vector that the step gives to createPreview, empty when it gives none. -/
def handed (s : Shared) : Event → Pvs
  | .process _ order => (returned (PictureCaches.process order) s.cache).getD []
  | _ => []

/-- The pictures of the vector are all of one object. -/
def OneObject (pvs : Pvs) : Prop := ∃ id, ∀ picture ∈ pvs, picture.picture.objectId = id

/-- When a thread runs process, at most one group is complete. -/
def AtMostOneComplete (s : Shared) : Event → Prop
  | .process _ _ => ∀ id id', Complete s.cache id → Complete s.cache id' → id = id'
  | _ => True

variable {s : Shared}

theorem keyed_insertSection (thread : ThreadId) (picture : PostPictureWrapper)
    (h : Keyed s.cache) : Keyed (insertSection s thread picture).cache := by
  unfold insertSection
  by_cases haccepted : Accepted picture
  · rw [addNewPic_run haccepted]
    exact keyed_inserted h
  · rw [addNewPic_throws haccepted]
    exact keyed_inserted h

theorem keyed_step (event : Event) (h : Keyed s.cache) (henabled : enabled s event) :
    Keyed (step s event).cache := by
  cases event with
  | call thread picture => exact h
  | cleanup thread now =>
    obtain ⟨picture, hthread⟩ := henabled
    simp only [step, hthread]
    exact keyed_cleanup h
  | insert thread =>
    obtain ⟨picture, hthread⟩ := henabled
    simp only [step, hthread]
    exact keyed_insertSection thread picture h
  | process thread order =>
    obtain ⟨hthread, horder⟩ := henabled
    simp only [step, hthread, finalState_ok (process_run order horder)]
    exact keyed_eraseAll h _

theorem keyed_inductive : threads.Inductive (fun _ s => Keyed s.cache) := by
  refine Machine.inductive_of_step ⟨?_, ?_⟩ (fun s event => keyed_step event)
  · intro id picture h
    simp [threads, PictureCache.empty] at h
  · intro id lines i picture h
    simp [threads, PictureCache.empty] at h

theorem handed_process {thread : ThreadId} {order : List ObjectId}
    (horder : IterationOrder s.cache order) :
    handed s (.process thread order) = handedOver s.cache order := by
  simp only [handed, returned_ok (process_run order horder), Option.getD_some]

theorem oneObject_iff_atMostOneComplete (event : Event) (h : Keyed s.cache)
    (henabled : enabled s event) : OneObject (handed s event) ↔ AtMostOneComplete s event := by
  cases event with
  | call thread picture => exact ⟨fun _ => trivial, fun _ => ⟨0, by simp [handed]⟩⟩
  | cleanup thread now => exact ⟨fun _ => trivial, fun _ => ⟨0, by simp [handed]⟩⟩
  | insert thread => exact ⟨fun _ => trivial, fun _ => ⟨0, by simp [handed]⟩⟩
  | process thread order =>
    obtain ⟨-, horder⟩ := henabled
    rw [handed_process horder]
    have hviewed : ∀ id, Complete s.cache id →
        ∃ picture ∈ handedOver s.cache order, picture.picture.objectId = id := by
      intro id hcomplete
      rw [exists_mem_handedOver h]
      exact ⟨complete_mem_candidates order horder hcomplete, hcomplete⟩
    have hcomplete : ∀ picture ∈ handedOver s.cache order,
        Complete s.cache picture.picture.objectId := by
      intro picture hmem
      exact ((exists_mem_handedOver h order).mp ⟨picture, hmem, rfl⟩).2
    constructor
    · intro ⟨id, hall⟩ a b ha hb
      obtain ⟨pictureA, hmemA, rfl⟩ := hviewed a ha
      obtain ⟨pictureB, hmemB, rfl⟩ := hviewed b hb
      rw [hall pictureA hmemA, hall pictureB hmemB]
    · intro hone
      cases hpvs : handedOver s.cache order with
      | nil => exact ⟨0, by simp⟩
      | cons first rest =>
        refine ⟨first.picture.objectId, ?_⟩
        intro picture hmem
        rw [← hpvs] at hmem
        have hfirst : first ∈ handedOver s.cache order := by
          rw [hpvs]
          exact List.mem_cons_self
        exact hone _ _ (hcomplete picture hmem) (hcomplete first hfirst)

section Checked

/-- The key that the event may add to the faces. -/
def newKeys (s : Shared) : Event → List ObjectId
  | .insert thread =>
    match s.threads thread with
    | .cleaned picture => [picture.picture.objectId]
    | _ => []
  | _ => []

def eventMatches (s : Shared) (keys : List ObjectId) : Event → Bool
  | .call thread _ => match s.threads thread with
    | .idle => true
    | _ => false
  | .cleanup thread _ => match s.threads thread with
    | .called _ => true
    | _ => false
  | .insert thread => match s.threads thread with
    | .cleaned _ => true
    | _ => false
  | .process thread order => match s.threads thread with
    | .added => listsFaces s.cache keys order
    | _ => false

/-- All events are checked on the way; keys lists the objects so far. -/
def eventsMatch (s : Shared) (keys : List ObjectId) : List Event → Bool
  | [] => true
  | event :: rest =>
    eventMatches s keys event && eventsMatch (step s event) (newKeys s event ++ keys) rest

theorem enabled_of_eventMatches {keys : List ObjectId} (event : Event)
    (hkeys : Supported keys s.cache) (h : eventMatches s keys event = true) :
    enabled s event := by
  cases event with
  | call thread picture =>
    cases hthread : s.threads thread <;> simp [eventMatches, enabled, hthread] at h ⊢
  | cleanup thread now =>
    cases hthread : s.threads thread <;> simp [eventMatches, enabled, hthread] at h ⊢
  | insert thread =>
    cases hthread : s.threads thread <;> simp [eventMatches, enabled, hthread] at h ⊢
  | process thread order =>
    cases hthread : s.threads thread <;> simp [eventMatches, hthread] at h
    exact ⟨hthread, iterationOrder_of_listsFaces hkeys h⟩

theorem supported_step {keys : List ObjectId} (event : Event) (hkeys : Supported keys s.cache)
    (henabled : enabled s event) : Supported (newKeys s event ++ keys) (step s event).cache := by
  cases event with
  | call thread picture => exact hkeys
  | cleanup thread now =>
    obtain ⟨picture, hthread⟩ := henabled
    simp only [step, hthread]
    exact supported_cleanup hkeys
  | insert thread =>
    obtain ⟨picture, hthread⟩ := henabled
    simp only [step, newKeys, hthread, insertSection]
    by_cases haccepted : Accepted picture
    · rw [addNewPic_run haccepted]
      exact supported_inserted hkeys
    · rw [addNewPic_throws haccepted]
      exact supported_inserted hkeys
  | process thread order =>
    obtain ⟨hthread, horder⟩ := henabled
    simp only [step, newKeys, hthread, finalState_ok (process_run order horder)]
    exact supported_eraseAll _ hkeys

/-- A sequence of events that pass the check is an interleaving of calls. -/
theorem admissible_of_eventsMatch (inputs : List Event)
    (h : eventsMatch threads.init [] inputs = true) : threads.Admissible inputs := by
  have hcons : ∀ s keys event rest, Supported keys s.cache →
      eventsMatch s keys (event :: rest) = true →
      enabled s event ∧ ∃ keys', Supported keys' (step s event).cache ∧
        eventsMatch (step s event) keys' rest = true := by
    intro s keys event rest hkeys hcheck
    obtain ⟨hfirst, hrest⟩ := Bool.and_eq_true_iff.mp hcheck
    have henabled := enabled_of_eventMatches event hkeys hfirst
    exact ⟨henabled, _, supported_step event hkeys henabled, hrest⟩
  exact Machine.admissible_of_check threads hcons inputs [] supported_empty h

end Checked

section Samples

def wholeCall (thread : ThreadId) (order : List ObjectId) (picture : PostPictureWrapper) :
    List Event :=
  [.call thread picture, .cleanup thread 0, .insert thread, .process thread order]

/-- Everything but the sixth picture of camera 0. -/
def almostComplete (thread : ThreadId) (order : List ObjectId) (id : ObjectId) : List Event :=
  ([samplePicture id .face 0 0, samplePicture id .body 1 1, samplePicture id .body 2 2,
    samplePicture id .body 3 3, samplePicture id .body 0 4, samplePicture id .body 0 5,
    samplePicture id .body 0 6, samplePicture id .body 0 7,
    samplePicture id .body 0 8].map (wholeCall thread order)).flatten

/-- Both threads add a sixth picture before one of them runs process. -/
def bothComplete : List Event :=
  almostComplete 0 [1] 1 ++ almostComplete 1 [1, 2] 2 ++
    [.call 0 (samplePicture 1 .body 0 9), .call 1 (samplePicture 2 .body 0 9),
      .cleanup 0 0, .cleanup 1 0, .insert 0, .insert 1, .process 0 [1, 2]]

def oneComplete : List Event :=
  almostComplete 0 [1] 1 ++ wholeCall 1 [1] (samplePicture 1 .body 0 9)

theorem bothComplete_admissible : threads.Admissible bothComplete :=
  admissible_of_eventsMatch bothComplete (by decide +kernel)

theorem oneComplete_admissible : threads.Admissible oneComplete :=
  admissible_of_eventsMatch oneComplete (by decide +kernel)

end Samples

/-- Over a whole interleaving: every vector shows one object if and only if
every process section runs with at most one complete group. -/
theorem one_object_iff_at_most_one_complete (inputs : List Event)
    (h : threads.Admissible inputs) :
    Everywhere (fun before event => OneObject (handed (threads.run before) event)) inputs ↔
      Everywhere (fun before event => AtMostOneComplete (threads.run before) event) inputs := by
  refine keyed_inductive.everywhere_congr inputs h ?_
  intro before event hkeyed henabled
  exact oneObject_iff_atMostOneComplete event hkeyed henabled

theorem one_object_iff_on_one_complete :
    Everywhere (fun before event => OneObject (handed (threads.run before) event)) oneComplete ↔
      Everywhere (fun before event => AtMostOneComplete (threads.run before) event)
        oneComplete :=
  one_object_iff_at_most_one_complete oneComplete oneComplete_admissible

/-- The first thread hands over the pictures of both objects. -/
theorem two_objects_in_one_vector :
    threads.Admissible bothComplete ∧
      ¬ Everywhere (fun before event => OneObject (handed (threads.run before) event))
        bothComplete := by
  refine ⟨bothComplete_admissible, ?_⟩
  intro h
  let before := bothComplete.take 78
  obtain ⟨id, hall⟩ := h before (.process 0 [1, 2]) [] rfl
  have hfirst : samplePicture 1 .face 0 0 ∈ handed (threads.run before) (.process 0 [1, 2]) := by
    decide +kernel
  have hsecond : samplePicture 2 .face 0 0 ∈ handed (threads.run before) (.process 0 [1, 2]) := by
    decide +kernel
  have hdifferent : (samplePicture 1 .face 0 0).picture.objectId =
      (samplePicture 2 .face 0 0).picture.objectId :=
    (hall _ hfirst).trans (hall _ hsecond).symm
  exact absurd hdifferent (by decide)

end BeastServer.ConcurrentCalls
