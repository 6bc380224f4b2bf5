import BeastServer.ConcurrentCalls
import BeastServer.Custody

/-!
Each posted picture is shown by one preview at most.
A picture is in the custody of the thread that posts it until the thread
inserts it, and then of its object in the cache. Every object that contributes
to the vector of views is erased in the same critical section, so the pictures
that are handed over leave the custody of the cache whatever the threads do.
-/
namespace BeastServer.PublishedOnce

open PostedPictures Programs PictureCaches GroupCompletion CacheSections ConcurrentCalls
open Machines Custody

inductive Custodian
  | thread (thread : ThreadId)
  | object (id : ObjectId)

/-- The thread has posted the picture and not inserted it yet. -/
def Carries : ThreadState → ℕ → Prop
  | .idle, _ => False
  | .called picture, post => picture.post = post
  | .cleaned picture, post => picture.post = post
  | .added, _ => False

/-- The face or a body picture of the object was made by the post. -/
def Caches (cache : PictureCache) (id : ObjectId) (post : ℕ) : Prop :=
  (∃ picture, cache.faceCaches id = some picture ∧ picture.post = post) ∨
    ∃ lines i picture, cache.bodyCaches id = some lines ∧ picture ∈ lines i ∧
      picture.post = post

def Holds (s : Shared) : Custodian → ℕ → Prop
  | .thread thread, post => Carries (s.threads thread) post
  | .object id, post => Caches s.cache id post

def newPosts : Event → List ℕ
  | .call _ picture => [picture.post]
  | .cleanup _ _ => []
  | .insert _ => []
  | .process _ _ => []

/-- The posts that made the pictures given to createPreview. -/
def publishedPosts (s : Shared) (event : Event) : List ℕ :=
  (handed s event).map PostPictureWrapper.post

variable {s : Shared} {cache : PictureCache} {id : ObjectId} {post : ℕ}
  {picture : PostPictureWrapper}

theorem caches_cleanup {now : ℤ} (h : Caches (cleanup now cache) id post) :
    Caches cache id post := by
  rcases h with ⟨w, hface, hpost⟩ | ⟨lines, i, w, hbody, hmem, hpost⟩
  · exact Or.inl ⟨w, (cleanup_face.mp hface).1, hpost⟩
  · obtain ⟨before, hbefore, rfl, -⟩ := cleanup_body.mp hbody
    exact Or.inr ⟨before, i, w, hbefore, (mem_removePictureExpired.mp hmem).1, hpost⟩

theorem caches_inserted (h : Caches (inserted picture cache) id post) :
    Caches cache id post ∨ (id = picture.picture.objectId ∧ post = picture.post) := by
  rcases h with ⟨w, hface, hpost⟩ | ⟨lines, i, w, hbody, hmem, hpost⟩
  · rw [inserted_face] at hface
    split at hface
    · rename_i hown
      obtain rfl := Option.some.inj hface
      exact Or.inr ⟨hown.2, hpost.symm⟩
    · exact Or.inl (Or.inl ⟨w, hface, hpost⟩)
  · rw [inserted_body] at hbody
    split at hbody
    · rename_i hown
      obtain rfl := Option.some.inj hbody
      rcases mem_addToLine.mp hmem with hold | ⟨rfl, -⟩
      · obtain ⟨before, hbefore, hmem'⟩ := mem_linesOf hold
        exact Or.inl (Or.inr ⟨before, i, w, hbefore, hmem', hpost⟩)
      · exact Or.inr ⟨hown.2, hpost.symm⟩
    · exact Or.inl (Or.inr ⟨lines, i, w, hbody, hmem, hpost⟩)

theorem caches_eraseAll {ids : List ObjectId} (h : Caches (eraseAll ids cache) id post) :
    Caches cache id post ∧ id ∉ ids := by
  rcases h with ⟨w, hface, hpost⟩ | ⟨lines, i, w, hbody, hmem, hpost⟩
  · obtain ⟨hold, hkept⟩ := face_of_eraseAll hface
    exact ⟨Or.inl ⟨w, hold, hpost⟩, hkept⟩
  · obtain ⟨hold, hkept⟩ := body_of_eraseAll hbody
    exact ⟨Or.inr ⟨lines, i, w, hold, hmem, hpost⟩, hkept⟩

theorem caches_of_mem_objectViews (h : picture ∈ objectViews cache id) :
    Caches cache id picture.post := by
  rcases mem_objectViews h with hface | ⟨lines, i, hbody, hmem⟩
  · exact Or.inl ⟨picture, hface, rfl⟩
  · exact Or.inr ⟨lines, i, picture, hbody, hmem, rfl⟩

/-- What is handed over was cached for an object that is erased. -/
theorem erased_of_mem_handedOver {order : List ObjectId} (h : picture ∈ handedOver cache order) :
    ∃ id ∈ erased cache order, Caches cache id picture.post := by
  obtain ⟨id, hid, hview⟩ := List.mem_flatMap.mp h
  have hcomplete : Complete cache id := objectViews_ne_nil.mp (List.ne_nil_of_mem hview)
  obtain ⟨pre, rest, heq⟩ := List.append_of_mem hid
  refine ⟨id, ?_, caches_of_mem_objectViews hview⟩
  exact (mem_erased order).mpr ⟨pre, id, rest, heq, hcomplete, Or.inl rfl⟩

theorem carries_setThread {thread a : ThreadId} {state : ThreadState}
    (h : Carries ((s.setThread thread state).threads a) post) :
    (a ≠ thread ∧ Carries (s.threads a) post) ∨ (a = thread ∧ Carries state post) := by
  by_cases ha : a = thread
  · subst ha
    exact Or.inr ⟨rfl, by simpa [Shared.setThread] using h⟩
  · exact Or.inl ⟨ha, by simpa [Shared.setThread, Function.update, ha] using h⟩

/-- The section that inserts leaves the thread without the picture. -/
theorem insertSection_eq (thread : ThreadId) :
    ∃ state, (∀ post, ¬ Carries state post) ∧
      insertSection s thread picture =
        { s with cache := inserted picture s.cache }.setThread thread state := by
  unfold insertSection
  by_cases haccepted : Accepted picture
  · rw [addNewPic_run haccepted]
    exact ⟨.added, fun _ h => h, rfl⟩
  · rw [addNewPic_throws haccepted]
    exact ⟨.idle, fun _ h => h, rfl⟩

theorem handover_call (thread : ThreadId) (picture : PostPictureWrapper) :
    Handover (Holds s) (Holds (step s (.call thread picture))) [picture.post] [] := by
  refine handover_bring (.thread thread) picture.post ?_
  intro custodian post h
  cases custodian with
  | object id => exact Or.inl h
  | thread a =>
    rcases carries_setThread h with ⟨-, hold⟩ | ⟨rfl, hnew⟩
    · exact Or.inl hold
    · exact Or.inr ⟨rfl, hnew.symm⟩

theorem handover_cleanup {thread : ThreadId} (now : ℤ)
    (hthread : s.threads thread = .called picture) :
    Handover (Holds s) (Holds (step s (.cleanup thread now))) [] [] := by
  simp only [step, hthread]
  refine handover_of_le ?_
  intro custodian post h
  cases custodian with
  | object id => exact caches_cleanup h
  | thread a =>
    rcases carries_setThread h with ⟨-, hold⟩ | ⟨rfl, hsame⟩
    · exact hold
    · change Carries (s.threads a) post
      rw [hthread]
      exact hsame

theorem handover_insert {thread : ThreadId} (hthread : s.threads thread = .cleaned picture) :
    Handover (Holds s) (Holds (step s (.insert thread))) [] [] := by
  obtain ⟨state, hnone, heq⟩ := @insertSection_eq s picture thread
  simp only [step, hthread, heq]
  refine handover_move (.thread thread) (.object picture.picture.objectId) picture.post ?_ ?_
  · change Carries (s.threads thread) picture.post
    rw [hthread]
    rfl
  · intro custodian post h
    cases custodian with
    | object id =>
      rcases caches_inserted h with hold | ⟨rfl, hpost⟩
      · exact Or.inl ⟨by simp, hold⟩
      · exact Or.inr ⟨rfl, hpost⟩
    | thread a =>
      rcases carries_setThread h with ⟨hne, hold⟩ | ⟨-, hcarried⟩
      · exact Or.inl ⟨by simpa using hne, hold⟩
      · exact absurd hcarried (hnone post)

theorem handover_process {thread : ThreadId} {order : List ObjectId}
    (hthread : s.threads thread = .added) (horder : IterationOrder s.cache order) :
    Handover (Holds s) (Holds (step s (.process thread order))) []
      (publishedPosts s (.process thread order)) := by
  simp only [step, hthread, finalState_ok (process_run order horder)]
  refine handover_takeOut (fun custodian => ∃ id ∈ erased s.cache order, custodian = .object id)
    ?_ ?_
  · intro custodian post h
    cases custodian with
    | object id =>
      obtain ⟨hold, hkept⟩ := caches_eraseAll h
      exact ⟨hold, by simpa using hkept⟩
    | thread a =>
      rcases carries_setThread h with ⟨-, hold⟩ | ⟨-, hcarried⟩
      · exact ⟨hold, by simp⟩
      · exact absurd hcarried (fun h => h)
  · intro post hpost
    obtain ⟨picture, hmem, rfl⟩ := List.mem_map.mp hpost
    rw [handed_process horder] at hmem
    obtain ⟨id, hid, hcached⟩ := erased_of_mem_handedOver hmem
    exact ⟨.object id, ⟨id, hid, rfl⟩, hcached⟩

theorem handover_step (event : Event) (henabled : enabled s event) :
    Handover (Holds s) (Holds (step s event)) (newPosts event) (publishedPosts s event) := by
  cases event with
  | call thread picture => exact handover_call thread picture
  | cleanup thread now =>
    obtain ⟨picture, hthread⟩ := henabled
    exact handover_cleanup now hthread
  | insert thread =>
    obtain ⟨picture, hthread⟩ := henabled
    exact handover_insert hthread
  | process thread order => exact handover_process henabled.1 henabled.2

section Sample

/-- One thread completes two objects, one after the other. -/
def groupCalls (id : ObjectId) (first : ℕ) : List Event :=
  ([SequentialCalls.samplePicture id .face 0 first,
    SequentialCalls.samplePicture id .body 1 (first + 1),
    SequentialCalls.samplePicture id .body 2 (first + 2),
    SequentialCalls.samplePicture id .body 3 (first + 3),
    SequentialCalls.samplePicture id .body 0 (first + 4),
    SequentialCalls.samplePicture id .body 0 (first + 5),
    SequentialCalls.samplePicture id .body 0 (first + 6),
    SequentialCalls.samplePicture id .body 0 (first + 7),
    SequentialCalls.samplePicture id .body 0 (first + 8),
    SequentialCalls.samplePicture id .body 0 (first + 9)].map (wholeCall 0 [id])).flatten

end Sample

/-- Over a whole interleaving: a post that a step publishes has not been
published by an earlier step. -/
theorem published_once (inputs : List Event) (h : threads.Admissible inputs)
    (hposts : (inputs.flatMap newPosts).Nodup) :
    Everywhere (fun before event => ∀ post ∈ publishedPosts (threads.run before) event,
      Everywhere (fun earlier other => post ∉ publishedPosts (threads.run earlier) other)
        before) inputs := by
  have hstart : ∀ custodian post, ¬ Holds threads.init custodian post := by
    intro custodian post hheld
    cases custodian with
    | thread thread => exact hheld
    | object id => simp [Holds, Caches, threads, PictureCache.empty] at hheld
  exact taken_out_once hstart (fun s event => handover_step event) inputs h hposts

/-- Two vectors of eleven views are handed over in this run. -/
theorem published_once_two_groups :
    Everywhere (fun before event => ∀ post ∈ publishedPosts (threads.run before) event,
      Everywhere (fun earlier other => post ∉ publishedPosts (threads.run earlier) other)
        before) (groupCalls 1 0 ++ groupCalls 2 10) :=
  published_once (groupCalls 1 0 ++ groupCalls 2 10)
    (admissible_of_eventsMatch _ (by decide +kernel)) (by decide +kernel)

end BeastServer.PublishedOnce
