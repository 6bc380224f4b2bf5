import BeastServer.PreviewStores
import BeastServer.PublishedGroups
import BeastServer.UriRouters

/-!
The picture URLs of the previews that listPreview returns.
Posted pictures pass the grouping cache and the vectors it hands over become
previews in the store. A URL of a preview is routed to the picture handler as
long as its index is a single digit, which holds for every snap and for the six
tracks of one group, but not for the seventeen tracks of two groups.
-/
namespace BeastServer.AdvertisedUrls

open ByteStrings PictureCaches GroupCompletion SequentialCalls PublishedGroups PicturePreviews
open PreviewStores UriRouters Machines
open PicturePreviewHandler (makeId createPreview nextSeq listPreview)

structure Service where
  cache : PictureCache
  store : PicturePreviewHandler

/-- One posted picture, with the outcome of the random generator and the time
of its preview, which are used if the call publishes one. -/
structure Post where
  call : Call
  random : Option Uuid
  time : ℤ

def picPreviewCacheNum : ℕ := 30

def publish (generator : StringGenerator) (post : Post) (pvs : Pvs)
    (store : PicturePreviewHandler) : PicturePreviewHandler :=
  if pvs.isEmpty then store
  else createPreview generator post.random post.time (pictureViews pvs) store

/-- A random uuid, where the generator gives one, is none of the retained ids. -/
def FreshUuid (post : Post) (store : PicturePreviewHandler) : Prop :=
  ∀ uuid, post.random = some uuid → uuid.toString ∉ store.ids

def service (generator : StringGenerator) : Machine Service Post where
  init := ⟨PictureCache.empty, PicturePreviewHandler.make picPreviewCacheNum⟩
  enabled s post :=
    IterationOrder (beforeProcess post.call s.cache) post.call.order ∧ FreshUuid post s.store
  step s post :=
    ⟨afterCall post.call s.cache, publish generator post (handed post.call s.cache) s.store⟩

/-- Every URL of every preview that listPreview returns is routed to the
picture handler. -/
def AllRouted (store : PicturePreviewHandler) : Prop :=
  ∀ prev limit previews after, (listPreview prev limit).run store = .ok previews after →
    ∀ p ∈ previews, ∀ url ∈ p.getSnapUrls ++ p.getTrackUrls, Routed url

section Ids

theorem mem_uuidLetters_of_isDigit {c : UInt8} (h : isDigit c = true) : c ∈ uuidLetters := by
  have hletters : ∀ n : Fin 10, UInt8.ofNat (48 + n.val) ∈ uuidLetters := by decide
  obtain ⟨n, rfl⟩ := exists_digit h
  exact hletters n

theorem mem_uuidLetters_of_hexDigits {byte c : UInt8} (h : c ∈ hexDigits byte) :
    c ∈ uuidLetters := by
  have hletters : ∀ n : Fin 16, (Nat.digitChar n.val).toUInt8 ∈ uuidLetters := by decide
  have hbyte := UInt8.toNat_lt byte
  rcases List.mem_cons.mp h with rfl | h
  · exact hletters ⟨byte.toNat / 16, by omega⟩
  · rw [List.mem_singleton.mp h]
    exact hletters ⟨byte.toNat % 16, by omega⟩

theorem toString_length (uuid : Uuid) : uuid.toString.length = 36 := by
  simp [Uuid.toString, hexDigits, List.finRange_succ, ascii]

theorem toString_letters (uuid : Uuid) : ∀ c ∈ uuid.toString, c ∈ uuidLetters := by
  intro c hc
  obtain ⟨i, -, hmem⟩ := List.mem_flatMap.mp hc
  rcases List.mem_append.mp hmem with hhex | hdash
  · exact mem_uuidLetters_of_hexDigits hhex
  · split at hdash
    · rw [List.mem_singleton.mp hdash]
      decide
    · simp at hdash

theorem seq_length (seq : UInt64) : (decimal seq.toNat).length ≤ 20 := by
  refine decimal_length_le (by omega) ?_
  have := seq.toNat_lt
  omega

/-- The uuid parser refuses a sequence number, so its digits are the id. -/
theorem makeId_none (generator : StringGenerator) (seq : UInt64) :
    makeId generator none seq = decimal seq.toNat := by
  have hshort := seq_length seq
  have hrefused : generator.parse (decimal seq.toNat) = none :=
    generator.needs_digits _ (by omega)
  simp [makeId, hrefused]

theorem makeId_letters (generator : StringGenerator) (random : Option Uuid) (seq : UInt64) :
    makeId generator random seq ≠ [] ∧
      ∀ c ∈ makeId generator random seq, c ∈ uuidLetters := by
  cases random with
  | none =>
    rw [makeId_none]
    exact ⟨decimal_ne_nil _, fun c hc => mem_uuidLetters_of_isDigit (isDigit_of_mem_decimal hc)⟩
  | some uuid =>
    refine ⟨?_, toString_letters uuid⟩
    intro hnil
    have hlength := toString_length uuid
    change uuid.toString = [] at hnil
    simp [hnil] at hlength

end Ids

section Store

/-- The ids of the store, newest first: each is a uuid or the sequence number
of its preview. -/
structure Window (store : PicturePreviewHandler) : Prop where
  limit : store.cacheLimit = picPreviewCacheNum
  retained : Retained store
  ids : ∀ i id, store.ids[i]? = some id →
    (∃ uuid : Uuid, id = uuid.toString) ∨ id = decimal (store.seq - UInt64.ofNat i).toNat

variable {generator : StringGenerator} {store : PicturePreviewHandler} {post : Post}

theorem window_make : Window (PicturePreviewHandler.make picPreviewCacheNum) where
  limit := rfl
  retained := retained_make _
  ids i id h := by simp [PicturePreviewHandler.make] at h

theorem makeId_fresh (hwindow : Window store) (hfresh : FreshUuid post store) :
    makeId generator post.random (nextSeq store).seq ∉ store.ids := by
  cases hrandom : post.random with
  | some uuid => exact hfresh uuid hrandom
  | none =>
    rw [makeId_none]
    intro hmem
    obtain ⟨i, hi⟩ := List.mem_iff_getElem?.mp hmem
    have hsmall : i < picPreviewCacheNum := by
      obtain ⟨hlt, -⟩ := List.getElem?_eq_some_iff.mp hi
      have hbounded := hwindow.retained.bounded
      rw [hwindow.limit] at hbounded
      omega
    rcases hwindow.ids i _ hi with ⟨uuid, huuid⟩ | hseq
    · have hlength := toString_length uuid
      have hshort := seq_length (nextSeq store).seq
      rw [← huuid] at hlength
      omega
    · have hnat := decimal_injective hseq
      have hlt := store.seq.toNat_lt
      have hi' : (UInt64.ofNat i).toNat = i := by
        rw [UInt64.toNat_ofNat']
        unfold picPreviewCacheNum at hsmall
        omega
      unfold picPreviewCacheNum at hsmall
      simp only [nextSeq, UInt64.toNat_add, UInt64.toNat_sub, hi', UInt64.toNat_one] at hnat
      omega

theorem window_createPreview (time : ℤ) (pvs : List PictureView) (hwindow : Window store) :
    Window (createPreview generator post.random time pvs store) where
  limit := by
    rw [createPreview, store_eq]
    exact hwindow.limit
  retained := by
    unfold createPreview
    refine retained_store time pvs ?_
    exact ⟨hwindow.retained.listed, hwindow.retained.bounded⟩
  ids i id h := by
    have hstored := @store_eq (nextSeq store) (makeId generator post.random (nextSeq store).seq)
      time pvs
    rw [createPreview, hstored] at h ⊢
    change ((makeId generator post.random (nextSeq store).seq :: store.ids).take _)[i]? =
      some id at h
    change _ ∨ id = decimal (store.seq + 1 - UInt64.ofNat i).toNat
    rw [List.getElem?_take] at h
    split at h
    · cases i with
      | zero =>
        obtain rfl := Option.some.inj h
        cases hrandom : post.random with
        | some uuid => exact Or.inl ⟨uuid, rfl⟩
        | none =>
          refine Or.inr ?_
          rw [makeId_none]
          simp [nextSeq]
      | succ i =>
        have hback : store.seq + 1 - UInt64.ofNat (i + 1) = store.seq - UInt64.ofNat i := by
          rw [UInt64.ofNat_add]
          grind
        rw [hback]
        exact hwindow.ids i id h
    · simp at h

end Store

section Urls

/-- What makes all URLs of a preview match the pattern of the picture handler. -/
structure Plain (p : Pictures) : Prop where
  uuid_ne_nil : p.uuid ≠ []
  uuid_letters : ∀ c ∈ p.uuid, c ∈ uuidLetters
  snaps : p.snaps.length ≤ 10
  tracks : p.tracks.length ≤ 10

theorem decimal_digit {n : ℕ} (h : n < 10) : ∃ digit ∈ digits, decimal n = [digit] := by
  have hdigits : ∀ n : Fin 10, (Nat.digitChar n.val).toUInt8 ∈ digits := by decide
  exact ⟨_, hdigits ⟨n, h⟩, decimal_of_lt_ten h⟩

theorem routed_of_plain {p : Pictures} (h : Plain p) {url : Bytes}
    (hurl : url ∈ p.getSnapUrls ++ p.getTrackUrls) : Routed url := by
  refine routed_of_picturePattern (picturePattern_iff.mpr ?_)
  rcases List.mem_append.mp hurl with hsnap | htrack
  · obtain ⟨i, snap, hget, -, rfl⟩ := Pictures.mem_getSnapUrls.mp hsnap
    obtain ⟨hlt, -⟩ := List.getElem?_eq_some_iff.mp hget
    have hsnaps := h.snaps
    obtain ⟨digit, hdigit, hdecimal⟩ := decimal_digit (show i < 10 by omega)
    refine ⟨p.uuid, ascii "snaps", digit, h.uuid_ne_nil, h.uuid_letters, Or.inl rfl, hdigit, ?_⟩
    simp [Pictures.snapUrl, Pictures.urlPrefix, hdecimal, ascii]
  · obtain ⟨i, hlt, rfl⟩ := Pictures.mem_getTrackUrls.mp htrack
    have htracks := h.tracks
    obtain ⟨digit, hdigit, hdecimal⟩ := decimal_digit (show i < 10 by omega)
    refine ⟨p.uuid, ascii "tracks", digit, h.uuid_ne_nil, h.uuid_letters, Or.inr rfl, hdigit, ?_⟩
    simp [Pictures.trackUrl, Pictures.urlPrefix, hdecimal, ascii]

/-- Two digits before the end leave no place for the last slash of the pattern. -/
theorem track_ten_not_routed (uuid : Bytes) : ¬ Routed (Pictures.trackUrl uuid 10) := by
  intro h
  obtain ⟨id, kind, digit, -, -, -, -, heq⟩ := picturePattern_iff.mp h.pattern
  have hten : decimal 10 = ascii "1" ++ ascii "0" := by decide
  have hleft : Pictures.trackUrl uuid 10 =
      (Pictures.urlPrefix ++ uuid ++ ascii "/tracks/" ++ ascii "1") ++ ascii "0" := by
    rw [Pictures.trackUrl, hten, List.append_assoc _ _ (ascii "0")]
  have hright : ascii "/api/v1/realtime/preview/picture/" ++
      (id ++ (ascii "/" ++ (kind ++ (ascii "/" ++ [digit])))) =
        (ascii "/api/v1/realtime/preview/picture/" ++ id ++ ascii "/" ++ kind ++ ascii "/") ++
          [digit] := by
    simp
  rw [hleft, hright] at heq
  obtain ⟨hfront, -⟩ := List.append_inj' heq rfl
  obtain ⟨-, hslash⟩ := List.append_inj' hfront rfl
  exact absurd hslash (by decide)

end Urls

section Runs

variable {generator : StringGenerator} {s : Service} {post : Post}

/-- What holds between two posted pictures. -/
structure Running (s : Service) : Prop where
  between : Between s.cache
  window : Window s.store

theorem running_step (h : Running s) (henabled : (service generator).enabled s post) :
    Running ((service generator).step s post) where
  between := between_afterCall h.between henabled.1
  window := by
    change Window (publish generator post (handed post.call s.cache) s.store)
    unfold publish
    split
    · exact h.window
    · exact window_createPreview post.time _ h.window

theorem running_inductive (generator : StringGenerator) :
    (service generator).Inductive (fun _ s => Running s) :=
  Machine.inductive_of_step ⟨between_empty, window_make⟩ (fun _ _ => running_step)

/-- The vector of a call that finds exactly one long line. -/
theorem handed_of_oneLongLine (h : Running s) (henabled : (service generator).enabled s post)
    (hne : handed post.call s.cache ≠ []) (hline : OneLongLine post.call s.cache) :
    (handed post.call s.cache).length = 11 := by
  have hcomplete := (handed_ne_nil h.between.quiet henabled.1).mp hne
  have hparts := hcomplete
  obtain ⟨face, lines, -, hbody, -⟩ := hparts
  rw [handed_length h.between.quiet henabled.1 hcomplete hbody,
    card_longLines.mpr (hline lines hcomplete hbody)]

/-- A vector of eleven views becomes a plain preview. -/
theorem plain_step (h : Running s) (henabled : (service generator).enabled s post)
    (hline : OneLongLine post.call s.cache)
    (hplain : ∀ id p, s.store.pictures id = some p → Plain p) :
    ∀ id p, ((service generator).step s post).store.pictures id = some p → Plain p := by
  intro id p hp
  change (publish generator post (handed post.call s.cache) s.store).pictures id = some p at hp
  unfold publish at hp
  split at hp
  · exact hplain id p hp
  · rename_i hviews
    have hne : handed post.call s.cache ≠ [] := by simpa using hviews
    have hlength := handed_of_oneLongLine h henabled hne hline
    rcases store_pictures post.time _ hp with hold | rfl
    · exact hplain id p hold
    · obtain ⟨hid, hletters⟩ := makeId_letters generator post.random (nextSeq s.store).seq
      rw [Pictures.make_eq]
      refine ⟨hid, hletters, ?_, ?_⟩
      · simp only [pictureViews, List.length_take, List.length_map]
        omega
      · simp only [pictureViews, List.length_drop, List.length_map]
        omega

theorem plain_inductive (generator : StringGenerator) :
    (service generator).Inductive (fun inputs s =>
      Everywhere (fun before post =>
        OneLongLine post.call ((service generator).run before).cache) inputs →
      ∀ id p, s.store.pictures id = some p → Plain p) := by
  refine (running_inductive generator).and_then ?_ ?_
  · intro _ id p hp
    simp [service, PicturePreviewHandler.make] at hp
  · intro inputs post hrunning hplain henabled hall
    obtain ⟨hbefore, hline⟩ := (everywhere_append_singleton _ inputs post).mp hall
    exact plain_step hrunning henabled hline (hplain hbefore)

/-- A vector from two long lines becomes a preview with a track of index 10. -/
theorem oneLongLine_of_allRouted (h : Running s) (henabled : (service generator).enabled s post)
    (hrouted : AllRouted ((service generator).step s post).store) :
    OneLongLine post.call s.cache := by
  intro lines hcomplete hbody
  rw [← card_longLines]
  by_contra hcard
  have hlength := handed_length h.between.quiet henabled.1 hcomplete hbody
  have hne := (handed_ne_nil h.between.quiet henabled.1).mpr hcomplete
  have hlong : 22 ≤ (handed post.call s.cache).length := by
    have hpos := List.length_pos_iff.mpr hne
    omega
  obtain ⟨id, hid⟩ : ∃ id, makeId generator post.random (nextSeq s.store).seq = id := ⟨_, rfl⟩
  have hstore : ((service generator).step s post).store =
      PicturePreviewHandler.store id post.time (pictureViews (handed post.call s.cache))
        (nextSeq s.store) := by
    change publish generator post (handed post.call s.cache) s.store = _
    unfold publish createPreview
    rw [if_neg (by simpa using hne), ← hid]
  have hfresh : id ∉ (nextSeq s.store).ids := hid ▸ makeId_fresh h.window henabled.2
  have hretained : Retained (nextSeq s.store) :=
    ⟨h.window.retained.listed, h.window.retained.bounded⟩
  have hlimit : 0 < (nextSeq s.store).cacheLimit := by
    change 0 < s.store.cacheLimit
    rw [h.window.limit, picPreviewCacheNum]
    omega
  obtain ⟨hpictures, hhead⟩ := store_new post.time
    (pictureViews (handed post.call s.cache)) hlimit hretained hfresh
  rw [← hstore] at hpictures hhead
  have hletters := (makeId_letters generator post.random (nextSeq s.store).seq).1
  rw [hid] at hletters
  have hlisted := listPreview_newest hhead hpictures hletters
  refine track_ten_not_routed id (hrouted [] 1 _ _ hlisted _ List.mem_cons_self _ ?_)
  refine List.mem_append_right _ (Pictures.mem_getTrackUrls.mpr ⟨10, ?_, ?_⟩)
  · rw [Pictures.make_eq]
    simp only [pictureViews, List.length_drop, List.length_map]
    omega
  · rw [Pictures.make_eq]

/-- The cache of the service runs through the calls of the posted pictures. -/
theorem cache_run (generator : StringGenerator) (inputs : List Post) :
    ((service generator).run inputs).cache = calls.run (inputs.map Post.call) := by
  induction inputs using List.reverseRecOn with
  | nil => rfl
  | append_singleton inputs post ih =>
    rw [List.map_append, List.map_singleton, Machine.run_append_singleton,
      Machine.run_append_singleton, ← ih]
    rfl

end Runs

section Samples

/-- The random generator throws for each of the calls. -/
def withoutRandom (inputs : List Call) : List Post := inputs.map (fun call => ⟨call, none, 0⟩)

theorem withoutRandom_admissible (generator : StringGenerator) (inputs : List Call)
    (h : calls.Admissible inputs) : (service generator).Admissible (withoutRandom inputs) := by
  induction inputs using List.reverseRecOn with
  | nil => exact Machine.admissible_nil _
  | append_singleton inputs call ih =>
    obtain ⟨hbefore, horder⟩ := (Machine.admissible_append_singleton calls inputs call).mp h
    have hmap : (withoutRandom inputs).map Post.call = inputs := by
      simp [withoutRandom, Function.comp_def]
    have happend : withoutRandom (inputs ++ [call]) =
        withoutRandom inputs ++ [⟨call, none, 0⟩] := by
      simp [withoutRandom]
    rw [happend]
    refine (Machine.admissible_append_singleton _ _ _).mpr ⟨ih hbefore, ?_, ?_⟩
    · rw [cache_run, hmap]
      exact horder
    · intro uuid huuid
      simp at huuid

end Samples

/-- Over a whole run: every URL that any listPreview returns is routed to the
picture handler if and only if every call that completes a group finds exactly
one long line. -/
theorem urls_routed_iff_one_long_line (generator : StringGenerator) (inputs : List Post)
    (h : (service generator).Admissible inputs) :
    Everywhere (fun before post =>
        AllRouted ((service generator).run (before ++ [post])).store) inputs ↔
      Everywhere (fun before post =>
        OneLongLine post.call ((service generator).run before).cache) inputs := by
  constructor
  · intro hrouted
    have hstep := (running_inductive generator).everywhere inputs h
      (fun _ _ => oneLongLine_of_allRouted)
    intro before post after heq
    refine hstep before post after heq ?_
    rw [← Machine.run_append_singleton]
    exact hrouted before post after heq
  · intro hline before post after heq prev limit previews later hlist p hp url hurl
    rw [List.append_cons] at heq
    subst heq
    have hadmissible := everywhere_of_append _ (before ++ [post]) after h
    have hplain := (plain_inductive generator).run (before ++ [post]) hadmissible
      (everywhere_of_append _ (before ++ [post]) after hline)
    obtain ⟨id, hstored⟩ := listPreview_stored prev limit previews later hlist p hp
    exact routed_of_plain (hplain id p hstored) hurl

theorem urls_routed_iff_on_face_last :
    Everywhere (fun before post =>
        AllRouted ((service noUuids).run (before ++ [post])).store) (withoutRandom (faceLast 5)) ↔
      Everywhere (fun before post =>
        OneLongLine post.call ((service noUuids).run before).cache)
          (withoutRandom (faceLast 5)) :=
  urls_routed_iff_one_long_line noUuids (withoutRandom (faceLast 5))
    (withoutRandom_admissible noUuids (faceLast 5) faceLast_admissible_five)

/-- The preview of two groups advertises a track of index 10. -/
theorem url_not_routed_with_two_long_lines :
    (service noUuids).Admissible (withoutRandom (faceLast 6)) ∧
      ¬ Everywhere (fun before post =>
        AllRouted ((service noUuids).run (before ++ [post])).store)
          (withoutRandom (faceLast 6)) := by
  refine ⟨withoutRandom_admissible noUuids (faceLast 6) faceLast_admissible_six, ?_⟩
  intro h
  let before := withoutRandom ((faceLast 6).take 14)
  let last : Post := ⟨sampleCall [1] 1 .face 0 14, none, 0⟩
  let store := ((service noUuids).run (before ++ [last])).store
  have hlast : AllRouted store := h before last [] rfl
  have hten : ((Programs.returned (listPreview [] 1) store).map (fun previews =>
      previews.any (fun p => p.getTrackUrls.contains (Pictures.trackUrl (decimal 1) 10)))) =
        some true := by
    decide +kernel
  unfold Programs.returned at hten
  cases hrun : (listPreview [] 1).run store with
  | error e after => simp [hrun] at hten
  | ok previews after =>
    simp only [hrun, Option.map_some, Option.some.injEq, List.any_eq_true,
      List.contains_iff_mem] at hten
    obtain ⟨p, hp, hurl⟩ := hten
    exact track_ten_not_routed (decimal 1)
      (hlast [] 1 previews after hrun p hp _ (List.mem_append_right _ hurl))

end BeastServer.AdvertisedUrls
