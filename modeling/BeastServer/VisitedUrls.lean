import BeastServer.AdvertisedUrls
import BeastServer.PreviewRuns
import BeastServer.PreviewVisits

/-!
Visiting the URLs of a preview.
A URL is a joined list of pieces, and splitting it gives the pieces back when
none of them is empty or has a slash; the digits of the index are converted to
the index. So a picture is found under its own URL and under no other one.
-/
namespace BeastServer.VisitedUrls

open ByteStrings Exceptions Programs HttpMessages JsonValues PicturePreviews
open PicturePreviewHandler PreviewVisits Paths AdvertisedUrls PreviewRuns

section Urls

def frontPieces : List Bytes :=
  [ascii "api", ascii "v1", ascii "realtime", ascii "preview", ascii "picture"]

/-- The form of the URLs of snaps and of tracks. -/
def pictureUrl (uuid name : Bytes) (i : ℕ) : Bytes :=
  join slash [] (frontPieces ++ [uuid, name, decimal i])

theorem url_eq (uuid name : Bytes) (i : ℕ) :
    Pictures.urlPrefix ++ uuid ++ (slash :: name ++ [slash]) ++ decimal i =
      pictureUrl uuid name i := by
  have hfront : Pictures.urlPrefix = frontPieces.flatMap (slash :: ·) ++ [slash] := by decide
  rw [hfront]
  simp [pictureUrl, join]

theorem snapUrl_eq (uuid : Bytes) (i : ℕ) :
    Pictures.snapUrl uuid i = pictureUrl uuid (ascii "snaps") i := by
  have hkind : ascii "/snaps/" = slash :: ascii "snaps" ++ [slash] := by decide
  rw [Pictures.snapUrl, hkind, url_eq]

theorem trackUrl_eq (uuid : Bytes) (i : ℕ) :
    Pictures.trackUrl uuid i = pictureUrl uuid (ascii "tracks") i := by
  have hkind : ascii "/tracks/" = slash :: ascii "tracks" ++ [slash] := by decide
  rw [Pictures.trackUrl, hkind, url_eq]

/-- Something that stands between two slashes. -/
def IsPiece (piece : Bytes) : Prop := piece ≠ [] ∧ slash ∉ piece

theorem isPiece_decimal (n : ℕ) : IsPiece (decimal n) := by
  refine ⟨decimal_ne_nil n, ?_⟩
  intro hmem
  have hdigit := isDigit_of_mem_decimal hmem
  exact absurd hdigit (by decide)

theorem split_pictureUrl {uuid name : Bytes} (huuid : IsPiece uuid) (hname : IsPiece name)
    (i : ℕ) :
    splitCompressed slash (pictureUrl uuid name i) =
      [] :: (frontPieces ++ [uuid, name, decimal i]) := by
  have hfront : ∀ piece ∈ frontPieces, piece ≠ [] ∧ slash ∉ piece := by decide
  apply splitCompressed_join (by simp)
  intro piece hpiece
  rcases List.mem_append.mp hpiece with hmem | hmem
  · exact hfront piece hmem
  · simp only [List.mem_cons, List.not_mem_nil, or_false] at hmem
    rcases hmem with rfl | rfl | rfl
    · exact huuid
    · exact hname
    · exact isPiece_decimal i

theorem lastThree_pictureUrl {uuid name : Bytes} (huuid : IsPiece uuid) (hname : IsPiece name)
    (i : ℕ) : LastThree (pictureUrl uuid name i) uuid name (decimal i) :=
  ⟨[] :: frontPieces, split_pictureUrl huuid hname i⟩

theorem pictureUrl_injective {uuid name uuid' name' : Bytes} {i i' : ℕ} (huuid : IsPiece uuid)
    (hname : IsPiece name) (huuid' : IsPiece uuid') (hname' : IsPiece name')
    (h : pictureUrl uuid name i = pictureUrl uuid' name' i') :
    uuid = uuid' ∧ name = name' ∧ i = i' := by
  have hsplit := split_pictureUrl huuid hname i
  rw [h, split_pictureUrl huuid' hname' i'] at hsplit
  simp only [List.cons.injEq, List.append_cancel_left_eq, true_and, and_true] at hsplit
  exact ⟨hsplit.1.symm, hsplit.2.1.symm, (decimal_injective hsplit.2.2).symm⟩

/-- The ids that createPreview makes. -/
theorem isPiece_makeId (generator : StringGenerator) (random : Option Uuid) (seq : UInt64) :
    IsPiece (makeId generator random seq) := by
  obtain ⟨hne, hletters⟩ := makeId_letters generator random seq
  refine ⟨hne, ?_⟩
  intro hslash
  exact absurd (hletters slash hslash) (by decide)

end Urls

section Stored

/-- The picture with the index that a preview stores under a kind. -/
inductive Stored (p : Pictures) : Bytes → ℕ → PictureView → Prop
  | snap {i : ℕ} {view : PictureView} (h : p.snaps[i]? = some view) :
      Stored p (ascii "snaps") i view
  | track {i : ℕ} {view : PictureView} (h : p.tracks[i]? = some view) :
      Stored p (ascii "tracks") i view

/-- The store holds the preview under its own id, and its vectors have sizes
that a size_t can count. -/
structure Holds (store : PicturePreviewHandler) (id : Bytes) (p : Pictures) : Prop where
  entry : store.pictures id = some p
  uuid : p.uuid = id
  slashFree : slash ∉ id
  snaps : p.snaps.length ≤ Pictures.snapsLen
  tracks : p.tracks.length < 2 ^ 64

variable {store : PicturePreviewHandler} {id name : Bytes} {p : Pictures} {i : ℕ}
  {view : PictureView}

theorem Stored.kind (h : Stored p name i view) : name = ascii "snaps" ∨ name = ascii "tracks" := by
  cases h with
  | snap h => exact Or.inl rfl
  | track h => exact Or.inr rfl

theorem isPiece_of_kind (h : name = ascii "snaps" ∨ name = ascii "tracks") : IsPiece name := by
  rcases h with rfl | rfl
  · exact ⟨by decide, by decide⟩
  · exact ⟨by decide, by decide⟩

theorem Stored.pictureOf_eq (h : Stored p name i view) : pictureOf p name i = view := by
  cases h with
  | snap h =>
    rw [pictureOf, if_pos rfl, Pictures.snap, List.getD_eq_getElem?_getD, h, Option.getD_some]
  | track h =>
    rw [pictureOf, if_neg (by decide), Pictures.track, List.getD_eq_getElem?_getD, h,
      Option.getD_some]

theorem Stored.index_lt (h : Stored p name i view) (hholds : Holds store id p) : i < 2 ^ 64 := by
  have hsnaps := hholds.snaps
  have htracks := hholds.tracks
  unfold Pictures.snapsLen at hsnaps
  cases h with
  | snap h =>
    obtain ⟨hi, -⟩ := List.getElem?_eq_some_iff.mp h
    omega
  | track h =>
    obtain ⟨hi, -⟩ := List.getElem?_eq_some_iff.mp h
    omega

/-- The URLs of a preview are those of its pictures. -/
theorem stored_of_mem_urls {url : Bytes} (h : url ∈ p.getSnapUrls ++ p.getTrackUrls) :
    ∃ name i view, Stored p name i view ∧ url = pictureUrl p.uuid name i := by
  rcases List.mem_append.mp h with hmem | hmem
  · obtain ⟨i, view, hview, -, rfl⟩ := Pictures.mem_getSnapUrls.mp hmem
    exact ⟨ascii "snaps", i, view, .snap hview, snapUrl_eq p.uuid i⟩
  · obtain ⟨i, hi, rfl⟩ := Pictures.mem_getTrackUrls.mp hmem
    exact ⟨ascii "tracks", i, p.tracks[i], .track (List.getElem?_eq_getElem hi),
      trackUrl_eq p.uuid i⟩

/-- A picture is the answer to its own URL. -/
theorem visit_stored (lexical : LexicalConvert) (host : Host) (hholds : Holds store id p)
    (hid : id ≠ []) (hstored : Stored p name i view) (req : Request)
    (htarget : req.target = pictureUrl id name i) :
    (visitPreview lexical host req).run store = .ok (pictureResponse req view) store := by
  have hthree : LastThree req.target id name (decimal i) := by
    rw [htarget]
    exact lastThree_pictureUrl ⟨hid, hholds.slashFree⟩ (isPiece_of_kind hstored.kind) i
  have hindex : lexical.convert (decimal i) 0 = i :=
    lexical.convert_decimal i 0 (hstored.index_lt hholds)
  have hfound := @getPicture_run store id name i p hstored.kind hholds.entry
  rw [visitPreview_run hthree, hindex, answerVisit_found hfound, hstored.pictureOf_eq]

/-- A run of the store keeps previews whose URLs can be visited. -/
theorem holds_run {cacheLimit : ℕ} {inputs : List Event} (hdistinct : (insertedIds inputs).Nodup)
    (hproper : ∀ insertion ∈ insertions inputs,
      IsPiece insertion.id ∧ insertion.pictureViews.length < 2 ^ 64)
    (hid : id ∈ ((previews cacheLimit).run inputs).ids) :
    ∃ p, Holds ((previews cacheLimit).run inputs) id p ∧ id ≠ [] := by
  obtain ⟨insertion, hinserted, rfl, hentry⟩ := (represents_run hdistinct).listed hid
  obtain ⟨⟨hne, hslash⟩, hlength⟩ := hproper insertion hinserted
  refine ⟨insertion.pictures, ⟨hentry, ?_, hslash, ?_, ?_⟩, hne⟩
  · rw [Insertion.pictures, Pictures.make_eq]
  · rw [Insertion.pictures, Pictures.make_eq]
    exact List.length_take_le _ _
  · rw [Insertion.pictures, Pictures.make_eq, List.length_drop]
    omega

end Stored

/-- Every request with this target is answered with the picture. -/
def AnsweredWith (lexical : LexicalConvert) (host : Host) (store : PicturePreviewHandler)
    (url : Bytes) (view : PictureView) : Prop :=
  ∀ req : Request, req.target = url → ∃ res,
    (visitPreview lexical host req).run store = .ok res store ∧ res.status = 200 ∧
      res.body = view.data

/-- Every URL of the preview is the URL of one of its pictures and is answered with it. -/
def Visitable (lexical : LexicalConvert) (host : Host) (store : PicturePreviewHandler)
    (p : Pictures) : Prop :=
  ∀ url ∈ p.getSnapUrls ++ p.getTrackUrls, ∃ name i view, Stored p name i view ∧
    url = pictureUrl p.uuid name i ∧ AnsweredWith lexical host store url view

/-- Generating and parsing the URLs of a preview with a non-empty id are
inverse, and different pictures have different URLs. -/
theorem urls_visited (lexical : LexicalConvert) (host : Host) (store : PicturePreviewHandler)
    (id : Bytes) (p : Pictures) (h : Holds store id p) (hid : id ≠ []) :
    Visitable lexical host store p ∧
      ∀ id' p' name i view name' i' view', Holds store id' p' → id' ≠ [] →
        Stored p name i view → Stored p' name' i' view' →
          pictureUrl p.uuid name i = pictureUrl p'.uuid name' i' →
            id = id' ∧ name = name' ∧ i = i' := by
  constructor
  · intro url hurl
    obtain ⟨name, i, view, hstored, rfl⟩ := stored_of_mem_urls hurl
    refine ⟨name, i, view, hstored, rfl, ?_⟩
    intro req htarget
    rw [h.uuid] at htarget
    exact ⟨pictureResponse req view, visit_stored lexical host h hid hstored req htarget, rfl, rfl⟩
  · intro id' p' name i view name' i' view' h' hid' hstored hstored' hurl
    rw [h.uuid, h'.uuid] at hurl
    exact pictureUrl_injective ⟨hid, h.slashFree⟩ (isPiece_of_kind hstored.kind)
      ⟨hid', h'.slashFree⟩ (isPiece_of_kind hstored'.kind) hurl

section Sample

/-- A store with one preview, under the given id. -/
def storing (id : Bytes) (pvs : List PictureView) : PicturePreviewHandler :=
  PicturePreviewHandler.store id 0 pvs (PicturePreviewHandler.make 30)

theorem storing_holds {id : Bytes} {pvs : List PictureView} (h : slash ∉ id)
    (hlength : pvs.length < 2 ^ 64) : Holds (storing id pvs) id (Pictures.make id 0 pvs) where
  entry := (PreviewStores.store_new 0 pvs (by decide) (PreviewStores.retained_make 30)
    (by simp [PicturePreviewHandler.make])).1
  uuid := by rw [Pictures.make_eq]
  slashFree := h
  snaps := by
    rw [Pictures.make_eq]
    exact List.length_take_le 5 pvs
  tracks := by
    rw [Pictures.make_eq]
    exact (List.drop_sublist 5 pvs).length_le.trans_lt hlength

/-- A store with one preview of one snap. -/
def oneSnap (id : Bytes) : PicturePreviewHandler := storing id [⟨[1]⟩]

/-- A preview of five snaps and twelve tracks. -/
def manyViews : List PictureView := (List.range 17).map (fun i => ⟨[UInt8.ofNat i]⟩)

def getRequest (target : Bytes) : Request := ⟨.get, target, 11, true, false, []⟩

end Sample

theorem urls_visited_many :
    Visitable LexicalConvert.boost Host.zeroed (storing (ascii "a1") manyViews)
        (Pictures.make (ascii "a1") 0 manyViews) ∧
      Pictures.trackUrl (ascii "a1") 11 ∈
        (Pictures.make (ascii "a1") 0 manyViews).getTrackUrls := by
  have hholds : Holds (storing (ascii "a1") manyViews) (ascii "a1")
      (Pictures.make (ascii "a1") 0 manyViews) := storing_holds (by decide) (by decide)
  exact ⟨(urls_visited LexicalConvert.boost Host.zeroed _ _ _ hholds (by decide)).1,
    by decide +kernel⟩

/-- The empty id is lost between its two slashes, and its snap is not found. -/
theorem empty_id_not_visited :
    Holds (oneSnap []) [] (Pictures.make [] 0 [⟨[1]⟩]) ∧
      ¬ Visitable LexicalConvert.boost Host.zeroed (oneSnap []) (Pictures.make [] 0 [⟨[1]⟩]) := by
  refine ⟨storing_holds (by simp) (by decide), ?_⟩
  intro hvisitable
  obtain ⟨name, i, view, -, -, hanswered⟩ := hvisitable (Pictures.snapUrl [] 0) (by decide)
  obtain ⟨res, hrun, hstatus, -⟩ := hanswered (getRequest (Pictures.snapUrl [] 0)) rfl
  have hmissing : (returned (visitPreview LexicalConvert.boost Host.zeroed
      (getRequest (Pictures.snapUrl [] 0))) (oneSnap [])).map Response.status = some 404 := by
    decide +kernel
  rw [returned_ok hrun, Option.map_some, hstatus] at hmissing
  cases hmissing

end BeastServer.VisitedUrls
