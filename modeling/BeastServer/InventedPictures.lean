import BeastServer.VisitedUrls

/-!
Visits of pictures that are not there.
A uuid that is not retained is answered with 404, since the lookup of the map
throws. An index beyond the pictures of a retained preview is answered with 200
and no bytes: the lookup of the vector throws too, but snap and track catch it.
-/
namespace BeastServer.InventedPictures

open ByteStrings Exceptions Programs HttpMessages JsonValues JsonApi PicturePreviews
open PreviewVisits Paths UriRouters VisitedUrls PreviewRuns AnsweredRequests

/-- The preview is retained and has a picture with the index under the kind. -/
def Present (store : PicturePreviewHandler) (uuid name : Bytes) (index : ℕ) : Prop :=
  ∃ p view, store.pictures uuid = some p ∧ Stored p name index view

/-- The request is answered with 200 only when the picture is there, and with
the 404 response when it is not. -/
def Truthful (lexical : LexicalConvert) (host : Host) (store : PicturePreviewHandler)
    (req : Request) (uuid name : Bytes) (index : ℕ) : Prop :=
  ∃ res, (visitPreview lexical host req).run store = .ok res store ∧
    (res.status = 200 → Present store uuid name index) ∧
      (¬ Present store uuid name index → createJsonNotFound host req req.target = .ok res)

/-- If the preview is retained, it has a picture with the index. -/
def InRange (store : PicturePreviewHandler) (uuid name : Bytes) (index : ℕ) : Prop :=
  ∀ p, store.pictures uuid = some p → ∃ view, Stored p name index view

/-- What the pattern of the route says about a target. -/
structure RoutedTo (target uuid name : Bytes) (index : ℕ) : Prop where
  target : target = pictureUrl uuid name index
  uuid : uuid ≠ [] ∧ ∀ c ∈ uuid, c ∈ uuidLetters
  kind : name = ascii "snaps" ∨ name = ascii "tracks"
  index : index < 10

section Targets

variable {target uuid name : Bytes} {index : ℕ}

theorem routedTo_of_routed (h : Routed target) :
    ∃ uuid name index, RoutedTo target uuid name index := by
  obtain ⟨uuid, name, digit, hne, hletters, hkind, hdigit, rfl⟩ := picturePattern_iff.mp h.pattern
  have hdigits : digits.all (fun digit => decide
      (digit.toNat - 48 < 10 ∧ decimal (digit.toNat - 48) = [digit])) = true := by decide
  obtain ⟨hindex, hdecimal⟩ := of_decide_eq_true (List.all_eq_true.mp hdigits digit hdigit)
  refine ⟨uuid, name, digit.toNat - 48, ?_, ⟨hne, hletters⟩, hkind, hindex⟩
  have hslash : ascii "/" = [slash] := rfl
  rw [← url_eq, hdecimal, Pictures.urlPrefix, hslash]
  simp

theorem RoutedTo.routed (h : RoutedTo target uuid name index) : Routed target := by
  obtain ⟨digit, hdigit, hdecimal⟩ := AdvertisedUrls.decimal_digit h.index
  have hslash : ascii "/" = [slash] := rfl
  apply routed_of_picturePattern
  refine picturePattern_iff.mpr ⟨uuid, name, digit, h.uuid.1, h.uuid.2, h.kind, hdigit, ?_⟩
  rw [h.target, ← url_eq, hdecimal, Pictures.urlPrefix, hslash]
  simp

theorem RoutedTo.isPiece (h : RoutedTo target uuid name index) : IsPiece uuid := by
  refine ⟨h.uuid.1, ?_⟩
  intro hslash
  exact absurd (h.uuid.2 slash hslash) (by decide)

theorem RoutedTo.isAscii (h : RoutedTo target uuid name index) : IsAscii target := by
  have hletters : IsAscii uuidLetters := by decide
  have huuid : IsAscii uuid := fun c hc => hletters c (h.uuid.2 c hc)
  have hname : IsAscii name := by
    rcases h.kind with rfl | rfl
    · decide
    · decide
  have hfront : IsAscii Pictures.urlPrefix := by decide
  have hslash : slash < 128 := by decide
  rw [h.target, ← url_eq]
  simp [hfront, huuid, hname, hslash]

end Targets

section Answers

variable {lexical : LexicalConvert} {host : Host} {store : PicturePreviewHandler} {req : Request}
  {uuid name : Bytes} {index : ℕ}

theorem createJsonNotFound_ok (h : IsAscii req.target) :
    ∃ res, createJsonNotFound host req req.target = .ok res ∧ res.status = 404 := by
  have hwell : Utf8.WellFormed (req.target ++ ascii " not found") := by
    apply Utf8.wellFormed_of_isAscii
    rw [isAscii_append]
    exact ⟨h, by decide⟩
  obtain ⟨res, hres, hstatus, -⟩ := @errorResponse_ok host req 404 _ hwell
  exact ⟨res, hres, hstatus⟩

theorem visitPreview_routed (h : RoutedTo req.target uuid name index) :
    (visitPreview lexical host req).run store =
      (answerVisit host req uuid name index).run store := by
  have hthree : LastThree req.target uuid name (decimal index) := by
    rw [h.target]
    exact lastThree_pictureUrl h.isPiece (isPiece_of_kind h.kind) index
  have hindex := h.index
  rw [visitPreview_run hthree, lexical.convert_decimal index 0 (by omega)]

theorem truthful_iff (h : RoutedTo req.target uuid name index) :
    Truthful lexical host store req uuid name index ↔ InRange store uuid name index := by
  cases hentry : store.pictures uuid with
  | none =>
    obtain ⟨res, hres, hstatus⟩ := @createJsonNotFound_ok host req h.isAscii
    have hmissing := @getPicture_throws store uuid name index h.kind hentry
    have hrun := answerVisit_missing hmissing hres
    refine iff_of_true ⟨res, (visitPreview_routed h).trans hrun, ?_, fun _ => hres⟩ ?_
    · intro hfound
      rw [hstatus] at hfound
      cases hfound
    · intro p hp
      rw [hentry] at hp
      cases hp
  | some p =>
    have hrun := @answerVisit_found host req store uuid name index _
      (getPicture_run h.kind hentry)
    constructor
    · intro htruthful p' hp'
      obtain ⟨res, hres, hpresent, -⟩ := htruthful
      rw [visitPreview_routed h, hrun] at hres
      obtain ⟨rfl, -⟩ := EStateM.Result.ok.inj hres
      obtain ⟨q, view, hq, hstored⟩ := hpresent rfl
      obtain rfl := Option.some.inj (hp'.symm.trans hq)
      exact ⟨view, hstored⟩
    · intro hrange
      obtain ⟨view, hstored⟩ := hrange p hentry
      have hpresent : Present store uuid name index := ⟨p, view, hentry, hstored⟩
      exact ⟨_, (visitPreview_routed h).trans hrun, fun _ => hpresent,
        fun hmissing => absurd hpresent hmissing⟩

end Answers

/-- A visit routed to the handler is answered as it should be exactly when the
index does not go beyond the pictures of a retained preview. -/
theorem routed_visit_truthful_iff (lexical : LexicalConvert) (host : Host) (cacheLimit : ℕ)
    (inputs : List Event) (req : Request) (h : Routed req.target) :
    ∃ uuid name index, RoutedTo req.target uuid name index ∧
      (Truthful lexical host ((previews cacheLimit).run inputs) req uuid name index ↔
        InRange ((previews cacheLimit).run inputs) uuid name index) := by
  obtain ⟨uuid, name, index, hrouted⟩ := routedTo_of_routed h
  exact ⟨uuid, name, index, hrouted, truthful_iff hrouted⟩

section Sample

def randomId : Bytes := ascii "3f2504e0-4f89-41d3-9a0c-0305e82c3301"

/-- A preview of eleven one-byte pictures is inserted: five snaps and six tracks. -/
def elevenPictures : List Event := [.insert ⟨randomId, 0, List.replicate 11 ⟨[1]⟩⟩]

/-- The visit of a track of that preview. -/
def visitTrack (index : ℕ) : Request := getRequest (pictureUrl randomId (ascii "tracks") index)

theorem visitTrack_routed {index : ℕ} (h : index < 10) :
    RoutedTo (visitTrack index).target randomId (ascii "tracks") index := by
  have hletters : randomId.all (fun c => decide (c ∈ uuidLetters)) = true := by decide
  refine ⟨rfl, ⟨by decide, ?_⟩, Or.inr rfl, h⟩
  intro c hc
  exact of_decide_eq_true (List.all_eq_true.mp hletters c hc)

end Sample

theorem routed_visit_truthful_iff_track :
    ∃ uuid name index, RoutedTo (visitTrack 5).target uuid name index ∧
      (Truthful .boost Host.zeroed ((previews 1).run elevenPictures) (visitTrack 5)
          uuid name index ↔
        InRange ((previews 1).run elevenPictures) uuid name index) :=
  routed_visit_truthful_iff .boost Host.zeroed 1 elevenPictures (visitTrack 5)
    (visitTrack_routed (by omega)).routed

/-- The six tracks end at index 5, and the visit of index 6 is answered with 200. -/
theorem missing_track_invented :
    Routed (visitTrack 6).target ∧
      RoutedTo (visitTrack 6).target randomId (ascii "tracks") 6 ∧
        ¬ Truthful .boost Host.zeroed ((previews 1).run elevenPictures) (visitTrack 6)
          randomId (ascii "tracks") 6 := by
  have hrouted := @visitTrack_routed 6 (by omega)
  refine ⟨hrouted.routed, hrouted, ?_⟩
  intro htruthful
  obtain ⟨res, hrun, hpresent, -⟩ := htruthful
  have hfound : (returned (visitPreview .boost Host.zeroed (visitTrack 6))
      ((previews 1).run elevenPictures)).map Response.status = some 200 := by
    decide +kernel
  rw [returned_ok hrun, Option.map_some] at hfound
  obtain ⟨p, view, hentry, hstored⟩ := hpresent (Option.some.inj hfound)
  have hp : ((previews 1).run elevenPictures).pictures randomId =
      some (Pictures.make randomId 0 (List.replicate 11 ⟨[1]⟩)) := rfl
  obtain rfl := Option.some.inj (hentry.symm.trans hp)
  cases hstored with
  | track hview => cases hview

end BeastServer.InventedPictures
