import BeastServer.AcceptedTexts
import BeastServer.AdvertisedUrls
import BeastServer.OkResponses
import BeastServer.PreviewVisits
import BeastServer.PreviewPolls

/-!
The endpoint that lists the previews, from the target to the text of the response.
The previews are copied under the mutex and turned into JSON afterwards. A
preview is listed with the urls of its pictures and with a mask of the snaps
that have data, and the text of the response can be read again.
-/
namespace BeastServer.PreviewLists

open ByteStrings Exceptions Programs HttpMessages JsonValues JsonParsers ExactNumbers
open JsonSerializers JsonApi JsonTokens JsonRoundTrips AnsweredRequests OkResponses
open PicturePreviews PicturePreviewHandler PreviewStores PreviewRuns PreviewPolls Feeds Machines
open UriRouters AdvertisedUrls AcceptedTexts

section Listings

/-- The number of snaps in the mask. -/
def numOfPics : ℕ := 5

/-- One round of the loop of getSnapMask, on the mask and on currMask. -/
def maskRound (pictures : Pictures) (masks : Int32 × Int32) (i : ℕ) : Int32 × Int32 :=
  (if (pictures.snap i).data.length > 0 then masks.1 ||| masks.2 else masks.1, masks.2 <<< 1)

def getSnapMask (pictures : Pictures) : Int32 :=
  ((List.range numOfPics).foldl (maskRound pictures) (0, 1)).1

def ofUrls (urls : List Bytes) : Json := .array (urls.map Json.string)

/-- to_json of the pictures of a preview. -/
def toJson (pvs : Pictures) : Json :=
  Json.ofPairs
    [(ascii "uuid", .string pvs.uuid),
      (ascii "timestamp", .numberInteger (Int64.ofInt pvs.timestamp)),
      (ascii "snaps", Json.ofPairs
        [(ascii "mask", .numberInteger (getSnapMask pvs).toInt64),
          (ascii "pictures", ofUrls pvs.getSnapUrls)]),
      (ascii "tracks", Json.ofPairs
        [(ascii "num", .numberUnsigned (UInt64.ofNat pvs.tracks.length)),
          (ascii "pictures", ofUrls pvs.getTrackUrls)])]

def listJson (pics : List Pictures) : Json :=
  Json.ofPairs [(ascii "pictures", .array (pics.map toJson))]

def picListHandler : HandlerFunction := fun req => do
  let pics ← PreviewVisits.onPreviews (PreviewPolls.picListHandler req.target)
  pure (listJson pics)

end Listings

section Masks

variable {pictures : Pictures} {i : ℕ}

/-- The loop of getSnapMask with the outcomes of its tests. -/
def maskOf (test : ℕ → Bool) : Int32 :=
  ((List.range numOfPics).foldl (fun (masks : Int32 × Int32) i =>
    (if test i = true then masks.1 ||| masks.2 else masks.1, masks.2 <<< 1)) (0, 1)).1

theorem getSnapMask_eq :
    getSnapMask pictures = maskOf (fun i => decide ((pictures.snap i).data.length > 0)) := by
  have hround : maskRound pictures = fun (masks : Int32 × Int32) i =>
      (if decide ((pictures.snap i).data.length > 0) = true then masks.1 ||| masks.2
        else masks.1, masks.2 <<< 1) := by
    funext masks i
    simp only [maskRound, decide_eq_true_eq]
  rw [getSnapMask, hround, maskOf]

theorem testBit_maskOf (test : ℕ → Bool) :
    ∀ i < 5, (maskOf test).toInt.toNat.testBit i = test i := by
  have hall : ∀ a b c d e : Bool, ∀ i < 5,
      (maskOf (fun n => [a, b, c, d, e].getD n false)).toInt.toNat.testBit i =
        [a, b, c, d, e].getD i false := by decide +kernel
  have hsame : maskOf test =
      maskOf (fun n => [test 0, test 1, test 2, test 3, test 4].getD n false) := rfl
  intro i hi
  rw [hsame, hall _ _ _ _ _ i hi]
  match i, hi with
  | 0, _ => rfl
  | 1, _ => rfl
  | 2, _ => rfl
  | 3, _ => rfl
  | 4, _ => rfl

theorem snapUrl_injective {uuid : Bytes} {j : ℕ}
    (h : Pictures.snapUrl uuid i = Pictures.snapUrl uuid j) : i = j := by
  unfold Pictures.snapUrl at h
  exact decimal_injective (List.append_cancel_left h)

/-- A bit of the mask is set exactly when the url of that snap is advertised. -/
def Masks (pictures : Pictures) (mask : Int32) : Prop :=
  ∀ i < numOfPics, mask.toInt.toNat.testBit i = true ↔
    Pictures.snapUrl pictures.uuid i ∈ pictures.getSnapUrls

theorem masks_getSnapMask : Masks pictures (getSnapMask pictures) := by
  intro i hi
  rw [getSnapMask_eq, testBit_maskOf _ i hi, decide_eq_true_iff, Pictures.mem_getSnapUrls,
    Pictures.snap, List.getD_eq_getElem?_getD]
  constructor
  · intro hdata
    cases hsnap : pictures.snaps[i]? with
    | none =>
      rw [hsnap] at hdata
      exact absurd hdata (by decide)
    | some snap =>
      rw [hsnap] at hdata
      exact ⟨i, snap, hsnap, hdata, rfl⟩
  · intro ⟨j, snap, hsnap, hdata, hurl⟩
    obtain rfl := snapUrl_injective hurl
    rw [hsnap]
    exact hdata

end Masks

section Texts

variable {uuid : Bytes} {pictures : Pictures} {pics : List Pictures}

/-- The ids that createPreview makes. -/
def Made (id : Bytes) : Prop := ∃ generator random seq, id = makeId generator random seq

theorem isAscii_letters {id : Bytes} (h : ∀ c ∈ id, c ∈ uuidLetters) : IsAscii id := by
  have hletters : ∀ c ∈ uuidLetters, c < 128 := by decide +kernel
  intro c hc
  exact hletters c (h c hc)

theorem isAscii_made (h : Made uuid) : IsAscii uuid := by
  obtain ⟨generator, random, seq, rfl⟩ := h
  exact isAscii_letters (makeId_letters generator random seq).2

theorem isAscii_urls (h : IsAscii pictures.uuid) :
    ∀ url ∈ pictures.getSnapUrls ++ pictures.getTrackUrls, IsAscii url := by
  intro url hurl
  rcases List.mem_append.mp hurl with hsnap | htrack
  · obtain ⟨i, -, -, -, rfl⟩ := Pictures.mem_getSnapUrls.mp hsnap
    simp +decide only [Pictures.snapUrl, Pictures.urlPrefix, isAscii_append, h, isAscii_decimal,
      and_true]
  · obtain ⟨i, -, rfl⟩ := Pictures.mem_getTrackUrls.mp htrack
    simp +decide only [Pictures.trackUrl, Pictures.urlPrefix, isAscii_append, h, isAscii_decimal,
      and_true]

theorem sound_string {text : Bytes} (h : IsAscii text) : Sound (.string text) := by
  refine sound_scalar ?_ (Utf8.wellFormed_of_isAscii h) (by simp)
  intro part hpart
  cases hpart
  rfl

theorem sound_integer (n : Int64) : Sound (.numberInteger n) := by
  refine sound_scalar ?_ trivial (by simp)
  intro part hpart
  cases hpart
  rfl

theorem sound_unsigned (n : UInt64) : Sound (.numberUnsigned n) := by
  refine sound_scalar ?_ trivial (by simp)
  intro part hpart
  cases hpart
  rfl

theorem sound_ofUrls {urls : List Bytes} (h : ∀ url ∈ urls, IsAscii url) :
    Sound (ofUrls urls) := by
  apply sound_array
  intro element helement
  obtain ⟨url, hurl, rfl⟩ := List.mem_map.mp helement
  exact sound_string (h url hurl)

theorem sound_emplace {members : Members} {key : Bytes} {value : Json}
    (hobject : Sound (.object members)) (hkey : IsAscii key) (hvalue : Sound value) :
    Sound (.object (Members.emplace key value members)) := by
  obtain ⟨hsorted, hkeys⟩ := hobject.proper _ .self
  apply sound_object
  · refine ⟨sortedKeys_emplace hsorted, ?_⟩
    intro member hmember
    rcases mem_emplace hmember with rfl | hmember
    · exact Utf8.wellFormed_of_isAscii hkey
    · exact hkeys member hmember
  · intro member hmember
    rcases mem_emplace hmember with rfl | hmember
    · exact hvalue
    · exact ⟨proper_member hobject.proper hmember, finite_object.mp hobject.finite _ hmember⟩

/-- An object that is built from pairs has sorted keys. -/
theorem sound_ofPairs {pairs : List (Bytes × Json)}
    (h : ∀ pair ∈ pairs, IsAscii pair.1 ∧ Sound pair.2) : Sound (Json.ofPairs pairs) := by
  have hfold : ∀ (pairs : List (Bytes × Json)) (members : Members),
      Sound (.object members) → (∀ pair ∈ pairs, IsAscii pair.1 ∧ Sound pair.2) →
      Sound (.object (pairs.foldl (fun members pair =>
        Members.emplace pair.1 pair.2 members) members)) := by
    intro pairs
    induction pairs with
    | nil => exact fun members hmembers _ => hmembers
    | cons pair pairs ih =>
      intro members hmembers hall
      obtain ⟨hkey, hvalue⟩ := hall pair List.mem_cons_self
      refine ih _ ?_ (fun other hother => hall other (List.mem_cons_of_mem _ hother))
      exact sound_emplace hmembers hkey hvalue
  exact hfold pairs [] sound_empty_object h

theorem sound_toJson (h : IsAscii pictures.uuid) : Sound (toJson pictures) := by
  have hurls := isAscii_urls h
  have hsnaps : Sound (ofUrls pictures.getSnapUrls) :=
    sound_ofUrls (fun url hurl => hurls url (List.mem_append_left _ hurl))
  have htracks : Sound (ofUrls pictures.getTrackUrls) :=
    sound_ofUrls (fun url hurl => hurls url (List.mem_append_right _ hurl))
  have hkeys : ∀ key ∈ ([ascii "uuid", ascii "timestamp", ascii "snaps", ascii "tracks",
      ascii "mask", ascii "num", ascii "pictures"] : List Bytes), IsAscii key := by decide
  simp only [List.forall_mem_cons] at hkeys
  obtain ⟨huuid, htimestamp, hsnapsKey, htracksKey, hmask, hnum, hpictures, -⟩ := hkeys
  apply sound_ofPairs
  simp only [List.forall_mem_cons]
  refine ⟨⟨huuid, sound_string h⟩, ⟨htimestamp, sound_integer _⟩, ⟨hsnapsKey, ?_⟩,
    ⟨htracksKey, ?_⟩, by simp⟩
  · apply sound_ofPairs
    simp only [List.forall_mem_cons]
    exact ⟨⟨hmask, sound_integer _⟩, ⟨hpictures, hsnaps⟩, by simp⟩
  · apply sound_ofPairs
    simp only [List.forall_mem_cons]
    exact ⟨⟨hnum, sound_unsigned _⟩, ⟨hpictures, htracks⟩, by simp⟩

theorem sound_listJson (h : ∀ pvs ∈ pics, IsAscii pvs.uuid) : Sound (listJson pics) := by
  have hkey : IsAscii (ascii "pictures") := by decide
  apply sound_ofPairs
  simp only [List.forall_mem_cons]
  refine ⟨⟨hkey, sound_array ?_⟩, by simp⟩
  intro element helement
  obtain ⟨pvs, hpvs, rfl⟩ := List.mem_map.mp helement
  exact sound_toJson (h pvs hpvs)

end Texts

section Answers

variable {host : Host} {req : Request} {s : ApiState} {pics : List Pictures} {cacheLimit : ℕ}
  {inputs : List Event} {prev : Bytes}

/-- The previews that are listed: of the newest ones those before the one that
is named, but no more than ten. -/
def window (cacheLimit : ℕ) (prev : Bytes) (inputs : List Event) : List Pictures :=
  (cut returnLimit ((newest cacheLimit (insertions inputs)).takeWhile
    (fun insertion => decide (insertion.id ≠ prev)))).map Insertion.pictures

theorem listPreview_window (hdistinct : (insertedIds inputs).Nodup) :
    (listPreview prev returnLimit).run ((previews cacheLimit).run inputs) =
      .ok (window cacheLimit prev inputs) ((previews cacheLimit).run inputs) := by
  have hrepresents := @represents_run cacheLimit inputs hdistinct
  obtain ⟨pictures, hlookup⟩ := hrepresents.lookup
  have hids : ((previews cacheLimit).run inputs).ids =
      (newest cacheLimit (insertions inputs)).map Insertion.id := by
    rw [hrepresents.ids, cacheLimit_run, newest, newest, ← List.map_reverse, List.map_take]
  have hstored : ∀ insertion ∈ newest cacheLimit (insertions inputs),
      pictures insertion.id = insertion.pictures := by
    intro insertion hkept
    have hid : insertion.id ∈ ((previews cacheLimit).run inputs).ids := by
      rw [hids]
      exact List.mem_map_of_mem hkept
    have hfound := hrepresents.stored insertion (newest_subset _ _ hkept) hid
    exact Option.some.inj ((hlookup _ hid).1.symm.trans hfound)
  rw [listPreview_run (fun id hid => (hlookup id hid).1), hids, List.takeWhile_map, window]
  have hcut : ∀ entries : List Insertion, cut returnLimit (entries.map Insertion.id) =
      (cut returnLimit entries).map Insertion.id := by
    intro entries
    exact List.map_take.symm
  rw [hcut, List.map_map]
  congr 1
  apply List.map_congr_left
  intro insertion hinsertion
  exact hstored insertion ((List.takeWhile_sublist _).subset (cut_subset _ _ hinsertion))

/-- The listed previews come with their own ids. -/
theorem window_uuid {pvs : Pictures} (h : pvs ∈ window cacheLimit prev inputs) :
    pvs.uuid ∈ insertedIds inputs := by
  obtain ⟨insertion, hinsertion, rfl⟩ := List.mem_map.mp h
  have hkept := (List.takeWhile_sublist _).subset (cut_subset _ _ hinsertion)
  have huuid : insertion.pictures.uuid = insertion.id := by
    rw [Insertion.pictures, Pictures.make_eq]
  rw [huuid]
  exact List.mem_map_of_mem (newest_subset _ _ hkept)

/-- What a response lists: an object with the previews and a zero. -/
def Lists (host : Host) (pics : List Pictures) (body : Bytes) : Prop :=
  ∃ listed ret q,
    parse host body = .ok (.object [(ascii "pictures", .array listed), (ascii "ret", ret)]) q ∧
      SameElements (pics.map toJson) listed ∧ number ret = some 0

theorem listJson_answered (hhost : RoundTrips host) (h : ∀ pvs ∈ pics, IsAscii pvs.uuid) :
    ∃ res, createJsonOkRequest host req (listJson pics) = .ok res ∧ res.status = 200 ∧
      Lists host pics res.body := by
  have hsound := sound_listJson h
  obtain ⟨res, q, hres, hstatus, hparse⟩ :=
    @exists_okResponse host req (listJson pics) hhost hsound.proper (Or.inr ⟨_, rfl⟩)
  refine ⟨res, hres, hstatus, _, _, q, hparse, ?_, rfl⟩
  apply (sameElements_reread_iff _).mpr
  intro element helement
  obtain ⟨pvs, hpvs, rfl⟩ := List.mem_map.mp helement
  exact (sound_toJson (h pvs hpvs)).finite

theorem picListHandler_run
    (h : (PreviewPolls.picListHandler req.target).run s.previews = .ok pics s.previews) :
    (picListHandler req).run s = .ok (listJson pics) s := by
  unfold picListHandler PreviewVisits.onPreviews
  rw [bind_ok (within_ok h)]
  rfl

theorem picListHandler_throws {e : Exception}
    (h : (PreviewPolls.picListHandler req.target).run s.previews = .error e s.previews) :
    (picListHandler req).run s = .error e s := by
  unfold picListHandler PreviewVisits.onPreviews
  rw [bind_error (within_error h)]

/-- Whatever has been inserted under distinct ids that createPreview makes: a request to
list the previews is answered with the newest ones that are newer than the one
it names, at most ten, each with its urls and the mask of its snaps. -/
theorem list_request_answered (host : Host) (hhost : RoundTrips host) (cacheLimit : ℕ)
    (inputs : List Event) (hdistinct : (insertedIds inputs).Nodup)
    (hmade : ∀ id ∈ insertedIds inputs, Made id) (req : Request)
    (hmethod : req.method = .get ∨ req.method = .post) (s : ApiState)
    (hstore : s.previews = (previews cacheLimit).run inputs) :
    ∃ res, (JsonApi.handleRequest host picListHandler req).run s =
        .ok ⟨⟩ { s with session := s.session.enqueue res } ∧ res.status = 200 ∧
      Lists host (window cacheLimit ((afterLast lookup req.target).getD []) inputs) res.body ∧
      ∀ pvs ∈ window cacheLimit ((afterLast lookup req.target).getD []) inputs,
        Masks pvs (getSnapMask pvs) := by
  have hlist : (PreviewPolls.picListHandler req.target).run s.previews =
      .ok (window cacheLimit ((afterLast lookup req.target).getD []) inputs) s.previews := by
    rw [hstore]
    exact listPreview_window hdistinct
  have hascii : ∀ pvs ∈ window cacheLimit ((afterLast lookup req.target).getD []) inputs,
      IsAscii pvs.uuid := fun pvs hpvs => isAscii_made (hmade _ (window_uuid hpvs))
  obtain ⟨res, hres, hstatus, hlists⟩ := @listJson_answered host req _ hhost hascii
  exact ⟨res, handleRequest_returned hmethod (picListHandler_run hlist) hres, hstatus, hlists,
    fun pvs _ => masks_getSnapMask⟩

/-- A preview with a single snap, one with a snap of no bytes, and one with tracks. -/
def threeInserted : List Event :=
  [.insert ⟨decimal 1, 0, [⟨[7]⟩]⟩, .insert ⟨decimal 2, 1, [⟨[1]⟩, ⟨[]⟩, ⟨[2]⟩]⟩,
    .insert ⟨decimal 3, 2, [⟨[1]⟩, ⟨[2]⟩, ⟨[3]⟩, ⟨[4]⟩, ⟨[5]⟩, ⟨[6]⟩]⟩]

def listRequest : Request :=
  ⟨.get, ascii "/api/v1/realtime/preview", 11, true, false, []⟩

/-- A client that has seen the first preview. -/
def pollRequest : Request :=
  { listRequest with target := ascii "/api/v1/realtime/preview?prev=1" }

theorem made_threeInserted : ∀ id ∈ insertedIds threeInserted, Made id := by
  have hids : insertedIds threeInserted = [decimal 1, decimal 2, decimal 3] := rfl
  rw [hids]
  simp only [List.forall_mem_cons]
  exact ⟨⟨noUuids, none, 1, rfl⟩, ⟨noUuids, none, 2, rfl⟩, ⟨noUuids, none, 3, rfl⟩, by simp⟩

theorem list_request_answered_poll :
    (window 30 ((afterLast lookup pollRequest.target).getD []) threeInserted).map Pictures.uuid =
        [decimal 3, decimal 2] ∧
    ∃ res, (JsonApi.handleRequest bitsHost picListHandler pollRequest).run
        { freshServer with previews := (previews 30).run threeInserted } =
        .ok ⟨⟩ { freshServer with
          previews := (previews 30).run threeInserted
          session := freshServer.session.enqueue res } ∧ res.status = 200 ∧
      Lists bitsHost (window 30 ((afterLast lookup pollRequest.target).getD []) threeInserted)
        res.body ∧
      ∀ pvs ∈ window 30 ((afterLast lookup pollRequest.target).getD []) threeInserted,
        Masks pvs (getSnapMask pvs) :=
  ⟨by decide +kernel,
    list_request_answered bitsHost bitsHost_roundTrips 30 threeInserted (by decide +kernel)
      made_threeInserted pollRequest (Or.inl rfl)
      { freshServer with previews := (previews 30).run threeInserted } rfl⟩

end Answers

end BeastServer.PreviewLists
