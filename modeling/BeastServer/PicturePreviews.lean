import BeastServer.PictureCaches

/-!
The preview store PicturePreviewHandler.
A preview keeps the views of one vector, the first five as snaps and the rest
as tracks. The store lists the ids of the previews, newest first, and keeps at
most cacheLimit of them. The three steps of createPreview are separate
definitions, because only the last one holds the mutex. The random generator
and the string parser of the uuid library come from outside the repository: the
outcome of the first is an input, the second is a parameter with its law.
-/
namespace BeastServer.PicturePreviews

open ByteStrings PostedPictures Exceptions Programs

section Uuids

abbrev Uuid := Fin 16 → UInt8

/-- boost::uuids::to_string: a dash follows the bytes 3, 5, 7 and 9. -/
def Uuid.toString (uuid : Uuid) : Bytes :=
  (List.finRange 16).flatMap (fun i =>
    hexDigits (uuid i) ++ if i.val ∈ [3, 5, 7, 9] then ascii "-" else [])

/-- boost::uuids::string_generator; none stands for its exception. A uuid is
written with 32 hexadecimal digits, so no shorter text is one. -/
structure StringGenerator where
  parse : Bytes → Option Uuid
  needs_digits : ∀ text, text.length < 32 → parse text = none

def noUuids : StringGenerator := ⟨fun _ => none, fun _ _ => rfl⟩

end Uuids

section Views

structure PictureView where
  data : Bytes
  deriving DecidableEq

def PictureView.ofPicture (picture : PostPicture) : PictureView :=
  ⟨picture.data.bytes.take picture.size.toNat⟩

/-- The vector of views that process builds from pictures of the cache. -/
def pictureViews (pvs : PictureCaches.Pvs) : List PictureView :=
  pvs.map (fun wrapper => PictureView.ofPicture wrapper.picture)

structure Pictures where
  uuid : Bytes
  timestamp : ℤ
  snaps : List PictureView
  tracks : List PictureView
  deriving DecidableEq

namespace Pictures

def snapsLen : ℕ := 5

/-- The loop of the constructor; index counts the views placed so far. -/
def place (index : ℕ) (pictures : Pictures) : List PictureView → Pictures
  | [] => pictures
  | pv :: pvs =>
    if index < snapsLen then
      place (index + 1) { pictures with snaps := pictures.snaps ++ [pv] } pvs
    else
      place (index + 1) { pictures with tracks := pictures.tracks ++ [pv] } pvs

def make (uuid : Bytes) (timestamp : ℤ) (pvs : List PictureView) : Pictures :=
  place 0 ⟨uuid, timestamp, [], []⟩ pvs

def urlPrefix : Bytes := ascii "/api/v1/realtime/preview/picture/"

def trackUrl (uuid : Bytes) (i : ℕ) : Bytes := urlPrefix ++ uuid ++ ascii "/tracks/" ++ decimal i

def snapUrl (uuid : Bytes) (i : ℕ) : Bytes := urlPrefix ++ uuid ++ ascii "/snaps/" ++ decimal i

def getTrackUrls (pictures : Pictures) : List Bytes :=
  (List.range pictures.tracks.length).map (trackUrl pictures.uuid)

/-- A snap without data is not advertised, but keeps its index. -/
def getSnapUrls (pictures : Pictures) : List Bytes :=
  pictures.snaps.zipIdx.filterMap (fun (snap, i) =>
    if snap.data.length > 0 then some (snapUrl pictures.uuid i) else none)

/-- Pictures::snap; at throws for an index without a snap, and that is caught. -/
def snap (pictures : Pictures) (index : ℕ) : PictureView := pictures.snaps.getD index ⟨[]⟩

/-- Pictures::track -/
def track (pictures : Pictures) (index : ℕ) : PictureView := pictures.tracks.getD index ⟨[]⟩

end Pictures

end Views

section Handler

structure PicturePreviewHandler where
  cacheLimit : ℕ
  ids : List Bytes
  pictures : Bytes → Option Pictures
  seq : UInt64

abbrev HandlerProgram := Program Exception PicturePreviewHandler

namespace PicturePreviewHandler

def make (cacheLimit : ℕ) : PicturePreviewHandler := ⟨cacheLimit, [], fun _ => none, 0⟩

def nextSeq (handler : PicturePreviewHandler) : PicturePreviewHandler :=
  { handler with seq := handler.seq + 1 }

/-- The id of a new preview: the random uuid, where its generator throws the
uuid written as the sequence number, and where that throws the number itself. -/
def makeId (generator : StringGenerator) (random : Option Uuid) (seq : UInt64) : Bytes :=
  match random with
  | some uuid => uuid.toString
  | none =>
    match generator.parse (decimal seq.toNat) with
    | some uuid => uuid.toString
    | none => decimal seq.toNat

/-- One round of the loop that drops the oldest preview. -/
def dropOldest (handler : PicturePreviewHandler) : PicturePreviewHandler :=
  match handler.ids.getLast? with
  | none => handler
  | some oldest =>
    { handler with
      pictures := Function.update handler.pictures oldest none
      ids := handler.ids.dropLast }

/-- The loop runs while there are more than cacheLimit ids, so no more often
than there are ids. -/
def evict : ℕ → PicturePreviewHandler → PicturePreviewHandler
  | 0, handler => handler
  | rounds + 1, handler =>
    if handler.ids.length > handler.cacheLimit then evict rounds (dropOldest handler)
    else handler

/-- emplace leaves the entry of a key that is present as it is. -/
def emplace (handler : PicturePreviewHandler) (id : Bytes) (pictures : Pictures) :
    PicturePreviewHandler :=
  match handler.pictures id with
  | some _ => handler
  | none => { handler with pictures := Function.update handler.pictures id (some pictures) }

/-- The part of createPreview under the mutex. -/
def store (id : Bytes) (now : ℤ) (pictureViews : List PictureView)
    (handler : PicturePreviewHandler) : PicturePreviewHandler :=
  let emplaced := emplace handler id (Pictures.make id now pictureViews)
  let listed := { emplaced with ids := id :: emplaced.ids }
  evict listed.ids.length listed

def createPreview (generator : StringGenerator) (random : Option Uuid) (now : ℤ)
    (pictureViews : List PictureView) (handler : PicturePreviewHandler) :
    PicturePreviewHandler :=
  let counted := nextSeq handler
  store (makeId generator random counted.seq) now pictureViews counted

def picturesAt (id : Bytes) : HandlerProgram Pictures := do
  let handler ← get
  match handler.pictures id with
  | some pictures => pure pictures
  | none => throw .mapAt

/-- The loop of listPreview over the ids; pics has n elements. -/
def collect (prev : Bytes) (limit : ℕ) : List Bytes → ℕ → List Pictures →
    HandlerProgram (List Pictures)
  | [], _, pics => pure pics
  | id :: ids, n, pics =>
    if id = prev ∨ (limit > 0 ∧ n ≥ limit) then pure pics
    else do
      let pictures ← picturesAt id
      collect prev limit ids (n + 1) (pics ++ [pictures])

def listPreview (prev : Bytes) (limit : ℕ) : HandlerProgram (List Pictures) := do
  let handler ← get
  collect prev limit handler.ids 0 []

/-- The lookup of visitPreview, under the mutex. The router lets no other name
than these two through; for another one, `std::out_of_range({})` makes its text
of a null pointer. -/
def getPicture (uuid name : Bytes) (index : ℕ) : HandlerProgram PictureView :=
  if name = ascii "snaps" then do return (← picturesAt uuid).snap index
  else if name = ascii "tracks" then do return (← picturesAt uuid).track index
  else throw .nullString

end PicturePreviewHandler

end Handler

namespace Pictures

theorem place_eq (index : ℕ) (pictures : Pictures) (pvs : List PictureView) :
    place index pictures pvs =
      { pictures with
        snaps := pictures.snaps ++ pvs.take (snapsLen - index)
        tracks := pictures.tracks ++ pvs.drop (snapsLen - index) } := by
  induction pvs generalizing index pictures with
  | nil => simp [place]
  | cons pv pvs ih =>
    by_cases hindex : index < snapsLen
    · have hleft : snapsLen - index = snapsLen - (index + 1) + 1 := by omega
      rw [place, if_pos hindex, ih, hleft]
      simp
    · have hleft : snapsLen - index = 0 := by omega
      have hnext : snapsLen - (index + 1) = 0 := by omega
      rw [place, if_neg hindex, ih, hleft, hnext]
      simp

/-- The first five views are the snaps and the others the tracks. -/
theorem make_eq (uuid : Bytes) (timestamp : ℤ) (pvs : List PictureView) :
    make uuid timestamp pvs = ⟨uuid, timestamp, pvs.take 5, pvs.drop 5⟩ := by
  simp [make, place_eq, snapsLen]

theorem mem_getTrackUrls {pictures : Pictures} {url : Bytes} :
    url ∈ getTrackUrls pictures ↔
      ∃ i < pictures.tracks.length, url = trackUrl pictures.uuid i := by
  simp [getTrackUrls, eq_comm]

theorem mem_getSnapUrls {pictures : Pictures} {url : Bytes} :
    url ∈ getSnapUrls pictures ↔
      ∃ i snap, pictures.snaps[i]? = some snap ∧ snap.data.length > 0 ∧
        url = snapUrl pictures.uuid i := by
  simp only [getSnapUrls, List.mem_filterMap, Prod.exists, List.mem_zipIdx_iff_getElem?,
    Option.ite_none_right_eq_some, Option.some.injEq]
  constructor
  · intro hmem
    obtain ⟨snap, i, hsnap, hdata, rfl⟩ := hmem
    exact ⟨i, snap, hsnap, hdata, rfl⟩
  · intro hmem
    obtain ⟨i, snap, hsnap, hdata, rfl⟩ := hmem
    exact ⟨snap, i, hsnap, hdata, rfl⟩

end Pictures

end BeastServer.PicturePreviews
