import BeastServer.AnsweredRequests
import BeastServer.Paths
import BeastServer.PreviewStores

/-!
The handler of the pictures of a preview.
The target is split at its slashes, a run of them counting as one, and its last
three components are the uuid, the kind and the index. The index is converted by
the library, whose law for numbers is all that is used of it here; the container
lookups throw, and visitPreview answers 404 to what they throw.
-/
namespace BeastServer.PreviewVisits

open ByteStrings Exceptions Programs HttpMessages HttpSessions JsonValues PicturePreviews
open PicturePreviewHandler PreviewStores Paths
open JsonApi hiding getPicture

section Conversion

/-- boost::conversion::try_lexical_convert to a size_t: what it leaves in a
variable that holds the given number. -/
structure LexicalConvert where
  convert : Bytes → ℕ → ℕ
  convert_decimal : ∀ n before, n < 2 ^ 64 → convert (decimal n) before = n

/-- The digits of a reversed text are summed up until one does not fit. -/
def fill (sum multiplier : ℕ) : Bytes → ℕ
  | [] => sum
  | c :: rest =>
    if isDigit c = true ∧ sum + multiplier * (c.toNat - 48) < 2 ^ 64 then
      fill (sum + multiplier * (c.toNat - 48)) (10 * multiplier) rest
    else sum

/-- A minus negates what the rest of the text leaves; a plus is skipped. -/
def convertUnsigned (text : Bytes) (before : ℕ) : ℕ :=
  match text with
  | [] => before
  | c :: rest =>
    if c = 45 then (2 ^ 64 - fill 0 1 rest.reverse) % 2 ^ 64
    else if c = 43 then fill 0 1 rest.reverse
    else fill 0 1 (c :: rest).reverse

variable {sum multiplier n : ℕ} {c : UInt8} {rest text : Bytes}

theorem fill_digits {number : Bytes} (hall : ∀ d ∈ number, isDigit d = true)
    (hsmall : sum + multiplier * digitsValue number < 2 ^ 64) :
    fill sum multiplier (number.reverse ++ rest) =
      fill (sum + multiplier * digitsValue number) (10 ^ number.length * multiplier) rest := by
  induction number using List.reverseRecOn generalizing sum multiplier with
  | nil => simp [digitsValue]
  | append_singleton number d ih =>
    have hvalue : digitsValue (number ++ [d]) = 10 * digitsValue number + (d.toNat - 48) := by
      simp [digitsValue, List.foldl_append]
    have hsum : sum + multiplier * digitsValue (number ++ [d]) =
        sum + multiplier * (d.toNat - 48) + 10 * multiplier * digitsValue number := by
      rw [hvalue]
      ring
    have hlast := hall d (by simp)
    have hbefore : ∀ e ∈ number, isDigit e = true := fun e he => hall e (by simp [he])
    rw [hsum] at hsmall ⊢
    rw [List.reverse_append, List.reverse_singleton, List.singleton_append, List.cons_append, fill,
      if_pos ⟨hlast, by omega⟩, ih hbefore hsmall, List.length_append, List.length_singleton]
    congr 1
    ring

theorem fill_stopped (h : isDigit c = false) : fill sum multiplier (c :: rest) = sum := by
  rw [fill, if_neg (by simp [h])]

/-- The digits at the end of a text are filled in up to another character. -/
theorem fill_decimal (hn : n < 2 ^ 64) (hrest : ∀ d ∈ rest.head?, isDigit d = false) :
    fill 0 1 ((decimal n).reverse ++ rest) = n := by
  have hvalue := digitsValue_decimal n
  rw [fill_digits (fun _ hd => isDigit_of_mem_decimal hd) (by omega), hvalue]
  cases rest with
  | nil => simp [fill]
  | cons c rest =>
    rw [fill_stopped (hrest c rfl)]
    omega

theorem convertUnsigned_decimal (before : ℕ) (hn : n < 2 ^ 64) :
    convertUnsigned (decimal n) before = n := by
  have hfill := @fill_decimal n [] hn (by simp)
  rw [List.append_nil] at hfill
  cases htext : decimal n with
  | nil => exact absurd htext (decimal_ne_nil n)
  | cons c rest =>
    have hdigit := @isDigit_of_mem_decimal n c (by simp [htext])
    have hminus : c ≠ 45 := by
      rintro rfl
      cases hdigit
    have hplus : c ≠ 43 := by
      rintro rfl
      cases hdigit
    rw [convertUnsigned, if_neg hminus, if_neg hplus, ← htext, hfill]

/-- The conversion of the library, for the numbers of 64 bits. -/
def LexicalConvert.boost : LexicalConvert where
  convert := convertUnsigned
  convert_decimal _ before hn := convertUnsigned_decimal before hn

end Conversion

section Handler

/-- paths.at(paths.size() - n); the index wraps around below zero. -/
def fromEnd (paths : List Bytes) (n : ℕ) : Except Exception Bytes :=
  if n ≤ paths.length then .ok (paths.getD (paths.length - n) [])
  else .error (.vectorAt (2 ^ 64 + paths.length - n) paths.length)

def pictureResponse (req : Request) (picture : PictureView) : Response :=
  let res : Response :=
    { status := 200
      version := req.version
      server := getServerSignature
      contentType := ascii "image/jpeg"
      contentLength := none
      keepAlive := req.keepAlive
      body := picture.data }
  res.preparePayload

def visitPreview (lexical : LexicalConvert) (host : Host) (req : Request) :
    HandlerProgram Response := do
  let uri := req.target
  let paths := splitCompressed slash uri
  let index := lexical.convert (← ofExcept (fromEnd paths 1)) 0
  let name ← ofExcept (fromEnd paths 2)
  let uuid ← ofExcept (fromEnd paths 3)
  tryCatch
    (do
      let picture ← getPicture uuid name index
      pure (pictureResponse req picture))
    (fun ex =>
      match ex with
      | .outOfRange _ => ofExcept (createJsonNotFound host req uri)
      | ex => throw ex)

def onPreviews {α : Type} (x : HandlerProgram α) : ApiProgram α :=
  within ApiState.previews (fun previews s => { s with previews := previews }) x

/-- PicturePreviewHandler::handleRequest -/
def handleRequest (lexical : LexicalConvert) (host : Host) (req : Request) : ApiProgram PUnit :=
  if req.method ≠ .get then do
    send (← ofExcept (createJsonBadRequest host req (ascii "Unsupported method.")))
  else
    tryCatch
      (do send (← onPreviews (visitPreview lexical host req)))
      (fun ex => do send (← ofExcept (createJsonServerError host req ex.what)))

end Handler

section Visits

variable {lexical : LexicalConvert} {host : Host} {req : Request} {s : PicturePreviewHandler}
  {uuid name last : Bytes} {index : ℕ} {p : Pictures}

theorem fromEnd_split {paths : List Bytes} {component : Bytes} {n : ℕ}
    (earlier later : List Bytes) (h : paths = earlier ++ component :: later)
    (hn : n = later.length + 1) : fromEnd paths n = .ok component := by
  have hlength : paths.length - n = earlier.length := by
    rw [h, hn, List.length_append, List.length_cons]
    omega
  have hle : n ≤ paths.length := by
    rw [h, hn, List.length_append, List.length_cons]
    omega
  rw [fromEnd, if_pos hle, hlength, h]
  simp

/-- The target ends with these components. -/
def LastThree (target uuid name last : Bytes) : Prop :=
  ∃ earlier, splitCompressed slash target = earlier ++ [uuid, name, last]

/-- The part of visitPreview in the try block, and its catch clause. -/
def answerVisit (host : Host) (req : Request) (uuid name : Bytes) (index : ℕ) :
    HandlerProgram Response :=
  tryCatch
    (do
      let picture ← getPicture uuid name index
      pure (pictureResponse req picture))
    (fun ex =>
      match ex with
      | .outOfRange _ => ofExcept (createJsonNotFound host req req.target)
      | ex => throw ex)

theorem visitPreview_run (h : LastThree req.target uuid name last) :
    (visitPreview lexical host req).run s =
      (answerVisit host req uuid name (lexical.convert last 0)).run s := by
  obtain ⟨earlier, hsplit⟩ := h
  have hlast : fromEnd (splitCompressed slash req.target) 1 = .ok last :=
    fromEnd_split (earlier ++ [uuid, name]) [] (by simp [hsplit]) rfl
  have hname : fromEnd (splitCompressed slash req.target) 2 = .ok name :=
    fromEnd_split (earlier ++ [uuid]) [last] (by simp [hsplit]) rfl
  have huuid : fromEnd (splitCompressed slash req.target) 3 = .ok uuid :=
    fromEnd_split earlier [name, last] hsplit rfl
  simp only [visitPreview]
  rw [hlast, bind_ok (run_ofExcept_ok _ _), hname, bind_ok (run_ofExcept_ok _ _), huuid,
    bind_ok (run_ofExcept_ok _ _)]
  rfl

theorem answerVisit_found {picture : PictureView}
    (h : (getPicture uuid name index).run s = .ok picture s) :
    (answerVisit host req uuid name index).run s = .ok (pictureResponse req picture) s :=
  tryCatch_ok (bind_ok h)

theorem answerVisit_missing {arg : Bytes} {res : Response}
    (h : (getPicture uuid name index).run s = .error (.outOfRange arg) s)
    (hres : createJsonNotFound host req req.target = .ok res) :
    (answerVisit host req uuid name index).run s = .ok res s := by
  rw [answerVisit, tryCatch_error (bind_error h), hres]
  rfl

/-- What a retained preview answers for an index, whether or not it has such a picture. -/
def pictureOf (p : Pictures) (name : Bytes) (index : ℕ) : PictureView :=
  if name = ascii "snaps" then p.snap index else p.track index

theorem getPicture_run (hname : name = ascii "snaps" ∨ name = ascii "tracks")
    (h : s.pictures uuid = some p) :
    (getPicture uuid name index).run s = .ok (pictureOf p name index) s := by
  unfold getPicture pictureOf
  by_cases hsnaps : name = ascii "snaps"
  · rw [if_pos hsnaps, if_pos hsnaps, bind_ok (picturesAt_run h)]
    rfl
  · have htracks : name = ascii "tracks" := hname.resolve_left hsnaps
    rw [if_neg hsnaps, if_pos htracks, if_neg hsnaps, bind_ok (picturesAt_run h)]
    rfl

theorem getPicture_throws (hname : name = ascii "snaps" ∨ name = ascii "tracks")
    (h : s.pictures uuid = none) :
    (getPicture uuid name index).run s = .error .mapAt s := by
  unfold getPicture
  by_cases hsnaps : name = ascii "snaps"
  · rw [if_pos hsnaps, bind_error (picturesAt_throws h)]
  · rw [if_neg hsnaps, if_pos (hname.resolve_left hsnaps), bind_error (picturesAt_throws h)]

end Visits

end BeastServer.PreviewVisits
