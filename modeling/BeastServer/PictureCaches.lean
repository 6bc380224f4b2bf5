import BeastServer.PostedPictures
import BeastServer.Exceptions
import BeastServer.Programs
import Mathlib.Algebra.GroupWithZero.Nat
import Mathlib.Logic.Function.Basic
import Mathlib.Data.Fintype.Basic

/-!
The grouping cache PictureCache.
An unordered map is a function to Option; where the code walks over a map the
walk takes the order of the keys as an argument, so any iteration order can be
supplied. The three critical sections of addPicture (cleanup, insertion,
process) are separate programs on the two maps, because the mutex is released
between them. The vector of views is represented by the pictures the views are
made from; an empty vector means that createPreview is not called.
-/
namespace BeastServer.PictureCaches

open PostedPictures Exceptions Programs

abbrev ObjectId := UInt32

def timeLimit : ℤ := 10

abbrev cacheLines : ℕ := 4

instance cacheLines_neZero : NeZero cacheLines := ⟨Nat.succ_ne_zero 3⟩

abbrev BodyPictureCacheLine := Fin cacheLines → List PostPictureWrapper

structure PictureCache where
  bodyCaches : ObjectId → Option BodyPictureCacheLine
  faceCaches : ObjectId → Option PostPictureWrapper

def PictureCache.empty : PictureCache := ⟨fun _ => none, fun _ => none⟩

abbrev CacheProgram := Program Exception PictureCache

abbrev Pvs := List PostPictureWrapper

section Cleanup

def isExpired (now : ℤ) (picture : PostPictureWrapper) : Bool :=
  decide (now - picture.timestamp > timeLimit)

def removePictureExpired (now : ℤ) (pictures : List PostPictureWrapper) :
    List PostPictureWrapper :=
  pictures.filter (fun picture => !isExpired now picture)

def removePictureExpiredInLines (now : ℤ) (lines : BodyPictureCacheLine) :
    BodyPictureCacheLine :=
  fun i => removePictureExpired now (lines i)

def allLinesEmpty (lines : BodyPictureCacheLine) : Bool := decide (∀ i, lines i = [])

/-- The loops treat each entry on its own, so the order of the maps is immaterial. -/
def cleanup (now : ℤ) (cache : PictureCache) : PictureCache where
  bodyCaches id :=
    ((cache.bodyCaches id).map (removePictureExpiredInLines now)).filter
      (fun lines => !allLinesEmpty lines)
  faceCaches id := (cache.faceCaches id).filter (fun picture => !isExpired now picture)

end Cleanup

section Insertion

def setFace (cache : PictureCache) (id : ObjectId) (picture : PostPictureWrapper) :
    PictureCache :=
  { cache with faceCaches := Function.update cache.faceCaches id (some picture) }

def setBody (cache : PictureCache) (id : ObjectId) (lines : BodyPictureCacheLine) :
    PictureCache :=
  { cache with bodyCaches := Function.update cache.bodyCaches id (some lines) }

/-- The lines of an object; emplace makes four empty ones for a new object. -/
def linesOf (cache : PictureCache) (id : ObjectId) : BodyPictureCacheLine :=
  (cache.bodyCaches id).getD (fun _ => [])

/-- The second critical section. The entry of a new object exists before the
line is looked up, so it stays behind when at throws. -/
def addNewPic (picture : PostPictureWrapper) : CacheProgram PUnit := do
  let cache ← get
  let objectId := picture.picture.objectId
  match picture.picture.objectType with
  | .face => set (setFace cache objectId picture)
  | .body =>
    let lines := linesOf cache objectId
    set (setBody cache objectId lines)
    if h : picture.picture.cameraId.toNat < cacheLines then
      let line : Fin cacheLines := ⟨picture.picture.cameraId.toNat, h⟩
      set (setBody cache objectId (Function.update lines line (lines line ++ [picture])))
    else
      throw (.arrayAt picture.picture.cameraId.toNat cacheLines)

end Insertion

section Process

def hasEmpty (lines : BodyPictureCacheLine) : Bool := decide (∃ i, lines i = [])

def faceAt (id : ObjectId) : CacheProgram PostPictureWrapper := do
  let cache ← get
  match cache.faceCaches id with
  | some picture => pure picture
  | none => throw .mapAt

def bodyAt (id : ObjectId) : CacheProgram BodyPictureCacheLine := do
  let cache ← get
  match cache.bodyCaches id with
  | some lines => pure lines
  | none => throw .mapAt

def pictureAt (pictures : List PostPictureWrapper) (n : ℕ) :
    CacheProgram PostPictureWrapper :=
  match pictures[n]? with
  | some picture => pure picture
  | none => throw (.vectorAt n pictures.length)

def erase (id : ObjectId) (cache : PictureCache) : PictureCache where
  bodyCaches := Function.update cache.bodyCaches id none
  faceCaches := Function.update cache.faceCaches id none

/-- The body of the loop over the lines of one object. -/
def postLine (objectId : ObjectId) (pvs : Pvs) (line : List PostPictureWrapper) :
    CacheProgram Pvs :=
  if line.length ≥ 6 then do
    let face ← faceAt objectId
    let body0 ← pictureAt ((← bodyAt objectId) 0) 0
    let body1 ← pictureAt ((← bodyAt objectId) 1) 0
    let body2 ← pictureAt ((← bodyAt objectId) 2) 0
    let body3 ← pictureAt ((← bodyAt objectId) 3) 0
    let track0 ← pictureAt line 0
    let track1 ← pictureAt line 1
    let track2 ← pictureAt line 2
    let track3 ← pictureAt line 3
    let track4 ← pictureAt line 4
    let track5 ← pictureAt line 5
    pure (pvs ++ [face, body0, body1, body2, body3,
      track0, track1, track2, track3, track4, track5])
  else
    pure pvs

/-- The loop over the lines, under its test that no line is empty. -/
def postLines (objectId : ObjectId) (lines : BodyPictureCacheLine) (pvs : Pvs) :
    CacheProgram Pvs :=
  if hasEmpty lines then pure pvs
  else [lines 0, lines 1, lines 2, lines 3].foldlM (postLine objectId) pvs

/-- The vector pvs is shared by all objects of one call of process: whether
this object is erased depends on it, not on this object alone. -/
def tryPostWithObject (objectId : ObjectId) (pvs : Pvs) : CacheProgram Pvs := do
  let lines ← bodyAt objectId
  let pvs ← postLines objectId lines pvs
  if pvs.isEmpty then
    pure pvs
  else do
    modify (erase objectId)
    pure pvs

/-- The third critical section; order is the iteration order of faceCaches. -/
def process (order : List ObjectId) : CacheProgram Pvs := do
  let cache ← get
  let ids := order.filter (fun id => (cache.bodyCaches id).isSome)
  ids.foldlM (fun pvs id => tryPostWithObject id pvs) []

end Process

/-- One call of addPicture with everything the call does not determine itself:
the clock reading of cleanup and the iteration order in process. -/
structure Call where
  picture : PostPictureWrapper
  now : ℤ
  order : List ObjectId

def Call.objectId (call : Call) : ObjectId := call.picture.picture.objectId

def addPicture (call : Call) : CacheProgram Pvs := do
  modify (cleanup call.now)
  addNewPic call.picture
  process call.order

end BeastServer.PictureCaches
