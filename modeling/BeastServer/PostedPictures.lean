import BeastServer.ByteStrings
import Mathlib.Data.Int.Notation

/-!
The posted picture and the wrapper that owns it.
The data pointer is null, a live heap block, or a pointer to a block that has
been deleted already; a live block knows all its bytes, so its length is the
size of its allocation. Reading or comparing more bytes than a block has is
undefined in the program; the functions here read the bytes that exist.
-/
namespace BeastServer.PostedPictures

open ByteStrings

inductive PictureObjectType
  | body
  | face
  deriving DecidableEq

inductive Buffer
  | null
  | live (bytes : Bytes)
  | deleted
  deriving DecidableEq

namespace Buffer

def bytes : Buffer → Bytes
  | null => []
  | live bytes => bytes
  | deleted => []

/-- delete[], which does nothing to a null pointer. -/
def delete : Buffer → Buffer
  | null => null
  | live _ => deleted
  | deleted => deleted

/-- A store through the pointer. Outside the block it leaves the block alone:
whatever else it overwrites is not part of the picture. -/
def store (buffer : Buffer) (index : ℕ) (byte : UInt8) : Buffer :=
  match buffer with
  | null => null
  | live bytes => live (bytes.set index byte)
  | deleted => deleted

end Buffer

structure PostPicture where
  cameraId : UInt32
  objectId : UInt32
  objectType : PictureObjectType
  timestamp : UInt64
  width : UInt32
  height : UInt32
  size : UInt32
  data : Buffer
  deriving DecidableEq

namespace PostPicture

/-- operator==; memcmp compares the first a.size bytes. -/
def equal (a b : PostPicture) : Bool :=
  a.height == b.height && a.width == b.width && a.cameraId == b.cameraId &&
    a.timestamp == b.timestamp && a.objectId == b.objectId &&
    a.objectType == b.objectType && a.size == b.size &&
    a.data.bytes.take a.size.toNat == b.data.bytes.take a.size.toNat

/-- The data has at least size bytes, and these are the first of them. -/
structure Holds (picture : PostPicture) (bytes : Bytes) : Prop where
  valid : picture.data ≠ .deleted
  length : bytes.length = picture.size.toNat
  first : picture.data.bytes.take picture.size.toNat = bytes

end PostPicture

def createPicture : PostPicture where
  size := 0
  data := .null
  width := 0
  height := 0
  objectId := 0
  objectType := .face
  timestamp := 0
  cameraId := 0

/-- PostPictureWrapper owns one heap object. The field post tells which post
made it: it stands for the identity of that object, which moves preserve. -/
structure PostPictureWrapper where
  picture : PostPicture
  timestamp : ℤ
  post : ℕ
  deriving DecidableEq

end BeastServer.PostedPictures
