import BeastServer.Exceptions
import Mathlib.Data.Int.Notation

/-!
The values of the JSON library, as far as the server reads and builds them.
The members of an object are kept in the order of their keys, one for each
key, as the map of the library keeps them. What the platform decides is
collected in Host: the conversions of doubles, including those the language
leaves undefined, and the allocation of character arrays.
-/
namespace BeastServer.JsonValues

open ByteStrings Exceptions

/-- A double by its bits. -/
structure Double where
  bits : UInt64
  deriving DecidableEq

namespace Double

def exponent (x : Double) : ℕ := x.bits.toNat / 2 ^ 52 % 2 ^ 11

def isFinite (x : Double) : Bool := x.exponent != 2047

def mantissa (x : Double) : ℕ :=
  if x.exponent = 0 then x.bits.toNat % 2 ^ 52 else x.bits.toNat % 2 ^ 52 + 2 ^ 52

/-- The integer part of a finite double. -/
def truncated (x : Double) : ℤ :=
  let exponent := max x.exponent 1
  let magnitude : ℕ :=
    if 1075 ≤ exponent then x.mantissa * 2 ^ (exponent - 1075)
    else x.mantissa / 2 ^ (1075 - exponent)
  if 2 ^ 63 ≤ x.bits.toNat then -magnitude else magnitude

end Double

structure Host where
  strtod : Bytes → Double
  toChars : Double → Bytes
  /-- static_cast of a double whose integer part is not an unsigned int. -/
  castUnsigned : Double → UInt32
  /-- static_cast of a double whose integer part is not an unsigned long. -/
  castUnsignedLong : Double → UInt64
  /-- new char[size] and what the block holds at first; none is std::bad_alloc. -/
  operatorNew : ℕ → Option Bytes
  operatorNew_length : ∀ size block, operatorNew size = some block → block.length = size

namespace Host

/-- A host that never runs out of memory, for texts without doubles. -/
def zeroed : Host where
  strtod _ := ⟨0⟩
  toChars _ := ascii "0.0"
  castUnsigned _ := 0
  castUnsignedLong _ := 0
  operatorNew size := some (List.replicate size 0)
  operatorNew_length size block h := by
    rw [← Option.some.inj h]
    exact List.length_replicate

def toUnsigned (host : Host) (x : Double) : UInt32 :=
  if x.isFinite = true ∧ 0 ≤ x.truncated ∧ x.truncated.toNat < UInt32.size then
    UInt32.ofNat x.truncated.toNat
  else host.castUnsigned x

def toUnsignedLong (host : Host) (x : Double) : UInt64 :=
  if x.isFinite = true ∧ 0 ≤ x.truncated ∧ x.truncated.toNat < UInt64.size then
    UInt64.ofNat x.truncated.toNat
  else host.castUnsignedLong x

end Host

inductive Json
  | null
  | object (members : List (Bytes × Json))
  | array (elements : List Json)
  | string (text : Bytes)
  | boolean (value : Bool)
  | numberInteger (value : Int64)
  | numberUnsigned (value : UInt64)
  | numberFloat (value : Double)
  | binary (bytes : Bytes) (subtype : Option UInt8)
  | discarded

abbrev Members := List (Bytes × Json)

namespace Members

/-- The value of the key is the given function of the value it had, if any. -/
def upsert (key : Bytes) (value : Option Json → Json) : Members → Members
  | [] => [(key, value none)]
  | (other, held) :: rest =>
    if key = other then (key, value (some held)) :: rest
    else if key < other then (key, value none) :: (other, held) :: rest
    else (other, held) :: upsert key value rest

/-- std::map::operator[] and an assignment. -/
def assign (key : Bytes) (value : Json) : Members → Members := upsert key (fun _ => value)

/-- std::map::emplace keeps the value of a key that is there. -/
def emplace (key : Bytes) (value : Json) : Members → Members :=
  upsert key (fun held => held.getD value)

def find (key : Bytes) (members : Members) : Option Json :=
  (members.find? (fun member => member.1 == key)).map Prod.snd

end Members

namespace Json

def typeName : Json → Bytes
  | null => ascii "null"
  | object _ => ascii "object"
  | array _ => ascii "array"
  | string _ => ascii "string"
  | boolean _ => ascii "boolean"
  | numberInteger _ => ascii "number"
  | numberUnsigned _ => ascii "number"
  | numberFloat _ => ascii "number"
  | binary _ _ => ascii "binary"
  | discarded => ascii "discarded"

/-- The initializer list of pairs of a key and a value. -/
def ofPairs (pairs : List (Bytes × Json)) : Json :=
  object (pairs.foldl (fun members pair => Members.emplace pair.1 pair.2 members) [])

def atKey (json : Json) (key : Bytes) : Except Exception Json :=
  match json with
  | object members =>
    match Members.find key members with
    | some value => .ok value
    | none => .error (.json .outOfRange 403 (ascii "key '" ++ key ++ ascii "' not found"))
  | json => .error (.json .typeError 304 (ascii "cannot use at() with " ++ json.typeName))

def emplace (json : Json) (key : Bytes) (value : Json) : Except Exception Json :=
  match json with
  | null => .ok (object (Members.emplace key value []))
  | object members => .ok (object (Members.emplace key value members))
  | json => .error (.json .typeError 311 (ascii "cannot use emplace() with " ++ json.typeName))

def typeMustBe (expected : Bytes) (json : Json) : Exception :=
  .json .typeError 302 (ascii "type must be " ++ expected ++ ascii ", but is " ++ json.typeName)

/-- get_to of an unsigned int takes booleans too. -/
def getUnsigned (host : Host) : Json → Except Exception UInt32
  | numberUnsigned value => .ok value.toUInt32
  | numberInteger value => .ok value.toUInt64.toUInt32
  | numberFloat value => .ok (host.toUnsigned value)
  | boolean value => .ok (if value then 1 else 0)
  | json => .error (typeMustBe (ascii "number") json)

/-- get_to of a uint64_t, the library's own unsigned type, does not. -/
def getUnsignedLong (host : Host) : Json → Except Exception UInt64
  | numberUnsigned value => .ok value
  | numberInteger value => .ok value.toUInt64
  | numberFloat value => .ok (host.toUnsignedLong value)
  | json => .error (typeMustBe (ascii "number") json)

def getString : Json → Except Exception Bytes
  | string text => .ok text
  | json => .error (typeMustBe (ascii "string") json)

/-- The number the library makes of an unsigned int. -/
def ofUnsigned (value : UInt32) : Json := numberUnsigned value.toUInt64

@[simp] theorem getUnsigned_ofUnsigned (host : Host) (value : UInt32) :
    (ofUnsigned value).getUnsigned host = .ok value := by
  simp [ofUnsigned, getUnsigned]

end Json

end BeastServer.JsonValues
