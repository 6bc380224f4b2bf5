import BeastServer.ByteStrings

/-!
The exceptions the program throws or meets, with the text of their what().
Exceptions of the JSON library carry their identifier; the texts of the
standard library's own exceptions are those of libstdc++.
-/
namespace BeastServer.Exceptions

open ByteStrings

inductive JsonError
  | parseError
  | typeError
  | outOfRange
  deriving DecidableEq

def JsonError.name : JsonError → Bytes
  | parseError => ascii "parse_error"
  | typeError => ascii "type_error"
  | outOfRange => ascii "out_of_range"

inductive Exception
  /-- nlohmann::detail::exception -/
  | json (kind : JsonError) (id : ℕ) (arg : Bytes)
  /-- std::out_of_range -/
  | outOfRange (arg : Bytes)
  /-- std::logic_error -/
  | logicError (arg : Bytes)
  /-- std::runtime_error -/
  | runtimeError (arg : Bytes)
  /-- std::bad_alloc -/
  | badAlloc
  /-- boost::archive::iterators::dataflow_exception -/
  | invalidBase64Character
  /-- JsonApiRequestHandler::NotFound -/
  | notFound (mess : Bytes)
  deriving DecidableEq

namespace Exception

def what : Exception → Bytes
  | json kind id arg =>
      ascii "[json.exception." ++ kind.name ++ ascii "." ++ decimal id ++ ascii "] " ++ arg
  | outOfRange arg => arg
  | logicError arg => arg
  | runtimeError arg => arg
  | badAlloc => ascii "std::bad_alloc"
  | invalidBase64Character => ascii "attempt to decode a value not in base64 char set"
  | notFound mess => mess

/-- std::array::at with index n on an array of length size. -/
def arrayAt (n size : ℕ) : Exception :=
  outOfRange (ascii "array::at: __n (which is " ++ decimal n ++ ascii ") >= _Nm (which is " ++
    decimal size ++ ascii ")")

/-- std::vector::at with index n on a vector of length size. -/
def vectorAt (n size : ℕ) : Exception :=
  outOfRange (ascii "vector::_M_range_check: __n (which is " ++ decimal n ++
    ascii ") >= this->size() (which is " ++ decimal size ++ ascii ")")

/-- std::string from a null pointer. -/
def nullString : Exception :=
  logicError (ascii "basic_string: construction from null is not valid")

/-- std::unordered_map::at with a key that is absent. -/
def mapAt : Exception := outOfRange (ascii "_Map_base::at")

end Exception

end BeastServer.Exceptions
