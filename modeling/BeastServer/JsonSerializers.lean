import BeastServer.JsonValues
import BeastServer.Utf8

/-!
The serializer of the JSON library, as dump() with its default arguments runs it.
A string is checked while it is escaped, by an automaton that is given as one
table: first the class of every byte, then for every state and class the next
state. The automaton refuses exactly the strings that are not well-formed UTF-8.
-/
namespace BeastServer.JsonSerializers

open ByteStrings Exceptions JsonValues Utf8

section Decoder

def utf8Accept : ℕ := 0

def utf8Reject : ℕ := 1

/-- The classes of the bytes, and then a row of next states for every state; the
table is cut into rows of sixteen. -/
def utf8dRows : List (List ℕ) :=
  [[0, 0, 0, 0, 0, 0, 0, 0, 0, 0, 0, 0, 0, 0, 0, 0],
    [0, 0, 0, 0, 0, 0, 0, 0, 0, 0, 0, 0, 0, 0, 0, 0],
    [0, 0, 0, 0, 0, 0, 0, 0, 0, 0, 0, 0, 0, 0, 0, 0],
    [0, 0, 0, 0, 0, 0, 0, 0, 0, 0, 0, 0, 0, 0, 0, 0],
    [0, 0, 0, 0, 0, 0, 0, 0, 0, 0, 0, 0, 0, 0, 0, 0],
    [0, 0, 0, 0, 0, 0, 0, 0, 0, 0, 0, 0, 0, 0, 0, 0],
    [0, 0, 0, 0, 0, 0, 0, 0, 0, 0, 0, 0, 0, 0, 0, 0],
    [0, 0, 0, 0, 0, 0, 0, 0, 0, 0, 0, 0, 0, 0, 0, 0],
    [1, 1, 1, 1, 1, 1, 1, 1, 1, 1, 1, 1, 1, 1, 1, 1],
    [9, 9, 9, 9, 9, 9, 9, 9, 9, 9, 9, 9, 9, 9, 9, 9],
    [7, 7, 7, 7, 7, 7, 7, 7, 7, 7, 7, 7, 7, 7, 7, 7],
    [7, 7, 7, 7, 7, 7, 7, 7, 7, 7, 7, 7, 7, 7, 7, 7],
    [8, 8, 2, 2, 2, 2, 2, 2, 2, 2, 2, 2, 2, 2, 2, 2],
    [2, 2, 2, 2, 2, 2, 2, 2, 2, 2, 2, 2, 2, 2, 2, 2],
    [10, 3, 3, 3, 3, 3, 3, 3, 3, 3, 3, 3, 3, 4, 3, 3],
    [11, 6, 6, 6, 5, 8, 8, 8, 8, 8, 8, 8, 8, 8, 8, 8],
    [0, 1, 2, 3, 5, 8, 7, 1, 1, 1, 4, 6, 1, 1, 1, 1],
    [1, 1, 1, 1, 1, 1, 1, 1, 1, 1, 1, 1, 1, 1, 1, 1],
    [1, 0, 1, 1, 1, 1, 1, 0, 1, 0, 1, 1, 1, 1, 1, 1],
    [1, 2, 1, 1, 1, 1, 1, 2, 1, 2, 1, 1, 1, 1, 1, 1],
    [1, 1, 1, 1, 1, 1, 1, 2, 1, 1, 1, 1, 1, 1, 1, 1],
    [1, 2, 1, 1, 1, 1, 1, 1, 1, 2, 1, 1, 1, 1, 1, 1],
    [1, 1, 1, 1, 1, 1, 1, 3, 1, 3, 1, 1, 1, 1, 1, 1],
    [1, 3, 1, 1, 1, 1, 1, 3, 1, 3, 1, 1, 1, 1, 1, 1],
    [1, 3, 1, 1, 1, 1, 1, 1, 1, 1, 1, 1, 1, 1, 1, 1]]

def utf8d (index : ℕ) : ℕ := (utf8dRows.getD (index / 16) []).getD (index % 16) utf8Reject

def byteType (byte : UInt8) : ℕ := utf8d byte.toNat

def decodeState (state : ℕ) (byte : UInt8) : ℕ :=
  utf8d (256 + state * 16 + byteType byte)

def decodeCodepoint (state : ℕ) (codep : UInt32) (byte : UInt8) : UInt32 :=
  if state ≠ utf8Accept then (byte.toUInt32 &&& (0x3f : UInt32)) ||| (codep <<< (6 : UInt32))
  else UInt32.ofNat (0xFF / 2 ^ byteType byte) &&& byte.toUInt32

end Decoder

section Strings

/-- What is written for a character that ends with the given byte. -/
def escapeCharacter (codepoint : UInt32) (byte : UInt8) : Bytes :=
  if codepoint = 0x08 then ascii "\\b"
  else if codepoint = 0x09 then ascii "\\t"
  else if codepoint = 0x0A then ascii "\\n"
  else if codepoint = 0x0C then ascii "\\f"
  else if codepoint = 0x0D then ascii "\\r"
  else if codepoint = 0x22 then ascii "\\\""
  else if codepoint = 0x5C then ascii "\\\\"
  else if codepoint ≤ 0x1F then ascii "\\u00" ++ hexDigits byte
  else [byte]

/-- The bytes of a string from index i on; last is the byte before them. -/
def dumpEscapedFrom (i : ℕ) (last : UInt8) (state : ℕ) (codep : UInt32) :
    Bytes → Except Exception Bytes
  | [] =>
    if state = utf8Accept then .ok []
    else
      .error (.json .typeError 316
        (ascii "incomplete UTF-8 string; last byte: 0x" ++ upperHex last))
  | byte :: rest =>
    let next := decodeState state byte
    let codepoint := decodeCodepoint state codep byte
    if next = utf8Reject then
      .error (.json .typeError 316
        (ascii "invalid UTF-8 byte at index " ++ decimal i ++ ascii ": 0x" ++ upperHex byte))
    else do
      let written ← dumpEscapedFrom (i + 1) byte next codepoint rest
      pure ((if next = utf8Accept then escapeCharacter codepoint byte else [byte]) ++ written)

def dumpEscaped (s : Bytes) : Except Exception Bytes := dumpEscapedFrom 0 0 utf8Accept 0 s

/-- The ranges that are missing in a state of the automaton. -/
def missing : ℕ → List Range
  | 2 => [tail]
  | 3 => [tail, tail]
  | 4 => [⟨0xA0, 0xBF⟩, tail]
  | 5 => [⟨0x80, 0x9F⟩, tail]
  | 6 => [⟨0x90, 0xBF⟩, tail, tail]
  | 7 => [tail, tail, tail]
  | 8 => [⟨0x80, 0x8F⟩, tail, tail]
  | _ => []

/-- The table makes the automaton count down the missing ranges. -/
theorem decodeState_missing {state : ℕ} (byte : UInt8) (hstate : state ≤ 8)
    (hvalid : state ≠ utf8Reject) :
    decodeState state byte ≤ 8 ∧
      advance (missing state) byte =
        if decodeState state byte = utf8Reject then none
        else some (missing (decodeState state byte)) := by
  have hall : ∀ byte, ∀ state < 9, state ≠ utf8Reject →
      decodeState state byte ≤ 8 ∧
        advance (missing state) byte =
          if decodeState state byte = utf8Reject then none
          else some (missing (decodeState state byte)) := by
    apply forall_byte
    decide +kernel
  exact hall byte state (by omega) hvalid

theorem missing_ne_nil {state : ℕ} (hstate : state ≤ 8) (hvalid : state ≠ utf8Reject)
    (haccept : state ≠ utf8Accept) : missing state ≠ [] := by
  have hall : ∀ state < 9, state ≠ utf8Reject → state ≠ utf8Accept → missing state ≠ [] := by
    decide
  exact hall state (by omega) hvalid haccept

theorem dumpEscapedFrom_isOk {i state : ℕ} {last : UInt8} {codep : UInt32} {bytes : Bytes}
    (hstate : state ≤ 8) (hvalid : state ≠ utf8Reject) :
    (dumpEscapedFrom i last state codep bytes).isOk = completes (missing state) bytes := by
  induction bytes generalizing i last state codep with
  | nil =>
    rw [dumpEscapedFrom]
    by_cases haccept : state = utf8Accept
    · rw [if_pos haccept, haccept]
      rfl
    · obtain ⟨range, ranges, hmissing⟩ :=
        List.exists_cons_of_ne_nil (missing_ne_nil hstate hvalid haccept)
      rw [if_neg haccept, hmissing]
      rfl
  | cons byte rest ih =>
    obtain ⟨hnext, hadvance⟩ := decodeState_missing byte hstate hvalid
    rw [dumpEscapedFrom, completes_cons, hadvance]
    by_cases hreject : decodeState state byte = utf8Reject
    · simp only [hreject, if_true]
      rfl
    · simp only [hreject, if_false]
      rw [← @ih (i + 1) _ byte (decodeCodepoint state codep byte) hnext hreject]
      cases dumpEscapedFrom (i + 1) byte (decodeState state byte)
        (decodeCodepoint state codep byte) rest <;> rfl

/-- A string can be dumped exactly when it is well-formed UTF-8. -/
theorem dumpEscaped_isOk (s : Bytes) : (dumpEscaped s).isOk = true ↔ WellFormed s := by
  have hstart := @dumpEscapedFrom_isOk 0 utf8Accept 0 0 s (by decide) (by decide)
  rw [dumpEscaped, hstart]
  rfl

end Strings

section Values

def dumpInteger (value : Int64) : Bytes :=
  if value.toInt < 0 then ascii "-" ++ decimal value.toInt.natAbs else decimal value.toInt.toNat

def dumpFloat (host : Host) (value : Double) : Bytes :=
  if value.isFinite = true then host.toChars value else ascii "null"

def separated (separator : Bytes) : List Bytes → Bytes
  | [] => []
  | [text] => text
  | text :: rest => text ++ separator ++ separated separator rest

def dumpBinary (bytes : Bytes) (subtype : Option UInt8) : Bytes :=
  ascii "\x7b\"bytes\":[" ++ separated (ascii ",") (bytes.map (fun byte => decimal byte.toNat)) ++
    ascii "],\"subtype\":" ++
      match subtype with
      | some subtype => decimal subtype.toNat ++ ascii "\x7d"
      | none => ascii "null\x7d"

mutual

def dump (host : Host) : Json → Except Exception Bytes
  | .object members => do
    pure (ascii "\x7b" ++ separated (ascii ",") (← dumpMembers host members) ++ ascii "\x7d")
  | .array elements => do
    pure (ascii "[" ++ separated (ascii ",") (← dumpElements host elements) ++ ascii "]")
  | .string text => do
    pure (ascii "\"" ++ (← dumpEscaped text) ++ ascii "\"")
  | .binary bytes subtype => pure (dumpBinary bytes subtype)
  | .boolean true => pure (ascii "true")
  | .boolean false => pure (ascii "false")
  | .numberInteger value => pure (dumpInteger value)
  | .numberUnsigned value => pure (decimal value.toNat)
  | .numberFloat value => pure (dumpFloat host value)
  | .discarded => pure (ascii "<discarded>")
  | .null => pure (ascii "null")

def dumpMembers (host : Host) : Members → Except Exception (List Bytes)
  | [] => pure []
  | (key, value) :: rest => do
    let name ← dumpEscaped key
    let text ← dump host value
    pure ((ascii "\"" ++ name ++ ascii "\":" ++ text) :: (← dumpMembers host rest))

def dumpElements (host : Host) : List Json → Except Exception (List Bytes)
  | [] => pure []
  | value :: rest => do
    let text ← dump host value
    pure (text :: (← dumpElements host rest))

end

end Values

end BeastServer.JsonSerializers
