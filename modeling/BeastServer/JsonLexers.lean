import BeastServer.JsonValues
import BeastServer.Utf8
import Mathlib.Data.List.GetD
import Mathlib.Order.Nat
import Mathlib.Tactic.ByContra

/-!
The lexer of the JSON library.
The scan functions are loops over the input that is left: the loops read one
character at a time and the places of the code where they wait for the next one
are the states of the string and the number scanner. A character that is put
back is put back on the input. The raw bytes of a token are collected since
the last string or number began, because only these two start them afresh.
-/
namespace BeastServer.JsonLexers

open ByteStrings JsonValues

section Tokens

inductive TokenType
  | uninitialized
  | literalTrue
  | literalFalse
  | literalNull
  | valueString
  | valueUnsigned
  | valueInteger
  | valueFloat
  | beginArray
  | beginObject
  | endArray
  | endObject
  | nameSeparator
  | valueSeparator
  | parseError
  | endOfInput
  | literalOrValue
  deriving DecidableEq

def TokenType.name : TokenType → Bytes
  | uninitialized => ascii "<uninitialized>"
  | literalTrue => ascii "true literal"
  | literalFalse => ascii "false literal"
  | literalNull => ascii "null literal"
  | valueString => ascii "string literal"
  | valueUnsigned => ascii "number literal"
  | valueInteger => ascii "number literal"
  | valueFloat => ascii "number literal"
  | beginArray => ascii "'['"
  | beginObject => ascii "'\x7b'"
  | endArray => ascii "']'"
  | endObject => ascii "'\x7d'"
  | nameSeparator => ascii "':'"
  | valueSeparator => ascii "','"
  | parseError => ascii "<parse error>"
  | endOfInput => ascii "end of input"
  | literalOrValue => ascii "'[', '\x7b', or a literal"

/-- What went wrong in the lexer; none before anything did. -/
inductive ErrorMessage
  | none
  | invalidBom
  | invalidLiteral
  | missingClosingQuote
  | controlCharacter (c : UInt8)
  | forbiddenEscape
  | hexDigits
  | highSurrogate
  | lowSurrogate
  | illFormedByte
  | digitAfterMinus
  | digitAfterPoint
  | digitAfterExponent
  | digitAfterSign
  deriving DecidableEq

def controlNames : List String :=
  ["NUL", "SOH", "STX", "ETX", "EOT", "ENQ", "ACK", "BEL", "BS", "HT", "LF", "VT", "FF", "CR",
    "SO", "SI", "DLE", "DC1", "DC2", "DC3", "DC4", "NAK", "SYN", "ETB", "CAN", "EM", "SUB", "ESC",
    "FS", "GS", "RS", "US"]

/-- The short escapes that the message offers for some control characters. -/
def shortEscape (c : UInt8) : Bytes :=
  if c = 8 then ascii " or \\b"
  else if c = 9 then ascii " or \\t"
  else if c = 10 then ascii " or \\n"
  else if c = 12 then ascii " or \\f"
  else if c = 13 then ascii " or \\r"
  else []

def ErrorMessage.text : ErrorMessage → Bytes
  | none => []
  | invalidBom => ascii "invalid BOM; must be 0xEF 0xBB 0xBF if given"
  | invalidLiteral => ascii "invalid literal"
  | missingClosingQuote => ascii "invalid string: missing closing quote"
  | controlCharacter c =>
    ascii "invalid string: control character U+00" ++ upperHex c ++ ascii " (" ++
      ascii (controlNames.getD c.toNat "") ++ ascii ") must be escaped to \\u00" ++ upperHex c ++
      shortEscape c
  | forbiddenEscape => ascii "invalid string: forbidden character after backslash"
  | hexDigits => ascii "invalid string: '\\u' must be followed by 4 hex digits"
  | highSurrogate =>
    ascii "invalid string: surrogate U+D800..U+DBFF must be followed by U+DC00..U+DFFF"
  | lowSurrogate => ascii "invalid string: surrogate U+DC00..U+DFFF must follow U+D800..U+DBFF"
  | illFormedByte => ascii "invalid string: ill-formed UTF-8 byte"
  | digitAfterMinus => ascii "invalid number; expected digit after '-'"
  | digitAfterPoint => ascii "invalid number; expected digit after '.'"
  | digitAfterExponent => ascii "invalid number; expected '+', '-', or digit after exponent"
  | digitAfterSign => ascii "invalid number; expected digit after exponent sign"

end Tokens

section Input

structure Position where
  charsReadTotal : ℕ
  charsReadCurrentLine : ℕ
  linesRead : ℕ
  deriving DecidableEq

structure Lexer where
  input : Bytes
  /-- The character read last, or none for the end of the file. -/
  current : Option UInt8
  position : Position
  tokenString : Bytes
  tokenBuffer : Bytes
  errorMessage : ErrorMessage
  valueInteger : Int64
  valueUnsigned : UInt64
  valueFloat : Double

namespace Lexer

def start (input : Bytes) : Lexer where
  input := input
  current := none
  position := ⟨0, 0, 0⟩
  tokenString := []
  tokenBuffer := []
  errorMessage := .none
  valueInteger := 0
  valueUnsigned := 0
  valueFloat := ⟨0⟩

/-- get() after it has taken the next character from the input. -/
def got (c : Option UInt8) (lexer : Lexer) : Lexer :=
  { lexer with
    current := c
    tokenString := lexer.tokenString ++ c.toList
    position :=
      { charsReadTotal := lexer.position.charsReadTotal + 1
        charsReadCurrentLine :=
          if c = some 10 then 0 else lexer.position.charsReadCurrentLine + 1
        linesRead :=
          if c = some 10 then lexer.position.linesRead + 1 else lexer.position.linesRead } }

/-- The current character will be read again. -/
def unget (lexer : Lexer) : Lexer :=
  { lexer with
    input := lexer.current.toList ++ lexer.input
    tokenString :=
      if lexer.current.isSome then lexer.tokenString.dropLast else lexer.tokenString
    position :=
      { charsReadTotal := lexer.position.charsReadTotal - 1
        charsReadCurrentLine := lexer.position.charsReadCurrentLine - 1
        linesRead :=
          if lexer.position.charsReadCurrentLine = 0 then lexer.position.linesRead - 1
          else lexer.position.linesRead } }

def add (c : UInt8) (lexer : Lexer) : Lexer :=
  { lexer with tokenBuffer := lexer.tokenBuffer ++ [c] }

/-- The current character is the beginning of the token. -/
def reset (lexer : Lexer) : Lexer :=
  { lexer with tokenBuffer := [], tokenString := lexer.current.toList }

def fail (error : ErrorMessage) (input : Bytes) (lexer : Lexer) : TokenType × Lexer :=
  (.parseError, { lexer with input := input, errorMessage := error })

/-- The last read token, with its control characters escaped. -/
def escapeControl (c : UInt8) : Bytes :=
  if c ≤ 0x1F then ascii "<U+00" ++ upperHex c ++ ascii ">" else [c]

def getTokenString (lexer : Lexer) : Bytes := lexer.tokenString.flatMap escapeControl

end Lexer

end Input

section Strings

/-- Where scan_string, get_codepoint and next_byte_in_range wait for the next
character. -/
inductive StringState
  | plain
  | escaped
  /-- Hexadecimal digits are missing; high is a high surrogate read before. -/
  | codepoint (missing : ℕ) (sofar : ℕ) (high : Option ℕ)
  | lowBackslash (high : ℕ)
  | lowU (high : ℕ)
  | bytes (range : Utf8.Range) (ranges : List Utf8.Range)

inductive StringStep
  | next (state : StringState) (lexer : Lexer)
  | closingQuote
  | error (message : ErrorMessage)

def hexValue (c : UInt8) : Option ℕ :=
  if 48 ≤ c ∧ c ≤ 57 then some (c.toNat - 0x30)
  else if 65 ≤ c ∧ c ≤ 70 then some (c.toNat - 0x37)
  else if 97 ≤ c ∧ c ≤ 102 then some (c.toNat - 0x57)
  else none

/-- The character that a backslash and another character stand for. -/
def escapedCharacter (c : UInt8) : Option UInt8 :=
  if c = 34 then some 34
  else if c = 92 then some 92
  else if c = 47 then some 47
  else if c = 98 then some 8
  else if c = 102 then some 12
  else if c = 110 then some 10
  else if c = 114 then some 13
  else if c = 116 then some 9
  else none

/-- The bytes of a code point. -/
def encodeCodepoint (codepoint : ℕ) : Bytes :=
  if codepoint < 0x80 then [UInt8.ofNat codepoint]
  else if codepoint ≤ 0x7FF then
    [UInt8.ofNat (0xC0 + codepoint / 64), UInt8.ofNat (0x80 + codepoint % 64)]
  else if codepoint ≤ 0xFFFF then
    [UInt8.ofNat (0xE0 + codepoint / 4096), UInt8.ofNat (0x80 + codepoint / 64 % 64),
      UInt8.ofNat (0x80 + codepoint % 64)]
  else
    [UInt8.ofNat (0xF0 + codepoint / 262144), UInt8.ofNat (0x80 + codepoint / 4096 % 64),
      UInt8.ofNat (0x80 + codepoint / 64 % 64), UInt8.ofNat (0x80 + codepoint % 64)]

def addCodepoint (codepoint : ℕ) (lexer : Lexer) : Lexer :=
  { lexer with tokenBuffer := lexer.tokenBuffer ++ encodeCodepoint codepoint }

/-- Four digits have been read, perhaps after a high surrogate. -/
def codepointRead (codepoint : ℕ) (high : Option ℕ) (lexer : Lexer) : StringStep :=
  match high with
  | none =>
    if 0xD800 ≤ codepoint ∧ codepoint ≤ 0xDBFF then .next (.lowBackslash codepoint) lexer
    else if 0xDC00 ≤ codepoint ∧ codepoint ≤ 0xDFFF then .error .lowSurrogate
    else .next .plain (addCodepoint codepoint lexer)
  | some high =>
    if 0xDC00 ≤ codepoint ∧ codepoint ≤ 0xDFFF then
      .next .plain (addCodepoint (high * 1024 + codepoint - 0x35FDC00) lexer)
    else .error .highSurrogate

/-- The lexer has read c already. -/
def stringStep (state : StringState) (c : UInt8) (lexer : Lexer) : StringStep :=
  match state with
  | .plain =>
    if c = 34 then .closingQuote
    else if c = 92 then .next .escaped lexer
    else if c < 0x20 then .error (.controlCharacter c)
    else
      match Utf8.continuation c with
      | none => .error .illFormedByte
      | some [] => .next .plain (lexer.add c)
      | some (range :: ranges) => .next (.bytes range ranges) (lexer.add c)
  | .escaped =>
    if c = 117 then .next (.codepoint 4 0 none) lexer
    else
      match escapedCharacter c with
      | some d => .next .plain (lexer.add d)
      | none => .error .forbiddenEscape
  | .codepoint missing sofar high =>
    match hexValue c with
    | none => .error .hexDigits
    | some digit =>
      if missing ≤ 1 then codepointRead (16 * sofar + digit) high lexer
      else .next (.codepoint (missing - 1) (16 * sofar + digit) high) lexer
  | .lowBackslash high => if c = 92 then .next (.lowU high) lexer else .error .highSurrogate
  | .lowU high =>
    if c = 117 then .next (.codepoint 4 0 (some high)) lexer else .error .highSurrogate
  | .bytes range ranges =>
    if range.contains c then
      match ranges with
      | [] => .next .plain (lexer.add c)
      | range :: ranges => .next (.bytes range ranges) (lexer.add c)
    else .error .illFormedByte

/-- The error when the input ends in a state. -/
def StringState.atEnd : StringState → ErrorMessage
  | plain => .missingClosingQuote
  | escaped => .forbiddenEscape
  | codepoint _ _ _ => .hexDigits
  | lowBackslash _ => .highSurrogate
  | lowU _ => .highSurrogate
  | bytes _ _ => .illFormedByte

def scanStringFrom (state : StringState) : Bytes → Lexer → TokenType × Lexer
  | [], lexer => (lexer.got none).fail state.atEnd []
  | c :: rest, lexer =>
    match stringStep state c (lexer.got (some c)) with
    | .next next lexer => scanStringFrom next rest lexer
    | .closingQuote => (.valueString, { lexer.got (some c) with input := rest })
    | .error message => (lexer.got (some c)).fail message rest

def scanString (lexer : Lexer) : TokenType × Lexer :=
  scanStringFrom .plain lexer.input lexer.reset

end Strings

section Numbers

/-- The labels of scan_number. -/
inductive NumberState
  | minus
  | zero
  | any1
  | decimal1
  | decimal2
  | exponent
  | sign
  | any2
  deriving DecidableEq

namespace NumberState

def next (state : NumberState) (c : UInt8) : Option NumberState :=
  match state with
  | minus => if c = 48 then some zero else if isDigit c then some any1 else none
  | zero => if c = 46 then some decimal1 else if c = 101 ∨ c = 69 then some exponent else none
  | any1 =>
    if isDigit c then some any1
    else if c = 46 then some decimal1
    else if c = 101 ∨ c = 69 then some exponent
    else none
  | decimal1 => if isDigit c then some decimal2 else none
  | decimal2 =>
    if isDigit c then some decimal2 else if c = 101 ∨ c = 69 then some exponent else none
  | exponent => if c = 43 ∨ c = 45 then some sign else if isDigit c then some any2 else none
  | sign => if isDigit c then some any2 else none
  | any2 => if isDigit c then some any2 else none

/-- The number type that is set at a label. -/
def numberType (state : NumberState) (type : TokenType) : TokenType :=
  match state with
  | minus => .valueInteger
  | decimal1 => .valueFloat
  | exponent => .valueFloat
  | _ => type

/-- The error when a number cannot end in a state. -/
def stopped : NumberState → Option ErrorMessage
  | minus => some .digitAfterMinus
  | decimal1 => some .digitAfterPoint
  | exponent => some .digitAfterExponent
  | sign => some .digitAfterSign
  | _ => none

end NumberState

/-- std::strtoull and std::strtoll give the value of the digits; integers that do not fit
become floating-point numbers. -/
def convertNumber (host : Host) (type : TokenType) (lexer : Lexer) : TokenType × Lexer :=
  if type = .valueUnsigned ∧ digitsValue lexer.tokenBuffer < UInt64.size then
    (.valueUnsigned,
      { lexer with valueUnsigned := UInt64.ofNat (digitsValue lexer.tokenBuffer) })
  else if type = .valueInteger ∧ digitsValue lexer.tokenBuffer.tail ≤ UInt64.size / 2 then
    (.valueInteger,
      { lexer with valueInteger := Int64.ofInt (-(digitsValue lexer.tokenBuffer.tail : ℤ)) })
  else
    (.valueFloat, { lexer with valueFloat := host.strtod lexer.tokenBuffer })

/-- The character that was read last does not continue the number. -/
def numberDone (host : Host) (state : NumberState) (type : TokenType) (input : Bytes)
    (lexer : Lexer) : TokenType × Lexer :=
  match state.stopped with
  | some error => lexer.fail error input
  | none => convertNumber host type { lexer with input := input }.unget

def scanNumberFrom (host : Host) (state : NumberState) (type : TokenType) :
    Bytes → Lexer → TokenType × Lexer
  | [], lexer => numberDone host state type [] (lexer.got none)
  | c :: rest, lexer =>
    match state.next c with
    | some next =>
      scanNumberFrom host next (next.numberType type) rest ((lexer.got (some c)).add c)
    | none => numberDone host state type rest (lexer.got (some c))

/-- The first character of the number is the current one. -/
def scanNumber (host : Host) (c : UInt8) (lexer : Lexer) : TokenType × Lexer :=
  let state := if c = 45 then NumberState.minus else if c = 48 then .zero else .any1
  scanNumberFrom host state (state.numberType .valueUnsigned) lexer.input (lexer.reset.add c)

end Numbers

section Scanner

/-- The literal text that is still expected. -/
def scanLiteral (type : TokenType) : Bytes → Bytes → Lexer → TokenType × Lexer
  | [], input, lexer => (type, { lexer with input := input })
  | _ :: _, [], lexer => (lexer.got none).fail .invalidLiteral []
  | expected :: text, c :: rest, lexer =>
    if c = expected then scanLiteral type text rest (lexer.got (some c))
    else (lexer.got (some c)).fail .invalidLiteral rest

/-- The next character is read from the input. -/
def Lexer.get (lexer : Lexer) : Lexer :=
  { lexer.got lexer.input.head? with input := lexer.input.tail }

def skipBom (lexer : Lexer) : Bool × Lexer :=
  if lexer.get.current = some 0xEF then
    if lexer.get.get.current = some 0xBB then
      (decide (lexer.get.get.get.current = some 0xBF), lexer.get.get.get)
    else (false, lexer.get.get)
  else (true, lexer.get.unget)

def isSpace (c : UInt8) : Bool := c == 32 || c == 9 || c == 10 || c == 13

def skipWhitespace : Bytes → Lexer → Lexer
  | [], lexer => { lexer.got none with input := [] }
  | c :: rest, lexer =>
    if isSpace c then skipWhitespace rest (lexer.got (some c))
    else { lexer.got (some c) with input := rest }

/-- The structural characters. -/
def structural (c : UInt8) : Option TokenType :=
  if c = 91 then some .beginArray
  else if c = 93 then some .endArray
  else if c = 123 then some .beginObject
  else if c = 125 then some .endObject
  else if c = 58 then some .nameSeparator
  else if c = 44 then some .valueSeparator
  else none

/-- The switch over the first character of a token. -/
def scanToken (host : Host) (lexer : Lexer) : TokenType × Lexer :=
  match lexer.current with
  | none => (.endOfInput, lexer)
  | some c =>
    match structural c with
    | some token => (token, lexer)
    | none =>
      if c = 116 then scanLiteral .literalTrue (ascii "rue") lexer.input lexer
      else if c = 102 then scanLiteral .literalFalse (ascii "alse") lexer.input lexer
      else if c = 110 then scanLiteral .literalNull (ascii "ull") lexer.input lexer
      else if c = 34 then scanString lexer
      else if c = 45 ∨ isDigit c = true then scanNumber host c lexer
      else if c = 0 then (.endOfInput, lexer)
      else lexer.fail .invalidLiteral lexer.input

def scan (host : Host) (lexer : Lexer) : TokenType × Lexer :=
  let (skipped, lexer) :=
    if lexer.position.charsReadTotal = 0 then skipBom lexer else (true, lexer)
  if skipped = true then scanToken host (skipWhitespace lexer.input lexer)
  else lexer.fail .invalidBom lexer.input

end Scanner

section Progress

variable {host : Host} {lexer : Lexer} {input text : Bytes} {type : TokenType}

@[simp] theorem fail_input (error : ErrorMessage) :
    (lexer.fail error input).2.input = input := rfl

@[simp] theorem fail_token (error : ErrorMessage) :
    (lexer.fail error input).1 = .parseError := rfl

theorem scanStringFrom_length (state : StringState) :
    (scanStringFrom state input lexer).2.input.length ≤ input.length := by
  induction input generalizing state lexer with
  | nil => exact le_rfl
  | cons c rest ih =>
    rw [scanStringFrom, List.length_cons]
    cases stringStep state c (lexer.got (some c)) with
    | next next lexer => exact (ih next).trans (Nat.le_succ _)
    | closingQuote => exact Nat.le_succ _
    | error message => exact Nat.le_succ _

theorem convertNumber_input : (convertNumber host type lexer).2.input = lexer.input := by
  unfold convertNumber
  split_ifs <;> rfl

theorem numberDone_length {state : NumberState} :
    (numberDone host state type input lexer).2.input.length ≤
      lexer.current.toList.length + input.length := by
  unfold numberDone
  cases state.stopped with
  | some error => exact Nat.le_add_left _ _
  | none =>
    show (convertNumber host type _).2.input.length ≤ _
    rw [convertNumber_input, ← List.length_append]
    exact le_rfl

theorem scanNumberFrom_length (state : NumberState) :
    (scanNumberFrom host state type input lexer).2.input.length ≤ input.length := by
  induction input generalizing state type lexer with
  | nil => exact numberDone_length
  | cons c rest ih =>
    rw [scanNumberFrom, List.length_cons]
    cases state.next c with
    | some next => exact (ih next).trans (Nat.le_succ _)
    | none =>
      have hdone := @numberDone_length host (lexer.got (some c)) rest type state
      rw [Nat.add_comm]
      exact hdone

theorem scanLiteral_length :
    (scanLiteral type text input lexer).2.input.length ≤ input.length := by
  induction text generalizing input lexer with
  | nil => exact le_rfl
  | cons expected text ih =>
    cases input with
    | nil => exact le_rfl
    | cons c rest =>
      rw [scanLiteral, List.length_cons]
      split
      · exact ih.trans (Nat.le_succ _)
      · exact Nat.le_succ _

theorem skipWhitespace_length :
    (skipWhitespace input lexer).current = none ∨
      (skipWhitespace input lexer).input.length < input.length := by
  induction input generalizing lexer with
  | nil => exact Or.inl rfl
  | cons c rest ih =>
    rw [skipWhitespace]
    split
    · rcases @ih (lexer.got (some c)) with hend | hshorter
      · exact Or.inl hend
      · apply Or.inr
        rw [List.length_cons]
        omega
    · exact Or.inr (Nat.lt_succ_self _)

theorem skipWhitespace_length_le :
    (skipWhitespace input lexer).input.length ≤ input.length := by
  induction input generalizing lexer with
  | nil => exact le_rfl
  | cons c rest ih =>
    rw [skipWhitespace, List.length_cons]
    split
    · exact ih.trans (Nat.le_succ _)
    · exact Nat.le_succ _

theorem skipBom_length : (skipBom lexer).2.input.length ≤ lexer.input.length := by
  have hget : ∀ lexer : Lexer, lexer.get.input.length ≤ lexer.input.length := by
    intro lexer
    exact (List.length_tail).le.trans (Nat.sub_le _ _)
  unfold skipBom
  split_ifs
  · exact (hget _).trans ((hget _).trans (hget _))
  · exact (hget _).trans (hget _)
  · show (lexer.input.head?.toList ++ lexer.input.tail).length ≤ _
    cases lexer.input <;> simp

theorem scanToken_length : (scanToken host lexer).2.input.length ≤ lexer.input.length := by
  unfold scanToken
  cases lexer.current with
  | none => exact le_rfl
  | some c =>
    cases hc : structural c with
    | some token =>
      simp only [hc]
      exact le_rfl
    | none =>
      simp only [hc]
      split
      · exact scanLiteral_length
      split
      · exact scanLiteral_length
      split
      · exact scanLiteral_length
      split
      · exact scanStringFrom_length _
      split
      · exact scanNumberFrom_length _
      split
      · exact le_rfl
      · exact le_rfl

/-- What the scan of a token starts with: the lexer, perhaps after the byte order mark. -/
theorem scan_eq (host : Host) (lexer : Lexer) : ∃ started : Lexer,
    (started = lexer ∨ started = (skipBom lexer).2) ∧
      (scan host lexer = scanToken host (skipWhitespace started.input started) ∨
        scan host lexer = started.fail .invalidBom started.input) := by
  unfold scan
  generalize hstart : (if lexer.position.charsReadTotal = 0 then skipBom lexer
    else (true, lexer)) = start
  obtain ⟨skipped, started⟩ := start
  refine ⟨started, ?_, ?_⟩
  · split_ifs at hstart
    · exact Or.inr (by rw [hstart])
    · exact Or.inl (Prod.mk.inj hstart).2.symm
  · dsimp only
    split_ifs
    · exact Or.inl rfl
    · exact Or.inr rfl

theorem started_length {started : Lexer} (h : started = lexer ∨ started = (skipBom lexer).2) :
    started.input.length ≤ lexer.input.length := by
  rcases h with rfl | rfl
  · exact le_rfl
  · exact skipBom_length

theorem scan_length_le : (scan host lexer).2.input.length ≤ lexer.input.length := by
  obtain ⟨started, hstarted, htoken | hbom⟩ := scan_eq host lexer
  · rw [htoken]
    exact scanToken_length.trans (skipWhitespace_length_le.trans (started_length hstarted))
  · rw [hbom]
    show started.input.length ≤ lexer.input.length
    exact started_length hstarted

/-- A token that is neither an error nor the end of the input takes something
from the input. -/
theorem scan_length (hend : (scan host lexer).1 ≠ .endOfInput)
    (herror : (scan host lexer).1 ≠ .parseError) :
    (scan host lexer).2.input.length < lexer.input.length := by
  obtain ⟨started, hstarted, htoken | hbom⟩ := scan_eq host lexer
  · rw [htoken] at hend ⊢
    rcases @skipWhitespace_length started started.input with hnone | hshorter
    · rw [scanToken, hnone] at hend
      exact absurd rfl hend
    · have hscan := @scanToken_length host (skipWhitespace started.input started)
      have hlength := started_length hstarted
      omega
  · rw [hbom] at herror
    exact absurd rfl herror

end Progress

section Texts

variable {host : Host} {lexer : Lexer} {input text : Bytes} {type : TokenType}

theorem name_isAscii (type : TokenType) : IsAscii type.name := by
  cases type <;> exact isAscii_ascii (by decide)

theorem upperHex_isAscii (c : UInt8) : IsAscii (upperHex c) := by
  revert c
  apply forall_byte
  decide +kernel

theorem shortEscape_isAscii (c : UInt8) : IsAscii (shortEscape c) := by
  unfold shortEscape
  split_ifs <;> decide

theorem controlName_isAscii (n : ℕ) : IsAscii (ascii (controlNames.getD n "")) := by
  have hall : ∀ name ∈ controlNames, IsAscii (ascii name) := by decide
  by_cases hn : n < controlNames.length
  · rw [List.getD_eq_getElem _ _ hn]
    exact hall _ (List.getElem_mem hn)
  · rw [List.getD_eq_default _ _ (Nat.le_of_not_lt hn)]
    exact isAscii_nil

theorem errorMessage_isAscii (error : ErrorMessage) : IsAscii error.text := by
  cases error with
  | controlCharacter c =>
    unfold ErrorMessage.text
    simp +decide only [isAscii_append, upperHex_isAscii, shortEscape_isAscii, controlName_isAscii,
      and_true]
  | none => exact isAscii_nil
  | _ => exact isAscii_ascii (by decide)

/-- A character that continues a number is ASCII. -/
theorem isAscii_of_next {state next : NumberState} {c : UInt8} (h : state.next c = some next) :
    c < 128 := by
  by_contra hc
  have hlow : 128 ≤ c.toNat := by simpa [UInt8.lt_iff_toNat_lt] using hc
  have hdigit : isDigit c = false := by
    simp only [isDigit, decide_eq_false_iff_not, UInt8.le_iff_toNat_le]
    intro hboth
    have hhigh : c.toNat ≤ 57 := hboth.2
    omega
  have hne : ∀ d : UInt8, d.toNat < 128 → c ≠ d := by
    intro d hd heq
    rw [heq] at hlow
    omega
  cases state <;> simp [NumberState.next, hdigit, hne] at h

theorem convertNumber_tokenString :
    (convertNumber host type lexer).2.tokenString = lexer.tokenString := by
  unfold convertNumber
  split_ifs <;> rfl

theorem numberDone_tokenString {state : NumberState} {c : Option UInt8}
    (h : (numberDone host state type input (lexer.got c)).1 ≠ .parseError) :
    (numberDone host state type input (lexer.got c)).2.tokenString = lexer.tokenString := by
  unfold numberDone at h ⊢
  cases hstopped : state.stopped with
  | some error => simp [hstopped] at h
  | none =>
    show (convertNumber host type _).2.tokenString = _
    rw [convertNumber_tokenString]
    cases c <;> simp [Lexer.unget, Lexer.got]

/-- The raw bytes of a number are ASCII. -/
theorem scanNumberFrom_tokenString (state : NumberState) (hascii : IsAscii lexer.tokenString)
    (h : (scanNumberFrom host state type input lexer).1 ≠ .parseError) :
    IsAscii (scanNumberFrom host state type input lexer).2.tokenString := by
  induction input generalizing state type lexer with
  | nil =>
    rw [scanNumberFrom] at h ⊢
    rw [numberDone_tokenString h]
    exact hascii
  | cons c rest ih =>
    rw [scanNumberFrom] at h ⊢
    cases hnext : state.next c with
    | none =>
      rw [hnext] at h
      rw [numberDone_tokenString h]
      exact hascii
    | some next =>
      rw [hnext] at h
      have hc := isAscii_of_next hnext
      have hmore : IsAscii ((lexer.got (some c)).add c).tokenString := by
        show IsAscii (lexer.tokenString ++ [c])
        simp [hascii, hc]
      exact ih next hmore h

theorem scanLiteral_token : (scanLiteral type text input lexer).1 = type ∨
    (scanLiteral type text input lexer).1 = .parseError := by
  induction text generalizing input lexer with
  | nil => exact Or.inl rfl
  | cons expected text ih =>
    cases input with
    | nil => exact Or.inr rfl
    | cons c rest =>
      rw [scanLiteral]
      split
      · exact ih
      · exact Or.inr rfl

theorem scanStringFrom_token (state : StringState) :
    (scanStringFrom state input lexer).1 = .valueString ∨
      (scanStringFrom state input lexer).1 = .parseError := by
  induction input generalizing state lexer with
  | nil => exact Or.inr rfl
  | cons c rest ih =>
    rw [scanStringFrom]
    cases stringStep state c (lexer.got (some c)) with
    | next next lexer => exact ih next
    | closingQuote => exact Or.inl rfl
    | error message => exact Or.inr rfl

theorem structural_ne_float {c : UInt8} {token : TokenType} (h : structural c = some token) :
    token ≠ .valueFloat := by
  intro htoken
  rw [htoken] at h
  unfold structural at h
  split_ifs at h <;> cases h

theorem scanNumber_tokenString {c : UInt8} (hcurrent : lexer.current = some c)
    (hc : c = 45 ∨ isDigit c = true) (h : (scanNumber host c lexer).1 ≠ .parseError) :
    IsAscii (scanNumber host c lexer).2.tokenString := by
  have hlow : c < 128 := by
    rcases hc with rfl | hdigit
    · decide
    · simp only [isDigit, decide_eq_true_eq, UInt8.le_iff_toNat_le] at hdigit
      have hhigh : c.toNat ≤ 57 := hdigit.2
      rw [UInt8.lt_iff_toNat_lt]
      show c.toNat < 128
      omega
  apply scanNumberFrom_tokenString
  · show IsAscii lexer.current.toList
    simp [hcurrent, hlow]
  · exact h

/-- The raw bytes of a floating-point token are ASCII. -/
theorem scanToken_float (h : (scanToken host lexer).1 = .valueFloat) :
    IsAscii (scanToken host lexer).2.tokenString := by
  unfold scanToken at h ⊢
  cases hcurrent : lexer.current with
  | none =>
    simp only [hcurrent] at h
    exact absurd h (by decide)
  | some c =>
    cases hc : structural c with
    | some token =>
      simp only [hcurrent, hc] at h
      exact absurd h (structural_ne_float hc)
    | none =>
      have hliteral : ∀ {type text}, type ≠ .valueFloat →
          (scanLiteral type text lexer.input lexer).1 ≠ .valueFloat := by
        intro type text htype
        rcases @scanLiteral_token lexer lexer.input text type with hsame | herror
        · rw [hsame]
          exact htype
        · rw [herror]
          decide
      simp only [hcurrent, hc] at h ⊢
      split at h
      · exact absurd h (hliteral (by decide))
      split at h
      · exact absurd h (hliteral (by decide))
      split at h
      · exact absurd h (hliteral (by decide))
      split at h
      · unfold scanString at h
        rcases @scanStringFrom_token lexer.reset lexer.input .plain with hstring | herror
        · rw [hstring] at h
          exact absurd h (by decide)
        · rw [herror] at h
          exact absurd h (by decide)
      split at h
      · rename_i h1 h2 h3 h4 hnumber
        rw [if_neg h1, if_neg h2, if_neg h3, if_neg h4, if_pos hnumber]
        exact scanNumber_tokenString hcurrent hnumber (by rw [h]; decide)
      split at h <;> simp at h

theorem scan_float (h : (scan host lexer).1 = .valueFloat) :
    IsAscii (scan host lexer).2.tokenString := by
  obtain ⟨started, -, htoken | hbom⟩ := scan_eq host lexer
  · rw [htoken] at h ⊢
    exact scanToken_float h
  · rw [hbom] at h
    simp at h

end Texts

section Kept

variable {host : Host} {lexer : Lexer} {body input text : Bytes} {type : TokenType}

/-- The bytes kept of the token stand in the body just before the given input. -/
def Kept (body : Bytes) (lexer : Lexer) (input : Bytes) : Prop :=
  lexer.tokenString ++ input <:+ body

theorem kept_start : Kept body (Lexer.start body) body := List.suffix_rfl

theorem kept_got {c : Option UInt8} (h : Kept body lexer (c.toList ++ input)) :
    Kept body (lexer.got c) input := by
  show (lexer.tokenString ++ c.toList) ++ input <:+ body
  rw [List.append_assoc]
  exact h

/-- A character that is put back is no longer kept. -/
theorem kept_unget {c : Option UInt8} (h : Kept body lexer (c.toList ++ input)) :
    Kept body { lexer.got c with input := input }.unget (c.toList ++ input) := by
  have hback : ({ lexer.got c with input := input }.unget).tokenString = lexer.tokenString := by
    cases c <;> simp [Lexer.unget, Lexer.got]
  unfold Kept
  rw [hback]
  exact h

theorem kept_reset {c : UInt8} (hcurrent : lexer.current = some c)
    (hlast : [c] <:+ lexer.tokenString) (h : Kept body lexer input) :
    Kept body lexer.reset input := by
  obtain ⟨before, hbefore⟩ := hlast
  have hshort : [c] ++ input <:+ lexer.tokenString ++ input := by
    refine ⟨before, ?_⟩
    rw [← List.append_assoc, hbefore]
  unfold Kept Lexer.reset
  rw [hcurrent]
  exact hshort.trans h

theorem codepointRead_tokenString {codepoint : ℕ} {high : Option ℕ} {next : StringState}
    {lexer' : Lexer} (h : codepointRead codepoint high lexer = .next next lexer') :
    lexer'.tokenString = lexer.tokenString := by
  unfold codepointRead at h
  split at h
  · split_ifs at h <;> cases h <;> rfl
  · split_ifs at h
    cases h
    rfl

theorem stringStep_tokenString {state next : StringState} {c : UInt8} {lexer' : Lexer}
    (h : stringStep state c lexer = .next next lexer') :
    lexer'.tokenString = lexer.tokenString := by
  cases state with
  | plain =>
    simp only [stringStep] at h
    split_ifs at h
    · cases h
      rfl
    · split at h <;> cases h <;> rfl
  | escaped =>
    simp only [stringStep] at h
    split_ifs at h
    · cases h
      rfl
    · split at h <;> cases h
      rfl
  | codepoint missing sofar high =>
    simp only [stringStep] at h
    split at h
    · cases h
    · split_ifs at h
      · exact codepointRead_tokenString h
      · cases h
        rfl
  | lowBackslash high =>
    simp only [stringStep] at h
    split_ifs at h
    cases h
    rfl
  | lowU high =>
    simp only [stringStep] at h
    split_ifs at h
    cases h
    rfl
  | bytes range ranges =>
    simp only [stringStep] at h
    split_ifs at h
    split at h <;> cases h <;> rfl

theorem scanStringFrom_kept (state : StringState) (h : Kept body lexer input) :
    Kept body (scanStringFrom state input lexer).2 (scanStringFrom state input lexer).2.input := by
  induction input generalizing state lexer with
  | nil => exact kept_got (c := none) h
  | cons c rest ih =>
    have hgot : Kept body (lexer.got (some c)) rest := kept_got h
    rw [scanStringFrom]
    cases hstep : stringStep state c (lexer.got (some c)) with
    | next next lexer' =>
      apply ih
      unfold Kept
      rw [stringStep_tokenString hstep]
      exact hgot
    | closingQuote => exact hgot
    | error message => exact hgot

theorem numberDone_kept {state : NumberState} {c : Option UInt8}
    (h : Kept body lexer (c.toList ++ input)) :
    Kept body (numberDone host state type input (lexer.got c)).2
      (numberDone host state type input (lexer.got c)).2.input := by
  unfold numberDone
  cases state.stopped with
  | some error => exact kept_got h
  | none =>
    show Kept body (convertNumber host type _).2 (convertNumber host type _).2.input
    unfold Kept
    rw [convertNumber_tokenString, convertNumber_input]
    exact kept_unget h

theorem scanNumberFrom_kept (state : NumberState) (h : Kept body lexer input) :
    Kept body (scanNumberFrom host state type input lexer).2
      (scanNumberFrom host state type input lexer).2.input := by
  induction input generalizing state type lexer with
  | nil => exact numberDone_kept (c := none) h
  | cons c rest ih =>
    rw [scanNumberFrom]
    cases state.next c with
    | some next => exact ih next (kept_got h)
    | none => exact numberDone_kept h

theorem scanLiteral_kept (h : Kept body lexer input) :
    Kept body (scanLiteral type text input lexer).2
      (scanLiteral type text input lexer).2.input := by
  induction text generalizing input lexer with
  | nil => exact h
  | cons expected text ih =>
    cases input with
    | nil => exact kept_got (c := none) h
    | cons c rest =>
      rw [scanLiteral]
      split
      · exact ih (kept_got h)
      · exact kept_got h

theorem head_append_tail (input : Bytes) : input.head?.toList ++ input.tail = input := by
  cases input <;> rfl

theorem kept_get (h : Kept body lexer lexer.input) : Kept body lexer.get lexer.get.input := by
  rw [← head_append_tail lexer.input] at h
  exact kept_got h

theorem skipBom_kept (h : Kept body lexer lexer.input) :
    Kept body (skipBom lexer).2 (skipBom lexer).2.input := by
  unfold skipBom
  split_ifs
  · exact kept_get (kept_get (kept_get h))
  · exact kept_get (kept_get h)
  · show Kept body _ (lexer.input.head?.toList ++ lexer.input.tail)
    rw [← head_append_tail lexer.input] at h
    exact kept_unget h

/-- The last character that was read is the last that is kept. -/
theorem skipWhitespace_kept (h : Kept body lexer input) :
    Kept body (skipWhitespace input lexer) (skipWhitespace input lexer).input ∧
      ∀ c, (skipWhitespace input lexer).current = some c →
        [c] <:+ (skipWhitespace input lexer).tokenString := by
  induction input generalizing lexer with
  | nil =>
    refine ⟨kept_got (c := none) h, ?_⟩
    intro c hc
    cases hc
  | cons c rest ih =>
    rw [skipWhitespace]
    split
    · exact ih (kept_got h)
    · refine ⟨kept_got h, ?_⟩
      intro d hd
      obtain rfl := Option.some.inj hd
      exact List.suffix_append _ _

theorem scanToken_kept (h : Kept body lexer lexer.input)
    (hlast : ∀ c, lexer.current = some c → [c] <:+ lexer.tokenString) :
    Kept body (scanToken host lexer).2 (scanToken host lexer).2.input := by
  unfold scanToken
  cases hcurrent : lexer.current with
  | none => exact h
  | some c =>
    have hreset : Kept body lexer.reset lexer.input := kept_reset hcurrent (hlast c hcurrent) h
    cases hc : structural c with
    | some token =>
      simp only [hc]
      exact h
    | none =>
      simp only [hc]
      split
      · exact scanLiteral_kept h
      split
      · exact scanLiteral_kept h
      split
      · exact scanLiteral_kept h
      split
      · exact scanStringFrom_kept _ hreset
      split
      · exact scanNumberFrom_kept _ hreset
      split
      · exact h
      · exact h

/-- What the lexer keeps of a token is a part of the body that ends where the
lexer stands. -/
theorem scan_kept (h : Kept body lexer lexer.input) :
    Kept body (scan host lexer).2 (scan host lexer).2.input := by
  obtain ⟨started, hstarted, htoken | hbom⟩ := scan_eq host lexer
  all_goals
    have hkept : Kept body started started.input := by
      rcases hstarted with rfl | rfl
      · exact h
      · exact skipBom_kept h
  · obtain ⟨hspace, hlast⟩ := skipWhitespace_kept hkept
    rw [htoken]
    exact scanToken_kept hspace hlast
  · rw [hbom]
    exact hkept

end Kept

end BeastServer.JsonLexers
