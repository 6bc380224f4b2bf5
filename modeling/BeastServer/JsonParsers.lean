import BeastServer.JsonLexers

/-!
The parser of the JSON library.
It pulls one token at a time and keeps the open arrays and objects on a stack,
each with what it holds so far. An error comes with the parser that met it,
because its text is made from the last token and the bytes the lexer has kept.
The loop ends because every token but the last takes something from the input.
-/
namespace BeastServer.JsonParsers

open ByteStrings Exceptions JsonValues JsonLexers

structure Parser where
  lexer : Lexer
  lastToken : TokenType

abbrev ParseResult := EStateM.Result Exception Parser Json

/-- An open array, or an open object and the key whose value is being parsed. -/
inductive Frame
  | array (elements : List Json)
  | object (members : Members) (key : Bytes)

section Errors

def positionString (position : Position) : Bytes :=
  ascii " at line " ++ decimal (position.linesRead + 1) ++ ascii ", column " ++
    decimal position.charsReadCurrentLine

def exceptionMessage (expected : TokenType) (context : Bytes) (p : Parser) : Bytes :=
  ascii "syntax error while parsing " ++ context ++ ascii " - " ++
    (if p.lastToken = .parseError then
      p.lexer.errorMessage.text ++ ascii "; last read: '" ++ p.lexer.getTokenString ++ ascii "'"
    else ascii "unexpected " ++ p.lastToken.name) ++
    if expected = .uninitialized then [] else ascii "; expected " ++ expected.name

def syntaxError (expected : TokenType) (context : Bytes) (p : Parser) : ParseResult :=
  .error
    (.json .parseError 101
      (ascii "parse error" ++ positionString p.lexer.position ++ ascii ": " ++
        exceptionMessage expected context p)) p

def numberOverflow (p : Parser) : ParseResult :=
  .error
    (.json .outOfRange 406
      (ascii "number overflow parsing '" ++ p.lexer.getTokenString ++ ascii "'")) p

end Errors

section Loop

def getToken (host : Host) (p : Parser) : Parser :=
  ⟨(scan host p.lexer).2, (scan host p.lexer).1⟩

def Parser.weight (p : Parser) : ℕ :=
  p.lexer.input.length + if p.lastToken = .endOfInput ∨ p.lastToken = .parseError then 0 else 1

variable {host : Host} {p : Parser}

theorem weight_getToken : (getToken host p).weight ≤ p.lexer.input.length := by
  have hle := @scan_length_le host p.lexer
  have hlt := @scan_length host p.lexer
  unfold getToken Parser.weight
  dsimp only
  split_ifs with h
  · exact hle
  · obtain ⟨hend, herror⟩ := not_or.mp h
    exact hlt hend herror

theorem weight_getToken_le : (getToken host p).weight ≤ p.weight :=
  weight_getToken.trans (Nat.le_add_right _ _)

theorem weight_getToken_lt (hend : p.lastToken ≠ .endOfInput) (herror : p.lastToken ≠ .parseError) :
    (getToken host p).weight < p.weight := by
  have hle := @weight_getToken host p
  unfold Parser.weight at hle ⊢
  rw [if_neg (not_or.mpr ⟨hend, herror⟩)]
  omega

/-- The loop either parses a value, or goes on after a value in the container
on top of the stack. -/
inductive Phase
  | value
  | evaluation (value : Json)

def Phase.weight : Phase → ℕ
  | value => 1
  | evaluation _ => 0

/-- After a token that is no end and no error, the next one leaves less. -/
theorem weight_after {n : ℕ} {q : Parser} (hq : q.weight ≤ n) (token : TokenType)
    (htoken : q.lastToken = token) (hend : token ≠ .endOfInput) (herror : token ≠ .parseError) :
    (getToken host q).weight < n :=
  (weight_getToken_lt (by rw [htoken]; exact hend) (by rw [htoken]; exact herror)).trans_le hq

def saxParseInternal (host : Host) : Parser → List Frame → Phase → ParseResult
  | ⟨lexer, .beginObject⟩, frames, .value =>
    let key := getToken host ⟨lexer, .beginObject⟩
    if key.lastToken = .endObject then
      saxParseInternal host key frames (.evaluation (.object []))
    else if key.lastToken = .valueString then
      let separator := getToken host key
      if separator.lastToken = .nameSeparator then
        saxParseInternal host (getToken host separator)
          (.object [] key.lexer.tokenBuffer :: frames) .value
      else syntaxError .nameSeparator (ascii "object separator") separator
    else syntaxError .valueString (ascii "object key") key
  | ⟨lexer, .beginArray⟩, frames, .value =>
    let first := getToken host ⟨lexer, .beginArray⟩
    if first.lastToken = .endArray then
      saxParseInternal host first frames (.evaluation (.array []))
    else saxParseInternal host first (.array [] :: frames) .value
  | ⟨lexer, .valueFloat⟩, frames, .value =>
    if lexer.valueFloat.isFinite = true then
      saxParseInternal host ⟨lexer, .valueFloat⟩ frames
        (.evaluation (.numberFloat lexer.valueFloat))
    else numberOverflow ⟨lexer, .valueFloat⟩
  | ⟨lexer, .literalFalse⟩, frames, .value =>
    saxParseInternal host ⟨lexer, .literalFalse⟩ frames (.evaluation (.boolean false))
  | ⟨lexer, .literalNull⟩, frames, .value =>
    saxParseInternal host ⟨lexer, .literalNull⟩ frames (.evaluation .null)
  | ⟨lexer, .literalTrue⟩, frames, .value =>
    saxParseInternal host ⟨lexer, .literalTrue⟩ frames (.evaluation (.boolean true))
  | ⟨lexer, .valueInteger⟩, frames, .value =>
    saxParseInternal host ⟨lexer, .valueInteger⟩ frames
      (.evaluation (.numberInteger lexer.valueInteger))
  | ⟨lexer, .valueString⟩, frames, .value =>
    saxParseInternal host ⟨lexer, .valueString⟩ frames (.evaluation (.string lexer.tokenBuffer))
  | ⟨lexer, .valueUnsigned⟩, frames, .value =>
    saxParseInternal host ⟨lexer, .valueUnsigned⟩ frames
      (.evaluation (.numberUnsigned lexer.valueUnsigned))
  | ⟨lexer, .parseError⟩, _, .value =>
    syntaxError .uninitialized (ascii "value") ⟨lexer, .parseError⟩
  | p, _, .value => syntaxError .literalOrValue (ascii "value") p
  | p, [], .evaluation value => .ok value p
  | p, .array elements :: outer, .evaluation value =>
    let next := getToken host p
    if next.lastToken = .valueSeparator then
      saxParseInternal host (getToken host next) (.array (elements ++ [value]) :: outer) .value
    else if next.lastToken = .endArray then
      saxParseInternal host next outer (.evaluation (.array (elements ++ [value])))
    else syntaxError .endArray (ascii "array") next
  | p, .object members key :: outer, .evaluation value =>
    let next := getToken host p
    if next.lastToken = .valueSeparator then
      let nextKey := getToken host next
      if nextKey.lastToken = .valueString then
        let separator := getToken host nextKey
        if separator.lastToken = .nameSeparator then
          saxParseInternal host (getToken host separator)
            (.object (members.assign key value) nextKey.lexer.tokenBuffer :: outer) .value
        else syntaxError .nameSeparator (ascii "object separator") separator
      else syntaxError .valueString (ascii "object key") nextKey
    else if next.lastToken = .endObject then
      saxParseInternal host next outer (.evaluation (.object (members.assign key value)))
    else syntaxError .endObject (ascii "object") next
termination_by p frames phase => (p.weight, frames.length + phase.weight)
decreasing_by
  · apply Prod.Lex.left
    exact weight_after le_rfl .beginObject rfl (by simp) (by simp)
  · rename_i hkey hseparator
    apply Prod.Lex.left
    apply weight_after _ .nameSeparator hseparator (by simp) (by simp)
    apply Nat.le_of_lt
    apply weight_after _ .valueString hkey (by simp) (by simp)
    exact weight_getToken_le
  · apply Prod.Lex.left
    exact weight_after le_rfl .beginArray rfl (by simp) (by simp)
  · apply Prod.Lex.left
    exact weight_after le_rfl .beginArray rfl (by simp) (by simp)
  · exact Prod.Lex.right _ (Nat.lt_succ_self _)
  · exact Prod.Lex.right _ (Nat.lt_succ_self _)
  · exact Prod.Lex.right _ (Nat.lt_succ_self _)
  · exact Prod.Lex.right _ (Nat.lt_succ_self _)
  · exact Prod.Lex.right _ (Nat.lt_succ_self _)
  · exact Prod.Lex.right _ (Nat.lt_succ_self _)
  · exact Prod.Lex.right _ (Nat.lt_succ_self _)
  · rename_i hnext
    apply Prod.Lex.left
    exact weight_after weight_getToken_le .valueSeparator hnext (by simp) (by simp)
  · exact Prod.Lex.right' _ weight_getToken_le (Nat.lt_succ_self _)
  · rename_i hnext hkey hseparator
    apply Prod.Lex.left
    apply weight_after _ .nameSeparator hseparator (by simp) (by simp)
    apply Nat.le_of_lt
    apply weight_after _ .valueString hkey (by simp) (by simp)
    apply Nat.le_of_lt
    exact weight_after weight_getToken_le .valueSeparator hnext (by simp) (by simp)
  · exact Prod.Lex.right' _ weight_getToken_le (Nat.lt_succ_self _)

/-- The parser in strict mode: nothing may follow the value. -/
def parse (host : Host) (text : Bytes) : ParseResult :=
  match saxParseInternal host (getToken host ⟨Lexer.start text, .uninitialized⟩) [] .value with
  | .error e p => .error e p
  | .ok value p =>
    if (getToken host p).lastToken = .endOfInput then .ok value (getToken host p)
    else syntaxError .endOfInput (ascii "value") (getToken host p)

theorem parse_refused {text : Bytes} {q : Parser}
    (hfirst : getToken host ⟨Lexer.start text, .uninitialized⟩ = q)
    (hlast : q.lastToken = .parseError) :
    parse host text = syntaxError .uninitialized (ascii "value") q := by
  obtain ⟨lexer, lastToken⟩ := q
  obtain rfl : lastToken = .parseError := hlast
  unfold parse
  rw [hfirst, saxParseInternal]
  rfl

end Loop

section Reports

variable {host : Host} {p q : Parser} {text : Bytes}

/-- An error is a syntax error, or a number that is too large, about the parser
that comes with it. -/
def Reported (result : ParseResult) : Prop :=
  ∀ e q, result = .error e q →
    (∃ expected context, IsAscii context ∧ result = syntaxError expected context q) ∨
      (q.lastToken = .valueFloat ∧ IsAscii q.lexer.tokenString ∧ result = numberOverflow q)

theorem reported_ok {value : Json} : Reported (.ok value p) := by
  intro e q h
  cases h

theorem reported_syntaxError {context : Bytes} (expected : TokenType) (hcontext : IsAscii context) :
    Reported (syntaxError expected context p) := by
  intro e q h
  obtain ⟨-, rfl⟩ := EStateM.Result.error.inj h
  exact Or.inl ⟨expected, context, hcontext, rfl⟩

/-- What is known of the last token: a floating-point number is ASCII. -/
def Scanned (p : Parser) : Prop := p.lastToken = .valueFloat → IsAscii p.lexer.tokenString

theorem scanned_getToken : Scanned (getToken host p) := scan_float

theorem saxParseInternal_reported {frames : List Frame} {phase : Phase} (hp : Scanned p) :
    Reported (saxParseInternal host p frames phase) := by
  fun_induction saxParseInternal host p frames phase
  case case8 lexer frames hfinite =>
    intro e q h
    obtain ⟨-, rfl⟩ := EStateM.Result.error.inj h
    exact Or.inr ⟨rfl, hp rfl, rfl⟩
  -- every other case ends, or goes on with the same token or a new one
  all_goals first
    | with_reducible exact reported_syntaxError _ (by decide)
    | with_reducible exact reported_ok
    | (rename_i ih; with_reducible exact ih hp)
    | (rename_i ih; with_reducible exact ih scanned_getToken)

theorem parse_reported : Reported (parse host text) := by
  have hsax := @saxParseInternal_reported host (getToken host ⟨Lexer.start text, .uninitialized⟩)
    [] .value scanned_getToken
  unfold parse
  cases hrun : saxParseInternal host (getToken host ⟨Lexer.start text, .uninitialized⟩) []
      .value with
  | error e q =>
    rw [hrun] at hsax
    exact hsax
  | ok value q =>
    dsimp only
    split
    · exact reported_ok
    · exact reported_syntaxError _ (by decide)

theorem escapeControl_eq (c : UInt8) :
    Lexer.escapeControl c = [c] ∨
      c < 128 ∧ IsAscii (Lexer.escapeControl c) ∧ Lexer.escapeControl c ≠ [] := by
  by_cases hc : c ≤ 0x1F
  · have hall : ∀ n < 32, IsAscii (Lexer.escapeControl (UInt8.ofNat n)) ∧
        Lexer.escapeControl (UInt8.ofNat n) ≠ [] := by
      decide +kernel
    have hlow : c.toNat ≤ 31 := by simpa [UInt8.le_iff_toNat_le] using hc
    have hboth := hall c.toNat (by omega)
    rw [UInt8.ofNat_toNat] at hboth
    refine Or.inr ⟨?_, hboth⟩
    rw [UInt8.lt_iff_toNat_lt]
    show c.toNat < 128
    omega
  · exact Or.inl (if_neg hc)

theorem wellFormed_getTokenString (lexer : Lexer) :
    Utf8.WellFormed lexer.getTokenString ↔ Utf8.WellFormed lexer.tokenString :=
  Utf8.wellFormed_flatMap escapeControl_eq

theorem isAscii_positionString (position : Position) : IsAscii (positionString position) := by
  unfold positionString
  simp +decide

/-- What follows the token in a message. -/
def expectedPart (expected : TokenType) : Bytes :=
  if expected = .uninitialized then [] else ascii "; expected " ++ expected.name

theorem isAscii_expectedPart (expected : TokenType) : IsAscii (expectedPart expected) := by
  unfold expectedPart
  split
  · exact isAscii_nil
  · simp +decide [name_isAscii]

theorem wellFormed_exceptionMessage {expected : TokenType} {context : Bytes}
    (hcontext : IsAscii context) :
    Utf8.WellFormed (exceptionMessage expected context q) ↔
      (q.lastToken = .parseError → Utf8.WellFormed q.lexer.tokenString) := by
  have hstart : IsAscii (ascii "syntax error while parsing " ++ context ++ ascii " - ") := by
    simp +decide [hcontext]
  have hexpected := isAscii_expectedPart expected
  by_cases hlast : q.lastToken = .parseError
  · have hquote : IsAscii (ascii "'" ++ expectedPart expected) := by
      simp +decide [hexpected]
    have hmessage : IsAscii (q.lexer.errorMessage.text ++ ascii "; last read: '") := by
      simp +decide [errorMessage_isAscii]
    have heq : exceptionMessage expected context q =
        (ascii "syntax error while parsing " ++ context ++ ascii " - ") ++
          ((q.lexer.errorMessage.text ++ ascii "; last read: '") ++
            (q.lexer.getTokenString ++ (ascii "'" ++ expectedPart expected))) := by
      simp only [exceptionMessage, if_pos hlast, expectedPart, List.append_assoc]
    rw [heq, Utf8.wellFormed_append_of_isAscii hstart, Utf8.wellFormed_append_of_isAscii hmessage,
      Utf8.wellFormed_append_ascii hquote (by simp [ascii]), wellFormed_getTokenString]
    simp [hlast]
  · have hascii : IsAscii (exceptionMessage expected context q) := by
      simp only [exceptionMessage, if_neg hlast]
      simp +decide only [isAscii_append, hcontext, name_isAscii, and_true, true_and]
      exact hexpected
    simp [hlast, Utf8.wellFormed_of_isAscii hascii]

/-- The text of a parser's exception is well-formed UTF-8 unless the lexer
refused the last token and the bytes it had kept are not. -/
theorem wellFormed_what {e : Exception} (h : parse host text = .error e q) :
    Utf8.WellFormed e.what ↔
      (q.lastToken = .parseError → Utf8.WellFormed q.lexer.tokenString) := by
  rcases parse_reported e q h with ⟨expected, context, hcontext, hsyntax⟩ | ⟨htoken, hascii, hlarge⟩
  · obtain ⟨rfl, -⟩ := EStateM.Result.error.inj (h.symm.trans hsyntax)
    have hposition := isAscii_positionString q.lexer.position
    rw [Exception.what, Utf8.wellFormed_append_of_isAscii (by decide),
      Utf8.wellFormed_append_of_isAscii (by simp +decide [hposition]),
      wellFormed_exceptionMessage hcontext]
  · obtain ⟨rfl, -⟩ := EStateM.Result.error.inj (h.symm.trans hlarge)
    have htext : Utf8.WellFormed q.lexer.getTokenString :=
      (wellFormed_getTokenString q.lexer).mpr (Utf8.wellFormed_of_isAscii hascii)
    rw [Exception.what, Utf8.wellFormed_append_of_isAscii (by decide),
      Utf8.wellFormed_append_ascii (by decide) (by simp [ascii]),
      Utf8.wellFormed_append_of_isAscii (by decide)]
    simp [htext, htoken]

/-- What the lexer has kept is a part of the text that ends where the parser stands. -/
def Placed (text : Bytes) (p : Parser) : Prop := Kept text p.lexer p.lexer.input

/-- The parser that a result comes with. -/
def left : ParseResult → Parser
  | .ok _ p => p
  | .error _ p => p

theorem placed_getToken (hp : Placed text p) : Placed text (getToken host p) := scan_kept hp

theorem placed_syntaxError {expected : TokenType} {context : Bytes} (hp : Placed text p) :
    Placed text (left (syntaxError expected context p)) := hp

theorem saxParseInternal_placed {frames : List Frame} {phase : Phase} (hp : Placed text p) :
    Placed text (left (saxParseInternal host p frames phase)) := by
  fun_induction saxParseInternal host p frames phase
  case case8 => exact hp
  case case17 => exact hp
  -- every other case ends with an error, or goes on; then only tokens have been pulled
  all_goals first
    | with_reducible apply placed_syntaxError
    | (rename_i ih; with_reducible apply ih)
  all_goals
    repeat first
      | with_reducible exact hp
      | with_reducible apply placed_getToken

/-- What an error quotes of a token is a part of the text. -/
theorem parse_placed : Placed text (left (parse host text)) := by
  have hsax := @saxParseInternal_placed host (getToken host ⟨Lexer.start text, .uninitialized⟩)
    text [] .value (placed_getToken kept_start)
  unfold parse
  cases hrun : saxParseInternal host (getToken host ⟨Lexer.start text, .uninitialized⟩) []
      .value with
  | error e q =>
    rw [hrun] at hsax
    exact hsax
  | ok value q =>
    rw [hrun] at hsax
    have hnext : Placed text (getToken host q) := placed_getToken hsax
    dsimp only
    split
    · exact hnext
    · exact placed_syntaxError hnext

theorem tokenString_isPart {e : Exception} (h : parse host text = .error e q) :
    q.lexer.tokenString <:+: text := by
  have hplaced := @parse_placed host text
  rw [h] at hplaced
  obtain ⟨before, hbefore⟩ := hplaced
  exact ⟨before, q.lexer.input, by rw [List.append_assoc]; exact hbefore⟩

end Reports

end BeastServer.JsonParsers
