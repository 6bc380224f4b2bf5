import BeastServer.JsonPrefixes

/-!
Numbers that are too large for the JSON parser.
The parser refuses such a number by an exception of its own kind. A text comes
to that exactly if it has the number where its parser waits for a value, that
is, where the text cut off before the number is refused only because it ends.
For this two runs of the parser are compared, on the text and on what stands
before the number: they pull the same tokens until the shorter text ends.
-/
namespace BeastServer.NumberOverflows

open ByteStrings Exceptions JsonValues JsonLexers JsonTokens JsonParsers JsonPrefixes

section Steps

variable {host : Host} {p : Parser} {frames outer : List Frame} {elements : List Json}
  {members : Members} {key : Bytes} {value : Json}

/-- The last token and the lexer that scanned it. -/
def view (p : Parser) : TokenType × Lexer := (p.lastToken, p.lexer)

/-- The value that a token stands for by itself. -/
def scalar : TokenType × Json → Option Json
  | (.literalFalse, _) => some (.boolean false)
  | (.literalNull, _) => some .null
  | (.literalTrue, _) => some (.boolean true)
  | (.valueFloat, .numberFloat x) => if x.isFinite = true then some (.numberFloat x) else none
  | (.valueInteger, value) => some value
  | (.valueString, value) => some value
  | (.valueUnsigned, value) => some value
  | _ => none

theorem sax_scalar (h : scalar (reading (view p)) = some value) :
    saxParseInternal host p frames .value = saxParseInternal host p frames (.evaluation value) := by
  obtain ⟨lexer, token⟩ := p
  cases token with
  | valueFloat =>
    obtain ⟨hfinite, rfl⟩ := (Option.ite_none_right_eq_some.trans
      (and_congr_right fun _ => Option.some_inj)).mp h
    rw [saxParseInternal]
    exact if_pos hfinite
  | literalFalse =>
    obtain rfl := Option.some.inj h
    rw [saxParseInternal]
  | literalNull =>
    obtain rfl := Option.some.inj h
    rw [saxParseInternal]
  | literalTrue =>
    obtain rfl := Option.some.inj h
    rw [saxParseInternal]
  | valueInteger =>
    obtain rfl := Option.some.inj h
    rw [saxParseInternal]
    rfl
  | valueString =>
    obtain rfl := Option.some.inj h
    rw [saxParseInternal]
    rfl
  | valueUnsigned =>
    obtain rfl := Option.some.inj h
    rw [saxParseInternal]
    rfl
  | _ => cases h

theorem sax_emptyObject (hp : p.lastToken = .beginObject)
    (hnext : (getToken host p).lastToken = .endObject) :
    saxParseInternal host p frames .value =
      saxParseInternal host (getToken host p) frames (.evaluation (.object [])) := by
  obtain ⟨lexer, token⟩ := p
  obtain rfl : token = .beginObject := hp
  rw [saxParseInternal]
  exact if_pos hnext

theorem sax_object (hp : p.lastToken = .beginObject)
    (hkey : (getToken host p).lastToken = .valueString)
    (hseparator : (getToken host (getToken host p)).lastToken = .nameSeparator) :
    saxParseInternal host p frames .value =
      saxParseInternal host (getToken host (getToken host (getToken host p)))
        (.object [] (getToken host p).lexer.tokenBuffer :: frames) .value := by
  obtain ⟨lexer, token⟩ := p
  obtain rfl : token = .beginObject := hp
  rw [saxParseInternal]
  dsimp only
  rw [if_neg (by rw [hkey]; decide), if_pos hkey, if_pos hseparator]

theorem sax_emptyArray (hp : p.lastToken = .beginArray)
    (hnext : (getToken host p).lastToken = .endArray) :
    saxParseInternal host p frames .value =
      saxParseInternal host (getToken host p) frames (.evaluation (.array [])) := by
  obtain ⟨lexer, token⟩ := p
  obtain rfl : token = .beginArray := hp
  rw [saxParseInternal]
  exact if_pos hnext

theorem sax_array (hp : p.lastToken = .beginArray)
    (hnext : (getToken host p).lastToken ≠ .endArray) :
    saxParseInternal host p frames .value =
      saxParseInternal host (getToken host p) (.array [] :: frames) .value := by
  obtain ⟨lexer, token⟩ := p
  obtain rfl : token = .beginArray := hp
  rw [saxParseInternal]
  exact if_neg hnext

theorem sax_element (hnext : (getToken host p).lastToken = .valueSeparator) :
    saxParseInternal host p (.array elements :: outer) (.evaluation value) =
      saxParseInternal host (getToken host (getToken host p))
        (.array (elements ++ [value]) :: outer) .value := by
  conv_lhs => rw [saxParseInternal]
  exact if_pos hnext

theorem sax_endArray (hnext : (getToken host p).lastToken = .endArray) :
    saxParseInternal host p (.array elements :: outer) (.evaluation value) =
      saxParseInternal host (getToken host p) outer
        (.evaluation (.array (elements ++ [value]))) := by
  conv_lhs => rw [saxParseInternal]
  rw [if_neg (by rw [hnext]; decide), if_pos hnext]

theorem sax_member (hnext : (getToken host p).lastToken = .valueSeparator)
    (hkey : (getToken host (getToken host p)).lastToken = .valueString)
    (hseparator : (getToken host (getToken host (getToken host p))).lastToken = .nameSeparator) :
    saxParseInternal host p (.object members key :: outer) (.evaluation value) =
      saxParseInternal host (getToken host (getToken host (getToken host (getToken host p))))
        (.object (members.assign key value) (getToken host (getToken host p)).lexer.tokenBuffer ::
          outer) .value := by
  conv_lhs => rw [saxParseInternal]
  dsimp only
  rw [if_pos hnext, if_pos hkey, if_pos hseparator]

theorem sax_endObject (hnext : (getToken host p).lastToken = .endObject) :
    saxParseInternal host p (.object members key :: outer) (.evaluation value) =
      saxParseInternal host (getToken host p) outer
        (.evaluation (.object (members.assign key value))) := by
  conv_lhs => rw [saxParseInternal]
  dsimp only
  rw [if_neg (by rw [hnext]; decide), if_pos hnext]

end Steps

section Results

variable {host : Host} {p q : Parser} {frames : List Frame} {result : ParseResult}
  {expected : TokenType} {context : Bytes}

/-- The parser has met a number that is too large. -/
def Overflowed (result : ParseResult) : Prop := ∃ q, result = numberOverflow q

/-- The text has ended where a value should begin. -/
def Awaits (result : ParseResult) : Prop :=
  ∃ q, AtEnd (view q) ∧ result = syntaxError .literalOrValue (ascii "value") q

theorem not_overflowed_ok {value : Json} : ¬ Overflowed (.ok value p) := by
  rintro ⟨q, h⟩
  cases h

theorem not_overflowed_syntaxError : ¬ Overflowed (syntaxError expected context p) := by
  rintro ⟨q, h⟩
  cases h

theorem not_awaits_ok {value : Json} : ¬ Awaits (.ok value p) := by
  rintro ⟨q, -, h⟩
  cases h

theorem not_awaits_numberOverflow : ¬ Awaits (numberOverflow p) := by
  rintro ⟨q, -, h⟩
  cases h

theorem overflowed_of_large (h : Large (view p)) :
    Overflowed (saxParseInternal host p frames .value) := by
  obtain ⟨lexer, token⟩ := p
  obtain ⟨htoken, hlarge⟩ := h
  obtain rfl : token = .valueFloat := htoken
  have hinfinite : lexer.valueFloat.isFinite = false := hlarge
  rw [saxParseInternal, if_neg (by rw [hinfinite]; decide)]
  exact ⟨_, rfl⟩

theorem sax_endOfInput (h : p.lastToken = .endOfInput) :
    saxParseInternal host p frames .value = syntaxError .literalOrValue (ascii "value") p := by
  obtain ⟨lexer, token⟩ := p
  obtain rfl : token = .endOfInput := h
  rw [saxParseInternal] <;> simp

theorem sax_parseError (h : p.lastToken = .parseError) :
    saxParseInternal host p frames .value = syntaxError .uninitialized (ascii "value") p := by
  obtain ⟨lexer, token⟩ := p
  obtain rfl : token = .parseError := h
  rw [saxParseInternal]

theorem awaits_of_atEnd (h : AtEnd (view p)) : Awaits (saxParseInternal host p frames .value) :=
  ⟨p, h, sax_endOfInput h.1⟩

/-- The error tells where it was made. -/
theorem awaits_syntaxError (h : Awaits (syntaxError expected context p)) :
    AtEnd (view p) ∧ ∃ more more', context ++ more = ascii "value" ++ more' := by
  obtain ⟨q, hend, heq⟩ := h
  obtain ⟨htext, rfl⟩ := EStateM.Result.error.inj heq
  refine ⟨hend, ?_⟩
  obtain ⟨-, -, hwhat⟩ := Exception.json.inj htext
  have hmessage := List.append_cancel_left hwhat
  unfold exceptionMessage at hmessage
  simp only [List.append_assoc] at hmessage
  exact ⟨_, _, List.append_cancel_left hmessage⟩

end Results

section Splits

variable {host : Host} {p q : Parser} {frames : List Frame} {phase : Phase}
  {G H : Parser → Prop}

/-- What is left of the text has a number that is too large, and G holds of every
parser of the text that ends before that number. -/
def Splits (host : Host) (p : Parser) (G : Parser → Prop) : Prop :=
  ∃ before number rest, p.lexer.input = before ++ (number ++ rest) ∧ TooLarge host number rest ∧
    ∀ q : Parser, q.lexer.input = before →
      (charsRead q.lexer = 0 ↔ charsRead p.lexer = 0) → G q

theorem Splits.imp (h : Splits host p G) (himp : ∀ q, G q → H q) : Splits host p H := by
  obtain ⟨before, number, rest, hinput, hlarge, hall⟩ := h
  exact ⟨before, number, rest, hinput, hlarge, fun q hq hfresh => himp q (hall q hq hfresh)⟩

theorem splits_of_large (h : Large (view (getToken host p))) :
    Splits host p (fun q => AtEnd (view (getToken host q))) := by
  obtain ⟨blank, number, rest, hinput, hblank, hlarge⟩ := exists_of_large h
  refine ⟨blank, number, rest, hinput, hlarge, ?_⟩
  rintro q rfl hfresh
  exact scan_atEnd (hblank.of_fresh hfresh)

theorem token_of_reading (h : reading (view q) = reading (view p)) : q.lastToken = p.lastToken :=
  congrArg Prod.fst h

theorem text_of_reading (h : reading (view q) = reading (view p))
    (hp : p.lastToken = .valueString) : q.lexer.tokenBuffer = p.lexer.tokenBuffer := by
  have hq := (token_of_reading h).trans hp
  obtain ⟨lexer, token⟩ := p
  obtain ⟨other, otherToken⟩ := q
  obtain rfl : token = .valueString := hp
  obtain rfl : otherToken = .valueString := hq
  exact Json.string.inj (Prod.mk.inj h).2

/-- A token that both parsers pull. -/
theorem Splits.getToken (hend : (getToken host p).lastToken ≠ .endOfInput)
    (herror : (getToken host p).lastToken ≠ .parseError) (h : Splits host (getToken host p) G) :
    Splits host p (fun q =>
      reading (view (getToken host q)) = reading (view (getToken host p)) ∧
        G (getToken host q)) := by
  obtain ⟨before, number, rest, hinput, hlarge, hall⟩ := h
  obtain ⟨used, hused, hscan⟩ := scan_local hend herror
  have hleft : (scan host p.lexer).2.input = before ++ (number ++ rest) := hinput
  rw [hleft] at hused hscan
  refine ⟨used ++ before, number, rest, by rw [hused, List.append_assoc], hlarge, ?_⟩
  intro q hq hfresh
  have hagrees : Agrees (before ++ (number ++ rest)) before := by
    cases before with
    | nil => exact Or.inl rfl
    | cons c before => exact Or.inr rfl
  obtain ⟨hreading, hrest⟩ := hscan q.lexer before hfresh hq (fun _ => hagrees)
  exact ⟨hreading,
    hall (JsonParsers.getToken host q) hrest (fresh_iff_of_reading herror hreading)⟩

/-- Where the loop stands when it is to meet the number: at the number itself, or
before it in the text, of which the part before the number only makes the parser wait. -/
def Meets (host : Host) (p : Parser) (frames : List Frame) (phase : Phase) : Prop :=
  (phase = .value ∧ Large (view p)) ∨
    Splits host p (fun q => reading (view q) = reading (view p) →
      Awaits (saxParseInternal host q frames phase))

theorem Meets.evaluation {value : Json} (h : Meets host p frames (.evaluation value)) :
    Splits host p (fun q => reading (view q) = reading (view p) →
      Awaits (saxParseInternal host q frames (.evaluation value))) := by
  rcases h with ⟨hphase, -⟩ | hsplits
  · cases hphase
  · exact hsplits

theorem not_end_of_overflowed (h : Overflowed (saxParseInternal host p frames .value)) :
    p.lastToken ≠ .endOfInput ∧ p.lastToken ≠ .parseError := by
  constructor
  · intro hend
    rw [sax_endOfInput hend] at h
    exact not_overflowed_syntaxError h
  · intro herror
    rw [sax_parseError herror] at h
    exact not_overflowed_syntaxError h

/-- The first token of a value: the parser of the shorter text pulls the same one,
or finds the end. -/
theorem Meets.value (h : Meets host (getToken host p) frames .value)
    (hover : Overflowed (saxParseInternal host (getToken host p) frames .value)) :
    Splits host p (fun q =>
      ((getToken host q).lastToken = (getToken host p).lastToken ∨
        (getToken host q).lastToken = .endOfInput) ∧
        Awaits (saxParseInternal host (getToken host q) frames .value)) := by
  rcases h with ⟨-, hlarge⟩ | hsplits
  · exact (splits_of_large hlarge).imp (fun q hq => ⟨Or.inr hq.1, awaits_of_atEnd hq⟩)
  · obtain ⟨hend, herror⟩ := not_end_of_overflowed hover
    refine (hsplits.getToken hend herror).imp ?_
    rintro q ⟨hreading, hawaits⟩
    exact ⟨Or.inl (token_of_reading hreading), hawaits hreading⟩

theorem meets_of_overflowed (h : Overflowed (saxParseInternal host p frames phase)) :
    Meets host p frames phase := by
  have hscalar : ∀ {p frames value}, scalar (reading (view p)) = some value →
      Meets host p frames (.evaluation value) → Meets host p frames .value := by
    intro p frames value hvalue hmeets
    refine Or.inr (hmeets.evaluation.imp ?_)
    intro q hawaits hreading
    rw [sax_scalar (hreading ▸ hvalue)]
    exact hawaits hreading
  have hpull : ∀ {token p G}, (getToken host p).lastToken = token →
      token ≠ .endOfInput ∧ token ≠ .parseError → Splits host (getToken host p) G →
      Splits host p (fun q =>
        reading (view (getToken host q)) = reading (view (getToken host p)) ∧
          G (getToken host q)) := by
    rintro token p G rfl ⟨hend, herror⟩ hsplits
    exact hsplits.getToken hend herror
  fun_induction saxParseInternal host p frames phase
  case case1 lexer frames key hkey ih =>
    refine Or.inr ((hpull hkey (by decide) (ih h).evaluation).imp ?_)
    rintro q ⟨hnext, hawaits⟩ hreading
    rw [sax_emptyObject (token_of_reading hreading) ((token_of_reading hnext).trans hkey)]
    exact hawaits hnext
  case case2 lexer frames key _ hkey separator hseparator ih =>
    have hvalue := (ih h).value h
    have hsplits := hpull hkey (by decide) (hpull hseparator (by decide) hvalue)
    refine Or.inr (hsplits.imp ?_)
    rintro q ⟨hq, hq', -, hawaits⟩ hreading
    rw [sax_object (token_of_reading hreading) ((token_of_reading hq).trans hkey)
      ((token_of_reading hq').trans hseparator), text_of_reading hq hkey]
    exact hawaits
  case case5 lexer frames first hfirst ih =>
    refine Or.inr ((hpull hfirst (by decide) (ih h).evaluation).imp ?_)
    rintro q ⟨hnext, hawaits⟩ hreading
    rw [sax_emptyArray (token_of_reading hreading) ((token_of_reading hnext).trans hfirst)]
    exact hawaits hnext
  case case6 lexer frames first hfirst ih =>
    refine Or.inr (((ih h).value h).imp ?_)
    rintro q ⟨hnext, hawaits⟩ hreading
    have hne : (getToken host q).lastToken ≠ .endArray := by
      rcases hnext with hnext | hnext
      · rw [hnext]
        exact hfirst
      · rw [hnext]
        decide
    rw [sax_array (token_of_reading hreading) hne]
    exact hawaits
  case case7 lexer frames hfinite ih => exact hscalar (if_pos hfinite) (ih h)
  case case8 lexer frames hinfinite =>
    exact Or.inl ⟨rfl, rfl, Bool.eq_false_iff.mpr hinfinite⟩
  case case18 p elements outer value next hnext ih =>
    refine Or.inr ((hpull hnext (by decide) ((ih h).value h)).imp ?_)
    rintro q ⟨hq, -, hawaits⟩ hreading
    rw [sax_element ((token_of_reading hq).trans hnext)]
    exact hawaits
  case case19 p elements outer value next _ hnext ih =>
    refine Or.inr ((hpull hnext (by decide) (ih h).evaluation).imp ?_)
    rintro q ⟨hq, hawaits⟩ hreading
    rw [sax_endArray ((token_of_reading hq).trans hnext)]
    exact hawaits hq
  case case21 p members key outer value next hnext nextKey hkey separator hseparator ih =>
    have hsplits := hpull hnext (by decide) (hpull hkey (by decide)
      (hpull hseparator (by decide) ((ih h).value h)))
    refine Or.inr (hsplits.imp ?_)
    rintro q ⟨hq, hq', hq'', -, hawaits⟩ hreading
    rw [sax_member ((token_of_reading hq).trans hnext) ((token_of_reading hq').trans hkey)
      ((token_of_reading hq'').trans hseparator), text_of_reading hq' hkey]
    exact hawaits
  case case24 p members key outer value next _ hnext ih =>
    refine Or.inr ((hpull hnext (by decide) (ih h).evaluation).imp ?_)
    rintro q ⟨hq, hawaits⟩ hreading
    rw [sax_endObject ((token_of_reading hq).trans hnext)]
    exact hawaits hq
  -- every other case is another scalar, or it ends otherwise
  all_goals first
    | exact absurd h not_overflowed_syntaxError
    | exact absurd h not_overflowed_ok
    | (rename_i ih; exact hscalar rfl (ih h))

end Splits

section Extensions

variable {host : Host} {p q : Parser} {frames : List Frame} {phase : Phase}
  {number rest : Bytes}

/-- The text of the other parser goes on with the number. -/
def Extends (number rest : Bytes) (p q : Parser) : Prop :=
  q.lexer.input = p.lexer.input ++ (number ++ rest) ∧
    (charsRead q.lexer = 0 ↔ charsRead p.lexer = 0)

/-- A token that is no number at the end of the text is pulled from the longer text, too. -/
theorem Extends.getToken (hq : Extends number rest p q)
    (hend : (getToken host p).lastToken ≠ .endOfInput)
    (herror : (getToken host p).lastToken ≠ .parseError)
    (hnumber : IsNumber (getToken host p).lastToken → (getToken host p).lexer.input ≠ []) :
    reading (view (getToken host q)) = reading (view (getToken host p)) ∧
      Extends number rest (getToken host p) (getToken host q) := by
  obtain ⟨hinput, hfresh⟩ := hq
  obtain ⟨used, hused, hscan⟩ := scan_local hend herror
  rw [hused, List.append_assoc] at hinput
  have hagrees : IsNumber (scan host p.lexer).1 →
      Agrees (scan host p.lexer).2.input ((scan host p.lexer).2.input ++ (number ++ rest)) := by
    intro htoken
    apply Or.inr
    obtain ⟨c, more, hmore⟩ := List.exists_cons_of_ne_nil (hnumber htoken)
    have hleft : (scan host p.lexer).2.input = c :: more := hmore
    rw [hleft, List.cons_append, List.head?_cons, List.head?_cons]
  obtain ⟨hreading, hrest⟩ := hscan q.lexer _ hfresh hinput hagrees
  exact ⟨hreading, hrest, fresh_iff_of_reading herror hreading⟩

/-- Where the text ends, the longer text has the number. -/
theorem Extends.large (hq : Extends number rest p q) (hlarge : TooLarge host number rest)
    (hend : AtEnd (view (JsonParsers.getToken host p))) :
    Large (view (JsonParsers.getToken host q)) := by
  have hblank := blank_of_atEnd hend
  exact scan_tooLarge hlarge (hblank.of_fresh hq.2) hq.1

theorem awaits_context {expected : TokenType} {context : Bytes}
    (hcontext : context.head? ≠ some 118) (hne : context ≠ []) :
    ¬ Awaits (syntaxError expected context p) := by
  intro h
  obtain ⟨-, more, more', heq⟩ := awaits_syntaxError h
  obtain ⟨c, context', rfl⟩ := List.exists_cons_of_ne_nil hne
  apply hcontext
  rw [List.cons_append] at heq
  exact congrArg some (List.cons.inj heq).1

/-- After a value the end of the text does not stand where a value should begin. -/
theorem not_awaits_evaluation {value : Json} (hinput : p.lexer.input = []) :
    ¬ Awaits (saxParseInternal host p frames (.evaluation value)) := by
  have hend : (getToken host p).lastToken = .endOfInput := scan_end hinput
  cases frames with
  | nil =>
    rw [saxParseInternal]
    exact not_awaits_ok
  | cons frame outer =>
    cases frame with
    | array elements =>
      rw [saxParseInternal]
      rw [if_neg (by rw [hend]; decide), if_neg (by rw [hend]; decide)]
      exact awaits_context (by decide) (by decide)
    | object members key =>
      rw [saxParseInternal]
      rw [if_neg (by rw [hend]; decide), if_neg (by rw [hend]; decide)]
      exact awaits_context (by decide) (by decide)

theorem not_awaits_number (hnumber : IsNumber p.lastToken) (hinput : p.lexer.input = []) :
    ¬ Awaits (saxParseInternal host p frames .value) := by
  cases hscalar : scalar (reading (view p)) with
  | some value =>
    rw [sax_scalar hscalar]
    exact not_awaits_evaluation hinput
  | none =>
    obtain ⟨lexer, token⟩ := p
    have hnumber' : IsNumber token := hnumber
    rcases hnumber' with rfl | rfl | rfl
    · cases hscalar
    · cases hscalar
    · have hlarge : ¬ lexer.valueFloat.isFinite = true := by
        intro hfinite
        have hsome : scalar (reading (view ⟨lexer, .valueFloat⟩)) =
            some (.numberFloat lexer.valueFloat) := if_pos hfinite
        rw [hsome] at hscalar
        cases hscalar
      rw [saxParseInternal, if_neg hlarge]
      exact not_awaits_numberOverflow

/-- The first token of a value is pulled from the longer text, too, or the number
stands in its place. -/
theorem Extends.value (hq : Extends number rest p q) (hlarge : TooLarge host number rest)
    (h : Awaits (saxParseInternal host (JsonParsers.getToken host p) frames .value))
    (hover : (JsonParsers.getToken host p).lastToken ≠ .endOfInput → ∀ q,
      Extends number rest (JsonParsers.getToken host p) q →
      reading (view q) = reading (view (JsonParsers.getToken host p)) →
      Overflowed (saxParseInternal host q frames .value)) :
    ((JsonParsers.getToken host q).lastToken = (JsonParsers.getToken host p).lastToken ∨
      (JsonParsers.getToken host q).lastToken = .valueFloat) ∧
      Overflowed (saxParseInternal host (JsonParsers.getToken host q) frames .value) := by
  by_cases hend : (JsonParsers.getToken host p).lastToken = .endOfInput
  · rw [sax_endOfInput hend] at h
    have hnext := hq.large hlarge (awaits_syntaxError h).1
    exact ⟨Or.inr hnext.1, overflowed_of_large hnext⟩
  · have herror : (JsonParsers.getToken host p).lastToken ≠ .parseError := by
      intro herror
      rw [sax_parseError herror] at h
      exact hend (awaits_syntaxError h).1.1
    obtain ⟨hreading, hnext⟩ := hq.getToken hend herror
      (fun hnumber hempty => not_awaits_number hnumber hempty h)
    exact ⟨Or.inl (token_of_reading hreading), hover hend _ hnext hreading⟩

theorem evaluation_ne_value {value : Json} (h : Phase.evaluation value = .value) :
    p.lastToken ≠ .endOfInput := by
  cases h

theorem overflowed_of_awaits (h : Awaits (saxParseInternal host p frames phase))
    (hstart : phase = .value → p.lastToken ≠ .endOfInput) (hlarge : TooLarge host number rest)
    (hq : Extends number rest p q) (hreading : reading (view q) = reading (view p)) :
    Overflowed (saxParseInternal host q frames phase) := by
  have hscalar : ∀ {p q frames value}, scalar (reading (view p)) = some value →
      reading (view q) = reading (view p) →
      Overflowed (saxParseInternal host q frames (.evaluation value)) →
      Overflowed (saxParseInternal host q frames .value) := by
    intro p q frames value hvalue hreading hover
    rwa [sax_scalar (hreading ▸ hvalue)]
  -- a token of the grammar is no number
  have hpull : ∀ {token p q}, Extends number rest p q → (getToken host p).lastToken = token →
      token ≠ .endOfInput ∧ token ≠ .parseError ∧ ¬ IsNumber token →
      reading (view (getToken host q)) = reading (view (getToken host p)) ∧
        Extends number rest (getToken host p) (getToken host q) := by
    rintro token p q hq rfl ⟨hend, herror, hplain⟩
    exact hq.getToken hend herror (fun hnumber => absurd hnumber hplain)
  have hother : ∀ {expected context p}, p.lastToken ≠ .endOfInput →
      ¬ Awaits (syntaxError expected context p) :=
    fun hne hawaits => hne (awaits_syntaxError hawaits).1.1
  fun_induction saxParseInternal host p frames phase generalizing q
  case case1 lexer frames key hkey ih =>
    obtain ⟨hread, hnext⟩ := hpull hq hkey (by decide)
    rw [sax_emptyObject (token_of_reading hreading) ((token_of_reading hread).trans hkey)]
    exact ih h evaluation_ne_value hnext hread
  case case2 lexer frames key _ hkey separator hseparator ih =>
    obtain ⟨hread, hnext⟩ := hpull hq hkey (by decide)
    obtain ⟨hread', hnext'⟩ := hpull hnext hseparator (by decide)
    rw [sax_object (token_of_reading hreading) ((token_of_reading hread).trans hkey)
      ((token_of_reading hread').trans hseparator), text_of_reading hread hkey]
    exact (hnext'.value hlarge h (fun hend q hq => ih h (fun _ => hend) hq)).2
  case case5 lexer frames first hfirst ih =>
    obtain ⟨hread, hnext⟩ := hpull hq hfirst (by decide)
    rw [sax_emptyArray (token_of_reading hreading) ((token_of_reading hread).trans hfirst)]
    exact ih h evaluation_ne_value hnext hread
  case case6 lexer frames first hfirst ih =>
    obtain ⟨htoken, hover⟩ := hq.value hlarge h (fun hend q hq => ih h (fun _ => hend) hq)
    have hne : (getToken host q).lastToken ≠ .endArray := by
      rcases htoken with htoken | htoken
      · rw [htoken]
        exact hfirst
      · rw [htoken]
        decide
    rw [sax_array (token_of_reading hreading) hne]
    exact hover
  case case7 lexer frames hfinite ih =>
    have hvalue : scalar (reading (view ⟨lexer, .valueFloat⟩)) =
        some (.numberFloat lexer.valueFloat) := if_pos hfinite
    exact hscalar hvalue hreading (ih h evaluation_ne_value hq hreading)
  case case18 p elements outer value next hnext ih =>
    obtain ⟨hread, hafter⟩ := hpull hq hnext (by decide)
    rw [sax_element ((token_of_reading hread).trans hnext)]
    exact (hafter.value hlarge h (fun hend q hq => ih h (fun _ => hend) hq)).2
  case case19 p elements outer value next _ hnext ih =>
    obtain ⟨hread, hafter⟩ := hpull hq hnext (by decide)
    rw [sax_endArray ((token_of_reading hread).trans hnext)]
    exact ih h evaluation_ne_value hafter hread
  case case21 p members key outer value next hnext nextKey hkey separator hseparator ih =>
    obtain ⟨hread, hafter⟩ := hpull hq hnext (by decide)
    obtain ⟨hread', hafter'⟩ := hpull hafter hkey (by decide)
    obtain ⟨hread'', hafter''⟩ := hpull hafter' hseparator (by decide)
    rw [sax_member ((token_of_reading hread).trans hnext) ((token_of_reading hread').trans hkey)
      ((token_of_reading hread'').trans hseparator), text_of_reading hread' hkey]
    exact (hafter''.value hlarge h (fun hend q hq => ih h (fun _ => hend) hq)).2
  case case24 p members key outer value next _ hnext ih =>
    obtain ⟨hread, hafter⟩ := hpull hq hnext (by decide)
    rw [sax_endObject ((token_of_reading hread).trans hnext)]
    exact ih h evaluation_ne_value hafter hread
  case case16 p frames _ _ _ _ _ _ _ _ _ _ => exact absurd h (hother (hstart rfl))
  case case15 => exact absurd h (hother (fun htoken => by cases htoken))
  -- every other case is another scalar, or it ends with another error
  all_goals first
    | exact absurd h (awaits_context (by decide) (by decide))
    | exact absurd h not_awaits_ok
    | exact absurd h not_awaits_numberOverflow
    | (rename_i ih; exact hscalar rfl hreading (ih h evaluation_ne_value hq hreading))

end Extensions

section Texts

variable {host : Host} {text : Bytes}

/-- The text has a number that is too large where its parser waits for a value. -/
def Overflows (host : Host) (text : Bytes) : Prop :=
  ∃ before number rest, text = before ++ (number ++ rest) ∧ TooLarge host number rest ∧
    Awaits (parse host before)

theorem overflowed_parse : Overflowed (parse host text) ↔
    Overflowed (saxParseInternal host (getToken host ⟨Lexer.start text, .uninitialized⟩) []
      .value) := by
  unfold parse
  cases hrun : saxParseInternal host (getToken host ⟨Lexer.start text, .uninitialized⟩) []
      .value with
  | error e q => exact Iff.rfl
  | ok value q =>
    dsimp only
    split
    · exact iff_of_false not_overflowed_ok not_overflowed_ok
    · exact iff_of_false not_overflowed_syntaxError not_overflowed_ok

theorem awaits_parse : Awaits (parse host text) ↔
    Awaits (saxParseInternal host (getToken host ⟨Lexer.start text, .uninitialized⟩) []
      .value) := by
  unfold parse
  cases hrun : saxParseInternal host (getToken host ⟨Lexer.start text, .uninitialized⟩) []
      .value with
  | error e q => exact Iff.rfl
  | ok value q =>
    dsimp only
    split
    · exact iff_of_false not_awaits_ok not_awaits_ok
    · rename_i hend
      exact iff_of_false (fun h => hend (awaits_syntaxError h).1.1) not_awaits_ok

/-- The parser throws out_of_range for exactly these texts. -/
theorem overflowed_iff : Overflowed (parse host text) ↔ Overflows host text := by
  constructor
  · intro h
    have hsax := overflowed_parse.mp h
    obtain ⟨before, number, rest, hinput, hlarge, hall⟩ := (meets_of_overflowed hsax).value hsax
    refine ⟨before, number, rest, hinput, hlarge, awaits_parse.mpr ?_⟩
    exact (hall ⟨Lexer.start before, .uninitialized⟩ rfl Iff.rfl).2
  · rintro ⟨before, number, rest, rfl, hlarge, hawaits⟩
    have hextends : Extends number rest ⟨Lexer.start before, .uninitialized⟩
        ⟨Lexer.start (before ++ (number ++ rest)), .uninitialized⟩ := ⟨rfl, Iff.rfl⟩
    refine overflowed_parse.mpr (hextends.value hlarge (awaits_parse.mp hawaits) ?_).2
    intro hend q hq hreading
    exact overflowed_of_awaits (awaits_parse.mp hawaits) (fun _ => hend) hlarge hq hreading

end Texts

end BeastServer.NumberOverflows
