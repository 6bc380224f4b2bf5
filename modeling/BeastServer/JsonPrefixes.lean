import BeastServer.JsonTokens

/-!
Tokens and what follows them.
A scan skips blanks, takes the bytes of one token and looks at most one byte
further, which only a number does. So the same bytes are scanned as the same
token before every rest, as long as a number is followed by the same byte as
before or by nothing at all.
-/
namespace BeastServer.JsonPrefixes

open ByteStrings JsonValues JsonLexers JsonTokens

section Readings

/-- What the parser learns from a scan. -/
def reading (scanned : TokenType × Lexer) : TokenType × Json :=
  (scanned.1,
    match scanned.1 with
    | .valueString => .string scanned.2.tokenBuffer
    | .valueUnsigned => .numberUnsigned scanned.2.valueUnsigned
    | .valueInteger => .numberInteger scanned.2.valueInteger
    | .valueFloat => .numberFloat scanned.2.valueFloat
    | _ => .null)

def IsNumber (type : TokenType) : Prop :=
  type = .valueUnsigned ∨ type = .valueInteger ∨ type = .valueFloat

instance (type : TokenType) : Decidable (IsNumber type) :=
  inferInstanceAs (Decidable (_ ∨ _ ∨ _))

/-- The other rest begins as the rest does, or there is none. -/
def Agrees (rest other : Bytes) : Prop := other = [] ∨ other.head? = rest.head?

theorem Agrees.head {rest other : Bytes} (h : Agrees rest other) {c : UInt8}
    (hc : c ∈ other.head?) : c ∈ rest.head? := by
  rcases h with rfl | hhead
  · cases hc
  · rw [← hhead]
    exact hc

end Readings

section Literals

variable {lexer : Lexer} {input text : Bytes} {type : TokenType}

theorem exists_of_scanLiteral (h : (scanLiteral type text input lexer).1 ≠ .parseError) :
    ∃ rest, input = text ++ rest := by
  induction text generalizing input lexer with
  | nil => exact ⟨input, rfl⟩
  | cons expected text ih =>
    cases input with
    | nil => exact absurd rfl h
    | cons c rest =>
      rw [scanLiteral] at h
      split at h
      · rename_i hc
        obtain ⟨more, rfl⟩ := ih h
        exact ⟨more, by rw [hc, List.cons_append]⟩
      · exact absurd rfl h

end Literals

section Strings

variable {lexer other : Lexer} {state next : StringState} {c : UInt8} {input : Bytes}

/-- The lexer with more bytes in its string. -/
def adding (bytes : Bytes) (lexer : Lexer) : Lexer :=
  { lexer with tokenBuffer := lexer.tokenBuffer ++ bytes }

@[simp] theorem adding_nil (lexer : Lexer) : adding [] lexer = lexer := by
  unfold adding
  rw [List.append_nil]

theorem codepointRead_adding {codepoint : ℕ} {high : Option ℕ} {after : Lexer}
    (h : codepointRead codepoint high lexer = .next next after) :
    ∃ bytes, after = adding bytes lexer ∧
      ∀ other, codepointRead codepoint high other = .next next (adding bytes other) := by
  unfold codepointRead at h ⊢
  cases high with
  | none =>
    dsimp only at h ⊢
    split_ifs at h ⊢
    · cases h
      exact ⟨[], by simp, by simp⟩
    · cases h
      exact ⟨encodeCodepoint codepoint, rfl, fun _ => rfl⟩
  | some high =>
    dsimp only at h ⊢
    split_ifs at h ⊢
    cases h
    exact ⟨encodeCodepoint _, rfl, fun _ => rfl⟩

/-- A step of the scanner adds the same bytes to every lexer. -/
theorem stringStep_adding {after : Lexer} (h : stringStep state c lexer = .next next after) :
    ∃ bytes, after = adding bytes lexer ∧
      ∀ other, stringStep state c other = .next next (adding bytes other) := by
  cases state with
  | plain =>
    simp only [stringStep] at h ⊢
    split_ifs at h ⊢
    · cases h
      exact ⟨[], by simp, by simp⟩
    · split at h <;> cases h
      · exact ⟨[c], rfl, fun _ => rfl⟩
      · exact ⟨[c], rfl, fun _ => rfl⟩
  | escaped =>
    simp only [stringStep] at h ⊢
    split_ifs at h ⊢
    · cases h
      exact ⟨[], by simp, by simp⟩
    · split at h <;> cases h
      exact ⟨[_], rfl, fun _ => rfl⟩
  | codepoint missing sofar high =>
    simp only [stringStep] at h ⊢
    split at h
    · cases h
    · split_ifs at h ⊢
      · exact codepointRead_adding h
      · cases h
        exact ⟨[], by simp, by simp⟩
  | lowBackslash high =>
    simp only [stringStep] at h ⊢
    split_ifs at h ⊢
    cases h
    exact ⟨[], by simp, by simp⟩
  | lowU high =>
    simp only [stringStep] at h ⊢
    split_ifs at h ⊢
    cases h
    exact ⟨[], by simp, by simp⟩
  | bytes range ranges =>
    simp only [stringStep] at h ⊢
    split_ifs at h ⊢
    split at h <;> cases h
    · exact ⟨[c], rfl, fun _ => rfl⟩
    · exact ⟨[c], rfl, fun _ => rfl⟩

theorem closingQuote_congr (h : stringStep state c lexer = .closingQuote) :
    stringStep state c other = .closingQuote := by
  cases state with
  | plain =>
    simp only [stringStep] at h ⊢
    split_ifs at h ⊢
    · rfl
    · split at h <;> cases h
  | escaped =>
    simp only [stringStep] at h
    split_ifs at h
    split at h <;> cases h
  | codepoint missing sofar high =>
    simp only [stringStep] at h
    split at h
    · cases h
    · split_ifs at h
      unfold codepointRead at h
      split at h <;> split_ifs at h
  | lowBackslash high =>
    simp only [stringStep] at h
    split_ifs at h
  | lowU high =>
    simp only [stringStep] at h
    split_ifs at h
  | bytes range ranges =>
    simp only [stringStep] at h
    split_ifs at h
    split at h <;> cases h

/-- A string ends with its quote, and the scanner looks no further. -/
theorem scanStringFrom_local (h : (scanStringFrom state input lexer).1 ≠ .parseError) :
    ∃ used, input = used ++ (scanStringFrom state input lexer).2.input ∧
      ∀ (other : Lexer) (rest : Bytes), other.tokenBuffer = lexer.tokenBuffer →
        reading (scanStringFrom state (used ++ rest) other) =
            reading (scanStringFrom state input lexer) ∧
          (scanStringFrom state (used ++ rest) other).2.input = rest := by
  induction input generalizing state lexer with
  | nil => exact absurd rfl h
  | cons c input ih =>
    rw [scanStringFrom] at h ⊢
    cases hstep : stringStep state c (lexer.got (some c)) with
    | next next after =>
      rw [hstep] at h
      obtain ⟨used, hused, hother⟩ := ih h
      refine ⟨c :: used, congrArg (c :: ·) hused, ?_⟩
      intro other rest hbuffer
      obtain ⟨bytes, rfl, hadds⟩ := stringStep_adding hstep
      rw [List.cons_append, scanStringFrom, hadds]
      exact hother _ rest (congrArg (· ++ bytes) hbuffer)
    | closingQuote =>
      refine ⟨[c], rfl, ?_⟩
      intro other rest hbuffer
      have hotherStep := @closingQuote_congr _ (other.got (some c)) _ _ hstep
      rw [List.singleton_append, scanStringFrom, hotherStep]
      refine ⟨?_, rfl⟩
      show (TokenType.valueString, Json.string other.tokenBuffer) =
        (TokenType.valueString, Json.string lexer.tokenBuffer)
      rw [hbuffer]
    | error message =>
      rw [hstep] at h
      exact absurd rfl h

end Strings

section Numbers

variable {host : Host} {lexer other : Lexer} {state last : NumberState} {type lastType : TokenType}
  {input text rest : Bytes}

theorem exists_of_scanNumberFrom
    (h : (scanNumberFrom host state type input lexer).1 ≠ .parseError) :
    ∃ text last lastType rest, input = text ++ rest ∧
      labels state type text = some (last, lastType) ∧ last.stopped = none ∧
      ∀ c ∈ rest.head?, last.next c = none := by
  have hdone : ∀ {state type input} {lexer : Lexer},
      (numberDone host state type input lexer).1 ≠ .parseError → state.stopped = none := by
    intro state type input lexer hparsed
    unfold numberDone at hparsed
    cases hstopped : state.stopped with
    | none => rfl
    | some error =>
      rw [hstopped] at hparsed
      exact absurd rfl hparsed
  induction input generalizing state type lexer with
  | nil =>
    refine ⟨[], state, type, [], rfl, rfl, hdone h, ?_⟩
    intro c hc
    cases hc
  | cons c input ih =>
    rw [scanNumberFrom] at h
    cases hnext : state.next c with
    | none =>
      rw [hnext] at h
      refine ⟨[], state, type, c :: input, rfl, rfl, hdone h, ?_⟩
      intro d hd
      obtain rfl := Option.some.inj hd
      exact hnext
    | some next =>
      rw [hnext] at h
      obtain ⟨text, last, lastType, rest, rfl, hlabels, hstopped, hrest⟩ := ih h
      refine ⟨c :: text, last, lastType, rest, rfl, ?_, hstopped, hrest⟩
      rw [labels, hnext]
      exact hlabels

/-- The value of a number is made from its text. -/
theorem reading_convertNumber (hbuffer : other.tokenBuffer = lexer.tokenBuffer) :
    reading (convertNumber host type other) = reading (convertNumber host type lexer) := by
  unfold convertNumber
  rw [hbuffer]
  split_ifs <;> rfl

theorem isNumber_convertNumber : IsNumber (convertNumber host type lexer).1 := by
  unfold convertNumber IsNumber
  split_ifs <;> simp

/-- A number is scanned as such before every rest that does not continue it. -/
theorem scanNumberFrom_local (h : (scanNumberFrom host state type input lexer).1 ≠ .parseError) :
    IsNumber (scanNumberFrom host state type input lexer).1 ∧
      ∃ used, input = used ++ (scanNumberFrom host state type input lexer).2.input ∧
        ∀ (other : Lexer) (rest : Bytes), other.tokenBuffer = lexer.tokenBuffer →
          Agrees (scanNumberFrom host state type input lexer).2.input rest →
          reading (scanNumberFrom host state type (used ++ rest) other) =
              reading (scanNumberFrom host state type input lexer) ∧
            (scanNumberFrom host state type (used ++ rest) other).2.input = rest := by
  obtain ⟨text, last, lastType, rest, rfl, hlabels, hstopped, hrest⟩ := exists_of_scanNumberFrom h
  obtain ⟨after, hbuffer, hinput, hscan⟩ :=
    @scanNumberFrom_text host lexer _ _ _ _ _ _ hlabels hstopped hrest
  have hleft : (scanNumberFrom host state type (text ++ rest) lexer).2.input = rest := by
    rw [hscan, convertNumber_input]
    exact hinput
  refine ⟨by rw [hscan]; exact isNumber_convertNumber, text, by rw [hleft], ?_⟩
  intro other rest' hsame hagrees
  rw [hleft] at hagrees
  obtain ⟨otherAfter, hotherBuffer, hotherInput, hotherScan⟩ :=
    @scanNumberFrom_text host other _ _ _ _ _ rest' hlabels hstopped
      (fun c hc => hrest c (hagrees.head hc))
  rw [hotherScan, hscan, convertNumber_input]
  exact ⟨reading_convertNumber (by rw [hotherBuffer, hbuffer, hsame]), hotherInput⟩

end Numbers

section Tokens

variable {host : Host} {lexer other : Lexer} {input text rest : Bytes} {type : TokenType}
  {c : UInt8}

theorem reading_eq (scanned : TokenType × Lexer) (h : scanned.1 = type)
    (hplain : ∀ lexer, reading (type, lexer) = (type, .null)) :
    reading scanned = (type, .null) := by
  obtain ⟨token, lexer⟩ := scanned
  obtain rfl : token = type := h
  exact hplain lexer

theorem reading_structural (h : structural c = some type) (lexer : Lexer) :
    reading (type, lexer) = (type, .null) := by
  unfold structural at h
  split_ifs at h <;> cases h <;> rfl

/-- What the scanner makes of the input after the character c is settled by the
bytes that it takes. -/
def Local (c : UInt8) (scanner : Lexer → TokenType × Lexer) : Prop :=
  ∀ lexer, lexer.current = some c → (scanner lexer).1 ≠ .endOfInput →
    (scanner lexer).1 ≠ .parseError →
    ∃ used, lexer.input = used ++ (scanner lexer).2.input ∧
      ∀ other rest, other.current = some c → other.input = used ++ rest →
        (IsNumber (scanner lexer).1 → Agrees (scanner lexer).2.input rest) →
        reading (scanner other) = reading (scanner lexer) ∧ (scanner other).2.input = rest

theorem local_structural (hc : structural c = some type) :
    Local c (fun lexer => (type, lexer)) := by
  intro lexer _ _ _
  refine ⟨[], rfl, ?_⟩
  intro other rest _ hinput _
  rw [reading_structural hc, reading_structural hc]
  exact ⟨rfl, hinput⟩

theorem local_literal (hplain : ∀ lexer, reading (type, lexer) = (type, .null)) :
    Local c (fun lexer => scanLiteral type text lexer.input lexer) := by
  intro lexer _ _ herror
  obtain ⟨left, hinput⟩ := exists_of_scanLiteral herror
  obtain ⟨htoken, hleft⟩ := @scanLiteral_text lexer left text type
  rw [← hinput] at htoken hleft
  refine ⟨text, by rw [hleft]; exact hinput, ?_⟩
  intro other rest _ hother _
  obtain ⟨hotherToken, hotherLeft⟩ := @scanLiteral_text other rest text type
  rw [← hother] at hotherToken hotherLeft
  exact ⟨(reading_eq _ hotherToken hplain).trans (reading_eq _ htoken hplain).symm, hotherLeft⟩

theorem local_string : Local c scanString := by
  intro lexer _ _ herror
  obtain ⟨used, hused, hall⟩ := scanStringFrom_local herror
  refine ⟨used, hused, ?_⟩
  intro other rest _ hother _
  unfold scanString
  rw [hother]
  exact hall other.reset rest rfl

theorem local_number : Local c (scanNumber host c) := by
  intro lexer _ _ herror
  obtain ⟨hnumber, used, hused, hall⟩ := scanNumberFrom_local herror
  refine ⟨used, hused, ?_⟩
  intro other rest _ hother hagrees
  have h := hall (other.reset.add c) rest rfl (hagrees hnumber)
  unfold scanNumber
  rw [hother]
  exact h

/-- A scanner that makes nothing of the character. -/
theorem local_nothing {scanner : Lexer → TokenType × Lexer}
    (h : ∀ lexer, (scanner lexer).1 = .endOfInput ∨ (scanner lexer).1 = .parseError) :
    Local c scanner := by
  intro lexer _ hend herror
  exact ((h lexer).elim hend herror).elim

theorem local_scanToken (host : Host) (c : UInt8) : Local c (scanToken host) := by
  have hscan : ∀ {scanner : Lexer → TokenType × Lexer}, Local c scanner →
      (∀ lexer : Lexer, lexer.current = some c → scanToken host lexer = scanner lexer) →
      Local c (scanToken host) := by
    intro scanner hlocal heq lexer hcurrent hend herror
    rw [heq lexer hcurrent] at hend herror ⊢
    obtain ⟨used, hused, hall⟩ := hlocal lexer hcurrent hend herror
    refine ⟨used, hused, ?_⟩
    intro other rest hother hinput
    rw [heq other hother]
    exact hall other rest hother hinput
  cases hc : structural c with
  | some token =>
    apply hscan (local_structural hc)
    intro lexer hcurrent
    unfold scanToken
    rw [hcurrent]
    simp only [hc]
  | none =>
    have hswitch : Local c (fun lexer =>
        if c = 116 then scanLiteral .literalTrue (ascii "rue") lexer.input lexer
        else if c = 102 then scanLiteral .literalFalse (ascii "alse") lexer.input lexer
        else if c = 110 then scanLiteral .literalNull (ascii "ull") lexer.input lexer
        else if c = 34 then scanString lexer
        else if c = 45 ∨ isDigit c = true then scanNumber host c lexer
        else if c = 0 then (.endOfInput, lexer)
        else lexer.fail .invalidLiteral lexer.input) := by
      split_ifs
      · exact local_literal (fun _ => rfl)
      · exact local_literal (fun _ => rfl)
      · exact local_literal (fun _ => rfl)
      · exact local_string
      · exact local_number
      · exact local_nothing (fun _ => Or.inl rfl)
      · exact local_nothing (fun _ => Or.inr rfl)
    apply hscan hswitch
    intro lexer hcurrent
    unfold scanToken
    rw [hcurrent]
    simp only [hc]

end Tokens

section Positions

variable {host : Host} {lexer : Lexer} {input text : Bytes} {type : TokenType}

def charsRead (lexer : Lexer) : ℕ := lexer.position.charsReadTotal

theorem charsRead_got (c : Option UInt8) : charsRead lexer ≤ charsRead (lexer.got c) :=
  Nat.le_succ _

theorem charsRead_scanLiteral :
    charsRead lexer ≤ charsRead (scanLiteral type text input lexer).2 := by
  induction text generalizing input lexer with
  | nil => exact le_rfl
  | cons expected text ih =>
    cases input with
    | nil => exact Nat.le_succ _
    | cons c rest =>
      rw [scanLiteral]
      split
      · exact (charsRead_got (some c)).trans ih
      · exact Nat.le_succ _

theorem charsRead_scanStringFrom (state : StringState) :
    charsRead lexer ≤ charsRead (scanStringFrom state input lexer).2 := by
  induction input generalizing state lexer with
  | nil => exact Nat.le_succ _
  | cons c rest ih =>
    rw [scanStringFrom]
    cases hstep : stringStep state c (lexer.got (some c)) with
    | next next after =>
      obtain ⟨bytes, rfl, -⟩ := stringStep_adding hstep
      have hmore := @ih (adding bytes (lexer.got (some c))) next
      exact (charsRead_got (some c)).trans hmore
    | closingQuote => exact Nat.le_succ _
    | error message => exact Nat.le_succ _

theorem charsRead_numberDone {state : NumberState} {c : Option UInt8} :
    charsRead lexer ≤ charsRead (numberDone host state type input (lexer.got c)).2 := by
  have hconvert : ∀ lexer : Lexer,
      charsRead (convertNumber host type lexer).2 = charsRead lexer := by
    intro lexer
    unfold convertNumber
    split_ifs <;> rfl
  unfold numberDone
  cases state.stopped with
  | some error => exact Nat.le_succ _
  | none =>
    dsimp only
    rw [hconvert]
    exact le_rfl

theorem charsRead_scanNumberFrom (state : NumberState) :
    charsRead lexer ≤ charsRead (scanNumberFrom host state type input lexer).2 := by
  induction input generalizing state type lexer with
  | nil => exact charsRead_numberDone
  | cons c rest ih =>
    rw [scanNumberFrom]
    cases state.next c with
    | some next =>
      have hmore := @ih ((lexer.got (some c)).add c) (next.numberType type) next
      exact (charsRead_got (some c)).trans hmore
    | none => exact charsRead_numberDone

theorem charsRead_scanToken : charsRead lexer ≤ charsRead (scanToken host lexer).2 := by
  unfold scanToken
  cases lexer.current with
  | none => exact le_rfl
  | some c =>
    cases hc : structural c with
    | some token =>
      simp only [hc]
      exact le_rfl
    | none =>
      simp only [hc]
      split
      · exact charsRead_scanLiteral
      split
      · exact charsRead_scanLiteral
      split
      · exact charsRead_scanLiteral
      split
      · exact @charsRead_scanStringFrom lexer.reset lexer.input .plain
      split
      · exact @charsRead_scanNumberFrom host (lexer.reset.add c) lexer.input _ _
      split
      · exact le_rfl
      · exact le_rfl

end Positions

section Blanks

variable {host : Host} {lexer : Lexer} {blank spaces rest input : Bytes}

/-- What is skipped before a token: blanks, and at the start of the text a byte
order mark. -/
def Blank (lexer : Lexer) (blank : Bytes) : Prop :=
  ∃ bom spaces, blank = bom ++ spaces ∧ (∀ c ∈ spaces, isSpace c = true) ∧
    (bom = [] ∨ charsRead lexer = 0 ∧ bom = [0xEF, 0xBB, 0xBF])

/-- A byte order mark is skipped only by a lexer that has read nothing. -/
theorem Blank.of_fresh {other : Lexer} (h : Blank lexer blank)
    (hfresh : charsRead other = 0 ↔ charsRead lexer = 0) : Blank other blank := by
  obtain ⟨bom, spaces, hblank, hspaces, hbom⟩ := h
  exact ⟨bom, spaces, hblank, hspaces, hbom.imp_right (fun hread => ⟨hfresh.mpr hread.1, hread.2⟩)⟩

theorem skipWhitespace_spaces (hspaces : ∀ c ∈ spaces, isSpace c = true)
    (hrest : ∀ c ∈ rest.head?, isSpace c = false) :
    (skipWhitespace (spaces ++ rest) lexer).current = rest.head? ∧
      (skipWhitespace (spaces ++ rest) lexer).input = rest.tail := by
  induction spaces generalizing lexer with
  | nil =>
    cases rest with
    | nil => exact ⟨rfl, rfl⟩
    | cons c rest =>
      rw [List.nil_append, skipWhitespace, hrest c rfl]
      exact ⟨rfl, rfl⟩
  | cons c spaces ih =>
    rw [List.cons_append, skipWhitespace, if_pos (hspaces c List.mem_cons_self)]
    exact ih (fun d hd => hspaces d (List.mem_cons_of_mem c hd))

theorem exists_of_skipWhitespace (input : Bytes) (lexer : Lexer) :
    ∃ spaces rest, input = spaces ++ rest ∧ (∀ c ∈ spaces, isSpace c = true) ∧
      (∀ c ∈ rest.head?, isSpace c = false) ∧ charsRead (skipWhitespace input lexer) ≠ 0 := by
  induction input generalizing lexer with
  | nil => exact ⟨[], [], rfl, by simp, by simp, Nat.succ_ne_zero _⟩
  | cons c input ih =>
    rw [skipWhitespace]
    split
    · rename_i hc
      obtain ⟨spaces, rest, rfl, hspaces, hrest, hread⟩ := ih (lexer.got (some c))
      exact ⟨c :: spaces, rest, rfl, by simpa [hc] using hspaces, hrest, hread⟩
    · rename_i hc
      exact ⟨[], c :: input, rfl, by simp, by simpa using hc, Nat.succ_ne_zero _⟩

theorem skipBom_marked (hmark : lexer.input.head? = some 0xEF) (h : (skipBom lexer).1 = true) :
    lexer.input = [0xEF, 0xBB, 0xBF] ++ (skipBom lexer).2.input := by
  have hhead : ∀ (text : Bytes) (c : UInt8), text.head? = some c → text = c :: text.tail := by
    intro text c hc
    cases text with
    | nil => cases hc
    | cons d text => rw [Option.some.inj hc, List.tail_cons]
  have hfirst : lexer.get.current = some 0xEF := hmark
  unfold skipBom at h ⊢
  rw [if_pos hfirst] at h ⊢
  split_ifs at h ⊢ with hsecond
  have hthird : lexer.get.get.get.current = some 0xBF := of_decide_eq_true h
  show lexer.input = [0xEF, 0xBB, 0xBF] ++ lexer.input.tail.tail.tail
  have hmore := hhead _ _ hmark
  have hmore' := hhead lexer.input.tail _ hsecond
  have hmore'' := hhead lexer.input.tail.tail _ hthird
  rw [hmore''] at hmore'
  rw [hmore'] at hmore
  exact hmore

/-- Where the spaces begin. -/
theorem exists_of_scan_start (h : (scan host lexer).1 ≠ .parseError) :
    ∃ bom, ∃ started : Lexer, lexer.input = bom ++ started.input ∧
      (bom = [] ∨ charsRead lexer = 0 ∧ bom = [0xEF, 0xBB, 0xBF]) ∧
      scan host lexer = scanToken host (skipWhitespace started.input started) := by
  by_cases hmark : lexer.input.head? = some 0xEF
  · unfold scan at h ⊢
    by_cases hfresh : lexer.position.charsReadTotal = 0
    · rw [if_pos hfresh] at h ⊢
      dsimp only at h ⊢
      split at h
      · rename_i hbom
        rw [if_pos hbom]
        exact ⟨_, _, skipBom_marked hmark hbom, Or.inr ⟨hfresh, rfl⟩, rfl⟩
      · exact absurd rfl h
    · rw [if_neg hfresh]
      exact ⟨[], lexer, rfl, Or.inl rfl, rfl⟩
  · obtain ⟨started, hinput, hscan⟩ := @scan_started host lexer hmark
    exact ⟨[], started, hinput.symm, Or.inl rfl, hscan⟩

/-- A scan skips a blank and looks at the token behind it. -/
theorem exists_of_scan (h : (scan host lexer).1 ≠ .parseError) :
    ∃ blank rest, ∃ started : Lexer, lexer.input = blank ++ rest ∧ Blank lexer blank ∧
      (∀ c ∈ rest.head?, Begins c) ∧ started.current = rest.head? ∧ started.input = rest.tail ∧
      charsRead started ≠ 0 ∧ scan host lexer = scanToken host started := by
  obtain ⟨bom, started, hinput, hbom, hscan⟩ := exists_of_scan_start h
  obtain ⟨spaces, rest, hspaces, hall, hrest, hread⟩ :=
    exists_of_skipWhitespace started.input started
  obtain ⟨hcurrent, htail⟩ := @skipWhitespace_spaces started spaces rest hall hrest
  rw [← hspaces] at hcurrent htail
  refine ⟨bom ++ spaces, rest, _, ?_, ⟨bom, spaces, rfl, hall, hbom⟩, ?_, hcurrent, htail, hread,
    hscan⟩
  · rw [hinput, hspaces, List.append_assoc]
  · intro c hc
    refine ⟨hrest c hc, ?_⟩
    rintro rfl
    -- no token begins like a byte order mark
    apply h
    rw [hscan, scanToken, hcurrent, hc]
    rfl

/-- Every blank is skipped. -/
theorem scan_of_blank (hinput : lexer.input = blank ++ rest) (hblank : Blank lexer blank)
    (hrest : ∀ c ∈ rest.head?, Begins c) :
    ∃ started : Lexer, started.current = rest.head? ∧ started.input = rest.tail ∧
      scan host lexer = scanToken host started := by
  obtain ⟨bom, spaces, rfl, hspaces, hbom⟩ := hblank
  have hskip := fun started : Lexer =>
    @skipWhitespace_spaces started spaces rest hspaces (fun c hc => (hrest c hc).1)
  rcases hbom with rfl | ⟨hfresh, rfl⟩
  · have hmark : lexer.input.head? ≠ some 0xEF := by
      rw [hinput, List.nil_append]
      cases spaces with
      | nil =>
        intro hhead
        exact (hrest 0xEF hhead).2 rfl
      | cons c spaces =>
        intro hhead
        have hspace := hspaces c List.mem_cons_self
        rw [Option.some.inj hhead] at hspace
        cases hspace
    obtain ⟨started, hstarted, hscan⟩ := @scan_started host lexer hmark
    rw [hinput, List.nil_append] at hstarted
    rw [hstarted] at hscan
    exact ⟨_, (hskip started).1, (hskip started).2, hscan⟩
  · have hread : lexer.position.charsReadTotal = 0 := hfresh
    have hmarked : (skipBom lexer).1 = true ∧ (skipBom lexer).2.input = spaces ++ rest := by
      unfold skipBom
      simp [Lexer.get, Lexer.got, hinput]
    refine ⟨skipWhitespace (spaces ++ rest) (skipBom lexer).2, (hskip _).1, (hskip _).2, ?_⟩
    unfold scan
    rw [if_pos hread]
    dsimp only
    rw [if_pos hmarked.1, hmarked.2]

end Blanks

section Scans

variable {host : Host} {lexer other : Lexer} {blank number rest : Bytes} {type : TokenType}
  {c : UInt8}

/-- The number is what the scanner takes of the text. -/
def LongestNumber (type : TokenType) (number rest : Bytes) : Prop :=
  ∃ c text last, number = c :: text ∧ (c = 45 ∨ isDigit c = true) ∧
    labels (firstLabel c) ((firstLabel c).numberType .valueUnsigned) text = some (last, type) ∧
    last.stopped = none ∧ ∀ d ∈ rest.head?, last.next d = none

/-- A number that fits in no integer type and in no double. -/
def TooLarge (host : Host) (number rest : Bytes) : Prop :=
  ∃ type, LongestNumber type number rest ∧
    ¬ (type = .valueUnsigned ∧ digitsValue number < UInt64.size) ∧
    ¬ (type = .valueInteger ∧ digitsValue number.tail ≤ UInt64.size / 2) ∧
    (host.strtod number).isFinite = false

/-- The scan has come to the end of the text, not to a NUL. -/
def AtEnd (scanned : TokenType × Lexer) : Prop :=
  scanned.1 = .endOfInput ∧ scanned.2.current = none

/-- A number that overflows. -/
def Large (scanned : TokenType × Lexer) : Prop :=
  scanned.1 = .valueFloat ∧ scanned.2.valueFloat.isFinite = false

/-- Only a digit or a minus begins a number, and only a NUL ends the text early. -/
theorem scanToken_cases (host : Host) (hcurrent : lexer.current = some c) :
    ((c = 45 ∨ isDigit c = true) ∧ scanToken host lexer = scanNumber host c lexer) ∨
      ((scanToken host lexer).1 ≠ .valueFloat ∧
        ((scanToken host lexer).1 = .endOfInput → (scanToken host lexer).2.current = some c)) := by
  by_cases hnumber : c = 45 ∨ isDigit c = true
  · exact Or.inl ⟨hnumber, (scanToken_number hcurrent hnumber).2⟩
  apply Or.inr
  have hliteral : ∀ {type text}, type ≠ .valueFloat → type ≠ .endOfInput →
      (scanLiteral type text lexer.input lexer).1 ≠ .valueFloat ∧
        ((scanLiteral type text lexer.input lexer).1 = .endOfInput →
          (scanLiteral type text lexer.input lexer).2.current = some c) := by
    intro type text hfloat hend
    rcases @scanLiteral_token lexer lexer.input text type with htoken | htoken
    · rw [htoken]
      exact ⟨hfloat, fun h => absurd h hend⟩
    · rw [htoken]
      exact ⟨by decide, fun h => by cases h⟩
  have hstring : (scanString lexer).1 ≠ .valueFloat ∧
      ((scanString lexer).1 = .endOfInput → (scanString lexer).2.current = some c) := by
    rcases @scanStringFrom_token lexer.reset lexer.input .plain with htoken | htoken
    · unfold scanString
      rw [htoken]
      exact ⟨by decide, fun h => by cases h⟩
    · unfold scanString
      rw [htoken]
      exact ⟨by decide, fun h => by cases h⟩
  unfold scanToken
  rw [hcurrent]
  cases hc : structural c with
  | some token =>
    simp only [hc]
    exact ⟨structural_ne_float hc, fun _ => hcurrent⟩
  | none =>
    simp only [hc]
    rw [if_neg hnumber]
    split_ifs
    · exact hliteral (by decide) (by decide)
    · exact hliteral (by decide) (by decide)
    · exact hliteral (by decide) (by decide)
    · exact hstring
    · exact ⟨(fun h => by cases h), fun _ => hcurrent⟩
    · exact ⟨(fun h => by cases h), fun h => by cases h⟩

/-- The scan of a token that is no error has read something. -/
theorem charsRead_scan (h : (scan host lexer).1 ≠ .parseError) :
    charsRead (scan host lexer).2 ≠ 0 := by
  obtain ⟨-, -, started, -, -, -, -, -, hread, hscan⟩ := exists_of_scan h
  have hmore := @charsRead_scanToken host started
  rw [hscan]
  omega

/-- Lexers that have scanned the same token have both read something. -/
theorem fresh_iff_of_reading (herror : (scan host lexer).1 ≠ .parseError)
    (h : reading (scan host other) = reading (scan host lexer)) :
    charsRead (scan host other).2 = 0 ↔ charsRead (scan host lexer).2 = 0 := by
  have htoken : (reading (scan host other)).1 = (reading (scan host lexer)).1 := by rw [h]
  have hother := @charsRead_scan host other (fun herror' => herror (htoken.symm.trans herror'))
  exact iff_of_false hother (charsRead_scan herror)

/-- What is scanned as a token is scanned so before other rests, too. -/
theorem scan_local (hend : (scan host lexer).1 ≠ .endOfInput)
    (herror : (scan host lexer).1 ≠ .parseError) :
    ∃ used, lexer.input = used ++ (scan host lexer).2.input ∧
      ∀ other rest, (charsRead other = 0 ↔ charsRead lexer = 0) → other.input = used ++ rest →
        (IsNumber (scan host lexer).1 → Agrees (scan host lexer).2.input rest) →
        reading (scan host other) = reading (scan host lexer) ∧
          (scan host other).2.input = rest := by
  obtain ⟨blank, token, started, hinput, hblank, hbegins, hcurrent, htail, -, hscan⟩ :=
    exists_of_scan herror
  rw [hscan] at hend herror ⊢
  cases token with
  | nil =>
    rw [scanToken, hcurrent] at hend
    exact absurd rfl hend
  | cons c more =>
    obtain ⟨used, hused, hall⟩ := local_scanToken host c started hcurrent hend herror
    rw [htail] at hused
    refine ⟨blank ++ c :: used, ?_, ?_⟩
    · have hmore : more = used ++ (scanToken host started).2.input := hused
      rw [hinput, List.append_assoc, List.cons_append, ← hmore]
    · intro other rest hfresh hother hagrees
      rw [List.append_assoc, List.cons_append] at hother
      obtain ⟨otherStarted, hotherCurrent, hotherTail, hotherScan⟩ :=
        @scan_of_blank host other blank _ hother (hblank.of_fresh hfresh) hbegins
      rw [hotherScan]
      exact hall otherStarted rest hotherCurrent hotherTail hagrees

theorem scan_atEnd (hblank : Blank lexer lexer.input) : AtEnd (scan host lexer) := by
  obtain ⟨started, hcurrent, -, hscan⟩ :=
    @scan_of_blank host lexer lexer.input [] (List.append_nil _).symm hblank (by simp)
  have hnone : started.current = none := hcurrent
  rw [hscan, scanToken, hnone]
  exact ⟨rfl, hnone⟩

theorem blank_of_atEnd (h : AtEnd (scan host lexer)) : Blank lexer lexer.input := by
  obtain ⟨blank, token, started, hinput, hblank, -, hcurrent, -, -, hscan⟩ :=
    @exists_of_scan host lexer (by rw [h.1]; decide)
  rw [hscan] at h
  cases token with
  | nil =>
    rw [hinput, List.append_nil]
    exact hblank
  | cons c more =>
    rcases scanToken_cases host hcurrent with ⟨-, hnumber⟩ | ⟨-, hkept⟩
    · have hend := h.1
      rw [hnumber] at hend
      have hscanned : IsNumber (scanNumber host c started).1 := by
        apply (scanNumberFrom_local _).1
        show (scanNumber host c started).1 ≠ .parseError
        rw [hend]
        decide
      rw [hend] at hscanned
      exact absurd hscanned (by decide)
    · have hsome := hkept h.1
      rw [h.2] at hsome
      cases hsome

theorem scan_tooLarge (h : TooLarge host number rest) (hblank : Blank lexer blank)
    (hinput : lexer.input = blank ++ (number ++ rest)) : Large (scan host lexer) := by
  obtain ⟨type, ⟨c, text, last, rfl, hc, hlabels, hstopped, hrest⟩, hunsigned, hinteger,
    hlarge⟩ := h
  have hbegins : Begins c := (@scanToken_number host (lexer.got (some c)) c rfl hc).1
  obtain ⟨started, hcurrent, htail, hscan⟩ :=
    @scan_of_blank host lexer blank _ hinput hblank
      (fun d hd => by rw [← Option.some.inj hd]; exact hbegins)
  obtain ⟨after, hbuffer, -, htext⟩ :=
    @scanNumberFrom_text host (started.reset.add c) _ _ _ _ text rest hlabels hstopped hrest
  have hinput' : started.input = text ++ rest := htail
  have hall : after.tokenBuffer = c :: text := hbuffer
  have hconvert : scan host lexer = convertNumber host type after := by
    rw [hscan, (scanToken_number hcurrent hc).2, ← htext, ← hinput']
    rfl
  rw [hconvert, convertNumber, hall, if_neg hunsigned, if_neg hinteger]
  exact ⟨rfl, hlarge⟩

theorem exists_of_large (h : Large (scan host lexer)) :
    ∃ blank number rest, lexer.input = blank ++ (number ++ rest) ∧ Blank lexer blank ∧
      TooLarge host number rest := by
  obtain ⟨blank, token, started, hinput, hblank, -, hcurrent, htail, -, hscan⟩ :=
    @exists_of_scan host lexer (by rw [h.1]; decide)
  rw [hscan] at h
  cases token with
  | nil =>
    rw [scanToken, hcurrent] at h
    cases h.1
  | cons c more =>
    rcases scanToken_cases host hcurrent with ⟨hc, hnumber⟩ | ⟨hne, -⟩
    · rw [hnumber] at h
      have hparsed : (scanNumberFrom host (firstLabel c)
          ((firstLabel c).numberType .valueUnsigned) started.input (started.reset.add c)).1 ≠
            .parseError := by
        show (scanNumber host c started).1 ≠ .parseError
        rw [h.1]
        decide
      obtain ⟨text, last, type, rest, hsplit, hlabels, hstopped, hrest⟩ :=
        exists_of_scanNumberFrom hparsed
      obtain ⟨after, hbuffer, -, htext⟩ :=
        @scanNumberFrom_text host (started.reset.add c) _ _ _ _ text rest hlabels hstopped hrest
      have hall : after.tokenBuffer = c :: text := hbuffer
      have hmore : more = text ++ rest := htail.symm.trans hsplit
      have hconvert : scanNumber host c started = convertNumber host type after := by
        rw [← htext, ← hsplit]
        rfl
      rw [hconvert, convertNumber, hall] at h
      refine ⟨blank, c :: text, rest, by rw [hinput, hmore, List.cons_append], hblank, type,
        ⟨c, text, last, rfl, hc, hlabels, hstopped, hrest⟩, ?_⟩
      split_ifs at h with hunsigned hinteger
      · cases h.1
      · cases h.1
      · exact ⟨hunsigned, hinteger, h.2⟩
    · exact absurd h.1 hne

end Scans

end BeastServer.JsonPrefixes
