import BeastServer.OkResponses

/-!
What the parser accepts.
The string scanner checks the bytes of a text and makes the bytes of every code
point itself, so the strings that come out of it are well-formed UTF-8; the
members of an object are put into a map one by one. A value that has been parsed
is therefore a proper value of JSON with finite numbers. Dumping it gives a text
in normal form: the text is accepted again, it means the same, and dumping what
it means gives the very same text.
-/
namespace BeastServer.AcceptedTexts

open ByteStrings Exceptions JsonValues JsonLexers JsonParsers JsonSerializers JsonTokens
open JsonRoundTrips OkResponses Utf8

section Characters

variable {bytes more rest : Bytes} {ranges missing : List Range}

/-- After the bytes these ranges are missing. -/
def Leaves (bytes : Bytes) (ranges : List Range) : Prop :=
  ∀ rest, completes [] (bytes ++ rest) = completes ranges rest

theorem leaves_nil : Leaves [] [] := fun _ => rfl

theorem Leaves.wellFormed (h : Leaves bytes []) : WellFormed bytes := by
  have hend := h []
  rw [List.append_nil] at hend
  exact hend

theorem Leaves.byte {c : UInt8} (h : Leaves bytes ranges) (hc : advance ranges c = some missing) :
    Leaves (bytes ++ [c]) missing := by
  intro rest
  rw [List.append_assoc, h, List.singleton_append, completes_cons, hc]

theorem Leaves.append (h : Leaves bytes []) (hmore : Leaves more ranges) :
    Leaves (bytes ++ more) ranges := by
  intro rest
  rw [List.append_assoc, h, hmore]

theorem tail_contains {n : ℕ} (hn : n < 64) : tail.contains (UInt8.ofNat (0x80 + n)) = true := by
  have hall : ∀ n < 64, tail.contains (UInt8.ofNat (0x80 + n)) = true := by decide +kernel
  exact hall n hn

theorem continuation_two {n : ℕ} (hlow : 2 ≤ n) (hn : n < 32) :
    continuation (UInt8.ofNat (0xC0 + n)) = some [tail] := by
  have hall : ∀ n < 32, 2 ≤ n → continuation (UInt8.ofNat (0xC0 + n)) = some [tail] := by
    decide +kernel
  exact hall n hn hlow

/-- The first of three bytes bounds the second one. -/
theorem continuation_three {n : ℕ} (hn : n < 16) : continuation (UInt8.ofNat (0xE0 + n)) =
    some [⟨if n = 0 then 0xA0 else 0x80, if n = 13 then 0x9F else 0xBF⟩, tail] := by
  have hall : ∀ n < 16, continuation (UInt8.ofNat (0xE0 + n)) =
      some [⟨if n = 0 then 0xA0 else 0x80, if n = 13 then 0x9F else 0xBF⟩, tail] := by
    decide +kernel
  exact hall n hn

theorem continuation_four {n : ℕ} (hn : n < 5) : continuation (UInt8.ofNat (0xF0 + n)) =
    some [⟨if n = 0 then 0x90 else 0x80, if n = 4 then 0x8F else 0xBF⟩, tail, tail] := by
  have hall : ∀ n < 5, continuation (UInt8.ofNat (0xF0 + n)) =
      some [⟨if n = 0 then 0x90 else 0x80, if n = 4 then 0x8F else 0xBF⟩, tail, tail] := by
    decide +kernel
  exact hall n hn

theorem contains_iff {low high : UInt8} {n : ℕ} (hn : n < 64) :
    (⟨low, high⟩ : Range).contains (UInt8.ofNat (0x80 + n)) = true ↔
      low.toNat ≤ 128 + n ∧ 128 + n ≤ high.toNat := by
  have hbyte : (UInt8.ofNat (0x80 + n)).toNat = 128 + n := by
    rw [UInt8.toNat_ofNat']
    omega
  rw [Range.contains, decide_eq_true_eq, UInt8.le_iff_toNat_le, UInt8.le_iff_toNat_le, hbyte]

theorem Leaves.next {range : Range} {n : ℕ} (h : Leaves bytes (range :: ranges))
    (hn : range.contains (UInt8.ofNat (0x80 + n)) = true) :
    Leaves (bytes ++ [UInt8.ofNat (0x80 + n)]) ranges :=
  h.byte (if_pos hn)

/-- A code point that is no surrogate is written as one whole character. -/
theorem leaves_encodeCodepoint {codepoint : ℕ} (hmax : codepoint ≤ 0x10FFFF)
    (hsurrogate : codepoint < 0xD800 ∨ 0xDFFF < codepoint) :
    Leaves (encodeCodepoint codepoint) [] := by
  unfold encodeCodepoint
  split_ifs with hone htwo hthree
  · have hascii : UInt8.ofNat codepoint < 128 := by
      rw [UInt8.lt_iff_toNat_lt, UInt8.toNat_ofNat']
      show codepoint % 2 ^ 8 < 128
      omega
    exact leaves_nil.byte (continuation_ascii hascii)
  · have hfirst : Leaves [UInt8.ofNat (0xC0 + codepoint / 64)] [tail] :=
      leaves_nil.byte (continuation_two (by omega) (by omega))
    exact hfirst.next (tail_contains (Nat.mod_lt _ (by omega)))
  · have hfirst := leaves_nil.byte (@continuation_three (codepoint / 4096) (by omega))
    have hsecond := hfirst.next ((@contains_iff _ _ (codepoint / 64 % 64) (by omega)).mpr (by
      constructor <;> split_ifs <;> simp <;> omega))
    exact hsecond.next (tail_contains (Nat.mod_lt _ (by omega)))
  · have hfirst := leaves_nil.byte (@continuation_four (codepoint / 262144) (by omega))
    have hsecond := hfirst.next ((@contains_iff _ _ (codepoint / 4096 % 64) (by omega)).mpr (by
      constructor <;> split_ifs <;> simp <;> omega))
    have hthird := hsecond.next (@tail_contains (codepoint / 64 % 64) (by omega))
    exact hthird.next (tail_contains (Nat.mod_lt _ (by omega)))

end Characters

section Strings

variable {host : Host} {lexer lexer' : Lexer} {state next : StringState} {c : UInt8}
  {input : Bytes}

/-- The ranges of the bytes that the scanner waits for. -/
def missingIn : StringState → List Range
  | .bytes range ranges => range :: ranges
  | .plain => []
  | .escaped => []
  | .codepoint _ _ _ => []
  | .lowBackslash _ => []
  | .lowU _ => []

def IsHigh (codepoint : ℕ) : Prop := 0xD800 ≤ codepoint ∧ codepoint ≤ 0xDBFF

/-- The numbers that the scanner keeps: some digits of a code point, and a high
surrogate. -/
def Tracked (state : StringState) : Prop :=
  match state with
  | .codepoint missing sofar high =>
    0 < missing ∧ (sofar + 1) * 16 ^ missing ≤ 16 ^ 4 ∧ ∀ first ∈ high, IsHigh first
  | .lowBackslash high => IsHigh high
  | .lowU high => IsHigh high
  | .plain => True
  | .escaped => True
  | .bytes _ _ => True

/-- What holds of the collected bytes between two characters of a string. -/
structure Collecting (state : StringState) (lexer : Lexer) : Prop where
  tracked : Tracked state
  leaves : Leaves lexer.tokenBuffer (missingIn state)

theorem collecting_codepointRead {codepoint : ℕ} {high : Option ℕ}
    (h : codepointRead codepoint high lexer = .next next lexer')
    (hdigits : codepoint < 16 ^ 4) (hhigh : ∀ first ∈ high, IsHigh first)
    (hleaves : Leaves lexer.tokenBuffer []) : Collecting next lexer' := by
  unfold codepointRead at h
  cases high with
  | none =>
    simp only at h
    split_ifs at h with hfirst hsecond
    · cases h
      exact ⟨hfirst, hleaves⟩
    · cases h
      exact ⟨trivial, hleaves.append (leaves_encodeCodepoint (by omega) (by omega))⟩
  | some first =>
    have hbounds : IsHigh first := hhigh first rfl
    obtain ⟨hlow, hmax⟩ := hbounds
    simp only at h
    split_ifs at h with hsecond
    cases h
    exact ⟨trivial, hleaves.append (leaves_encodeCodepoint (by omega) (by omega))⟩

theorem hexValue_lt {digit : ℕ} (h : hexValue c = some digit) : digit < 16 := by
  have hall : ∀ n < 256, ∀ digit ∈ hexValue (UInt8.ofNat n), digit < 16 := by decide +kernel
  exact forall_byte (P := fun c => ∀ digit ∈ hexValue c, digit < 16) hall c digit h

theorem escapedCharacter_isAscii {d : UInt8} (h : escapedCharacter c = some d) : d < 128 := by
  unfold escapedCharacter at h
  split_ifs at h <;> cases h <;> decide

theorem collecting_step (hcollecting : Collecting state lexer)
    (h : stringStep state c lexer = .next next lexer') : Collecting next lexer' := by
  obtain ⟨htracked, hleaves⟩ := hcollecting
  cases state with
  | plain =>
    simp only [stringStep] at h
    split_ifs at h
    · cases h
      exact ⟨trivial, hleaves⟩
    · split at h
      · cases h
      · rename_i hcontinuation
        cases h
        exact ⟨trivial, hleaves.byte hcontinuation⟩
      · rename_i hcontinuation
        cases h
        exact ⟨trivial, hleaves.byte hcontinuation⟩
  | escaped =>
    simp only [stringStep] at h
    split_ifs at h
    · cases h
      exact ⟨⟨by decide, by decide, by simp⟩, hleaves⟩
    · split at h
      · rename_i d hescaped
        cases h
        have hascii := escapedCharacter_isAscii hescaped
        exact ⟨trivial, hleaves.byte (continuation_ascii hascii)⟩
      · cases h
  | codepoint missing sofar high =>
    obtain ⟨hmissing, hsofar, hhigh⟩ := htracked
    simp only [stringStep] at h
    split at h
    · cases h
    · rename_i digit hdigit
      have hlt := hexValue_lt hdigit
      split_ifs at h with hlast
      · obtain rfl : missing = 1 := by omega
        exact collecting_codepointRead h (by omega) hhigh hleaves
      · cases h
        obtain ⟨more, rfl⟩ : ∃ more, missing = more + 2 := ⟨missing - 2, by omega⟩
        have hpow : 16 ^ (more + 2) = 16 * 16 ^ (more + 1) := Nat.pow_succ'
        have hmore : (16 * sofar + digit + 1) * 16 ^ (more + 1) ≤ 16 ^ 4 := by
          calc (16 * sofar + digit + 1) * 16 ^ (more + 1)
              ≤ (16 * (sofar + 1)) * 16 ^ (more + 1) := Nat.mul_le_mul_right _ (by omega)
            _ = (sofar + 1) * 16 ^ (more + 2) := by rw [hpow, Nat.mul_comm 16, Nat.mul_assoc]
            _ ≤ 16 ^ 4 := hsofar
        exact ⟨⟨by omega, hmore, hhigh⟩, hleaves⟩
  | lowBackslash high =>
    simp only [stringStep] at h
    split_ifs at h
    cases h
    exact ⟨htracked, hleaves⟩
  | lowU high =>
    simp only [stringStep] at h
    split_ifs at h
    cases h
    refine ⟨⟨by decide, by decide, ?_⟩, hleaves⟩
    intro first hfirst
    obtain rfl := Option.mem_some.mp hfirst
    exact htracked
  | bytes range ranges =>
    simp only [stringStep] at h
    split_ifs at h with hcontains
    have hadvance : advance (range :: ranges) c = some ranges := if_pos hcontains
    split at h
    · cases h
      exact ⟨trivial, hleaves.byte hadvance⟩
    · cases h
      exact ⟨trivial, hleaves.byte hadvance⟩

theorem missingIn_of_closing (h : stringStep state c lexer = .closingQuote) :
    missingIn state = [] := by
  cases state with
  | bytes range ranges =>
    simp only [stringStep] at h
    split_ifs at h
    split at h <;> cases h
  | _ => rfl

/-- The text of a string that has been scanned is well-formed UTF-8. -/
theorem scanStringFrom_wellFormed (hcollecting : Collecting state lexer)
    (h : (scanStringFrom state input lexer).1 = .valueString) :
    WellFormed (scanStringFrom state input lexer).2.tokenBuffer := by
  induction input generalizing state lexer with
  | nil => cases h
  | cons c rest ih =>
    have hgot : Collecting state (lexer.got (some c)) := ⟨hcollecting.tracked, hcollecting.leaves⟩
    rw [scanStringFrom] at h ⊢
    cases hstep : stringStep state c (lexer.got (some c)) with
    | next next lexer' =>
      rw [hstep] at h
      exact ih (collecting_step hgot hstep) h
    | closingQuote =>
      have hplain := missingIn_of_closing hstep
      have hleaves := hcollecting.leaves
      rw [hplain] at hleaves
      exact hleaves.wellFormed
    | error message =>
      rw [hstep] at h
      cases h

end Strings

section Tokens

variable {host : Host} {lexer : Lexer} {input text : Bytes} {type : TokenType}

theorem convertNumber_ne_string : (convertNumber host type lexer).1 ≠ .valueString := by
  unfold convertNumber
  split_ifs <;> simp

theorem scanNumberFrom_ne_string (state : NumberState) :
    (scanNumberFrom host state type input lexer).1 ≠ .valueString := by
  have hdone : ∀ (state : NumberState) type input lexer,
      (numberDone host state type input lexer).1 ≠ .valueString := by
    intro state type input lexer
    unfold numberDone
    cases state.stopped with
    | some error => simp [Lexer.fail]
    | none => exact convertNumber_ne_string
  induction input generalizing state type lexer with
  | nil => exact hdone _ _ _ _
  | cons c rest ih =>
    rw [scanNumberFrom]
    cases state.next c with
    | some next => exact ih next
    | none => exact hdone _ _ _ _

theorem structural_ne_string {c : UInt8} {token : TokenType} (h : structural c = some token) :
    token ≠ .valueString := by
  rintro rfl
  unfold structural at h
  split_ifs at h <;> cases h

theorem scanLiteral_ne_string (htype : type ≠ .valueString) :
    (scanLiteral type text input lexer).1 ≠ .valueString := by
  rcases @scanLiteral_token lexer input text type with hsame | herror
  · rw [hsame]
    exact htype
  · rw [herror]
    decide

theorem scanToken_string (h : (scanToken host lexer).1 = .valueString) :
    WellFormed (scanToken host lexer).2.tokenBuffer := by
  unfold scanToken at h ⊢
  cases hcurrent : lexer.current with
  | none =>
    simp only [hcurrent] at h
    exact absurd h (by decide)
  | some c =>
    cases hc : structural c with
    | some token =>
      simp only [hcurrent, hc] at h
      exact absurd h (structural_ne_string hc)
    | none =>
      simp only [hcurrent, hc] at h ⊢
      split at h
      · exact absurd h (scanLiteral_ne_string (by decide))
      split at h
      · exact absurd h (scanLiteral_ne_string (by decide))
      split at h
      · exact absurd h (scanLiteral_ne_string (by decide))
      split at h
      · rename_i h1 h2 h3 hquote
        rw [if_neg h1, if_neg h2, if_neg h3, if_pos hquote]
        exact scanStringFrom_wellFormed ⟨trivial, leaves_nil⟩ h
      split at h
      · exact absurd h (scanNumberFrom_ne_string _)
      split at h <;> simp at h

theorem scan_string_wellFormed (h : (scan host lexer).1 = .valueString) :
    WellFormed (scan host lexer).2.tokenBuffer := by
  obtain ⟨started, -, htoken | hbom⟩ := scan_eq host lexer
  · rw [htoken] at h ⊢
    exact scanToken_string h
  · rw [hbom] at h
    simp at h

end Tokens

section Values

variable {host : Host} {p q : Parser} {value : Json} {members : Members} {elements : List Json}
  {key text : Bytes}

/-- A value of JSON without infinities. -/
structure Sound (value : Json) : Prop where
  proper : Proper value
  finite : FiniteDoubles value

theorem sound_array (h : ∀ element ∈ elements, Sound element) : Sound (.array elements) where
  proper := by
    intro part hpart
    cases hpart with
    | self => trivial
    | element helement hpart => exact (h _ helement).proper part hpart
  finite := finite_array.mpr (fun element helement => (h element helement).finite)

theorem sound_object (hnode : ProperNode (.object members))
    (h : ∀ member ∈ members, Sound member.2) : Sound (.object members) where
  proper := proper_object hnode (fun member hmember => (h member hmember).proper)
  finite := finite_object.mpr (fun member hmember => (h member hmember).finite)

/-- A value without parts. -/
theorem sound_scalar (hparts : ∀ part, Occurs part value → part = value)
    (hnode : ProperNode value) (hfinite : ∀ x, value = .numberFloat x → x.isFinite = true) :
    Sound value where
  proper := by
    intro part hpart
    rw [hparts part hpart]
    exact hnode
  finite := by
    intro x hx
    exact hfinite x (hparts _ hx).symm

theorem mem_assign {member : Bytes × Json} (h : member ∈ Members.assign key value members) :
    member = (key, value) ∨ member ∈ members := by
  unfold Members.assign at h
  induction members with
  | nil => exact Or.inl (List.mem_singleton.mp h)
  | cons first members ih =>
    obtain ⟨other, held⟩ := first
    rw [Members.upsert] at h
    split_ifs at h
    · exact (List.mem_cons.mp h).imp id (List.mem_cons_of_mem _)
    · exact List.mem_cons.mp h
    · rcases List.mem_cons.mp h with rfl | hmore
      · exact Or.inr List.mem_cons_self
      · exact (ih hmore).imp id (List.mem_cons_of_mem _)

theorem sortedKeys_assign (h : SortedKeys members) :
    SortedKeys (Members.assign key value members) := by
  induction members with
  | nil => exact List.pairwise_singleton _ _
  | cons first members ih =>
    obtain ⟨other, held⟩ := first
    obtain ⟨hless, hmore⟩ := sortedKeys_cons.mp h
    unfold Members.assign
    rw [Members.upsert]
    split_ifs with heq hbefore
    · rw [heq]
      exact sortedKeys_cons.mpr ⟨hless, hmore⟩
    · apply sortedKeys_cons.mpr
      refine ⟨?_, h⟩
      intro member hmember
      rcases List.mem_cons.mp hmember with rfl | hmember
      · exact hbefore
      · exact List.lt_trans hbefore (hless member hmember)
    · apply sortedKeys_cons.mpr
      refine ⟨?_, ih hmore⟩
      intro member hmember
      rcases mem_assign hmember with rfl | hmember
      · exact (List.le_iff_lt_or_eq.mp (List.not_lt.mp hbefore)).resolve_right (Ne.symm heq)
      · exact hless member hmember

theorem sound_assign (hobject : Sound (.object members)) (hkey : WellFormed key)
    (hvalue : Sound value) : Sound (.object (Members.assign key value members)) := by
  obtain ⟨hsorted, hkeys⟩ := hobject.proper _ .self
  apply sound_object
  · refine ⟨sortedKeys_assign hsorted, ?_⟩
    intro member hmember
    rcases mem_assign hmember with rfl | hmember
    · exact hkey
    · exact hkeys member hmember
  · intro member hmember
    rcases mem_assign hmember with rfl | hmember
    · exact hvalue
    · exact ⟨proper_member hobject.proper hmember, finite_object.mp hobject.finite _ hmember⟩

/-- What an open container holds so far. -/
def SoundFrame : Frame → Prop
  | .array elements => ∀ element ∈ elements, Sound element
  | .object members key => Sound (.object members) ∧ WellFormed key

def SoundPhase : Phase → Prop
  | .value => True
  | .evaluation value => Sound value

/-- The text of a string token is well formed. -/
def ReadsUtf8 (p : Parser) : Prop :=
  p.lastToken = .valueString → WellFormed p.lexer.tokenBuffer

theorem readsUtf8_getToken : ReadsUtf8 (getToken host p) := scan_string_wellFormed

/-- If a result is a value, the value is sound. -/
def SoundResult (result : ParseResult) : Prop := ∀ value q, result = .ok value q → Sound value

theorem soundResult_syntaxError (expected : TokenType) (context : Bytes) :
    SoundResult (syntaxError expected context p) := by
  intro value q h
  cases h

theorem soundResult_overflow : SoundResult (numberOverflow p) := by
  intro value q h
  cases h

theorem sound_empty_object : Sound (.object []) :=
  sound_object ⟨List.Pairwise.nil, by simp⟩ (by simp)

theorem sound_empty_array : Sound (.array []) := sound_array (by simp)

theorem soundFrames_cons {frame : Frame} {frames : List Frame} :
    (∀ next ∈ frame :: frames, SoundFrame next) ↔
      SoundFrame frame ∧ ∀ next ∈ frames, SoundFrame next := List.forall_mem_cons

theorem sound_snoc (helements : ∀ element ∈ elements, Sound element) (hvalue : Sound value) :
    ∀ element ∈ elements ++ [value], Sound element := by
  intro element helement
  rcases List.mem_append.mp helement with hmem | hmem
  · exact helements element hmem
  · obtain rfl := List.mem_singleton.mp hmem
    exact hvalue

theorem sound_token (hscalar : ∀ part, Occurs part value → part = value)
    (hnode : ProperNode value) (hfinite : ∀ x, value ≠ .numberFloat x) : Sound value :=
  sound_scalar hscalar hnode (fun x hx => absurd hx (hfinite x))

/-- The loop keeps the open containers sound: every token it takes as a value is
sound, and so is every key. -/
theorem saxParseInternal_sound {frames : List Frame} {phase : Phase} (hp : ReadsUtf8 p)
    (hframes : ∀ frame ∈ frames, SoundFrame frame) (hphase : SoundPhase phase) :
    SoundResult (saxParseInternal host p frames phase) := by
  fun_induction saxParseInternal host p frames phase
  case case1 ih => exact ih readsUtf8_getToken hframes sound_empty_object
  case case2 key _ hkey _ _ ih =>
    have hwell : WellFormed key.lexer.tokenBuffer := readsUtf8_getToken hkey
    refine ih readsUtf8_getToken ?_ trivial
    exact soundFrames_cons.mpr ⟨⟨sound_empty_object, hwell⟩, hframes⟩
  case case5 ih => exact ih readsUtf8_getToken hframes sound_empty_array
  case case6 ih =>
    have hopen : SoundFrame (.array []) := by
      intro element helement
      cases helement
    exact ih readsUtf8_getToken (soundFrames_cons.mpr ⟨hopen, hframes⟩) trivial
  case case7 hfinite ih =>
    refine ih hp hframes (sound_scalar ?_ trivial ?_)
    · intro part hpart
      cases hpart
      rfl
    · intro x hx
      cases hx
      exact hfinite
  case case8 => exact soundResult_overflow
  case case13 lexer frames ih =>
    have htext : WellFormed lexer.tokenBuffer := hp rfl
    refine ih hp hframes (sound_token ?_ htext (by simp))
    intro part hpart
    cases hpart
    rfl
  case case17 =>
    intro value q h
    obtain ⟨rfl, -⟩ := EStateM.Result.ok.inj h
    exact hphase
  case case18 ih =>
    obtain ⟨hopen, houter⟩ := soundFrames_cons.mp hframes
    have hmore := sound_snoc hopen hphase
    exact ih readsUtf8_getToken (soundFrames_cons.mpr ⟨hmore, houter⟩) trivial
  case case19 ih =>
    obtain ⟨hopen, houter⟩ := soundFrames_cons.mp hframes
    exact ih readsUtf8_getToken houter (sound_array (sound_snoc hopen hphase))
  case case21 ih =>
    rename_i hkey _ _
    obtain ⟨⟨hopen, hown⟩, houter⟩ := soundFrames_cons.mp hframes
    have hmore := sound_assign hopen hown hphase
    exact ih readsUtf8_getToken
      (soundFrames_cons.mpr ⟨⟨hmore, readsUtf8_getToken hkey⟩, houter⟩) trivial
  case case24 ih =>
    obtain ⟨⟨hopen, hown⟩, houter⟩ := soundFrames_cons.mp hframes
    exact ih readsUtf8_getToken houter (sound_assign hopen hown hphase)
  -- what is left is a syntax error, or a token that is a value without parts
  all_goals first
    | with_reducible exact soundResult_syntaxError _ _
    | (rename_i ih
       refine ih hp hframes (sound_token ?_ trivial (by simp))
       intro part hpart
       cases hpart
       rfl)

/-- Whatever the text is, a value that is read from it is sound. -/
theorem parse_sound (h : parse host text = .ok value q) : Sound value := by
  have hsax := @saxParseInternal_sound host (getToken host ⟨Lexer.start text, .uninitialized⟩)
    [] .value readsUtf8_getToken (by simp) trivial
  unfold parse at h
  cases hrun : saxParseInternal host (getToken host ⟨Lexer.start text, .uninitialized⟩) []
      .value with
  | error e p =>
    rw [hrun] at h
    cases h
  | ok parsed p =>
    rw [hrun] at h
    simp only at h
    split_ifs at h
    · obtain ⟨rfl, -⟩ := EStateM.Result.ok.inj h
      exact hsax parsed p hrun
    · cases h

end Values

section NormalForms

variable {host : Host} {value : Json} {text : Bytes} {q : Parser}

mutual

/-- Reading a value again does not change how it is written. -/
theorem dump_reread : ∀ value, dump host (reread value) = dump host value
  | .null => rfl
  | .object members => by rw [reread, dump, dump, dumpMembers_reread members]
  | .array elements => by rw [reread, dump, dump, dumpElements_reread elements]
  | .string _ => rfl
  | .boolean _ => rfl
  | .numberInteger v => by
    rw [reread]
    split
    · rfl
    · rename_i hv
      have hsame : v.toUInt64.toNat = v.toInt.toNat := by
        have hpositive : 0 ≤ v := by
          rw [Int64.le_iff_toInt_le]
          exact Int.not_lt.mp hv
        rw [Int64.toNat_toUInt64_of_le hpositive, Int64.toNat_toInt]
      rw [dump, dump, dumpInteger, if_neg hv, hsame]
  | .numberUnsigned _ => rfl
  | .numberFloat x => by
    rw [reread]
    split
    · rfl
    · rename_i hx
      rw [dump, dump, dumpFloat, if_neg hx]
  | .binary _ _ => rfl
  | .discarded => rfl

theorem dumpMembers_reread : ∀ members : Members,
    dumpMembers host (rereadMembers members) = dumpMembers host members
  | [] => rfl
  | (key, value) :: rest => by
    rw [rereadMembers, dumpMembers, dumpMembers, dump_reread value, dumpMembers_reread rest]

theorem dumpElements_reread : ∀ elements : List Json,
    dumpElements host (rereadElements elements) = dumpElements host elements
  | [] => rfl
  | value :: rest => by
    rw [rereadElements, dumpElements, dumpElements, dump_reread value, dumpElements_reread rest]

end

/-- Every text that is accepted has a normal form: what it means can be dumped,
the dumped text is accepted and means the same, and it is its own normal form. -/
theorem accepted_normal_form (host : Host) (hhost : RoundTrips host) (text : Bytes) (value : Json)
    (q : Parser) (h : parse host text = .ok value q) :
    ∃ normal again q', dump host value = .ok normal ∧ parse host normal = .ok again q' ∧
      Same value again ∧ dump host again = .ok normal := by
  obtain ⟨hproper, hfinite⟩ := parse_sound h
  obtain ⟨normal, q', hdump, hparse⟩ := parse_dump hhost hproper
  refine ⟨normal, reread value, q', hdump, hparse, (same_reread_iff value).mpr hfinite, ?_⟩
  rw [dump_reread, hdump]

theorem reads_space {host : Host} {value : Json} {text : Bytes} {c : UInt8}
    (hc : isSpace c = true) (h : Reads host value text) : Reads host value (c :: text) := by
  intro p rest frames hinput hrest
  obtain ⟨after, hafter, hscan⟩ := @scan_space host p.lexer (text ++ rest) c hinput hc
  have htoken : getToken host p = getToken host ⟨after, p.lastToken⟩ := by
    rw [getToken, getToken, hscan]
  rw [htoken]
  exact h ⟨after, p.lastToken⟩ rest frames hafter hrest

theorem reads_negativeZero (host : Host) : Reads host (.numberInteger 0) (ascii "-0") := by
  apply @reads_token _ _ _ .valueInteger (by simp)
  intro lexer rest hinput hrest
  obtain ⟨after, hbuffer, hafter, hscan⟩ :=
    @scan_number host lexer .valueInteger (ascii "-0") rest (by decide) hinput hrest
  have hvalue : digitsValue after.tokenBuffer.tail = 0 := by
    rw [hbuffer]
    rfl
  rw [hscan, convertNumber, if_neg (by simp), if_pos ⟨rfl, by rw [hvalue]; decide⟩, hvalue]
  refine ⟨rfl, hafter, ?_⟩
  intro frames
  rw [saxParseInternal]
  rfl

/-- Spaces, a key that is given twice, keys out of order and a negative zero; the normal
form is another text. -/
def scattered : Bytes :=
  ascii " \x7b\"b\":1,\"a\":[-0, \"x\\n\"],\"b\":\x7b\"c\": null\x7d\x7d"

def scatteredValue : Json :=
  .object [(ascii "a", .array [.numberInteger 0, .string (ascii "x\n")]),
    (ascii "b", .object [(ascii "c", .null)])]

theorem reads_scattered (host : Host) : Reads host scatteredValue scattered := by
  have hspace : isSpace 32 = true := rfl
  have hinner : ReadsMember host (ascii "c", .null) (ascii "\"c\": null") :=
    ⟨ascii "c", ascii " null", rfl, reads_space hspace reads_null, rfl⟩
  have hlast : ReadsMember host (ascii "b", .object [(ascii "c", .null)])
      (ascii "\"b\":\x7b\"c\": null\x7d") :=
    ⟨ascii "b", ascii "\x7b\"c\": null\x7d", rfl, reads_object (.cons hinner .nil), rfl⟩
  have hstring : Reads host (.string (ascii "x\n")) (ascii " \"x\\n\"") :=
    reads_space hspace (@reads_string host (ascii "x\n") (ascii "x\\n") rfl)
  have hmiddle : ReadsMember host
      (ascii "a", .array [.numberInteger 0, .string (ascii "x\n")])
      (ascii "\"a\":[-0, \"x\\n\"]") :=
    ⟨ascii "a", ascii "[-0, \"x\\n\"]", rfl,
      reads_array (.cons (reads_negativeZero host) (.cons hstring .nil)), rfl⟩
  have hfirst : ReadsMember host (ascii "b", .numberUnsigned 1) (ascii "\"b\":1") :=
    ⟨ascii "b", ascii "1", rfl, reads_unsigned 1, rfl⟩
  exact reads_space hspace (reads_object (.cons hfirst (.cons hmiddle (.cons hlast .nil))))

theorem accepted_normal_form_scattered : ∃ normal again q',
    dump bitsHost scatteredValue = .ok normal ∧ parse bitsHost normal = .ok again q' ∧
      Same scatteredValue again ∧ dump bitsHost again = .ok normal := by
  obtain ⟨q, hparse⟩ := parse_of_reads (reads_scattered bitsHost)
  exact accepted_normal_form bitsHost bitsHost_roundTrips scattered scatteredValue q hparse

end NormalForms

end BeastServer.AcceptedTexts
