import BeastServer.JsonSerializers
import BeastServer.JsonParsers

/-!
The tokens of dumped texts.
What the serializer writes is read back by the lexer: a string comes out of its
escapes as it was, a number stops where the text of the value stops, and the
literals and the structural characters stand for themselves. A dumped text has
no blanks and begins with an ASCII character, so neither the byte order mark
nor the whitespace is ever looked for in vain.
-/
namespace BeastServer.JsonTokens

open ByteStrings Exceptions JsonValues JsonLexers JsonSerializers Utf8

section Starts

variable {host : Host} {lexer : Lexer} {rest : Bytes} {c : UInt8}

/-- Characters that begin a token. -/
def Begins (c : UInt8) : Prop := isSpace c = false ∧ c ≠ 0xEF

instance (c : UInt8) : Decidable (Begins c) := inferInstanceAs (Decidable (_ ∧ _))

theorem skipBom_input (h : lexer.input.head? ≠ some 0xEF) :
    (skipBom lexer).1 = true ∧ (skipBom lexer).2.input = lexer.input := by
  have hcurrent : lexer.get.current ≠ some 0xEF := h
  unfold skipBom
  rw [if_neg hcurrent]
  exact ⟨rfl, head_append_tail lexer.input⟩

/-- Without a byte order mark a token is looked for at once. -/
theorem scan_started (h : lexer.input.head? ≠ some 0xEF) :
    ∃ started : Lexer, started.input = lexer.input ∧
      scan host lexer = scanToken host (skipWhitespace started.input started) := by
  have hskip : ∀ start : Bool × Lexer, start.1 = true →
      (if start.1 = true then scanToken host (skipWhitespace start.2.input start.2)
        else start.2.fail .invalidBom start.2.input) =
          scanToken host (skipWhitespace start.2.input start.2) :=
    fun _ hskipped => if_pos hskipped
  unfold scan
  by_cases hfirst : lexer.position.charsReadTotal = 0
  · obtain ⟨hskipped, hinput⟩ := skipBom_input h
    rw [if_pos hfirst]
    exact ⟨(skipBom lexer).2, hinput, hskip _ hskipped⟩
  · rw [if_neg hfirst]
    exact ⟨lexer, rfl, hskip (true, lexer) rfl⟩

/-- The scan goes straight to the token that begins with the next character. -/
theorem scan_begins (hinput : lexer.input = c :: rest) (hc : Begins c) :
    ∃ started : Lexer, started.current = some c ∧ started.input = rest ∧
      scan host lexer = scanToken host started := by
  have hhead : lexer.input.head? ≠ some 0xEF := by
    rw [hinput]
    intro heq
    exact hc.2 (Option.some.inj heq)
  obtain ⟨started, hstarted, hscan⟩ := @scan_started host lexer hhead
  refine ⟨{ started.got (some c) with input := rest }, rfl, rfl, ?_⟩
  rw [hscan, hstarted, hinput, skipWhitespace, hc.1]
  rfl

theorem skipWhitespace_same (input other : Bytes) (lexer : Lexer) :
    skipWhitespace input { lexer with input := other } = skipWhitespace input lexer := by
  induction input generalizing lexer with
  | nil => rfl
  | cons c rest ih =>
    rw [skipWhitespace, skipWhitespace]
    split
    · exact ih (lexer.got (some c))
    · rfl

/-- The scan does not stop at a space. -/
theorem scan_space (hinput : lexer.input = c :: rest) (hc : isSpace c = true) :
    ∃ after : Lexer, after.input = rest ∧ scan host lexer = scan host after := by
  have hhead : lexer.input.head? ≠ some 0xEF := by
    rw [hinput]
    intro heq
    obtain rfl := Option.some.inj heq
    cases hc
  obtain ⟨started, hstarted, hscan⟩ := @scan_started host lexer hhead
  refine ⟨{ started.got (some c) with input := rest }, rfl, ?_⟩
  rw [hscan, hstarted, hinput, skipWhitespace, if_pos hc]
  exact congrArg (scanToken host) (skipWhitespace_same rest rest (started.got (some c))).symm

/-- Nothing is left to read. -/
theorem scan_end (hinput : lexer.input = []) : (scan host lexer).1 = .endOfInput := by
  have hhead : lexer.input.head? ≠ some 0xEF := by
    rw [hinput]
    simp
  obtain ⟨started, hstarted, hscan⟩ := @scan_started host lexer hhead
  rw [hscan, hstarted, hinput]
  rfl

theorem begins_structural {token : TokenType} (h : structural c = some token) : Begins c := by
  unfold structural at h
  split_ifs at h <;> subst c <;> decide

theorem scan_structural {token : TokenType} (hc : structural c = some token)
    (hinput : lexer.input = c :: rest) :
    (scan host lexer).1 = token ∧ (scan host lexer).2.input = rest := by
  obtain ⟨started, hcurrent, hrest, hscan⟩ :=
    @scan_begins host lexer rest c hinput (begins_structural hc)
  rw [hscan, scanToken, hcurrent]
  simp only [hc]
  exact ⟨trivial, hrest⟩

end Starts

section Literals

variable {host : Host} {lexer : Lexer} {rest text : Bytes} {type : TokenType}

theorem scanLiteral_text : (scanLiteral type text (text ++ rest) lexer).1 = type ∧
    (scanLiteral type text (text ++ rest) lexer).2.input = rest := by
  induction text generalizing lexer with
  | nil => exact ⟨rfl, rfl⟩
  | cons c text ih =>
    rw [List.cons_append, scanLiteral, if_pos rfl]
    exact ih

theorem scan_true (hinput : lexer.input = ascii "true" ++ rest) :
    (scan host lexer).1 = .literalTrue ∧ (scan host lexer).2.input = rest := by
  obtain ⟨started, hcurrent, hrest, hscan⟩ :=
    @scan_begins host lexer (ascii "rue" ++ rest) 116 hinput (by decide)
  rw [hscan, scanToken, hcurrent, hrest]
  exact scanLiteral_text

theorem scan_false (hinput : lexer.input = ascii "false" ++ rest) :
    (scan host lexer).1 = .literalFalse ∧ (scan host lexer).2.input = rest := by
  obtain ⟨started, hcurrent, hrest, hscan⟩ :=
    @scan_begins host lexer (ascii "alse" ++ rest) 102 hinput (by decide)
  rw [hscan, scanToken, hcurrent, hrest]
  exact scanLiteral_text

theorem scan_null (hinput : lexer.input = ascii "null" ++ rest) :
    (scan host lexer).1 = .literalNull ∧ (scan host lexer).2.input = rest := by
  obtain ⟨started, hcurrent, hrest, hscan⟩ :=
    @scan_begins host lexer (ascii "ull" ++ rest) 110 hinput (by decide)
  rw [hscan, scanToken, hcurrent, hrest]
  exact scanLiteral_text

end Literals

section Strings

/-- The scanner goes over the text from one state to the next and adds the bytes. -/
def Adds (state : StringState) (text : Bytes) (next : StringState) (bytes : Bytes) : Prop :=
  ∀ lexer : Lexer, ∃ after : Lexer, after.tokenBuffer = lexer.tokenBuffer ++ bytes ∧
    ∀ rest, scanStringFrom state (text ++ rest) lexer = scanStringFrom next rest after

variable {state next last : StringState} {first second bytes more : Bytes} {c : UInt8}

theorem adds_nil : Adds state [] state [] := by
  intro lexer
  exact ⟨lexer, (List.append_nil _).symm, fun _ => rfl⟩

theorem Adds.trans (h : Adds state first next bytes) (h' : Adds next second last more) :
    Adds state (first ++ second) last (bytes ++ more) := by
  intro lexer
  obtain ⟨between, hbetween, hfirst⟩ := h lexer
  obtain ⟨after, hafter, hsecond⟩ := h' between
  refine ⟨after, ?_, ?_⟩
  · rw [hafter, hbetween, List.append_assoc]
  · intro rest
    rw [List.append_assoc, hfirst, hsecond]

/-- One character, by the step of the scanner. -/
theorem adds_step (h : ∀ lexer : Lexer, ∃ after : Lexer,
    after.tokenBuffer = lexer.tokenBuffer ++ bytes ∧ stringStep state c lexer = .next next after) :
    Adds state [c] next bytes := by
  intro lexer
  obtain ⟨after, hafter, hstep⟩ := h (lexer.got (some c))
  refine ⟨after, hafter, ?_⟩
  intro rest
  rw [List.singleton_append, scanStringFrom, hstep]

/-- A character that leaves the bytes as they are. -/
theorem adds_silently (h : ∀ lexer, stringStep state c lexer = .next next lexer) :
    Adds state [c] next [] := by
  apply adds_step
  intro lexer
  exact ⟨lexer, (List.append_nil _).symm, h lexer⟩

/-- The state of the scanner in which these ranges are missing. -/
def waiting : List Range → StringState
  | [] => .plain
  | range :: ranges => .bytes range ranges

/-- A byte that is not escaped stands for itself. -/
theorem adds_byte {ranges missing : List Range} (hadvance : advance ranges c = some missing)
    (hplain : ranges = [] → c ≠ 34 ∧ c ≠ 92 ∧ ¬ c < 0x20) :
    Adds (waiting ranges) [c] (waiting missing) [c] := by
  apply adds_step
  intro lexer
  refine ⟨lexer.add c, rfl, ?_⟩
  cases ranges with
  | nil =>
    obtain ⟨hquote, hbackslash, hcontrol⟩ := hplain rfl
    have hcontinuation : continuation c = some missing := hadvance
    simp only [waiting, stringStep, if_neg hquote, if_neg hbackslash, if_neg hcontrol,
      hcontinuation]
    cases missing <;> rfl
  | cons range ranges =>
    rw [advance, Option.ite_none_right_eq_some] at hadvance
    obtain ⟨hcontains, hmissing⟩ := hadvance
    obtain rfl := Option.some.inj hmissing
    simp only [waiting, stringStep, if_pos hcontains]
    cases ranges <;> rfl

/-- A backslash and a character. -/
theorem adds_escape {d : UInt8} (hc : c ≠ 117) (hescaped : escapedCharacter c = some d) :
    Adds .plain [92, c] .plain [d] := by
  have hbackslash : Adds .plain [92] .escaped [] := adds_silently (fun _ => rfl)
  apply hbackslash.trans
  apply adds_step
  intro lexer
  refine ⟨lexer.add d, rfl, ?_⟩
  simp only [stringStep, if_neg hc, hescaped]

theorem hexValue_hexDigits (byte : UInt8) :
    (hexDigits byte).map hexValue = [some (byte.toNat / 16), some (byte.toNat % 16)] := by
  revert byte
  apply forall_byte
  decide +kernel

/-- An ASCII character by its code point. -/
theorem adds_codepoint (hc : c < 128) : Adds .plain (ascii "\\u00" ++ hexDigits c) .plain [c] := by
  obtain ⟨hhigh, hlow⟩ : hexValue (Nat.digitChar (c.toNat / 16)).toUInt8 = some (c.toNat / 16) ∧
      hexValue (Nat.digitChar (c.toNat % 16)).toUInt8 = some (c.toNat % 16) := by
    simpa [hexDigits] using hexValue_hexDigits c
  have hstart : Adds .plain (ascii "\\u00") (.codepoint 2 0 none) [] := by
    have hbackslash : Adds .plain [92] .escaped [] := adds_silently (fun _ => rfl)
    have hu : Adds .escaped [117] (.codepoint 4 0 none) [] := adds_silently (fun _ => rfl)
    have hzero : Adds (.codepoint 4 0 none) [48] (.codepoint 3 0 none) [] :=
      adds_silently (fun _ => rfl)
    have hzero' : Adds (.codepoint 3 0 none) [48] (.codepoint 2 0 none) [] :=
      adds_silently (fun _ => rfl)
    exact hbackslash.trans (hu.trans (hzero.trans hzero'))
  apply hstart.trans
  have hfirst : Adds (.codepoint 2 0 none) [(Nat.digitChar (c.toNat / 16)).toUInt8]
      (.codepoint 1 (c.toNat / 16) none) [] := by
    apply adds_silently
    intro lexer
    simp [stringStep, hhigh]
  apply hfirst.trans
  apply adds_step
  intro lexer
  have hwhole : 16 * (c.toNat / 16) + c.toNat % 16 = c.toNat := Nat.div_add_mod _ _
  have hlt : c.toNat < 128 := UInt8.lt_iff_toNat_lt.mp hc
  refine ⟨addCodepoint c.toNat lexer, ?_, ?_⟩
  · simp [addCodepoint, encodeCodepoint, hlt]
  · simp only [stringStep, hlow, hwhole, codepointRead]
    rw [if_pos le_rfl, if_neg (by omega), if_neg (by omega)]

/-- What is written for an ASCII character is read back as that character. -/
theorem adds_escapeCharacter (hc : c < 128) :
    Adds .plain (escapeCharacter c.toUInt32 c) .plain [c] := by
  have hshort : ∀ d e : UInt8, e ≠ 117 → escapedCharacter e = some d →
      c.toUInt32 = d.toUInt32 → Adds .plain [92, e] .plain [c] := by
    intro d e he hescaped h
    have hnat := congrArg UInt32.toNat h
    simp only [UInt8.toNat_toUInt32] at hnat
    obtain rfl := UInt8.toNat_inj.mp hnat
    exact adds_escape he hescaped
  unfold escapeCharacter
  split
  · rename_i h
    exact hshort 8 98 (by decide) rfl h
  split
  · rename_i h
    exact hshort 9 116 (by decide) rfl h
  split
  · rename_i h
    exact hshort 10 110 (by decide) rfl h
  split
  · rename_i h
    exact hshort 12 102 (by decide) rfl h
  split
  · rename_i h
    exact hshort 13 114 (by decide) rfl h
  split
  · rename_i h
    exact hshort 34 34 (by decide) rfl h
  split
  · rename_i h
    exact hshort 92 92 (by decide) rfl h
  split
  · exact adds_codepoint hc
  · rename_i hquote hbackslash hcontrol
    have hplain : c ≠ 34 ∧ c ≠ 92 ∧ ¬ c < 0x20 := by
      refine ⟨?_, ?_, ?_⟩
      · rintro rfl
        exact hquote rfl
      · rintro rfl
        exact hbackslash rfl
      · intro hlow
        apply hcontrol
        rw [UInt32.le_iff_toNat_le, UInt8.toNat_toUInt32]
        rw [UInt8.lt_iff_toNat_lt] at hlow
        show c.toNat ≤ 31
        have hlow' : c.toNat < 32 := hlow
        omega
    exact @adds_byte c [] [] (continuation_ascii hc) (fun _ => hplain)

/-- The characters from the delete character on have no escapes. -/
theorem escapeCharacter_high {codepoint : UInt32} (h : 128 ≤ codepoint.toNat) (byte : UInt8) :
    escapeCharacter codepoint byte = [byte] := by
  have hne : ∀ d : UInt32, d.toNat < 128 → codepoint ≠ d := by
    rintro d hd rfl
    omega
  have hcontrol : ¬ codepoint ≤ 0x1F := by
    rw [UInt32.le_iff_toNat_le]
    show ¬ codepoint.toNat ≤ 31
    omega
  unfold escapeCharacter
  rw [if_neg (hne _ (by decide)), if_neg (hne _ (by decide)), if_neg (hne _ (by decide)),
    if_neg (hne _ (by decide)), if_neg (hne _ (by decide)), if_neg (hne _ (by decide)),
    if_neg (hne _ (by decide)), if_neg hcontrol]

/-- The least code point of which a state can be a part. -/
def leastSofar : ℕ → ℕ
  | 2 => 2
  | 3 => 1
  | 5 => 1
  | 7 => 1
  | 8 => 1
  | _ => 0

/-- The greatest one. -/
def greatestSofar : ℕ → ℕ
  | 2 => 32767
  | 3 => 511
  | 4 => 511
  | 5 => 511
  | _ => 7

/-- What has been read of a code point lies in the bounds of the state. -/
def Bounded (state : ℕ) (codep : UInt32) : Prop :=
  state = utf8Accept ∨ (leastSofar state ≤ codep.toNat ∧ codep.toNat ≤ greatestSofar state)

theorem greatestSofar_le (state : ℕ) : greatestSofar state ≤ 32767 := by
  unfold greatestSofar
  split <;> omega

theorem decodeCodepoint_toNat {state : ℕ} {codep : UInt32} {byte : UInt8}
    (hstate : state ≠ utf8Accept) (hcodep : codep.toNat ≤ 32767) :
    (decodeCodepoint state codep byte).toNat = 64 * codep.toNat + byte.toNat % 64 := by
  have hshift : (codep <<< (6 : UInt32)).toNat = codep.toNat <<< 6 := by
    rw [UInt32.toNat_shiftLeft, Nat.mod_eq_of_lt]
    · rfl
    · rw [Nat.shiftLeft_eq]
      show codep.toNat * 2 ^ 6 < 2 ^ 32
      omega
  have hlow : (byte.toUInt32 &&& (0x3f : UInt32)).toNat = byte.toNat % 2 ^ 6 := by
    rw [UInt32.toNat_and, UInt8.toNat_toUInt32]
    exact Nat.and_two_pow_sub_one_eq_mod byte.toNat 6
  have hlt : byte.toNat % 2 ^ 6 < 2 ^ 6 := Nat.mod_lt _ (by decide)
  unfold decodeCodepoint
  rw [if_pos hstate, UInt32.toNat_or, hshift, hlow, Nat.or_comm,
    ← Nat.shiftLeft_add_eq_or_of_lt hlt, Nat.shiftLeft_eq]
  omega

/-- The first byte of a character. -/
theorem bounded_first {codep : UInt32} {byte : UInt8}
    (hvalid : decodeState utf8Accept byte ≠ utf8Reject) :
    (decodeState utf8Accept byte = utf8Accept → byte < 128 ∧
      decodeCodepoint utf8Accept codep byte = byte.toUInt32) ∧
    (decodeState utf8Accept byte ≠ utf8Accept → ¬ byte < 128) ∧
      Bounded (decodeState utf8Accept byte) (decodeCodepoint utf8Accept codep byte) := by
  have hall : ∀ byte, decodeState utf8Accept byte ≠ utf8Reject →
      (decodeState utf8Accept byte = utf8Accept → byte < 128 ∧
        decodeCodepoint utf8Accept 0 byte = byte.toUInt32) ∧
      (decodeState utf8Accept byte ≠ utf8Accept → ¬ byte < 128) ∧
      (decodeState utf8Accept byte = utf8Accept ∨
        (leastSofar (decodeState utf8Accept byte) ≤ (decodeCodepoint utf8Accept 0 byte).toNat ∧
          (decodeCodepoint utf8Accept 0 byte).toNat ≤
            greatestSofar (decodeState utf8Accept byte))) := by
    apply forall_byte
    decide +kernel
  exact hall byte hvalid

/-- Every other byte of a character. -/
theorem bounded_later {state : ℕ} {codep : UInt32} {byte : UInt8} (hstate : state ≤ 8)
    (hvalid : state ≠ utf8Reject) (hlater : state ≠ utf8Accept)
    (hnext : decodeState state byte ≠ utf8Reject) (hcodep : Bounded state codep) :
    (decodeState state byte = utf8Accept → 128 ≤ (decodeCodepoint state codep byte).toNat) ∧
      Bounded (decodeState state byte) (decodeCodepoint state codep byte) := by
  have hall : ∀ byte, ∀ k < 7, decodeState (k + 2) byte ≠ utf8Reject →
      (decodeState (k + 2) byte = utf8Accept → 2 ≤ leastSofar (k + 2)) ∧
      (decodeState (k + 2) byte ≠ utf8Accept →
        leastSofar (decodeState (k + 2) byte) ≤ 64 * leastSofar (k + 2) + byte.toNat % 64 ∧
          64 * greatestSofar (k + 2) + 63 ≤ greatestSofar (decodeState (k + 2) byte)) := by
    apply forall_byte
    decide +kernel
  obtain ⟨k, rfl⟩ : ∃ k, state = k + 2 := by
    have hzero : state ≠ 0 := hlater
    have hone : state ≠ 1 := hvalid
    exact ⟨state - 2, by omega⟩
  obtain ⟨hends, hgoes⟩ := hall byte k (by omega) hnext
  obtain ⟨hleast, hgreatest⟩ := hcodep.resolve_left hlater
  have hsmall := greatestSofar_le (k + 2)
  have hcodepoint := @decodeCodepoint_toNat (k + 2) codep byte hlater (by omega)
  refine ⟨?_, ?_⟩
  · intro haccept
    have htwo := hends haccept
    omega
  · by_cases haccept : decodeState (k + 2) byte = utf8Accept
    · exact Or.inl haccept
    · obtain ⟨hlow, hhigh⟩ := hgoes haccept
      exact Or.inr ⟨by omega, by omega⟩

/-- What is written for one byte, in any state of the automaton. -/
theorem adds_character {state : ℕ} {codep : UInt32} {byte : UInt8} (hstate : state ≤ 8)
    (hvalid : state ≠ utf8Reject) (hcodep : Bounded state codep)
    (hnext : decodeState state byte ≠ utf8Reject) :
    Adds (waiting (missing state))
        (if decodeState state byte = utf8Accept then
          escapeCharacter (decodeCodepoint state codep byte) byte else [byte])
        (waiting (missing (decodeState state byte))) [byte] ∧
      Bounded (decodeState state byte) (decodeCodepoint state codep byte) := by
  obtain ⟨-, hadvance⟩ := decodeState_missing byte hstate hvalid
  rw [if_neg hnext] at hadvance
  by_cases haccept : state = utf8Accept
  · rw [haccept] at hadvance hnext ⊢
    obtain ⟨hends, hgoes, hbounded⟩ := @bounded_first codep byte hnext
    refine ⟨?_, hbounded⟩
    by_cases hlast : decodeState utf8Accept byte = utf8Accept
    · obtain ⟨hascii, hsame⟩ := hends hlast
      rw [if_pos hlast, hlast, hsame]
      exact adds_escapeCharacter hascii
    · have hhigh := hgoes hlast
      rw [if_neg hlast]
      apply adds_byte hadvance
      intro _
      refine ⟨?_, ?_, ?_⟩
      · rintro rfl
        exact hhigh (by decide)
      · rintro rfl
        exact hhigh (by decide)
      · intro hlow
        exact hhigh (UInt8.lt_trans hlow (by decide))
  · obtain ⟨hends, hbounded⟩ := bounded_later hstate hvalid haccept hnext hcodep
    refine ⟨?_, hbounded⟩
    have hsame : (if decodeState state byte = utf8Accept then
        escapeCharacter (decodeCodepoint state codep byte) byte else [byte]) = [byte] := by
      split
      · rename_i hlast
        exact escapeCharacter_high (hends hlast) byte
      · rfl
    rw [hsame]
    apply adds_byte hadvance
    intro hnil
    exact absurd hnil (missing_ne_nil hstate hvalid haccept)

/-- A string that is written from some state of the automaton is read back from
the corresponding state of the scanner. -/
theorem adds_dumpEscapedFrom {i state : ℕ} {before : UInt8} {codep : UInt32} {written : Bytes}
    (hstate : state ≤ 8) (hvalid : state ≠ utf8Reject) (hcodep : Bounded state codep)
    (h : dumpEscapedFrom i before state codep bytes = .ok written) :
    Adds (waiting (missing state)) written .plain bytes := by
  induction bytes generalizing i state before codep written with
  | nil =>
    rw [dumpEscapedFrom] at h
    split_ifs at h with haccept
    obtain rfl := Except.ok.inj h
    rw [haccept]
    exact adds_nil
  | cons byte rest ih =>
    rw [dumpEscapedFrom] at h
    by_cases hreject : decodeState state byte = utf8Reject
    · simp only [hreject, if_true] at h
      cases h
    simp only [hreject, if_false] at h
    cases hrest : dumpEscapedFrom (i + 1) byte (decodeState state byte)
      (decodeCodepoint state codep byte) rest with
    | error e =>
      rw [hrest] at h
      cases h
    | ok more =>
      rw [hrest] at h
      obtain rfl := Except.ok.inj h
      obtain ⟨hcharacter, hbounded⟩ := adds_character hstate hvalid hcodep hreject
      have hnext := (decodeState_missing byte hstate hvalid).1
      exact hcharacter.trans (ih hnext hreject hbounded hrest)

variable {host : Host} {lexer : Lexer} {s written rest : Bytes}

/-- A dumped string is scanned as the string that it was. -/
theorem scan_string (hwritten : dumpEscaped s = .ok written)
    (hinput : lexer.input = 34 :: (written ++ 34 :: rest)) :
    (scan host lexer).1 = .valueString ∧ (scan host lexer).2.tokenBuffer = s ∧
      (scan host lexer).2.input = rest := by
  obtain ⟨started, hcurrent, hrest, hscan⟩ := @scan_begins host lexer _ 34 hinput (by decide)
  have hadds : Adds .plain written .plain s :=
    @adds_dumpEscapedFrom s 0 utf8Accept 0 0 written (by decide) (by decide) (Or.inl rfl) hwritten
  obtain ⟨after, hafter, htext⟩ := hadds started.reset
  have hstring : scan host lexer =
      (.valueString, { after.got (some 34) with input := rest }) := by
    rw [hscan, scanToken, hcurrent]
    show scanStringFrom .plain started.input started.reset = _
    rw [hrest, htext]
    rfl
  rw [hstring]
  exact ⟨rfl, hafter, rfl⟩

end Strings

section Numbers

variable {host : Host} {lexer : Lexer} {state last : NumberState} {type lastType : TokenType}
  {text more rest digits : Bytes} {c : UInt8}

/-- What may stand after a value in a dumped text. -/
def Follows (rest : Bytes) : Prop := ∀ c ∈ rest.head?, c = 44 ∨ c = 93 ∨ c = 125

theorem follows_nil : Follows [] := by
  intro c hc
  cases hc

theorem follows_cons (hc : c = 44 ∨ c = 93 ∨ c = 125) : Follows (c :: rest) := by
  intro d hd
  obtain rfl := Option.some.inj hd
  exact hc

theorem next_follows (hc : c = 44 ∨ c = 93 ∨ c = 125) : state.next c = none := by
  rcases hc with rfl | rfl | rfl <;> cases state <;> rfl

/-- The label and the type after the text, if the scanner takes all of it. -/
def labels : NumberState → TokenType → Bytes → Option (NumberState × TokenType)
  | state, type, [] => some (state, type)
  | state, type, c :: text =>
    match state.next c with
    | some next => labels next (next.numberType type) text
    | none => none

theorem labels_append (h : labels state type text = some (last, lastType)) :
    labels state type (text ++ more) = labels last lastType more := by
  induction text generalizing state type with
  | nil =>
    obtain ⟨rfl, rfl⟩ := Prod.mk.inj (Option.some.inj h)
    rfl
  | cons c text ih =>
    rw [List.cons_append, labels]
    rw [labels] at h
    cases hnext : state.next c with
    | none =>
      rw [hnext] at h
      cases h
    | some next =>
      rw [hnext] at h
      exact ih h

theorem scanNumberFrom_text (h : labels state type text = some (last, lastType))
    (hstopped : last.stopped = none) (hrest : ∀ c ∈ rest.head?, last.next c = none) :
    ∃ after : Lexer, after.tokenBuffer = lexer.tokenBuffer ++ text ∧ after.input = rest ∧
      scanNumberFrom host state type (text ++ rest) lexer = convertNumber host lastType after := by
  induction text generalizing state type lexer with
  | nil =>
    obtain ⟨rfl, rfl⟩ := Prod.mk.inj (Option.some.inj h)
    cases rest with
    | nil =>
      refine ⟨{ lexer.got none with input := [] }.unget, (List.append_nil _).symm, rfl, ?_⟩
      rw [List.nil_append, scanNumberFrom, numberDone, hstopped]
    | cons c rest =>
      refine ⟨{ lexer.got (some c) with input := rest }.unget, (List.append_nil _).symm, rfl, ?_⟩
      rw [List.nil_append, scanNumberFrom, hrest c rfl]
      simp only [numberDone, hstopped]
  | cons c text ih =>
    rw [labels] at h
    cases hnext : state.next c with
    | none =>
      rw [hnext] at h
      cases h
    | some next =>
      rw [hnext] at h
      obtain ⟨after, hbuffer, hinput, hscan⟩ := @ih ((lexer.got (some c)).add c) _ _ h
      refine ⟨after, ?_, hinput, ?_⟩
      · rw [hbuffer]
        exact List.append_assoc _ [c] text
      · rw [List.cons_append, scanNumberFrom, hnext]
        exact hscan

/-- The label after the first character of a number. -/
def firstLabel (c : UInt8) : NumberState :=
  if c = 45 then .minus else if c = 48 then .zero else .any1

/-- The type of the number that the whole text is, if it is one. -/
def numberToken : Bytes → Option TokenType
  | [] => none
  | c :: text =>
    if c = 45 ∨ isDigit c = true then
      match labels (firstLabel c) ((firstLabel c).numberType .valueUnsigned) text with
      | some (last, type) => if last.stopped = none then some type else none
      | none => none
    else none

theorem numberToken_cons (hc : c = 45 ∨ isDigit c = true)
    (h : labels (firstLabel c) ((firstLabel c).numberType .valueUnsigned) text =
      some (last, type)) (hstopped : last.stopped = none) :
    numberToken (c :: text) = some type := by
  rw [numberToken, if_pos hc, h]
  exact if_pos hstopped

theorem exists_of_numberToken (h : numberToken text = some type) :
    ∃ c more last, text = c :: more ∧ (c = 45 ∨ isDigit c = true) ∧
      labels (firstLabel c) ((firstLabel c).numberType .valueUnsigned) more =
        some (last, type) ∧ last.stopped = none := by
  cases text with
  | nil => cases h
  | cons c more =>
    rw [numberToken] at h
    split_ifs at h with hc
    cases hlabels : labels (firstLabel c) ((firstLabel c).numberType .valueUnsigned) more with
    | none =>
      rw [hlabels] at h
      cases h
    | some label =>
      obtain ⟨last, lastType⟩ := label
      rw [hlabels] at h
      obtain ⟨hstopped, htype⟩ := Option.ite_none_right_eq_some.mp h
      obtain rfl := Option.some.inj htype
      exact ⟨c, more, last, rfl, hc, hlabels, hstopped⟩

/-- No other token begins as a number does. -/
theorem scanToken_number (hcurrent : lexer.current = some c) (hc : c = 45 ∨ isDigit c = true) :
    Begins c ∧ scanToken host lexer = scanNumber host c lexer := by
  have hall : ∀ c, c = 45 ∨ isDigit c = true → Begins c ∧ structural c = none ∧ c ≠ 116 ∧
      c ≠ 102 ∧ c ≠ 110 ∧ c ≠ 34 := by
    apply forall_byte
    decide +kernel
  obtain ⟨hbegins, hstructural, htrue, hfalse, hnull, hquote⟩ := hall c hc
  refine ⟨hbegins, ?_⟩
  unfold scanToken
  rw [hcurrent]
  simp only [hstructural]
  rw [if_neg htrue, if_neg hfalse, if_neg hnull, if_neg hquote, if_pos hc]

theorem scan_number (hnumber : numberToken text = some type)
    (hinput : lexer.input = text ++ rest) (hrest : Follows rest) :
    ∃ after : Lexer, after.tokenBuffer = text ∧ after.input = rest ∧
      scan host lexer = convertNumber host type after := by
  obtain ⟨c, more, last, rfl, hc, hlabels, hstopped⟩ := exists_of_numberToken hnumber
  have hbegins : Begins c := (@scanToken_number host (lexer.got (some c)) c rfl hc).1
  obtain ⟨started, hcurrent, hleft, hscan⟩ :=
    @scan_begins host lexer (more ++ rest) c hinput hbegins
  obtain ⟨after, hbuffer, hafter, htext⟩ :=
    @scanNumberFrom_text host (started.reset.add c) _ _ _ _ more rest hlabels hstopped
      (fun d hd => next_follows (hrest d hd))
  refine ⟨after, hbuffer, hafter, ?_⟩
  rw [hscan, (scanToken_number hcurrent hc).2, ← htext, ← hleft]
  rfl

theorem labels_digits (h : ∀ c ∈ digits, isDigit c = true) :
    labels .any1 type digits = some (.any1, type) := by
  induction digits with
  | nil => rfl
  | cons c digits ih =>
    have hnext : NumberState.any1.next c = some .any1 := if_pos (h c List.mem_cons_self)
    rw [labels, hnext]
    exact ih (fun d hd => h d (List.mem_cons_of_mem c hd))

/-- A positive number is written without a leading zero. -/
theorem decimal_eq_cons {n : ℕ} (hn : 0 < n) :
    ∃ c digits, decimal n = c :: digits ∧ isDigit c = true ∧ c ≠ 48 ∧
      ∀ d ∈ digits, isDigit d = true := by
  obtain ⟨c, digits, hdecimal⟩ := List.exists_cons_of_ne_nil (decimal_ne_nil n)
  have hdigits : ∀ d ∈ c :: digits, isDigit d = true := by
    rw [← hdecimal]
    exact fun d hd => isDigit_of_mem_decimal hd
  refine ⟨c, digits, hdecimal, hdigits c List.mem_cons_self, ?_,
    fun d hd => hdigits d (List.mem_cons_of_mem c hd)⟩
  have hhead := decimal_head hn
  rw [hdecimal] at hhead
  rintro rfl
  exact hhead rfl

theorem numberToken_decimal (n : ℕ) : numberToken (decimal n) = some .valueUnsigned := by
  rcases Nat.eq_zero_or_pos n with rfl | hn
  · decide
  · obtain ⟨c, digits, hdecimal, hc, hzero, hdigits⟩ := decimal_eq_cons hn
    have hminus : c ≠ 45 := by
      rintro rfl
      cases hc
    have hfirst : firstLabel c = .any1 := by
      rw [firstLabel, if_neg hminus, if_neg hzero]
    have hlabels : labels (firstLabel c) ((firstLabel c).numberType .valueUnsigned) digits =
        some (.any1, .valueUnsigned) := by
      rw [hfirst]
      exact labels_digits hdigits
    rw [hdecimal]
    exact numberToken_cons (Or.inr hc) hlabels rfl

theorem numberToken_negative {n : ℕ} (hn : 0 < n) :
    numberToken (ascii "-" ++ decimal n) = some .valueInteger := by
  obtain ⟨c, digits, hdecimal, hc, hzero, hdigits⟩ := decimal_eq_cons hn
  have hnext : NumberState.minus.next c = some .any1 := by
    rw [NumberState.next, if_neg hzero, if_pos hc]
  have hlabels : labels .minus .valueInteger (c :: digits) = some (.any1, .valueInteger) := by
    rw [labels, hnext]
    exact labels_digits hdigits
  rw [hdecimal]
  exact @numberToken_cons _ .valueInteger _ 45 (Or.inl rfl) hlabels rfl

theorem numberToken_fraction (n : ℕ) :
    numberToken (decimal n ++ ascii ".0") = some .valueFloat := by
  rcases Nat.eq_zero_or_pos n with rfl | hn
  · decide
  · obtain ⟨c, digits, hdecimal, hc, hzero, hdigits⟩ := decimal_eq_cons hn
    have hminus : c ≠ 45 := by
      rintro rfl
      cases hc
    have hlabels : labels (firstLabel c) ((firstLabel c).numberType .valueUnsigned)
        (digits ++ ascii ".0") = some (.decimal2, .valueFloat) := by
      rw [firstLabel, if_neg hminus, if_neg hzero, labels_append (labels_digits hdigits)]
      rfl
    rw [hdecimal]
    exact numberToken_cons (Or.inr hc) hlabels rfl

theorem scan_unsigned (n : UInt64) (hinput : lexer.input = decimal n.toNat ++ rest)
    (hrest : Follows rest) :
    (scan host lexer).1 = .valueUnsigned ∧ (scan host lexer).2.valueUnsigned = n ∧
      (scan host lexer).2.input = rest := by
  obtain ⟨after, hbuffer, hafter, hscan⟩ :=
    @scan_number host lexer _ _ rest (numberToken_decimal n.toNat) hinput hrest
  have hvalue : digitsValue after.tokenBuffer = n.toNat := by
    rw [hbuffer]
    exact digitsValue_decimal n.toNat
  have hsize : n.toNat < UInt64.size := n.toNat_lt_size
  rw [hscan, convertNumber, hvalue, if_pos ⟨rfl, hsize⟩]
  exact ⟨rfl, UInt64.ofNat_toNat, hafter⟩

theorem scan_negative (v : Int64) (hv : v.toInt < 0)
    (hinput : lexer.input = ascii "-" ++ decimal v.toInt.natAbs ++ rest) (hrest : Follows rest) :
    (scan host lexer).1 = .valueInteger ∧ (scan host lexer).2.valueInteger = v ∧
      (scan host lexer).2.input = rest := by
  have hpositive : 0 < v.toInt.natAbs := Int.natAbs_pos.mpr (by omega)
  obtain ⟨after, hbuffer, hafter, hscan⟩ :=
    @scan_number host lexer _ _ rest (numberToken_negative hpositive) hinput hrest
  have hvalue : digitsValue after.tokenBuffer.tail = v.toInt.natAbs := by
    rw [hbuffer]
    exact digitsValue_decimal v.toInt.natAbs
  have hleast : -2 ^ 63 ≤ v.toInt := v.le_toInt
  have hsize : v.toInt.natAbs ≤ UInt64.size / 2 := by
    show v.toInt.natAbs ≤ 9223372036854775808
    omega
  have hback : -(v.toInt.natAbs : ℤ) = v.toInt := by omega
  rw [hscan, convertNumber, hvalue, if_neg (by simp), if_pos ⟨rfl, hsize⟩, hback]
  exact ⟨rfl, Int64.ofInt_toInt v, hafter⟩

/-- What the conversions of doubles promise: a finite double is written as a
number with a fraction or an exponent, and is read back as itself. -/
structure RoundTrips (host : Host) : Prop where
  text : ∀ x : Double, x.isFinite = true → numberToken (host.toChars x) = some .valueFloat
  back : ∀ x : Double, x.isFinite = true → host.strtod (host.toChars x) = x

theorem scan_float (hhost : RoundTrips host) (x : Double) (hx : x.isFinite = true)
    (hinput : lexer.input = host.toChars x ++ rest) (hrest : Follows rest) :
    (scan host lexer).1 = .valueFloat ∧ (scan host lexer).2.valueFloat = x ∧
      (scan host lexer).2.input = rest := by
  obtain ⟨after, hbuffer, hafter, hscan⟩ :=
    @scan_number host lexer _ _ rest (hhost.text x hx) hinput hrest
  rw [hscan, convertNumber, if_neg (by simp), if_neg (by simp)]
  refine ⟨rfl, ?_, hafter⟩
  show host.strtod after.tokenBuffer = x
  rw [hbuffer, hhost.back x hx]

end Numbers

end BeastServer.JsonTokens
