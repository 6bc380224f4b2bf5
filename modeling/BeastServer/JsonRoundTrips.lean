import BeastServer.JsonTokens
import Mathlib.Data.List.Forall2

/-!
Dumped values are parsed again.
A text reads as a value when the parser, wherever it stands, goes over the text
and comes out with the value and with the rest of its input. The texts of the
elements and of the members make the text of an array and of an object, so the
text of every value is read. What comes out is the value itself but for its
numbers: an integer that is not negative comes out unsigned, and a double that
is not finite has been written as null.
-/
namespace BeastServer.JsonRoundTrips

open ByteStrings Exceptions JsonValues JsonLexers JsonParsers JsonSerializers JsonTokens

section Scalars

variable {host : Host} {value : Json} {text : Bytes} {token : TokenType}

/-- Wherever the parser meets the text, it reads the value. -/
def Reads (host : Host) (value : Json) (text : Bytes) : Prop :=
  ∀ (p : Parser) (rest : Bytes) (frames : List Frame), p.lexer.input = text ++ rest →
    Follows rest → (getToken host p).lastToken ≠ .endArray ∧
      ∃ q : Parser, q.lexer.input = rest ∧
        saxParseInternal host (getToken host p) frames .value =
          saxParseInternal host q frames (.evaluation value)

/-- A value that is a single token. -/
theorem reads_token (hne : token ≠ .endArray)
    (h : ∀ (lexer : Lexer) (rest : Bytes), lexer.input = text ++ rest → Follows rest →
      (scan host lexer).1 = token ∧ (scan host lexer).2.input = rest ∧
        ∀ frames, saxParseInternal host ⟨(scan host lexer).2, token⟩ frames .value =
          saxParseInternal host ⟨(scan host lexer).2, token⟩ frames (.evaluation value)) :
    Reads host value text := by
  intro p rest frames hinput hrest
  obtain ⟨htoken, hleft, hparse⟩ := h p.lexer rest hinput hrest
  rw [getToken, htoken]
  exact ⟨hne, _, hleft, hparse frames⟩

theorem reads_null : Reads host .null (ascii "null") := by
  apply @reads_token _ _ _ .literalNull (by simp)
  intro lexer rest hinput _
  obtain ⟨htoken, hleft⟩ := @scan_null host lexer rest hinput
  refine ⟨htoken, hleft, ?_⟩
  intro frames
  rw [saxParseInternal]

theorem reads_true : Reads host (.boolean true) (ascii "true") := by
  apply @reads_token _ _ _ .literalTrue (by simp)
  intro lexer rest hinput _
  obtain ⟨htoken, hleft⟩ := @scan_true host lexer rest hinput
  refine ⟨htoken, hleft, ?_⟩
  intro frames
  rw [saxParseInternal]

theorem reads_false : Reads host (.boolean false) (ascii "false") := by
  apply @reads_token _ _ _ .literalFalse (by simp)
  intro lexer rest hinput _
  obtain ⟨htoken, hleft⟩ := @scan_false host lexer rest hinput
  refine ⟨htoken, hleft, ?_⟩
  intro frames
  rw [saxParseInternal]

theorem enclosed (first last : UInt8) (text rest : Bytes) :
    [first] ++ text ++ [last] ++ rest = first :: (text ++ last :: rest) := by
  simp

theorem reads_string {s written : Bytes} (hwritten : dumpEscaped s = .ok written) :
    Reads host (.string s) (ascii "\"" ++ written ++ ascii "\"") := by
  apply @reads_token _ _ _ .valueString (by simp)
  intro lexer rest hinput _
  have hinput' : lexer.input = 34 :: (written ++ 34 :: rest) :=
    hinput.trans (enclosed 34 34 written rest)
  obtain ⟨htoken, hbuffer, hleft⟩ := @scan_string host lexer s written rest hwritten hinput'
  refine ⟨htoken, hleft, ?_⟩
  intro frames
  rw [saxParseInternal, hbuffer]

theorem reads_unsigned (n : UInt64) : Reads host (.numberUnsigned n) (decimal n.toNat) := by
  apply @reads_token _ _ _ .valueUnsigned (by simp)
  intro lexer rest hinput hrest
  obtain ⟨htoken, hvalue, hleft⟩ := @scan_unsigned host lexer rest n hinput hrest
  refine ⟨htoken, hleft, ?_⟩
  intro frames
  rw [saxParseInternal, hvalue]

theorem reads_negative {v : Int64} (hv : v.toInt < 0) :
    Reads host (.numberInteger v) (dumpInteger v) := by
  apply @reads_token _ _ _ .valueInteger (by simp)
  intro lexer rest hinput hrest
  rw [dumpInteger, if_pos hv] at hinput
  obtain ⟨htoken, hvalue, hleft⟩ := @scan_negative host lexer rest v hv hinput hrest
  refine ⟨htoken, hleft, ?_⟩
  intro frames
  rw [saxParseInternal, hvalue]

theorem reads_float (hhost : RoundTrips host) {x : Double} (hx : x.isFinite = true) :
    Reads host (.numberFloat x) (dumpFloat host x) := by
  apply @reads_token _ _ _ .valueFloat (by simp)
  intro lexer rest hinput hrest
  rw [dumpFloat, if_pos hx] at hinput
  obtain ⟨htoken, hvalue, hleft⟩ := @scan_float host lexer rest hhost x hx hinput hrest
  refine ⟨htoken, hleft, ?_⟩
  intro frames
  rw [saxParseInternal, hvalue, if_pos hx]

end Scalars

section Containers

variable {host : Host} {values : List Json} {members : Members} {texts : List Bytes}

theorem separated_cons (separator text : Bytes) (texts : List Bytes) :
    separated separator (text :: texts) =
      text ++ texts.flatMap (fun next => separator ++ next) := by
  induction texts generalizing text with
  | nil => simp [separated]
  | cons next texts ih =>
    rw [separated, ih, List.flatMap_cons, List.append_assoc, List.append_assoc]
    simp

/-- The next values of a container, each after a comma, and the closing character. -/
def remaining (texts : List Bytes) (closing : UInt8) (rest : Bytes) : Bytes :=
  texts.flatMap (fun next => 44 :: next) ++ closing :: rest

theorem remaining_cons (text : Bytes) (texts : List Bytes) (closing : UInt8) (rest : Bytes) :
    remaining (text :: texts) closing rest = 44 :: (text ++ remaining texts closing rest) := by
  simp [remaining]

theorem follows_remaining {closing : UInt8} (hclosing : closing = 93 ∨ closing = 125)
    (rest : Bytes) : Follows (remaining texts closing rest) := by
  cases texts with
  | nil => exact follows_cons (Or.inr hclosing)
  | cons text texts =>
    rw [remaining_cons]
    exact follows_cons (Or.inl rfl)

theorem separated_remaining (text : Bytes) (texts : List Bytes) (closing : UInt8) (rest : Bytes) :
    separated (ascii ",") (text :: texts) ++ closing :: rest =
      text ++ remaining texts closing rest := by
  rw [separated_cons, List.append_assoc]
  rfl

theorem getToken_structural {c : UInt8} {token : TokenType} {p : Parser} {rest : Bytes}
    (hc : structural c = some token) (hinput : p.lexer.input = c :: rest) :
    (getToken host p).lastToken = token ∧ (getToken host p).lexer.input = rest :=
  scan_structural hc hinput

theorem sax_beginArray {p : Parser} {frames : List Frame} (hp : p.lastToken = .beginArray) :
    saxParseInternal host p frames .value =
      if (getToken host p).lastToken = .endArray then
        saxParseInternal host (getToken host p) frames (.evaluation (.array []))
      else saxParseInternal host (getToken host p) (.array [] :: frames) .value := by
  obtain ⟨lexer, token⟩ := p
  obtain rfl : token = .beginArray := hp
  rw [saxParseInternal]

/-- The elements after the first one. -/
theorem reads_elements (h : List.Forall₂ (Reads host) values texts) {elements : List Json}
    {value : Json} {p : Parser} {rest : Bytes} {frames : List Frame}
    (hinput : p.lexer.input = remaining texts 93 rest) :
    ∃ q : Parser, q.lexer.input = rest ∧
      saxParseInternal host p (.array elements :: frames) (.evaluation value) =
        saxParseInternal host q frames (.evaluation (.array (elements ++ value :: values))) := by
  induction h generalizing elements value p with
  | nil =>
    obtain ⟨htoken, hleft⟩ := @getToken_structural host 93 .endArray p rest rfl hinput
    have hcomma : (getToken host p).lastToken ≠ .valueSeparator := by
      rw [htoken]
      simp
    refine ⟨getToken host p, hleft, ?_⟩
    rw [saxParseInternal, if_neg hcomma, if_pos htoken]
  | @cons next text values texts hnext _ ih =>
    rw [remaining_cons] at hinput
    obtain ⟨hcomma, hleft⟩ := @getToken_structural host 44 .valueSeparator p _ rfl hinput
    obtain ⟨-, q, hq, hparse⟩ := hnext (getToken host p) _ (.array (elements ++ [value]) :: frames)
      hleft (follows_remaining (Or.inl rfl) rest)
    obtain ⟨q', hq', hmore⟩ := @ih (elements ++ [value]) next q hq
    refine ⟨q', hq', ?_⟩
    rw [saxParseInternal, if_pos hcomma, hparse, hmore, List.append_assoc]
    rfl

theorem reads_array (h : List.Forall₂ (Reads host) values texts) :
    Reads host (.array values) (ascii "[" ++ separated (ascii ",") texts ++ ascii "]") := by
  intro p rest frames hinput hrest
  have hinput' : p.lexer.input = 91 :: (separated (ascii ",") texts ++ 93 :: rest) :=
    hinput.trans (enclosed 91 93 _ rest)
  obtain ⟨hopen, hleft⟩ := @getToken_structural host 91 .beginArray p _ rfl hinput'
  refine ⟨by simp [hopen], ?_⟩
  rw [sax_beginArray hopen]
  cases h with
  | nil =>
    obtain ⟨hclose, hend⟩ :=
      @getToken_structural host 93 .endArray (getToken host p) rest rfl hleft
    refine ⟨getToken host (getToken host p), hend, ?_⟩
    rw [if_pos hclose]
  | @cons value text values texts hfirst hothers =>
    rw [separated_remaining] at hleft
    obtain ⟨hne, q, hq, hparse⟩ := hfirst (getToken host p) _ (.array [] :: frames) hleft
      (follows_remaining (Or.inl rfl) rest)
    obtain ⟨q', hq', hmore⟩ := @reads_elements _ _ _ hothers [] value q rest frames hq
    refine ⟨q', hq', ?_⟩
    rw [if_neg hne, hparse, hmore]
    rfl

variable {member : Bytes × Json} {text : Bytes}

/-- A member of an object: its key, a colon and its value. -/
def ReadsMember (host : Host) (member : Bytes × Json) (text : Bytes) : Prop :=
  ∃ name value, dumpEscaped member.1 = .ok name ∧ Reads host member.2 value ∧
    text = ascii "\"" ++ name ++ ascii "\":" ++ value

/-- The key and the colon of a member. -/
theorem getToken_key {p : Parser} {key name value rest : Bytes}
    (hname : dumpEscaped key = .ok name)
    (hinput : p.lexer.input = (ascii "\"" ++ name ++ ascii "\":" ++ value) ++ rest) :
    (getToken host p).lastToken = .valueString ∧ (getToken host p).lexer.tokenBuffer = key ∧
      (getToken host (getToken host p)).lastToken = .nameSeparator ∧
        (getToken host (getToken host p)).lexer.input = value ++ rest := by
  have hinput' : p.lexer.input = 34 :: (name ++ 34 :: 58 :: (value ++ rest)) := by
    rw [hinput]
    show [34] ++ name ++ [34, 58] ++ value ++ rest = _
    simp
  obtain ⟨htoken, hkey, hleft⟩ := @scan_string host p.lexer key name _ hname hinput'
  obtain ⟨hcolon, hrest⟩ :=
    @getToken_structural host 58 .nameSeparator (getToken host p) _ rfl hleft
  exact ⟨htoken, hkey, hcolon, hrest⟩

theorem sax_beginObject {p : Parser} {frames : List Frame} (hp : p.lastToken = .beginObject) :
    saxParseInternal host p frames .value =
      if (getToken host p).lastToken = .endObject then
        saxParseInternal host (getToken host p) frames (.evaluation (.object []))
      else if (getToken host p).lastToken = .valueString then
        if (getToken host (getToken host p)).lastToken = .nameSeparator then
          saxParseInternal host (getToken host (getToken host (getToken host p)))
            (.object [] (getToken host p).lexer.tokenBuffer :: frames) .value
        else
          syntaxError .nameSeparator (ascii "object separator") (getToken host (getToken host p))
      else syntaxError .valueString (ascii "object key") (getToken host p) := by
  obtain ⟨lexer, token⟩ := p
  obtain rfl : token = .beginObject := hp
  rw [saxParseInternal]

/-- The map with the members put into it one after the other. -/
def assignAll (members : Members) (more : Members) : Members :=
  more.foldl (fun held member => held.assign member.1 member.2) members

/-- The members after the first one. -/
theorem reads_members (h : List.Forall₂ (ReadsMember host) members texts) {held : Members}
    {key : Bytes} {value : Json} {p : Parser} {rest : Bytes} {frames : List Frame}
    (hinput : p.lexer.input = remaining texts 125 rest) :
    ∃ q : Parser, q.lexer.input = rest ∧
      saxParseInternal host p (.object held key :: frames) (.evaluation value) =
        saxParseInternal host q frames
          (.evaluation (.object (assignAll (held.assign key value) members))) := by
  induction h generalizing held key value p with
  | nil =>
    obtain ⟨htoken, hleft⟩ := @getToken_structural host 125 .endObject p rest rfl hinput
    have hcomma : (getToken host p).lastToken ≠ .valueSeparator := by
      rw [htoken]
      simp
    refine ⟨getToken host p, hleft, ?_⟩
    rw [saxParseInternal, if_neg hcomma, if_pos htoken]
    rfl
  | @cons member text members texts hmember _ ih =>
    obtain ⟨name, written, hname, hreads, rfl⟩ := hmember
    rw [remaining_cons] at hinput
    obtain ⟨hcomma, hafter⟩ := @getToken_structural host 44 .valueSeparator p _ rfl hinput
    obtain ⟨hstring, hkey, hcolon, hleft⟩ := getToken_key hname hafter
    obtain ⟨-, q, hq, hparse⟩ := hreads _ _ (.object (held.assign key value) member.1 :: frames)
      hleft (follows_remaining (Or.inr rfl) rest)
    obtain ⟨q', hq', hmore⟩ := @ih (held.assign key value) member.1 member.2 q hq
    refine ⟨q', hq', ?_⟩
    rw [saxParseInternal, if_pos hcomma, if_pos hstring, if_pos hcolon, hkey, hparse, hmore]
    rfl

theorem reads_object (h : List.Forall₂ (ReadsMember host) members texts) :
    Reads host (.object (assignAll [] members))
      (ascii "\x7b" ++ separated (ascii ",") texts ++ ascii "\x7d") := by
  intro p rest frames hinput hrest
  have hinput' : p.lexer.input = 123 :: (separated (ascii ",") texts ++ 125 :: rest) :=
    hinput.trans (enclosed 123 125 _ rest)
  obtain ⟨hopen, hleft⟩ := @getToken_structural host 123 .beginObject p _ rfl hinput'
  refine ⟨by simp [hopen], ?_⟩
  rw [sax_beginObject hopen]
  cases h with
  | nil =>
    obtain ⟨hclose, hend⟩ :=
      @getToken_structural host 125 .endObject (getToken host p) rest rfl hleft
    refine ⟨getToken host (getToken host p), hend, ?_⟩
    rw [if_pos hclose]
    rfl
  | @cons member text members texts hfirst hothers =>
    obtain ⟨name, written, hname, hreads, rfl⟩ := hfirst
    rw [separated_remaining] at hleft
    obtain ⟨hstring, hkey, hcolon, hvalue⟩ := getToken_key hname hleft
    have hobject : (getToken host (getToken host p)).lastToken ≠ .endObject := by
      rw [hstring]
      simp
    obtain ⟨-, q, hq, hparse⟩ := hreads _ _ (.object [] member.1 :: frames) hvalue
      (follows_remaining (Or.inr rfl) rest)
    obtain ⟨q', hq', hmore⟩ :=
      @reads_members _ _ _ hothers [] member.1 member.2 q rest frames hq
    refine ⟨q', hq', ?_⟩
    rw [if_neg hobject, if_pos hstring, if_pos hcolon, hkey, hparse, hmore]
    rfl

end Containers

section Keys

variable {members more : Members} {key : Bytes} {value : Json}

/-- The keys of a map: in their order, each only once. -/
def SortedKeys (members : Members) : Prop := (members.map Prod.fst).Pairwise (· < ·)

/-- A key beyond all others is put at the end. -/
theorem assign_last (h : ∀ other ∈ members.map Prod.fst, other < key) :
    members.assign key value = members ++ [(key, value)] := by
  induction members with
  | nil => rfl
  | cons member members ih =>
    obtain ⟨other, held⟩ := member
    have hother : other < key := h other List.mem_cons_self
    have hne : key ≠ other := by
      rintro rfl
      exact List.lt_irrefl key hother
    have hle : ¬ key < other := List.lt_asymm hother
    show Members.upsert key (fun _ => value) ((other, held) :: members) = _
    rw [Members.upsert, if_neg hne, if_neg hle]
    exact congrArg _ (ih (fun next hnext => h next (List.mem_cons_of_mem other hnext)))

theorem assignAll_append (h : SortedKeys (members ++ more)) :
    assignAll members more = members ++ more := by
  induction more generalizing members with
  | nil => exact (List.append_nil members).symm
  | cons member more ih =>
    have hlast : ∀ other ∈ members.map Prod.fst, other < member.1 := by
      intro other hother
      rw [SortedKeys, List.map_append, List.pairwise_append] at h
      exact h.2.2 other hother member.1 List.mem_cons_self
    have hmore : SortedKeys ((members ++ [member]) ++ more) := by
      rw [List.append_assoc]
      exact h
    show assignAll (members.assign member.1 member.2) more = _
    rw [assign_last hlast, ih hmore, List.append_assoc]
    rfl

end Keys

section Values

variable {host : Host} {value : Json} {elements : List Json} {members : Members}

/-- A value occurs in another one: as itself, as an element or below a key. -/
inductive Occurs : Json → Json → Prop
  | self {value : Json} : Occurs value value
  | element {value element : Json} {elements : List Json} :
    element ∈ elements → Occurs value element → Occurs value (.array elements)
  | member {value : Json} {member : Bytes × Json} {members : Members} :
    member ∈ members → Occurs value member.2 → Occurs value (.object members)

/-- What makes a single value one that JSON has: texts in UTF-8 and a map of members. -/
def ProperNode : Json → Prop
  | .null => True
  | .object members => SortedKeys members ∧ ∀ member ∈ members, Utf8.WellFormed member.1
  | .array _ => True
  | .string text => Utf8.WellFormed text
  | .boolean _ => True
  | .numberInteger _ => True
  | .numberUnsigned _ => True
  | .numberFloat _ => True
  | .binary _ _ => False
  | .discarded => False

/-- The values of JSON: null, objects, arrays, strings, numbers and booleans. -/
def Proper (value : Json) : Prop := ∀ part, Occurs part value → ProperNode part

theorem proper_element (h : Proper (.array elements)) {element : Json}
    (helement : element ∈ elements) : Proper element :=
  fun part hpart => h part (.element helement hpart)

theorem proper_member (h : Proper (.object members)) {member : Bytes × Json}
    (hmember : member ∈ members) : Proper member.2 :=
  fun part hpart => h part (.member hmember hpart)

mutual

/-- The value that is read from the text of a value. -/
def reread : Json → Json
  | .null => .null
  | .object members => .object (rereadMembers members)
  | .array elements => .array (rereadElements elements)
  | .string text => .string text
  | .boolean value => .boolean value
  | .numberInteger value =>
    if value.toInt < 0 then .numberInteger value else .numberUnsigned value.toUInt64
  | .numberUnsigned value => .numberUnsigned value
  | .numberFloat value => if value.isFinite = true then .numberFloat value else .null
  | .binary bytes subtype => .binary bytes subtype
  | .discarded => .discarded

def rereadMembers : Members → Members
  | [] => []
  | (key, value) :: rest => (key, reread value) :: rereadMembers rest

def rereadElements : List Json → List Json
  | [] => []
  | value :: rest => reread value :: rereadElements rest

end

@[simp] theorem rereadMembers_keys (members : Members) :
    (rereadMembers members).map Prod.fst = members.map Prod.fst := by
  induction members with
  | nil => rfl
  | cons member members ih =>
    obtain ⟨key, value⟩ := member
    rw [rereadMembers, List.map_cons, List.map_cons, ih]

theorem reads_integer (v : Int64) : Reads host (reread (.numberInteger v)) (dumpInteger v) := by
  rw [reread]
  split
  · rename_i hv
    exact reads_negative hv
  · rename_i hv
    have hsame : v.toUInt64.toNat = v.toInt.toNat := by
      have hpositive : 0 ≤ v := by
        rw [Int64.le_iff_toInt_le]
        exact Int.not_lt.mp hv
      rw [Int64.toNat_toUInt64_of_le hpositive, Int64.toNat_toInt]
    rw [dumpInteger, if_neg hv, ← hsame]
    exact reads_unsigned v.toUInt64

theorem reads_double (hhost : RoundTrips host) (x : Double) :
    Reads host (reread (.numberFloat x)) (dumpFloat host x) := by
  rw [reread]
  split
  · rename_i hx
    exact reads_float hhost hx
  · rename_i hx
    rw [dumpFloat, if_neg hx]
    exact reads_null

theorem exists_dumpEscaped {s : Bytes} (h : Utf8.WellFormed s) :
    ∃ written, dumpEscaped s = .ok written := by
  have hok := (dumpEscaped_isOk s).mpr h
  cases hwritten : dumpEscaped s with
  | ok written => exact ⟨written, rfl⟩
  | error e =>
    rw [hwritten] at hok
    cases hok

mutual

/-- A proper value is dumped, and its text reads as the value. -/
theorem dump_reads (hhost : RoundTrips host) : ∀ value, Proper value →
    ∃ text, dump host value = .ok text ∧ Reads host (reread value) text
  | .null, _ => ⟨_, rfl, reads_null⟩
  | .object members, h => by
    obtain ⟨hsorted, hkeys⟩ := h _ .self
    obtain ⟨texts, hdump, hreads⟩ := dumpMembers_reads hhost members
      (fun member hmember => ⟨hkeys member hmember, proper_member h hmember⟩)
    have hsame : assignAll [] (rereadMembers members) = rereadMembers members := by
      apply assignAll_append
      show ((rereadMembers members).map Prod.fst).Pairwise (· < ·)
      rw [rereadMembers_keys]
      exact hsorted
    refine ⟨_, by rw [dump, hdump]; rfl, ?_⟩
    have hobject := reads_object hreads
    rw [hsame] at hobject
    exact hobject
  | .array elements, h => by
    obtain ⟨texts, hdump, hreads⟩ := dumpElements_reads hhost elements
      (fun element helement => proper_element h helement)
    exact ⟨_, by rw [dump, hdump]; rfl, reads_array hreads⟩
  | .string text, h => by
    obtain ⟨written, hwritten⟩ := exists_dumpEscaped (h _ .self)
    exact ⟨_, by rw [dump, hwritten]; rfl, reads_string hwritten⟩
  | .boolean true, _ => ⟨_, rfl, reads_true⟩
  | .boolean false, _ => ⟨_, rfl, reads_false⟩
  | .numberInteger v, _ => ⟨_, rfl, reads_integer v⟩
  | .numberUnsigned n, _ => ⟨_, rfl, reads_unsigned n⟩
  | .numberFloat x, _ => ⟨_, rfl, reads_double hhost x⟩
  | .binary _ _, h => (h _ .self).elim
  | .discarded, h => (h _ .self).elim

theorem dumpMembers_reads (hhost : RoundTrips host) : ∀ members : Members,
    (∀ member ∈ members, Utf8.WellFormed member.1 ∧ Proper member.2) →
      ∃ texts, dumpMembers host members = .ok texts ∧
        List.Forall₂ (ReadsMember host) (rereadMembers members) texts
  | [], _ => ⟨[], rfl, .nil⟩
  | (key, value) :: rest, h => by
    obtain ⟨hkey, hvalue⟩ := h (key, value) List.mem_cons_self
    obtain ⟨name, hname⟩ := exists_dumpEscaped hkey
    obtain ⟨text, hdump, hreads⟩ := dump_reads hhost value hvalue
    obtain ⟨texts, hrest, hothers⟩ := dumpMembers_reads hhost rest
      (fun member hmember => h member (List.mem_cons_of_mem _ hmember))
    refine ⟨_, by rw [dumpMembers, hname, hdump, hrest]; rfl, .cons ?_ hothers⟩
    exact ⟨name, text, hname, hreads, rfl⟩

theorem dumpElements_reads (hhost : RoundTrips host) : ∀ elements : List Json,
    (∀ element ∈ elements, Proper element) →
      ∃ texts, dumpElements host elements = .ok texts ∧
        List.Forall₂ (Reads host) (rereadElements elements) texts
  | [], _ => ⟨[], rfl, .nil⟩
  | value :: rest, h => by
    obtain ⟨text, hdump, hreads⟩ := dump_reads hhost value (h value List.mem_cons_self)
    obtain ⟨texts, hrest, hothers⟩ := dumpElements_reads hhost rest
      (fun element helement => h element (List.mem_cons_of_mem value helement))
    exact ⟨_, by rw [dumpElements, hdump, hrest]; rfl, .cons hreads hothers⟩

end

/-- A text that is read as a value wherever it stands is accepted on its own. -/
theorem parse_of_reads {text : Bytes} (h : Reads host value text) :
    ∃ q, parse host text = .ok value q := by
  obtain ⟨-, q, hq, hparse⟩ := h ⟨Lexer.start text, .uninitialized⟩ [] []
    (List.append_nil text).symm follows_nil
  have hend : (getToken host q).lastToken = .endOfInput := scan_end hq
  refine ⟨getToken host q, ?_⟩
  rw [parse, hparse, saxParseInternal]
  simp only [hend, if_true]

/-- A proper value is dumped, and the parser reads it from its text. -/
theorem parse_dump (hhost : RoundTrips host) (hproper : Proper value) :
    ∃ text q, dump host value = .ok text ∧ parse host text = .ok (reread value) q := by
  obtain ⟨text, hdump, hreads⟩ := dump_reads hhost value hproper
  obtain ⟨q, hparse⟩ := parse_of_reads hreads
  exact ⟨text, q, hdump, hparse⟩

end Values

end BeastServer.JsonRoundTrips
