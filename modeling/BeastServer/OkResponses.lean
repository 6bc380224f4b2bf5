import BeastServer.AnsweredRequests
import BeastServer.ExactNumbers
import BeastServer.JsonRoundTrips

/-!
The responses to what the functions of the JSON endpoints return.
The handler puts a zero under the key ret into what the function has returned
and dumps it. That works for null and for objects only; a value of any other
kind ends in the catch clause of the handler. An object that has the key keeps
its own value there, and a double that is not finite is dumped as null.
-/
namespace BeastServer.OkResponses

open ByteStrings Exceptions Programs HttpMessages HttpSessions JsonValues JsonParsers
open JsonSerializers JsonApi JsonTokens JsonRoundTrips AnsweredRequests ExactNumbers

section Sameness

def SameNumber (value other : Json) : Prop :=
  ∃ n, number value = some n ∧ number other = some n

mutual

/-- Two values are the same: they have the same structure, the same texts and
the same numbers, whatever types of the library hold them. -/
def Same : Json → Json → Prop
  | .null, other => other = .null
  | .object members, other => ∃ others, other = .object others ∧ SameMembers members others
  | .array elements, other => ∃ others, other = .array others ∧ SameElements elements others
  | .string text, other => other = .string text
  | .boolean value, other => other = .boolean value
  | .numberInteger value, other => SameNumber (.numberInteger value) other
  | .numberUnsigned value, other => SameNumber (.numberUnsigned value) other
  | .numberFloat value, other => SameNumber (.numberFloat value) other
  | .binary bytes subtype, other => other = .binary bytes subtype
  | .discarded, other => other = .discarded

def SameMembers : Members → Members → Prop
  | [], others => others = []
  | (key, value) :: rest, others =>
    ∃ other more, others = (key, other) :: more ∧ Same value other ∧ SameMembers rest more

def SameElements : List Json → List Json → Prop
  | [], others => others = []
  | value :: rest, others =>
    ∃ other more, others = other :: more ∧ Same value other ∧ SameElements rest more

end

/-- No double in the value is an infinity or not a number. -/
def FiniteDoubles (value : Json) : Prop :=
  ∀ x, Occurs (.numberFloat x) value → x.isFinite = true

variable {value : Json} {members : Members} {elements : List Json} {key : Bytes}

theorem finite_object : FiniteDoubles (.object members) ↔
    ∀ member ∈ members, FiniteDoubles member.2 := by
  constructor
  · intro h member hmember x hx
    exact h x (.member hmember hx)
  · intro h x hx
    cases hx with
    | member hmember hx => exact h _ hmember x hx

theorem finite_array : FiniteDoubles (.array elements) ↔
    ∀ element ∈ elements, FiniteDoubles element := by
  constructor
  · intro h element helement x hx
    exact h x (.element helement hx)
  · intro h x hx
    cases hx with
    | element helement hx => exact h _ helement x hx

theorem finite_double {x : Double} : FiniteDoubles (.numberFloat x) ↔ x.isFinite = true := by
  constructor
  · intro h
    exact h x .self
  · intro h y hy
    cases hy
    exact h

/-- Reading a value again does not change the number that it is. -/
theorem number_reread (value : Json) : number (reread value) = number value := by
  cases value with
  | numberInteger v =>
    rw [reread]
    split
    · rfl
    · rename_i hv
      have htoInt : v.toInt = (v.toInt.toNat : ℕ) := by omega
      rw [number, number, toUInt64_of_toInt htoInt]
      congr 1
      rw [htoInt]
      simp
  | numberFloat x =>
    rw [reread]
    split
    · rfl
    · rename_i hx
      rw [number, number, if_neg hx]
      all_goals simp
  | _ => rfl

theorem sameNumber_reread {n : ℚ} (h : number value = some n) : SameNumber value (reread value) :=
  ⟨n, h, by rw [number_reread, h]⟩

mutual

/-- A value is read again as the same value unless a double has become null. -/
theorem same_reread_iff : ∀ value, Same value (reread value) ↔ FiniteDoubles value
  | .null => by
    apply iff_of_true rfl
    intro x hx
    cases hx
  | .object members => by
    rw [finite_object, ← sameMembers_reread_iff members, reread, Same]
    constructor
    · intro ⟨others, heq, hsame⟩
      obtain rfl := Json.object.inj heq
      exact hsame
    · intro hsame
      exact ⟨_, rfl, hsame⟩
  | .array elements => by
    rw [finite_array, ← sameElements_reread_iff elements, reread, Same]
    constructor
    · intro ⟨others, heq, hsame⟩
      obtain rfl := Json.array.inj heq
      exact hsame
    · intro hsame
      exact ⟨_, rfl, hsame⟩
  | .string text => by
    apply iff_of_true rfl
    intro x hx
    cases hx
  | .boolean value => by
    apply iff_of_true rfl
    intro x hx
    cases hx
  | .numberInteger value => by
    apply iff_of_true (@sameNumber_reread (.numberInteger value) _ rfl)
    intro x hx
    cases hx
  | .numberUnsigned value => by
    apply iff_of_true (@sameNumber_reread (.numberUnsigned value) _ rfl)
    intro x hx
    cases hx
  | .numberFloat x => by
    rw [finite_double]
    constructor
    · intro ⟨n, hn, _⟩
      exact (Option.ite_none_right_eq_some.mp hn).1
    · intro hx
      exact @sameNumber_reread (.numberFloat x) _ (if_pos hx)
  | .binary bytes subtype => by
    apply iff_of_true rfl
    intro x hx
    cases hx
  | .discarded => by
    apply iff_of_true rfl
    intro x hx
    cases hx

theorem sameMembers_reread_iff : ∀ members : Members,
    SameMembers members (rereadMembers members) ↔ ∀ member ∈ members, FiniteDoubles member.2
  | [] => by
    apply iff_of_true rfl
    intro member hmember
    cases hmember
  | (key, value) :: rest => by
    rw [List.forall_mem_cons, ← sameMembers_reread_iff rest, ← same_reread_iff value,
      rereadMembers, SameMembers]
    constructor
    · intro ⟨other, more, heq, hsame, hrest⟩
      obtain ⟨hmember, rfl⟩ := List.cons.inj heq
      obtain ⟨-, rfl⟩ := Prod.mk.inj hmember
      exact ⟨hsame, hrest⟩
    · intro ⟨hsame, hrest⟩
      exact ⟨_, _, rfl, hsame, hrest⟩

theorem sameElements_reread_iff : ∀ elements : List Json,
    SameElements elements (rereadElements elements) ↔ ∀ element ∈ elements, FiniteDoubles element
  | [] => by
    apply iff_of_true rfl
    intro element helement
    cases helement
  | value :: rest => by
    rw [List.forall_mem_cons, ← sameElements_reread_iff rest, ← same_reread_iff value,
      rereadElements, SameElements]
    constructor
    · intro ⟨other, more, heq, hsame, hrest⟩
      obtain ⟨rfl, rfl⟩ := List.cons.inj heq
      exact ⟨hsame, hrest⟩
    · intro ⟨hsame, hrest⟩
      exact ⟨_, _, rfl, hsame, hrest⟩

end

end Sameness

section Keys

variable {members : Members} {key other : Bytes} {value held : Json}

theorem find_cons : Members.find key ((other, held) :: members) =
    if other = key then some held else Members.find key members := by
  unfold Members.find
  rw [List.find?_cons]
  by_cases h : other = key
  · simp [h]
  · have hne : (other == key) = false := beq_false_of_ne h
    rw [hne, if_neg h]

theorem find_rereadMembers (key : Bytes) (members : Members) :
    Members.find key (rereadMembers members) = (Members.find key members).map reread := by
  induction members with
  | nil => rfl
  | cons member members ih =>
    obtain ⟨other, held⟩ := member
    rw [rereadMembers, find_cons, find_cons, ih]
    split <;> rfl

theorem mem_of_find (h : Members.find key members = some value) : (key, value) ∈ members := by
  obtain ⟨member, hfound, rfl⟩ := Option.map_eq_some_iff.mp h
  have hkey : member.1 = key := by simpa using List.find?_some hfound
  rw [← hkey]
  exact List.mem_of_find?_eq_some hfound

theorem sortedKeys_cons : SortedKeys ((other, held) :: members) ↔
    (∀ member ∈ members, other < member.1) ∧ SortedKeys members := by
  unfold SortedKeys
  rw [List.map_cons, List.pairwise_cons, List.forall_mem_map]

/-- Every member is found under its key. -/
theorem find_of_mem (hsorted : SortedKeys members) (h : (key, value) ∈ members) :
    Members.find key members = some value := by
  induction members with
  | nil => cases h
  | cons member members ih =>
    obtain ⟨other, held⟩ := member
    obtain ⟨hless, hmore⟩ := sortedKeys_cons.mp hsorted
    rw [find_cons]
    rcases List.mem_cons.mp h with heq | hmember
    · obtain ⟨rfl, rfl⟩ := Prod.mk.inj heq
      exact if_pos rfl
    · have hne : other ≠ key := by
        rintro rfl
        exact List.lt_irrefl other (hless _ hmember)
      rw [if_neg hne]
      exact ih hmore hmember

theorem mem_emplace {member : Bytes × Json} (h : member ∈ Members.emplace key value members) :
    member = (key, value) ∨ member ∈ members := by
  unfold Members.emplace at h
  induction members with
  | nil => exact Or.inl (List.mem_singleton.mp h)
  | cons first members ih =>
    obtain ⟨other, held⟩ := first
    rw [Members.upsert] at h
    split_ifs at h with heq hless
    · rw [heq] at h
      exact Or.inr h
    · exact List.mem_cons.mp h
    · rcases List.mem_cons.mp h with rfl | hmore
      · exact Or.inr List.mem_cons_self
      · exact (ih hmore).imp id (List.mem_cons_of_mem _)

theorem sortedKeys_emplace (h : SortedKeys members) :
    SortedKeys (Members.emplace key value members) := by
  induction members with
  | nil => exact List.pairwise_singleton _ _
  | cons first members ih =>
    obtain ⟨other, held⟩ := first
    obtain ⟨hless, hmore⟩ := sortedKeys_cons.mp h
    unfold Members.emplace
    rw [Members.upsert]
    split_ifs with heq hbefore
    · rw [heq]
      exact h
    · apply sortedKeys_cons.mpr
      refine ⟨?_, h⟩
      intro member hmember
      rcases List.mem_cons.mp hmember with rfl | hmember
      · exact hbefore
      · exact List.lt_trans hbefore (hless member hmember)
    · apply sortedKeys_cons.mpr
      refine ⟨?_, ih hmore⟩
      intro member hmember
      rcases mem_emplace hmember with rfl | hmember
      · exact (List.le_iff_lt_or_eq.mp (List.not_lt.mp hbefore)).resolve_right (Ne.symm heq)
      · exact hless member hmember

theorem find_eq_none (h : ∀ member ∈ members, key < member.1) :
    Members.find key members = none := by
  cases hfind : Members.find key members with
  | none => rfl
  | some value => exact absurd (h _ (mem_of_find hfind)) (List.lt_irrefl key)

/-- Only a key that is missing gets the new value. -/
theorem find_emplace (h : SortedKeys members) (other : Bytes) :
    Members.find other (Members.emplace key value members) =
      if key = other then some ((Members.find key members).getD value)
      else Members.find other members := by
  induction members with
  | nil =>
    show Members.find other [(key, value)] = _
    rw [find_cons]
    rfl
  | cons first members ih =>
    obtain ⟨name, held⟩ := first
    obtain ⟨hless, hmore⟩ := sortedKeys_cons.mp h
    unfold Members.emplace
    rw [Members.upsert]
    by_cases heq : key = name
    · subst heq
      rw [if_pos rfl, find_cons, find_cons, find_cons, if_pos rfl]
      split <;> rfl
    rw [if_neg heq]
    by_cases hbefore : key < name
    · have hnone : Members.find key ((name, held) :: members) = none := by
        apply find_eq_none
        intro member hmember
        rcases List.mem_cons.mp hmember with rfl | hmember
        · exact hbefore
        · exact List.lt_trans hbefore (hless member hmember)
      rw [if_pos hbefore, find_cons, hnone]
    · have hkept := ih hmore
      unfold Members.emplace at hkept
      rw [if_neg hbefore, find_cons, hkept, find_cons, find_cons, if_neg (Ne.symm heq)]
      by_cases hother : key = other
      · subst hother
        rw [if_neg (Ne.symm heq), if_pos rfl, if_pos rfl]
      · rw [if_neg hother, if_neg hother]

end Keys

section Answers

variable {host : Host} {func : HandlerFunction} {req : Request} {s t : ApiState} {value : Json}
  {members : Members}

/-- The members of a value; only objects have any. -/
def membersOf : Json → Members
  | .object members => members
  | .null => []
  | .array _ => []
  | .string _ => []
  | .boolean _ => []
  | .numberInteger _ => []
  | .numberUnsigned _ => []
  | .numberFloat _ => []
  | .binary _ _ => []
  | .discarded => []

/-- A response with the status 200 and an object that has all members of the
value and a zero under the key ret. -/
def Promised (host : Host) (value : Json) (res : Response) : Prop :=
  res.status = 200 ∧ ∃ members q, parse host res.body = .ok (.object members) q ∧
    (∀ key held, Members.find key (membersOf value) = some held →
      ∃ answered, Members.find key members = some answered ∧ Same held answered) ∧
    ∃ ret, Members.find (ascii "ret") members = some ret ∧ number ret = some 0

/-- The handler enqueues one response, and it is as promised. -/
def Keeps (host : Host) (func : HandlerFunction) (req : Request) (s t : ApiState)
    (value : Json) : Prop :=
  ∃ res u, (handleRequest host func req).run s = .ok ⟨⟩ u ∧
    u.session = t.session.enqueue res ∧ Promised host value res

/-- Null, or an object whose own ret, if it has one, is zero, without doubles
that JSON cannot write. -/
def Acceptable (value : Json) : Prop :=
  (value = .null ∨ ∃ members, value = .object members) ∧ FiniteDoubles value ∧
    ∀ ret, Members.find (ascii "ret") (membersOf value) = some ret → number ret = some 0

/-- The members that are dumped for null and for an object. -/
def answeredMembers (members : Members) : Members :=
  Members.emplace (ascii "ret") (.numberInteger 0) members

theorem createJsonOkRequest_eq (hkind : value = .null ∨ ∃ members, value = .object members) :
    createJsonOkRequest host req value =
      jsonResponse host 200 req (.object (answeredMembers (membersOf value))) := by
  rcases hkind with rfl | ⟨members, rfl⟩
  · rfl
  · rfl

theorem proper_number (n : Int64) : Proper (.numberInteger n) := by
  intro part hpart
  cases hpart
  trivial

theorem proper_object (hnode : ProperNode (.object members))
    (hmembers : ∀ member ∈ members, Proper member.2) : Proper (.object members) := by
  intro part hpart
  cases hpart with
  | self => exact hnode
  | member hmember hpart => exact hmembers _ hmember part hpart

theorem proper_membersOf (hproper : Proper value) : Proper (.object (membersOf value)) := by
  have hempty : Proper (.object []) := by
    apply proper_object
    · exact ⟨List.Pairwise.nil, by simp⟩
    · simp
  cases value with
  | object members => exact hproper
  | _ => exact hempty

theorem proper_answered (hproper : Proper (.object members)) :
    Proper (.object (answeredMembers members)) := by
  obtain ⟨hsorted, hkeys⟩ := hproper _ .self
  apply proper_object
  · refine ⟨sortedKeys_emplace hsorted, ?_⟩
    intro member hmember
    rcases mem_emplace hmember with rfl | hmember
    · show Utf8.WellFormed (ascii "ret")
      decide
    · exact hkeys member hmember
  · intro member hmember
    rcases mem_emplace hmember with rfl | hmember
    · exact proper_number 0
    · exact proper_member hproper hmember

/-- The doubles of null and of an object are those below the keys. -/
theorem finite_membersOf (hsorted : SortedKeys (membersOf value))
    (hkind : value = .null ∨ ∃ members, value = .object members) :
    FiniteDoubles value ↔ ∀ key held, Members.find key (membersOf value) = some held →
      FiniteDoubles held := by
  rcases hkind with rfl | ⟨members, rfl⟩
  · apply iff_of_true
    · intro x hx
      cases hx
    · intro key held h
      cases h
  · rw [finite_object]
    constructor
    · intro h key held hkey
      exact h _ (mem_of_find hkey)
    · intro h member hmember
      exact h member.1 member.2 (find_of_mem hsorted hmember)

/-- Null and objects are answered with a text that reads as their members and ret. -/
theorem exists_okResponse (hhost : RoundTrips host) (hproper : Proper value)
    (hkind : value = .null ∨ ∃ members, value = .object members) :
    ∃ res q, createJsonOkRequest host req value = .ok res ∧ res.status = 200 ∧
      parse host res.body =
        .ok (.object (rereadMembers (answeredMembers (membersOf value)))) q := by
  obtain ⟨body, q, hdump, hparse⟩ :=
    parse_dump hhost (proper_answered (proper_membersOf hproper))
  rw [createJsonOkRequest_eq hkind, jsonResponse, hdump]
  exact ⟨_, q, rfl, rfl, hparse⟩

theorem find_answered (hsorted : SortedKeys members) (key : Bytes) :
    Members.find key (rereadMembers (answeredMembers members)) =
      (if ascii "ret" = key then
        some ((Members.find (ascii "ret") members).getD (.numberInteger 0))
      else Members.find key members).map reread := by
  rw [find_rereadMembers, answeredMembers, find_emplace hsorted]

/-- A member is answered under its key, whether that is ret or not. -/
theorem find_answered_member {key : Bytes} {held : Json} (hsorted : SortedKeys members)
    (hkey : Members.find key members = some held) :
    Members.find key (rereadMembers (answeredMembers members)) = some (reread held) := by
  rw [find_answered hsorted]
  split
  · rename_i hret
    rw [hret, hkey]
    rfl
  · rw [hkey]
    rfl

theorem find_answered_ret (hsorted : SortedKeys members) :
    Members.find (ascii "ret") (rereadMembers (answeredMembers members)) =
      some (reread ((Members.find (ascii "ret") members).getD (.numberInteger 0))) := by
  rw [find_answered hsorted, if_pos rfl]
  rfl

theorem promised_iff {res : Response} {q : Parser} (hproper : Proper value)
    (hkind : value = .null ∨ ∃ members, value = .object members) (hstatus : res.status = 200)
    (hparse : parse host res.body =
      .ok (.object (rereadMembers (answeredMembers (membersOf value)))) q) :
    Promised host value res ↔ Acceptable value := by
  obtain ⟨hsorted, -⟩ := proper_membersOf hproper _ .self
  constructor
  · intro ⟨_, answered, q', hparse', hall, ret, hfound, hzero⟩
    have hsame := hparse'.symm.trans hparse
    simp only [EStateM.Result.ok.injEq, Json.object.injEq] at hsame
    obtain ⟨rfl, -⟩ := hsame
    refine ⟨hkind, (finite_membersOf hsorted hkind).mpr ?_, ?_⟩
    · intro key held hkey
      obtain ⟨other, hother, hsame⟩ := hall key held hkey
      rw [find_answered_member hsorted hkey] at hother
      obtain rfl := Option.some.inj hother
      exact (same_reread_iff held).mp hsame
    · intro held hkey
      rw [find_answered_member hsorted hkey] at hfound
      obtain rfl := Option.some.inj hfound
      rw [number_reread] at hzero
      exact hzero
  · intro ⟨_, hfinite, hzero⟩
    refine ⟨hstatus, _, q, hparse, ?_, _, find_answered_ret hsorted, ?_⟩
    · intro key held hkey
      exact ⟨_, find_answered_member hsorted hkey, (same_reread_iff held).mpr
        ((finite_membersOf hsorted hkind).mp hfinite key held hkey)⟩
    · rw [number_reread]
      cases hown : Members.find (ascii "ret") (membersOf value) with
      | none => rfl
      | some ret => exact hzero ret hown

/-- A value of another kind cannot take the key. -/
theorem createJsonOkRequest_refused
    (hkind : ¬ (value = .null ∨ ∃ members, value = .object members)) :
    ∃ arg, IsAscii arg ∧
      createJsonOkRequest host req value = .error (.json .typeError 311 arg) := by
  have hascii : IsAscii (ascii "cannot use emplace() with " ++ value.typeName) := by
    simp +decide only [isAscii_append, typeName_isAscii, and_true]
  refine ⟨_, hascii, ?_⟩
  cases value with
  | null => exact absurd (Or.inl rfl) hkind
  | object members => exact absurd (Or.inr ⟨members, rfl⟩) hkind
  | _ => rfl

/-- The value that has been returned ends in the catch clause. -/
theorem handleRequest_refused (host : Host)
    (hmethod : req.method = .get ∨ req.method = .post) (hrun : (func req).run s = .ok value t)
    (hkind : ¬ (value = .null ∨ ∃ members, value = .object members)) :
    ∃ res, (handleRequest host func req).run s =
      .ok ⟨⟩ { t with session := t.session.enqueue res } ∧ res.status = 500 := by
  obtain ⟨arg, hascii, hrefused⟩ := @createJsonOkRequest_refused host req value hkind
  have htext : Utf8.WellFormed (Exception.json .typeError 311 arg).what :=
    Utf8.wellFormed_of_isAscii (plain_json hascii)
  obtain ⟨res, hres, hstatus, -⟩ := @errorResponse_ok host req 500 _ htext
  have hthrown : (do send (← ofExcept (createJsonOkRequest host req (← func req))) :
      ApiProgram PUnit).run s = .error (.json .typeError 311 arg) t := by
    rw [bind_ok hrun, hrefused]
    rfl
  exact ⟨res, handleRequest_caught hmethod hthrown hres, hstatus⟩

theorem not_keeps_of_refused (hmethod : req.method = .get ∨ req.method = .post)
    (hrun : (func req).run s = .ok value t)
    (hkind : ¬ (value = .null ∨ ∃ members, value = .object members)) :
    ¬ Keeps host func req s t value := by
  obtain ⟨refusal, hanswered, hstatus⟩ := handleRequest_refused host hmethod hrun hkind
  intro ⟨res, u, hrun', hsession, hok, _⟩
  obtain ⟨-, rfl⟩ := EStateM.Result.ok.inj (hanswered.symm.trans hrun')
  rw [← enqueue_injective hsession, hstatus] at hok
  cases hok

/-- A returned value is answered as promised exactly when it is null or an object
whose doubles are finite and whose ret, if it has one, is zero. -/
theorem ok_response_iff (host : Host) (hhost : RoundTrips host) (func : HandlerFunction)
    (req : Request) (s t : ApiState) (value : Json)
    (hmethod : req.method = .get ∨ req.method = .post)
    (hrun : (func req).run s = .ok value t) (hproper : Proper value) :
    Keeps host func req s t value ↔ Acceptable value := by
  by_cases hkind : value = .null ∨ ∃ members, value = .object members
  · obtain ⟨res, q, hres, hstatus, hparse⟩ := @exists_okResponse host req value hhost hproper hkind
    have hanswered := handleRequest_returned hmethod hrun hres
    rw [← promised_iff hproper hkind hstatus hparse]
    constructor
    · intro ⟨other, u, hrun', hsession, hpromised⟩
      obtain ⟨-, rfl⟩ := EStateM.Result.ok.inj (hanswered.symm.trans hrun')
      rw [enqueue_injective hsession]
      exact hpromised
    · intro hpromised
      exact ⟨res, _, hanswered, rfl, hpromised⟩
  · apply iff_of_false
    · exact not_keeps_of_refused hmethod hrun hkind
    · intro hacceptable
      exact hkind hacceptable.1

end Answers

section Sample

/-- A host that writes a double as the number of its bits. -/
def bitsHost : Host :=
  { Host.zeroed with
    strtod := fun text => ⟨UInt64.ofNat (digitsValue (text.takeWhile isDigit))⟩
    toChars := fun x => decimal x.bits.toNat ++ ascii ".0" }

theorem bitsHost_roundTrips : RoundTrips bitsHost where
  text x _ := numberToken_fraction x.bits.toNat
  back x _ := by
    have hdigits : (decimal x.bits.toNat ++ ascii ".0").takeWhile isDigit =
        decimal x.bits.toNat := by
      rw [List.takeWhile_append_of_pos (fun c hc => isDigit_of_mem_decimal hc)]
      exact List.append_nil _
    show Double.mk (UInt64.ofNat (digitsValue
      ((decimal x.bits.toNat ++ ascii ".0").takeWhile isDigit))) = x
    rw [hdigits, digitsValue_decimal, UInt64.ofNat_toNat]

/-- The function of the version endpoint; its string becomes a JSON string. -/
def versionApiHandler : HandlerFunction := fun _ =>
  pure (.string (ascii "\x7b\"ret\":0,\"version\":\"1.0\"\x7d"))

def versionRequest : Request := ⟨.get, ascii "/api/v1/version", 11, true, false, []⟩

/-- The version as an object. -/
def versionObject : Json := Json.ofPairs [(ascii "version", .string (ascii "1.0"))]

theorem proper_string {text : Bytes} (h : Utf8.WellFormed text) : Proper (.string text) := by
  intro part hpart
  cases hpart
  exact h

theorem proper_versionObject : Proper versionObject := by
  apply proper_object
  · refine ⟨List.pairwise_singleton _ _, ?_⟩
    intro member hmember
    obtain rfl := List.mem_singleton.mp hmember
    decide
  · intro member hmember
    obtain rfl := List.mem_singleton.mp hmember
    exact proper_string (by decide)

theorem acceptable_versionObject : Acceptable versionObject := by
  refine ⟨Or.inr ⟨_, rfl⟩, ?_, ?_⟩
  · apply finite_object.mpr
    intro member hmember x hx
    obtain rfl := List.mem_singleton.mp hmember
    cases hx
  · intro ret hret
    cases hret

end Sample

theorem ok_response_iff_versionObject :
    Keeps bitsHost (fun _ => pure versionObject) versionRequest freshServer freshServer
      versionObject :=
  (ok_response_iff bitsHost bitsHost_roundTrips (fun _ => pure versionObject) versionRequest
    freshServer freshServer versionObject (Or.inl rfl) rfl proper_versionObject).mpr
      acceptable_versionObject

/-- The version endpoint returns a string, and every request for it is answered
with an error response. -/
theorem version_request_refused :
    (∃ version, (versionApiHandler versionRequest).run freshServer = .ok version freshServer ∧
      Proper version ∧
        ¬ Keeps bitsHost versionApiHandler versionRequest freshServer freshServer version) ∧
      ∃ res, (handleRequest bitsHost versionApiHandler versionRequest).run freshServer =
        .ok ⟨⟩ { freshServer with session := freshServer.session.enqueue res } ∧
          res.status = 500 := by
  have hkind : ∀ text, ¬ (Json.string text = .null ∨
      ∃ members, Json.string text = .object members) := by
    intro text
    simp
  constructor
  · exact ⟨_, rfl, proper_string (by decide),
      not_keeps_of_refused (Or.inl rfl) rfl (hkind _)⟩
  · exact handleRequest_refused bitsHost (Or.inl rfl) rfl (hkind _)

end BeastServer.OkResponses
