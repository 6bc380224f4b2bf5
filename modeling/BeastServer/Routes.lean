import BeastServer.UriRouters
import Mathlib.Data.List.Nodup

/-!
Where every target is routed.
The patterns of the seven endpoints other than the static files exclude each
other, so a target is routed by its form alone and the order in which the seven
are registered does not matter. Only the static files have to come last, since
their pattern and the choice of the last handler take what is left.
-/
namespace BeastServer.Routes

open ByteStrings Patterns RegularExpression UriRouters

section Tables

variable {H : Type} {table other : HttpUriRouter H} {path : Bytes}

/-- No path is matched by two entries. -/
def Exclusive (table : HttpUriRouter H) : Prop :=
  ∀ path, ∀ first ∈ table, ∀ second ∈ table,
    first.1.rmatch path = true → second.1.rmatch path = true → first = second

/-- Where the patterns exclude each other, the first match is the only one. -/
theorem find_eq_some_iff (h : Exclusive table) {entry : Pattern × H} :
    table.find? (fun handler => handler.1.rmatch path) = some entry ↔
      entry ∈ table ∧ entry.1.rmatch path = true := by
  constructor
  · intro hfind
    exact ⟨List.mem_of_find?_eq_some hfind,
      @List.find?_some _ (fun handler : Pattern × H => handler.1.rmatch path) entry table hfind⟩
  · intro ⟨hmem, hmatch⟩
    cases hfind : table.find? (fun handler => handler.1.rmatch path) with
    | none => exact absurd hmatch (List.find?_eq_none.mp hfind entry hmem)
    | some found =>
      have hfound : found.1.rmatch path = true :=
        @List.find?_some _ (fun handler : Pattern × H => handler.1.rmatch path) found table hfind
      rw [h path found (List.mem_of_find?_eq_some hfind) entry hmem hfound hmatch]

theorem find_perm (h : Exclusive table) (hperm : other.Perm table) :
    other.find? (fun handler => handler.1.rmatch path) =
      table.find? (fun handler => handler.1.rmatch path) := by
  have hother : Exclusive other := by
    intro path first hfirst second hsecond
    exact h path first (hperm.mem_iff.mp hfirst) second (hperm.mem_iff.mp hsecond)
  apply Option.ext
  intro entry
  rw [find_eq_some_iff h, find_eq_some_iff hother, hperm.mem_iff]

/-- The last entry gets what no other entry matches, whether it matches it or not. -/
theorem resolve_append_singleton (last : Pattern × H) :
    resolve (table ++ [last]) path =
      some (((table.find? (fun handler => handler.1.rmatch path)).getD last).2) := by
  unfold resolve
  rw [List.find?_append]
  cases table.find? (fun handler => handler.1.rmatch path) with
  | some entry => rfl
  | none =>
    rw [Option.none_or, List.find?_singleton]
    split
    · rename_i handler heq
      split at heq
      · rw [← Option.some.inj heq]
        rfl
      · cases heq
    · simp

end Tables

section Forms

/-- The endpoints other than the static files, as they are registered. -/
def apiHandlers : HttpUriRouter Endpoint :=
  [(versionPattern, .version), (samplingStartPattern, .samplingStart),
    (samplingStatusPattern, .samplingStatus), (samplingStopPattern, .samplingStop),
    (picturePattern, .picture), (picturesPattern, .pictures), (previewPattern, .preview)]

theorem handlers_eq : handlers = apiHandlers ++ [(staticPattern, .static)] := rfl

/-- The targets of the endpoints by their form. -/
def Addressed : Endpoint → Bytes → Prop
  | .version, target => target = ascii "/api/v1/version"
  | .samplingStart, target => target = ascii "/api/v1/calibration/sampling/start"
  | .samplingStatus, target => ∃ id, id ≠ [] ∧ (∀ c ∈ id, c ∈ digits) ∧
      target = ascii "/api/v1/calibration/sampling/" ++ id
  | .samplingStop, target => target = ascii "/api/v1/calibration/sampling/stop"
  | .picture, target => ∃ id kind digit, id ≠ [] ∧ (∀ c ∈ id, c ∈ uuidLetters) ∧
      (kind = ascii "snaps" ∨ kind = ascii "tracks") ∧ digit ∈ digits ∧
      target = ascii "/api/v1/realtime/preview/picture/" ++
        (id ++ (ascii "/" ++ (kind ++ (ascii "/" ++ [digit]))))
  | .pictures, target => target = ascii "/api/v1/realtime/preview/pictures"
  | .preview, target => target = ascii "/api/v1/realtime/preview" ∨
      ∃ prev, prev ≠ [] ∧ (∀ c ∈ prev, c ∈ anyLetter) ∧
        target = ascii "/api/v1/realtime/preview?prev=" ++ prev
  | .static, _ => False

theorem mem_optional {α : Type} {P : RegularExpression α} {x : List α} :
    x ∈ (Patterns.optional P).matches' ↔ x ∈ P.matches' ∨ x = [] := by
  rw [Patterns.optional, mem_add, matches'_epsilon, Language.mem_one]

theorem addressed_iff {target : Bytes} :
    ∀ entry ∈ apiHandlers, entry.1.rmatch target = true ↔ Addressed entry.2 target := by
  intro entry hentry
  simp only [apiHandlers, List.mem_cons, List.not_mem_nil, or_false] at hentry
  rcases hentry with rfl | rfl | rfl | rfl | rfl | rfl | rfl
  · rw [rmatch_iff_matches', versionPattern, mem_word]
    rfl
  · rw [rmatch_iff_matches', samplingStartPattern, mem_word]
    rfl
  · rw [rmatch_iff_matches', samplingStatusPattern, mem_word_mul]
    simp only [mem_many1_oneOf, Addressed, and_assoc]
  · rw [rmatch_iff_matches', samplingStopPattern, mem_word]
    rfl
  · exact picturePattern_iff
  · rw [rmatch_iff_matches', picturesPattern, mem_word]
    rfl
  · rw [rmatch_iff_matches', previewPattern, mem_word_mul]
    have hquery : ascii "/api/v1/realtime/preview?prev=" =
        ascii "/api/v1/realtime/preview" ++ ascii "?prev=" := by decide
    simp only [mem_optional, ↓mem_word_mul, mem_many1_oneOf, Addressed, hquery, List.append_assoc]
    constructor
    · rintro ⟨rest, ⟨prev, ⟨hne, hletters⟩, rfl⟩ | rfl, rfl⟩
      · exact Or.inr ⟨prev, hne, hletters, rfl⟩
      · exact Or.inl (List.append_nil _)
    · rintro (rfl | ⟨prev, hne, hletters, rfl⟩)
      · exact ⟨[], Or.inr rfl, (List.append_nil _).symm⟩
      · exact ⟨ascii "?prev=" ++ prev, Or.inl ⟨prev, ⟨hne, hletters⟩, rfl⟩, rfl⟩

/-- A few letters of a target tell the endpoint that it can belong to. -/
def formOf (target : Bytes) : Endpoint :=
  if target[8]? = some 118 then .version
  else if target[8]? = some 99 then
    if target[29]? = some 115 then
      if target[31]? = some 97 then .samplingStart else .samplingStop
    else .samplingStatus
  else if target[24]? = some 47 then
    if target[32]? = some 115 then .pictures else .picture
  else .preview

theorem formOf_addressed {endpoint : Endpoint} {target : Bytes} (h : Addressed endpoint target) :
    formOf target = endpoint := by
  cases endpoint with
  | version =>
    obtain rfl : target = _ := h
    decide
  | samplingStart =>
    obtain rfl : target = _ := h
    decide
  | samplingStatus =>
    obtain ⟨id, hne, hdigits, rfl⟩ := h
    obtain ⟨c, rest, rfl⟩ := List.exists_cons_of_ne_nil hne
    have hc : c ≠ 115 := by
      rintro rfl
      exact absurd (hdigits 115 List.mem_cons_self) (by decide)
    have hletter : (ascii "/api/v1/calibration/sampling/" ++ c :: rest)[29]? = some c := rfl
    have hform : formOf (ascii "/api/v1/calibration/sampling/" ++ c :: rest) =
        if (ascii "/api/v1/calibration/sampling/" ++ c :: rest)[29]? = some 115 then
          if (ascii "/api/v1/calibration/sampling/" ++ c :: rest)[31]? = some 97 then
            .samplingStart
          else .samplingStop
        else .samplingStatus := rfl
    rw [hform, hletter, if_neg (by simp [hc])]
  | samplingStop =>
    obtain rfl : target = _ := h
    decide
  | picture =>
    obtain ⟨id, kind, digit, -, -, -, -, rfl⟩ := h
    rfl
  | pictures =>
    obtain rfl : target = _ := h
    decide
  | preview =>
    rcases h with rfl | ⟨prev, -, -, rfl⟩
    · decide
    · rfl
  | static => cases h

theorem addressed_unique {first second : Endpoint} {target : Bytes}
    (hfirst : Addressed first target) (hsecond : Addressed second target) : first = second :=
  (formOf_addressed hfirst).symm.trans (formOf_addressed hsecond)

/-- Every endpoint is registered once. -/
theorem apiHandlers_endpoint : ∀ first ∈ apiHandlers, ∀ second ∈ apiHandlers,
    first.2 = second.2 → first = second := by
  have hnodup : (apiHandlers.map Prod.snd).Nodup := by decide
  intro first hfirst second hsecond heq
  exact List.inj_on_of_nodup_map hnodup hfirst hsecond heq

theorem apiHandlers_exclusive : Exclusive apiHandlers := by
  intro path first hfirst second hsecond hmatch hmatch'
  apply apiHandlers_endpoint first hfirst second hsecond
  exact addressed_unique ((addressed_iff first hfirst).mp hmatch)
    ((addressed_iff second hsecond).mp hmatch')

end Forms

section Orders

variable {target : Bytes} {endpoint : Endpoint}

theorem mem_apiHandlers (h : Addressed endpoint target) :
    ∃ pattern, (pattern, endpoint) ∈ apiHandlers := by
  cases endpoint with
  | static => cases h
  | _ => simp [apiHandlers]

/-- A target goes to the endpoint of its form, and all others to the static files. -/
theorem resolve_iff :
    resolve handlers target = some endpoint ↔
      Addressed endpoint target ∨ endpoint = .static ∧ ∀ other, ¬ Addressed other target := by
  rw [handlers_eq, resolve_append_singleton, Option.some.injEq]
  cases hfind : apiHandlers.find? (fun handler => handler.1.rmatch target) with
  | some entry =>
    obtain ⟨hmem, hmatch⟩ := (find_eq_some_iff apiHandlers_exclusive).mp hfind
    have haddressed := (addressed_iff entry hmem).mp hmatch
    rw [Option.getD_some]
    constructor
    · rintro rfl
      exact Or.inl haddressed
    · intro h
      rcases h with h | ⟨-, hnone⟩
      · exact addressed_unique haddressed h
      · exact absurd haddressed (hnone _)
  | none =>
    have hnone : ∀ other, ¬ Addressed other target := by
      intro other haddressed
      obtain ⟨pattern, hmem⟩ := mem_apiHandlers haddressed
      exact List.find?_eq_none.mp hfind _ hmem ((addressed_iff _ hmem).mpr haddressed)
    rw [Option.getD_none]
    constructor
    · rintro rfl
      exact Or.inr ⟨rfl, hnone⟩
    · intro h
      rcases h with h | ⟨rfl, -⟩
      · exact absurd h (hnone _)
      · rfl

/-- Whatever the order in which the seven endpoints are registered before the
static files, every target is routed by its form. -/
theorem routed_by_form (table : HttpUriRouter Endpoint) (h : table.Perm apiHandlers)
    (target : Bytes) (endpoint : Endpoint) :
    resolve (table ++ [(staticPattern, .static)]) target = some endpoint ↔
      Addressed endpoint target ∨ endpoint = .static ∧ ∀ other, ¬ Addressed other target := by
  rw [← resolve_iff, handlers_eq, resolve_append_singleton, resolve_append_singleton,
    find_perm apiHandlers_exclusive h]

/-- The target that main.cpp names in a comment. -/
def snapTarget : Bytes := ascii "/api/v1/realtime/preview/snap/0f-3/0"

theorem snapTarget_unaddressed (other : Endpoint) : ¬ Addressed other snapTarget := by
  have hfront : ∀ {front rest : Bytes}, snapTarget = front ++ rest →
      snapTarget.take front.length = front := by
    intro front rest h
    rw [h, List.take_left]
  intro h
  cases other with
  | version => exact (by decide : snapTarget ≠ _) h
  | samplingStart => exact (by decide : snapTarget ≠ _) h
  | samplingStatus =>
    obtain ⟨id, -, -, hid⟩ := h
    exact absurd (hfront hid) (by decide)
  | samplingStop => exact (by decide : snapTarget ≠ _) h
  | picture =>
    obtain ⟨id, kind, digit, -, -, -, -, hpicture⟩ := h
    exact absurd (hfront hpicture) (by decide)
  | pictures => exact (by decide : snapTarget ≠ _) h
  | preview =>
    rcases h with hpreview | ⟨prev, -, -, hprev⟩
    · exact absurd hpreview (by decide)
    · exact absurd (hfront hprev) (by decide)
  | static => exact h

/-- Targets of endpoints with parts of their own, and one of the static files. -/
theorem routed_by_form_reversed :
    resolve (apiHandlers.reverse ++ [(staticPattern, .static)])
        (ascii "/api/v1/calibration/sampling/42") = some .samplingStatus ∧
      resolve (apiHandlers.reverse ++ [(staticPattern, .static)])
        (ascii "/api/v1/realtime/preview/picture/0f-3/tracks/9") = some .picture ∧
      resolve (apiHandlers.reverse ++ [(staticPattern, .static)])
        (ascii "/api/v1/realtime/preview?prev=0f-3") = some .preview ∧
      resolve (apiHandlers.reverse ++ [(staticPattern, .static)]) snapTarget = some .static := by
  have hreversed : apiHandlers.reverse.Perm apiHandlers := List.reverse_perm apiHandlers
  refine ⟨(routed_by_form _ hreversed _ _).mpr (Or.inl ?_),
    (routed_by_form _ hreversed _ _).mpr (Or.inl ?_),
    (routed_by_form _ hreversed _ _).mpr (Or.inl ?_),
    (routed_by_form _ hreversed _ _).mpr (Or.inr ⟨rfl, snapTarget_unaddressed⟩)⟩
  · exact ⟨ascii "42", by decide +kernel, by decide +kernel, rfl⟩
  · exact ⟨ascii "0f-3", ascii "tracks", 57, by decide +kernel, by decide +kernel, Or.inr rfl,
      by decide +kernel, rfl⟩
  · exact Or.inr ⟨ascii "0f-3", by decide +kernel, by decide +kernel, rfl⟩

end Orders

end BeastServer.Routes
