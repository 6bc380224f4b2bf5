import BeastServer.ByteStrings
import BeastServer.Patterns

/-!
The request router HttpUriRouter and the endpoints that main registers.
The patterns are matched against the whole target, so the anchors of the
source add nothing; a target that no pattern matches goes to the handler that
was registered last. The pictures of a preview have a pattern of their own,
and no endpoint registered before it can match one of its targets.
-/
namespace BeastServer.UriRouters

open ByteStrings Patterns RegularExpression

abbrev Pattern := RegularExpression UInt8

section Router

variable {H : Type}

abbrev HttpUriRouter (H : Type) := List (Pattern × H)

/-- The first handler whose pattern matches, else the last one registered. -/
def resolve (handlers : HttpUriRouter H) (path : Bytes) : Option H :=
  match handlers.find? (fun handler => handler.1.rmatch path) with
  | some handler => some handler.2
  | none => handlers.getLast?.map Prod.snd

theorem resolve_eq {earlier later : HttpUriRouter H} {pattern : Pattern} {handler : H}
    {path : Bytes} (hearlier : ∀ h ∈ earlier, h.1.rmatch path = false)
    (hmatch : pattern.rmatch path = true) :
    resolve (earlier ++ (pattern, handler) :: later) path = some handler := by
  have hnone : earlier.find? (fun handler => handler.1.rmatch path) = none := by
    rw [List.find?_eq_none]
    intro h hh
    simp [hearlier h hh]
  unfold resolve
  rw [List.find?_append, hnone, Option.none_or]
  simp [hmatch]

end Router

section Endpoints

inductive Endpoint
  | version
  | samplingStart
  | samplingStatus
  | samplingStop
  | picture
  | pictures
  | preview
  | static
  deriving DecidableEq

def digits : List UInt8 := ascii "0123456789"

/-- Any character but a line terminator. -/
def anyLetter : List UInt8 :=
  ((List.range 256).map UInt8.ofNat).filter (fun c => c != 10 && c != 13)

def versionPattern : Pattern := word (ascii "/api/v1/version")

def samplingStartPattern : Pattern := word (ascii "/api/v1/calibration/sampling/start")

def samplingStatusPattern : Pattern :=
  word (ascii "/api/v1/calibration/sampling/") * many1 (oneOf digits)

def samplingStopPattern : Pattern := word (ascii "/api/v1/calibration/sampling/stop")

def uuidLetters : List UInt8 := ascii "abcdef0123456789-"

def picturePattern : Pattern :=
  word (ascii "/api/v1/realtime/preview/picture/") *
    (many1 (oneOf uuidLetters) *
      (word (ascii "/") *
        ((word (ascii "snaps") + word (ascii "tracks")) * (word (ascii "/") * oneOf digits))))

def picturesPattern : Pattern := word (ascii "/api/v1/realtime/preview/pictures")

def previewPattern : Pattern :=
  word (ascii "/api/v1/realtime/preview") *
    Patterns.optional (word (ascii "?prev=") * many1 (oneOf anyLetter))

def staticPattern : Pattern := (oneOf anyLetter).star

def earlierHandlers : HttpUriRouter Endpoint :=
  [(versionPattern, .version), (samplingStartPattern, .samplingStart),
    (samplingStatusPattern, .samplingStatus), (samplingStopPattern, .samplingStop)]

def laterHandlers : HttpUriRouter Endpoint :=
  [(picturesPattern, .pictures), (previewPattern, .preview), (staticPattern, .static)]

/-- The endpoints in the order in which main registers them. -/
def handlers : HttpUriRouter Endpoint :=
  earlierHandlers ++ (picturePattern, .picture) :: laterHandlers

/-- The target matches the pattern of the picture handler and no pattern that
is registered before it, and the router chooses the picture handler. -/
structure Routed (path : Bytes) : Prop where
  pattern : picturePattern.rmatch path = true
  earlier : ∀ h ∈ earlierHandlers, h.1.rmatch path = false
  resolved : resolve handlers path = some .picture

theorem picturePattern_iff {path : Bytes} :
    picturePattern.rmatch path = true ↔
      ∃ id kind digit, id ≠ [] ∧ (∀ c ∈ id, c ∈ uuidLetters) ∧
        (kind = ascii "snaps" ∨ kind = ascii "tracks") ∧ digit ∈ digits ∧
        path = ascii "/api/v1/realtime/preview/picture/" ++
          (id ++ (ascii "/" ++ (kind ++ (ascii "/" ++ [digit])))) := by
  rw [rmatch_iff_matches', picturePattern]
  simp only [↓mem_word_mul, mem_mul, mem_many1_oneOf, mem_add, mem_word, mem_oneOf]
  constructor
  · rintro ⟨_, ⟨id, ⟨hne, hid⟩, _, ⟨_, ⟨kind, hkind, _, ⟨_, ⟨digit, hdigit, rfl⟩, rfl⟩, rfl⟩,
      rfl⟩, rfl⟩, rfl⟩
    exact ⟨id, kind, digit, hne, hid, hkind, hdigit, rfl⟩
  · rintro ⟨id, kind, digit, hne, hid, hkind, hdigit, rfl⟩
    exact ⟨_, ⟨id, ⟨hne, hid⟩, _, ⟨_, ⟨kind, hkind, _, ⟨_, ⟨digit, hdigit, rfl⟩, rfl⟩, rfl⟩,
      rfl⟩, rfl⟩, rfl⟩

/-- The earlier endpoints differ from the pictures in the ninth character. -/
theorem earlier_not_match {rest : Bytes} :
    ∀ h ∈ earlierHandlers,
      h.1.rmatch (ascii "/api/v1/realtime/preview/picture/" ++ rest) = false := by
  intro h hh
  rw [← Bool.not_eq_true, rmatch_iff_matches']
  have hninth : ∀ {w tail : Bytes},
      ascii "/api/v1/realtime/preview/picture/" ++ rest = w ++ tail → 9 ≤ w.length →
        w[8]? = some 114 := by
    intro w tail heq hlength
    have hget := congrArg (fun bytes : Bytes => bytes[8]?) heq
    simp only [List.getElem?_append_left (show 8 < w.length by omega)] at hget
    exact hget.symm
  have hword : ∀ {w : Bytes}, 9 ≤ w.length → w[8]? ≠ some 114 →
      ascii "/api/v1/realtime/preview/picture/" ++ rest ∉ (word w).matches' := by
    intro w hlength hne hmem
    exact hne (hninth (by rw [mem_word.mp hmem, List.append_nil]) hlength)
  simp only [earlierHandlers, List.mem_cons, List.not_mem_nil, or_false] at hh
  rcases hh with rfl | rfl | rfl | rfl
  · exact hword (by decide) (by decide)
  · exact hword (by decide) (by decide)
  · intro hmem
    obtain ⟨tail, -, heq⟩ := mem_word_mul.mp hmem
    exact absurd (hninth heq (by decide)) (by decide)
  · exact hword (by decide) (by decide)

theorem routed_of_picturePattern {path : Bytes} (h : picturePattern.rmatch path = true) :
    Routed path := by
  have hearlier : ∀ e ∈ earlierHandlers, e.1.rmatch path = false := by
    obtain ⟨id, kind, digit, -, -, -, -, rfl⟩ := picturePattern_iff.mp h
    exact earlier_not_match
  exact ⟨h, hearlier, resolve_eq hearlier h⟩

end Endpoints

end BeastServer.UriRouters
