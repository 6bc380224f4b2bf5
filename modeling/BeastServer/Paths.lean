import Mathlib.Data.List.Infix

/-!
Texts of pieces between separators, such as paths.
Splitting with compression takes a run of separators for one. The components of
a path are all its pieces, where a separator at the end does not begin another
one. Resolving a path drops the components that name the current directory and
goes up at those that name the parent; without the latter it only goes down.
-/
namespace BeastServer.Paths

variable {α : Type*} [DecidableEq α] {sep : α}

section Tokens

/-- The tokens of the text after the token that has been read so far; between
says that the text is preceded by a separator. -/
def tokensFrom (sep : α) (between : Bool) (token : List α) : List α → List (List α)
  | [] => [token]
  | c :: rest =>
    if c = sep then
      if between = true then tokensFrom sep true token rest
      else token :: tokensFrom sep true [] rest
    else tokensFrom sep false (token ++ [c]) rest

def splitCompressed (sep : α) (text : List α) : List (List α) := tokensFrom sep false [] text

/-- The first piece, and every other piece after a separator. -/
def join (sep : α) (first : List α) (pieces : List (List α)) : List α :=
  first ++ pieces.flatMap (sep :: ·)

/-- Characters between separators are read into the token. -/
theorem tokensFrom_append {piece rest token : List α} {between : Bool} (hpiece : sep ∉ piece)
    (hbetween : between = true → piece ≠ []) :
    tokensFrom sep between token (piece ++ rest) = tokensFrom sep false (token ++ piece) rest := by
  induction piece generalizing token between with
  | nil =>
    cases between with
    | false => simp
    | true => exact absurd rfl (hbetween rfl)
  | cons c piece ih =>
    obtain ⟨hc, hrest⟩ := not_or.mp (fun h => hpiece (List.mem_cons.mpr h))
    rw [List.cons_append, tokensFrom, if_neg (Ne.symm hc), ih hrest (by simp)]
    simp

/-- Splitting gives back the pieces that were joined, where only the first may be empty. -/
theorem splitCompressed_join {first : List α} {pieces : List (List α)} (hfirst : sep ∉ first)
    (hpieces : ∀ piece ∈ pieces, piece ≠ [] ∧ sep ∉ piece) :
    splitCompressed sep (join sep first pieces) = first :: pieces := by
  have hafter : ∀ (pieces : List (List α)) (token : List α),
      (∀ piece ∈ pieces, piece ≠ [] ∧ sep ∉ piece) →
        tokensFrom sep false token (pieces.flatMap (sep :: ·)) = token :: pieces := by
    intro pieces
    induction pieces with
    | nil =>
      intro token _
      rfl
    | cons piece pieces ih =>
      intro token h
      obtain ⟨hne, hpiece⟩ := h piece List.mem_cons_self
      have hrest := ih piece (fun p hp => h p (List.mem_cons_of_mem _ hp))
      rw [List.flatMap_cons, List.cons_append, tokensFrom, if_pos rfl, if_neg (by simp),
        tokensFrom_append hpiece (fun _ => hne), List.nil_append, hrest]
  rw [splitCompressed, join, tokensFrom_append hfirst (by simp), List.nil_append,
    hafter pieces first hpieces]

end Tokens

section Components

/-- The pieces of a path; a separator at the end does not begin another one. -/
def components (sep : α) (path : List α) : List (List α) :=
  let pieces := path.splitOn sep
  if pieces.getLast? = some [] then pieces.dropLast else pieces

/-- Without the last separator. -/
def withoutLast (sep : α) (path : List α) : List α :=
  if path.getLast? = some sep then path.dropLast else path

theorem components_append (dir rest : List α) :
    components sep (dir ++ sep :: rest) = dir.splitOn sep ++ components sep rest := by
  have hne : rest.splitOn sep ≠ [] := List.splitOn_ne_nil sep rest
  unfold components
  rw [List.splitOn_append_cons_self]
  simp only [List.getLast?_append_of_ne_nil _ hne]
  split
  · rw [List.dropLast_append_of_ne_nil hne]
  · rfl

/-- A path is one piece, or its last piece follows its last separator. -/
theorem splitOn_cases (sep : α) (path : List α) :
    path.splitOn sep = [path] ∨
      ∃ dir piece, path = dir ++ sep :: piece ∧ path.splitOn sep = dir.splitOn sep ++ [piece] := by
  by_cases hmem : sep ∈ path
  · obtain ⟨later, earlier, hreverse, hlater⟩ :=
      List.eq_append_cons_of_mem (List.mem_reverse.mpr hmem)
    have hpath : path = earlier.reverse ++ sep :: later.reverse := by
      rw [← List.reverse_reverse path, hreverse]
      simp
    have hpiece : later.reverse.splitOn sep = [later.reverse] :=
      List.splitOn_eq_singleton (fun h => hlater (List.mem_reverse.mp h))
    refine Or.inr ⟨earlier.reverse, later.reverse, hpath, ?_⟩
    rw [hpath, List.splitOn_append_cons_self, hpiece]
  · exact Or.inl (List.splitOn_eq_singleton hmem)

theorem getLast?_splitOn_of_ne {path : List α} (hne : path ≠ [])
    (hlast : path.getLast? ≠ some sep) : (path.splitOn sep).getLast? ≠ some [] := by
  rcases splitOn_cases sep path with hone | ⟨dir, piece, rfl, hsplit⟩
  · rw [hone]
    simpa using hne
  · rw [hsplit, List.getLast?_concat]
    intro hnil
    rw [Option.some.inj hnil, List.getLast?_concat] at hlast
    exact hlast rfl

/-- A path has the components that it has without a separator at the end. -/
theorem components_eq_splitOn {path : List α} (hne : path ≠ []) :
    components sep path = (withoutLast sep path).splitOn sep := by
  unfold withoutLast
  split
  · rename_i hlast
    obtain ⟨dir, rfl⟩ := List.getLast?_eq_some_iff.mp hlast
    have hnil : components sep ([] : List α) = [] := by simp [components]
    rw [components_append, hnil, List.dropLast_concat, List.append_nil]
  · rename_i hlast
    rw [components, if_neg (getLast?_splitOn_of_ne hne hlast)]

/-- Every piece is a part of the path. -/
theorem part_of_mem_splitOn {path piece : List α} (h : piece ∈ path.splitOn sep) :
    piece <:+: path := by
  induction hlength : path.length using Nat.strong_induction_on generalizing path with
  | _ n ih =>
    rcases splitOn_cases sep path with hone | ⟨dir, last, rfl, hsplit⟩
    · rw [hone] at h
      exact (List.mem_singleton.mp h) ▸ List.infix_refl path
    · rw [hsplit] at h
      rw [List.length_append, List.length_cons] at hlength
      rcases List.mem_append.mp h with hdir | hlast
      · exact (ih dir.length (by omega) hdir rfl).trans (List.infix_append' [] dir _)
      · rw [List.mem_singleton.mp hlast]
        exact ⟨dir ++ [sep], [], by simp⟩

theorem mem_splitOn_of_mem_components {path component : List α}
    (h : component ∈ components sep path) : component ∈ path.splitOn sep := by
  simp only [components] at h
  split at h
  · exact List.dropLast_subset _ h
  · exact h

end Components

section Resolution

variable (current parent : List α) (up : List (List α) → List (List α))

/-- The directory that the path names; up says what a parent component does. -/
def resolveStep (dir : List (List α)) (component : List α) : List (List α) :=
  if component = [] ∨ component = current then dir
  else if component = parent then up dir
  else dir ++ [component]

def resolve (components : List (List α)) : List (List α) :=
  components.foldl (resolveStep current parent up) []

/-- Components that do not name the parent lead to a place below. -/
theorem resolve_below {components below : List (List α)} (h : parent ∉ below) :
    resolve current parent up components <+:
      resolve current parent up (components ++ below) := by
  have hdown : ∀ (below dir : List (List α)), parent ∉ below →
      dir <+: below.foldl (resolveStep current parent up) dir := by
    intro below
    induction below with
    | nil =>
      intro dir _
      exact List.prefix_rfl
    | cons component below ih =>
      intro dir h
      obtain ⟨hne, hrest⟩ := not_or.mp (fun hmem => h (List.mem_cons.mpr hmem))
      have hstep : dir <+: resolveStep current parent up dir component := by
        unfold resolveStep
        split
        · exact List.prefix_rfl
        · rw [if_neg (Ne.symm hne)]
          exact List.prefix_append dir [component]
      exact hstep.trans (ih _ hrest)
  rw [resolve, resolve, List.foldl_append]
  exact hdown below _ h

end Resolution

end BeastServer.Paths
