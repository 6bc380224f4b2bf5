import BeastServer.StaticRequests
import Mathlib.Data.List.TakeWhile

/-!
Containment of the files that are served.
A target that passes the guard has no parent component, and index.html is
appended behind a slash. So every path is the root without a slash at its end,
a slash, and a text whose pieces do not name the parent. The loop ends because
each round makes the path longer, and long paths are no directories.
-/
namespace BeastServer.ContainedPaths

open ByteStrings Programs HttpMessages Paths StaticRequests

def current : Bytes := ascii "."

def parent : Bytes := ascii ".."

/-- The path has the components of the root and then some that do not name the
parent, so whatever a parent component does, it resolves to a place below. -/
def Below (documentRoot path : Bytes) : Prop :=
  ∃ rest, components slash path = components slash documentRoot ++ rest ∧ parent ∉ rest ∧
    ∀ up, resolve current parent up (components slash documentRoot) <+:
      resolve current parent up (components slash path)

section Guard

theorem find_eq_none_iff {needle text : Bytes} : find needle text = none ↔ ¬ needle <:+: text := by
  rw [find, List.findIdx?_eq_none_iff, List.infix_iff_prefix_suffix]
  constructor
  · intro h hpart
    obtain ⟨tail, hfront, hsuffix⟩ := hpart
    have hfalse := h tail ((List.mem_tails tail text).mpr hsuffix)
    rw [List.isPrefixOf_iff_prefix.mpr hfront] at hfalse
    cases hfalse
  · intro h tail htail
    apply Bool.eq_false_iff.mpr
    intro hfront
    exact h ⟨tail, List.isPrefixOf_iff_prefix.mp hfront, (List.mem_tails tail text).mp htail⟩

theorem eq_cons_of_legal {target : Bytes} (h : ¬ Illegal target) :
    ∃ rest, target = slash :: rest ∧ ¬ parent <:+: rest := by
  unfold Illegal at h
  obtain ⟨hne, hrest⟩ := not_or.mp h
  obtain ⟨hfirst, hfind⟩ := not_or.mp hrest
  cases target with
  | nil => exact absurd rfl hne
  | cons c rest =>
    have hc : c = slash := Option.some.inj (not_not.mp hfirst)
    refine ⟨rest, by rw [hc], ?_⟩
    intro hpart
    exact find_eq_none_iff.mp (not_not.mp hfind) (hpart.trans (List.suffix_cons c rest).isInfix)

end Guard

section Inside

variable {documentRoot path target file : Bytes}

/-- The form of the paths of the handler. -/
structure Inside (documentRoot path : Bytes) : Prop where
  form : ∃ rest, path = withoutLast slash documentRoot ++ slash :: rest ∧
    parent ∉ rest.splitOn slash
  nul : 0 ∉ path

theorem cString_eq (h : 0 ∉ path) : cString path = path := by
  apply List.takeWhile_eq_self_iff.mpr
  intro c hc
  apply decide_eq_true
  rintro rfl
  exact h hc

theorem Inside.below (hne : documentRoot ≠ []) (h : Inside documentRoot path) :
    Below documentRoot path := by
  obtain ⟨rest, hpath, hparent⟩ := h.form
  have hcomponents : components slash path =
      components slash documentRoot ++ components slash rest := by
    rw [hpath, components_append, components_eq_splitOn hne]
  have hbelow : parent ∉ components slash rest :=
    fun hmem => hparent (mem_splitOn_of_mem_components hmem)
  refine ⟨components slash rest, hcomponents, hbelow, ?_⟩
  intro up
  rw [hcomponents]
  exact resolve_below current parent up hbelow

theorem pieces_of_not_part {rest : Bytes} (h : ¬ parent <:+: rest) :
    parent ∉ rest.splitOn slash :=
  fun hmem => h (part_of_mem_splitOn hmem)

theorem indexFile_pieces : parent ∉ (ascii "index.html").splitOn slash := by
  rw [List.splitOn_eq_singleton (by decide)]
  decide

theorem index_pieces {rest : Bytes} (h : parent ∉ rest.splitOn slash) :
    parent ∉ (rest ++ slash :: ascii "index.html").splitOn slash := by
  rw [List.splitOn_append_cons_self]
  intro hmem
  rcases List.mem_append.mp hmem with hfront | hindex
  · exact h hfront
  · exact indexFile_pieces hindex

/-- The index file of a directory inside is inside. -/
theorem Inside.index (h : Inside documentRoot path) :
    Inside documentRoot (path ++ ascii "/index.html") := by
  obtain ⟨rest, hpath, hparent⟩ := h.form
  have hslash : ascii "/index.html" = slash :: ascii "index.html" := by decide
  constructor
  · refine ⟨rest ++ slash :: ascii "index.html", ?_, index_pieces hparent⟩
    rw [hpath, hslash, List.append_assoc, List.cons_append]
  · intro hmem
    rcases List.mem_append.mp hmem with hfront | hindex
    · exact h.nul hfront
    · exact absurd hindex (by decide)

theorem startPath_nul (hrootNul : 0 ∉ documentRoot) (hnul : 0 ∉ target) :
    0 ∉ startPath documentRoot target := by
  have hroot : 0 ∉ withoutLast slash documentRoot := by
    unfold withoutLast
    split
    · exact fun hmem => hrootNul (List.dropLast_subset _ hmem)
    · exact hrootNul
  have hconcat : 0 ∉ pathConcat documentRoot target := by
    unfold pathConcat
    split
    · exact hnul
    · intro hmem
      rcases List.mem_append.mp hmem with hfront | htarget
      · exact hroot hfront
      · exact hnul htarget
  unfold startPath
  simp only
  split
  · intro hmem
    rcases List.mem_append.mp hmem with hfront | hindex
    · exact hconcat hfront
    · exact absurd hindex (by decide)
  · exact hconcat

/-- The path of a target that passes the guard is inside. Where index.html is
appended, the slash before it is the one at the end of the target. -/
theorem inside_startPath (hne : documentRoot ≠ []) (hrootNul : 0 ∉ documentRoot)
    (hlegal : ¬ Illegal target) (hnul : 0 ∉ target) :
    Inside documentRoot (startPath documentRoot target) := by
  refine ⟨?_, startPath_nul hrootNul hnul⟩
  obtain ⟨rest, rfl, hparent⟩ := eq_cons_of_legal hlegal
  unfold startPath pathConcat
  simp only [if_neg hne]
  split
  · rename_i hlast
    rcases List.eq_nil_or_concat rest with rfl | ⟨front, c, rfl⟩
    · exact ⟨ascii "index.html", by simp, indexFile_pieces⟩
    · rw [List.concat_eq_append] at hlast hparent ⊢
      rw [← List.cons_append, List.getLast?_concat] at hlast
      obtain rfl := Option.some.inj hlast
      have hfront : ¬ parent <:+: front :=
        fun hpart => hparent (hpart.trans (List.prefix_append front _).isInfix)
      refine ⟨front ++ slash :: ascii "index.html", by simp, ?_⟩
      exact index_pieces (pieces_of_not_part hfront)
  · exact ⟨rest, rfl, pieces_of_not_part hparent⟩

end Inside

section Ending

variable {fs : FileSystem} {documentRoot path : Bytes} {bound : ℕ}

/-- The loop ends, since its path gets too long to be a directory. -/
theorem leadsTo_of_bound (hbound : ∀ p : Bytes, bound < p.length → fs.isDirectory p = false)
    (h : Inside documentRoot path) : ∃ file, LeadsTo fs path file := by
  have hrounds : ∀ n (path : Bytes), Inside documentRoot path → bound < path.length + n →
      ∃ file, LeadsTo fs path file := by
    intro n
    induction n with
    | zero =>
      intro path h hlength
      refine ⟨path, .file ?_⟩
      rw [cString_eq h.nul]
      exact hbound path hlength
    | succ n ih =>
      intro path h hlength
      cases hdirectory : fs.isDirectory (cString path) with
      | false => exact ⟨path, .file hdirectory⟩
      | true =>
        have hindex : (ascii "/index.html").length = 11 := by decide
        have hlonger : bound < (path ++ ascii "/index.html").length + n := by
          rw [List.length_append, hindex]
          omega
        obtain ⟨file, hfile⟩ := ih (path ++ ascii "/index.html") h.index hlonger
        exact ⟨file, .directory hdirectory hfile⟩
  exact hrounds (bound + 1) path h (by omega)

end Ending

/-- The loop ends, and every path that the handler passes to stat or opens lies
below the document root. -/
theorem accesses_below_root (fs : FileSystem) (documentRoot : Bytes) (req : Request) (bound : ℕ)
    (hne : documentRoot ≠ []) (hrootNul : 0 ∉ documentRoot) (hlegal : ¬ Illegal req.target)
    (hnul : 0 ∉ req.target) (hbound : ∀ p : Bytes, bound < p.length → fs.isDirectory p = false)
    (s : StaticState) :
    ∃ enough accesses res,
      (∀ rounds, enough ≤ rounds → (handleRequest fs documentRoot rounds req).run s =
        .ok ⟨⟩ ⟨s.accesses ++ accesses, s.session.enqueue res⟩) ∧
      ∀ access ∈ accesses, Below documentRoot access.path := by
  cases hrefusal : refusal req with
  | some res =>
    refine ⟨0, [], res, ?_, by simp⟩
    intro rounds _
    rw [handleRequest_refused hrefusal, List.append_nil]
  | none =>
    have hinside := inside_startPath hne hrootNul hlegal hnul
    obtain ⟨file, hfile⟩ := leadsTo_of_bound hbound hinside
    obtain ⟨hinsideFile, enough, stats, hstats, hrun⟩ :=
      indexLoop_run (fun p hp => Inside.index hp) hfile hinside s
    refine ⟨enough, stats ++ [.openFile (cString file)], answer fs req file, ?_, ?_⟩
    · intro rounds hrounds
      rw [handleRequest_served hrefusal, bind_ok (hrun rounds hrounds), serve_run,
        List.append_assoc]
    · intro access haccess
      rcases List.mem_append.mp haccess with hstat | hopen
      · obtain ⟨p, hp, rfl⟩ := hstats access hstat
        rw [Access.path, cString_eq hp.nul]
        exact hp.below hne
      · rw [List.mem_singleton.mp hopen, Access.path, cString_eq hinsideFile.nul]
        exact hinsideFile.below hne

section Sample

/-- A file system with one directory, which has an index file. -/
def docsOnly : FileSystem where
  isDirectory path := decide (path = ascii "/srv/docs")
  openFile path :=
    if path = ascii "/srv/docs/index.html" then .ok [1, 2] else .error .noSuchFile

def getDocs : Request := ⟨.get, ascii "/docs", 11, true, false, []⟩

def idle : StaticState := ⟨[], HttpSessions.HttpSession.run 0⟩

end Sample

theorem accesses_below_root_docs :
    ∃ enough accesses res,
      (∀ rounds, enough ≤ rounds →
        (handleRequest docsOnly (ascii "/srv/") rounds getDocs).run idle =
          .ok ⟨⟩ ⟨idle.accesses ++ accesses, idle.session.enqueue res⟩) ∧
      ∀ access ∈ accesses, Below (ascii "/srv/") access.path := by
  refine accesses_below_root docsOnly (ascii "/srv/") getDocs 9 (by decide) (by decide)
    (by decide) (by decide) ?_ idle
  intro p hlength
  apply decide_eq_false
  rintro rfl
  exact absurd hlength (by decide)

end BeastServer.ContainedPaths
