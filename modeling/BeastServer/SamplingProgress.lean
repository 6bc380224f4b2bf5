import BeastServer.SamplingBlocks

/-!
The progress that a sampling reports, against the condition that ends it.
Both limits give a percentage with truncating division; their maximum reaches a
hundred when the condition holds. The product overflows for a long timeout, and
while the snap that is one too many has not been dropped, it is counted.
-/
namespace BeastServer.SamplingProgress

open Machines SamplingBlocks SamplingBlock

section Percentages

/-- One of the two percentages; a limit that is not positive counts as none. -/
def share (x limit : Int32) : Int32 :=
  if limit > 0 then min (x * 100 / limit) 100 else 0

/-- SamplingBlock::progress -/
def progress (block : SamplingBlock) : Int32 :=
  let p0 := share block.elapsed block.timeout
  let p1 := share (Int32.ofNat block.snaps.length) block.snapsNeeded
  max p0 p1

/-- The percentage over the integers. -/
def percent (x limit : ℤ) : ℤ := if 0 < limit then min (x * 100 / limit) 100 else 0

def InRange (x : ℤ) : Prop := -2 ^ 31 ≤ x ∧ x < 2 ^ 31

variable {x y limit : ℤ}

theorem toInt_min (a b : Int32) : (min a b).toInt = min a.toInt b.toInt := by
  show (if a ≤ b then a else b).toInt = _
  by_cases hle : a ≤ b
  · rw [if_pos hle, min_eq_left (Int32.le_iff_toInt_le.mp hle)]
  · rw [if_neg hle, min_eq_right]
    have hlt := mt Int32.le_iff_toInt_le.mpr hle
    omega

theorem toInt_max (a b : Int32) : (max a b).toInt = max a.toInt b.toInt := by
  show (if a ≤ b then b else a).toInt = _
  by_cases hle : a ≤ b
  · rw [if_pos hle, max_eq_right (Int32.le_iff_toInt_le.mp hle)]
  · rw [if_neg hle, max_eq_left]
    have hlt := mt Int32.le_iff_toInt_le.mpr hle
    omega

theorem bmod_of_inRange (h : InRange x) : x.bmod (2 ^ 32) = x := by
  obtain ⟨hlow, hhigh⟩ := h
  exact Int.bmod_eq_of_le (by omega) (by omega)

theorem share_toInt {x limit : Int32} (hx : 0 ≤ x.toInt)
    (hproduct : 0 < limit.toInt → InRange (x.toInt * 100)) :
    (share x limit).toInt = percent x.toInt limit.toInt := by
  unfold share percent
  by_cases hpos : 0 < limit.toInt
  · have hrange := hproduct hpos
    have hquotient : InRange (x.toInt * 100 / limit.toInt) := by
      have hnonneg : 0 ≤ x.toInt * 100 / limit.toInt := Int.ediv_nonneg (by omega) (by omega)
      have hle : x.toInt * 100 / limit.toInt ≤ x.toInt * 100 := Int.ediv_le_self _ (by omega)
      obtain ⟨-, hhigh⟩ := hrange
      exact ⟨by omega, by omega⟩
    have hhundred : (100 : Int32).toInt = 100 := by decide
    rw [if_pos (pos_iff.mpr hpos), if_pos hpos, toInt_min, Int32.toInt_div, Int32.toInt_mul,
      hhundred, bmod_of_inRange hrange, Int.tdiv_eq_ediv_of_nonneg (by omega),
      bmod_of_inRange hquotient]
  · rw [if_neg (fun h => hpos (pos_iff.mp h)), if_neg hpos]
    rfl

theorem percent_mono (h : x ≤ y) : percent x limit ≤ percent y limit := by
  unfold percent
  split
  · rename_i hpos
    have hdiv : x * 100 / limit ≤ y * 100 / limit := Int.ediv_le_ediv hpos (by omega)
    omega
  · exact le_refl 0

theorem percent_thirty : percent 30 limit = if 0 < limit then min (3000 / limit) 100 else 0 := rfl

theorem percent_thirtyOne :
    percent 31 limit = if 0 < limit then min (3100 / limit) 100 else 0 := rfl

theorem percent_nonneg (h : 0 ≤ x) : 0 ≤ percent x limit := by
  unfold percent
  split
  · have hnonneg : 0 ≤ x * 100 / limit := Int.ediv_nonneg (by omega) (by omega)
    omega
  · exact le_refl 0

theorem percent_le : percent x limit ≤ 100 := by
  unfold percent
  split <;> omega

theorem percent_eq_hundred_iff : percent x limit = 100 ↔ 0 < limit ∧ limit ≤ x := by
  unfold percent
  by_cases hpos : 0 < limit
  · rw [if_pos hpos]
    have hdiv : 100 ≤ x * 100 / limit ↔ 100 * limit ≤ x * 100 := Int.le_ediv_iff_mul_le hpos
    omega
  · rw [if_neg hpos]
    omega

end Percentages

section Runs

/-- The two conditions coincide in this state, and the products are exact. -/
structure Agrees (block : SamplingBlock) : Prop where
  nonneg : 0 ≤ (progress block).toInt
  le_hundred : (progress block).toInt ≤ 100
  done_iff : (progress block).toInt = 100 ↔ block.Done
  time_fits : block.timeout > 0 → InRange (block.elapsed.toInt * 100)
  snaps_fit : block.snapsNeeded > 0 →
    InRange ((Int32.ofNat block.snaps.length).toInt * 100)

/-- In all observed states of a run the conditions coincide, and the progress
of a later state is not less. -/
def AgreesOn (observed : SamplingBlock → Prop) (M : Machine Stoppable Event) : Prop :=
  ∀ before after, M.Admissible (before ++ after) → observed (M.run (before ++ after)).block →
    Agrees (M.run (before ++ after)).block ∧
      (observed (M.run before).block → (progress (M.run before).block).toInt ≤
        (progress (M.run (before ++ after)).block).toInt)

/-- The seconds can be counted up to a number whose hundredfold is no int. -/
def Overflows (timeout snapsNeeded : Int32) : Prop :=
  21474837 ≤ timeout.toInt ∧ ¬ (1 ≤ snapsNeeded.toInt ∧ snapsNeeded.toInt ≤ 30)

/-- The thirty-first snap is counted, shows in the progress, and is dropped. -/
def Dips (timeout snapsNeeded : Int32) : Prop :=
  31 ≤ snapsNeeded.toInt ∧ 3000 / snapsNeeded.toInt < 3100 / snapsNeeded.toInt ∧
    (timeout.toInt ≤ 0 ∨
      (31 ≤ timeout.toInt ∧ 3100 / timeout.toInt < 3100 / snapsNeeded.toInt))

variable {timeout snapsNeeded : Int32} {block : SamplingBlock} {id : UInt64}
  {before after : List Event}

theorem snaps_le (h : Tracked timeout snapsNeeded block) :
    block.snaps.length ≤ maxSnaps + 1 := by
  have hlisted := h.listed
  cases hposition : block.position <;> simp only [hposition, Listed] at hlisted <;> omega

/-- The seconds counted so far do not exceed the timeout. -/
theorem sampled_le (h : Tracked timeout snapsNeeded block) (hpos : 0 < timeout.toInt) :
    (block.sampled : ℤ) ≤ timeout.toInt := by
  rcases Nat.eq_zero_or_pos block.sampled with hzero | hsampled
  · omega
  · have hbefore := h.before (block.sampled - 1) (by omega)
    by_contra hlt
    exact hbefore (Or.inl ⟨hpos, by omega⟩)

theorem sampled_toInt (h : Tracked timeout snapsNeeded block) (hpos : 0 < timeout.toInt) :
    block.elapsed.toInt = block.sampled := by
  have hle := sampled_le h hpos
  have hmax := Int32.toInt_lt timeout
  rw [h.elapsed, toInt_ofNat (by omega)]

theorem sampled_inRange (h : Tracked timeout snapsNeeded block)
    (hfits : ¬ Overflows timeout snapsNeeded) (hpos : 0 < timeout.toInt) :
    InRange ((block.sampled : ℤ) * 100) := by
  have hle := sampled_le h hpos
  have hfew : (block.sampled : ℤ) ≤ 21474836 := by
    by_contra hmany
    refine hfits ⟨by omega, ?_⟩
    intro hsnaps
    exact h.before 30 (by omega) (Or.inr ⟨by omega, by unfold maxSnaps; omega⟩)
  exact ⟨by omega, by omega⟩

theorem snaps_toInt (h : Tracked timeout snapsNeeded block) :
    (Int32.ofNat block.snaps.length).toInt = block.snaps.length ∧
      InRange ((block.snaps.length : ℤ) * 100) := by
  have hle := snaps_le h
  unfold maxSnaps at hle
  exact ⟨toInt_ofNat (by omega), by omega, by omega⟩

/-- Without overflow, the progress is the greater of the two percentages. -/
theorem progress_toInt (h : Tracked timeout snapsNeeded block)
    (hfits : ¬ Overflows timeout snapsNeeded) :
    (progress block).toInt = max (percent block.sampled timeout.toInt)
      (percent block.snaps.length snapsNeeded.toInt) := by
  obtain ⟨hlength, hproduct⟩ := snaps_toInt h
  have htime : (share block.elapsed block.timeout).toInt =
      percent block.sampled timeout.toInt := by
    rw [h.limits.1]
    by_cases hpos : 0 < timeout.toInt
    · have helapsed := sampled_toInt h hpos
      rw [← helapsed]
      refine share_toInt (by omega) (fun _ => ?_)
      rw [helapsed]
      exact sampled_inRange h hfits hpos
    · rw [share, percent, if_neg (fun hgt => hpos (pos_iff.mp hgt)), if_neg hpos]
      rfl
  have hsnaps : (share (Int32.ofNat block.snaps.length) block.snapsNeeded).toInt =
      percent block.snaps.length snapsNeeded.toInt := by
    rw [h.limits.2, ← hlength]
    refine share_toInt (by omega) (fun _ => ?_)
    rw [hlength]
    exact hproduct
  unfold progress
  rw [toInt_max, htime, hsnaps]

theorem agrees (h : Tracked timeout snapsNeeded block)
    (hfits : ¬ Overflows timeout snapsNeeded) : Agrees block := by
  obtain ⟨hlength, hproduct⟩ := snaps_toInt h
  have hprogress := progress_toInt h hfits
  have htimeHundred := @percent_eq_hundred_iff block.sampled timeout.toInt
  have hsnapsHundred := @percent_eq_hundred_iff block.snaps.length snapsNeeded.toInt
  have htimeLe := @percent_le block.sampled timeout.toInt
  have hsnapsLe := @percent_le block.snaps.length snapsNeeded.toInt
  have htimeNonneg := @percent_nonneg block.sampled timeout.toInt (by omega)
  refine ⟨by omega, by omega, ?_, ?_, ?_⟩
  · rw [Done, h.limits.1, h.limits.2, pos_iff, pos_iff, ge_iff_le, ge_iff_le,
      Int32.le_iff_toInt_le, Int32.le_iff_toInt_le, hlength]
    by_cases hpos : 0 < timeout.toInt
    · have helapsed := sampled_toInt h hpos
      omega
    · omega
  · intro hpos
    have hpos' : 0 < timeout.toInt := h.limits.1 ▸ pos_iff.mp hpos
    rw [sampled_toInt h hpos']
    exact sampled_inRange h hfits hpos'
  · intro _
    rw [hlength]
    exact hproduct

/-- The progress as it is when a snap too many is not counted. -/
def settled (timeout snapsNeeded : Int32) (block : SamplingBlock) : ℤ :=
  max (percent block.sampled timeout.toInt)
    (percent (min block.snaps.length maxSnaps : ℕ) snapsNeeded.toInt)

theorem run_grows (newSnapId : UInt64) :
    block.sampled ≤ (block.run newSnapId).sampled ∧
      min block.snaps.length maxSnaps ≤ min (block.run newSnapId).snaps.length maxSnaps := by
  cases hposition : block.position with
  | testing =>
    simp only [run, hposition]
    split <;> exact ⟨le_refl _, le_refl _⟩
  | deciding =>
    simp only [run, hposition]
    split <;> exact ⟨le_refl _, le_refl _⟩
  | appending newSnapId =>
    simp only [run, hposition, List.length_append]
    exact ⟨le_refl _, by omega⟩
  | trimming =>
    simp only [run, hposition]
    split
    · simp only [List.length_tail]
      exact ⟨le_refl _, by omega⟩
    · exact ⟨le_refl _, le_refl _⟩
  | _ => simp [run, hposition]

theorem settled_run (newSnapId : UInt64) :
    settled timeout snapsNeeded block ≤ settled timeout snapsNeeded (block.run newSnapId) := by
  obtain ⟨hsampled, hlength⟩ := @run_grows block newSnapId
  have htime := @percent_mono block.sampled (block.run newSnapId).sampled timeout.toInt (by omega)
  have hsnaps := @percent_mono (min block.snaps.length maxSnaps : ℕ)
    (min (block.run newSnapId).snaps.length maxSnaps : ℕ) snapsNeeded.toInt (by omega)
  unfold settled
  omega

theorem settled_step (s : Stoppable) (event : Event) :
    settled timeout snapsNeeded s.block ≤ settled timeout snapsNeeded (step s event).block := by
  cases event with
  | thread newSnapId => exact settled_run newSnapId
  | readRunning => rw [readRunning_block]
  | clearRunning => exact le_refl _
  | join => exact le_refl _

theorem settled_append (M : Machine Stoppable Event) (hM : M.step = step) :
    settled timeout snapsNeeded (M.run before).block ≤
      settled timeout snapsNeeded (M.run (before ++ after)).block := by
  induction after using List.reverseRecOn with
  | nil => rw [List.append_nil]
  | append_singleton after event ih =>
    rw [← List.append_assoc, Machine.run_append_singleton, hM]
    exact le_trans ih (settled_step _ event)

theorem progress_settled (h : Tracked timeout snapsNeeded block)
    (hfits : ¬ Overflows timeout snapsNeeded) (hfew : block.snaps.length ≤ maxSnaps) :
    (progress block).toInt = settled timeout snapsNeeded block := by
  rw [progress_toInt h hfits, settled, min_eq_left hfew]

/-- A snap too many does not show where the time has come at least as far. -/
theorem progress_settled_of_not_dips (h : Tracked timeout snapsNeeded block)
    (hfits : ¬ Overflows timeout snapsNeeded) (hdips : ¬ Dips timeout snapsNeeded) :
    (progress block).toInt = settled timeout snapsNeeded block := by
  by_cases hfew : block.snaps.length ≤ maxSnaps
  · exact progress_settled h hfits hfew
  · have hlength : block.snaps.length = 31 := by
      have hle := snaps_le h
      unfold maxSnaps at hfew hle
      omega
    have hmany : 31 ≤ block.sampled := by
      have hlisted := h.listed
      cases hposition : block.position <;>
        simp only [hposition, Listed, maxSnaps] at hlisted <;> omega
    have hlater : ∀ limit : ℤ, percent 31 limit ≤ percent block.sampled limit :=
      fun limit => percent_mono (by omega)
    have hcovered : percent 31 snapsNeeded.toInt ≤
        max (percent 31 timeout.toInt) (percent 30 snapsNeeded.toInt) := by
      have hundone := h.before 30 (by omega)
      unfold DoneAfter maxSnaps at hundone
      unfold Dips at hdips
      rw [percent_thirtyOne, percent_thirtyOne, percent_thirty]
      split_ifs <;> omega
    have hgrown := @percent_mono 30 31 snapsNeeded.toInt (by omega)
    have htime := hlater timeout.toInt
    rw [progress_toInt h hfits, settled, hlength]
    show max _ (percent 31 _) = max _ (percent 30 _)
    omega

section Reached

/-- Without a stop, the events are the steps of the thread. -/
def threadEvents (newSnapIds : List UInt64) : List Event := newSnapIds.map Event.thread

theorem threadEvents_run (newSnapIds : List UInt64) :
    (stoppable id timeout snapsNeeded).Admissible (threadEvents newSnapIds) ∧
      (stoppable id timeout snapsNeeded).run (threadEvents newSnapIds) =
        ⟨runAll newSnapIds (make id timeout snapsNeeded), .absent⟩ := by
  induction newSnapIds using List.reverseRecOn with
  | nil => exact ⟨Machine.admissible_nil _, rfl⟩
  | append_singleton newSnapIds newSnapId ih =>
    obtain ⟨hadmissible, hrun⟩ := ih
    rw [threadEvents, List.map_append, ← threadEvents, runAll_append]
    refine ⟨(Machine.admissible_append_singleton _ _ _).mpr ⟨hadmissible, trivial⟩, ?_⟩
    show (stoppable id timeout snapsNeeded).run (_ ++ [Event.thread newSnapId]) = _
    rw [Machine.run_append_singleton, hrun]
    rfl

/-- In a run without a stop, the loop gets to its head after n samples. -/
theorem reaches_head_run (id : UInt64) {n : ℕ}
    (hbefore : ∀ m < n, ¬ DoneAfter timeout snapsNeeded m) :
    ∃ newSnapIds, AtHead timeout snapsNeeded n
      (runAll newSnapIds (make id timeout snapsNeeded)) := by
  obtain ⟨steps, -, hhead⟩ := @reaches_head timeout snapsNeeded n id hbefore
  exact ⟨List.replicate steps 0, hhead _ List.length_replicate⟩

/-- What an observer of a run without a stop finds. -/
theorem agreesOn_runAll {observed : SamplingBlock → Prop}
    (h : AgreesOn observed (stoppable id timeout snapsNeeded)) (first rest : List UInt64)
    (hobserved : observed (runAll (first ++ rest) (make id timeout snapsNeeded))) :
    Agrees (runAll (first ++ rest) (make id timeout snapsNeeded)) ∧
      (observed (runAll first (make id timeout snapsNeeded)) →
        (progress (runAll first (make id timeout snapsNeeded))).toInt ≤
          (progress (runAll (first ++ rest) (make id timeout snapsNeeded))).toInt) := by
  have hsplit : threadEvents (first ++ rest) = threadEvents first ++ threadEvents rest :=
    List.map_append
  obtain ⟨hadmissible, hrun⟩ := @threadEvents_run timeout snapsNeeded id (first ++ rest)
  have hfirst := (@threadEvents_run timeout snapsNeeded id first).2
  rw [hsplit] at hadmissible hrun
  have hagrees := h (threadEvents first) (threadEvents rest) hadmissible
  rw [hrun, hfirst] at hagrees
  exact hagrees hobserved

theorem not_agreesOn_of_overflows (hover : Overflows timeout snapsNeeded) :
    ¬ AgreesOn (fun block => block.snaps.length ≤ maxSnaps)
      (stoppable id timeout snapsNeeded) := by
  intro hagrees
  obtain ⟨hlong, hsnaps⟩ := hover
  have hmax := Int32.toInt_lt timeout
  obtain ⟨newSnapIds, hhead⟩ := @reaches_head_run timeout snapsNeeded id timeout.toInt.toNat (by
    intro m hm hdone
    unfold DoneAfter maxSnaps at hdone
    omega)
  have hobserved := le_trans (le_of_eq hhead.snaps) (min_le_right _ _)
  have hpos : timeout > 0 := pos_iff.mpr (by omega)
  have hnow := (agreesOn_runAll hagrees [] newSnapIds hobserved).1.time_fits
    (by rw [List.nil_append, hhead.timeout]; exact hpos)
  rw [List.nil_append, hhead.elapsed, toInt_ofNat (by omega)] at hnow
  obtain ⟨-, hfits⟩ := hnow
  omega

theorem tracked_runAll (newSnapIds : List UInt64) (h : Tracked timeout snapsNeeded block) :
    Tracked timeout snapsNeeded (runAll newSnapIds block) := by
  induction newSnapIds generalizing block with
  | nil => exact h
  | cons newSnapId rest ih => exact ih (tracked_run newSnapId h)

/-- The steps that append the thirty-first snap, and the one that drops the first. -/
theorem runAll_thirtyFirst (h : AtHead timeout snapsNeeded 30 block) (hundone : ¬ block.Done) :
    (runAll [0, 0, 0, 0, 0] block).sampled = 31 ∧
      (runAll [0, 0, 0, 0, 0] block).snaps.length = 31 ∧
      (runAll [0, 0, 0, 0, 0, 0] block).sampled = 31 ∧
      (runAll [0, 0, 0, 0, 0, 0] block).snaps.length = 30 := by
  have hsix : runAll [0, 0, 0, 0, 0, 0] block = (runAll [0, 0, 0, 0, 0] block).run 0 := rfl
  have hlength : (block.snaps ++ [0]).length = 31 := by
    rw [List.length_append, h.snaps]
    rfl
  have hlong : 31 > maxSnaps := by decide
  rw [hsix, runAll_sampling h.position h.running hundone]
  simp only [run, hlength, if_pos hlong, List.length_tail, h.sampled, and_self]

theorem not_agreesOn_of_dips (hfits : ¬ Overflows timeout snapsNeeded)
    (hdips : Dips timeout snapsNeeded) :
    ¬ AgreesOn (fun _ => True) (stoppable id timeout snapsNeeded) := by
  intro hagrees
  obtain ⟨hmany, hmore, htime⟩ := hdips
  have hbefore : ∀ m < 31, ¬ DoneAfter timeout snapsNeeded m := by
    intro m hm hdone
    unfold DoneAfter maxSnaps at hdone
    omega
  obtain ⟨newSnapIds, hhead⟩ := @reaches_head_run timeout snapsNeeded id 30
    (fun m hm => hbefore m (by omega))
  have hundone := (atHead_done_iff hhead (fun m hm => hbefore m (by omega))).not.mpr
    (hbefore 30 (by omega))
  obtain ⟨hsampled, hlength, hsampled', hlength'⟩ := runAll_thirtyFirst hhead hundone
  have hless := (agreesOn_runAll hagrees (newSnapIds ++ [0, 0, 0, 0, 0]) [0] trivial).2 trivial
  have hsix : newSnapIds ++ [0, 0, 0, 0, 0] ++ [0] = newSnapIds ++ [0, 0, 0, 0, 0, 0] := by simp
  have htracked := tracked_runAll newSnapIds (@tracked_make timeout snapsNeeded id)
  rw [hsix, runAll_append, runAll_append, progress_toInt (tracked_runAll _ htracked) hfits,
    progress_toInt (tracked_runAll _ htracked) hfits, hsampled, hlength, hsampled',
    hlength'] at hless
  have hshown : max (percent 31 timeout.toInt) (percent 31 snapsNeeded.toInt) ≤
      max (percent 31 timeout.toInt) (percent 30 snapsNeeded.toInt) := hless
  have hsmall : 3100 / snapsNeeded.toInt ≤ 100 :=
    Int.ediv_le_of_le_mul (by omega) (by omega)
  have hnonneg : 0 ≤ 3000 / snapsNeeded.toInt := Int.ediv_nonneg (by omega) (by omega)
  rw [percent_thirtyOne, percent_thirtyOne, percent_thirty] at hshown
  split_ifs at hshown <;> omega

end Reached

/-- Over all runs, with a stop or without: the progress agrees with the
condition of the loop if and only if no product overflows and the snap that is
dropped does not show; where no snap too many is listed, only the former counts. -/
theorem progress_agrees_iff (id : UInt64) (timeout snapsNeeded : Int32) :
    (AgreesOn (fun _ => True) (stoppable id timeout snapsNeeded) ↔
        ¬ Overflows timeout snapsNeeded ∧ ¬ Dips timeout snapsNeeded) ∧
      (AgreesOn (fun block => block.snaps.length ≤ maxSnaps)
          (stoppable id timeout snapsNeeded) ↔ ¬ Overflows timeout snapsNeeded) := by
  have hover : ∀ observed : SamplingBlock → Prop,
      (∀ block, block.snaps.length ≤ maxSnaps → observed block) →
      AgreesOn observed (stoppable id timeout snapsNeeded) →
      ¬ Overflows timeout snapsNeeded := by
    intro observed hwider hagrees hoverflows
    refine @not_agreesOn_of_overflows timeout snapsNeeded id hoverflows ?_
    intro before after hadmissible hfew
    obtain ⟨hnow, hless⟩ := hagrees before after hadmissible (hwider _ hfew)
    exact ⟨hnow, fun hfirst => hless (hwider _ hfirst)⟩
  have hagree : ∀ observed : SamplingBlock → Prop, ¬ Overflows timeout snapsNeeded →
      (∀ block, Tracked timeout snapsNeeded block → observed block →
        (progress block).toInt = settled timeout snapsNeeded block) →
      AgreesOn observed (stoppable id timeout snapsNeeded) := by
    intro observed hfits hsettled before after hadmissible hobserved
    have htracked := (tracked_inductive id).run _ hadmissible
    have hfirst := (tracked_inductive id).run _ (Machine.admissible_of_append _ hadmissible)
    refine ⟨agrees htracked hfits, ?_⟩
    intro hobservedFirst
    rw [hsettled _ hfirst hobservedFirst, hsettled _ htracked hobserved]
    exact settled_append _ rfl
  constructor
  · constructor
    · intro hagrees
      have hfits := hover _ (fun _ _ => trivial) hagrees
      exact ⟨hfits, fun hdips => not_agreesOn_of_dips hfits hdips hagrees⟩
    · intro hlimits
      obtain ⟨hfits, hdips⟩ := hlimits
      exact hagree _ hfits (fun block h _ => progress_settled_of_not_dips h hfits hdips)
  · constructor
    · exact hover _ (fun _ h => h)
    · intro hfits
      exact hagree _ hfits (fun block h hfew => progress_settled h hfits hfew)

/-- Thirty-one snaps without a timeout: the progress goes to a hundred and back.
A timeout of 21474837 seconds: the product is no int in the last one. -/
theorem progress_disagrees :
    ¬ AgreesOn (fun _ => True) (stoppable 1 (-1) 31) ∧
      ¬ AgreesOn (fun block => block.snaps.length ≤ maxSnaps) (stoppable 1 21474837 (-1)) := by
  have hnone : (-1 : Int32).toInt = -1 := by decide
  have hsnaps : (31 : Int32).toInt = 31 := by decide
  have htimeout : (21474837 : Int32).toInt = 21474837 := by decide
  constructor
  · refine not_agreesOn_of_dips ?_ ?_
    · rw [Overflows, hnone]
      omega
    · rw [Dips, hnone, hsnaps]
      omega
  · refine not_agreesOn_of_overflows ?_
    rw [Overflows, hnone, htimeout]
    omega

end Runs

end BeastServer.SamplingProgress
