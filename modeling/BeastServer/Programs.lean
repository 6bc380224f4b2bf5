import Mathlib.Logic.Basic

/-!
Programs that read and write a state and may throw.
A program returns a value with the new state, or an exception with the state
reached when it was thrown. The primitive steps run by the simp lemmas of
EStateM; the rules here sequence after a step whose result is known, and run a
fold step by step.
-/
namespace BeastServer.Programs

abbrev Program (ε σ α : Type) := EStateM ε σ α

variable {ε σ α β : Type}

@[simp] theorem run_throw (e : ε) (s : σ) :
    (throw e : Program ε σ α).run s = .error e s := rfl

@[simp] theorem run_ofExcept_ok (a : α) (s : σ) :
    (ofExcept (.ok a) : Program ε σ α).run s = .ok a s := rfl

@[simp] theorem run_ofExcept_error (e : ε) (s : σ) :
    (ofExcept (.error e) : Program ε σ α).run s = .error e s := rfl

theorem bind_ok {x : Program ε σ α} {f : α → Program ε σ β} {s t : σ} {a : α}
    (h : x.run s = .ok a t) : (x >>= f).run s = (f a).run t := by
  rw [EStateM.run_bind, h]

theorem bind_error {x : Program ε σ α} {f : α → Program ε σ β} {s t : σ} {e : ε}
    (h : x.run s = .error e t) : (x >>= f).run s = .error e t := by
  rw [EStateM.run_bind, h]

/-- A handler that takes every exception leaves a program that returns alone. -/
theorem tryCatch_ok {x : Program ε σ α} {handler : ε → Program ε σ α} {s t : σ} {a : α}
    (h : x.run s = .ok a t) : (tryCatch x handler).run s = .ok a t := by
  have hx : x s = .ok a t := h
  show EStateM.tryCatch x handler s = _
  delta EStateM.tryCatch
  simp only [hx]

/-- The handler starts in the state in which the exception was thrown. -/
theorem tryCatch_error {x : Program ε σ α} {handler : ε → Program ε σ α} {s t : σ} {e : ε}
    (h : x.run s = .error e t) : (tryCatch x handler).run s = (handler e).run t := by
  have hx : x s = .error e t := h
  show EStateM.tryCatch x handler s = handler e t
  delta EStateM.tryCatch
  simp only [hx]
  rfl

theorem foldlM_cons_ok {f : β → α → Program ε σ β} {a : α} {as : List α} {b c : β} {s t : σ}
    (h : (f b a).run s = .ok c t) :
    ((a :: as).foldlM f b).run s = (as.foldlM f c).run t := by
  rw [List.foldlM_cons, bind_ok h]

/-- The state a program leaves behind, whether it returns or throws. -/
def finalState (x : Program ε σ α) (s : σ) : σ :=
  match x.run s with
  | .ok _ t => t
  | .error _ t => t

/-- The value a program returns, if it does not throw. -/
def returned (x : Program ε σ α) (s : σ) : Option α :=
  match x.run s with
  | .ok a _ => some a
  | .error _ _ => none

theorem finalState_ok {x : Program ε σ α} {s t : σ} {a : α} (h : x.run s = .ok a t) :
    finalState x s = t := by
  rw [finalState, h]

theorem finalState_error {x : Program ε σ α} {s t : σ} {e : ε} (h : x.run s = .error e t) :
    finalState x s = t := by
  rw [finalState, h]

theorem returned_ok {x : Program ε σ α} {s t : σ} {a : α} (h : x.run s = .ok a t) :
    returned x s = some a := by
  rw [returned, h]

theorem returned_error {x : Program ε σ α} {s t : σ} {e : ε} (h : x.run s = .error e t) :
    returned x s = none := by
  rw [returned, h]

theorem run_of_returned {x : Program ε σ PUnit} {s : σ} (h : (returned x s).isSome = true) :
    x.run s = .ok ⟨⟩ (finalState x s) := by
  unfold returned at h
  unfold finalState
  cases hrun : x.run s with
  | ok a t => rfl
  | error e t => simp [hrun] at h

section Parts

variable {τ : Type}

/-- A program on a part of the state. -/
def within (part : σ → τ) (put : τ → σ → σ) (x : Program ε τ α) : Program ε σ α := fun s =>
  match x.run (part s) with
  | .ok a t => .ok a (put t s)
  | .error e t => .error e (put t s)

theorem within_ok {part : σ → τ} {put : τ → σ → σ} {x : Program ε τ α} {s : σ} {t : τ} {a : α}
    (h : x.run (part s) = .ok a t) : (within part put x).run s = .ok a (put t s) := by
  simp only [within, EStateM.run] at h ⊢
  rw [h]

theorem within_error {part : σ → τ} {put : τ → σ → σ} {x : Program ε τ α} {s : σ} {t : τ} {e : ε}
    (h : x.run (part s) = .error e t) : (within part put x).run s = .error e (put t s) := by
  simp only [within, EStateM.run] at h ⊢
  rw [h]

end Parts

section Behaviour

variable {γ τ : Type} {view : σ → γ} {thrown : ε → Prop} {x : Program ε σ α}

/-- The program leaves a view of the state as it was, whether it returns or
throws, and throws only certain exceptions. -/
structure Behaves (view : σ → γ) (thrown : ε → Prop) (x : Program ε σ α) : Prop where
  ok : ∀ s a t, x.run s = .ok a t → view t = view s
  error : ∀ s e t, x.run s = .error e t → view t = view s ∧ thrown e

theorem behaves_pure (a : α) : Behaves view thrown (pure a : Program ε σ α) where
  ok s a t h := by cases h; rfl
  error s e t h := by cases h

theorem behaves_get : Behaves view thrown (get : Program ε σ σ) where
  ok s a t h := by cases h; rfl
  error s e t h := by cases h

theorem behaves_throw {e : ε} (he : thrown e) :
    Behaves view thrown (throw e : Program ε σ α) where
  ok s a t h := by cases h
  error s e' t h := by cases h; exact ⟨rfl, he⟩

theorem behaves_modify {f : σ → σ} (hf : ∀ s, view (f s) = view s) :
    Behaves view thrown (modify f : Program ε σ PUnit) where
  ok s a t h := by cases h; exact hf s
  error s e t h := by cases h

theorem behaves_set {s : σ} (hs : ∀ t, view s = view t) :
    Behaves view thrown (set s : Program ε σ PUnit) where
  ok t a u h := by cases h; exact hs t
  error t e u h := by cases h

theorem behaves_ofExcept {r : Except ε α} (hr : ∀ e, r = .error e → thrown e) :
    Behaves view thrown (ofExcept r : Program ε σ α) := by
  cases r with
  | ok a => exact behaves_pure a
  | error e => exact behaves_throw (hr e rfl)

theorem behaves_bind {f : α → Program ε σ β} (hx : Behaves view thrown x)
    (hf : ∀ a, Behaves view thrown (f a)) : Behaves view thrown (x >>= f) where
  ok s b t h := by
    cases hrun : x.run s with
    | ok a u =>
      rw [bind_ok hrun] at h
      exact ((hf a).ok u b t h).trans (hx.ok s a u hrun)
    | error e u =>
      rw [bind_error hrun] at h
      cases h
  error s e t h := by
    cases hrun : x.run s with
    | ok a u =>
      rw [bind_ok hrun] at h
      obtain ⟨hview, hthrown⟩ := (hf a).error u e t h
      exact ⟨hview.trans (hx.ok s a u hrun), hthrown⟩
    | error e' u =>
      rw [bind_error hrun] at h
      cases h
      exact hx.error s e t hrun

/-- A handler sees only what the program throws. -/
theorem behaves_tryCatch {thrown' : ε → Prop} {handler : ε → Program ε σ α}
    (hx : Behaves view thrown x)
    (hhandler : ∀ e, thrown e → Behaves view thrown' (handler e)) :
    Behaves view thrown' (tryCatch x handler) where
  ok s a t h := by
    cases hrun : x.run s with
    | ok b u =>
      rw [tryCatch_ok hrun] at h
      cases h
      exact hx.ok s a t hrun
    | error e u =>
      rw [tryCatch_error hrun] at h
      obtain ⟨hview, hthrown⟩ := hx.error s e u hrun
      exact ((hhandler e hthrown).ok u a t h).trans hview
  error s e t h := by
    cases hrun : x.run s with
    | ok b u =>
      rw [tryCatch_ok hrun] at h
      cases h
    | error e' u =>
      rw [tryCatch_error hrun] at h
      obtain ⟨hview, hthrown⟩ := hx.error s e' u hrun
      obtain ⟨hview', hthrown'⟩ := (hhandler e' hthrown).error u e t h
      exact ⟨hview'.trans hview, hthrown'⟩

theorem behaves_foldlM {f : β → α → Program ε σ β} {as : List α} {b : β}
    (hf : ∀ b a, Behaves view thrown (f b a)) : Behaves view thrown (as.foldlM f b) := by
  induction as generalizing b with
  | nil => exact behaves_pure b
  | cons a as ih =>
    rw [List.foldlM_cons]
    exact behaves_bind (hf b a) (fun _ => ih)

/-- A program on a part leaves every view alone that does not see the part. -/
theorem behaves_within {part : σ → τ} {put : τ → σ → σ} {x : Program ε τ α}
    (hx : Behaves (fun _ => ()) thrown x) (hput : ∀ t s, view (put t s) = view s) :
    Behaves view thrown (within part put x) where
  ok s a t h := by
    cases hrun : x.run (part s) with
    | ok b u =>
      rw [within_ok hrun] at h
      cases h
      exact hput u s
    | error e u =>
      rw [within_error hrun] at h
      cases h
  error s e t h := by
    cases hrun : x.run (part s) with
    | ok b u =>
      rw [within_ok hrun] at h
      cases h
    | error e' u =>
      rw [within_error hrun] at h
      cases h
      exact ⟨hput u s, (hx.error _ e u hrun).2⟩

/-- A program that leaves the whole state as it was. -/
theorem Behaves.finalState {thrown : ε → Prop} {x : Program ε σ α} {s : σ}
    (h : Behaves (fun s => s) thrown x) : Programs.finalState x s = s := by
  cases hrun : x.run s with
  | ok a t =>
    rw [finalState_ok hrun]
    exact h.ok s a t hrun
  | error e t =>
    rw [finalState_error hrun]
    exact (h.error s e t hrun).1

end Behaviour

end BeastServer.Programs
