import BeastServer.Programs
import Mathlib.Data.Nat.Notation
import Mathlib.Logic.Function.Basic

/-!
Programs that are cut into atomic sections.
A task is what is left of such a program: it is finished, or its next section waits
until it may be entered, updates the state at once, and leaves a task that
depends on what the section has seen. Between two sections other tasks may change
the state. What all tasks agree to keep is stated once, and a task is safe if its
sections keep it whatever the others do in the meantime. A lock that is held from
one section to the next has one holder if every task treats it as a lock.
-/
namespace BeastServer.Sections

open Programs

section Tasks

/-- The inputs are what a section meets besides the state. -/
inductive Task (σ ι α : Type*)
  | finished (a : α)
  | enter (free : ι → σ → Prop) (update : ι → σ → σ) (rest : ι → σ → Task σ ι α)

namespace Task

variable {σ ι α β ε : Type*}

/-- The task goes on with its next section. -/
def advance (i : ι) (s : σ) : Task σ ι α → σ × Task σ ι α
  | finished a => (s, finished a)
  | enter _ update rest => (update i s, rest i s)

/-- The next section may be entered. -/
def Ready (i : ι) (s : σ) : Task σ ι α → Prop
  | finished _ => False
  | enter free _ _ => free i s

def bind : Task σ ι α → (α → Task σ ι β) → Task σ ι β
  | finished a, f => f a
  | enter free update rest, f => enter free update (fun i s => (rest i s).bind f)

/-- A single section. -/
def atomic (free : ι → σ → Prop) (x : ι → σ → α × σ) : Task σ ι α :=
  enter free (fun i s => (x i s).2) (fun i s => finished (x i s).1)

/-- The task goes on with a value and ends with an exception. -/
def andThen (task : Task σ ι (Except ε α)) (f : α → Task σ ι (Except ε β)) :
    Task σ ι (Except ε β) :=
  task.bind fun
    | .ok a => f a
    | .error e => finished (.error e)

/-- The first section of two tasks, one after the other, is that of the first one. -/
theorem advance_bind {task : Task σ ι α} {f : α → Task σ ι β} {i : ι} {s : σ}
    (h : task.Ready i s) :
    (task.bind f).advance i s = ((task.advance i s).1, (task.advance i s).2.bind f) := by
  cases task with
  | finished a => exact h.elim
  | enter free update rest => rfl

theorem ready_bind {task : Task σ ι α} {f : α → Task σ ι β} {i : ι} {s : σ}
    (h : task.Ready i s) : (task.bind f).Ready i s := by
  cases task with
  | finished a => exact h.elim
  | enter free update rest => exact h

@[simp] theorem andThen_ok (a : α) (f : α → Task σ ι (Except ε β)) :
    (finished (.ok a) : Task σ ι (Except ε α)).andThen f = f a := rfl

@[simp] theorem andThen_error (e : ε) (f : α → Task σ ι (Except ε β)) :
    (finished (.error e) : Task σ ι (Except ε α)).andThen f = finished (.error e) := rfl

end Task

/-- What a program returns or throws, and the state that it leaves. -/
def attempt {ε σ α : Type} (x : Program ε σ α) (s : σ) : Except ε α × σ :=
  match x.run s with
  | .ok a t => (.ok a, t)
  | .error e t => (.error e, t)

/-- A program in a single section. -/
def execute {ε σ ι α : Type} (free : ι → σ → Prop) (x : ι → Program ε σ α) :
    Task σ ι (Except ε α) :=
  Task.atomic free (fun i s => attempt (x i) s)

theorem attempt_ok {ε σ α : Type} {x : Program ε σ α} {s t : σ} {a : α}
    (h : x.run s = .ok a t) : attempt x s = (.ok a, t) := by
  rw [attempt, h]

theorem attempt_error {ε σ α : Type} {x : Program ε σ α} {s t : σ} {e : ε}
    (h : x.run s = .error e t) : attempt x s = (.error e, t) := by
  rw [attempt, h]

theorem attempt_within {ε σ τ α : Type} {part : σ → τ} {put : τ → σ → σ} {x : Program ε τ α}
    (s : σ) : attempt (within part put x) s =
      ((attempt x (part s)).1, put (attempt x (part s)).2 s) := by
  cases hrun : x.run (part s) with
  | ok a t => rw [attempt_ok (within_ok hrun), attempt_ok hrun]
  | error e t => rw [attempt_error (within_error hrun), attempt_error hrun]

end Tasks

section Uninterrupted

variable {σ ι α β ε : Type*} {allowed : ι → Prop} {s t u : σ} {a : α} {b : β}

/-- The task gets to its end without an interruption, with allowed inputs. -/
inductive Alone (allowed : ι → Prop) : Task σ ι α → σ → α → σ → Prop
  | finished (a : α) (s : σ) : Alone allowed (.finished a) s a s
  | enter {free : ι → σ → Prop} {update : ι → σ → σ} {rest : ι → σ → Task σ ι α} {s t : σ} {a : α}
    (i : ι) (hallowed : allowed i) (hfree : free i s)
    (hrest : Alone allowed (rest i s) (update i s) a t) :
    Alone allowed (.enter free update rest) s a t

theorem alone_finished {a' : α} (h : Alone allowed (.finished a : Task σ ι α) s a' t) :
    a' = a ∧ t = s := by
  cases h
  exact ⟨rfl, rfl⟩

theorem alone_atomic {free : ι → σ → Prop} {x : ι → σ → α × σ}
    (h : Alone allowed (Task.atomic free x) s a t) :
    ∃ i, allowed i ∧ free i s ∧ x i s = (a, t) := by
  cases h with
  | enter i hallowed hfree hrest =>
    obtain ⟨ha, ht⟩ := alone_finished hrest
    exact ⟨i, hallowed, hfree, Prod.ext ha.symm ht.symm⟩

/-- A run of two tasks, one after the other, is a run of each. -/
theorem alone_bind {task : Task σ ι α} {f : α → Task σ ι β}
    (h : Alone allowed (task.bind f) s b u) :
    ∃ a t, Alone allowed task s a t ∧ Alone allowed (f a) t b u := by
  induction task generalizing s with
  | finished a => exact ⟨a, s, .finished a s, h⟩
  | enter free update rest ih =>
    cases h with
    | enter i hallowed hfree hrest =>
      obtain ⟨a, t, htask, hf⟩ := ih i s hrest
      exact ⟨a, t, .enter i hallowed hfree htask, hf⟩

theorem alone_andThen {task : Task σ ι (Except ε α)} {f : α → Task σ ι (Except ε β)}
    {r : Except ε β} (h : Alone allowed (task.andThen f) s r u) :
    (∃ a t, Alone allowed task s (.ok a) t ∧ Alone allowed (f a) t r u) ∨
      ∃ e, r = .error e ∧ Alone allowed task s (.error e) u := by
  obtain ⟨r', t, htask, hf⟩ := alone_bind h
  cases r' with
  | ok a => exact Or.inl ⟨a, t, htask, hf⟩
  | error e =>
    obtain ⟨rfl, rfl⟩ := alone_finished hf
    exact Or.inr ⟨e, rfl, htask⟩

theorem alone_execute {ε σ ι α : Type} {allowed : ι → Prop} {s t : σ} {r : Except ε α}
    {free : ι → σ → Prop} {x : ι → Program ε σ α} (h : Alone allowed (execute free x) s r t) :
    ∃ i, allowed i ∧ free i s ∧ attempt (x i) s = (r, t) :=
  alone_atomic h

/-- Runs of two tasks, one after the other, are a run of both. -/
theorem Alone.bind {task : Task σ ι α} {f : α → Task σ ι β} (h : Alone allowed task s a t)
    (hf : Alone allowed (f a) t b u) : Alone allowed (task.bind f) s b u := by
  induction h with
  | finished a s => exact hf
  | enter i hallowed hfree hrest ih => exact .enter i hallowed hfree (ih hf)

theorem Alone.andThen_ok {task : Task σ ι (Except ε α)} {f : α → Task σ ι (Except ε β)}
    {r : Except ε β} (h : Alone allowed task s (.ok a) t) (hf : Alone allowed (f a) t r u) :
    Alone allowed (task.andThen f) s r u :=
  h.bind hf

theorem Alone.andThen_error {task : Task σ ι (Except ε α)} {f : α → Task σ ι (Except ε β)}
    {e : ε} (h : Alone allowed task s (.error e) t) :
    Alone allowed (task.andThen f) s (.error e) t :=
  h.bind (.finished _ t)

theorem Alone.atomic {free : ι → σ → Prop} {x : ι → σ → α × σ} (i : ι) (hallowed : allowed i)
    (hfree : free i s) : Alone allowed (Task.atomic free x) s (x i s).1 (x i s).2 :=
  .enter i hallowed hfree (.finished _ _)

theorem Alone.execute {ε σ ι α : Type} {allowed : ι → Prop} {s : σ} {free : ι → σ → Prop}
    {x : ι → Program ε σ α} (i : ι) (hallowed : allowed i) (hfree : free i s) :
    Alone allowed (execute free x) s (attempt (x i) s).1 (attempt (x i) s).2 :=
  .atomic i hallowed hfree

end Uninterrupted

section Agreements

/-- What the tasks rely on and keep: an invariant of the state, what a section may
change, and how a later state is related to an earlier one. -/
structure Agreement (σ : Type*) where
  invariant : σ → Prop
  may : σ → σ → Prop
  later : σ → σ → Prop
  refl : ∀ s, later s s
  trans : ∀ {s t u}, later s t → later t u → later s u
  later_of_may : ∀ {s t}, may s t → later s t

variable {σ ι α β ε : Type*} {A : Agreement σ} {s t : σ} {task : Task σ ι α}
  {Q : σ → α → Prop} {Q' : σ → β → Prop}

def Agreement.Keeps (A : Agreement σ) (s t : σ) : Prop := A.invariant t ∧ A.may s t

theorem Agreement.Keeps.later (h : A.Keeps s t) : A.later s t := A.later_of_may h.2

/-- From the state on, whatever the other tasks do to it within the agreement: the
sections keep the agreement, and the result satisfies Q from then on. -/
inductive Safe (A : Agreement σ) (Q : σ → α → Prop) : σ → Task σ ι α → Prop
  | finished {s : σ} {a : α} (h : ∀ t, A.later s t → Q t a) : Safe A Q s (.finished a)
  | enter {s : σ} {free : ι → σ → Prop} {update : ι → σ → σ} {rest : ι → σ → Task σ ι α}
    (hkeeps : ∀ i t, A.later s t → A.invariant t → free i t → A.Keeps t (update i t))
    (hrest : ∀ i t, A.later s t → A.invariant t → free i t → Safe A Q (update i t) (rest i t)) :
    Safe A Q s (.enter free update rest)

/-- A task stays safe while others change the state. -/
theorem safe_later (hlater : A.later s t) (h : Safe A Q s task) : Safe A Q t task := by
  cases h with
  | finished hq => exact .finished (fun u hu => hq u (A.trans hlater hu))
  | enter hkeeps hrest =>
    exact .enter (fun i u hu => hkeeps i u (A.trans hlater hu))
      (fun i u hu => hrest i u (A.trans hlater hu))

theorem safe_result {a : α} (h : Safe A Q s (.finished a : Task σ ι α)) : Q s a := by
  cases h with
  | finished hq => exact hq s (A.refl s)

/-- Step rule: a section keeps the agreement and leaves a safe task. -/
theorem safe_advance {i : ι} (h : Safe A Q s task) (hinvariant : A.invariant s)
    (hready : task.Ready i s) :
    A.Keeps s (task.advance i s).1 ∧ Safe A Q (task.advance i s).1 (task.advance i s).2 := by
  cases h with
  | finished hq => exact hready.elim
  | enter hkeeps hrest =>
    exact ⟨hkeeps i s (A.refl s) hinvariant hready, hrest i s (A.refl s) hinvariant hready⟩

theorem safe_finished {a : α} (h : ∀ t, A.later s t → Q t a) :
    Safe A Q s (.finished a : Task σ ι α) :=
  .finished h

/-- A section that keeps the agreement, and a result that lasts. -/
theorem safe_atomic {free : ι → σ → Prop} {x : ι → σ → α × σ}
    (h : ∀ i t, A.later s t → A.invariant t → free i t →
      A.Keeps t (x i t).2 ∧ ∀ u, A.later (x i t).2 u → Q u (x i t).1) :
    Safe A Q s (Task.atomic free x) :=
  .enter (fun i t hlater hinvariant hfree => (h i t hlater hinvariant hfree).1)
    (fun i t hlater hinvariant hfree => .finished (h i t hlater hinvariant hfree).2)

theorem safe_bind {f : α → Task σ ι β} (h : Safe A Q s task)
    (hf : ∀ t a, A.later s t → Q t a → Safe A Q' t (f a)) : Safe A Q' s (task.bind f) := by
  induction h with
  | @finished s a hq => exact hf s a (A.refl s) (hq s (A.refl s))
  | @enter s free update rest hkeeps hrest ih =>
    refine .enter hkeeps ?_
    intro i t hlater hinvariant hfree
    apply ih i t hlater hinvariant hfree
    intro u a hu
    have hkept := hkeeps i t hlater hinvariant hfree
    exact hf u a (A.trans hlater (A.trans hkept.later hu))

/-- The result may be worked on after the last section. -/
theorem safe_map {f : α → β} (h : Safe A Q s task)
    (hf : ∀ t a, (∀ u, A.later t u → Q u a) → Q' t (f a)) :
    Safe A Q' s (task.bind (fun a => .finished (f a))) := by
  induction h with
  | @finished s a hq =>
    exact .finished (fun t ht => hf t a (fun u hu => hq u (A.trans ht hu)))
  | enter hkeeps hrest ih => exact .enter hkeeps ih

theorem safe_and {Q₂ : σ → α → Prop} (h : Safe A Q s task) (h' : Safe A Q₂ s task) :
    Safe A (fun t a => Q t a ∧ Q₂ t a) s task := by
  induction h with
  | finished hq =>
    cases h' with
    | finished hq' => exact .finished (fun t ht => ⟨hq t ht, hq' t ht⟩)
  | enter hkeeps hrest ih =>
    cases h' with
    | enter _ hrest' =>
      refine .enter hkeeps ?_
      intro i t hlater hinvariant hfree
      exact ih i t hlater hinvariant hfree (hrest' i t hlater hinvariant hfree)

theorem safe_mono {Q₂ : σ → α → Prop} (h : Safe A Q s task) (hq : ∀ t a, Q t a → Q₂ t a) :
    Safe A Q₂ s task := by
  induction h with
  | finished hover => exact .finished (fun t ht => hq t _ (hover t ht))
  | enter hkeeps hrest ih => exact .enter hkeeps ih

theorem safe_andThen {task : Task σ ι (Except ε α)} {f : α → Task σ ι (Except ε β)}
    {Q : σ → Except ε α → Prop} {Q' : σ → Except ε β → Prop} (h : Safe A Q s task)
    (hok : ∀ t a, A.later s t → Q t (.ok a) → Safe A Q' t (f a))
    (herror : ∀ t e, (∀ u, A.later t u → Q u (.error e)) → Q' t (.error e)) :
    Safe A Q' s (task.andThen f) := by
  induction h with
  | @finished s r hq =>
    cases r with
    | ok a => exact hok s a (A.refl s) (hq s (A.refl s))
    | error e =>
      exact .finished (fun t ht => herror t e (fun u hu => hq u (A.trans ht hu)))
  | @enter s free update rest hkeeps hrest ih =>
    refine .enter hkeeps ?_
    intro i t hlater hinvariant hfree
    apply ih i t hlater hinvariant hfree
    intro u a hu
    have hkept := hkeeps i t hlater hinvariant hfree
    exact hok u a (A.trans hlater (A.trans hkept.later hu))

/-- In every state of the invariant the next section can be entered with some input,
and at most n sections are left. -/
inductive Waitless (A : Agreement σ) : ℕ → Task σ ι α → Prop
  | finished (n : ℕ) (a : α) : Waitless A n (.finished a)
  | enter {n : ℕ} {free : ι → σ → Prop} {update : ι → σ → σ} {rest : ι → σ → Task σ ι α}
    (hfree : ∀ s, A.invariant s → ∃ i, free i s)
    (hrest : ∀ i s, A.invariant s → free i s → Waitless A n (rest i s)) :
    Waitless A (n + 1) (.enter free update rest)

theorem waitless_mono {m n : ℕ} (h : Waitless A m task) (hmn : m ≤ n) : Waitless A n task := by
  induction h generalizing n with
  | finished m a => exact .finished n a
  | @enter m free update rest hfree hrest ih =>
    obtain ⟨k, rfl⟩ : ∃ k, n = k + 1 := ⟨n - 1, by omega⟩
    exact .enter hfree (fun i s hinvariant hi => ih i s hinvariant hi (by omega))

/-- Step rule: a section less is left. -/
theorem waitless_advance {n : ℕ} {i : ι} (h : Waitless A n task) (hinvariant : A.invariant s)
    (hready : task.Ready i s) : ∃ k, n = k + 1 ∧ Waitless A k (task.advance i s).2 := by
  cases h with
  | finished n a => exact hready.elim
  | @enter k free update rest hfree hrest => exact ⟨k, rfl, hrest i s hinvariant hready⟩

theorem waitless_atomic {free : ι → σ → Prop} {x : ι → σ → α × σ}
    (h : ∀ s, A.invariant s → ∃ i, free i s) : Waitless A 1 (Task.atomic free x) :=
  .enter h (fun i s _ _ => .finished 0 (x i s).1)

theorem waitless_bind {k m n : ℕ} {f : α → Task σ ι β} (hk : m + n = k)
    (h : Waitless A m task) (hf : ∀ a, Waitless A n (f a)) : Waitless A k (task.bind f) := by
  induction h generalizing k with
  | finished m a => exact waitless_mono (hf a) (by omega)
  | @enter m free update rest hfree hrest ih =>
    have hnext : Waitless A (m + n + 1) ((Task.enter free update rest).bind f) :=
      .enter hfree (fun i s hinvariant hi => ih i s hinvariant hi rfl)
    exact waitless_mono hnext (by omega)

theorem waitless_andThen {k m n : ℕ} {task : Task σ ι (Except ε α)}
    {f : α → Task σ ι (Except ε β)} (hk : m + n = k) (h : Waitless A m task)
    (hf : ∀ a, Waitless A n (f a)) : Waitless A k (task.andThen f) := by
  apply waitless_bind hk h
  intro r
  cases r with
  | ok a => exact hf a
  | error e => exact .finished n (Except.error e)

end Agreements

section Locks

/-- A lock that is held from one section to the next, as the state shows it: what is
held, the stage that the holder is at, when the holder can go on, and what may
be held next. -/
structure Lock (σ β κ : Type*) where
  held : σ → Option β
  stage : β → κ
  able : β → Prop
  goes : β → Option β → Prop

variable {σ ι α γ β κ ε : Type*} {L : Lock σ β κ} {s t : σ} {b : β} {o : Option κ} {i : ι}
  {task : Task σ ι α}

/-- The stage that the state shows. -/
def Lock.shown (L : Lock σ β κ) (s : σ) : Option κ := (L.held s).map L.stage

/-- The task holds the lock at a stage, or it does not hold it, and treats it so: only
the holder changes what is held, and it can go on when it is able to. -/
inductive Locks (L : Lock σ β κ) : Option κ → Task σ ι α → Prop
  | finished (a : α) : Locks L none (.finished a)
  | outside {free : ι → σ → Prop} {update : ι → σ → σ} {rest : ι → σ → Task σ ι α}
    (hkeep : ∀ i s, free i s → L.held s ≠ none → L.held (update i s) = L.held s)
    (hstay : ∀ i s, free i s → L.held s ≠ none → Locks L none (rest i s))
    (htake : ∀ i s, free i s → L.held s = none → Locks L (L.shown (update i s)) (rest i s)) :
    Locks L none (.enter free update rest)
  | inside {k : κ} {free : ι → σ → Prop} {update : ι → σ → σ} {rest : ι → σ → Task σ ι α}
    (hable : ∀ s b, L.held s = some b → L.stage b = k → ((∃ i, free i s) ↔ L.able b))
    (hgoes : ∀ i s b, free i s → L.held s = some b → L.stage b = k →
      L.goes b (L.held (update i s)))
    (hrest : ∀ i s b, free i s → L.held s = some b → L.stage b = k →
      Locks L (L.shown (update i s)) (rest i s)) :
    Locks L (some k) (.enter free update rest)

theorem locks_bind {f : α → Task σ ι γ} (h : Locks L o task) (hf : ∀ a, Locks L none (f a)) :
    Locks L o (task.bind f) := by
  induction h with
  | finished a => exact hf a
  | outside hkeep hstay htake ihstay ihtake => exact .outside hkeep ihstay ihtake
  | inside hable hgoes hrest ih => exact .inside hable hgoes ih

theorem locks_andThen {task : Task σ ι (Except ε α)} {f : α → Task σ ι (Except ε γ)}
    (h : Locks L o task) (hf : ∀ a, Locks L none (f a)) : Locks L o (task.andThen f) := by
  apply locks_bind h
  intro r
  cases r with
  | ok a => exact hf a
  | error e => exact .finished (Except.error e)

/-- Sections that leave the lock alone. -/
theorem locks_enter {free : ι → σ → Prop} {update : ι → σ → σ} {rest : ι → σ → Task σ ι α}
    (hheld : ∀ i s, free i s → L.held (update i s) = L.held s)
    (hrest : ∀ i s, free i s → Locks L none (rest i s)) :
    Locks L none (.enter free update rest) := by
  refine .outside (fun i s hi _ => hheld i s hi) (fun i s hi _ => hrest i s hi) ?_
  intro i s hi hnone
  rw [Lock.shown, hheld i s hi, hnone]
  exact hrest i s hi

theorem locks_atomic {free : ι → σ → Prop} {x : ι → σ → α × σ}
    (hheld : ∀ i s, free i s → L.held (x i s).2 = L.held s) :
    Locks L none (Task.atomic free x) :=
  locks_enter hheld (fun i s _ => .finished (x i s).1)

theorem able_of_ready {k : κ} (h : Locks L (some k) task) (hheld : L.held s = some b)
    (hstage : L.stage b = k) : (∃ i, task.Ready i s) ↔ L.able b := by
  cases h with
  | inside hable hgoes hrest => exact hable s b hheld hstage

theorem goes_advance {k : κ} (h : Locks L (some k) task) (hheld : L.held s = some b)
    (hstage : L.stage b = k) (hready : task.Ready i s) :
    L.goes b (L.held (task.advance i s).1) := by
  cases h with
  | inside hable hgoes hrest => exact hgoes i s b hready hheld hstage

theorem locks_advance {k : κ} (h : Locks L (some k) task) (hheld : L.held s = some b)
    (hstage : L.stage b = k) (hready : task.Ready i s) :
    Locks L (L.shown (task.advance i s).1) (task.advance i s).2 := by
  cases h with
  | inside hable hgoes hrest => exact hrest i s b hready hheld hstage

theorem outside_advance (h : Locks L none task) (hheld : L.held s ≠ none)
    (hready : task.Ready i s) :
    L.held (task.advance i s).1 = L.held s ∧ Locks L none (task.advance i s).2 := by
  cases h with
  | finished a => exact hready.elim
  | outside hkeep hstay htake => exact ⟨hkeep i s hready hheld, hstay i s hready hheld⟩

theorem takes_advance (h : Locks L none task) (hheld : L.held s = none)
    (hready : task.Ready i s) : Locks L (L.shown (task.advance i s).1) (task.advance i s).2 := by
  cases h with
  | finished a => exact hready.elim
  | outside hkeep hstay htake => exact htake i s hready hheld

variable {tasks : ℕ → Option (Task σ ι α)} {c : ℕ}

/-- Mutual exclusion: if the lock is held, one of the tasks holds it, at the stage
that the state shows, and no other does. -/
inductive Exclusive (L : Lock σ β κ) (s : σ) (tasks : ℕ → Option (Task σ ι α)) : Prop
  | free (hheld : L.held s = none)
    (houtside : ∀ c task, tasks c = some task → Locks L none task)
  | held (owner : ℕ) (b : β) (task : Task σ ι α) (hheld : L.held s = some b)
    (howner : tasks owner = some task) (hinside : Locks L (some (L.stage b)) task)
    (hothers : ∀ c task, c ≠ owner → tasks c = some task → Locks L none task)

/-- The tasks with another one in the place c. -/
theorem update_cases {place c : ℕ} {next : Option (Task σ ι α)} {other : Task σ ι α}
    (h : Function.update tasks place next c = some other) :
    c = place ∧ next = some other ∨ c ≠ place ∧ tasks c = some other := by
  by_cases hc : c = place
  · subst hc
    rw [Function.update_self] at h
    exact Or.inl ⟨rfl, h⟩
  · rw [Function.update_of_ne hc] at h
    exact Or.inr ⟨hc, h⟩

/-- What is shown of a state decides who may hold the lock there. -/
theorem exclusive_of_shown (hlocks : Locks L (L.shown s) task) (hplace : tasks c = some task)
    (hothers : ∀ c' task', c' ≠ c → tasks c' = some task' → Locks L none task') :
    Exclusive L s tasks := by
  unfold Lock.shown at hlocks
  cases hheld : L.held s with
  | none =>
    rw [hheld] at hlocks
    refine .free hheld ?_
    intro c' task' hc'
    by_cases heq : c' = c
    · rw [heq, hplace] at hc'
      rw [← Option.some.inj hc']
      exact hlocks
    · exact hothers c' task' heq hc'
  | some b =>
    rw [hheld] at hlocks
    exact .held c b task hheld hplace hlocks hothers

/-- Step rule: a section of one of the tasks. -/
theorem exclusive_advance (h : Exclusive L s tasks) (hplace : tasks c = some task)
    (hready : task.Ready i s) :
    Exclusive L (task.advance i s).1
      (Function.update tasks c (some (task.advance i s).2)) := by
  have hself : Function.update tasks c (some (task.advance i s).2) c =
      some (task.advance i s).2 := Function.update_self c _ tasks
  cases h with
  | free hheld houtside =>
    refine exclusive_of_shown (takes_advance (houtside c task hplace) hheld hready) hself ?_
    intro c' task' hne hc'
    rw [Function.update_of_ne hne] at hc'
    exact houtside c' task' hc'
  | held owner b holder hheld howner hinside hothers =>
    by_cases hc : c = owner
    · subst hc
      obtain rfl := Option.some.inj (howner.symm.trans hplace)
      refine exclusive_of_shown (locks_advance hinside hheld rfl hready) hself ?_
      intro c' task' hne hc'
      rw [Function.update_of_ne hne] at hc'
      exact hothers c' task' hne hc'
    · have hsome : L.held s ≠ none := by simp [hheld]
      obtain ⟨hkeep, hstay⟩ := outside_advance (hothers c task hc hplace) hsome hready
      refine .held owner b holder (hkeep.trans hheld) ?_ hinside ?_
      · rw [Function.update_of_ne (Ne.symm hc)]
        exact howner
      · intro c' task' hne hc'
        rcases update_cases hc' with ⟨-, hnext⟩ | ⟨-, hold⟩
        · rw [← Option.some.inj hnext]
          exact hstay
        · exact hothers c' task' hne hold

/-- What others hold stays as it is until the holder is able to go on. -/
theorem held_advance (h : Exclusive L s tasks) (hplace : tasks c = some task)
    (hready : task.Ready i s) (hheld : L.held s = some b) :
    L.held (task.advance i s).1 = some b ∨ L.able b := by
  cases h with
  | free hnone houtside =>
    rw [hnone] at hheld
    cases hheld
  | held owner b' holder hheld' howner hinside hothers =>
    obtain rfl := Option.some.inj (hheld'.symm.trans hheld)
    by_cases hc : c = owner
    · subst hc
      obtain rfl := Option.some.inj (howner.symm.trans hplace)
      exact Or.inr ((able_of_ready hinside hheld rfl).mp ⟨i, hready⟩)
    · have hsome : L.held s ≠ none := by simp [hheld]
      exact Or.inl ((outside_advance (hothers c task hc hplace) hsome hready).1.trans hheld)

/-- The holder can go on when it is able to. -/
theorem holder_advances (h : Exclusive L s tasks) (hheld : L.held s = some b) (hable : L.able b) :
    ∃ owner task i, tasks owner = some task ∧ task.Ready i s ∧
      L.goes b (L.held (task.advance i s).1) := by
  cases h with
  | free hnone houtside =>
    rw [hnone] at hheld
    cases hheld
  | held owner b' holder hheld' howner hinside hothers =>
    obtain rfl := Option.some.inj (hheld'.symm.trans hheld)
    obtain ⟨i, hready⟩ := (able_of_ready hinside hheld rfl).mpr hable
    exact ⟨owner, holder, i, howner, hready, goes_advance hinside hheld rfl hready⟩

/-- The state changes while the holder stays at its stage. -/
theorem exclusive_shown (h : Exclusive L s tasks) (hshown : L.shown t = L.shown s) :
    Exclusive L t tasks := by
  unfold Lock.shown at hshown
  cases h with
  | free hheld houtside =>
    rw [hheld] at hshown
    exact .free (Option.map_eq_none_iff.mp hshown) houtside
  | held owner b task hheld howner hinside hothers =>
    rw [hheld] at hshown
    obtain ⟨b', hheld', hstage⟩ := Option.map_eq_some_iff.mp hshown
    rw [← hstage] at hinside
    exact .held owner b' task hheld' howner hinside hothers

/-- A task that does not hold the lock comes into a place, or leaves it. -/
theorem exclusive_set {next : Option (Task σ ι α)} (h : Exclusive L s tasks)
    (hidle : ∀ task k, tasks c = some task → ¬ Locks L (some k) task)
    (hnext : ∀ task, next = some task → Locks L none task) :
    Exclusive L s (Function.update tasks c next) := by
  cases h with
  | free hheld houtside =>
    refine .free hheld ?_
    intro c' task' hc'
    rcases update_cases hc' with ⟨-, hset⟩ | ⟨-, hold⟩
    · exact hnext task' hset
    · exact houtside c' task' hold
  | held owner b holder hheld howner hinside hothers =>
    have hne : owner ≠ c := by
      rintro rfl
      exact hidle holder _ howner hinside
    refine .held owner b holder hheld ?_ hinside ?_
    · rw [Function.update_of_ne hne]
      exact howner
    · intro c' task' hc hc'
      rcases update_cases hc' with ⟨-, hset⟩ | ⟨-, hold⟩
      · exact hnext task' hset
      · exact hothers c' task' hc hold

theorem not_inside_finished {a : α} {k : κ} :
    ¬ Locks L (some k) (.finished a : Task σ ι α) := by
  intro h
  cases h

end Locks

end BeastServer.Sections
