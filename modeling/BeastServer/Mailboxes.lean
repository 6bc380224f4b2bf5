import Mathlib.Data.List.Basic

/-!
Mailboxes with one consumer.
Messages are put at the back and taken from the front under a lock. The
consumer may block, and then a put notifies it; its wait may also end without
a notification. What has been put in and taken out is recorded. As long as the
consumer blocks on an empty mailbox only, its being notified says the same as
the mailbox not being empty.
-/
namespace BeastServer.Mailboxes

variable {α : Type*}

/-- The consumer does not wait, or it has or has not been notified since its
wait began. -/
inductive Waiter
  | none
  | unnotified
  | notified
  deriving DecidableEq

def Waiter.notifyOne : Waiter → Waiter
  | none => none
  | unnotified => notified
  | notified => notified

structure Mailbox (α : Type*) where
  queue : List α
  waiter : Waiter
  putIn : List α
  taken : List α

namespace Mailbox

def empty : Mailbox α := ⟨[], .none, [], []⟩

def put (message : α) (box : Mailbox α) : Mailbox α where
  queue := box.queue ++ [message]
  waiter := box.waiter.notifyOne
  putIn := box.putIn ++ [message]
  taken := box.taken

def block (box : Mailbox α) : Mailbox α := { box with waiter := .unnotified }

def unblock (box : Mailbox α) : Mailbox α := { box with waiter := .none }

/-- The message at the front; there is none in an empty mailbox. -/
def take? (box : Mailbox α) : Option (α × Mailbox α) :=
  match box.queue with
  | [] => none
  | message :: rest => some (message, { box with queue := rest, taken := box.taken ++ [message] })

/-- What is put in is taken out once and in this order, and the consumer is
notified of all that it can find. -/
structure Sound (box : Mailbox α) : Prop where
  conserved : box.putIn = box.taken ++ box.queue
  unnotified : box.waiter = .unnotified → box.queue = []
  notified : box.waiter = .notified → box.queue ≠ []

variable {box : Mailbox α}

theorem sound_empty : Sound (empty : Mailbox α) :=
  ⟨rfl, fun _ => rfl, fun h => by cases h⟩

theorem sound_put (message : α) (h : box.Sound) : (box.put message).Sound where
  conserved := by
    show box.putIn ++ [message] = box.taken ++ (box.queue ++ [message])
    rw [h.conserved, List.append_assoc]
  unnotified hwaiter := by
    cases hbefore : box.waiter <;> simp [put, hbefore, Waiter.notifyOne] at hwaiter
  notified _ := by simp [put]

theorem sound_block (h : box.Sound) (hempty : box.queue = []) : box.block.Sound where
  conserved := h.conserved
  unnotified _ := hempty
  notified hwaiter := by cases hwaiter

theorem sound_unblock (h : box.Sound) : box.unblock.Sound where
  conserved := h.conserved
  unnotified hwaiter := by cases hwaiter
  notified hwaiter := by cases hwaiter

theorem take?_eq_none : box.take? = none ↔ box.queue = [] := by
  unfold take?
  split <;> simp [*]

theorem putIn_take {message : α} {after : Mailbox α}
    (htake : box.take? = some (message, after)) : after.putIn = box.putIn := by
  unfold take? at htake
  split at htake
  · cases htake
  · obtain ⟨-, rfl⟩ := Prod.mk.inj (Option.some.inj htake)
    rfl

theorem waiter_take {message : α} {after : Mailbox α}
    (htake : box.take? = some (message, after)) : after.waiter = box.waiter := by
  unfold take? at htake
  split at htake
  · cases htake
  · obtain ⟨-, rfl⟩ := Prod.mk.inj (Option.some.inj htake)
    rfl

/-- Taking is for a consumer that does not wait. -/
theorem sound_take {message : α} {after : Mailbox α} (h : box.Sound)
    (hwaiter : box.waiter = .none) (htake : box.take? = some (message, after)) : after.Sound := by
  unfold take? at htake
  split at htake
  · cases htake
  · rename_i head rest hqueue
    obtain ⟨-, rfl⟩ := Prod.mk.inj (Option.some.inj htake)
    refine ⟨?_, ?_, ?_⟩
    · show box.putIn = box.taken ++ [head] ++ rest
      rw [h.conserved, hqueue, List.append_assoc, List.singleton_append]
    · intro hafter
      simp [hwaiter] at hafter
    · intro hafter
      simp [hwaiter] at hafter

/-- A consumer that waits finds a message exactly when it has been notified. -/
theorem notified_iff (h : box.Sound) (hwaits : box.waiter ≠ .none) :
    box.waiter = .notified ↔ box.queue ≠ [] := by
  constructor
  · exact h.notified
  · intro hne
    cases hwaiter : box.waiter with
    | none => exact absurd hwaiter hwaits
    | unnotified => exact absurd (h.unnotified hwaiter) hne
    | notified => rfl

end Mailbox

end BeastServer.Mailboxes
