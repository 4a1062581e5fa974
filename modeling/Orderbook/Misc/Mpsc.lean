import Mathlib.Algebra.BigOperators.Group.List.Basic
import Mathlib.Algebra.GroupWithZero.Nat
import Mathlib.Data.List.Nodup
import Mathlib.Logic.Function.Basic
import Mathlib.Tactic.Common

/-!
# Bounded channels with many senders

A channel holds the messages that are queued, each with its sender, and for each sender the message
whose send still waits for room. `inFlight` are the messages of one sender that were given and not
taken yet, oldest first: a send adds to its end, the receiver takes from its front, and nothing else
changes it while the channel is open.
-/

namespace Orderbook

/-- A channel: the queued messages, oldest first, the sends that wait, and whether the receiver was
dropped. -/
structure Mpsc (ι α : Type*) where
  queue : List (ι × α)
  waiting : ι → Option α
  closed : Bool

namespace Mpsc

variable {ι α : Type*}

/-- A new channel. -/
def empty : Mpsc ι α := ⟨[], fun _ => none, false⟩

section Senders

variable [DecidableEq ι]

/-- A send begins: its message waits for room. -/
def offer (channel : Mpsc ι α) (sender : ι) (message : α) : Mpsc ι α :=
  { channel with waiting := Function.update channel.waiting sender (some message) }

/-- The send of a sender is over, with its message given up. -/
def forget (channel : Mpsc ι α) (sender : ι) : Mpsc ι α :=
  { channel with waiting := Function.update channel.waiting sender none }

/-- The send of a sender goes on: its message is queued if there is room, and given up if there is
no receiver. -/
def settle (capacity : Nat) (channel : Mpsc ι α) (sender : ι) : Mpsc ι α :=
  match channel.waiting sender with
  | none => channel
  | some message =>
      if channel.closed then channel.forget sender
      else if channel.queue.length < capacity then
        { channel.forget sender with queue := channel.queue ++ [(sender, message)] }
      else channel

/-- The oldest message is taken out. -/
def take (channel : Mpsc ι α) : Option ((ι × α) × Mpsc ι α) :=
  match channel.queue with
  | [] => none
  | message :: queue => some (message, { channel with queue })

/-- The receiver is dropped, with what is queued. -/
def close (channel : Mpsc ι α) : Mpsc ι α := { channel with queue := [], closed := true }

/-- The messages of one sender, in order. -/
def bySender (sender : ι) (messages : List (ι × α)) : List α :=
  messages.filterMap fun message => if message.1 = sender then some message.2 else none

/-- The messages of a sender that were given and not taken, oldest first. -/
def inFlight (channel : Mpsc ι α) (sender : ι) : List α :=
  bySender sender channel.queue ++ (channel.waiting sender).toList

theorem waiting_offer (channel : Mpsc ι α) (sender : ι) (message : α) :
    (channel.offer sender message).waiting =
      Function.update channel.waiting sender (some message) := rfl

theorem waiting_forget (channel : Mpsc ι α) (sender : ι) :
    (channel.forget sender).waiting = Function.update channel.waiting sender none := rfl

/-! ## Messages of one sender -/

@[simp] theorem bySender_nil (sender : ι) : bySender sender ([] : List (ι × α)) = [] := rfl

theorem bySender_append (sender : ι) (early late : List (ι × α)) :
    bySender sender (early ++ late) = bySender sender early ++ bySender sender late :=
  List.filterMap_append

theorem bySender_cons (sender : ι) (message : ι × α) (messages : List (ι × α)) :
    bySender sender (message :: messages) =
      (if message.1 = sender then [message.2] else []) ++ bySender sender messages := by
  by_cases own : message.1 = sender
  · simp [bySender, own]
  · simp [bySender, own]

/-- How often a sender is listed. -/
theorem sum_own (sender : ι) (senders : List ι) :
    (senders.map fun other => if sender = other then 1 else 0).sum = senders.count sender := by
  induction senders with
  | nil => rfl
  | cons other senders ih =>
    rw [List.map_cons, List.sum_cons, ih, List.count_cons, Nat.add_comm]
    by_cases same : sender = other
    · simp [same]
    · simp [same, Ne.symm same]

/-- Different senders do not share a message. -/
theorem sum_length_bySender_le {senders : List ι} (distinct : senders.Nodup)
    (messages : List (ι × α)) :
    (senders.map fun sender => (bySender sender messages).length).sum ≤ messages.length := by
  induction messages with
  | nil => simp
  | cons message messages ih =>
    have once : senders.count message.1 ≤ 1 := List.nodup_iff_count_le_one.mp distinct _
    have split : (senders.map fun sender => (bySender sender (message :: messages)).length) =
        senders.map fun sender =>
          (if message.1 = sender then 1 else 0) + (bySender sender messages).length := by
      apply List.map_congr_left
      intro sender _
      rw [bySender_cons, List.length_append]
      split
      · rfl
      · rfl
    rw [split, List.sum_map_add, sum_own, List.length_cons]
    omega

/-! ## What the operations do to the messages in flight -/

theorem inFlight_offer (channel : Mpsc ι α) (sender : ι) (message : α)
    (free : channel.waiting sender = none) (other : ι) :
    (channel.offer sender message).inFlight other =
      channel.inFlight other ++ if sender = other then [message] else [] := by
  by_cases own : other = sender
  · subst own
    simp [inFlight, offer, free]
  · simp [inFlight, offer, Function.update_of_ne own, Ne.symm own]

theorem inFlight_forget_of_ne (channel : Mpsc ι α) {sender other : ι} (different : other ≠ sender) :
    (channel.forget sender).inFlight other = channel.inFlight other := by
  simp [inFlight, forget, Function.update_of_ne different]

/-- A sender that goes takes along the message it is handing over. -/
theorem inFlight_forget_self (channel : Mpsc ι α) (sender : ι) :
    (channel.forget sender).inFlight sender ++ (channel.waiting sender).toList =
      channel.inFlight sender := by
  simp [inFlight, forget]

/-- Room or no room, a send that goes on loses nothing while there is a receiver. -/
theorem inFlight_settle (capacity : Nat) (channel : Mpsc ι α) (sender : ι)
    (opened : channel.closed = false) (other : ι) :
    (channel.settle capacity sender).inFlight other = channel.inFlight other := by
  unfold settle
  cases waits : channel.waiting sender with
  | none => rfl
  | some message =>
    simp only [opened, Bool.false_eq_true, if_false]
    split
    · by_cases own : other = sender
      · subst own
        simp [inFlight, forget, bySender_append, bySender_cons, waits]
      · simp [inFlight, forget, bySender_append, bySender_cons, Function.update_of_ne own,
          Ne.symm own]
    · rfl

theorem inFlight_take {channel rest : Mpsc ι α} {message : ι × α}
    (taken : channel.take = some (message, rest)) (other : ι) :
    channel.inFlight other =
      (if message.1 = other then [message.2] else []) ++ rest.inFlight other := by
  unfold take at taken
  cases queued : channel.queue with
  | nil =>
    rw [queued] at taken
    cases taken
  | cons first queue =>
    rw [queued] at taken
    cases taken
    rw [inFlight, queued, bySender_cons, List.append_assoc]
    rfl

/-! ## Room -/

theorem length_settle_le {capacity : Nat} {channel : Mpsc ι α}
    (within : channel.queue.length ≤ capacity) (sender : ι) :
    (channel.settle capacity sender).queue.length ≤ capacity := by
  unfold settle
  split
  · exact within
  · split
    · exact within
    · split
      · rename_i room
        rw [List.length_append, List.length_singleton]
        omega
      · exact within

theorem closed_settle (capacity : Nat) (channel : Mpsc ι α) (sender : ι) :
    (channel.settle capacity sender).closed = channel.closed := by
  unfold settle
  split
  · rfl
  · split
    · rfl
    · split <;> rfl

/-- A send goes through as soon as there is room for it, or nobody to receive it. -/
theorem waiting_settle (capacity : Nat) (channel : Mpsc ι α) (sender : ι)
    (room : channel.closed = true ∨ channel.queue.length < capacity) :
    (channel.settle capacity sender).waiting = Function.update channel.waiting sender none := by
  unfold settle
  split
  · rename_i free
    rw [← free, Function.update_eq_self]
  · split
    · rfl
    · rename_i live
      rw [if_pos (room.resolve_left live)]
      rfl

theorem waiting_settle_of_ne (capacity : Nat) (channel : Mpsc ι α) {sender other : ι}
    (different : other ≠ sender) :
    (channel.settle capacity sender).waiting other = channel.waiting other := by
  unfold settle
  split
  · rfl
  · split
    · exact Function.update_of_ne different _ _
    · split
      · exact Function.update_of_ne different _ _
      · rfl

end Senders

/-! ## Taking -/

theorem length_take {channel rest : Mpsc ι α} {message : ι × α}
    (taken : channel.take = some (message, rest)) :
    channel.queue.length = rest.queue.length + 1 := by
  unfold take at taken
  cases queued : channel.queue with
  | nil =>
    rw [queued] at taken
    cases taken
  | cons first queue =>
    rw [queued] at taken
    cases taken
    rfl

theorem closed_take {channel rest : Mpsc ι α} {message : ι × α}
    (taken : channel.take = some (message, rest)) : rest.closed = channel.closed := by
  unfold take at taken
  cases queued : channel.queue <;> rw [queued] at taken <;> cases taken
  rfl

theorem waiting_take {channel rest : Mpsc ι α} {message : ι × α}
    (taken : channel.take = some (message, rest)) : rest.waiting = channel.waiting := by
  unfold take at taken
  cases queued : channel.queue <;> rw [queued] at taken <;> cases taken
  rfl

end Mpsc

end Orderbook
