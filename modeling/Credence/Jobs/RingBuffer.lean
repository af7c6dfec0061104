import Credence.ProofKit.Runs
import Mathlib.Data.Nat.ModEq

/-! `RingBuffer`, a queue in a circular array. The items stand in the slots from `head` on, modulo
the capacity, and every other slot is `undefined`. -/

namespace Credence.Jobs

open ProofKit List

structure RingBuffer (T : Type) where
  capacity : Nat
  buffer : List (Option T)
  head : Nat
  tail : Nat
  size : Nat

namespace RingBuffer

variable {T : Type}

/-- The second error is the one of `new Array(capacity)`. -/
def new (capacity : Nat) : Except String (RingBuffer T) :=
  if capacity < 1 then
    .error s!"RingBuffer capacity must be a positive integer, got {capacity}"
  else if 2 ^ 32 ≤ capacity then .error "Invalid array length"
  else .ok ⟨capacity, .replicate capacity none, 0, 0, 0⟩

def slot (b : RingBuffer T) (i : Nat) : Option T := b.buffer[i]?.join

def push (item : T) (b : RingBuffer T) : RingBuffer T × Bool :=
  if b.size = b.capacity then (b, false)
  else
    ({ b with
      buffer := b.buffer.set b.tail (some item)
      tail := (b.tail + 1) % b.capacity
      size := b.size + 1 }, true)

def pop (b : RingBuffer T) : RingBuffer T × Option T :=
  if b.size = 0 then (b, none)
  else
    ({ b with
      buffer := b.buffer.set b.head none
      head := (b.head + 1) % b.capacity
      size := b.size - 1 }, b.slot b.head)

def peek (b : RingBuffer T) : Option T := if b.size > 0 then b.slot b.head else none

def clear (b : RingBuffer T) : RingBuffer T :=
  { b with buffer := b.buffer.map fun _ => none, head := 0, tail := 0, size := 0 }

def toArray (b : RingBuffer T) : List (Option T) :=
  (range b.size).map fun i => b.slot ((b.head + i) % b.capacity)

end RingBuffer

inductive BufferCall (T : Type) where
  | push (item : T)
  | pop
  | peek
  | toArray
  | clear
  | size
  | isEmpty
  | isFull

inductive BufferReply (T : Type) where
  | flag (value : Bool)
  | item (value : Option T)
  | items (value : List (Option T))
  | size (value : Nat)
  | done

def RingBuffer.perform {T : Type} (b : RingBuffer T) : BufferCall T → RingBuffer T × BufferReply T
  | .push item => ((b.push item).1, .flag (b.push item).2)
  | .pop => (b.pop.1, .item b.pop.2)
  | .peek => (b, .item b.peek)
  | .toArray => (b, .items b.toArray)
  | .clear => (b.clear, .done)
  | .size => (b, .size b.size)
  | .isEmpty => (b, .flag (b.size = 0))
  | .isFull => (b, .flag (b.size = b.capacity))

/-- The queue that the buffer stands for, oldest item first. -/
def queue {T : Type} (capacity : Nat) (items : List T) : BufferCall T → List T × BufferReply T
  | .push item =>
    if items.length < capacity then (items ++ [item], .flag true) else (items, .flag false)
  | .pop => (items.tail, .item items.head?)
  | .peek => (items, .item items.head?)
  | .toArray => (items, .items (items.map some))
  | .clear => ([], .done)
  | .size => (items, .size items.length)
  | .isEmpty => (items, .flag (items.length = 0))
  | .isFull => (items, .flag (items.length = capacity))

/-- The buffer of capacity `c` holds the items, oldest first, and nothing else. -/
structure RingBuffer.Holds {T : Type} (c : Nat) (b : RingBuffer T) (items : List T) : Prop where
  capacity : b.capacity = c
  size : b.size = items.length
  fits : items.length ≤ b.capacity
  length : b.buffer.length = b.capacity
  head : b.head < b.capacity
  tail : b.tail = (b.head + items.length) % b.capacity
  slots : ∀ i < b.capacity, b.buffer[(b.head + i) % b.capacity]? = some items[i]?

variable {T : Type} {b : RingBuffer T} {items : List T} {x : T} {c : Nat}

theorem add_mod_inj {h i j : Nat} (hi : i < c) (hj : j < c) :
    (h + i) % c = (h + j) % c ↔ i = j := by
  constructor
  · intro he
    have hm : i % c = j % c := Nat.ModEq.add_left_cancel' h he
    rwa [Nat.mod_eq_of_lt hi, Nat.mod_eq_of_lt hj] at hm
  · rintro rfl
    rfl

theorem holds_new {capacity : Nat} (h : RingBuffer.new capacity = .ok b) : b.Holds capacity [] := by
  unfold RingBuffer.new at h
  split at h
  · cases h
  · split at h
    · cases h
    · cases h
      refine ⟨rfl, rfl, Nat.zero_le _, length_replicate, ?_, ?_, ?_⟩
      · show 0 < capacity
        omega
      · show 0 = 0 % capacity
        rw [Nat.zero_mod]
      · intro i hi
        have hl : (0 + i) % capacity < capacity := Nat.mod_lt _ (by omega)
        exact getElem?_replicate_of_lt hl

namespace RingBuffer.Holds

variable (h : b.Holds c items)
include h

theorem slot_eq {i : Nat} (hi : i < b.capacity) :
    b.slot ((b.head + i) % b.capacity) = items[i]? := by
  rw [slot, h.slots i hi, Option.join_some]

theorem head_eq : b.slot b.head = items[0]? := by
  have hz := h.slot_eq (Nat.zero_lt_of_lt h.head)
  rwa [Nat.add_zero, Nat.mod_eq_of_lt h.head] at hz

theorem push (hl : items.length < b.capacity) (x : T) :
    (b.push x).2 = true ∧ (b.push x).1.Holds c (items ++ [x]) := by
  have hs : b.size ≠ b.capacity := by
    rw [h.size]
    omega
  rw [RingBuffer.push, if_neg hs]
  refine ⟨rfl, h.capacity, ?_, ?_, ?_, h.head, ?_, ?_⟩
  · simp [h.size]
  · show (items ++ [x]).length ≤ b.capacity
    rw [length_append, length_singleton]
    omega
  · simp [h.length]
  · show (b.tail + 1) % b.capacity = _
    rw [h.tail, Nat.mod_add_mod, length_append, length_singleton, Nat.add_assoc]
  · intro i hi
    have ht : b.tail < b.buffer.length := by
      rw [h.tail, h.length]
      exact Nat.mod_lt _ (Nat.zero_lt_of_lt hi)
    show (b.buffer.set b.tail (some x))[(b.head + i) % b.capacity]? = _
    rw [getElem?_set, if_pos ht, h.slots i hi, h.tail, getElem?_append]
    simp only [add_mod_inj hl hi]
    by_cases he : items.length = i
    · simp [he]
    · rw [if_neg he]
      split
      · rfl
      · rw [getElem?_eq_none (by omega), getElem?_eq_none (by simp; omega)]

theorem full (hl : ¬items.length < b.capacity) (x : T) : b.push x = (b, false) := by
  have hf := h.fits
  exact if_pos (by rw [h.size]; omega)

theorem clear : b.clear.Holds c [] := by
  refine ⟨h.capacity, rfl, Nat.zero_le _, ?_, Nat.zero_lt_of_lt h.head, ?_, ?_⟩
  · simp [RingBuffer.clear, h.length]
  · exact (Nat.zero_mod _).symm
  · intro i hi
    show (b.buffer.map fun _ => none)[(0 + i) % b.capacity]? = _
    have hm : (0 + i) % b.capacity < b.buffer.length := by
      rw [h.length]
      exact Nat.mod_lt _ (Nat.zero_lt_of_lt hi)
    rw [getElem?_map, getElem?_eq_getElem hm]
    rfl

theorem toArray : b.toArray = items.map some := by
  apply ext_getElem?
  intro i
  rw [RingBuffer.toArray, getElem?_map, getElem?_map, h.size]
  by_cases hi : i < items.length
  · have hf := h.fits
    rw [getElem?_range hi, Option.map_some, h.slot_eq (by omega),
      getElem?_eq_getElem hi, Option.map_some]
  · rw [getElem?_eq_none (by simpa using hi), getElem?_eq_none (by omega)]
    rfl

omit h in
theorem pop (h : b.Holds c (x :: items)) : b.pop.2 = some x ∧ b.pop.1.Holds c items := by
  have hs : b.size ≠ 0 := by simp [h.size]
  have hf : items.length < b.capacity := h.fits
  rw [RingBuffer.pop, if_neg hs]
  refine ⟨h.head_eq, h.capacity, ?_, hf.le, ?_, Nat.mod_lt _ (Nat.zero_lt_of_lt hf), ?_, ?_⟩
  · simp [h.size]
  · simp [h.length]
  · show b.tail = ((b.head + 1) % b.capacity + items.length) % b.capacity
    rw [h.tail, Nat.mod_add_mod, length_cons]
    congr 1
    omega
  · intro i (hi : i < b.capacity)
    show (b.buffer.set b.head none)[((b.head + 1) % b.capacity + i) % b.capacity]? = _
    rw [Nat.mod_add_mod, Nat.add_assoc, Nat.add_comm 1 i, getElem?_set]
    by_cases hw : i + 1 = b.capacity
    · rw [hw, Nat.add_mod_right, Nat.mod_eq_of_lt h.head, if_pos rfl, if_pos (h.length ▸ h.head),
        getElem?_eq_none (by omega)]
    · have hn : b.head ≠ (b.head + (i + 1)) % b.capacity := by
        intro he
        have hz : (b.head + 0) % b.capacity = (b.head + (i + 1)) % b.capacity := by
          rw [← he, Nat.add_zero, Nat.mod_eq_of_lt h.head]
        rw [add_mod_inj (by omega) (by omega)] at hz
        omega
      rw [if_neg hn, h.slots (i + 1) (by omega), getElem?_cons_succ]

theorem perform (call : BufferCall T) : (b.perform call).2 = (queue c items call).2 ∧
      (b.perform call).1.Holds c (queue c items call).1 := by
  obtain rfl := h.capacity
  cases call with
  | push item =>
    by_cases hl : items.length < b.capacity
    · obtain ⟨ha, hp⟩ := h.push hl item
      simp only [RingBuffer.perform, queue, if_pos hl, ha]
      exact ⟨trivial, hp⟩
    · simp only [RingBuffer.perform, queue, if_neg hl, h.full hl item]
      exact ⟨trivial, h⟩
  | pop =>
    cases items with
    | nil =>
      have hp : b.pop = (b, none) := if_pos h.size
      simp only [RingBuffer.perform, hp]
      exact ⟨rfl, h⟩
    | cons x items =>
      obtain ⟨hx, hp⟩ := h.pop
      simp only [RingBuffer.perform, hx]
      exact ⟨rfl, hp⟩
  | peek =>
    refine ⟨congrArg BufferReply.item ?_, h⟩
    rw [RingBuffer.peek, h.size, h.head_eq, head?_eq_getElem?]
    split
    · rfl
    · rw [getElem?_eq_none (by omega)]
  | toArray => exact ⟨congrArg BufferReply.items h.toArray, h⟩
  | clear => exact ⟨rfl, h.clear⟩
  | size => exact ⟨congrArg BufferReply.size h.size, h⟩
  | isEmpty => exact ⟨by simp [RingBuffer.perform, queue, h.size], h⟩
  | isFull => exact ⟨by simp [RingBuffer.perform, queue, h.size], h⟩

end RingBuffer.Holds

/-- A buffer that the constructor makes answers every sequence of calls as the queue does, and holds
the queue's items after it. -/
theorem ring_buffer_is_bounded_queue {capacity : Nat} (h : RingBuffer.new capacity = .ok b)
    (calls : List (BufferCall T)) :
    (replies RingBuffer.perform b calls).2 = (replies (queue capacity) [] calls).2 ∧
      (replies RingBuffer.perform b calls).1.Holds capacity
        (replies (queue capacity) [] calls).1 := by
  apply replies_related RingBuffer.perform (queue capacity) (RingBuffer.Holds capacity)
  · intro b items call hb
    exact hb.perform call
  · exact holds_new h

theorem ring_buffer_is_bounded_queue_three : (replies RingBuffer.perform ⟨2, [none, none], 0, 0, 0⟩
      [.push 5, .push 6, .push 7, .pop, .push 8, .toArray]).2 =
      [BufferReply.flag true, .flag true, .flag false, .item (some 5), .flag true,
        .items [some 6, some 8]] :=
  (ring_buffer_is_bounded_queue (T := Nat) (show RingBuffer.new 2 = .ok _ from rfl) _).1

end Credence.Jobs
