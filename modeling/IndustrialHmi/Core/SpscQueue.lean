import IndustrialHmi.Theory.BoundedFifo

/-!
# The lock-free queue

A bounded single-producer, single-consumer ring.  `push`, `pop` and `size` are the
calls as one thread alone sees them.

`Threads` is the queue with its two threads.  A call is broken into its loads, its
slot access and its store, and `Threads.step` lets one thread make one of these.  A
run is a list of turns, so a statement about every run is one about every
interleaving.  A thread loads its own index in the step that makes the call: nobody
else writes that index.
-/

namespace Core

open Ring

variable {w : Nat} {α : Type}

/-! ## The queue -/

/-- Total slot count, as an index. -/
def kCapacity (c : Capacity w) : BitVec w := BitVec.ofNat w c.slots

structure SpscQueue (α : Type) {w : Nat} (c : Capacity w) where
  /-- Consumer-owned. -/
  head : BitVec w
  /-- Producer-owned. -/
  tail : BitVec w
  buffer : Fin c.slots → α

variable {c : Capacity w}

/-- Store an item, unless the queue is full. -/
def SpscQueue.emplaceImpl (q : SpscQueue α c) (item : α) : Bool × SpscQueue α c :=
  let tail := q.tail
  let next := tail + 1
  if next - q.head > kCapacity c - 1 then (false, q)
  else (true, { q with buffer := Function.update q.buffer (c.slot tail) item, tail := next })

def SpscQueue.push (q : SpscQueue α c) (item : α) : Bool × SpscQueue α c := q.emplaceImpl item

/-- Take the oldest item, unless the queue is empty. -/
def SpscQueue.pop (q : SpscQueue α c) : Option α × SpscQueue α c :=
  let head := q.head
  if head = q.tail then (none, q)
  else (some (q.buffer (c.slot head)), { q with head := head + 1 })

def SpscQueue.empty (q : SpscQueue α c) : Bool := q.head == q.tail
def SpscQueue.size (q : SpscQueue α c) : BitVec w := q.tail - q.head
def SpscQueue.full (q : SpscQueue α c) : Bool := q.size ≥ kCapacity c - 1

/-- The values between the two indices, oldest first. -/
def SpscQueue.contents (q : SpscQueue α c) : List α :=
  (List.range q.size.toNat).map fun n => q.buffer (c.slot (q.head + BitVec.ofNat w n))

theorem SpscQueue.size_eq (q : SpscQueue α c) : q.size = BitVec.ofNat w q.contents.length := by
  rw [SpscQueue.contents, List.length_map, List.length_range, BitVec.ofNat_toNat,
    BitVec.setWidth_eq]

theorem SpscQueue.contents_of_eq {q : SpscQueue α c} (h : q.head = q.tail) : q.contents = [] := by
  rw [SpscQueue.contents, SpscQueue.size, h, BitVec.sub_self, BitVec.toNat_zero]
  rfl

/-- A queue with nothing in it, whose indices start at `start`. -/
def SpscQueue.fresh (start : BitVec w) (buffer : Fin c.slots → α) : SpscQueue α c :=
  { head := start, tail := start, buffer := buffer }

/-! ## Whole calls -/

/-- One whole call: its success flag and the value it gives. -/
def SpscQueue.call (q : SpscQueue α c) : BoundedFifo.Op α → (Bool × Option α) × SpscQueue α c
  | .push item => (((q.push item).1, none), (q.push item).2)
  | .pop => ((q.pop.1.isSome, q.pop.1), q.pop.2)

/-- The values that wait in a queue. -/
def SpscQueue.Holds (q : SpscQueue α c) (waiting : List α) : Prop :=
  BoundedFifo.Holds c id waiting q.head q.tail q.buffer

/-- A whole call is one of the bounded queue of all slots but one. -/
theorem SpscQueue.call_spec {q : SpscQueue α c} {waiting : List α} (h : q.Holds waiting)
    (op : BoundedFifo.Op α) :
    (q.call op).1 = (BoundedFifo.step (c.slots - 1) waiting op).1 ∧
      (q.call op).2.Holds (BoundedFifo.step (c.slots - 1) waiting op).2 := by
  cases op with
  | push item =>
      by_cases hroom : waiting.length < c.slots - 1
      · have hpush : q.push item = (true, { q with
            buffer := Function.update q.buffer (c.slot q.tail) item
            tail := q.tail + 1 }) := if_neg (not_imp_not.mpr h.full_iff.mp (not_not.mpr hroom))
        rw [SpscQueue.call, hpush, BoundedFifo.step, if_pos hroom]
        exact ⟨rfl, BoundedFifo.Holds.push h hroom item⟩
      · have hpush : q.push item = (false, q) := if_pos (h.full_iff.mpr hroom)
        rw [SpscQueue.call, hpush, BoundedFifo.step, if_neg hroom]
        exact ⟨rfl, h⟩
  | pop =>
      cases waiting with
      | nil =>
          have hpop : q.pop = (none, q) := if_pos (h.empty_iff.mpr rfl)
          rw [SpscQueue.call, hpop]
          exact ⟨rfl, h⟩
      | cons v rest =>
          have hne : q.head ≠ q.tail := fun he => List.cons_ne_nil _ _ (h.empty_iff.mp he)
          have hfront : q.buffer (c.slot q.head) = v := BoundedFifo.Holds.front h
          have hpop : q.pop = (some v, { q with head := q.head + 1 }) := by
            rw [← hfront]
            exact if_neg hne
          rw [SpscQueue.call, hpop]
          exact ⟨rfl, BoundedFifo.Holds.pop h (.inl rfl)⟩

/-! ## The two threads -/

/-- Where the producer stands. -/
inductive ProducerAt (α : Type) (w : Nat) where
  | idle
  /-- `push` has loaded `tail_`. -/
  | tailLoaded (item : α) (tail : BitVec w)
  /-- `push` has loaded `head_` and found room. -/
  | notFull (item : α) (tail : BitVec w)
  /-- `push` has written the slot. -/
  | written (item : α) (tail : BitVec w)
  /-- `size` has loaded `tail_`. -/
  | sizing (tail : BitVec w)

/-- Where the consumer stands. -/
inductive ConsumerAt (α : Type) (w : Nat) where
  | idle
  /-- `pop` has loaded `head_`. -/
  | headLoaded (head : BitVec w)
  /-- `pop` has loaded `tail_` and found an item. -/
  | notEmpty (head : BitVec w)
  /-- `pop` has read the slot. -/
  | taken (head : BitVec w) (value : α)
  /-- `size` has loaded `tail_`. -/
  | sizing (tail : BitVec w)

/-- What a step of a thread finishes. -/
inductive Event (α : Type) (w : Nat) where
  | none
  /-- `push` returns true. -/
  | pushed (item : α)
  /-- `push` returns false. -/
  | rejected (item : α)
  /-- `pop` returns true. -/
  | popped (value : α)
  /-- `pop` returns false. -/
  | empty
  /-- `size` returns. -/
  | sized (n : BitVec w)

/-- A thread makes a call or goes on with the one it is in. -/
inductive Turn (α : Type) where
  | push (item : α)
  | sizeByProducer
  | producer
  | pop
  | sizeByConsumer
  | consumer

/-- The queue and its two threads. -/
structure Threads (α : Type) {w : Nat} (c : Capacity w) where
  queue : SpscQueue α c
  producer : ProducerAt α w
  consumer : ConsumerAt α w

/-- One step of the producer. -/
def Threads.produce (s : Threads α c) : Event α w × Threads α c :=
  match s.producer with
  | .idle => (.none, s)
  | .tailLoaded item tail =>
      if tail + 1 - s.queue.head > kCapacity c - 1 then
        (.rejected item, { s with producer := .idle })
      else (.none, { s with producer := .notFull item tail })
  | .notFull item tail =>
      (.none, { s with
        queue := { s.queue with buffer := Function.update s.queue.buffer (c.slot tail) item }
        producer := .written item tail })
  | .written item tail =>
      (.pushed item, { s with queue := { s.queue with tail := tail + 1 }, producer := .idle })
  | .sizing tail => (.sized (tail - s.queue.head), { s with producer := .idle })

/-- One step of the consumer. -/
def Threads.consume (s : Threads α c) : Event α w × Threads α c :=
  match s.consumer with
  | .idle => (.none, s)
  | .headLoaded head =>
      if head = s.queue.tail then (.empty, { s with consumer := .idle })
      else (.none, { s with consumer := .notEmpty head })
  | .notEmpty head =>
      (.none, { s with consumer := .taken head (s.queue.buffer (c.slot head)) })
  | .taken head value =>
      (.popped value, { s with queue := { s.queue with head := head + 1 }, consumer := .idle })
  | .sizing tail => (.sized (tail - s.queue.head), { s with consumer := .idle })

/-- One turn.  A thread in the middle of a call does not make another one. -/
def Threads.step (s : Threads α c) : Turn α → Event α w × Threads α c
  | .push item =>
      match s.producer with
      | .idle => (.none, { s with producer := .tailLoaded item s.queue.tail })
      | _ => (.none, s)
  | .sizeByProducer =>
      match s.producer with
      | .idle => (.none, { s with producer := .sizing s.queue.tail })
      | _ => (.none, s)
  | .producer => s.produce
  | .pop =>
      match s.consumer with
      | .idle => (.none, { s with consumer := .headLoaded s.queue.head })
      | _ => (.none, s)
  | .sizeByConsumer =>
      match s.consumer with
      | .idle => (.none, { s with consumer := .sizing s.queue.tail })
      | _ => (.none, s)
  | .consumer => s.consume

/-- Two idle threads and an empty queue. -/
def Threads.fresh (start : BitVec w) (buffer : Fin c.slots → α) : Threads α c :=
  { queue := .fresh start buffer, producer := .idle, consumer := .idle }

/-- What a finished step pushed. -/
def Event.pushed? : Event α w → Option α
  | .pushed item => some item
  | _ => Option.none

/-- What a finished step popped. -/
def Event.popped? : Event α w → Option α
  | .popped value => some value
  | _ => Option.none

/-- The item of the `push` that the producer is in. -/
def ProducerAt.pushing? : ProducerAt α w → Option α
  | .tailLoaded item _ => some item
  | .notFull item _ => some item
  | .written item _ => some item
  | _ => none

/-- The consumer is in a `pop`. -/
def ConsumerAt.popping : ConsumerAt α w → Bool
  | .headLoaded _ => true
  | .notEmpty _ => true
  | .taken _ _ => true
  | _ => false

/-- The values pushed in a run, in order. -/
def pushedOf (events : List (Event α w)) : List α := events.filterMap Event.pushed?

/-- The values popped in a run, in order. -/
def poppedOf (events : List (Event α w)) : List α := events.filterMap Event.popped?

/-! ## A call in progress -/

/-- A `push` returns, or goes on with its item. -/
theorem push_continues {s : Threads α c} {item : α} (h : s.producer.pushing? = some item) :
    (s.step .producer).2.consumer = s.consumer ∧
      ((s.step .producer).1 = .pushed item ∧ (s.step .producer).2.producer = .idle ∨
        (s.step .producer).1 = .rejected item ∧ (s.step .producer).2.producer = .idle ∨
        (s.step .producer).1 = .none ∧ (s.step .producer).2.producer.pushing? = some item) := by
  obtain ⟨q, producer, consumer⟩ := s
  cases producer with
  | idle => cases h
  | tailLoaded i tail =>
      cases h
      simp only [Threads.step, Threads.produce]
      split
      · exact ⟨rfl, .inr (.inl ⟨rfl, rfl⟩)⟩
      · exact ⟨rfl, .inr (.inr ⟨rfl, rfl⟩)⟩
  | notFull i tail =>
      cases h
      exact ⟨rfl, .inr (.inr ⟨rfl, rfl⟩)⟩
  | written i tail =>
      cases h
      exact ⟨rfl, .inl ⟨rfl, rfl⟩⟩
  | sizing tail => cases h

/-- A `pop` returns, or goes on. -/
theorem pop_continues {s : Threads α c} (h : s.consumer.popping = true) :
    (s.step .consumer).2.producer = s.producer ∧
      ((∃ value, (s.step .consumer).1 = .popped value ∧ (s.step .consumer).2.consumer = .idle) ∨
        (s.step .consumer).1 = .empty ∧ (s.step .consumer).2.consumer = .idle ∨
        (s.step .consumer).1 = .none ∧ (s.step .consumer).2.consumer.popping = true) := by
  obtain ⟨q, producer, consumer⟩ := s
  cases consumer with
  | idle => cases h
  | headLoaded head =>
      simp only [Threads.step, Threads.consume]
      split
      · exact ⟨rfl, .inr (.inl ⟨rfl, rfl⟩)⟩
      · exact ⟨rfl, .inr (.inr ⟨rfl, rfl⟩)⟩
  | notEmpty head => exact ⟨rfl, .inr (.inr ⟨rfl, rfl⟩)⟩
  | taken head value => exact ⟨rfl, .inl ⟨value, rfl, rfl⟩⟩
  | sizing tail => cases h

/-! ## A call without interruption -/

/-- A `push` that nothing interrupts does what `push` says. -/
theorem push_alone (q : SpscQueue α c) (item : α) (consumer : ConsumerAt α w) :
    (pushedOf (Transducer.outputs Threads.step ⟨q, .idle, consumer⟩
        [.push item, .producer, .producer, .producer]) =
          if (q.push item).1 then [item] else []) ∧
      Transducer.final Threads.step ⟨q, .idle, consumer⟩
        [.push item, .producer, .producer, .producer] = ⟨(q.push item).2, .idle, consumer⟩ := by
  have hcall : Threads.step ⟨q, .idle, consumer⟩ (.push item) =
      (.none, ⟨q, .tailLoaded item q.tail, consumer⟩) := rfl
  simp only [Transducer.outputs_cons, Transducer.outputs_nil, Transducer.final_cons,
    Transducer.final_nil, hcall]
  by_cases hfull : q.tail + 1 - q.head > kCapacity c - 1
  · have hload : Threads.step ⟨q, .tailLoaded item q.tail, consumer⟩ .producer =
        (.rejected item, ⟨q, .idle, consumer⟩) := if_pos hfull
    have hpush : q.push item = (false, q) := if_pos hfull
    rw [hload, hpush]
    exact ⟨rfl, rfl⟩
  · have hload : Threads.step ⟨q, .tailLoaded item q.tail, consumer⟩ .producer =
        (.none, ⟨q, .notFull item q.tail, consumer⟩) := if_neg hfull
    have hpush : q.push item = (true, { q with
        buffer := Function.update q.buffer (c.slot q.tail) item
        tail := q.tail + 1 }) := if_neg hfull
    rw [hload, hpush]
    exact ⟨rfl, rfl⟩

/-- A `pop` that nothing interrupts does what `pop` says. -/
theorem pop_alone (q : SpscQueue α c) (producer : ProducerAt α w) :
    poppedOf (Transducer.outputs Threads.step ⟨q, producer, .idle⟩
        [.pop, .consumer, .consumer, .consumer]) = q.pop.1.toList ∧
      Transducer.final Threads.step ⟨q, producer, .idle⟩
        [.pop, .consumer, .consumer, .consumer] = ⟨q.pop.2, producer, .idle⟩ := by
  have hcall : Threads.step ⟨q, producer, .idle⟩ .pop =
      (.none, ⟨q, producer, .headLoaded q.head⟩) := rfl
  simp only [Transducer.outputs_cons, Transducer.outputs_nil, Transducer.final_cons,
    Transducer.final_nil, hcall]
  by_cases hempty : q.head = q.tail
  · have hload : Threads.step ⟨q, producer, .headLoaded q.head⟩ .consumer =
        (.empty, ⟨q, producer, .idle⟩) := if_pos hempty
    have hpop : q.pop = (none, q) := if_pos hempty
    rw [hload, hpop]
    exact ⟨rfl, rfl⟩
  · have hload : Threads.step ⟨q, producer, .headLoaded q.head⟩ .consumer =
        (.none, ⟨q, producer, .notEmpty q.head⟩) := if_neg hempty
    have hpop : q.pop = (some (q.buffer (c.slot q.head)), { q with head := q.head + 1 }) :=
      if_neg hempty
    rw [hload, hpop]
    exact ⟨rfl, rfl⟩

end Core
