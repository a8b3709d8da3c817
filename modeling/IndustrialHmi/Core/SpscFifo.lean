import IndustrialHmi.Core.SpscQueue

/-!
# The queue is a bounded FIFO

`Stepped` lists what one turn may do, and `Fifo` is the invariant of every
interleaving: the values between the two indices are those pushed and not popped,
and what a thread has loaded is what it may rely on.  The producer's own index
cannot change under it, and the room it has seen can only grow.  The consumer's
case is the mirror image.

`fifo_run` carries the invariant along a run, and `linearises` reads the queue's
contract off it.
-/

namespace Core

open Ring

variable {w : Nat} {α : Type} {c : Capacity w}

/-! ## One turn -/

/-- What one turn may do. -/
inductive Stepped (s : Threads α c) : Event α w × Threads α c → Prop where
  | stays : Stepped s (.none, s)
  | pushCalled (item : α) : s.producer = .idle →
      Stepped s (.none, { s with producer := .tailLoaded item s.queue.tail })
  | producerSizes : s.producer = .idle →
      Stepped s (.none, { s with producer := .sizing s.queue.tail })
  | rejected {item tail} : s.producer = .tailLoaded item tail →
      tail + 1 - s.queue.head > kCapacity c - 1 →
      Stepped s (.rejected item, { s with producer := .idle })
  | roomSeen {item tail} : s.producer = .tailLoaded item tail →
      ¬ tail + 1 - s.queue.head > kCapacity c - 1 →
      Stepped s (.none, { s with producer := .notFull item tail })
  | wrote {item tail} : s.producer = .notFull item tail →
      Stepped s (.none, { s with
        queue := { s.queue with buffer := Function.update s.queue.buffer (c.slot tail) item }
        producer := .written item tail })
  | pushed {item tail} : s.producer = .written item tail →
      Stepped s
        (.pushed item, { s with queue := { s.queue with tail := tail + 1 }, producer := .idle })
  | producerSized {tail} : s.producer = .sizing tail →
      Stepped s (.sized (tail - s.queue.head), { s with producer := .idle })
  | popCalled : s.consumer = .idle →
      Stepped s (.none, { s with consumer := .headLoaded s.queue.head })
  | consumerSizes : s.consumer = .idle →
      Stepped s (.none, { s with consumer := .sizing s.queue.tail })
  | empty {head} : s.consumer = .headLoaded head → head = s.queue.tail →
      Stepped s (.empty, { s with consumer := .idle })
  | itemSeen {head} : s.consumer = .headLoaded head → head ≠ s.queue.tail →
      Stepped s (.none, { s with consumer := .notEmpty head })
  | took {head} : s.consumer = .notEmpty head →
      Stepped s (.none, { s with consumer := .taken head (s.queue.buffer (c.slot head)) })
  | popped {head value} : s.consumer = .taken head value →
      Stepped s
        (.popped value, { s with queue := { s.queue with head := head + 1 }, consumer := .idle })
  | consumerSized {tail} : s.consumer = .sizing tail →
      Stepped s (.sized (tail - s.queue.head), { s with consumer := .idle })

theorem produce_cases (s : Threads α c) : Stepped s s.produce := by
  unfold Threads.produce
  split
  · exact .stays
  · next item tail hp =>
      split
      · next hfull => exact .rejected hp hfull
      · next hroom => exact .roomSeen hp hroom
  · next item tail hp => exact .wrote hp
  · next item tail hp => exact .pushed hp
  · next tail hp => exact .producerSized hp

theorem consume_cases (s : Threads α c) : Stepped s s.consume := by
  unfold Threads.consume
  split
  · exact .stays
  · next head hc =>
      split
      · next hempty => exact .empty hc hempty
      · next hitem => exact .itemSeen hc hitem
  · next head hc => exact .took hc
  · next head value hc => exact .popped hc
  · next tail hc => exact .consumerSized hc

theorem step_cases (s : Threads α c) (turn : Turn α) : Stepped s (s.step turn) := by
  cases turn with
  | push item =>
      simp only [Threads.step]
      split
      · next hp => exact .pushCalled item hp
      · exact .stays
  | sizeByProducer =>
      simp only [Threads.step]
      split
      · next hp => exact .producerSizes hp
      · exact .stays
  | producer => exact produce_cases s
  | pop =>
      simp only [Threads.step]
      split
      · next hc => exact .popCalled hc
      · exact .stays
  | sizeByConsumer =>
      simp only [Threads.step]
      split
      · next hc => exact .consumerSizes hc
      · exact .stays
  | consumer => exact consume_cases s

/-! ## The invariant -/

section

variable {start : BitVec w} {pushed popped : List α} {s : Threads α c}

/-- What the producer may rely on. -/
def ProducerOk (pushed popped : List α) (q : SpscQueue α c) : ProducerAt α w → Prop
  | .idle => True
  | .tailLoaded _ tail => tail = q.tail
  | .notFull _ tail => tail = q.tail ∧ pushed.length < popped.length + (c.slots - 1)
  | .written item tail => tail = q.tail ∧ pushed.length < popped.length + (c.slots - 1) ∧
      q.buffer (c.slot tail) = item
  | .sizing tail => tail = q.tail

/-- What the consumer may rely on. -/
def ConsumerOk (start : BitVec w) (pushed popped : List α) (q : SpscQueue α c) :
    ConsumerAt α w → Prop
  | .idle => True
  | .headLoaded head => head = q.head
  | .notEmpty head => head = q.head ∧ popped.length < pushed.length
  | .taken head value => head = q.head ∧ pushed[popped.length]? = some value
  | .sizing tail => ∃ n, popped.length ≤ n ∧ n ≤ pushed.length ∧ tail = index start n

/-- The invariant of every interleaving. -/
structure Fifo (start : BitVec w) (pushed popped : List α) (s : Threads α c) : Prop where
  window : Window c id start pushed popped popped.length s.queue.head s.queue.tail s.queue.buffer
  producer : ProducerOk pushed popped s.queue s.producer
  consumer : ConsumerOk start pushed popped s.queue s.consumer

theorem Fifo.fresh (start : BitVec w) (buffer : Fin c.slots → α) :
    Fifo start [] [] (Threads.fresh start buffer) where
  window := Window.empty buffer
  producer := trivial
  consumer := trivial

/-- A pop leaves the producer with at least the room it has seen. -/
theorem ProducerOk.after_pop {q : SpscQueue α c} {p : ProducerAt α w}
    (h : ProducerOk pushed popped q p) (value : α) (head : BitVec w) :
    ProducerOk pushed (popped ++ [value]) { q with head := head } p := by
  have hgrows : popped.length ≤ (popped ++ [value]).length :=
    (List.prefix_append _ _).length_le
  cases p with
  | idle => trivial
  | tailLoaded item tail => exact h
  | notFull item tail => exact ⟨h.1, by have := h.2; omega⟩
  | written item tail => exact ⟨h.1, by have := h.2.1; omega, h.2.2⟩
  | sizing tail => exact h

/-- A push leaves the consumer with at least the items it has seen. -/
theorem ConsumerOk.after_push {q : SpscQueue α c} {p : ConsumerAt α w}
    (h : ConsumerOk start pushed popped q p) (item : α) (tail : BitVec w) :
    ConsumerOk start (pushed ++ [item]) popped { q with tail := tail } p := by
  have hgrows : pushed.length ≤ (pushed ++ [item]).length :=
    (List.prefix_append _ _).length_le
  cases p with
  | idle => trivial
  | headLoaded head => exact h
  | notEmpty head => exact ⟨h.1, Nat.lt_of_lt_of_le h.2 hgrows⟩
  | taken head value =>
      refine ⟨h.1, ?_⟩
      have hlt := (List.getElem?_eq_some_iff.mp h.2).1
      rw [List.getElem?_append_left hlt]
      exact h.2
  | sizing tail =>
      obtain ⟨n, hlow, hhigh, htail⟩ := h
      exact ⟨n, hlow, Nat.le_trans hhigh hgrows, htail⟩

/-- A written slot is none that the consumer relies on. -/
theorem ConsumerOk.after_write {q : SpscQueue α c} {p : ConsumerAt α w}
    (h : ConsumerOk start pushed popped q p) (buffer : Fin c.slots → α) :
    ConsumerOk start pushed popped { q with buffer := buffer } p := by
  cases p <;> exact h

/-- An event that neither pushes nor pops leaves the history as it is. -/
theorem fifo_silent {event : Event α w} (hpush : event.pushed? = none)
    (hpop : event.popped? = none) :
    Fifo start (pushed ++ event.pushed?.toList) (popped ++ event.popped?.toList) s ↔
      Fifo start pushed popped s := by
  rw [hpush, hpop, Option.toList_none, List.append_nil, List.append_nil]

/-- Every turn keeps the invariant. -/
theorem Fifo.step (h : Fifo start pushed popped s) (turn : Turn α) :
    Fifo start (pushed ++ (s.step turn).1.pushed?.toList) (popped ++ (s.step turn).1.popped?.toList)
      (s.step turn).2 := by
  have hcases := step_cases s turn
  generalize s.step turn = r at hcases ⊢
  have hproducer := h.producer
  have hconsumer := h.consumer
  cases hcases with
  | stays => exact (fifo_silent rfl rfl).mpr h
  | pushCalled item _ => exact (fifo_silent rfl rfl).mpr ⟨h.window, rfl, hconsumer⟩
  | producerSizes _ => exact (fifo_silent rfl rfl).mpr ⟨h.window, rfl, hconsumer⟩
  | rejected _ _ => exact (fifo_silent rfl rfl).mpr ⟨h.window, trivial, hconsumer⟩
  | roomSeen hp hroom =>
      rw [hp] at hproducer
      have htail : _ = s.queue.tail := hproducer
      rw [htail] at hroom
      exact (fifo_silent rfl rfl).mpr ⟨h.window, ⟨htail, h.window.room hroom⟩, hconsumer⟩
  | wrote hp =>
      rw [hp] at hproducer
      obtain ⟨rfl, hroom⟩ := hproducer
      refine (fifo_silent rfl rfl).mpr ⟨h.window.write hroom (Nat.le_refl _) _, ⟨rfl, hroom, ?_⟩,
        hconsumer.after_write _⟩
      exact Function.update_self ..
  | pushed hp =>
      simp only [Event.pushed?, Event.popped?, Option.toList_none, Option.toList_some,
        List.append_nil]
      rw [hp] at hproducer
      obtain ⟨rfl, hroom, hitem⟩ := hproducer
      exact ⟨h.window.publish hroom hitem, trivial, hconsumer.after_push _ _⟩
  | producerSized _ => exact (fifo_silent rfl rfl).mpr ⟨h.window, trivial, hconsumer⟩
  | popCalled _ => exact (fifo_silent rfl rfl).mpr ⟨h.window, hproducer, rfl⟩
  | consumerSizes _ =>
      exact (fifo_silent rfl rfl).mpr
        ⟨h.window, hproducer, pushed.length, h.window.length_le, Nat.le_refl _, h.window.tail_eq⟩
  | empty _ _ => exact (fifo_silent rfl rfl).mpr ⟨h.window, hproducer, trivial⟩
  | itemSeen hc hitem =>
      rw [hc] at hconsumer
      have hhead : _ = s.queue.head := hconsumer
      rw [hhead] at hitem
      exact (fifo_silent rfl rfl).mpr ⟨h.window, hproducer, hhead, h.window.waits hitem⟩
  | took hc =>
      rw [hc] at hconsumer
      obtain ⟨hhead, hlt⟩ := hconsumer
      have hitem := List.getElem?_eq_getElem hlt
      have hslot := h.window.content popped.length _ (Nat.le_refl _) hitem
      refine (fifo_silent rfl rfl).mpr ⟨h.window, hproducer, hhead, ?_⟩
      rw [hhead, h.window.head_eq, hslot, hitem]
      rfl
  | popped hc =>
      simp only [Event.pushed?, Event.popped?, Option.toList_none, Option.toList_some,
        List.append_nil]
      rw [hc] at hconsumer
      obtain ⟨rfl, hitem⟩ := hconsumer
      refine ⟨?_, hproducer.after_pop _ _, trivial⟩
      rw [List.length_append, List.length_singleton]
      exact h.window.free (Nat.le_succ _) hitem
  | consumerSized _ => exact (fifo_silent rfl rfl).mpr ⟨h.window, hproducer, trivial⟩

/-- `push` finds the queue full only if all usable slots are taken. -/
theorem Fifo.full_of_rejected (h : Fifo start pushed popped s) {turn : Turn α} {item : α}
    (hevent : (s.step turn).1 = .rejected item) :
    pushed.length = popped.length + (c.slots - 1) := by
  have hproducer := h.producer
  have hcases := step_cases s turn
  generalize s.step turn = r at hcases hevent
  cases hcases with
  | rejected hp hfull =>
      rw [hp] at hproducer
      have htail : _ = s.queue.tail := hproducer
      rw [htail] at hfull
      exact h.window.full_iff.mp hfull
  | _ => cases hevent

/-- `pop` finds the queue empty only if nothing waits. -/
theorem Fifo.none_of_empty (h : Fifo start pushed popped s) {turn : Turn α}
    (hevent : (s.step turn).1 = .empty) : pushed.length = popped.length := by
  have hconsumer := h.consumer
  have hcases := step_cases s turn
  generalize s.step turn = r at hcases hevent
  cases hcases with
  | empty hc hempty =>
      rw [hc] at hconsumer
      have hhead : _ = s.queue.head := hconsumer
      rw [hhead] at hempty
      exact h.window.empty_iff.mp hempty
  | _ => cases hevent

/-- A queue with all usable slots taken is `full`. -/
theorem Fifo.full (h : Fifo start pushed popped s)
    (hall : pushed.length = popped.length + (c.slots - 1)) : s.queue.full = true := by
  refine decide_eq_true (BitVec.le_def.mpr ?_)
  have hcapacity : (kCapacity c - 1).toNat = c.slots - 1 := c.mask_toNat
  have hsize : s.queue.size.toNat = pushed.length - popped.length := h.window.occupancy
  rw [hcapacity, hsize]
  omega

/-- The queue holds what was pushed and not popped. -/
theorem Fifo.contents (h : Fifo start pushed popped s) :
    pushed = popped ++ s.queue.contents := by
  have hcontents : s.queue.contents = (pushed.drop popped.length).map id := h.window.contents
  rw [hcontents, List.map_id]
  exact List.prefix_append_drop h.window.taken

end

/-! ## Runs -/

section

variable (start : BitVec w) (buffer : Fin c.slots → α) (turns : List (Turn α))

/-- The threads after some turns. -/
def threadsAfter : Threads α c := Transducer.final Threads.step (.fresh start buffer) turns

/-- The values pushed by then, in order. -/
def pushedBy : List α :=
  pushedOf (Transducer.outputs Threads.step (Threads.fresh start buffer) turns)

/-- The values popped by then, in order. -/
def poppedBy : List α :=
  poppedOf (Transducer.outputs Threads.step (Threads.fresh start buffer) turns)

/-- Every run keeps the invariant. -/
theorem fifo_run :
    Fifo start (pushedBy start buffer turns) (poppedBy start buffer turns)
      (threadsAfter start buffer turns) := by
  refine Transducer.run_history Threads.step
    (R := fun turns s => Fifo start (pushedBy start buffer turns) (poppedBy start buffer turns) s)
    (Fifo.fresh start buffer) (fun turns turn h => ?_) turns
  have hstep := h.step turn
  simp only [pushedBy, poppedBy, pushedOf, poppedOf, Transducer.outputs_concat,
    List.filterMap_append, List.filterMap_cons, List.filterMap_nil] at hstep ⊢
  revert hstep
  generalize (Threads.step _ turn).1 = event
  cases event <;> exact id

end

/-- The contract of the queue, at the end of one run. -/
structure Linearises (start : BitVec w) (buffer : Fin c.slots → α) (turns : List (Turn α)) :
    Prop where
  /-- Values are popped in the order in which they were pushed. -/
  order : poppedBy start buffer turns <+: pushedBy start buffer turns
  /-- At most one slot less than the capacity is in use. -/
  occupancy :
    ((threadsAfter start buffer turns).queue.tail -
        (threadsAfter start buffer turns).queue.head).toNat =
      (pushedBy start buffer turns).length - (poppedBy start buffer turns).length ∧
    (pushedBy start buffer turns).length - (poppedBy start buffer turns).length ≤ c.slots - 1
  /-- The slot that the producer is about to write is none of a value not yet freed. -/
  writes : ∀ item tail, (threadsAfter start buffer turns).producer = .notFull item tail →
    ∀ n, n < (pushedBy start buffer turns).length - (poppedBy start buffer turns).length →
      c.slot tail ≠ c.slot ((threadsAfter start buffer turns).queue.head + BitVec.ofNat w n)
  /-- The slot that the consumer is about to read holds the oldest published value. -/
  reads : ∀ head, (threadsAfter start buffer turns).consumer = .notEmpty head →
    (pushedBy start buffer turns)[(poppedBy start buffer turns).length]? =
      some ((threadsAfter start buffer turns).queue.buffer (c.slot head))
  /-- A `push` fails only if all usable slots are taken when it loads the consumer's index. -/
  rejected : ∀ turn item, ((threadsAfter start buffer turns).step turn).1 = .rejected item →
    (pushedBy start buffer turns).length - (poppedBy start buffer turns).length = c.slots - 1
  /-- A `pop` fails only if nothing waits when it loads the producer's index. -/
  empty : ∀ turn, ((threadsAfter start buffer turns).step turn).1 = .empty →
    (pushedBy start buffer turns).length = (poppedBy start buffer turns).length
  /-- `size`, called by either thread, is within the usable slots. -/
  sized : ∀ turn n, ((threadsAfter start buffer turns).step turn).1 = .sized n →
    n.toNat ≤ c.slots - 1

/-- Every interleaving of the two threads keeps the contract of a bounded FIFO. -/
theorem linearises (start : BitVec w) (buffer : Fin c.slots → α) (turns : List (Turn α)) :
    Linearises start buffer turns := by
  have h := fifo_run start buffer turns
  generalize hpushed : pushedBy start buffer turns = pushed at h
  generalize hpopped : poppedBy start buffer turns = popped at h
  generalize hs : threadsAfter start buffer turns = s at h
  have hlength := h.window.length_le
  have hbound := h.window.bound
  have htwo := c.two_le
  have hproducer := h.producer
  have hconsumer := h.consumer
  refine ⟨?_, ?_, ?_, ?_, ?_, ?_, ?_⟩ <;> simp only [hpushed, hpopped, hs]
  · exact h.window.taken
  · exact ⟨h.window.occupancy, by omega⟩
  · intro item tail hp n hn
    rw [hp] at hproducer
    obtain ⟨rfl, hroom⟩ := hproducer
    rw [h.window.tail_eq, h.window.head_eq, ← index_add]
    exact (c.slot_ne start (by omega) (by omega)).symm
  · intro head hc
    rw [hc] at hconsumer
    obtain ⟨rfl, hlt⟩ := hconsumer
    have hitem := List.getElem?_eq_getElem hlt
    rw [h.window.head_eq, h.window.content _ _ (Nat.le_refl _) hitem]
    exact hitem
  · intro turn item hevent
    have hfull := h.full_of_rejected hevent
    omega
  · exact fun turn hevent => h.none_of_empty hevent
  · intro turn n hevent
    have hcases := step_cases s turn
    generalize s.step turn = r at hcases hevent
    cases hcases with
    | producerSized hp =>
        cases hevent
        rw [hp] at hproducer
        have htail : _ = s.queue.tail := hproducer
        rw [htail, h.window.occupancy]
        omega
    | consumerSized hc =>
        cases hevent
        rw [hc] at hconsumer
        obtain ⟨m, hlow, hhigh, rfl⟩ := hconsumer
        rw [h.window.head_eq, index_sub start hlow (by have := c.slots_lt; omega)]
        omega
    | _ => cases hevent

end Core
