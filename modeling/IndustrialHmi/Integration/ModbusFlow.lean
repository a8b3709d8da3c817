import IndustrialHmi.Core.SpscFifo
import IndustrialHmi.Integration.ModbusPollLoop

/-!
# Samples on their way

`Flow` follows every sample from its read to its dispatch: in the hand of `pollOnce`,
in the queue, in the hand of `drainOnce`, then with the bridge.  The queue's part is
`Core.Fifo`; the rest says that `pollOnce` and `drainOnce` are in a `push` or a `pop`
exactly when the queue's two ends are.

The step lemmas follow the two functions.  A step of one leaves the other's half of
the invariant alone.
-/

namespace Modbus

/-- The sample whose push has been refused, and whose drop is not counted yet. -/
def PollOnceAt.refusedHand : PollOnceAt → List RegisterSample
  | .refused sample _ => [sample]
  | _ => []

/-- The entries that `pollOnce` has still to read. -/
def PollOnceAt.rest : PollOnceAt → List RegisterMapping
  | .walking rest => rest
  | .counted _ rest => rest
  | .pushing _ rest => rest
  | .refused _ rest => rest
  | .returned => []

/-- `pollOnce` is in the `push` that the queue's producer is in. -/
def PollOnceAt.Agrees (producer : Core.ProducerAt RegisterSample 64) : PollOnceAt → Prop
  | .pushing sample _ => producer.pushing? = some sample
  | _ => producer = .idle

/-- `drainOnce` is in a `pop` when the queue's consumer is. -/
def DrainOnceAt.Agrees (consumer : Core.ConsumerAt RegisterSample 64) : DrainOnceAt → Prop
  | .popping => consumer.popping = true
  | _ => consumer = .idle

/-- Where the samples of a run are. -/
structure Flow (map : List RegisterMapping) (l : Ledger) (pushed popped : List RegisterSample)
    (p : Pipeline) : Prop where
  fifo : Core.Fifo 0 pushed popped p.queue
  producer : p.poll.Agrees p.queue.producer
  consumer : p.drain.Agrees p.queue.consumer
  kept : l.kept = pushed ++ p.poll.hand
  taken : popped = l.dispatched ++ p.drain.hand
  settled : l.reads.length = l.kept.length + l.dropped.length
  last : ∀ sample ∈ p.poll.hand, l.reads.getLast? = some sample
  refused : l.refused = l.dropped ++ p.poll.refusedHand
  map_eq : p.map = map
  rest : ∀ entry ∈ p.poll.rest, entry ∈ map
  successfulReads : p.successfulReads = BitVec.ofNat 64 l.reads.length
  failedReads : p.failedReads = BitVec.ofNat 64 l.failed.length
  droppedSamples : p.droppedSamples = BitVec.ofNat 64 l.dropped.length

variable {map : List RegisterMapping} {l : Ledger} {pushed popped : List RegisterSample}
  {p : Pipeline}

/-- One more event counts one more. -/
theorem ofNat_concat {α : Type} {n : BitVec 64} {xs : List α} (h : n = BitVec.ofNat 64 xs.length)
    (x : α) : n + 1 = BitVec.ofNat 64 (xs ++ [x]).length := by
  rw [List.length_append, List.length_singleton, BitVec.ofNat_add, ← h]
  rfl

/-- The samples that are not dropped, in the order in which they were read. -/
theorem Flow.order (h : Flow map l pushed popped p) :
    l.dispatched ++ p.drain.hand ++ p.queue.queue.contents ++ p.poll.hand = l.kept := by
  rw [h.kept, h.fifo.contents, h.taken]

theorem Flow.conserved (h : Flow map l pushed popped p) :
    l.reads.length = l.dispatched.length + l.dropped.length + p.queue.queue.contents.length +
      (p.poll.hand.length + p.drain.hand.length) := by
  have horder := congrArg List.length h.order
  have hsettled := h.settled
  simp only [List.length_append] at horder
  omega

/-! ## Steps of `pollOnce` -/

theorem Flow.beginPoll (h : Flow map l pushed popped p) (hpoll : p.poll = .returned) :
    Flow map l pushed popped { p with poll := .walking p.map } := by
  obtain ⟨entries, queue, poll, drain, successes, failures, drops⟩ := p
  obtain rfl : poll = .returned := hpoll
  exact { h with rest := fun entry hentry => h.map_eq ▸ hentry }

/-- A read is counted and taken in hand. -/
theorem Flow.read {entry : RegisterMapping} {rest : List RegisterMapping} {value : BitVec 16}
    (h : Flow map l pushed popped p) (hpoll : p.poll = .walking (entry :: rest)) :
    Flow map (l.record (.read ⟨entry, value⟩)) pushed popped { p with
      successfulReads := p.successfulReads + 1
      poll := .counted ⟨entry, value⟩ rest } := by
  obtain ⟨entries, queue, poll, drain, successes, failures, drops⟩ := p
  obtain rfl : poll = .walking (entry :: rest) := hpoll
  have hkept : l.kept = pushed := h.kept.trans (List.append_nil _)
  refine { h with kept := ?_, settled := ?_, last := ?_, rest := ?_, successfulReads := ?_ }
  · exact congrArg (· ++ [(⟨entry, value⟩ : RegisterSample)]) hkept
  · have hsettled := h.settled
    simp only [Ledger.record, List.length_append, List.length_singleton]
    omega
  · intro sample hsample
    rw [List.mem_singleton.mp hsample]
    exact List.getLast?_concat ..
  · exact fun e he => h.rest e (List.mem_cons_of_mem _ he)
  · exact ofNat_concat h.successfulReads _

/-- The drop of a refused sample is counted. -/
theorem Flow.dropped {sample : RegisterSample} {rest : List RegisterMapping}
    (h : Flow map l pushed popped p) (hpoll : p.poll = .refused sample rest) :
    Flow map (l.record (.dropped sample)) pushed popped { p with
      droppedSamples := p.droppedSamples + 1
      poll := .walking rest } := by
  obtain ⟨entries, queue, poll, drain, successes, failures, drops⟩ := p
  obtain rfl : poll = .refused sample rest := hpoll
  have hkept : l.kept = pushed ++ [sample] := h.kept
  have hdrop : l.kept.dropLast = pushed := by rw [hkept, List.dropLast_concat]
  refine { h with kept := ?_, settled := ?_, last := ?_, refused := ?_, droppedSamples := ?_ }
  · exact hdrop.trans (List.append_nil _).symm
  · have hsettled := h.settled
    rw [hkept] at hsettled
    simp only [Ledger.record, hdrop, List.length_append, List.length_singleton] at hsettled ⊢
    omega
  · exact fun s hs => absurd hs List.not_mem_nil
  · exact h.refused.trans (List.append_nil _).symm
  · exact ofNat_concat h.droppedSamples _

/-- A step within `push`. -/
theorem Flow.push {sample : RegisterSample} {rest : List RegisterMapping} (reader : Reader)
    (h : Flow map l pushed popped p) (hpoll : p.poll = .pushing sample rest) :
    ∃ pushed', Flow map (l.record (p.pollOnce reader).1) pushed' popped (p.pollOnce reader).2 := by
  obtain ⟨entries, queue, poll, drain, successes, failures, drops⟩ := p
  obtain rfl : poll = .pushing sample rest := hpoll
  have hfifo := h.fifo.step .producer
  obtain ⟨hconsumer, hstep⟩ := Core.push_continues h.producer
  have hdrain := h.consumer
  rw [← hconsumer] at hdrain
  simp only [Pipeline.pollOnce]
  generalize queue.step .producer = r at hfifo hstep hdrain
  obtain ⟨event, queue'⟩ := r
  simp only at hfifo hstep hdrain
  rcases hstep with ⟨rfl, hidle⟩ | ⟨rfl, hidle⟩ | ⟨rfl, hpushing⟩
  · refine ⟨pushed ++ [sample], { h with
      fifo := ?_, producer := hidle, consumer := hdrain, kept := ?_, last := ?_ }⟩
    · simpa only [Core.Event.pushed?, Core.Event.popped?, Option.toList_some, Option.toList_none,
        List.append_nil] using hfifo
    · exact h.kept.trans (List.append_nil _).symm
    · exact fun s hs => absurd hs List.not_mem_nil
  · refine ⟨pushed, { h with
      fifo := ?_, producer := hidle, consumer := hdrain, refused := ?_ }⟩
    · exact (Core.fifo_silent rfl rfl).mp hfifo
    · exact congrArg (· ++ [sample]) (h.refused.trans (List.append_nil _))
  · refine ⟨pushed, { h with fifo := ?_, producer := hpushing, consumer := hdrain }⟩
    exact (Core.fifo_silent rfl rfl).mp hfifo

/-- Every step of `pollOnce` keeps the samples in place. -/
theorem Flow.pollOnce (h : Flow map l pushed popped p) (reader : Reader) :
    ∃ pushed', Flow map (l.record (p.pollOnce reader).1) pushed' popped (p.pollOnce reader).2 := by
  cases hpoll : p.poll with
  | walking rest =>
      cases rest with
      | nil =>
          obtain ⟨entries, queue, poll, drain, successes, failures, drops⟩ := p
          obtain rfl : poll = .walking [] := hpoll
          exact ⟨pushed, { h with }⟩
      | cons entry rest =>
          simp only [Pipeline.pollOnce, hpoll]
          split
          · exact ⟨pushed, h.read hpoll⟩
          · obtain ⟨entries, queue, poll, drain, successes, failures, drops⟩ := p
            obtain rfl : poll = .walking (entry :: rest) := hpoll
            exact ⟨pushed, { h with
              rest := fun e he => h.rest e (List.mem_cons_of_mem _ he)
              failedReads := ofNat_concat h.failedReads _ }⟩
  | counted sample rest =>
      obtain ⟨entries, queue, poll, drain, successes, failures, drops⟩ := p
      obtain rfl : poll = .counted sample rest := hpoll
      have hidle : queue.producer = .idle := h.producer
      have hcall : queue.step (.push sample) =
          (.none, { queue with producer := .tailLoaded sample queue.queue.tail }) := by
        simp only [Core.Threads.step, hidle]
      have hfifo := h.fifo.step (.push sample)
      simp only [Pipeline.pollOnce]
      rw [hcall] at hfifo ⊢
      refine ⟨pushed, { h with fifo := ?_, producer := rfl, consumer := h.consumer }⟩
      exact (Core.fifo_silent rfl rfl).mp hfifo
  | pushing sample rest => exact h.push reader hpoll
  | refused sample rest =>
      simp only [Pipeline.pollOnce, hpoll]
      exact ⟨pushed, h.dropped hpoll⟩
  | returned =>
      simp only [Pipeline.pollOnce, hpoll]
      exact ⟨pushed, h⟩

/-! ## Steps of `drainOnce` -/

theorem Flow.beginDrain (h : Flow map l pushed popped p) (hdrain : p.drain = .returned) :
    Flow map l pushed popped { p with drain := .draining } := by
  obtain ⟨entries, queue, poll, drain, successes, failures, drops⟩ := p
  obtain rfl : drain = .returned := hdrain
  exact { h with }

/-- A step within `pop`.  It returns false only if the queue is empty. -/
theorem Flow.pop (h : Flow map l pushed popped p) (hdrain : p.drain = .popping) :
    ∃ popped', Flow map (l.record p.drainOnce.1) pushed popped' p.drainOnce.2 ∧
      (p.drainOnce.2.drain = .returned →
        p.drainOnce.2.queue.queue.head = p.drainOnce.2.queue.queue.tail) := by
  obtain ⟨entries, queue, poll, drain, successes, failures, drops⟩ := p
  obtain rfl : drain = .popping := hdrain
  have hfifo := h.fifo.step .consumer
  obtain ⟨hproducer, hstep⟩ := Core.pop_continues h.consumer
  have hnone : (queue.step .consumer).1 = .empty → pushed.length = popped.length :=
    h.fifo.none_of_empty
  have hpoll := h.producer
  rw [← hproducer] at hpoll
  simp only [Pipeline.drainOnce]
  generalize queue.step .consumer = r at hfifo hstep hpoll hnone
  obtain ⟨event, queue'⟩ := r
  simp only at hfifo hstep hpoll hnone
  have hpopped : popped = l.dispatched := h.taken.trans (List.append_nil _)
  rcases hstep with ⟨value, rfl, hidle⟩ | ⟨rfl, hidle⟩ | ⟨rfl, hpopping⟩
  · refine ⟨popped ++ [value], { h with
      fifo := ?_, producer := hpoll, consumer := hidle, taken := ?_ }, fun he => by cases he⟩
    · simpa only [Core.Event.pushed?, Core.Event.popped?, Option.toList_some, Option.toList_none,
        List.append_nil] using hfifo
    · exact congrArg (· ++ [value]) hpopped
  · have hfifo' := (Core.fifo_silent rfl rfl).mp hfifo
    exact ⟨popped, { h with fifo := hfifo', producer := hpoll, consumer := hidle },
      fun _ => hfifo'.window.empty_iff.mpr (hnone rfl)⟩
  · refine ⟨popped, { h with fifo := ?_, producer := hpoll, consumer := hpopping },
      fun he => by cases he⟩
    exact (Core.fifo_silent rfl rfl).mp hfifo

/-- Every step of `drainOnce` keeps the samples in place.  It returns only if the queue is
empty. -/
theorem Flow.drainOnce (h : Flow map l pushed popped p) (hbusy : p.drain ≠ .returned) :
    ∃ popped', Flow map (l.record p.drainOnce.1) pushed popped' p.drainOnce.2 ∧
      (p.drainOnce.2.drain = .returned →
        p.drainOnce.2.queue.queue.head = p.drainOnce.2.queue.queue.tail) := by
  cases hdrain : p.drain with
  | draining =>
      obtain ⟨entries, queue, poll, drain, successes, failures, drops⟩ := p
      obtain rfl : drain = .draining := hdrain
      have hidle : queue.consumer = .idle := h.consumer
      have hcall : queue.step .pop =
          (.none, { queue with consumer := .headLoaded queue.queue.head }) := by
        simp only [Core.Threads.step, hidle]
      have hfifo := h.fifo.step .pop
      simp only [Pipeline.drainOnce]
      rw [hcall] at hfifo ⊢
      refine ⟨popped, { h with fifo := ?_, producer := h.producer, consumer := rfl },
        fun he => by cases he⟩
      exact (Core.fifo_silent rfl rfl).mp hfifo
  | popping => exact h.pop hdrain
  | popped sample =>
      obtain ⟨entries, queue, poll, drain, successes, failures, drops⟩ := p
      obtain rfl : drain = .popped sample := hdrain
      refine ⟨popped, { h with taken := ?_ }, fun he => by cases he⟩
      exact h.taken.trans (List.append_nil _).symm
  | returned => exact absurd hdrain hbusy

end Modbus
