import IndustrialHmi.Rust.Spsc

/-!
# The two ends of a channel

`Channel` is the shared state with its producer and its consumer, each in the middle
of a call or dropped.  As in the C++ queue, a turn is one load, one slot access or
one store of one end, so a run is one interleaving.

`Ends` is the invariant.  It differs from the C++ one in the slots: between its read
and its store, `pop` has already emptied the slot that `head` names.
-/

namespace Spsc

open Ring

variable {w : Nat} {α : Type} {c : Capacity w}

/-! ## The channel -/

/-- Where the producer stands. -/
inductive ProducerAt (α : Type) (w : Nat) where
  | idle
  /-- `push` has loaded `tail`. -/
  | tailLoaded (item : α) (tail : BitVec w)
  /-- `push` has loaded `head` and found room. -/
  | notFull (item : α) (tail : BitVec w)
  /-- `push` has written the slot. -/
  | written (item : α) (tail : BitVec w)
  | dropped

/-- Where the consumer stands. -/
inductive ConsumerAt (α : Type) (w : Nat) where
  | idle
  /-- `pop` has loaded `head`. -/
  | headLoaded (head : BitVec w)
  /-- `pop` has loaded `tail` and found an item. -/
  | notEmpty (head : BitVec w)
  /-- `pop` has moved the value out of its slot. -/
  | taken (head : BitVec w) (value : α)
  | dropped

/-- What a step does for the caller. -/
inductive Event (α : Type) where
  | none
  /-- `push` is called. -/
  | called (item : α)
  /-- `push` returns `Ok`. -/
  | pushed (item : α)
  /-- `push` returns `Err`, with the item. -/
  | rejected (item : α)
  /-- `pop` returns `Some`. -/
  | popped (value : α)
  /-- `pop` returns `None`. -/
  | empty
  | fault (fault : Fault)
  /-- The shared state is dropped, with these slots. -/
  | freed (slots : List (Slot α))

/-- An end makes a call, goes on with the one it is in, or is dropped. -/
inductive Turn (α : Type) where
  | push (item : α)
  | producer
  | dropProducer
  | pop
  | consumer
  | dropConsumer

/-- The shared state and the two ends. -/
structure Channel (α : Type) {w : Nat} (c : Capacity w) where
  shared : Shared α c
  producer : ProducerAt α w
  consumer : ConsumerAt α w

/-- One step of `push`. -/
def Channel.produce (s : Channel α c) : Event α × Channel α c :=
  match s.producer with
  | .idle => (.none, s)
  | .tailLoaded item tail =>
      if tail + 1 - s.shared.head > MASK c then (.rejected item, { s with producer := .idle })
      else (.none, { s with producer := .notFull item tail })
  | .notFull item tail =>
      (.none, { s with
        shared := { s.shared with
          buffer := Function.update s.shared.buffer (c.slot tail) (.live item) }
        producer := .written item tail })
  | .written item tail =>
      (.pushed item, { s with shared := { s.shared with tail := tail + 1 }, producer := .idle })
  | .dropped => (.none, s)

/-- One step of `pop`. -/
def Channel.consume (s : Channel α c) : Event α × Channel α c :=
  match s.consumer with
  | .idle => (.none, s)
  | .headLoaded head =>
      if head = s.shared.tail then (.empty, { s with consumer := .idle })
      else (.none, { s with consumer := .notEmpty head })
  | .notEmpty head =>
      match assumeInitRead (s.shared.buffer (c.slot head)) with
      | .ok value =>
          (.none, { s with
            shared := { s.shared with
              buffer := Function.update s.shared.buffer (c.slot head) .taken }
            consumer := .taken head value })
      | .error fault => (.fault fault, { s with consumer := .idle })
  | .taken head value =>
      (.popped value, { s with shared := { s.shared with head := head + 1 }, consumer := .idle })
  | .dropped => (.none, s)

/-- Drop an end that is not in a call.  The last one drops the shared state. -/
def Channel.dropProducer (s : Channel α c) : Event α × Channel α c :=
  match s.producer, s.consumer with
  | .idle, .dropped => (.freed s.shared.drop, { s with producer := .dropped })
  | .idle, _ => (.none, { s with producer := .dropped })
  | _, _ => (.none, s)

def Channel.dropConsumer (s : Channel α c) : Event α × Channel α c :=
  match s.consumer, s.producer with
  | .idle, .dropped => (.freed s.shared.drop, { s with consumer := .dropped })
  | .idle, _ => (.none, { s with consumer := .dropped })
  | _, _ => (.none, s)

/-- One turn. -/
def Channel.step (s : Channel α c) : Turn α → Event α × Channel α c
  | .push item =>
      match s.producer with
      | .idle => (.called item, { s with producer := .tailLoaded item s.shared.tail })
      | _ => (.none, s)
  | .producer => s.produce
  | .dropProducer => s.dropProducer
  | .pop =>
      match s.consumer with
      | .idle => (.none, { s with consumer := .headLoaded s.shared.head })
      | _ => (.none, s)
  | .consumer => s.consume
  | .dropConsumer => s.dropConsumer

/-- A new channel. -/
def Channel.fresh (start : BitVec w) : Channel α c :=
  { shared := .fresh start, producer := .idle, consumer := .idle }

/-! ## A call without interruption -/

/-- A `push` that nothing interrupts does what `push` says. -/
theorem push_alone (sh : Shared α c) (item : α) (consumer : ConsumerAt α w) :
    Transducer.runAll Channel.step ⟨sh, .idle, consumer⟩
        [.push item, .producer, .producer, .producer] =
      (if (sh.push item).1.isOk then [.called item, .none, .none, .pushed item]
        else [.called item, .rejected item, .none, .none],
        ⟨(sh.push item).2, .idle, consumer⟩) := by
  have hcall : Channel.step ⟨sh, .idle, consumer⟩ (.push item) =
      (.called item, ⟨sh, .tailLoaded item sh.tail, consumer⟩) := rfl
  simp only [Transducer.runAll, hcall]
  by_cases hfull : sh.tail + 1 - sh.head > MASK c
  · have hload : Channel.step ⟨sh, .tailLoaded item sh.tail, consumer⟩ .producer =
        (.rejected item, ⟨sh, .idle, consumer⟩) := if_pos hfull
    have hpush : sh.push item = (.error item, sh) := if_pos hfull
    rw [hload, hpush]
    rfl
  · have hload : Channel.step ⟨sh, .tailLoaded item sh.tail, consumer⟩ .producer =
        (.none, ⟨sh, .notFull item sh.tail, consumer⟩) := if_neg hfull
    have hpush : sh.push item = (.ok (), { sh with
        buffer := Function.update sh.buffer (c.slot sh.tail) (.live item)
        tail := sh.tail + 1 }) := if_neg hfull
    rw [hload, hpush]
    rfl

/-- A `pop` that nothing interrupts and that finds a live value, if any, does what `pop` says. -/
theorem pop_alone (sh : Shared α c) (producer : ProducerAt α w) {value : α}
    (hfound : sh.head = sh.tail ∨ sh.buffer (c.slot sh.head) = .live value) :
    Transducer.runAll Channel.step ⟨sh, producer, .idle⟩
        [.pop, .consumer, .consumer, .consumer] =
      (if sh.head = sh.tail then [.none, .empty, .none, .none]
        else [.none, .none, .none, .popped value],
        ⟨sh.pop.2, producer, .idle⟩) ∧
      sh.pop.1 = .ok (if sh.head = sh.tail then none else some value) := by
  have hcall : Channel.step ⟨sh, producer, .idle⟩ .pop =
      (.none, ⟨sh, producer, .headLoaded sh.head⟩) := rfl
  simp only [Transducer.runAll, hcall]
  by_cases hempty : sh.head = sh.tail
  · have hload : Channel.step ⟨sh, producer, .headLoaded sh.head⟩ .consumer =
        (.empty, ⟨sh, producer, .idle⟩) := if_pos hempty
    have hpop : sh.pop = (.ok none, sh) := if_pos hempty
    rw [hload, hpop, if_pos hempty, if_pos hempty]
    exact ⟨rfl, rfl⟩
  · have hslot := hfound.resolve_left hempty
    have hload : Channel.step ⟨sh, producer, .headLoaded sh.head⟩ .consumer =
        (.none, ⟨sh, producer, .notEmpty sh.head⟩) := if_neg hempty
    have hpop : sh.pop = (.ok (some value), { sh with
        buffer := Function.update sh.buffer (c.slot sh.head) .taken
        head := sh.head + 1 }) := by
      simp only [Shared.pop, if_neg hempty, hslot, assumeInitRead]
    have htake : Channel.step ⟨sh, producer, .notEmpty sh.head⟩ .consumer =
        (.none, ⟨{ sh with buffer := Function.update sh.buffer (c.slot sh.head) .taken }, producer,
          .taken sh.head value⟩) := by
      simp only [Channel.step, Channel.consume, hslot, assumeInitRead]
    rw [hload, hpop, htake, if_neg hempty, if_neg hempty]
    exact ⟨rfl, rfl⟩

/-! ## One turn -/

/-- What one turn may do. -/
inductive Stepped (s : Channel α c) : Event α × Channel α c → Prop where
  | stays : Stepped s (.none, s)
  | called (item : α) : s.producer = .idle →
      Stepped s (.called item, { s with producer := .tailLoaded item s.shared.tail })
  | rejected {item tail} : s.producer = .tailLoaded item tail →
      tail + 1 - s.shared.head > MASK c → Stepped s (.rejected item, { s with producer := .idle })
  | roomSeen {item tail} : s.producer = .tailLoaded item tail →
      ¬ tail + 1 - s.shared.head > MASK c →
      Stepped s (.none, { s with producer := .notFull item tail })
  | wrote {item tail} : s.producer = .notFull item tail →
      Stepped s (.none, { s with
        shared := { s.shared with
          buffer := Function.update s.shared.buffer (c.slot tail) (.live item) }
        producer := .written item tail })
  | pushed {item tail} : s.producer = .written item tail →
      Stepped s
        (.pushed item, { s with shared := { s.shared with tail := tail + 1 }, producer := .idle })
  | producerDropped : s.producer = .idle → s.consumer ≠ .dropped →
      Stepped s (.none, { s with producer := .dropped })
  | producerLast : s.producer = .idle → s.consumer = .dropped →
      Stepped s (.freed s.shared.drop, { s with producer := .dropped })
  | popCalled : s.consumer = .idle →
      Stepped s (.none, { s with consumer := .headLoaded s.shared.head })
  | empty {head} : s.consumer = .headLoaded head → head = s.shared.tail →
      Stepped s (.empty, { s with consumer := .idle })
  | itemSeen {head} : s.consumer = .headLoaded head → head ≠ s.shared.tail →
      Stepped s (.none, { s with consumer := .notEmpty head })
  | took {head value} : s.consumer = .notEmpty head →
      s.shared.buffer (c.slot head) = .live value →
      Stepped s (.none, { s with
        shared := { s.shared with
          buffer := Function.update s.shared.buffer (c.slot head) .taken }
        consumer := .taken head value })
  | fault {head fault} : s.consumer = .notEmpty head →
      (∀ value, s.shared.buffer (c.slot head) ≠ .live value) →
      Stepped s (.fault fault, { s with consumer := .idle })
  | popped {head value} : s.consumer = .taken head value →
      Stepped s
        (.popped value, { s with shared := { s.shared with head := head + 1 }, consumer := .idle })
  | consumerDropped : s.consumer = .idle → s.producer ≠ .dropped →
      Stepped s (.none, { s with consumer := .dropped })
  | consumerLast : s.consumer = .idle → s.producer = .dropped →
      Stepped s (.freed s.shared.drop, { s with consumer := .dropped })

theorem produce_cases (s : Channel α c) : Stepped s s.produce := by
  unfold Channel.produce
  split
  · exact .stays
  · next item tail hp =>
      split
      · next hfull => exact .rejected hp hfull
      · next hroom => exact .roomSeen hp hroom
  · next item tail hp => exact .wrote hp
  · next item tail hp => exact .pushed hp
  · exact .stays

theorem consume_cases (s : Channel α c) : Stepped s s.consume := by
  unfold Channel.consume
  split
  · exact .stays
  · next head hc =>
      split
      · next hempty => exact .empty hc hempty
      · next hitem => exact .itemSeen hc hitem
  · next head hc =>
      cases hslot : s.shared.buffer (c.slot head) with
      | live value => exact .took hc hslot
      | uninit =>
          refine .fault hc fun value hlive => ?_
          rw [hslot] at hlive
          cases hlive
      | taken =>
          refine .fault hc fun value hlive => ?_
          rw [hslot] at hlive
          cases hlive
  · next head value hc => exact .popped hc
  · exact .stays

theorem dropProducer_cases (s : Channel α c) : Stepped s s.dropProducer := by
  unfold Channel.dropProducer
  split
  · next hp hc => exact .producerLast hp hc
  · next hp hc => exact .producerDropped hp fun hd => hc hd
  · exact .stays

theorem dropConsumer_cases (s : Channel α c) : Stepped s s.dropConsumer := by
  unfold Channel.dropConsumer
  split
  · next hc hp => exact .consumerLast hc hp
  · next hc hp => exact .consumerDropped hc fun hd => hp hd
  · exact .stays

theorem step_cases (s : Channel α c) (turn : Turn α) : Stepped s (s.step turn) := by
  cases turn with
  | push item =>
      simp only [Channel.step]
      split
      · next hp => exact .called item hp
      · exact .stays
  | producer => exact produce_cases s
  | dropProducer => exact dropProducer_cases s
  | pop =>
      simp only [Channel.step]
      split
      · next hc => exact .popCalled hc
      · exact .stays
  | consumer => exact consume_cases s
  | dropConsumer => exact dropConsumer_cases s

/-! ## What the events of a run say -/

/-- The item that a step gives to `push`. -/
def Event.called? : Event α → List α
  | .called item => [item]
  | _ => []

/-- The item that a step has published or handed back. -/
def Event.finished? : Event α → List α
  | .pushed item => [item]
  | .rejected item => [item]
  | _ => []

def Event.pushed? : Event α → List α
  | .pushed item => [item]
  | _ => []

def Event.popped? : Event α → List α
  | .popped value => [value]
  | _ => []

def Event.freed? : Event α → List (Slot α)
  | .freed slots => slots
  | _ => []

/-- The item of the call that the producer is in. -/
def ProducerAt.inHand : ProducerAt α w → List α
  | .tailLoaded item _ => [item]
  | .notFull item _ => [item]
  | .written item _ => [item]
  | _ => []

/-- 1 while `pop` has emptied a slot and not freed it yet. -/
def ConsumerAt.reading : ConsumerAt α w → Nat
  | .taken _ _ => 1
  | _ => 0

/-- Both ends have been dropped. -/
def Channel.Dropped (s : Channel α c) : Prop := s.producer = .dropped ∧ s.consumer = .dropped

section

variable {start : BitVec w} {pushed popped : List α} {s : Channel α c}

theorem hands_step (s : Channel α c) (turn : Turn α) :
    s.producer.inHand ++ (s.step turn).1.called? =
      (s.step turn).1.finished? ++ (s.step turn).2.producer.inHand := by
  have hcases := step_cases s turn
  generalize s.step turn = r at hcases ⊢
  cases hcases with
  | called item hp => rw [hp]; rfl
  | rejected hp _ => rw [hp]; rfl
  | roomSeen hp _ => rw [hp]; rfl
  | wrote hp => rw [hp]; rfl
  | pushed hp => rw [hp]; rfl
  | producerDropped hp _ => rw [hp]; rfl
  | producerLast hp _ => rw [hp]; rfl
  | _ => exact List.append_nil _

/-- A dropped channel does nothing more. -/
theorem dropped_step (h : s.Dropped) (turn : Turn α) : s.step turn = (.none, s) := by
  obtain ⟨hp, hc⟩ := h
  cases turn with
  | push item => simp only [Channel.step, hp]
  | producer => simp only [Channel.step, Channel.produce, hp]
  | dropProducer => simp only [Channel.step, Channel.dropProducer, hp]
  | pop => simp only [Channel.step, hc]
  | consumer => simp only [Channel.step, Channel.consume, hc]
  | dropConsumer => simp only [Channel.step, Channel.dropConsumer, hc]

/-- The shared state is dropped by the step that drops the second end, and by no other. -/
theorem freed_step (h : ¬ s.Dropped) (turn : Turn α) :
    ((s.step turn).1.freed? = [] ∧ ¬ (s.step turn).2.Dropped) ∨
      ((s.step turn).1 = .freed s.shared.drop ∧ (s.step turn).2.Dropped ∧
        s.consumer.reading = 0) := by
  have hcases := step_cases s turn
  generalize s.step turn = r at hcases ⊢
  cases hcases with
  | producerDropped _ hc => exact .inl ⟨rfl, fun hd => hc hd.2⟩
  | producerLast _ hc => exact .inr ⟨rfl, ⟨rfl, hc⟩, by rw [hc]; rfl⟩
  | consumerDropped _ hp => exact .inl ⟨rfl, fun hd => hp hd.1⟩
  | consumerLast hc hp => exact .inr ⟨rfl, ⟨hp, rfl⟩, by rw [hc]; rfl⟩
  | stays => exact .inl ⟨rfl, h⟩
  | called _ _ => exact .inl ⟨rfl, fun hd => nomatch hd.1⟩
  | rejected _ _ => exact .inl ⟨rfl, fun hd => nomatch hd.1⟩
  | roomSeen _ _ => exact .inl ⟨rfl, fun hd => nomatch hd.1⟩
  | wrote _ => exact .inl ⟨rfl, fun hd => nomatch hd.1⟩
  | pushed _ => exact .inl ⟨rfl, fun hd => nomatch hd.1⟩
  | popCalled _ => exact .inl ⟨rfl, fun hd => nomatch hd.2⟩
  | empty _ _ => exact .inl ⟨rfl, fun hd => nomatch hd.2⟩
  | itemSeen _ _ => exact .inl ⟨rfl, fun hd => nomatch hd.2⟩
  | took _ _ => exact .inl ⟨rfl, fun hd => nomatch hd.2⟩
  | fault _ _ => exact .inl ⟨rfl, fun hd => nomatch hd.2⟩
  | popped _ => exact .inl ⟨rfl, fun hd => nomatch hd.2⟩

/-! ## The invariant -/

/-- What the producer may rely on. -/
def ProducerOk (pushed popped : List α) (sh : Shared α c) : ProducerAt α w → Prop
  | .idle => True
  | .tailLoaded _ tail => tail = sh.tail
  | .notFull _ tail => tail = sh.tail ∧ pushed.length < popped.length + (c.slots - 1)
  | .written item tail => tail = sh.tail ∧ pushed.length < popped.length + (c.slots - 1) ∧
      sh.buffer (c.slot tail) = .live item
  | .dropped => True

/-- What the consumer may rely on. -/
def ConsumerOk (pushed popped : List α) (sh : Shared α c) : ConsumerAt α w → Prop
  | .idle => True
  | .headLoaded head => head = sh.head
  | .notEmpty head => head = sh.head ∧ popped.length < pushed.length
  | .taken head value => head = sh.head ∧ pushed[popped.length]? = some value
  | .dropped => True

/-- The invariant of every interleaving. -/
structure Ends (start : BitVec w) (pushed popped : List α) (s : Channel α c) : Prop where
  window : Window c .live start pushed popped (popped.length + s.consumer.reading) s.shared.head
    s.shared.tail s.shared.buffer
  producer : ProducerOk pushed popped s.shared s.producer
  consumer : ConsumerOk pushed popped s.shared s.consumer

theorem Ends.fresh (start : BitVec w) : Ends start [] [] (Channel.fresh start : Channel α c) where
  window := Window.empty _
  producer := trivial
  consumer := trivial

/-- A pop leaves the producer with at least the room it has seen. -/
theorem ProducerOk.after_pop {sh : Shared α c} {p : ProducerAt α w}
    (h : ProducerOk pushed popped sh p) (value : α) (head : BitVec w) :
    ProducerOk pushed (popped ++ [value]) { sh with head := head } p := by
  have hgrows : popped.length ≤ (popped ++ [value]).length :=
    (List.prefix_append _ _).length_le
  cases p with
  | idle => trivial
  | tailLoaded item tail => exact h
  | notFull item tail => exact ⟨h.1, by have := h.2; omega⟩
  | written item tail => exact ⟨h.1, by have := h.2.1; omega, h.2.2⟩
  | dropped => trivial

/-- The slot that a pop empties is not the one that the producer has written. -/
theorem ProducerOk.after_take {sh : Shared α c} {p : ProducerAt α w}
    (h : ProducerOk pushed popped sh p) (hhead : sh.head = index start popped.length)
    (htail : sh.tail = index start pushed.length) (hlt : popped.length < pushed.length) :
    ProducerOk pushed popped
      { sh with buffer := Function.update sh.buffer (c.slot sh.head) .taken } p := by
  cases p with
  | written item tail =>
      obtain ⟨rfl, hroom, hitem⟩ := h
      refine ⟨rfl, hroom, ?_⟩
      have hne : c.slot sh.tail ≠ c.slot sh.head := by
        rw [hhead, htail]
        exact (c.slot_ne start hlt (by omega)).symm
      exact (Function.update_of_ne hne _ _).trans hitem
  | _ => exact h

/-- A push leaves the consumer with at least the items it has seen. -/
theorem ConsumerOk.after_push {sh : Shared α c} {p : ConsumerAt α w}
    (h : ConsumerOk pushed popped sh p) (item : α) (tail : BitVec w) :
    ConsumerOk (pushed ++ [item]) popped { sh with tail := tail } p := by
  have hgrows : pushed.length ≤ (pushed ++ [item]).length :=
    (List.prefix_append _ _).length_le
  cases p with
  | idle => trivial
  | headLoaded head => exact h
  | notEmpty head => exact ⟨h.1, Nat.lt_of_lt_of_le h.2 hgrows⟩
  | taken head value =>
      refine ⟨h.1, ?_⟩
      rw [List.getElem?_append_left (List.getElem?_eq_some_iff.mp h.2).1]
      exact h.2
  | dropped => trivial

/-- A written slot is none that the consumer relies on. -/
theorem ConsumerOk.after_write {sh : Shared α c} {p : ConsumerAt α w}
    (h : ConsumerOk pushed popped sh p) (buffer : Fin c.slots → Slot α) :
    ConsumerOk pushed popped { sh with buffer := buffer } p := by
  cases p <;> exact h

/-- The slot that the consumer is about to read is live. -/
theorem Ends.slot_live (h : Ends start pushed popped s) {head : BitVec w}
    (hc : s.consumer = .notEmpty head) :
    ∃ value, pushed[popped.length]? = some value ∧
      s.shared.buffer (c.slot head) = .live value := by
  have hwindow := h.window
  have hconsumer := h.consumer
  rw [hc] at hwindow hconsumer
  obtain ⟨rfl, hlt⟩ := hconsumer
  have hitem := List.getElem?_eq_getElem hlt
  have hlive := hwindow.content popped.length _ (Nat.le_refl _) hitem
  rw [← hwindow.head_eq] at hlive
  exact ⟨_, hitem, hlive⟩

/-- No turn is undefined. -/
theorem Ends.defined (h : Ends start pushed popped s) (turn : Turn α) (fault : Fault) :
    (s.step turn).1 ≠ .fault fault := by
  intro hevent
  have hcases := step_cases s turn
  generalize s.step turn = r at hcases hevent
  cases hcases with
  | fault hc hslot =>
      obtain ⟨value, -, hlive⟩ := h.slot_live hc
      exact hslot value hlive
  | _ => cases hevent

/-- An event that neither pushes nor pops leaves the history as it is. -/
theorem ends_silent {event : Event α} (hpush : event.pushed? = []) (hpop : event.popped? = []) :
    Ends start (pushed ++ event.pushed?) (popped ++ event.popped?) s ↔
      Ends start pushed popped s := by
  rw [hpush, hpop, List.append_nil, List.append_nil]

/-- Every turn keeps the invariant. -/
theorem Ends.step (h : Ends start pushed popped s) (turn : Turn α) :
    Ends start (pushed ++ (s.step turn).1.pushed?) (popped ++ (s.step turn).1.popped?)
      (s.step turn).2 := by
  have hcases := step_cases s turn
  generalize s.step turn = r at hcases ⊢
  have hwindow := h.window
  have hproducer := h.producer
  have hconsumer := h.consumer
  cases hcases with
  | stays => exact (ends_silent rfl rfl).mpr h
  | called item _ => exact (ends_silent rfl rfl).mpr ⟨hwindow, rfl, hconsumer⟩
  | rejected _ _ => exact (ends_silent rfl rfl).mpr ⟨hwindow, trivial, hconsumer⟩
  | roomSeen hp hroom =>
      rw [hp] at hproducer
      have htail : _ = s.shared.tail := hproducer
      rw [htail] at hroom
      exact (ends_silent rfl rfl).mpr ⟨hwindow, ⟨htail, hwindow.room hroom⟩, hconsumer⟩
  | wrote hp =>
      rw [hp] at hproducer
      obtain ⟨rfl, hroom⟩ := hproducer
      refine (ends_silent rfl rfl).mpr ⟨hwindow.write hroom (Nat.le_add_right _ _) _,
        ⟨rfl, hroom, ?_⟩, hconsumer.after_write _⟩
      exact Function.update_self ..
  | pushed hp =>
      simp only [Event.pushed?, Event.popped?, List.append_nil]
      rw [hp] at hproducer
      obtain ⟨rfl, hroom, hitem⟩ := hproducer
      exact ⟨hwindow.publish hroom hitem, trivial, hconsumer.after_push _ _⟩
  | producerDropped _ _ => exact (ends_silent rfl rfl).mpr ⟨hwindow, trivial, hconsumer⟩
  | producerLast _ _ => exact (ends_silent rfl rfl).mpr ⟨hwindow, trivial, hconsumer⟩
  | popCalled hc =>
      rw [hc] at hwindow
      exact (ends_silent rfl rfl).mpr ⟨hwindow, hproducer, rfl⟩
  | empty hc _ =>
      rw [hc] at hwindow
      exact (ends_silent rfl rfl).mpr ⟨hwindow, hproducer, trivial⟩
  | itemSeen hc hitem =>
      have hwaits := hwindow.waits
      rw [hc] at hwindow hconsumer
      have hhead : _ = s.shared.head := hconsumer
      rw [hhead] at hitem
      exact (ends_silent rfl rfl).mpr ⟨hwindow, hproducer, hhead, hwaits hitem⟩
  | took hc hslot =>
      obtain ⟨v, hitem, hlive⟩ := h.slot_live hc
      have hvalue := Slot.live.inj (hslot.symm.trans hlive)
      rw [hc] at hwindow hconsumer
      obtain ⟨rfl, hlt⟩ := hconsumer
      refine (ends_silent rfl rfl).mpr ⟨hwindow.take (Nat.le_succ _) _, ?_, rfl, ?_⟩
      · exact hproducer.after_take hwindow.head_eq hwindow.tail_eq hlt
      · rw [hitem, hvalue]
  | fault hc hslot =>
      obtain ⟨value, -, hlive⟩ := h.slot_live hc
      exact absurd hlive (hslot value)
  | popped hc =>
      simp only [Event.pushed?, Event.popped?, List.append_nil]
      rw [hc] at hwindow hconsumer
      obtain ⟨rfl, hitem⟩ := hconsumer
      refine ⟨?_, hproducer.after_pop _ _, trivial⟩
      rw [List.length_append, List.length_singleton]
      exact hwindow.free (Nat.le_refl _) hitem
  | consumerDropped hc _ =>
      rw [hc] at hwindow
      exact (ends_silent rfl rfl).mpr ⟨hwindow, hproducer, trivial⟩
  | consumerLast hc _ =>
      rw [hc] at hwindow
      exact (ends_silent rfl rfl).mpr ⟨hwindow, hproducer, trivial⟩

/-- Between two calls, dropping the shared state drops the values that wait. -/
theorem Ends.drop_eq (h : Ends start pushed popped s) (hreading : s.consumer.reading = 0) :
    s.shared.drop = (pushed.drop popped.length).map Slot.live := by
  have hwindow := h.window
  rw [hreading, Nat.add_zero] at hwindow
  exact dropLoop_eq _ ⟨start, pushed, popped, hwindow, rfl⟩

end

end Spsc
