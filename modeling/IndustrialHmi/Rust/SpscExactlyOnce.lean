import IndustrialHmi.Core.SpscQueue
import IndustrialHmi.Rust.SpscChannel

/-!
# Each value once

`account_run` follows a run of a channel with the account of its values: those that
`push` has published or handed back, those that `pop` has returned and those that the
drop of the shared state has dropped.

The second half compares whole calls with the C++ queue.  Both implement the bounded
queue of `slots - 1` values, one by `call_spec` on either side, so they answer alike.
-/

namespace Spsc

open Ring

variable {w : Nat} {α : Type}

/-! ## Runs -/

section

variable (c : Capacity w) (start : BitVec w) (turns : List (Turn α))

/-- The channel after some turns. -/
def channelAfter : Channel α c := Transducer.final Channel.step (.fresh start) turns

/-- What has happened by then. -/
def eventsBy : List (Event α) :=
  Transducer.outputs Channel.step (Channel.fresh start : Channel α c) turns

/-- The items given to `push`, in order. -/
def calledBy : List α := (eventsBy c start turns).flatMap Event.called?

/-- The items that `push` has published or handed back, in order. -/
def finishedBy : List α := (eventsBy c start turns).flatMap Event.finished?

def pushedBy : List α := (eventsBy c start turns).flatMap Event.pushed?
def poppedBy : List α := (eventsBy c start turns).flatMap Event.popped?

/-- The slots that the drop of the shared state has dropped. -/
def freedBy : List (Slot α) := (eventsBy c start turns).flatMap Event.freed?

end

section

variable {c : Capacity w} {start : BitVec w} {turns : List (Turn α)}

theorem eventsBy_concat (turn : Turn α) :
    eventsBy c start (turns ++ [turn]) =
      eventsBy c start turns ++ [((channelAfter c start turns).step turn).1] :=
  Transducer.outputs_concat ..

/-- One more turn adds what its event says. -/
theorem flatMap_concat {β : Type} (f : Event α → List β) (turn : Turn α) :
    (eventsBy c start (turns ++ [turn])).flatMap f =
      (eventsBy c start turns).flatMap f ++ f ((channelAfter c start turns).step turn).1 := by
  rw [eventsBy_concat, List.flatMap_append, List.flatMap_singleton]

end

/-- The account of a run. -/
structure Account (c : Capacity w) (start : BitVec w) (turns : List (Turn α)) (s : Channel α c) :
    Prop where
  ends : Ends start (pushedBy c start turns) (poppedBy c start turns) s
  defined : ∀ fault, .fault fault ∉ eventsBy c start turns
  handedBack : calledBy c start turns = finishedBy c start turns ++ s.producer.inHand
  notEarly : ¬ s.Dropped → freedBy c start turns = []
  freed : s.Dropped → freedBy c start turns =
    ((pushedBy c start turns).drop (poppedBy c start turns).length).map Slot.live

variable {c : Capacity w} {start : BitVec w} {turns : List (Turn α)}

theorem account_step (turn : Turn α) (h : Account c start turns (channelAfter c start turns)) :
    Account c start (turns ++ [turn]) ((channelAfter c start turns).step turn).2 := by
  have hends := h.ends.step turn
  have hdefined := h.ends.defined turn
  have hhands := hands_step (channelAfter c start turns) turn
  refine ⟨?_, ?_, ?_, ?_, ?_⟩
  · rw [pushedBy, poppedBy, flatMap_concat, flatMap_concat]
    exact hends
  · intro fault hmem
    rw [eventsBy_concat] at hmem
    rcases List.mem_append.mp hmem with hold | hnew
    · exact h.defined fault hold
    · exact hdefined fault (List.mem_singleton.mp hnew).symm
  · rw [calledBy, finishedBy, flatMap_concat, flatMap_concat, List.append_assoc, ← hhands,
      ← List.append_assoc]
    exact congrArg (· ++ _) h.handedBack
  · intro hlive
    rw [freedBy, flatMap_concat]
    by_cases hdropped : (channelAfter c start turns).Dropped
    · rw [dropped_step hdropped] at hlive
      exact absurd hdropped hlive
    · rcases freed_step hdropped turn with ⟨hnone, -⟩ | ⟨-, hgone, -⟩
      · rw [hnone, List.append_nil]
        exact h.notEarly hdropped
      · exact absurd hgone hlive
  · intro hgone
    rw [freedBy, pushedBy, poppedBy, flatMap_concat, flatMap_concat, flatMap_concat]
    by_cases hdropped : (channelAfter c start turns).Dropped
    · rw [dropped_step hdropped]
      simp only [Event.freed?, Event.pushed?, Event.popped?, List.append_nil]
      exact h.freed hdropped
    · rcases freed_step hdropped turn with ⟨-, hlive⟩ | ⟨hevent, -, hreading⟩
      · exact absurd hgone hlive
      · have hempty := h.notEarly hdropped
        rw [freedBy] at hempty
        rw [hempty, hevent]
        simp only [Event.freed?, Event.pushed?, Event.popped?, List.append_nil, List.nil_append]
        exact h.ends.drop_eq hreading

/-- Every run keeps the account. -/
theorem account_run (c : Capacity w) (start : BitVec w) (turns : List (Turn α)) :
    Account c start turns (channelAfter c start turns) := by
  refine Transducer.run_history Channel.step (R := fun turns s => Account c start turns s) ?_
    (fun turns turn h => account_step turn h) turns
  exact ⟨Ends.fresh start, fun _ hmem => (nomatch hmem), rfl, fun _ => rfl,
    fun hdropped => (nomatch hdropped.1)⟩

/-! ## The two queues -/

/-- Rings of one capacity answer alike, call by call, wherever their indices start. -/
theorem calls_agree (c : Capacity w) (start start' : BitVec w) (buffer : Fin c.slots → α)
    (ops : List (BoundedFifo.Op α)) :
    Transducer.outputs Shared.call (.fresh start : Shared α c) ops =
      (Transducer.outputs Core.SpscQueue.call (.fresh start' buffer) ops).map .ok := by
  refine Transducer.outputs_simulation Core.SpscQueue.call
    (R := fun (q : Core.SpscQueue α c) (sh : Shared α c) =>
      ∃ waiting, q.Holds waiting ∧ sh.Holds waiting) ?_ ops ?_
  · rintro q sh op ⟨waiting, hcpp, hrust⟩
    obtain ⟨hanswer, hnext⟩ := Core.SpscQueue.call_spec hcpp op
    obtain ⟨hanswer', hnext'⟩ := Shared.call_spec hrust op
    exact ⟨by rw [hanswer', hanswer], _, hnext, hnext'⟩
  · exact ⟨[], BoundedFifo.Holds.empty .., BoundedFifo.Holds.empty ..⟩

/-- What a channel owes its callers, at the end of one run. -/
structure ExactlyOnce (c : Capacity w) (start : BitVec w) (turns : List (Turn α)) : Prop where
  /-- No slot is read that holds no live value. -/
  defined : ∀ fault, .fault fault ∉ eventsBy c start turns
  /-- Each item given to `push` is published or handed back, but for one of a call that runs. -/
  handedBack : calledBy c start turns =
    finishedBy c start turns ++ (channelAfter c start turns).producer.inHand
  /-- Values are popped in the order in which they were pushed. -/
  order : poppedBy c start turns <+: pushedBy c start turns
  /-- Nothing is dropped while an end lives. -/
  notEarly : ¬ (channelAfter c start turns).Dropped → freedBy c start turns = []
  /-- Once both ends are dropped, each pushed value has been popped or dropped, live and once. -/
  accounted : (channelAfter c start turns).Dropped →
    (poppedBy c start turns).map Slot.live ++ freedBy c start turns =
      (pushedBy c start turns).map Slot.live

/-- Each value is handed over once, and whole calls agree with the C++ queue. -/
theorem exactly_once (c : Capacity w) (start : BitVec w) :
    (∀ turns : List (Turn α), ExactlyOnce c start turns) ∧
      ∀ (start' : BitVec w) (buffer : Fin c.slots → α) (ops : List (BoundedFifo.Op α)),
        Transducer.outputs Shared.call (.fresh start : Shared α c) ops =
          (Transducer.outputs Core.SpscQueue.call (.fresh start' buffer) ops).map .ok := by
  refine ⟨fun turns => ?_, calls_agree c start⟩
  have h := account_run c start turns
  refine ⟨h.defined, h.handedBack, h.ends.window.taken, h.notEarly, fun hdropped => ?_⟩
  rw [h.freed hdropped, ← List.map_append]
  exact congrArg _ (List.prefix_append_drop h.ends.window.taken).symm

end Spsc
