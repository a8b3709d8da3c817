import Mathlib.Data.List.Basic

/-!
# Handlers on an io_context

An operation in flight has a handler that is pending.  When the operation is over, completed or
cancelled, the handler is queued, and a run takes the handlers off the queue.  A run that leaves
nothing in flight stops the context, and a stopped one runs nothing until it is restarted.

Nothing but a run takes a handler away (`append_outstanding`): cancelled ones stay, and so do those
of a context that is restarted.
-/

structure IoContext (α : Type) where
  stopped : Bool := false
  pending : List α := []
  queued : List α := []

namespace IoContext

variable {α : Type} (io : IoContext α)

/-- The handlers that a later run will take. -/
def outstanding : List α := io.queued ++ io.pending

def arm (handler : α) : IoContext α := { io with pending := io.pending ++ [handler] }

/-- What is in flight is over. -/
def finish : IoContext α := { io with pending := [], queued := io.queued ++ io.pending }

/-- A cancelled operation is over too. -/
def cancel : IoContext α := io.finish

def restart : IoContext α := { io with stopped := false }

/-- A handler that no operation stands behind. -/
def post (handler : α) : IoContext α := { io with queued := io.queued ++ [handler] }

/-- What is in flight is cancelled and `handler` takes its place. -/
def replace (cancelled : α → α) (handler : α) : IoContext α :=
  { io with queued := io.queued ++ io.pending.map cancelled, pending := [handler] }

def stop : IoContext α := { io with stopped := true }

/-- A run has nothing left to do. -/
def ranOut : Bool := io.queued.isEmpty && io.pending.isEmpty

/-- A run takes one handler, in whatever order. -/
def take (i : Nat) : IoContext α := { io with queued := io.queued.eraseIdx i }

/-- Waits for one handler and takes it, in whatever order they become ready. -/
def runOne (i : Nat) : Option α × IoContext α :=
  if io.stopped then (none, io)
  else if i < io.queued.length then (io.queued[i]?, io.take i)
  else
    (io.pending[i - io.queued.length]?,
      { io with pending := io.pending.eraseIdx (i - io.queued.length) })

/-- Takes the queued handlers. -/
def poll : List α × IoContext α :=
  if io.stopped then ([], io)
  else (io.queued, { io with queued := [], stopped := io.pending.isEmpty })

/-- A run for a time in which what is in flight completes, or does not. -/
def runFor (completes : Bool) : List α × IoContext α :=
  if completes then io.finish.poll else io.poll

/-- A run that lasts until nothing is in flight. -/
def run : List α × IoContext α := io.runFor true

/-! ## What is outstanding -/

@[simp] theorem outstanding_arm (handler : α) :
    (io.arm handler).outstanding = io.outstanding ++ [handler] :=
  (List.append_assoc _ _ _).symm

@[simp] theorem outstanding_finish : io.finish.outstanding = io.outstanding :=
  List.append_nil _

@[simp] theorem outstanding_cancel : io.cancel.outstanding = io.outstanding :=
  io.outstanding_finish

@[simp] theorem outstanding_restart : io.restart.outstanding = io.outstanding := rfl

theorem mem_outstanding_post {handler other : α} :
    other ∈ (io.post handler).outstanding ↔ other ∈ io.outstanding ∨ other = handler := by
  simp only [outstanding, post, List.mem_append, List.mem_singleton]
  exact or_right_comm

theorem outstanding_post_of_nil (h : io.outstanding = []) (handler : α) :
    (io.post handler).outstanding = [handler] := by
  obtain ⟨hqueued, hpending⟩ := List.append_eq_nil_iff.mp h
  rw [outstanding, post, hqueued, hpending]
  rfl

@[simp] theorem outstanding_stop : io.stop.outstanding = io.outstanding := rfl

@[simp] theorem stopped_runOne (i : Nat) : (io.runOne i).2.stopped = io.stopped := by
  rw [runOne]
  split
  next => rfl
  next => split <;> rfl

/-- What waiting for one handler takes. -/
theorem fst_runOne (i : Nat) :
    (io.runOne i).1 = if io.stopped then none else io.outstanding[i]? := by
  rw [runOne]
  split
  next => rfl
  next =>
    split
    next hi => exact (List.getElem?_append_left hi).symm
    next hi => exact (List.getElem?_append_right (Nat.not_lt.mp hi)).symm

theorem outstanding_runOne (i : Nat) :
    (io.runOne i).2.outstanding =
      if io.stopped then io.outstanding else io.outstanding.eraseIdx i := by
  rw [runOne]
  split
  next => rfl
  next =>
    split
    next hi => exact (List.eraseIdx_append_of_lt_length hi _).symm
    next hi => exact (List.eraseIdx_append_of_length_le (Nat.not_lt.mp hi) _).symm

theorem mem_outstanding_runOne {i : Nat} {handler : α}
    (h : handler ∈ (io.runOne i).2.outstanding) : handler ∈ io.outstanding := by
  rw [outstanding_runOne] at h
  split at h
  next => exact h
  next => exact List.mem_of_mem_eraseIdx h

theorem poll_append : io.poll.1 ++ io.poll.2.outstanding = io.outstanding := by
  rw [poll]
  split <;> rfl

/-- What a run takes, and what it leaves. -/
theorem append_outstanding (completes : Bool) :
    (io.runFor completes).1 ++ (io.runFor completes).2.outstanding = io.outstanding := by
  cases completes with
  | false => exact io.poll_append
  | true => exact io.finish.poll_append.trans io.outstanding_finish

/-- A run to the end of what is in flight takes everything. -/
theorem runFor_true (h : io.stopped = false) :
    (io.runFor true).1 = io.outstanding ∧ (io.runFor true).2.outstanding = [] := by
  have hpoll : io.finish.poll =
      (io.outstanding, { io.finish with queued := [], stopped := true }) := by
    rw [poll, if_neg (by rw [finish, h]; exact Bool.false_ne_true)]
    rfl
  rw [runFor, if_pos rfl, hpoll]
  exact ⟨rfl, rfl⟩

/-- Without anything on the queue a run takes nothing while nothing completes, and it goes on
while something is in flight. -/
theorem runFor_false (h : io.queued = []) :
    (io.runFor false).1 = [] ∧ (io.runFor false).2.outstanding = io.outstanding ∧
      (io.stopped = false → io.pending ≠ [] → (io.runFor false).2.stopped = false) := by
  have hrun := io.append_outstanding false
  have htaken : (io.runFor false).1 = [] := by
    rw [runFor, if_neg Bool.false_ne_true, poll]
    split
    next => rfl
    next => exact h
  rw [htaken, List.nil_append] at hrun
  refine ⟨htaken, hrun, fun hstopped hpending => ?_⟩
  rw [runFor, if_neg Bool.false_ne_true, poll, hstopped, if_neg Bool.false_ne_true]
  exact Bool.eq_false_iff.mpr (List.isEmpty_iff.not.mpr hpending)

end IoContext
