import IndustrialHmi.Theory.Runs

/-!
# Two callers on one database connection

One caller makes single statements on some of the tables.  The other makes calls of several
statements on the other tables, each call in a transaction of its own.  A transaction belongs to
the connection, so a single statement that runs between its begin and its end is part of it.

A call that is in order commits, and one of whose statements has failed rolls back.  Any
statement may fail, and then it does nothing itself; but some errors make the connection end the
transaction that is open, and take back all that is in it.  What comes after is in no transaction.

`isolated_of_meets` says which rollbacks are harmless: those that take nothing back but what a
call did that does not return true.  If no statement ends a transaction, then no others are
(`meets_of_isolated`).
-/

namespace SharedConnection

/-- What the two callers do, on tables `α` and `β`.  A single statement that fails leaves its
tables. -/
structure Program (α β ω υ : Type*) where
  perform : α → ω → Bool × α
  refused : ∀ a op, (perform a op).1 = false → (perform a op).2 = a
  /-- The statements of a call, between its begin and its end. -/
  statements : υ → List (β → Option β)

/-- Where a call is: at its begin, before the rest of its statements, or at its rollback.  With no
statement left it is at its commit. -/
inductive Stage (β : Type*) where
  | opening
  | running (rest : List (β → Option β))
  | failed

/-- The tables as the connection sees them, what they were at the begin of the transaction that is
open, the call that is under way, and what has returned true so far. -/
structure State (α β ω υ : Type*) where
  single : α
  grouped : β
  saved : Option (α × β) := none
  call : Option (υ × Stage β) := none
  performed : List ω := []
  committed : List υ := []

/-- What becomes of a statement.  One that fails may end the transaction that is open. -/
inductive Outcome where
  | ok
  | fails
  | aborts
  deriving DecidableEq

/-- A single statement does what it does, or it fails in such a way. -/
inductive Event (ω υ : Type*) where
  | single (op : ω) (aborts : Bool)
  | call (u : υ)
  | statement (outcome : Outcome)

variable {α β ω υ : Type*} (p : Program α β ω υ)

/-- No statement ends a transaction. -/
def Event.KeepsTransaction : Event ω υ → Prop
  | .single _ aborts => aborts = false
  | .call _ => True
  | .statement outcome => outcome ≠ .aborts

namespace State

/-- The tables are what they were at the begin of the transaction, if one is open. -/
def rolledBack (s : State α β ω υ) : State α β ω υ :=
  match s.saved with
  | none => s
  | some (a, b) => { s with single := a, grouped := b, saved := none }

/-- What a statement leaves that has failed, or has nothing to do. -/
def after (s : State α β ω υ) (outcome : Outcome) : State α β ω υ :=
  if outcome = .aborts then s.rolledBack else s

variable (s : State α β ω υ)

@[simp] theorem rolledBack_call : s.rolledBack.call = s.call := by
  rw [rolledBack]
  split <;> rfl

@[simp] theorem rolledBack_performed : s.rolledBack.performed = s.performed := by
  rw [rolledBack]
  split <;> rfl

@[simp] theorem rolledBack_committed : s.rolledBack.committed = s.committed := by
  rw [rolledBack]
  split <;> rfl

@[simp] theorem rolledBack_saved : s.rolledBack.saved = none := by
  rw [rolledBack]
  split
  next h => exact h
  next => rfl

@[simp] theorem after_performed (outcome : Outcome) :
    (s.after outcome).performed = s.performed := by
  rw [after]
  split
  next => exact s.rolledBack_performed
  next => rfl

@[simp] theorem after_committed (outcome : Outcome) :
    (s.after outcome).committed = s.committed := by
  rw [after]
  split
  next => exact s.rolledBack_committed
  next => rfl

end State

/-- What statements leave if none of them fails. -/
def runAll : List (β → Option β) → β → Option β
  | [], b => some b
  | statement :: rest, b => (statement b).bind (runAll rest)

theorem runAll_concat (statements : List (β → Option β)) (statement : β → Option β) (b : β) :
    runAll (statements ++ [statement]) b = (runAll statements b).bind statement := by
  induction statements generalizing b with
  | nil =>
      show (statement b).bind some = statement b
      exact Option.bind_fun_some _
  | cons first statements ih =>
      show (first b).bind (runAll (statements ++ [statement])) = _
      rw [funext ih, ← Option.bind_assoc]
      rfl

/-- Statements are run until one fails: whether none has, and what they leave. -/
def execAll : List (β → Option β) → (ℕ → Bool) → β → Bool × β
  | [], _, b => (true, b)
  | statement :: rest, fails, b =>
      match if fails 0 then none else statement b with
      | none => (false, b)
      | some b => execAll rest (fun i => fails (i + 1)) b

/-- Nothing fails by chance, and the statements do what they do then. -/
theorem execAll_eq_true {statements : List (β → Option β)} {fails : ℕ → Bool} {b b' : β} :
    execAll statements fails b = (true, b') ↔
      (∀ i < statements.length, fails i = false) ∧ runAll statements b = some b' := by
  induction statements generalizing fails b with
  | nil =>
      constructor
      · intro h
        exact ⟨fun i hi => absurd hi (Nat.not_lt_zero i), congrArg some (Prod.mk.inj h).2⟩
      · rintro ⟨-, h⟩
        exact congrArg (Prod.mk true) (Option.some.inj h)
  | cons statement rest ih =>
      rw [execAll, runAll, List.length_cons, Nat.forall_lt_succ_left]
      cases hfirst : fails 0 with
      | true => exact iff_of_false (by rintro ⟨⟩) (by rintro ⟨⟨⟨⟩, -⟩, -⟩)
      | false =>
          cases hstatement : statement b with
          | none => exact iff_of_false (by rintro ⟨⟩) (by rintro ⟨-, ⟨⟩⟩)
          | some c =>
              show execAll rest (fun i => fails (i + 1)) c = (true, b') ↔ _
              rw [ih]
              exact and_congr_left fun _ => (and_iff_right rfl).symm

/-- What every statement keeps is kept, wherever the statements end. -/
theorem execAll_keeps {I : β → Prop} {statements : List (β → Option β)}
    (h : ∀ statement ∈ statements, ∀ b b', I b → statement b = some b' → I b')
    (fails : ℕ → Bool) {b : β} (hb : I b) : I (execAll statements fails b).2 := by
  induction statements generalizing fails b with
  | nil => exact hb
  | cons statement rest ih =>
      rw [execAll]
      split
      next => exact hb
      next b' hstatement =>
        split at hstatement
        next => cases hstatement
        next =>
          refine ih (fun s hs => h s (List.mem_cons_of_mem _ hs)) _ ?_
          exact h statement List.mem_cons_self b b' hb hstatement

/-- A rollback takes nothing back of the single statements. -/
def SparesSingle (s : State α β ω υ) : Prop := ∀ saved, s.saved = some saved → saved.1 = s.single

/-- A rollback takes nothing back of the calls. -/
def SparesGrouped (s : State α β ω υ) : Prop :=
  ∀ saved, s.saved = some saved → saved.2 = s.grouped

/-- A single statement that ends the transaction takes nothing back but what a call did that is
about to roll back.  So does a statement of a call that fails; and a rollback that does not fail.
Any other end of a transaction but a commit takes nothing back, nor leaves anything. -/
def Meets (s : State α β ω υ) : Event ω υ → Prop
  | .single _ false => True
  | .single _ true =>
      match s.call with
      | some (_, .running _) => s.saved = none
      | some (_, .failed) => SparesSingle s
      | _ => SparesSingle s ∧ SparesGrouped s
  | .call _ => True
  | .statement outcome =>
      match s.call with
      | none => True
      | some (_, .running (_ :: _)) => outcome = .aborts → SparesSingle s
      | some (_, .failed) => if outcome = .fails then SparesGrouped s else SparesSingle s
      | some _ => outcome = .aborts → SparesSingle s ∧ SparesGrouped s

namespace Program

/-- The next statement of a call.  What becomes of a commit is not looked at. -/
def advance (s : State α β ω υ) (u : υ) (outcome : Outcome) : Stage β → State α β ω υ
  | .opening =>
      if outcome ≠ .ok ∨ s.saved.isSome then { s.after outcome with call := none }
      else
        { s with
          saved := some (s.single, s.grouped)
          call := some (u, .running (p.statements u)) }
  | .running (statement :: rest) =>
      match if outcome = .ok then statement s.grouped else none with
      | none => { s.after outcome with call := some (u, .failed) }
      | some b => { s with grouped := b, call := some (u, .running rest) }
  | .running [] =>
      let s := if outcome = .ok then { s with saved := none } else s.after outcome
      { s with call := none, committed := s.committed ++ [u] }
  | .failed =>
      let s := if outcome = .fails then s else s.rolledBack
      { s with call := none }

def step (s : State α β ω υ) : Event ω υ → State α β ω υ
  | .single op aborts =>
      if aborts then s.rolledBack
      else
        let (ok, a) := p.perform s.single op
        { s with single := a, performed := if ok then s.performed ++ [op] else s.performed }
  | .call u => if s.call.isSome then s else { s with call := some (u, .opening) }
  | .statement outcome =>
      match s.call with
      | none => s
      | some (u, stage) => p.advance s u outcome stage

/-- The effect of single statements, and of calls, one after the other. -/
def replaySingle (a : α) (ops : List ω) : α := ops.foldl (fun a op => (p.perform a op).2) a
def replayGrouped (b : β) (us : List υ) : β :=
  us.foldl (fun b u => (runAll (p.statements u) b).getD b) b

/-- The tables are what the operations that have returned true have made of those at the
beginning. -/
structure Isolated (a : α) (b : β) (s : State α β ω υ) : Prop where
  single : s.single = p.replaySingle a s.performed
  grouped : s.grouped = p.replayGrouped b s.committed

/-- If all calls have returned then the tables are what they should be. -/
def Sound (a : α) (b : β) (s : State α β ω υ) : Prop := s.call = none → p.Isolated a b s

/-! ## What holds between the statements -/

/-- What the tables of the calls are, by where the call under way is. -/
inductive Under (b : β) (s : State α β ω υ) : Prop where
  | idle (call : s.call = none) (grouped : s.grouped = p.replayGrouped b s.committed)
  | opening {u : υ} (call : s.call = some (u, .opening))
      (grouped : s.grouped = p.replayGrouped b s.committed)
  | running {u : υ} {done rest : List (β → Option β)} {a' : α}
      (call : s.call = some (u, .running rest)) (split : p.statements u = done ++ rest)
      (saved : s.saved = some (a', p.replayGrouped b s.committed))
      (grouped : runAll done (p.replayGrouped b s.committed) = some s.grouped)
  | failed {u : υ} {a' : α} (call : s.call = some (u, .failed))
      (saved : s.saved = some (a', p.replayGrouped b s.committed))
  | ended {u : υ} (call : s.call = some (u, .failed)) (saved : s.saved = none)
      (grouped : s.grouped = p.replayGrouped b s.committed)

structure Invariant (a : α) (b : β) (s : State α β ω υ) : Prop where
  single : s.single = p.replaySingle a s.performed
  under : p.Under b s

variable {p} {a : α} {b : β} {s : State α β ω υ}

theorem Invariant.sound (h : p.Invariant a b s) : p.Sound a b s := by
  intro hidle
  refine ⟨h.single, ?_⟩
  cases h.under with
  | idle _ hgrouped => exact hgrouped
  | opening hcall _ => rw [hcall] at hidle; cases hidle
  | running hcall _ _ _ => rw [hcall] at hidle; cases hidle
  | failed hcall _ => rw [hcall] at hidle; cases hidle
  | ended hcall _ _ => rw [hcall] at hidle; cases hidle

theorem replayGrouped_concat (us : List υ) (u : υ) :
    p.replayGrouped b (us ++ [u]) =
      (runAll (p.statements u) (p.replayGrouped b us)).getD (p.replayGrouped b us) :=
  List.foldl_concat ..

/-! ### Rollbacks -/

/-- What a rollback leaves that takes nothing back of the single statements. -/
theorem Invariant.single_rolledBack (h : p.Invariant a b s) (hspares : SparesSingle s) :
    s.rolledBack.single = p.replaySingle a s.rolledBack.performed := by
  rw [State.rolledBack_performed, ← h.single, State.rolledBack]
  split
  next => rfl
  next a' b' hsaved => exact hspares _ hsaved

theorem grouped_rolledBack (hspares : SparesGrouped s) : s.rolledBack.grouped = s.grouped := by
  rw [State.rolledBack]
  split
  next => rfl
  next a' b' hsaved => exact hspares _ hsaved

/-- What a rollback leaves of a call that had begun. -/
theorem grouped_rolledBack_of_saved {saved : α × β} (h : s.saved = some saved) :
    s.rolledBack.grouped = saved.2 := by
  rw [State.rolledBack, h]

/-- What a failing statement leaves when it takes nothing back. -/
theorem Invariant.after_idle (h : p.Invariant a b s) {outcome : Outcome}
    (hgrouped : s.grouped = p.replayGrouped b s.committed)
    (hmeets : outcome = .aborts → SparesSingle s ∧ SparesGrouped s) :
    p.Invariant a b { s.after outcome with call := none } := by
  cases outcome with
  | ok => exact ⟨h.single, .idle rfl hgrouped⟩
  | fails => exact ⟨h.single, .idle rfl hgrouped⟩
  | aborts =>
      obtain ⟨hsingle, hall⟩ := hmeets rfl
      refine ⟨h.single_rolledBack hsingle, .idle rfl ?_⟩
      show s.rolledBack.grouped = p.replayGrouped b s.rolledBack.committed
      rw [grouped_rolledBack hall, State.rolledBack_committed, hgrouped]

/-! ### Steps -/

theorem Invariant.step_perform (h : p.Invariant a b s) (op : ω) :
    p.Invariant a b (p.step s (.single op false)) := by
  refine ⟨?_, ?_⟩
  · show (p.perform s.single op).2 =
      p.replaySingle a
        (if (p.perform s.single op).1 = true then s.performed ++ [op] else s.performed)
    split
    next =>
      rw [replaySingle, List.foldl_concat, ← replaySingle, ← h.single]
    next hrefused =>
      rw [p.refused _ _ (Bool.eq_false_iff.mpr hrefused), ← h.single]
  · cases h.under with
    | idle hcall hgrouped => exact .idle hcall hgrouped
    | opening hcall hgrouped => exact .opening hcall hgrouped
    | running hcall hsplit hsaved hgrouped => exact .running hcall hsplit hsaved hgrouped
    | failed hcall hsaved => exact .failed hcall hsaved
    | ended hcall hsaved hgrouped => exact .ended hcall hsaved hgrouped

/-- A single statement that ends the transaction. -/
theorem Invariant.step_abort (h : p.Invariant a b s) {op : ω} (hmeets : Meets s (.single op true)) :
    p.Invariant a b (p.step s (.single op true)) := by
  show p.Invariant a b s.rolledBack
  rw [Meets] at hmeets
  cases h.under with
  | idle hcall hgrouped =>
      rw [hcall] at hmeets
      refine ⟨h.single_rolledBack hmeets.1, .idle (s.rolledBack_call.trans hcall) ?_⟩
      rw [grouped_rolledBack hmeets.2, hgrouped, State.rolledBack_committed]
  | opening hcall hgrouped =>
      rw [hcall] at hmeets
      refine ⟨h.single_rolledBack hmeets.1, .opening (s.rolledBack_call.trans hcall) ?_⟩
      rw [grouped_rolledBack hmeets.2, hgrouped, State.rolledBack_committed]
  | running hcall _ hsaved _ =>
      -- The call's own transaction would be lost.
      rw [hcall, hsaved] at hmeets
      cases hmeets
  | failed hcall hsaved =>
      rw [hcall] at hmeets
      refine ⟨h.single_rolledBack hmeets, .ended (s.rolledBack_call.trans hcall)
        s.rolledBack_saved ?_⟩
      rw [grouped_rolledBack_of_saved hsaved, State.rolledBack_committed]
  | ended hcall hsaved hgrouped =>
      have hsame : s.rolledBack = s := by rw [State.rolledBack, hsaved]
      rw [hsame]
      exact ⟨h.single, .ended hcall hsaved hgrouped⟩

theorem Invariant.step_call (h : p.Invariant a b s) (u : υ) :
    p.Invariant a b (p.step s (.call u)) := by
  rw [step]
  split
  next => exact h
  next hidle =>
    refine ⟨h.single, .opening rfl (h.sound ?_).grouped⟩
    exact Option.not_isSome_iff_eq_none.mp hidle

/-- The begin of a call. -/
theorem Invariant.advance_opening (h : p.Invariant a b s) {u : υ} {outcome : Outcome}
    (hgrouped : s.grouped = p.replayGrouped b s.committed)
    (hmeets : outcome = .aborts → SparesSingle s ∧ SparesGrouped s) :
    p.Invariant a b (p.advance s u outcome .opening) := by
  rw [advance]
  split
  next => exact h.after_idle hgrouped hmeets
  next =>
    have hsaved : some (s.single, s.grouped) =
        some (s.single, p.replayGrouped b s.committed) := by rw [hgrouped]
    exact ⟨h.single, .running rfl (List.nil_append _).symm hsaved (congrArg some hgrouped.symm)⟩

/-- A statement of a call. -/
theorem Invariant.advance_running (h : p.Invariant a b s) {u : υ} {outcome : Outcome} {a' : α}
    {done rest : List (β → Option β)} {statement : β → Option β}
    (hsplit : p.statements u = done ++ statement :: rest)
    (hsaved : s.saved = some (a', p.replayGrouped b s.committed))
    (hgrouped : runAll done (p.replayGrouped b s.committed) = some s.grouped)
    (hmeets : outcome = .aborts → SparesSingle s) :
    p.Invariant a b (p.advance s u outcome (.running (statement :: rest))) := by
  rw [advance]
  split
  next =>
    cases outcome with
    | ok => exact ⟨h.single, .failed rfl hsaved⟩
    | fails => exact ⟨h.single, .failed rfl hsaved⟩
    | aborts =>
        refine ⟨h.single_rolledBack (hmeets rfl), .ended rfl s.rolledBack_saved ?_⟩
        show s.rolledBack.grouped = p.replayGrouped b s.rolledBack.committed
        rw [grouped_rolledBack_of_saved hsaved, State.rolledBack_committed]
  next b' hb' =>
    have hdone : statement s.grouped = some b' := by
      split at hb'
      next => exact hb'
      next => cases hb'
    have hsplit' : p.statements u = (done ++ [statement]) ++ rest := by
      rw [hsplit, List.append_assoc, List.singleton_append]
    refine ⟨h.single, .running rfl hsplit' hsaved ?_⟩
    rw [runAll_concat, hgrouped]
    exact hdone

/-- The commit of a call, all of whose statements have been carried out. -/
theorem Invariant.advance_commit (h : p.Invariant a b s) {u : υ} {outcome : Outcome}
    (hgrouped : runAll (p.statements u) (p.replayGrouped b s.committed) = some s.grouped)
    (hmeets : outcome = .aborts → SparesSingle s ∧ SparesGrouped s) :
    p.Invariant a b (p.advance s u outcome (.running [])) := by
  have hdone : s.grouped = p.replayGrouped b (s.committed ++ [u]) := by
    rw [replayGrouped_concat, hgrouped, Option.getD_some]
  cases outcome with
  | ok => exact ⟨h.single, .idle rfl hdone⟩
  | fails => exact ⟨h.single, .idle rfl hdone⟩
  | aborts =>
      obtain ⟨hsingle, hall⟩ := hmeets rfl
      refine ⟨h.single_rolledBack hsingle, .idle rfl ?_⟩
      show s.rolledBack.grouped = p.replayGrouped b (s.rolledBack.committed ++ [u])
      rw [grouped_rolledBack hall, State.rolledBack_committed, hdone]

/-- A call that failed has saved what the calls before it made, or its transaction is over and has
left that. -/
theorem Under.of_failed (h : p.Under b s) {u : υ} (hcall : s.call = some (u, .failed)) :
    (∀ saved, s.saved = some saved → saved.2 = p.replayGrouped b s.committed) ∧
      (s.saved = none → s.grouped = p.replayGrouped b s.committed) := by
  cases h with
  | idle hnone _ => rw [hnone] at hcall; cases hcall
  | opening hopening _ => rw [hopening] at hcall; cases hcall
  | running hrunning _ _ _ => rw [hrunning] at hcall; cases hcall
  | failed _ hsaved =>
      rw [hsaved]
      refine ⟨fun saved hopen => ?_, fun hnone => by cases hnone⟩
      obtain rfl := Option.some.inj hopen
      rfl
  | ended _ hsaved hgrouped =>
      rw [hsaved]
      exact ⟨by rintro saved ⟨⟩, fun _ => hgrouped⟩

/-- The rollback of a call. -/
theorem Invariant.advance_failed (h : p.Invariant a b s) {u : υ} {outcome : Outcome}
    (hcall : s.call = some (u, .failed))
    (hmeets : if outcome = .fails then SparesGrouped s else SparesSingle s) :
    p.Invariant a b (p.advance s u outcome .failed) := by
  obtain ⟨hsaved, hended⟩ := h.under.of_failed hcall
  rw [advance]
  split at hmeets
  next hfails =>
    rw [if_pos hfails]
    refine ⟨h.single, .idle rfl ?_⟩
    show s.grouped = p.replayGrouped b s.committed
    cases hopen : s.saved with
    | none => exact hended hopen
    | some saved => exact (hmeets saved hopen).symm.trans (hsaved saved hopen)
  next hfails =>
    rw [if_neg hfails]
    refine ⟨h.single_rolledBack hmeets, .idle rfl ?_⟩
    show s.rolledBack.grouped = p.replayGrouped b s.rolledBack.committed
    rw [State.rolledBack_committed]
    cases hopen : s.saved with
    | none =>
        rw [State.rolledBack, hopen]
        exact hended hopen
    | some saved => exact (grouped_rolledBack_of_saved hopen).trans (hsaved saved hopen)

theorem Invariant.step_statement (h : p.Invariant a b s) {outcome : Outcome}
    (hmeets : Meets s (.statement outcome)) : p.Invariant a b (p.step s (.statement outcome)) := by
  rw [Meets] at hmeets
  rw [step]
  cases h.under with
  | idle hcall hgrouped =>
      rw [hcall]
      exact h
  | opening hcall hgrouped =>
      rw [hcall] at hmeets ⊢
      exact h.advance_opening hgrouped hmeets
  | @running u done rest a' hcall hsplit hsaved hgrouped =>
      rw [hcall] at hmeets ⊢
      cases rest with
      | nil =>
          rw [List.append_nil] at hsplit
          exact h.advance_commit (hsplit ▸ hgrouped) hmeets
      | cons statement rest => exact h.advance_running hsplit hsaved hgrouped hmeets
  | failed hcall _ =>
      rw [hcall] at hmeets ⊢
      exact h.advance_failed hcall hmeets
  | ended hcall _ _ =>
      rw [hcall] at hmeets ⊢
      exact h.advance_failed hcall hmeets

theorem Invariant.step (h : p.Invariant a b s) {e : Event ω υ} (hmeets : Meets s e) :
    p.Invariant a b (p.step s e) := by
  cases e with
  | single op aborts =>
      cases aborts with
      | false => exact h.step_perform op
      | true => exact h.step_abort hmeets
  | call u => exact h.step_call u
  | statement outcome => exact h.step_statement hmeets

/-- The tables are what they should be whenever all calls have returned, if every step meets the
condition. -/
theorem isolated_of_meets {events : List (Event ω υ)}
    (h : Runs.Along p.step Meets { single := a, grouped := b } events) :
    Runs.Along p.step (fun s e => p.Sound a b (p.step s e)) { single := a, grouped := b } events :=
  h.gives (I := p.Invariant a b) ⟨rfl, .idle rfl rfl⟩ fun _ _ hI hmeets =>
    ⟨(hI.step hmeets).sound, hI.step hmeets⟩

/-- A rollback that does not meet the condition leaves what it should not. -/
theorem Invariant.meets_of_sound (h : p.Invariant a b s) {e : Event ω υ}
    (hkeeps : e.KeepsTransaction) (hsound : p.Sound a b (p.step s e)) : Meets s e := by
  cases e with
  | single op aborts =>
      obtain rfl : aborts = false := hkeeps
      trivial
  | call u => trivial
  | statement outcome =>
      have hnever : outcome ≠ .aborts := hkeeps
      rw [Program.step] at hsound
      rw [Meets]
      cases hcall : s.call with
      | none => trivial
      | some call =>
          obtain ⟨u, stage⟩ := call
          rw [hcall] at hsound
          match stage with
          | .opening => exact fun habort => absurd habort hnever
          | .running [] => exact fun habort => absurd habort hnever
          | .running (_ :: _) => exact fun habort => absurd habort hnever
          | .failed =>
              show if outcome = .fails then SparesGrouped s else SparesSingle s
              change p.Sound a b (p.advance s u outcome .failed) at hsound
              rw [advance] at hsound
              obtain ⟨hsingle, hgrouped⟩ := hsound rfl
              cases outcome with
              | ok =>
                  intro saved hopen
                  have hback : s.rolledBack.single = saved.1 := by rw [State.rolledBack, hopen]
                  rw [← hback]
                  refine Eq.trans ?_ h.single.symm
                  rw [← s.rolledBack_performed]
                  exact hsingle
              | fails =>
                  intro saved hopen
                  exact ((h.under.of_failed hcall).1 saved hopen).trans hgrouped.symm
              | aborts => exact absurd rfl hnever

/-- In a run in which no statement ends a transaction nothing else than the condition makes the
tables what they should be. -/
theorem meets_of_isolated {events : List (Event ω υ)}
    (h : Runs.Along p.step (fun s e => e.KeepsTransaction ∧ p.Sound a b (p.step s e))
      { single := a, grouped := b } events) :
    Runs.Along p.step Meets { single := a, grouped := b } events :=
  h.gives (I := p.Invariant a b) ⟨rfl, .idle rfl rfl⟩ fun _ _ hI hstep =>
    have hmeets := hI.meets_of_sound hstep.1 hstep.2
    ⟨hmeets, hI.step hmeets⟩

end Program

end SharedConnection
