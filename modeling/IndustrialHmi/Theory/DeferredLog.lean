import IndustrialHmi.Theory.Transducer
import Mathlib.Data.List.Nodup

/-!
# A log written after the fact

Threads call a shared object.  A call takes effect in one step, under the object's
lock, and gives entries for a log; the thread writes them later, one at a time, and
makes no other call before it is done.  In between, other threads may call and write.

Nothing is lost or written twice (`run_perm`).  The log need not be in the order of
the effects.  It is, among the entries of each key, when no call has an effect on a
key that still has an unwritten entry (`run_ordered`).
-/

namespace DeferredLog

variable {σ ι ε θ : Type} [DecidableEq θ] (step : σ → ι → List ε × σ)

/-- The object, with the entries still to be written in the order of their effects. -/
structure Config (σ ι ε θ : Type) where
  state : σ
  /-- The calls that have taken effect, in order. -/
  calls : List ι := []
  unwritten : List (θ × ε) := []
  log : List ε := []

inductive Action (ι θ : Type) where
  /-- The call of a thread takes effect. -/
  | call (thread : θ) (i : ι)
  /-- A thread writes its next entry. -/
  | write (thread : θ)

/-- The thread has written all its entries. -/
def Config.idle (c : Config σ ι ε θ) (t : θ) : Bool := c.unwritten.all (·.1 ≠ t)

/-- A thread that is not done does not call, and one that is done has nothing to write. -/
def act (c : Config σ ι ε θ) : Action ι θ → Config σ ι ε θ
  | .call t i =>
      if c.idle t then
        { state := (step c.state i).2, calls := c.calls ++ [i]
          unwritten := c.unwritten ++ (step c.state i).1.map (t, ·), log := c.log }
      else c
  | .write t =>
      match c.unwritten.find? (·.1 = t) with
      | none => c
      | some w => { c with unwritten := c.unwritten.eraseP (·.1 = t), log := c.log ++ [w.2] }

def run (c : Config σ ι ε θ) (actions : List (Action ι θ)) : Config σ ι ε θ :=
  actions.foldl (act step) c

/-- The entries of all calls of a list, in the order of their effects. -/
def entries (s : σ) (calls : List ι) : List ε := (Transducer.outputs step s calls).flatten

theorem entries_concat (s : σ) (calls : List ι) (i : ι) :
    entries step s (calls ++ [i]) =
      entries step s calls ++ (step (Transducer.final step s calls) i).1 := by
  rw [entries, Transducer.outputs_concat, List.flatten_append, List.flatten_singleton]
  rfl

/-- What an action does: nothing, a call, or the writing of one entry. -/
theorem act_cases (c : Config σ ι ε θ) (a : Action ι θ) :
    act step c a = c ∨
    (∃ t i, a = .call t i ∧ c.idle t = true ∧ act step c a =
      { state := (step c.state i).2, calls := c.calls ++ [i]
        unwritten := c.unwritten ++ (step c.state i).1.map (t, ·), log := c.log }) ∨
    ∃ before t e rest, a = .write t ∧ c.unwritten = before ++ (t, e) :: rest ∧
      (∀ w ∈ before, w.1 ≠ t) ∧
      act step c a = { c with unwritten := before ++ rest, log := c.log ++ [e] } := by
  cases a with
  | call t i =>
      by_cases hidle : c.idle t = true
      · exact Or.inr (Or.inl ⟨t, i, rfl, hidle, if_pos hidle⟩)
      · exact Or.inl (if_neg hidle)
  | write t =>
      cases hfind : c.unwritten.find? (·.1 = t) with
      | none =>
          left
          simp only [act, hfind]
      | some w =>
          right; right
          obtain ⟨hw, before, rest, hsplit, hbefore⟩ := List.find?_eq_some_iff_append.mp hfind
          have ht : w.1 = t := of_decide_eq_true hw
          have hne : ∀ u ∈ before, u.1 ≠ t := fun u hu => by simpa using hbefore u hu
          refine ⟨before, t, w.2, rest, rfl, ht ▸ hsplit, hne, ?_⟩
          simp only [act, hfind]
          congr 1
          rw [hsplit, List.eraseP_append_right _ (fun u hu => by simpa using hne u hu),
            List.eraseP_cons_of_pos (by simpa using ht)]

theorem run_concat (c : Config σ ι ε θ) (actions : List (Action ι θ)) (a : Action ι θ) :
    run step c (actions ++ [a]) = act step (run step c actions) a := by
  simp [run]

/-! ## Nothing is lost -/

/-- The state and the entries of a configuration are those of the calls it has seen. -/
structure Accounts (s₀ : σ) (c : Config σ ι ε θ) : Prop where
  state : c.state = Transducer.final step s₀ c.calls
  entries : (c.log ++ c.unwritten.map Prod.snd).Perm (entries step s₀ c.calls)

omit [DecidableEq θ] in
theorem Accounts.start (s₀ : σ) : Accounts step s₀ ({ state := s₀ } : Config σ ι ε θ) :=
  ⟨rfl, List.Perm.refl _⟩

theorem Accounts.act {s₀ : σ} {c : Config σ ι ε θ} (h : Accounts step s₀ c) (a : Action ι θ) :
    Accounts step s₀ (act step c a) := by
  obtain hsame | ⟨t, i, -, -, hact⟩ | ⟨before, t, e, rest, -, hsplit, -, hact⟩ := act_cases step c a
  · rw [hsame]
    exact h
  · rw [hact]
    constructor
    case state => rw [Transducer.final_concat, ← h.state]
    case entries =>
      rw [entries_concat, ← h.state, List.map_append, List.map_map, ← List.append_assoc]
      refine h.entries.append (List.Perm.of_eq ?_)
      exact (List.map_congr_left fun _ _ => rfl).trans (List.map_id _)
  · rw [hact]
    refine ⟨h.state, List.Perm.trans ?_ h.entries⟩
    rw [hsplit, List.map_append, List.map_append, List.map_cons, List.append_assoc,
      List.singleton_append]
    exact List.perm_middle.symm.append_left c.log

/-- The log and what is still to be written are the entries of the calls, each once. -/
theorem run_accounts (s₀ : σ) (actions : List (Action ι θ)) :
    Accounts step s₀ (run step { state := s₀ } actions) := by
  induction actions using List.reverseRecOn with
  | nil => exact Accounts.start step s₀
  | append_singleton actions a ih =>
      rw [run_concat]
      exact ih.act step a

/-! ## Order under a key -/

variable {κ : Type} [DecidableEq κ] (key : ε → κ)

/-- The call, if it is one, has no effect on a key with an unwritten entry. -/
def Quiet (c : Config σ ι ε θ) : Action ι θ → Prop
  | .call t i =>
      c.idle t = true → ∀ e ∈ (step c.state i).1, ∀ w ∈ c.unwritten, key w.2 ≠ key e
  | .write _ => True

/-- Every action of a run is quiet. -/
def QuietRun (c : Config σ ι ε θ) : List (Action ι θ) → Prop
  | [] => True
  | a :: rest => Quiet step key c a ∧ QuietRun (act step c a) rest

/-- The entries of a key. -/
def under (k : κ) (es : List ε) : List ε := es.filter (key · = k)

/-- The unwritten entries have different keys, and each key's entries are in order. -/
structure InOrder (s₀ : σ) (c : Config σ ι ε θ) : Prop where
  apart : (c.unwritten.map fun w => key w.2).Nodup
  order : ∀ k, under key k c.log ++ under key k (c.unwritten.map Prod.snd) =
    under key k (entries step s₀ c.calls)

theorem under_append (k : κ) (es es' : List ε) :
    under key k (es ++ es') = under key k es ++ under key k es' := List.filter_append ..

theorem under_eq_nil {k : κ} {es : List ε} (h : ∀ e ∈ es, key e ≠ k) : under key k es = [] :=
  List.filter_eq_nil_iff.mpr fun e he => by simpa using h e he

/-- Where keys are distinct, one entry may go ahead of the others. -/
theorem under_move {before rest : List ε} {e : ε}
    (h : ((before ++ e :: rest).map key).Nodup) (k : κ) :
    under key k [e] ++ under key k (before ++ rest) = under key k (before ++ e :: rest) := by
  have hbefore : ∀ u ∈ before, key u ≠ key e := by
    rw [List.map_append, List.map_cons, List.nodup_append] at h
    exact fun u hu => h.2.2 (key u) (List.mem_map_of_mem hu) (key e) List.mem_cons_self
  rw [← List.singleton_append (l := rest), under_append, under_append, under_append]
  by_cases hk : key e = k
  · have hnone : under key k before = [] := under_eq_nil key fun u hu => hk ▸ hbefore u hu
    rw [hnone]
    rfl
  · have hnone : under key k [e] = [] := under_eq_nil key fun u hu => by
      rw [List.mem_singleton.mp hu]
      exact hk
    rw [hnone]
    rfl

theorem InOrder.act {s₀ : σ} {c : Config σ ι ε θ} (h : InOrder step key s₀ c)
    (hacc : Accounts step s₀ c) {a : Action ι θ} (hquiet : Quiet step key c a)
    (hdistinct : ∀ i, ((step c.state i).1.map key).Nodup) :
    InOrder step key s₀ (act step c a) := by
  obtain hsame | ⟨t, i, rfl, hidle, hact⟩ | ⟨before, t, e, rest, -, hsplit, -, hact⟩ :=
    act_cases step c a
  · rw [hsame]
    exact h
  · rw [hact]
    have hsnd : ((step c.state i).1.map (t, ·)).map Prod.snd = (step c.state i).1 := by
      rw [List.map_map]
      exact (List.map_congr_left fun _ _ => rfl).trans (List.map_id _)
    constructor
    case apart =>
      rw [List.map_append, List.map_map, List.nodup_append]
      refine ⟨h.apart, hdistinct i, ?_⟩
      intro k hk k' hk' hkk'
      obtain ⟨w, hw, rfl⟩ := List.mem_map.mp hk
      obtain ⟨e, he, rfl⟩ := List.mem_map.mp hk'
      exact hquiet hidle e he w hw hkk'
    case order =>
      intro k
      rw [entries_concat, ← hacc.state, under_append, ← h.order k, List.map_append, hsnd,
        under_append, List.append_assoc]
  · rw [hact]
    have hkeys : ((before.map Prod.snd ++ e :: rest.map Prod.snd).map key).Nodup := by
      have hapart := h.apart
      rw [hsplit] at hapart
      simpa [Function.comp_def] using hapart
    constructor
    case apart =>
      refine h.apart.sublist ?_
      rw [hsplit]
      exact (List.Sublist.append_left (List.sublist_cons_self _ _) before).map _
    case order =>
      intro k
      rw [← h.order k, hsplit, under_append, List.append_assoc, List.map_append,
        under_move key hkeys, List.map_append, List.map_cons]

/-- **In a quiet run, each key's entries are logged in the order of their effects.** -/
theorem run_ordered {s₀ : σ} {Inv : σ → Prop} (hinv : ∀ s i, Inv s → Inv (step s i).2)
    (hdistinct : ∀ s i, Inv s → ((step s i).1.map key).Nodup) (actions : List (Action ι θ)) :
    ∀ {c : Config σ ι ε θ}, Inv s₀ → Accounts step s₀ c → InOrder step key s₀ c →
      QuietRun step key c actions → InOrder step key s₀ (run step c actions) := by
  induction actions with
  | nil => intro c _ _ h _; exact h
  | cons a actions ih =>
      intro c h₀ hacc h hquiet
      obtain ⟨ha, hrest⟩ := hquiet
      have hstate : Inv c.state := by
        rw [hacc.state]
        exact Transducer.final_invariant step hinv c.calls h₀
      exact ih h₀ (hacc.act step a) (h.act step key hacc ha fun i => hdistinct _ i hstate) hrest

omit [DecidableEq θ] in
theorem InOrder.start (s₀ : σ) : InOrder step key s₀ ({ state := s₀ } : Config σ ι ε θ) :=
  ⟨List.nodup_nil, fun _ => rfl⟩

end DeferredLog
