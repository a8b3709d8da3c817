import IndustrialHmi.Theory.Scanner
import Mathlib.Data.List.Forall2

/-!
# Lines

A *line* is ended by a delimiter.  `lineScanner` reads a stream line by line, and waits on the line
that has not ended.  Its lines are those that splitting the stream gives, less the last
(`scan_lineScanner`).

A reader with a *limit* drops the line that has not ended when it is longer than the limit, and
does not skip to the delimiter.  It goes on with what comes next, and takes the remainder of the
line for a line.  So it sees as many lines as there are, and each is whole or has lost more than
the limit from its front (`readAll_cut`).  Both happen, if the input is cut for it
(`readAll_cutIn`).
-/

namespace Incremental

variable {α : Type}

/-- A line and its delimiter. -/
def terminated (d : α) (l : List α) : List α := l ++ [d]

section

variable [BEq α] (d : α)

/-- The first line and the symbols it takes with its delimiter. -/
def nextLine (xs : List α) : Option (List α × Nat) :=
  (xs.idxOf? d).map fun i => (xs.take i, i + 1)

/-- The lines of a stream that are ended. -/
def endedLines (xs : List α) : List (List α) := (xs.splitOn d).dropLast

/-- The line of a stream that is not. -/
def unended (xs : List α) : List α := (xs.splitOn d).getLast (List.splitOn_ne_nil d xs)

end

/-! ## The scanner of lines -/

section

variable [BEq α] [LawfulBEq α] {d : α}

theorem nextLine_of_notMem {xs : List α} (h : d ∉ xs) : nextLine d xs = none := by
  rw [nextLine, List.idxOf?_eq_none_iff.mpr h]
  rfl

theorem idxOf?_line {l : List α} (h : d ∉ l) (ys : List α) :
    (l ++ d :: ys).idxOf? d = some l.length := by
  induction l with
  | nil => rw [List.nil_append, List.idxOf?_cons, beq_self_eq_true]; rfl
  | cons x l ih =>
      obtain ⟨hx, hl⟩ := not_or.mp fun hor => h (List.mem_cons.mpr hor)
      rw [List.cons_append, List.idxOf?_cons, beq_eq_false_iff_ne.mpr fun he => hx he.symm, ih hl]
      rfl

theorem nextLine_append {l : List α} (h : d ∉ l) (ys : List α) :
    nextLine d (l ++ d :: ys) = some (l, l.length + 1) := by
  rw [nextLine, idxOf?_line h, Option.map_some, List.take_left]

/-- A line has no delimiter, and one follows it. -/
theorem nextLine_eq_some {xs l : List α} {n : Nat} :
    nextLine d xs = some (l, n) ↔ d ∉ l ∧ n = l.length + 1 ∧ ∃ ys, xs = l ++ d :: ys := by
  constructor
  · intro h
    by_cases hmem : d ∈ xs
    · obtain ⟨l', ys, rfl, hl'⟩ := List.eq_append_cons_of_mem hmem
      rw [nextLine_append hl'] at h
      cases h
      exact ⟨hl', rfl, ys, rfl⟩
    · rw [nextLine_of_notMem hmem] at h
      cases h
  · rintro ⟨hl, rfl, ys, rfl⟩
    exact nextLine_append hl ys

/-- The scanner that reads one line after the other. -/
def lineScanner (d : α) : Scanner α (List α) where
  next := nextLine d
  pos h := by
    obtain ⟨-, rfl, -⟩ := nextLine_eq_some.mp h
    exact Nat.succ_pos _
  le_length h := by
    obtain ⟨-, rfl, ys, rfl⟩ := nextLine_eq_some.mp h
    rw [List.length_append, List.length_cons]
    omega
  stable := by
    rintro xs ⟨l, n⟩ ys h
    obtain ⟨hl, hn, zs, rfl⟩ := nextLine_eq_some.mp h
    exact nextLine_eq_some.mpr ⟨hl, hn, zs ++ ys, List.append_assoc l (d :: zs) ys⟩

theorem scan_of_notMem {xs : List α} (h : d ∉ xs) : (lineScanner d).scan xs = ([], xs) :=
  (lineScanner d).scan_of_none (nextLine_of_notMem h)

theorem scan_line {l : List α} (h : d ∉ l) (ys : List α) :
    (lineScanner d).scan (l ++ d :: ys) =
      (l :: ((lineScanner d).scan ys).1, ((lineScanner d).scan ys).2) := by
  have hdrop : (l ++ d :: ys).drop (l.length + 1) = ys := by
    rw [← List.drop_drop, List.drop_left, List.drop_one, List.tail_cons]
  rw [(lineScanner d).scan_of_some (nextLine_append h ys), hdrop]

/-- A stream has no delimiter, or begins with a line. -/
theorem line_induction {motive : List α → Prop} (last : ∀ xs, d ∉ xs → motive xs)
    (line : ∀ l ys, d ∉ l → motive ys → motive (l ++ d :: ys)) (xs : List α) : motive xs := by
  induction xs using (lineScanner d).scan_induction with
  | wait xs h =>
      refine last xs fun hmem => ?_
      obtain ⟨l, ys, rfl, hl⟩ := List.eq_append_cons_of_mem hmem
      exact Option.some_ne_none _ ((nextLine_append hl ys).symm.trans h)
  | token xs l n h ih =>
      obtain ⟨hl, rfl, ys, rfl⟩ := nextLine_eq_some.mp h
      rw [← List.drop_drop, List.drop_left, List.drop_one, List.tail_cons] at ih
      exact line l ys hl ih

/-- The scanner finds the lines that are ended, and leaves the one that is not. -/
theorem scan_lineScanner (xs : List α) :
    (lineScanner d).scan xs = (endedLines d xs, unended d xs) := by
  induction xs using line_induction (d := d) with
  | last xs h =>
      have hsplit := List.splitOn_eq_singleton h
      rw [scan_of_notMem h]
      simp only [endedLines, unended, hsplit, List.dropLast_singleton, List.getLast_singleton]
  | line l ys h ih =>
      have hne := List.splitOn_ne_nil d ys
      have hsplit := List.splitOn_append_cons_self_of_not_mem h ys
      rw [scan_line h, ih]
      simp only [endedLines, unended, hsplit, List.dropLast_cons_of_ne_nil hne,
        List.getLast_cons hne]

theorem notMem_scan_rest (xs : List α) : d ∉ ((lineScanner d).scan xs).2 := by
  intro hmem
  obtain ⟨l, ys, hxs, hl⟩ := List.eq_append_cons_of_mem hmem
  have hwait : nextLine d ((lineScanner d).scan xs).2 = none := (lineScanner d).next_scan_rest xs
  rw [hxs, nextLine_append hl] at hwait
  cases hwait

theorem nextLine_renders : (lineScanner d).Renders (terminated d) := by
  intro xs l n h
  obtain ⟨-, rfl, ys, rfl⟩ := nextLine_eq_some.mp h
  have hcut : l ++ d :: ys = (l ++ [d]) ++ ys := (List.append_assoc l [d] ys).symm
  have hlength : l.length + 1 = (l ++ [d]).length := by
    rw [List.length_append, List.length_singleton]
  rw [hcut, hlength, List.take_left, terminated]

theorem scan_terminated {ls : List (List α)} (h : ∀ l ∈ ls, d ∉ l) (ys : List α) :
    (lineScanner d).scan (ls.flatMap (terminated d) ++ ys) =
      (ls ++ ((lineScanner d).scan ys).1, ((lineScanner d).scan ys).2) := by
  refine (lineScanner d).scan_render ls ?_ ys
  intro l hl zs
  have hnext := nextLine_append (h l hl) zs
  rwa [terminated, List.append_assoc, List.length_append, List.length_singleton]

end

/-! ## A reader with a limit -/

/-- What is held is dropped when it is longer than the limit. -/
def guarded (limit : Nat) (held : List α) : List α := if limit < held.length then [] else held

/-- A line is seen whole, or less a front part that is longer than the limit. -/
def Cut (limit : Nat) (seen line : List α) : Prop :=
  ∃ k ≤ line.length, (k = 0 ∨ limit < k) ∧ seen = line.drop k

namespace Cut

variable {limit : Nat} {seen line : List α}

protected theorem refl (limit : Nat) (line : List α) : Cut limit line line :=
  ⟨0, Nat.zero_le _, Or.inl rfl, List.drop_zero.symm⟩

theorem length_le (h : Cut limit seen line) : seen.length ≤ line.length := by
  obtain ⟨k, -, -, rfl⟩ := h
  rw [List.length_drop]
  exact Nat.sub_le _ _

theorem mem {a : α} (h : Cut limit seen line) (ha : a ∈ seen) : a ∈ line := by
  obtain ⟨k, -, -, rfl⟩ := h
  exact List.mem_of_mem_drop ha

/-- The rest of a line is added to what is seen of it. -/
theorem append (h : Cut limit seen line) (rest : List α) :
    Cut limit (seen ++ rest) (line ++ rest) := by
  obtain ⟨k, hk, hor, rfl⟩ := h
  refine ⟨k, ?_, hor, (List.drop_append_of_le_length hk).symm⟩
  rw [List.length_append]
  omega

theorem guarded (h : Cut limit seen line) : Cut limit (guarded limit seen) line := by
  have hle := h.length_le
  rw [Incremental.guarded]
  split
  · next hlong =>
      refine ⟨line.length, Nat.le_refl _, Or.inr (by omega), ?_⟩
      rw [List.drop_length]
  · exact h

end Cut

section

variable [BEq α] [LawfulBEq α]

/-- One call of the reader: the lines it sees, and what it holds then. -/
def readChunk (d : α) (limit : Nat) (held chunk : List α) : List (List α) × List α :=
  let r := (lineScanner d).scan (held ++ chunk)
  (r.1, guarded limit r.2)

/-- The calls for a list of chunks. -/
def readAll (d : α) (limit : Nat) (held : List α) :
    List (List α) → List (List α) × List α
  | [] => ([], held)
  | c :: cs =>
      let r := readChunk d limit held c
      (r.1 ++ (readAll d limit r.2 cs).1, (readAll d limit r.2 cs).2)

variable {d : α} {limit : Nat} {held line : List α}

/-- One call sees the lines that end in the chunk, the first of them less what was dropped. -/
theorem readChunk_cut (h : Cut limit held line) (hline : d ∉ line) (chunk : List α) :
    List.Forall₂ (Cut limit) (readChunk d limit held chunk).1
        ((lineScanner d).scan (line ++ chunk)).1 ∧
      Cut limit (readChunk d limit held chunk).2 ((lineScanner d).scan (line ++ chunk)).2 := by
  have hheld : d ∉ held := fun hmem => hline (h.mem hmem)
  by_cases hd : d ∈ chunk
  · obtain ⟨l, ys, rfl, hl⟩ := List.eq_append_cons_of_mem hd
    have hseen := scan_line (List.not_mem_append hheld hl) ys
    have htrue := scan_line (List.not_mem_append hline hl) ys
    rw [List.append_assoc] at hseen htrue
    rw [readChunk, hseen, htrue]
    refine ⟨List.Forall₂.cons (h.append l) ?_, (Cut.refl limit _).guarded⟩
    exact List.forall₂_same.mpr fun l' _ => Cut.refl limit l'
  · rw [readChunk, scan_of_notMem (List.not_mem_append hheld hd),
      scan_of_notMem (List.not_mem_append hline hd)]
    exact ⟨List.Forall₂.nil, (h.append chunk).guarded⟩

/-- The reader sees as many lines as there are, each of them whole or cut. -/
theorem readAll_cut (chunks : List (List α)) (h : Cut limit held line) (hline : d ∉ line) :
    List.Forall₂ (Cut limit) (readAll d limit held chunks).1
      ((lineScanner d).scan (line ++ chunks.flatten)).1 := by
  induction chunks generalizing held line with
  | nil =>
      rw [List.flatten_nil, List.append_nil, scan_of_notMem hline]
      exact List.Forall₂.nil
  | cons c cs ih =>
      obtain ⟨hlines, hheld⟩ := readChunk_cut h hline c
      have hrest := ih hheld (notMem_scan_rest (line ++ c))
      rw [List.flatten_cons, ← List.append_assoc, (lineScanner d).scan_append]
      exact List.rel_append hlines hrest

/-- Every line that is longer than the limit is cut anywhere behind it, if the input is. -/
theorem readAll_cutIn {xs : List α} {ls ls' : List (List α)} {l : List α}
    (h : endedLines d xs = ls ++ l :: ls') {k : Nat} (hk : limit < k) (hle : k ≤ l.length) :
    ∃ chunks : List (List α), chunks.flatten = xs ∧
      (readAll d limit [] chunks).1 = ls ++ l.drop k :: ls' := by
  have hscan := scan_lineScanner (d := d) xs
  have hfree : ∀ l' ∈ ls ++ l :: ls', d ∉ l' := by
    rw [← h]
    have hnext : ∀ {xs l' n}, nextLine d xs = some (l', n) → d ∉ l' :=
      fun hnext => (nextLine_eq_some.mp hnext).1
    have hall := (lineScanner d).scan_forall hnext xs
    rwa [hscan] at hall
  have hl := hfree l (List.mem_append_right _ List.mem_cons_self)
  have hls : ∀ l' ∈ ls, d ∉ l' := fun l' hl' => hfree l' (List.mem_append_left _ hl')
  have hls' : ∀ l' ∈ ls', d ∉ l' :=
    fun l' hl' => hfree l' (List.mem_append_right _ (List.mem_cons_of_mem _ hl'))
  have hunended : d ∉ unended d xs := by
    have hrest := notMem_scan_rest (d := d) xs
    rwa [hscan] at hrest
  -- The line, and what stands before and behind it.
  have hxs := (lineScanner d).scan_conserves nextLine_renders xs
  rw [hscan, h, List.flatMap_append, List.flatMap_cons, terminated] at hxs
  have hbefore := scan_terminated hls (l.take k)
  have hbehind := scan_line (fun hmem => hl (List.mem_of_mem_drop hmem))
    (ls'.flatMap (terminated d) ++ unended d xs) (l := l.drop k)
  rw [scan_of_notMem fun hmem => hl (List.mem_of_mem_take hmem), List.append_nil] at hbefore
  rw [scan_terminated hls', scan_of_notMem hunended, List.append_nil] at hbehind
  have hdropped : guarded limit (l.take k) = [] := by
    rw [guarded, List.length_take, Nat.min_eq_left hle, if_pos hk]
  refine ⟨[ls.flatMap (terminated d) ++ l.take k,
    l.drop k ++ d :: (ls'.flatMap (terminated d) ++ unended d xs)], ?_, ?_⟩
  · refine Eq.trans ?_ hxs
    simp only [List.flatten_cons, List.flatten_nil, List.append_nil, List.append_assoc,
      List.cons_append, List.nil_append]
    rw [← List.append_assoc (l.take k), List.take_append_drop]
  · simp only [readAll, readChunk, List.nil_append, hbefore, hdropped, hbehind, List.append_nil]

end

end Incremental
