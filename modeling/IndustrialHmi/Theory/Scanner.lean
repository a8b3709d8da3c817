import Mathlib.Data.List.Basic

/-!
# Incremental scanners

A *scanner* reads one token at a time off the front of a stream.  It either
names the next token and how many symbols it takes, or waits for more input.
Two laws make it usable on a stream that arrives in pieces: a token takes at
least one symbol and never more than there are, and a decision once made is not
changed by symbols that arrive later.

`Scanner.scan` runs a scanner until it waits.  The decision law carries over to
whole runs: cutting the input anywhere, scanning the first part and then the
unread rest with the second part gives the same tokens and the same rest
(`Scanner.scan_append`).  `Scanner.feedAll` is the buffered reader built on it,
and `Scanner.feedAll_eq_scan` says the pieces do not matter.
-/

namespace Incremental

/-- A scanner from symbols `α` to tokens `τ`. -/
structure Scanner (α τ : Type) where
  /-- The next token and the number of symbols it takes, or `none` to wait. -/
  next : List α → Option (τ × Nat)
  /-- A token takes at least one symbol. -/
  pos : ∀ {xs t n}, next xs = some (t, n) → 0 < n
  /-- A token takes no more than there is. -/
  le_length : ∀ {xs t n}, next xs = some (t, n) → n ≤ xs.length
  /-- Later symbols do not change a decision. -/
  stable : ∀ {xs r} (ys : List α), next xs = some r → next (xs ++ ys) = some r

namespace Scanner

variable {α τ : Type} (S : Scanner α τ)

theorem drop_length_lt {xs : List α} {t : τ} {n : Nat} (h : S.next xs = some (t, n)) :
    (xs.drop n).length < xs.length := by
  have hpos := S.pos h
  have hle := S.le_length h
  rw [List.length_drop]
  omega

/-- Read tokens until the scanner waits: the tokens, and what is left unread. -/
def scan (xs : List α) : List τ × List α :=
  match _h : S.next xs with
  | none => ([], xs)
  | some (t, n) => (t :: (scan (xs.drop n)).1, (scan (xs.drop n)).2)
termination_by xs.length
decreasing_by all_goals exact S.drop_length_lt _h

theorem scan_of_none {xs : List α} (h : S.next xs = none) : S.scan xs = ([], xs) := by
  rw [scan]
  split
  · rfl
  · next h' => rw [h] at h'; cases h'

theorem scan_of_some {xs : List α} {t : τ} {n : Nat} (h : S.next xs = some (t, n)) :
    S.scan xs = (t :: (S.scan (xs.drop n)).1, (S.scan (xs.drop n)).2) := by
  rw [scan]
  split
  · next h' => rw [h] at h'; cases h'
  · next t' n' h' =>
      rw [h] at h'
      cases h'
      rfl

/-- The induction of `scan`: the scanner waits, or it reads one token and goes on. -/
theorem scan_induction {motive : List α → Prop}
    (wait : ∀ xs, S.next xs = none → motive xs)
    (token : ∀ xs t n, S.next xs = some (t, n) → motive (xs.drop n) → motive xs)
    (xs : List α) : motive xs := by
  cases h : S.next xs with
  | none => exact wait xs h
  | some r =>
      obtain ⟨t, n⟩ := r
      exact token xs t n h (scan_induction wait token (xs.drop n))
termination_by xs.length
decreasing_by exact S.drop_length_lt h

/-- The scanner waits on what `scan` leaves. -/
theorem next_scan_rest (xs : List α) : S.next (S.scan xs).2 = none := by
  induction xs using S.scan_induction with
  | wait xs h => rw [S.scan_of_none h]; exact h
  | token xs t n h ih => rw [S.scan_of_some h]; exact ih

/-- Scanning may stop anywhere and go on later with the unread rest. -/
theorem scan_append (xs ys : List α) :
    S.scan (xs ++ ys) =
      ((S.scan xs).1 ++ (S.scan ((S.scan xs).2 ++ ys)).1, (S.scan ((S.scan xs).2 ++ ys)).2) := by
  induction xs using S.scan_induction with
  | wait xs h => rw [S.scan_of_none h]; rfl
  | token xs t n h ih =>
      have hdrop : (xs ++ ys).drop n = xs.drop n ++ ys :=
        List.drop_append_of_le_length (S.le_length h)
      rw [S.scan_of_some h, S.scan_of_some (S.stable ys h), hdrop, ih]
      rfl

/-- What holds of every token the scanner can read holds of all it reads. -/
theorem scan_forall {P : τ → Prop} (hP : ∀ {xs t n}, S.next xs = some (t, n) → P t)
    (xs : List α) : ∀ t ∈ (S.scan xs).1, P t := by
  induction xs using S.scan_induction with
  | wait xs h =>
      rw [S.scan_of_none h]
      intro t ht
      cases ht
  | token xs u n h ih =>
      rw [S.scan_of_some h]
      intro t ht
      cases List.mem_cons.mp ht with
      | inl he => exact he ▸ hP h
      | inr ht' => exact ih t ht'

/-! ## Rendering -/

/-- Every token is read off exactly the symbols that `render` gives it. -/
def Renders (render : τ → List α) : Prop :=
  ∀ {xs t n}, S.next xs = some (t, n) → xs.take n = render t

/-- Nothing is lost: the tokens and the rest spell the input. -/
theorem scan_conserves {render : τ → List α} (hr : S.Renders render) (xs : List α) :
    (S.scan xs).1.flatMap render ++ (S.scan xs).2 = xs := by
  induction xs using S.scan_induction with
  | wait xs h => rw [S.scan_of_none h]; rfl
  | token xs t n h ih =>
      rw [S.scan_of_some h]
      calc (t :: (S.scan (xs.drop n)).1).flatMap render ++ (S.scan (xs.drop n)).2
          = render t ++ ((S.scan (xs.drop n)).1.flatMap render ++ (S.scan (xs.drop n)).2) := by
            rw [List.flatMap_cons, List.append_assoc]
        _ = xs.take n ++ xs.drop n := by rw [ih, hr h]
        _ = xs := List.take_append_drop n xs

/-- A token lies over every place up to which the scanner never has to wait. -/
theorem scan_covers {render : τ → List α} (hr : S.Renders render) {xs : List α} {p : Nat}
    (h : ∀ q ≤ p, S.next (xs.drop q) ≠ none) :
    ∃ ts t ts' rest, (S.scan xs).1 = ts ++ t :: ts' ∧
      xs = ts.flatMap render ++ (render t ++ rest) ∧
      S.next (render t ++ rest) = some (t, (render t).length) ∧
      (ts.flatMap render).length ≤ p ∧ p < (ts.flatMap render).length + (render t).length := by
  induction xs using S.scan_induction generalizing p with
  | wait xs hwait => exact absurd hwait (h 0 (Nat.zero_le p))
  | token xs t n hnext ih =>
      have hsplit : xs = render t ++ xs.drop n := by
        rw [← hr hnext, List.take_append_drop]
      have hlength : (render t).length = n := by
        rw [← hr hnext, List.length_take, Nat.min_eq_left (S.le_length hnext)]
      rw [S.scan_of_some hnext]
      by_cases hp : p < n
      · refine ⟨[], t, _, xs.drop n, rfl, hsplit, ?_, Nat.zero_le p, ?_⟩
        · rw [← hsplit, hlength]
          exact hnext
        · rw [List.flatMap_nil, List.length_nil, Nat.zero_add, hlength]
          exact hp
      · -- The place lies behind this token.
        have hrest : ∀ q ≤ p - n, S.next ((xs.drop n).drop q) ≠ none := by
          intro q hq
          rw [List.drop_drop]
          exact h (n + q) (by omega)
        obtain ⟨ts, u, ts', rest, hscan, hxs, hnext', hle, hlt⟩ := ih hrest
        refine ⟨t :: ts, u, ts', rest, ?_, ?_, hnext', ?_, ?_⟩
        · rw [hscan]
          rfl
        · rw [List.flatMap_cons, List.append_assoc, ← hxs]
          exact hsplit
        · rw [List.flatMap_cons, List.length_append, hlength]
          omega
        · rw [List.flatMap_cons, List.length_append, hlength]
          omega

/-- `t` is read back whenever its rendering stands at the front. -/
def ReadsBack (render : τ → List α) (t : τ) : Prop :=
  ∀ zs, S.next (render t ++ zs) = some (t, (render t).length)

/-- A stream rendered from tokens that read back scans to those tokens. -/
theorem scan_render {render : τ → List α} (ts : List τ)
    (hts : ∀ t ∈ ts, S.ReadsBack render t) (ys : List α) :
    S.scan (ts.flatMap render ++ ys) = (ts ++ (S.scan ys).1, (S.scan ys).2) := by
  induction ts with
  | nil => rfl
  | cons t ts ih =>
      have ht := hts t List.mem_cons_self (ts.flatMap render ++ ys)
      have hrest : (render t ++ (ts.flatMap render ++ ys)).drop (render t).length
          = ts.flatMap render ++ ys := List.drop_left
      rw [List.flatMap_cons, List.append_assoc, S.scan_of_some ht, hrest,
        ih fun u hu => hts u (List.mem_cons_of_mem _ hu)]
      rfl

/-! ## Buffered reading -/

/-- One call of the buffered reader: scan the held symbols and the new ones, and
hold what is left. -/
def feed (held chunk : List α) : List τ × List α := S.scan (held ++ chunk)

/-- The calls for a list of chunks: all tokens, and what is held at the end. -/
def feedAll (held : List α) : List (List α) → List τ × List α
  | [] => ([], held)
  | c :: cs => ((S.feed held c).1 ++ (feedAll (S.feed held c).2 cs).1,
      (feedAll (S.feed held c).2 cs).2)

/-- A reader that waits on what it holds does not see how its input is cut. -/
theorem feedAll_eq_scan (chunks : List (List α)) :
    ∀ held, S.next held = none → S.feedAll held chunks = S.scan (held ++ chunks.flatten) := by
  induction chunks with
  | nil =>
      intro held hh
      rw [List.flatten_nil, List.append_nil, S.scan_of_none hh]
      rfl
  | cons c cs ih =>
      intro held _
      have hrest := ih (S.feed held c).2 (S.next_scan_rest (held ++ c))
      have hcut : held ++ (c :: cs).flatten = (held ++ c) ++ cs.flatten := by
        rw [List.flatten_cons, List.append_assoc]
      rw [hcut, S.scan_append, feedAll, hrest]
      rfl

end Scanner

end Incremental
