import IndustrialHmi.Theory.Json
import IndustrialHmi.Theory.Replacing
import Mathlib.Data.List.Perm.Basic
import Mathlib.Data.List.Nodup

/-!
# Message templates

A message is made from a template by putting values in for its placeholders.  The keys are taken
one after the other, and the loop of a key searches the text that the loops before it have left.
It goes on behind a value it has put in.  But a later key is looked for in the values of earlier
ones as well, and where a value and the text beside it meet.

What is wanted reads the template once (`read`) and fills in all values together.  The loops do
just that when no two placeholders of the template overlap, and in no half-filled template a
placeholder begins anywhere but at its own places (`simultaneous_iff`).
-/

namespace Config

open Replacing

/-! ## The loops -/

def placeholder (key : Text) : Text := 0x7B :: (key ++ [0x7D])

theorem placeholder_ne_nil (key : Text) : placeholder key ≠ [] := List.cons_ne_nil _ _

theorem length_placeholder (key : Text) : (placeholder key).length = key.length + 2 := by
  simp [placeholder]

/-- `std::string::find`. -/
def find (s pat : Text) (pos : Nat) : Option Nat := (firstAt pat (s.drop pos)).map (pos + ·)

/-- `std::string::replace`. -/
def replace (s : Text) (pos len : Nat) (t : Text) : Text := s.take pos ++ (t ++ s.drop (pos + len))

theorem find_bounds {s pat : Text} {pos i : Nat} (hpat : pat ≠ []) (h : find s pat pos = some i) :
    pos ≤ i ∧ i + pat.length ≤ s.length := by
  have hpos := List.length_pos_of_ne_nil hpat
  rcases firstAt_cases pat (s.drop pos) with ⟨hnone, -⟩ | ⟨front, rest, hs, hsome, -⟩
  · rw [find, hnone] at h
    cases h
  · rw [find, hsome, Option.map_some, Option.some.injEq] at h
    have hlength := congrArg List.length hs
    rw [List.length_drop, List.length_append, List.length_append] at hlength
    omega

/-- The loop of one key: the texts it passes over before each replacement, and what it leaves. -/
def substitute (key value result : Text) (pos : Nat) : List Text × Text :=
  match _ : find result (placeholder key) pos with
  | none => ([], result)
  | some i =>
      let r := substitute key value (replace result i (placeholder key).length value)
        (i + value.length)
      ((result.drop pos).take (i - pos) :: r.1, r.2)
termination_by result.length - pos
decreasing_by
  obtain ⟨hle, hlength⟩ := find_bounds (placeholder_ne_nil key) ‹find _ _ _ = some i›
  have hpos := length_placeholder key
  simp only [replace, List.length_append, List.length_take, List.length_drop]
  omega

def substituteAll (result : Text) (entries : List (Text × Text)) : Text :=
  entries.foldl (fun result e => (substitute e.1 e.2 result 0).2) result

/-- A map from keys to values, its entries in the order of the keys. -/
structure Vars where
  entries : List (Text × Text)
  sorted : (entries.map Prod.fst).Pairwise (· < ·)

def formatMessage (templateStr : Text) (vars : Vars) : Text :=
  substituteAll templateStr vars.entries

theorem find_at {pat after : Text} {i : Nat} {done : Text} (h : firstAt pat after = some i) :
    find (done ++ after) pat done.length = some (done.length + i) := by
  rw [find, List.drop_left, h]
  rfl

theorem find_none {pat after done : Text} (h : firstAt pat after = none) :
    find (done ++ after) pat done.length = none := by
  rw [find, List.drop_left, h]
  rfl

theorem replace_at (done front pat value after : Text) :
    replace (done ++ (front ++ (pat ++ after))) (done.length + front.length) pat.length value =
      (done ++ front ++ value) ++ after := by
  rw [replace, ← List.append_assoc done, ← List.length_append, List.take_left,
    ← List.drop_drop, List.drop_left, List.drop_left, List.append_assoc (done ++ front)]

theorem substitute_of_none {key value result : Text} {pos : Nat}
    (h : find result (placeholder key) pos = none) :
    substitute key value result pos = ([], result) := by
  unfold substitute
  split
  · rfl
  · next i hi =>
      rw [h] at hi
      cases hi

theorem substitute_of_some {key value result : Text} {pos i : Nat}
    (h : find result (placeholder key) pos = some i) :
    substitute key value result pos =
      let r := substitute key value (replace result i (placeholder key).length value)
        (i + value.length)
      ((result.drop pos).take (i - pos) :: r.1, r.2) := by
  rw [substitute]
  split
  · next hi =>
      rw [h] at hi
      cases hi
  · next j hj =>
      rw [h] at hj
      cases hj
      rfl

/-- The loop takes the occurrences between the gaps of a clean split. -/
theorem substitute_clean {key : Text} {s : Split UInt8} (hs : s.Clean (placeholder key))
    (value done : Text) :
    substitute key value (done ++ s.fill (placeholder key)) done.length =
      (s.gaps, done ++ s.fill value) := by
  induction s generalizing done with
  | last rest => exact substitute_of_none (find_none (firstAt_rest hs))
  | gap front s ih =>
      obtain ⟨havoids, hclean⟩ := hs
      have hlength : done.length + front.length + value.length =
          (done ++ front ++ value).length := by
        rw [List.length_append, List.length_append]
      rw [Split.fill, substitute_of_some
        (find_at (firstAt_gap (placeholder_ne_nil key) havoids)), replace_at, hlength,
        ih hclean, List.drop_left, Nat.add_sub_cancel_left, List.take_left, Split.gaps,
        Split.fill, List.append_assoc, List.append_assoc]

/-! ## Reading a template -/

/-- A byte of a template, or a placeholder and its value. -/
inductive Piece where
  | text (c : UInt8)
  | hole (key value : Text)

namespace Piece

def source : Piece → Text
  | text c => [c]
  | hole key _ => placeholder key

def target : Piece → Text
  | text c => [c]
  | hole _ value => value

/-- What stands there when some keys are filled in. -/
def stage (filled : List Text) : Piece → Text
  | text c => [c]
  | hole key value => if key ∈ filled then value else placeholder key

end Piece

/-- A template is read once, from the left. -/
def read (entries : List (Text × Text)) : Text → List Piece
  | [] => []
  | c :: rest =>
      match entries.find? fun e => placeholder e.1 <+: c :: rest with
      | some (key, value) =>
          .hole key value :: read entries (rest.drop (key.length + 1))
      | none => .text c :: read entries rest
termination_by t => t.length
decreasing_by
  · simp only [List.length_drop, List.length_cons]
    omega
  · exact Nat.lt_succ_self _

/-- No two placeholders of the keys overlap in a template. -/
def NoOverlap (keys : List Text) (template : Text) : Prop :=
  ∀ key ∈ keys, ∀ key' ∈ keys, ∀ i j, i ≤ j → placeholder key <+: template.drop i →
    placeholder key' <+: template.drop j → i = j ∧ key = key' ∨ i + (placeholder key).length ≤ j

/-- Every placeholder of a key that stands in the template is read as one. -/
def Complete (entries : List (Text × Text)) (template : Text) : Prop :=
  ∀ key ∈ entries.map Prod.fst, ∀ before after, template = before ++ (placeholder key ++ after) →
    ∃ ps value qs, read entries template = ps ++ .hole key value :: qs ∧
      ps.flatMap Piece.source = before

/-- What is read first: a placeholder with its value, or a byte at which none begins. -/
theorem read_cases (entries : List (Text × Text)) (c : UInt8) (rest : Text) :
    (∃ key value after, (key, value) ∈ entries ∧ c :: rest = placeholder key ++ after ∧
        read entries (c :: rest) = .hole key value :: read entries after) ∨
      (∀ e ∈ entries, ¬placeholder e.1 <+: c :: rest) ∧
        read entries (c :: rest) = .text c :: read entries rest := by
  rw [read]
  split
  · next key value hfind =>
      have hbegins := List.find?_some hfind
      obtain ⟨after, hafter⟩ := of_decide_eq_true hbegins
      refine Or.inl ⟨key, value, after, List.mem_of_find?_eq_some hfind, hafter.symm, ?_⟩
      have hrest : rest = key ++ [0x7D] ++ after := (List.cons.inj hafter).2.symm
      have hlength : key.length + 1 = (key ++ [0x7D]).length := by
        rw [List.length_append, List.length_singleton]
      rw [hrest, hlength, List.drop_left]
  · next hfind =>
      refine Or.inr ⟨fun e he => ?_, rfl⟩
      exact of_decide_eq_false (Bool.eq_false_iff.mpr (List.find?_eq_none.mp hfind e he))

/-- Induction along the reading of a template. -/
theorem read_induction {entries : List (Text × Text)} {motive : Text → Prop} (nil : motive [])
    (hole : ∀ key value after, (key, value) ∈ entries →
      read entries (placeholder key ++ after) = .hole key value :: read entries after →
      motive after → motive (placeholder key ++ after))
    (text : ∀ c rest, (∀ e ∈ entries, ¬placeholder e.1 <+: c :: rest) →
      read entries (c :: rest) = .text c :: read entries rest → motive rest → motive (c :: rest))
    (template : Text) : motive template := by
  induction h : template.length using Nat.strong_induction_on generalizing template with
  | _ n ih =>
      cases template with
      | nil => exact nil
      | cons c rest =>
          rcases read_cases entries c rest with
            ⟨key, value, after, he, hsplit, hread⟩ | ⟨hno, hread⟩
          · have hlength := congrArg List.length hsplit
            rw [List.length_append, length_placeholder] at hlength
            rw [hsplit] at hread ⊢
            exact hole key value after he hread (ih after.length (by omega) after rfl)
          · have hlt : rest.length < n := by
              rw [← h]
              exact Nat.lt_succ_self _
            exact text c rest hno hread (ih rest.length hlt rest rfl)

theorem source_read (entries : List (Text × Text)) (template : Text) :
    (read entries template).flatMap Piece.source = template := by
  induction template using @read_induction entries with
  | nil => rw [read]; rfl
  | hole key value after he hread ih => rw [hread, List.flatMap_cons, ih]; rfl
  | text c rest hno hread ih => rw [hread, List.flatMap_cons, ih]; rfl

theorem mem_read {entries : List (Text × Text)} {template key value : Text}
    (h : Piece.hole key value ∈ read entries template) : (key, value) ∈ entries := by
  induction template using @read_induction entries with
  | nil =>
      rw [read] at h
      cases h
  | hole key' value' after he hread ih =>
      rw [hread] at h
      rcases List.mem_cons.mp h with heq | h
      · cases heq
        exact he
      · exact ih h
  | text c rest hno hread ih =>
      rw [hread] at h
      rcases List.mem_cons.mp h with heq | h
      · cases heq
      · exact ih h

/-! ## Overlaps -/

theorem NoOverlap.drop {keys : List Text} {template : Text} (h : NoOverlap keys template)
    (n : Nat) : NoOverlap keys (template.drop n) := by
  intro key hkey key' hkey' i j hij hi hj
  rw [List.drop_drop] at hi hj
  rcases h key hkey key' hkey' (n + i) (n + j) (by omega) hi hj with ⟨heq, hkeys⟩ | hle
  · exact Or.inl ⟨Nat.add_left_cancel heq, hkeys⟩
  · exact Or.inr (by omega)

theorem NoOverlap.append_right {keys : List Text} {before after : Text}
    (h : NoOverlap keys (before ++ after)) : NoOverlap keys after := by
  have hdrop := h.drop before.length
  rwa [List.drop_left] at hdrop

/-- Of two that begin at the same place there is one. -/
theorem NoOverlap.eq {keys : List Text} {template key key' : Text} (h : NoOverlap keys template)
    (hkey : key ∈ keys) (hkey' : key' ∈ keys) (hbegins : placeholder key <+: template)
    (hbegins' : placeholder key' <+: template) : key = key' := by
  have hlength := length_placeholder key
  rcases h key hkey key' hkey' 0 0 (Nat.le_refl 0) hbegins hbegins' with ⟨-, heq⟩ | hle
  · exact heq
  · omega

/-- A key without a closing brace is what is in front of the first one. -/
theorem takeWhile_key {key : Text} (hfree : 0x7D ∉ key) (rest : Text) :
    (key ++ 0x7D :: rest).takeWhile (· != 0x7D) = key := by
  have hrun : ∀ c ∈ key, (c != 0x7D) = true := by
    intro c hc
    rw [bne_iff_ne]
    rintro rfl
    exact hfree hc
  rw [List.takeWhile_append_of_pos hrun]
  exact List.append_nil key

/-- Inside of a placeholder whose key has no opening brace, none begins. -/
theorem not_begins_inside {key key' after : Text} (hfree : 0x7B ∉ key) {n : Nat}
    (hn : n < key.length + 1) :
    ¬placeholder key' <+: (placeholder key ++ after).drop (n + 1) := by
  rintro ⟨after', h⟩
  have hdrop : (placeholder key ++ after).drop (n + 1) = (key ++ [0x7D]).drop n ++ after :=
    @List.drop_append_of_le_length _ (key ++ [0x7D]) after n (by
      rw [List.length_append, List.length_singleton]
      omega)
  rw [hdrop] at h
  cases hrest : (key ++ [0x7D]).drop n with
  | nil =>
      have hlength := congrArg List.length hrest
      rw [List.length_drop, List.length_append, List.length_singleton, List.length_nil] at hlength
      omega
  | cons c rest =>
      have hmem : c ∈ key ++ [0x7D] := List.mem_of_mem_drop (hrest ▸ List.mem_cons_self)
      rw [hrest] at h
      obtain rfl : 0x7B = c := (List.cons.inj h).1
      rcases List.mem_append.mp hmem with hin | hin
      · exact hfree hin
      · exact absurd (List.mem_singleton.mp hin) (by decide)

/-- Placeholders of keys without braces do not overlap. -/
theorem noOverlap_of_braceless {keys : List Text} (h : ∀ key ∈ keys, 0x7B ∉ key ∧ 0x7D ∉ key)
    (template : Text) : NoOverlap keys template := by
  rintro key hkey key' hkey' i j hij ⟨after, hi⟩ hj
  obtain ⟨n, rfl⟩ := Nat.exists_eq_add_of_le hij
  rw [← List.drop_drop, ← hi] at hj
  cases n with
  | zero =>
      obtain ⟨after', hj⟩ := hj
      have hwhole : key' ++ 0x7D :: after' = key ++ 0x7D :: after := by
        simpa [placeholder] using hj
      refine Or.inl ⟨rfl, ?_⟩
      rw [← takeWhile_key (h key hkey).2 after, ← hwhole, takeWhile_key (h key' hkey').2]
  | succ n =>
      right
      by_contra hlt
      rw [length_placeholder] at hlt
      exact not_begins_inside (h key hkey).1 (by omega) hj

/-- Pieces in front of a placeholder are those in front of another, or that one is behind it. -/
theorem noOverlap_of_complete {entries : List (Text × Text)} {template : Text}
    (h : Complete entries template) : NoOverlap (entries.map Prod.fst) template := by
  have hread : ∀ key ∈ entries.map Prod.fst, ∀ i, placeholder key <+: template.drop i →
      ∃ ps value qs, read entries template = ps ++ .hole key value :: qs ∧
        (ps.flatMap Piece.source).length = i := by
    rintro key hkey i ⟨after, hafter⟩
    have hi : i ≤ template.length := by
      by_contra hi
      rw [List.drop_eq_nil_of_le (by omega)] at hafter
      exact List.cons_ne_nil _ _ hafter
    obtain ⟨ps, value, qs, hps, hsource⟩ := h key hkey (template.take i) after (by
      rw [hafter, List.take_append_drop])
    exact ⟨ps, value, qs, hps, by rw [hsource, List.length_take, Nat.min_eq_left hi]⟩
  intro key hkey key' hkey' i j hij hi hj
  obtain ⟨ps, value, qs, hps, rfl⟩ := hread key hkey i hi
  obtain ⟨ps', value', qs', hps', rfl⟩ := hread key' hkey' j hj
  have hpos := length_placeholder key'
  rcases List.append_eq_append_iff.mp (hps.symm.trans hps') with ⟨as, rfl, has⟩ | ⟨as, rfl, has⟩
  · cases as with
    | nil =>
        cases has
        exact Or.inl ⟨by rw [List.append_nil], rfl⟩
    | cons a as =>
        cases has
        right
        simp only [List.flatMap_append, List.flatMap_cons, List.length_append, Piece.source]
        omega
  · cases as with
    | nil =>
        cases has
        exact Or.inl ⟨by rw [List.append_nil], rfl⟩
    | cons a as =>
        cases has
        simp only [List.flatMap_append, List.flatMap_cons, List.length_append, Piece.source] at hij
        omega

theorem complete_of_noOverlap {entries : List (Text × Text)} {template : Text}
    (h : NoOverlap (entries.map Prod.fst) template) : Complete entries template := by
  intro key hkey
  induction template using @read_induction entries with
  | nil => exact fun before after hsplit => by simp [placeholder] at hsplit
  | hole key' value after' he hread ih =>
      intro before after hsplit
      have hkey' : key' ∈ entries.map Prod.fst := List.mem_map_of_mem he
      have hfirst : placeholder key' <+: placeholder key' ++ after' := List.prefix_append _ _
      have hsecond : placeholder key <+: (placeholder key' ++ after').drop before.length := by
        rw [hsplit, List.drop_left]
        exact List.prefix_append _ _
      rcases h key' hkey' key hkey 0 before.length (Nat.zero_le _) hfirst hsecond with
        ⟨hzero, rfl⟩ | hle
      · obtain rfl := List.eq_nil_of_length_eq_zero hzero.symm
        exact ⟨[], value, _, hread, rfl⟩
      · rw [Nat.zero_add] at hle
        obtain ⟨before', rfl⟩ : placeholder key' <+: before :=
          List.prefix_of_prefix_length_le hfirst (hsplit ▸ List.prefix_append before _) hle
        rw [List.append_assoc] at hsplit
        obtain ⟨ps, value', qs, hps, hsource⟩ := ih h.append_right before' after
          (List.append_cancel_left hsplit)
        refine ⟨.hole key' value :: ps, value', qs, by rw [hread, hps]; rfl, ?_⟩
        rw [List.flatMap_cons, hsource]
        rfl
  | text c rest hno hread ih =>
      intro before after hsplit
      cases before with
      | nil =>
          obtain ⟨e, he, rfl⟩ := List.mem_map.mp hkey
          exact absurd ⟨after, hsplit.symm⟩ (hno e he)
      | cons d before =>
          obtain ⟨rfl, hrest⟩ := List.cons.inj hsplit
          obtain ⟨ps, value, qs, hps, hsource⟩ := ih (h.drop 1) before after hrest
          exact ⟨.text c :: ps, value, qs, by rw [hread, hps]; rfl,
            congrArg (c :: ·) hsource⟩

/-- The order of the keys does not matter. -/
theorem read_perm {entries entries' : List (Text × Text)} (hperm : entries'.Perm entries)
    (hkeys : (entries.map Prod.fst).Nodup) {template : Text}
    (h : NoOverlap (entries.map Prod.fst) template) :
    read entries' template = read entries template := by
  induction template using @read_induction entries with
  | nil => rw [read, read]
  | hole key value after he hread ih =>
      have hkey : key ∈ entries.map Prod.fst := List.mem_map_of_mem he
      rcases read_cases entries' 0x7B (key ++ [0x7D] ++ after) with
        ⟨key', value', after', he', hsplit, hread'⟩ | ⟨hno, -⟩
      · have hmem := hperm.mem_iff.mp he'
        obtain rfl : key = key' := h.eq hkey (List.mem_map_of_mem hmem)
          (List.prefix_append _ _) ⟨after', hsplit.symm⟩
        obtain rfl : value = value' :=
          congrArg Prod.snd (List.inj_on_of_nodup_map hkeys he hmem rfl)
        have hwhole : placeholder key ++ after = placeholder key ++ after' := hsplit
        obtain rfl := List.append_cancel_left hwhole
        rw [hread, ← ih h.append_right]
        exact hread'
      · exact absurd (List.prefix_append (placeholder key) after) (hno _ (hperm.mem_iff.mpr he))
  | text c rest hno hread ih =>
      rcases read_cases entries' c rest with ⟨key, value, after, he, hsplit, -⟩ | ⟨-, hread'⟩
      · exact absurd ⟨after, hsplit.symm⟩ (hno _ (hperm.mem_iff.mp he))
      · rw [hread, hread', ih (h.drop 1)]

/-! ## Filling in the keys -/

/-- The places of a key in a template in which some keys are filled in. -/
def splitAt (key : Text) (filled : List Text) : List Piece → Split UInt8
  | [] => .last []
  | .text c :: ps => (splitAt key filled ps).push [c]
  | .hole key' value :: ps =>
      if key' = key then .gap [] (splitAt key filled ps)
      else (splitAt key filled ps).push (if key' ∈ filled then value else placeholder key')

section

variable {key : Text} {filled : List Text}

theorem fill_splitAt_placeholder (hkey : key ∉ filled) (pieces : List Piece) :
    (splitAt key filled pieces).fill (placeholder key) =
      pieces.flatMap (Piece.stage filled) := by
  induction pieces with
  | nil => rfl
  | cons piece pieces ih =>
      cases piece with
      | text c => rw [splitAt, Split.fill_push, ih, List.flatMap_cons, Piece.stage]
      | hole key' value =>
          rw [splitAt, List.flatMap_cons, Piece.stage]
          by_cases heq : key' = key
          · subst heq
            rw [if_pos rfl, if_neg hkey, Split.fill, ih, List.nil_append]
          · rw [if_neg heq, Split.fill_push, ih]

theorem fill_splitAt_value {value : Text} {pieces : List Piece}
    (hvalue : ∀ value', Piece.hole key value' ∈ pieces → value' = value) :
    (splitAt key filled pieces).fill value =
      pieces.flatMap (Piece.stage (filled ++ [key])) := by
  induction pieces with
  | nil => rfl
  | cons piece pieces ih =>
      have hrest := ih fun value' h => hvalue value' (List.mem_cons_of_mem piece h)
      cases piece with
      | text c => rw [splitAt, Split.fill_push, hrest, List.flatMap_cons, Piece.stage]
      | hole key' value' =>
          rw [splitAt, List.flatMap_cons, Piece.stage]
          by_cases heq : key' = key
          · subst heq
            rw [if_pos rfl, if_pos (List.mem_append_right _ (List.mem_singleton_self _)),
              Split.fill, hrest, hvalue value' List.mem_cons_self, List.nil_append]
          · have hmem : key' ∈ filled ++ [key] ↔ key' ∈ filled := by simp [heq]
            simp only [if_neg heq, Split.fill_push, hrest, hmem]

/-- The loop of a key passes over what is between its places exactly when its placeholder begins
nowhere else. -/
theorem passes_iff (hkey : key ∉ filled) (pieces : List Piece) (value : Text) :
    (substitute key value (pieces.flatMap (Piece.stage filled)) 0).1 =
        (splitAt key filled pieces).gaps ↔
      (splitAt key filled pieces).Clean (placeholder key) := by
  rw [← fill_splitAt_placeholder hkey]
  constructor
  · intro hgaps
    obtain ⟨s, hfill, hclean⟩ := exists_clean (placeholder_ne_nil key)
      ((splitAt key filled pieces).fill (placeholder key))
    have hloop := substitute_clean hclean value []
    rw [hfill] at hloop
    have hsame : s.gaps = (splitAt key filled pieces).gaps :=
      (congrArg Prod.fst hloop).symm.trans hgaps
    rwa [← Split.eq_of_gaps hsame hfill]
  · exact fun hclean => congrArg Prod.fst (substitute_clean hclean value [])

theorem substitute_stage (hkey : key ∉ filled) {pieces : List Piece} {value : Text}
    (hvalue : ∀ value', Piece.hole key value' ∈ pieces → value' = value)
    (hclean : (splitAt key filled pieces).Clean (placeholder key)) :
    (substitute key value (pieces.flatMap (Piece.stage filled)) 0).2 =
      pieces.flatMap (Piece.stage (filled ++ [key])) := by
  rw [← fill_splitAt_placeholder hkey, ← fill_splitAt_value hvalue]
  exact congrArg Prod.snd (substitute_clean hclean value [])

end

/-- When the loop of a key comes, its placeholder begins nowhere but at its places. -/
def CleanAt (pieces : List Piece) (before : List (Text × Text)) (key : Text) : Prop :=
  (splitAt key (before.map Prod.fst) pieces).Clean (placeholder key)

theorem key_notMem {entries before after : List (Text × Text)} {key value : Text}
    (hkeys : (entries.map Prod.fst).Nodup) (h : entries = before ++ (key, value) :: after) :
    key ∉ before.map Prod.fst := by
  rw [h, List.map_append, List.map_cons] at hkeys
  exact fun hmem => List.disjoint_of_nodup_append hkeys hmem List.mem_cons_self

/-- The loops up to a key leave the template with the keys before it filled in. -/
theorem substituteAll_stage {entries : List (Text × Text)} {pieces : List Piece}
    (hkeys : (entries.map Prod.fst).Nodup)
    (hmem : ∀ key value, Piece.hole key value ∈ pieces → (key, value) ∈ entries)
    (before : List (Text × Text)) : ∀ after, entries = before ++ after →
      (∀ b key value a, before = b ++ (key, value) :: a → CleanAt pieces b key) →
      substituteAll (pieces.flatMap Piece.source) before =
        pieces.flatMap (Piece.stage (before.map Prod.fst)) := by
  induction before using List.reverseRecOn with
  | nil =>
      intro after _ _
      have hstage : Piece.stage [] = Piece.source := by
        funext piece
        cases piece <;> rfl
      rw [List.map_nil, hstage]
      rfl
  | append_singleton before e ih =>
      intro after hentries hclean
      obtain ⟨key, value⟩ := e
      rw [List.append_assoc, List.singleton_append] at hentries
      have hbefore := ih _ hentries fun b key' value' a hb =>
        hclean b key' value' (a ++ [(key, value)]) (by rw [hb, List.append_assoc]; rfl)
      have hvalue : ∀ value', Piece.hole key value' ∈ pieces → value' = value := by
        intro value' h
        have he : (key, value) ∈ entries := by
          rw [hentries]
          exact List.mem_append_right _ List.mem_cons_self
        exact congrArg Prod.snd (List.inj_on_of_nodup_map hkeys (hmem key value' h) he rfl)
      have hnext : ∀ result, substituteAll result (before ++ [(key, value)]) =
          (substitute key value (substituteAll result before) 0).2 :=
        fun result => List.foldl_append
      rw [hnext, hbefore, List.map_append]
      exact substitute_stage (key_notMem hkeys hentries) hvalue (hclean before key value [] rfl)

theorem stage_all {entries : List (Text × Text)} {pieces : List Piece}
    (hmem : ∀ key value, Piece.hole key value ∈ pieces → (key, value) ∈ entries) :
    pieces.flatMap (Piece.stage (entries.map Prod.fst)) = pieces.flatMap Piece.target := by
  refine List.flatMap_congr fun piece hpiece => ?_
  cases piece with
  | text c => rfl
  | hole key value => exact if_pos (List.mem_map_of_mem (hmem key value hpiece))

/-! ## All keys together -/

theorem Vars.nodup (vars : Vars) : (vars.entries.map Prod.fst).Nodup := by
  refine vars.sorted.imp ?_
  rintro key _ h rfl
  exact List.lt_irrefl key h

/-- The values are put in together: every placeholder of the template is replaced, the order of
the keys does not matter, and each loop takes what the template has of its key. -/
structure Simultaneous (template : Text) (vars : Vars) : Prop where
  complete : Complete vars.entries template
  result : ∀ entries, entries.Perm vars.entries →
    formatMessage template vars = (read entries template).flatMap Piece.target
  passes : ∀ before key value after, vars.entries = before ++ (key, value) :: after →
    (substitute key value (substituteAll template before) 0).1 =
      (splitAt key (before.map Prod.fst) (read vars.entries template)).gaps

theorem simultaneous_of_clean {template : Text} {vars : Vars}
    (hoverlap : NoOverlap (vars.entries.map Prod.fst) template)
    (hclean : ∀ before key value after, vars.entries = before ++ (key, value) :: after →
      CleanAt (read vars.entries template) before key) : Simultaneous template vars where
  complete := complete_of_noOverlap hoverlap
  result entries hperm := by
    have hrun := substituteAll_stage vars.nodup (fun key value => mem_read) vars.entries []
      (List.append_nil _).symm hclean
    rw [source_read] at hrun
    rw [read_perm hperm vars.nodup hoverlap, ← stage_all fun key value => mem_read]
    exact hrun
  passes before key value after h := by
    have hrun := substituteAll_stage vars.nodup (fun key value => mem_read) before _ h
      fun b key' value' a hb => hclean b key' value' (a ++ (key, value) :: after) (by
        rw [h, hb, List.append_assoc]; rfl)
    rw [source_read] at hrun
    rw [hrun, passes_iff (key_notMem vars.nodup h)]
    exact hclean before key value after h

theorem clean_of_simultaneous {template : Text} {vars : Vars} (h : Simultaneous template vars) :
    ∀ n before, before.length = n → ∀ key value after,
      vars.entries = before ++ (key, value) :: after →
        CleanAt (read vars.entries template) before key := by
  intro n
  induction n using Nat.strong_induction_on with
  | _ n ih =>
      intro before hn key value after hentries
      have hrun := substituteAll_stage vars.nodup (fun key value => mem_read) before _ hentries
        fun b key' value' a hb => ih b.length
          (by
            rw [← hn, hb, List.length_append, List.length_cons]
            omega)
          b rfl key' value' (a ++ (key, value) :: after) (by
            rw [hentries, hb, List.append_assoc]; rfl)
      rw [source_read] at hrun
      have hpasses := h.passes before key value after hentries
      rwa [hrun, passes_iff (key_notMem vars.nodup hentries)] at hpasses

/-- The values are put in together exactly when no two placeholders of the template overlap, and,
while the keys are filled in one after the other, the placeholder of a key begins nowhere but at
its places in the template. -/
theorem simultaneous_iff (template : Text) (vars : Vars) :
    Simultaneous template vars ↔
      NoOverlap (vars.entries.map Prod.fst) template ∧
        ∀ before key value after, vars.entries = before ++ (key, value) :: after →
          (splitAt key (before.map Prod.fst) (read vars.entries template)).Clean
            (placeholder key) := by
  constructor
  · intro h
    exact ⟨noOverlap_of_complete h.complete, fun before key value after hentries =>
      clean_of_simultaneous h _ before rfl key value after hentries⟩
  · rintro ⟨hoverlap, hclean⟩
    exact simultaneous_of_clean hoverlap hclean

/-- A value that is the placeholder of the next key. -/
def chained : Vars where
  entries := [(ascii "a", ascii "{b}"), (ascii "b", ascii "x")]
  sorted := by decide

theorem formatMessage_chained : formatMessage (ascii "{a}") chained = ascii "x" := by
  have hfirst := @substitute_clean (ascii "a") (.gap [] (.last [])) (by decide) (ascii "{b}") []
  have hsecond := @substitute_clean (ascii "b") (.gap [] (.last [])) (by decide) (ascii "x") []
  have hloops : formatMessage (ascii "{a}") chained =
      (substitute (ascii "b") (ascii "x")
        (substitute (ascii "a") (ascii "{b}") (ascii "{a}") 0).2 0).2 := rfl
  rw [hloops]
  exact (congrArg (fun r => (substitute (ascii "b") (ascii "x") r.2 0).2) hfirst).trans
    (congrArg Prod.snd hsecond)

theorem not_simultaneous_chained : ¬Simultaneous (ascii "{a}") chained := by
  intro h
  have hresult := h.result chained.entries (List.Perm.refl _)
  rw [formatMessage_chained] at hresult
  rcases read_cases chained.entries 0x7B (ascii "a\x7d") with
    ⟨key, value, after, he, hsplit, hread⟩ | ⟨hno, -⟩
  · have htext : ascii "{a}" = 0x7B :: ascii "a\x7d" := rfl
    rw [htext, hread, List.flatMap_cons] at hresult
    rcases List.mem_cons.mp he with he | he
    · cases he
      exact absurd (List.cons.inj hresult).1 (by decide)
    · cases List.mem_singleton.mp he
      exact absurd (List.cons.inj (List.cons.inj hsplit).2).1 (by decide)
  · exact absurd (by decide) (hno (ascii "a", ascii "{b}") List.mem_cons_self)

end Config
