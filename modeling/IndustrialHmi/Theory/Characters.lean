import Mathlib.Data.List.TakeWhile

/-!
# The characters of a text

A text is bytes.  A lead byte and the continuation bytes behind it are one character, and every
other byte is one of its own.
-/

namespace Characters

def isContinuation (b : UInt8) : Bool := 0x80 ≤ b && b < 0xC0
def isLead (b : UInt8) : Bool := 0xC0 ≤ b

/-- The character is a continuation byte that no lead byte has taken. -/
def isLoose : List UInt8 → Bool
  | [b] => isContinuation b
  | _ => false

/-- The characters of a text with one more byte at its front. -/
def add (b : UInt8) (cs : List (List UInt8)) : List (List UInt8) :=
  if isLead b then (b :: (cs.takeWhile isLoose).flatten) :: cs.dropWhile isLoose else [b] :: cs

def chars : List UInt8 → List (List UInt8)
  | [] => []
  | b :: text => add b (chars text)

/-- What stops the characters before it. -/
theorem add_append {b : UInt8} {cs cs' : List (List UInt8)} {c : List UInt8}
    (hc : isLoose c = false) : add b (cs ++ c :: cs') = add b cs ++ c :: cs' := by
  have htake (l : List (List UInt8)) :
      (l ++ c :: cs').takeWhile isLoose = l.takeWhile isLoose := by
    induction l with
    | nil => rw [List.nil_append, List.takeWhile_cons, hc]; rfl
    | cons d l ih =>
        rw [List.cons_append, List.takeWhile_cons, List.takeWhile_cons, ih]
  have hdrop (l : List (List UInt8)) :
      (l ++ c :: cs').dropWhile isLoose = l.dropWhile isLoose ++ c :: cs' := by
    induction l with
    | nil => rw [List.nil_append, List.dropWhile_cons, hc]; rfl
    | cons d l ih =>
        rw [List.cons_append, List.dropWhile_cons, List.dropWhile_cons, ih]
        split <;> rfl
  unfold add
  split
  · rw [htake, hdrop]
    rfl
  · rfl

/-- A byte that is neither lead nor continuation stands alone between two texts. -/
theorem chars_append {b : UInt8} (hlead : isLead b = false) (hcont : isContinuation b = false)
    (text rest : List UInt8) : chars (text ++ b :: rest) = chars text ++ [b] :: chars rest := by
  induction text with
  | nil =>
      show add b (chars rest) = _
      rw [add, hlead, if_neg Bool.false_ne_true]
      rfl
  | cons b' text ih =>
      rw [List.cons_append, chars, ih, chars]
      exact add_append hcont

/-- The characters are the bytes of the text. -/
theorem flatten_chars (text : List UInt8) : (chars text).flatten = text := by
  induction text with
  | nil => rfl
  | cons b text ih =>
      rw [chars, add]
      split
      · rw [List.flatten_cons, List.cons_append, ← List.flatten_append,
          List.takeWhile_append_dropWhile, ih]
      · rw [List.flatten_cons, ih]
        rfl

/-- A character is one byte, or has lead and continuation bytes only. -/
theorem shape_of_mem_chars {text c : List UInt8} (h : c ∈ chars text) :
    (∃ b, c = [b]) ∨ ∀ b ∈ c, isLead b = true ∨ isContinuation b = true := by
  induction text with
  | nil => cases h
  | cons b text ih =>
      rw [chars, add] at h
      split at h
      next hlead =>
        rcases List.mem_cons.mp h with rfl | h
        · refine Or.inr fun b' hb' => ?_
          rcases List.mem_cons.mp hb' with rfl | hb'
          · exact Or.inl hlead
          · obtain ⟨d, hd, hmem⟩ := List.mem_flatten.mp hb'
            have hloose : isLoose d = true := List.mem_takeWhile_imp hd
            obtain _ | ⟨b'', _ | ⟨_, _⟩⟩ := d
            · cases hmem
            · exact Or.inr (List.mem_singleton.mp hmem ▸ hloose)
            · cases hloose
        · exact ih ((List.dropWhile_sublist _).subset h)
      next =>
        rcases List.mem_cons.mp h with rfl | h
        · exact Or.inl ⟨b, rfl⟩
        · exact ih h

/-- Bytes may be changed one by one, if what is lead or continuation stays so. -/
theorem chars_map {f : UInt8 → UInt8} (hlead : ∀ b, isLead (f b) = isLead b)
    (hcont : ∀ b, isContinuation (f b) = isContinuation b) (text : List UInt8) :
    chars (text.map f) = (chars text).map (List.map f) := by
  have hloose (c : List UInt8) : isLoose (c.map f) = isLoose c := by
    obtain _ | ⟨b, _ | ⟨b', c⟩⟩ := c
    · rfl
    · exact hcont b
    · rfl
  have hcomp : isLoose ∘ List.map f = isLoose := funext hloose
  induction text with
  | nil => rfl
  | cons b text ih =>
      rw [List.map_cons, chars, ih, chars, add, add, hlead]
      split
      · rw [List.takeWhile_map, List.dropWhile_map, hcomp, List.map_cons, List.map_cons,
          List.map_flatten]
      · rfl

end Characters
