import IndustrialHmi.Theory.Json

/-!
# Writing JSON

A value is written on one line or, with its items and members indented, on several.  A
string that is not well encoded cannot be written.  Control characters in strings are
escaped, so what is written on one line has no line break (`newline_not_mem_write`), and
what is written is well encoded itself (`wellEncoded_write`).
-/

namespace JsonText

def newline : UInt8 := 0x0A

/-! ## The writer -/

/-- A digit of four bits. -/
def hexDigit (n : UInt8) : UInt8 := if n < 10 then 0x30 + n else 0x57 + n

def escapeByte (b : UInt8) : Text :=
  if b = 0x08 then ascii "\\b"
  else if b = 0x09 then ascii "\\t"
  else if b = newline then ascii "\\n"
  else if b = 0x0C then ascii "\\f"
  else if b = 0x0D then ascii "\\r"
  else if b = quote then ascii "\\\""
  else if b = backslash then ascii "\\\\"
  else if b < 0x20 then ascii "\\u00" ++ [hexDigit (b / 16), hexDigit (b % 16)]
  else [b]

def escaped (s : Text) : Text := s.flatMap escapeByte

def quoted (s : Text) : Text := quote :: escaped s ++ [quote]

def lineBreak (pretty : Bool) (indent : Nat) : Text :=
  if pretty then newline :: List.replicate indent 0x20 else []

/-- The parts between brackets, with commas between them. -/
def enclose (opening closing : UInt8) (pretty : Bool) (indent : Nat) : List Text → Text
  | [] => [opening, closing]
  | part :: parts =>
      opening :: (lineBreak pretty (indent + 2) ++ part ++
        (parts.flatMap fun part => 0x2C :: (lineBreak pretty (indent + 2) ++ part)) ++
        lineBreak pretty indent ++ [closing])

mutual

def write : Json → Bool → Nat → Text
  | .null, _, _ => ascii "null"
  | .boolean b, _, _ => ascii (toString b)
  | .integer i, _, _ => ascii (toString i)
  | .unsigned n, _, _ => ascii (toString n)
  | .float d, _, _ => d.dump
  | .string s, _, _ => quoted s
  | .array items, pretty, indent =>
      enclose 0x5B 0x5D pretty indent (writeItems items pretty (indent + 2))
  | .object members, pretty, indent =>
      enclose 0x7B 0x7D pretty indent (writeMembers members pretty (indent + 2))

def writeItems : List Json → Bool → Nat → List Text
  | [], _, _ => []
  | j :: items, pretty, indent => write j pretty indent :: writeItems items pretty indent

def writeMembers : List (Text × Json) → Bool → Nat → List Text
  | [], _, _ => []
  | (name, j) :: members, pretty, indent =>
      (quoted name ++ (if pretty then ascii ": " else ascii ":") ++ write j pretty indent) ::
        writeMembers members pretty indent

end

/-! ## What is written -/

def Printable (t : Text) : Prop := t.All fun b => 0x20 ≤ b ∧ b < 0x80

instance (t : Text) : Decidable (Printable t) :=
  inferInstanceAs (Decidable (t.All fun b => 0x20 ≤ b ∧ b < 0x80))

theorem ascii_ofList (l : List Char) :
    ascii (String.ofList l) = l.flatMap String.utf8EncodeChar := by
  rw [ascii, String.toByteArray_ofList, List.utf8Encode, List.data_toByteArray]

theorem printable_append {a b : Text} (ha : Printable a) (hb : Printable b) :
    Printable (a ++ b) :=
  fun x hx => (List.mem_append.mp hx).elim (ha x) (hb x)

theorem printable_nat (n : Nat) : Printable (ascii (toString n)) := by
  intro b hb
  have hdigits : toString n = String.ofList (Nat.toDigits 10 n) := Nat.repr_eq_ofList_toDigits
  rw [hdigits, ascii_ofList, List.mem_flatMap] at hb
  obtain ⟨c, hc, hb⟩ := hb
  have hdigit : c.isDigit = true := Nat.isDigit_of_mem_toDigits (by decide) (by decide) hc
  have hbounds : 48 ≤ c.val.toNat ∧ c.val.toNat ≤ 57 := by
    simp only [Char.isDigit, Bool.and_eq_true, decide_eq_true_eq] at hdigit
    exact hdigit
  have hsize : c.val.toNat < UInt8.size := Nat.lt_of_le_of_lt hbounds.2 (by decide)
  rw [String.utf8EncodeChar, if_pos (by omega), List.mem_singleton] at hb
  have hlow : 0x20 ≤ UInt8.ofNat c.val.toNat :=
    (UInt8.ofNat_le_iff_le (a := 0x20) (by decide) hsize).mpr (by omega)
  have hhigh : UInt8.ofNat c.val.toNat < 0x80 :=
    (UInt8.ofNat_lt_iff_lt (b := 0x80) hsize (by decide)).mpr (by omega)
  exact hb ▸ ⟨hlow, hhigh⟩

theorem printable_int (i : ℤ) : Printable (ascii (toString i)) := by
  cases i with
  | ofNat n => exact printable_nat n
  | negSucc n =>
      have hspelled : ascii (toString (Int.negSucc n)) = ascii "-" ++ ascii (toString (n + 1)) := by
        have hstring : toString (Int.negSucc n) = "-" ++ toString (n + 1) := rfl
        rw [hstring, ascii, String.toByteArray_append, ByteArray.data_append,
          Array.toList_append]
        rfl
      rw [hspelled]
      exact printable_append (by decide) (printable_nat (n + 1))

/-- A property of texts that goes from parts to wholes, and that lines, numbers and quoted
strings have, is one of whatever is written. -/
structure Inherited (Q : Text → Prop) (pretty : Bool) : Prop where
  append : ∀ {a b}, Q a → Q b → Q (a ++ b)
  printable : ∀ {t}, Printable t → Q t
  plain : ∀ {t}, Plain t → Q t
  quoted : ∀ {s : Text}, s.WellEncoded → Q (quoted s)
  lineBreak : ∀ indent, Q (lineBreak pretty indent)

theorem Inherited.enclose {Q : Text → Prop} {pretty : Bool} (h : Inherited Q pretty)
    {opening closing : UInt8} (hopening : Printable [opening]) (hclosing : Printable [closing])
    {indent : Nat} {parts : List Text} (hparts : ∀ part ∈ parts, Q part) :
    Q (enclose opening closing pretty indent parts) := by
  have hflat : ∀ parts : List Text, (∀ part ∈ parts, Q part) →
      Q (parts.flatMap fun part => 0x2C :: (JsonText.lineBreak pretty (indent + 2) ++ part)) := by
    intro parts
    induction parts with
    | nil => exact fun _ => h.printable (t := []) (by decide)
    | cons part parts ih =>
        intro hparts
        rw [List.forall_mem_cons] at hparts
        refine h.append ?_ (ih hparts.2)
        exact h.append (a := [0x2C]) (h.printable (by decide))
          (h.append (h.lineBreak _) hparts.1)
  cases parts with
  | nil => exact h.append (h.printable hopening) (h.printable hclosing)
  | cons part parts =>
      rw [List.forall_mem_cons] at hparts
      refine h.append (a := [opening]) (h.printable hopening) ?_
      refine h.append (h.append (h.append (h.append (h.lineBreak _) hparts.1) ?_) ?_)
        (h.printable hclosing)
      · exact hflat parts hparts.2
      · exact h.lineBreak indent

theorem mem_writeItems {items : List Json} {pretty : Bool} {indent : Nat} {part : Text} :
    part ∈ writeItems items pretty indent ↔ ∃ j ∈ items, part = write j pretty indent := by
  induction items with
  | nil => simp [writeItems]
  | cons j items ih => simp [writeItems, ih]

theorem mem_writeMembers {members : List (Text × Json)} {pretty : Bool} {indent : Nat}
    {part : Text} :
    part ∈ writeMembers members pretty indent ↔ ∃ e ∈ members, part =
      quoted e.1 ++ (if pretty then ascii ": " else ascii ":") ++ write e.2 pretty indent := by
  induction members with
  | nil => simp [writeMembers]
  | cons e members ih => simp only [writeMembers, List.mem_cons, ih, exists_eq_or_imp]

theorem Inherited.write {Q : Text → Prop} {pretty : Bool} (h : Inherited Q pretty) (j : Json)
    (hj : j.wellEncoded = true) (indent : Nat) : Q (write j pretty indent) := by
  induction j using Json.induction generalizing indent with
  | null => exact h.printable (t := ascii "null") (by decide)
  | boolean b =>
      refine h.printable (t := ascii (toString b)) ?_
      cases b <;> decide
  | integer i => exact h.printable (t := ascii (toString i)) (printable_int i)
  | unsigned n => exact h.printable (t := ascii (toString n)) (printable_nat n)
  | float d => exact h.plain (t := d.dump) d.plain
  | string s => exact h.quoted (s := s) ((Json.wellEncoded_string s).mp hj)
  | array items ih =>
      rw [Json.wellEncoded_array] at hj
      refine h.enclose (by decide) (by decide) fun part hpart => ?_
      obtain ⟨j, hmem, rfl⟩ := mem_writeItems.mp hpart
      exact ih j hmem (hj j hmem) _
  | object members ih =>
      rw [Json.wellEncoded_object] at hj
      refine h.enclose (by decide) (by decide) fun part hpart => ?_
      obtain ⟨e, hmem, rfl⟩ := mem_writeMembers.mp hpart
      refine h.append (h.append (h.quoted (hj e hmem).1) (h.printable ?_))
        (ih e hmem (hj e hmem).2 _)
      cases pretty <;> decide

/-! ## Lines -/

theorem printable_escapeByte {b : UInt8} (h : b < 0x80) : Printable (escapeByte b) := by
  have hall : ∀ n : Fin 128, Printable (escapeByte (UInt8.ofNat n)) := by decide
  have hnat : b.toNat < 128 := UInt8.lt_iff_toNat_lt.mp h
  simpa using hall ⟨b.toNat, hnat⟩

theorem escapeByte_of_le {b : UInt8} (h : 0x80 ≤ b) : escapeByte b = [b] := by
  have hne : ∀ c : UInt8, c < 0x80 → ¬ b = c := fun c hc heq =>
    absurd (heq ▸ h) (UInt8.not_le.mpr hc)
  have hcontrol : ¬ b < 0x20 := UInt8.not_lt.mpr (UInt8.le_trans (by decide) h)
  rw [escapeByte, if_neg (hne _ (by decide)), if_neg (hne _ (by decide)),
    if_neg (hne _ (by decide)), if_neg (hne _ (by decide)), if_neg (hne _ (by decide)),
    if_neg (hne _ (by decide)), if_neg (hne _ (by decide)), if_neg hcontrol]

theorem newline_not_mem_escaped (s : Text) : newline ∉ escaped s := by
  rw [escaped, List.mem_flatMap]
  rintro ⟨b, -, hmem⟩
  rcases UInt8.lt_or_le b 0x80 with hlow | hhigh
  · exact absurd (printable_escapeByte hlow _ hmem).1 (by decide)
  · rw [escapeByte_of_le hhigh, List.mem_singleton] at hmem
    exact absurd (hmem ▸ hhigh) (by decide)

/-- What is written without indentation has no line break. -/
theorem newline_not_mem_write {j : Json} (hj : j.wellEncoded = true) (indent : Nat) :
    newline ∉ write j false indent := by
  refine Inherited.write (Q := fun t => newline ∉ t) ⟨?_, ?_, ?_, ?_, ?_⟩ j hj indent
  · intro a b ha hb hmem
    exact (List.mem_append.mp hmem).elim ha hb
  · intro t ht hmem
    exact absurd (ht _ hmem).1 (by decide)
  · intro t ht hmem
    exact absurd (ht.1 _ hmem).1 (by decide)
  · intro s _ hmem
    rw [quoted, List.cons_append, List.mem_cons, List.mem_append, List.mem_singleton] at hmem
    rcases hmem with hquote | hbody | hquote
    · exact absurd hquote (by decide)
    · exact newline_not_mem_escaped s hbody
    · exact absurd hquote (by decide)
  · exact fun _ => List.not_mem_nil

/-! ## Encoding -/

theorem wellEncoded_append {a b : Text} (ha : a.WellEncoded) (hb : b.WellEncoded) :
    (a ++ b).WellEncoded := by
  have happend : ByteArray.mk (a ++ b).toArray =
      ByteArray.mk a.toArray ++ ByteArray.mk b.toArray := ByteArray.ext (by simp)
  rw [Text.WellEncoded, happend]
  exact ha.append hb

/-- A text is well encoded if it is the encoding of characters one after the other. -/
theorem wellEncoded_iff (t : Text) :
    t.WellEncoded ↔ ∃ l : List Char, t = l.flatMap String.utf8EncodeChar := by
  have hbytes : ∀ l : List Char, l.utf8Encode.data = (l.flatMap String.utf8EncodeChar).toArray := by
    intro l
    rw [List.utf8Encode, List.data_toByteArray]
  constructor
  · rintro ⟨l, hl⟩
    refine ⟨l, ?_⟩
    have hdata := congrArg ByteArray.data hl
    rw [hbytes] at hdata
    simpa using hdata
  · rintro ⟨l, rfl⟩
    exact ⟨l, ByteArray.ext (hbytes l).symm⟩

theorem le_ofNat_add {m k : Nat} (n : Nat) (hm : 0 < m) (hk : 0x80 ≤ k) (hsum : k + m ≤ 256) :
    0x80 ≤ UInt8.ofNat (n % m + k) := by
  have hmod : n % m < m := Nat.mod_lt n hm
  have hsize : n % m + k < UInt8.size := Nat.lt_of_lt_of_le (by omega) hsum
  exact (UInt8.ofNat_le_iff_le (a := 0x80) (by decide) hsize).mpr (by omega)

/-- The encoding of a character is one byte of ASCII or has none. -/
theorem utf8EncodeChar_cases (c : Char) :
    (∃ b < 0x80, String.utf8EncodeChar c = [b]) ∨ ∀ b ∈ String.utf8EncodeChar c, 0x80 ≤ b := by
  rw [String.utf8EncodeChar]
  by_cases hone : c.val.toNat ≤ 0x7f
  · left
    have hsize : c.val.toNat < UInt8.size := Nat.lt_of_le_of_lt hone (by decide)
    refine ⟨UInt8.ofNat c.val.toNat, ?_, by simp only [if_pos hone]⟩
    exact (UInt8.ofNat_lt_iff_lt (b := 0x80) hsize (by decide)).mpr (by omega)
  · right
    simp only [if_neg hone]
    -- the leading byte and those after it are sums of a part of the code and of a mark
    split
    · simp only [List.mem_cons, List.not_mem_nil, or_false]
      rintro b (rfl | rfl) <;> exact le_ofNat_add _ (by decide) (by decide) (by decide)
    split
    · simp only [List.mem_cons, List.not_mem_nil, or_false]
      rintro b (rfl | rfl | rfl) <;> exact le_ofNat_add _ (by decide) (by decide) (by decide)
    · simp only [List.mem_cons, List.not_mem_nil, or_false]
      rintro b (rfl | rfl | rfl | rfl) <;>
        exact le_ofNat_add _ (by decide) (by decide) (by decide)

theorem wellEncoded_of_printable {t : Text} (h : Printable t) : t.WellEncoded := by
  induction t with
  | nil => decide
  | cons b t ih =>
      have hall : ∀ n : Fin 128, Text.WellEncoded [UInt8.ofNat n] := by decide
      have hbyte : Text.WellEncoded [b] := by
        have hnat : b.toNat < 128 := UInt8.lt_iff_toNat_lt.mp (h b List.mem_cons_self).2
        simpa using hall ⟨b.toNat, hnat⟩
      exact wellEncoded_append hbyte (ih fun b' hb' => h b' (List.mem_cons_of_mem b hb'))

theorem escaped_of_le {s : Text} (h : ∀ b ∈ s, 0x80 ≤ b) : escaped s = s := by
  induction s with
  | nil => rfl
  | cons b s ih =>
      rw [List.forall_mem_cons] at h
      rw [escaped, List.flatMap_cons, escapeByte_of_le h.1]
      exact congrArg (b :: ·) (ih h.2)

theorem wellEncoded_escaped {s : Text} (h : s.WellEncoded) : (escaped s).WellEncoded := by
  obtain ⟨l, rfl⟩ := (wellEncoded_iff s).mp h
  induction l with
  | nil => decide
  | cons c l ih =>
      have htail : Text.WellEncoded (l.flatMap String.utf8EncodeChar) :=
        (wellEncoded_iff _).mpr ⟨l, rfl⟩
      have hchar : Text.WellEncoded (escaped (String.utf8EncodeChar c)) := by
        rcases utf8EncodeChar_cases c with ⟨b, hb, hc⟩ | hhigh
        · rw [hc, escaped, List.flatMap_singleton]
          exact wellEncoded_of_printable (printable_escapeByte hb)
        · have hsame : escaped (String.utf8EncodeChar c) = String.utf8EncodeChar c := by
            exact escaped_of_le hhigh
          rw [hsame, wellEncoded_iff]
          exact ⟨[c], by simp⟩
      have hsplit : escaped ((c :: l).flatMap String.utf8EncodeChar) =
          escaped (String.utf8EncodeChar c) ++ escaped (l.flatMap String.utf8EncodeChar) := by
        rw [List.flatMap_cons, escaped, List.flatMap_append]
        rfl
      rw [hsplit]
      exact wellEncoded_append hchar (ih htail)

theorem wellEncoded_write {j : Json} (hj : j.wellEncoded = true) (pretty : Bool) (indent : Nat) :
    (write j pretty indent).WellEncoded := by
  refine Inherited.write ⟨wellEncoded_append, wellEncoded_of_printable, fun h => h.2, ?_, ?_⟩ j
    hj indent
  · intro s hs
    exact wellEncoded_append (wellEncoded_append (a := [quote]) (by decide)
      (wellEncoded_escaped hs)) (by decide)
  · intro indent
    cases pretty with
    | false => exact wellEncoded_of_printable (t := []) (by decide)
    | true =>
        have hblanks : Printable (List.replicate indent 0x20) := by
          intro b hb
          rw [List.eq_of_mem_replicate hb]
          decide
        exact wellEncoded_append (a := [newline]) (by decide) (wellEncoded_of_printable hblanks)

/-! ## Libraries -/

/-- A parser that gives well encoded values, and a writer that throws at any other value. -/
structure Library where
  parse : Text → Parsed
  dump : Json → Option Text
  /-- On several lines. -/
  pretty : Json → Option Text
  wellEncoded_parse : ∀ {text j}, parse text = .value j → j.wellEncoded = true
  isSome_dump : ∀ j, (dump j).isSome = j.wellEncoded
  newline_not_mem_dump : ∀ {j text}, dump j = some text → newline ∉ text
  isSome_pretty : ∀ j, (pretty j).isSome = j.wellEncoded
  wellEncoded_pretty : ∀ {j text}, pretty j = some text → text.WellEncoded

/-- The library of a parser: a text with a string that is not well encoded is refused. -/
def Library.ofParse (parse : Text → Parsed) : Library where
  parse text :=
    match parse text with
    | .value j => if j.wellEncoded then .value j else .parseError
    | .parseError => .parseError
    | .outOfRange => .outOfRange
  dump j := if j.wellEncoded then some (write j false 0) else none
  pretty j := if j.wellEncoded then some (write j true 0) else none
  wellEncoded_parse {text j} h := by
    cases hparse : parse text with
    | value j' =>
        simp only [hparse] at h
        by_cases hj : j'.wellEncoded = true
        · rw [if_pos hj, Parsed.value.injEq] at h
          rwa [← h]
        · rw [if_neg hj] at h
          cases h
    | _ =>
        simp only [hparse] at h
        cases h
  isSome_dump j := by cases j.wellEncoded <;> rfl
  newline_not_mem_dump {j text} h := by
    rw [Option.ite_none_right_eq_some, Option.some.injEq] at h
    rw [← h.2]
    exact newline_not_mem_write h.1 0
  isSome_pretty j := by cases j.wellEncoded <;> rfl
  wellEncoded_pretty {j text} h := by
    rw [Option.ite_none_right_eq_some, Option.some.injEq] at h
    rw [← h.2]
    exact wellEncoded_write h.1 true 0

end JsonText
