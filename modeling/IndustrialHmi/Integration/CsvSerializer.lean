import IndustrialHmi.Integration.ExportedProduct

/-!
# Products as CSV

The writer puts a field in quotes when it holds a comma, a quote or a line break, and doubles the
quotes in it.  The reader takes one byte at a time, with one byte of lookahead where a quote may
be doubled and where a carriage return may be the first half of a line break.

Reading a record that was written gives its fields, whatever they are (`parseRecord_record`).
The rest is a header that is read and forgotten, two numbers that are printed and parsed, and the
end of the stream, which reads as a record without fields.

The rate is printed in no locale and read with `std::stof`, which has that of the program.  So an
export is read back where the decimal point is a point, and elsewhere only if there is a zero
behind the point of each rate (`roundTripsCsv_iff`).
-/

namespace Csv

open Numeral Export

def comma : UInt8 := 0x2C
def quote : UInt8 := 0x22
def lineFeed : UInt8 := 0x0A
def carriageReturn : UInt8 := 0x0D
def crlf : Text := [carriageReturn, lineFeed]
def kUtf8Bom : Text := [0xEF, 0xBB, 0xBF]

/-! ## Writing -/

def NeedsQuoting (field : Text) : Prop :=
  ∃ c ∈ field, c = comma ∨ c = quote ∨ c = lineFeed ∨ c = carriageReturn

instance (field : Text) : Decidable (NeedsQuoting field) :=
  inferInstanceAs
    (Decidable (∃ c ∈ field, c = comma ∨ c = quote ∨ c = lineFeed ∨ c = carriageReturn))

/-- The field with its quotes doubled. -/
def doubled (field : Text) : Text :=
  field.flatMap fun c => if c = quote then [quote, quote] else [c]

def escapeField (field : Text) : Text :=
  if ¬NeedsQuoting field then field else quote :: (doubled field ++ [quote])

/-- The labels with a comma between any two. -/
def writeHeader : List Text → Text
  | [] => []
  | [label] => escapeField label
  | label :: labels => escapeField label ++ comma :: writeHeader labels

def writeProduct (p : Product (BitVec 32)) : Text :=
  escapeField p.productCode ++ comma :: (escapeField p.name ++ comma :: (escapeField p.status ++
    comma :: (ascii (toString p.stock.toInt) ++ comma :: (fmtRate p.qualityRate ++ crlf))))

def writeProducts (header : List Text) (products : List (Product (BitVec 32))) : Text :=
  kUtf8Bom ++ (writeHeader header ++ crlf) ++ products.flatMap writeProduct

/-! ## Reading -/

/-- The loop of `parseRecord`: the fields, and what is left of the stream. -/
def recordLoop (fields : List Text) (current : Text) (inQuotes sawAnyChar : Bool) :
    Text → List Text × Text
  | [] => (if sawAnyChar ∨ fields ≠ [] then fields ++ [current] else fields, [])
  | c :: rest =>
      if inQuotes then
        if c = quote then
          match rest with
          | [] => recordLoop fields current false true []
          | d :: rest' =>
              if d = quote then recordLoop fields (current ++ [quote]) true true rest'
              else recordLoop fields current false true (d :: rest')
        else recordLoop fields (current ++ [c]) true true rest
      else if c = comma then recordLoop (fields ++ [current]) [] false true rest
      else if c = carriageReturn then
        (fields ++ [current], if rest.head? = some lineFeed then rest.tail else rest)
      else if c = lineFeed then (fields ++ [current], rest)
      else if c = quote ∧ current = [] then recordLoop fields current true true rest
      else recordLoop fields (current ++ [c]) false true rest

def parseRecord (t : Text) : List Text × Text := recordLoop [] [] false false t

theorem recordLoop_length (t : Text) : ∀ (fields : List Text) (current : Text)
    (inQuotes sawAnyChar : Bool),
    (recordLoop fields current inQuotes sawAnyChar t).2.length ≤ t.length - 1 := by
  induction t using List.twoStepInduction with
  | nil => intro fields current inQuotes sawAnyChar; rfl
  | singleton c =>
      intro fields current inQuotes sawAnyChar
      simp only [recordLoop]
      split_ifs <;> simp
  | cons_cons c d rest ih₁ ih₂ =>
      intro fields current inQuotes sawAnyChar
      have hrest := fun fields current q s => ih₂ d fields current q s
      simp only [List.length_cons, Nat.add_sub_cancel] at hrest ⊢
      rw [recordLoop]
      split_ifs
      · exact (ih₁ _ _ _ _).trans (by omega)
      · exact (hrest _ _ _ _).trans (by omega)
      · exact (hrest _ _ _ _).trans (by omega)
      · exact (hrest _ _ _ _).trans (by omega)
      · exact Nat.le_add_right _ _
      · exact Nat.le_refl _
      · exact Nat.le_refl _
      · exact (hrest _ _ _ _).trans (by omega)
      · exact (hrest _ _ _ _).trans (by omega)

theorem parseRecord_length {t : Text} (h : (parseRecord t).1 ≠ []) :
    (parseRecord t).2.length < t.length := by
  cases t with
  | nil => exact absurd rfl h
  | cons c t =>
      have hlength := recordLoop_length (c :: t) [] [] false false
      exact Nat.lt_succ_of_le hlength

/-- A product from the fields of a row. -/
def parseRow [Lconv] : List Text → Except Text (Product Binary32)
  | [productCode, name, status, stockStr, rate] =>
      match fromCharsInt stockStr with
      | none => .error (ascii "CSV stock not an integer: " ++ stockStr)
      | some (stock, _) =>
          match stof rate with
          | none => .error (ascii "CSV quality not a float: " ++ rate)
          | some qualityRate =>
              .ok { productCode, name, status, stock := Int32.ofInt stock, qualityRate }
  | fields =>
      .error (ascii "CSV row has " ++ ascii (toString fields.length) ++ ascii " fields, expected 5")

/-- The rows up to the record without fields that the end of the stream gives. -/
def readRows [Lconv] (t : Text) : Except Text (List (Product Binary32)) :=
  if _h : (parseRecord t).1 = [] then .ok []
  else
    match parseRow (parseRecord t).1 with
    | .error e => .error e
    | .ok p =>
        match readRows (parseRecord t).2 with
        | .error e => .error e
        | .ok products => .ok (p :: products)
termination_by t.length
decreasing_by exact parseRecord_length _h

def readProducts [Lconv] (t : Text) : Except Text (List (Product Binary32)) :=
  let t := if t.take 3 = kUtf8Bom then t.drop 3 else t
  readRows (parseRecord t).2

/-! ## One field -/

section

variable {fields : List Text} {current f rest : Text} {saw : Bool}

theorem recordLoop_outside (c : UInt8) :
    recordLoop fields current false saw (c :: rest) =
      if c = comma then recordLoop (fields ++ [current]) [] false true rest
      else if c = carriageReturn then
        (fields ++ [current], if rest.head? = some lineFeed then rest.tail else rest)
      else if c = lineFeed then (fields ++ [current], rest)
      else if c = quote ∧ current = [] then recordLoop fields current true true rest
      else recordLoop fields (current ++ [c]) false true rest := by
  cases rest <;> rfl

theorem recordLoop_inside {c : UInt8} (hc : c ≠ quote) :
    recordLoop fields current true saw (c :: rest) =
      recordLoop fields (current ++ [c]) true true rest := by
  cases rest <;> exact if_neg hc

theorem recordLoop_closing (hrest : ∀ c ∈ rest.head?, c ≠ quote) :
    recordLoop fields current true saw (quote :: rest) =
      recordLoop fields current false true rest := by
  cases rest with
  | nil => rfl
  | cons d rest => exact if_neg (hrest d rfl)

theorem recordLoop_comma :
    recordLoop fields current false saw (comma :: rest) =
      recordLoop (fields ++ [current]) [] false true rest := by
  rw [recordLoop_outside, if_pos rfl]

/-- A field that needs no quotes is taken byte by byte. -/
theorem recordLoop_bare (h : ¬NeedsQuoting f) :
    ∃ saw', recordLoop fields current false saw (f ++ rest) =
      recordLoop fields (current ++ f) false saw' rest := by
  induction f generalizing current saw with
  | nil => exact ⟨saw, by rw [List.append_nil, List.nil_append]⟩
  | cons c f ih =>
      have hc : ¬(c = comma ∨ c = quote ∨ c = lineFeed ∨ c = carriageReturn) :=
        fun hc => h ⟨c, List.mem_cons_self, hc⟩
      simp only [not_or] at hc
      obtain ⟨hcomma, hquote, hlf, hcr⟩ := hc
      have hf : ¬NeedsQuoting f :=
        fun ⟨d, hd, hspecial⟩ => h ⟨d, List.mem_cons_of_mem c hd, hspecial⟩
      obtain ⟨saw', hrest⟩ := @ih (current ++ [c]) true hf
      refine ⟨saw', ?_⟩
      rw [List.cons_append, recordLoop_outside, if_neg hcomma, if_neg hcr, if_neg hlf,
        if_neg fun hq => hquote hq.1, hrest, List.append_assoc]
      rfl

/-- Inside quotes a doubled quote is one, and a single one ends the field. -/
theorem recordLoop_quoted (hrest : ∀ c ∈ rest.head?, c ≠ quote) :
    recordLoop fields current true saw (doubled f ++ quote :: rest) =
      recordLoop fields (current ++ f) false true rest := by
  induction f generalizing current saw with
  | nil =>
      rw [List.append_nil]
      exact recordLoop_closing hrest
  | cons c f ih =>
      have hstep : current ++ c :: f = (current ++ [c]) ++ f := by
        rw [List.append_assoc]
        rfl
      rw [doubled, List.flatMap_cons, List.append_assoc, hstep]
      by_cases hc : c = quote
      · subst hc
        exact (if_pos rfl).trans ih
      · rw [if_neg hc, List.singleton_append, recordLoop_inside hc]
        exact ih

/-- A field that was written is read up to what follows it. -/
theorem recordLoop_field (hrest : ∀ c ∈ rest.head?, c ≠ quote) :
    ∃ saw', recordLoop fields [] false saw (escapeField f ++ rest) =
      recordLoop fields f false saw' rest := by
  rw [escapeField]
  split
  · next h =>
      obtain ⟨saw', hbare⟩ := @recordLoop_bare fields [] f rest saw h
      exact ⟨saw', hbare⟩
  · refine ⟨true, ?_⟩
    rw [List.cons_append, List.append_assoc, recordLoop_outside, if_neg (by decide),
      if_neg (by decide), if_neg (by decide), if_pos ⟨rfl, rfl⟩]
    exact recordLoop_quoted hrest

end

/-! ## One record -/

/-- Fields as they are written on one line. -/
def record : List Text → Text
  | [] => crlf
  | [f] => escapeField f ++ crlf
  | f :: fs => escapeField f ++ comma :: record fs

theorem recordLoop_record (f : Text) (fs : List Text) (fields : List Text) (saw : Bool)
    (rest : Text) :
    recordLoop fields [] false saw (record (f :: fs) ++ rest) = (fields ++ f :: fs, rest) := by
  induction fs generalizing f fields saw with
  | nil =>
      obtain ⟨saw', hfield⟩ :=
        @recordLoop_field fields f (crlf ++ rest) saw (Text.forall_head (by decide) _)
      rw [record, List.append_assoc, hfield]
      rfl
  | cons g fs ih =>
      obtain ⟨saw', hfield⟩ := @recordLoop_field fields f (comma :: (record (g :: fs) ++ rest)) saw
        (Text.forall_head (by decide) _)
      rw [record, List.append_assoc, List.cons_append, hfield, recordLoop_comma, ih,
        List.append_assoc]
      · rfl
      · exact List.cons_ne_nil g fs

/-- A record that was written is read back, and the stream stands behind it. -/
theorem parseRecord_record (f : Text) (fs : List Text) (rest : Text) :
    parseRecord (record (f :: fs) ++ rest) = (f :: fs, rest) :=
  recordLoop_record f fs [] false rest

/-- A line without fields reads as one empty field. -/
theorem parseRecord_header (header : List Text) (rest : Text) :
    (parseRecord (writeHeader header ++ crlf ++ rest)).2 = rest := by
  have hwrite : ∀ label labels,
      writeHeader (label :: labels) ++ crlf = record (label :: labels) := by
    intro label labels
    induction labels generalizing label with
    | nil => rfl
    | cons next labels ih =>
        rw [writeHeader, record, List.append_assoc, List.cons_append, ih]
        · exact List.cons_ne_nil _ _
        · exact List.cons_ne_nil _ _
  cases header with
  | nil => rfl
  | cons label labels => rw [hwrite, parseRecord_record]

/-! ## Rows -/

/-- A printed number needs no quotes. -/
theorem escapeField_numeric {t : Text} (h : IsNumeric t) : escapeField t = t := by
  have hplain : t.All fun c => ¬(c = comma ∨ c = quote ∨ c = lineFeed ∨ c = carriageReturn) :=
    h.all (by decide +kernel)
  exact if_pos fun ⟨c, hc, hspecial⟩ => hplain c hc hspecial

theorem writeProduct_eq {p : Product (BitVec 32)} (h : Finite p.qualityRate) :
    writeProduct p =
      record [p.productCode, p.name, p.status, ascii (toString p.stock.toInt),
        fmtRate p.qualityRate] := by
  have hstock := escapeField_numeric (isNumeric_int p.stock.toInt)
  have hrate := escapeField_numeric (isNumeric_fmtRate h)
  simp only [record, hstock, hrate]
  rfl

theorem parseRow_written [Lconv] {p : Product (BitVec 32)} (h : Finite p.qualityRate) :
    parseRow [p.productCode, p.name, p.status, ascii (toString p.stock.toInt),
      fmtRate p.qualityRate] = .ok p.asRead := by
  have hstock := @fromChars_int p.stock.toInt (inInt_toInt _) [] fun b hb => by cases hb
  rw [List.append_nil] at hstock
  rw [parseRow, hstock, stof_fmtRate h]
  simp only [Int32.ofInt_toInt]
  rfl

/-- The rows that were written are read one by one, up to the end of the stream. -/
theorem readRows_written [Lconv] {products : List (Product (BitVec 32))}
    (h : ∀ p ∈ products, Finite p.qualityRate) :
    readRows (products.flatMap writeProduct) = .ok (products.map Product.asRead) := by
  induction products with
  | nil =>
      rw [List.flatMap_nil, readRows]
      rfl
  | cons p products ih =>
      have hp := h p List.mem_cons_self
      have hrest := ih fun q hq => h q (List.mem_cons_of_mem p hq)
      have hrecord := parseRecord_record p.productCode
        [p.name, p.status, ascii (toString p.stock.toInt), fmtRate p.qualityRate]
        (products.flatMap writeProduct)
      rw [← writeProduct_eq hp] at hrecord
      rw [List.flatMap_cons, readRows, hrecord, dif_neg (List.cons_ne_nil _ _),
        parseRow_written hp, hrest]
      rfl

/-- What was exported is imported again, with the rates as they are read. -/
theorem readProducts_written [Lconv] (header : List Text) {products : List (Product (BitVec 32))}
    (h : ∀ p ∈ products, Finite p.qualityRate) :
    readProducts (writeProducts header products) = .ok (products.map Product.asRead) := by
  have hbom : (writeProducts header products).take 3 = kUtf8Bom := rfl
  have hdrop : (writeProducts header products).drop 3 =
      writeHeader header ++ crlf ++ products.flatMap writeProduct := rfl
  rw [readProducts, if_pos hbom, hdrop, parseRecord_header, readRows_written h]

/-- Reading what was written gives the products, with the rates as they were printed. -/
def RoundTripsCsv [Lconv] (header : List Text) (products : List (Product (BitVec 32))) : Prop :=
  readProducts (writeProducts header products) = .ok (products.map Product.asPrinted)

/-- The export is read back exactly when the decimal point is a point, or every rate is printed
with a zero behind it. -/
theorem roundTripsCsv_iff [Lconv] (header : List Text) {products : List (Product (BitVec 32))}
    (h : ∀ p ∈ products, Finite p.qualityRate) :
    RoundTripsCsv header products ↔
      Lconv.Pointed ∨ ∀ p ∈ products, EndsInZero p.qualityRate := by
  rw [RoundTripsCsv, readProducts_written header h, Except.ok.injEq, map_asRead_eq_iff h]

/-- A name with a comma, a quote and a line break, and the rate 97.6, under two labels. -/
theorem roundTripsCsv_quoted :
    @RoundTripsCsv Lconv.c [ascii "Code", ascii "a,b"]
      [{ productCode := ascii "P", name := ascii "x,\"\r\n", stock := -5,
         qualityRate := 0x42C33333 }] :=
  (@roundTripsCsv_iff Lconv.c _ _ (by decide)).mpr (Or.inl rfl)

/-- The rate 98.1 is printed with a point, and read as 98 where the decimal point is a comma. -/
theorem not_roundTripsCsv_comma :
    ¬@RoundTripsCsv Lconv.comma []
      [{ productCode := ascii "P", name := ascii "a", status := ascii "Active",
         qualityRate := 0x42C43333 }] := by
  intro h
  have hread := (@readProducts_written Lconv.comma _ _ (by decide)).symm.trans h
  have hnot := (@map_asRead_eq_iff Lconv.comma _ (by decide)).mp (Except.ok.inj hread)
  exact absurd hnot (by decide +kernel)

end Csv
