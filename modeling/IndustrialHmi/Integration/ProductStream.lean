import IndustrialHmi.Integration.JsonSerializer
import IndustrialHmi.Integration.TcpBackend
import IndustrialHmi.Theory.Lines

/-!
# Products over TCP

The answer to the products command is a line with their number and a line for each of them.  The
line is the export of one product with its line breaks and indentation made into single spaces.
That goes over the bytes of the text and knows nothing of strings, so a run of spaces in a name
is made into one as well (`productToJsonLine_eq`).  A rate that is not finite is printed as a
word, and then the line is no object.

Otherwise the lines are those of the products, each an object with its fields (`lossless_iff`).
-/

namespace ProductStream

open CType Numeral Export JsonExport Incremental

/-! ## The line of a product -/

/-- Line breaks and tabs become spaces, and a run of spaces becomes one. -/
def flat (prevSpace : Bool) : Text → Text
  | [] => []
  | c :: body =>
      let c := if c = 0x0A ∨ c = 0x0D ∨ c = 0x09 then space else c
      if c = space then if prevSpace then flat true body else c :: flat true body
      else c :: flat false body

/-- The array's brackets and the line breaks at its end are taken away. -/
def stripped (body : Text) : Text :=
  let body := if body.head? = some openBracket then body.tail else body
  (body.reverse.dropWhile fun c => c = newline ∨ c = closeBracket).reverse

def productToJsonLine (p : Product (BitVec 32)) : Text :=
  Tcp.trim (flat false (stripped (writeProducts [p])))

/-- The answer to the products command. -/
def answer (status : Text) (products : List (Product (BitVec 32))) : Text :=
  (Tcp.dispatchCommand { status, products := products.map productToJsonLine }
    (ascii "products")).1

/-! ## Runs of spaces -/

/-- No control character. -/
def Printable (s : Text) : Prop := s.All (0x20 ≤ ·)

instance (s : Text) : Decidable (Printable s) := inferInstanceAs (Decidable (s.All (0x20 ≤ ·)))

def Squeezed (s : Text) : Prop := ¬[space, space] <:+: s

/-- A byte that `flat` leaves as it is. -/
def Solid (c : UInt8) : Prop := c ≠ 0x0A ∧ c ≠ 0x0D ∧ c ≠ 0x09 ∧ c ≠ space

instance (c : UInt8) : Decidable (Solid c) :=
  inferInstanceAs (Decidable (c ≠ 0x0A ∧ c ≠ 0x0D ∧ c ≠ 0x09 ∧ c ≠ space))

theorem flat_space (b : Bool) (body : Text) :
    flat b (space :: body) = if b then flat true body else space :: flat true body := rfl

theorem flat_solid {c : UInt8} (h : Solid c) (b : Bool) (body : Text) :
    flat b (c :: body) = c :: flat false body := by
  obtain ⟨hlf, hcr, htab, hspace⟩ := h
  simp only [flat, hlf, hcr, htab, hspace, or_self, if_false]

/-- Solid bytes stay. -/
theorem flat_run {t : Text} (h : t.All Solid) (body : Text) :
    flat false (t ++ body) = t ++ flat false body := by
  induction t with
  | nil => rfl
  | cons c t ih =>
      rw [List.cons_append, flat_solid (h c List.mem_cons_self),
        ih fun d hd => h d (List.mem_cons_of_mem c hd), List.cons_append]

theorem flat_run_of_ne_nil {t : Text} (h : t.All Solid) (hne : t ≠ []) (b : Bool) (body : Text) :
    flat b (t ++ body) = t ++ flat false body := by
  cases t with
  | nil => exact absurd rfl hne
  | cons c t =>
      rw [List.cons_append, flat_solid (h c List.mem_cons_self),
        flat_run fun d hd => h d (List.mem_cons_of_mem c hd), List.cons_append]

theorem solid_of_printable {c : UInt8} (h : 0x20 ≤ c) (hspace : c ≠ space) : Solid c := by
  refine ⟨?_, ?_, ?_, hspace⟩ <;> rintro rfl <;> exact absurd h (by decide)

theorem length_flat (s : Text) : ∀ b, (flat b s).length ≤ s.length := by
  induction s with
  | nil => intro b; exact Nat.le_refl _
  | cons c s ih =>
      intro b
      simp only [flat]
      generalize (if c = 0x0A ∨ c = 0x0D ∨ c = 0x09 then space else c) = c'
      split_ifs
      · exact (ih true).trans (Nat.le_succ _)
      · exact Nat.succ_le_succ (ih true)
      · exact Nat.succ_le_succ (ih false)

/-- A string without control characters stays as it is if no two spaces in it are adjacent. -/
theorem flat_eq_self {s : Text} (hs : Printable s) :
    ∀ b, flat b s = s ↔ (b = true → s.head? ≠ some space) ∧ Squeezed s := by
  induction s with
  | nil =>
      intro b
      refine iff_of_true rfl ⟨fun _ => by decide, fun h => ?_⟩
      exact absurd (List.IsInfix.length_le h) (by decide)
  | cons c s ih =>
      intro b
      have hc := hs c List.mem_cons_self
      have hrest := ih fun d hd => hs d (List.mem_cons_of_mem c hd)
      have hinfix : Squeezed (c :: s) ↔ ¬(c = space ∧ s.head? = some space) ∧ Squeezed s := by
        rw [Squeezed, List.infix_cons_iff, not_or, Squeezed, List.cons_prefix_cons]
        refine and_congr_left fun _ => not_congr ?_
        cases s with
        | nil => simp
        | cons d s => simp [eq_comm]
      by_cases hspace : c = space
      · subst hspace
        rw [flat_space, hinfix]
        cases b with
        | true =>
            refine iff_of_false (fun h => ?_) fun h => h.1 rfl rfl
            have hlength := length_flat s true
            rw [if_pos rfl] at h
            rw [h, List.length_cons] at hlength
            omega
        | false =>
            rw [if_neg Bool.false_ne_true, List.cons.injEq, hrest true]
            simp
      · have hhead : (c :: s).head? ≠ some space := fun h => hspace (Option.some.inj h)
        rw [flat_solid (solid_of_printable hc hspace), hinfix, List.cons.injEq, hrest false]
        simp [hspace]

theorem printable_flat {s : Text} (hs : Printable s) : ∀ b, Printable (flat b s) := by
  induction s with
  | nil => exact fun b => hs
  | cons c s ih =>
      intro b
      have hc := hs c List.mem_cons_self
      have hrest := ih fun d hd => hs d (List.mem_cons_of_mem c hd)
      by_cases hspace : c = space
      · subst hspace
        rw [flat_space]
        split
        · exact hrest true
        · exact List.forall_mem_cons.mpr ⟨hc, hrest true⟩
      · rw [flat_solid (solid_of_printable hc hspace)]
        exact List.forall_mem_cons.mpr ⟨hc, hrest false⟩

/-- Escaping does not make or remove spaces. -/
theorem flat_escapeString {s : Text} (hs : Printable s) (body : Text) :
    ∀ b, flat b (escapeString s ++ quote :: body) =
      escapeString (flat b s) ++ quote :: flat false body := by
  induction s with
  | nil =>
      intro b
      exact flat_solid (by decide) b body
  | cons c s ih =>
      intro b
      have hc := hs c List.mem_cons_self
      have hrest := ih fun d hd => hs d (List.mem_cons_of_mem c hd)
      rw [escapeString_cons]
      by_cases hspace : c = space
      · subst hspace
        rw [show escapeChar space = [space] by decide, List.singleton_append, flat_space,
          flat_space, hrest true]
        split <;> rfl
      · have hchar : (escapeChar c).All Solid ∧ escapeChar c ≠ [] := by
          have hboth := And.intro hc hspace
          revert hboth
          refine forall_byte (P := fun c => 0x20 ≤ c ∧ c ≠ space →
            (escapeChar c).All Solid ∧ escapeChar c ≠ []) ?_ c
          simp only [Text.All, Solid]
          decide +kernel
        rw [flat_run_of_ne_nil hchar.1 hchar.2, hrest false,
          flat_solid (solid_of_printable hc hspace), escapeString_cons]

/-! ## The object on one line -/

section

variable {key : Text} (hkey : key.All Solid)
include hkey

theorem flat_stringMember {s : Text} (hs : Printable s) (body : Text) :
    flat false (newline :: (ascii "    " ++ (stringMember key s ++ body))) =
      space :: (stringMember key (flat false s) ++ flat false body) := by
  have hmember : ∀ t body : Text, stringMember key t ++ body =
      quote :: (key ++ quote :: colon :: space :: quote :: (escapeString t ++ quote :: body)) := by
    intro t body
    simp only [stringMember, List.cons_append, List.append_assoc, List.nil_append]
  have hlead : flat false (newline :: (ascii "    " ++ (stringMember key s ++ body))) =
      space :: quote :: flat false
        (key ++ quote :: colon :: space :: quote :: (escapeString s ++ quote :: body)) := by
    rw [hmember]
    rfl
  have hmiddle : ∀ t : Text, flat false (quote :: colon :: space :: quote :: t) =
      quote :: colon :: space :: quote :: flat false t := fun t => rfl
  rw [hlead, flat_run hkey, hmiddle, flat_escapeString hs, hmember]

theorem flat_numberMember {number : Text} (hnumber : number.All Solid) (hne : number ≠ [])
    (body : Text) :
    flat false (newline :: (ascii "    " ++ (numberMember key number ++ body))) =
      space :: (numberMember key number ++ flat false body) := by
  have hmember : ∀ body : Text, numberMember key number ++ body =
      quote :: (key ++ quote :: colon :: space :: (number ++ body)) := by
    intro body
    simp only [numberMember, List.cons_append, List.append_assoc]
  have hlead : flat false (newline :: (ascii "    " ++ (numberMember key number ++ body))) =
      space :: quote :: flat false (key ++ quote :: colon :: space :: (number ++ body)) := by
    rw [hmember]
    rfl
  have hmiddle : ∀ t : Text, flat false (quote :: colon :: space :: t) =
      quote :: colon :: space :: flat true t := fun t => rfl
  rw [hlead, flat_run hkey, hmiddle, flat_run_of_ne_nil hnumber hne, hmember]

end

theorem solid_numeric {t : Text} (h : IsNumeric t) : t.All Solid := h.all (by decide +kernel)

theorem solid_fmtRate (rate : BitVec 32) : (fmtRate rate).All Solid ∧ fmtRate rate ≠ [] := by
  by_cases h : Export.Finite rate
  · exact ⟨solid_numeric (isNumeric_fmtRate h), fmtRate_ne_nil h⟩
  · have hword := fmtRate_not_finite h
    have hall : ∀ w ∈ [ascii "nan", ascii "-nan", ascii "inf", ascii "-inf"],
        Text.All Solid w ∧ w ≠ [] := by decide
    exact hall _ hword

/-- The product with the runs of spaces in its strings made into one. -/
def squeezed (p : Product (BitVec 32)) : Product (BitVec 32) :=
  { p with
    productCode := flat false p.productCode
    name := flat false p.name
    status := flat false p.status }

/-- The strings of a product have no control characters. -/
def AllPrintable (p : Product (BitVec 32)) : Prop :=
  Printable p.productCode ∧ Printable p.name ∧ Printable p.status

theorem flat_objectText {p : Product (BitVec 32)} (hp : AllPrintable p) :
    flat false (newline :: (ascii "  " ++
        objectText (newline :: ascii "    ") (newline :: ascii "  ") p)) =
      space :: objectText [space] [space] (squeezed p) := by
  obtain ⟨hcode, hname, hstatus⟩ := hp
  have hopen : ∀ t : Text, flat false (newline :: (ascii "  " ++ openBrace :: t)) =
      space :: openBrace :: flat false t := fun t => rfl
  have hcomma : ∀ t : Text, flat false (comma :: t) = comma :: flat false t := fun t => rfl
  have hclose : flat false (newline :: (ascii "  " ++ [closeBrace])) = [space, closeBrace] := rfl
  have hstock := solid_numeric (isNumeric_int p.stock.toInt)
  obtain ⟨hrate, hne⟩ := solid_fmtRate p.qualityRate
  simp only [objectText, hopen, List.cons_append]
  rw [flat_stringMember (by decide) hcode, hcomma,
    flat_stringMember (by decide) hname, hcomma,
    flat_stringMember (by decide) hstatus, hcomma,
    flat_numberMember (by decide) hstock (int_ne_nil _), hcomma,
    flat_numberMember (by decide) hrate hne, hclose]
  rfl

/-- An object begins with one brace and ends with the other. -/
theorem objectText_ends (lead close : Text) (p : Product (BitVec 32)) :
    ∃ inner, objectText lead close p = openBrace :: (inner ++ [closeBrace]) := by
  refine ⟨lead ++ (stringMember (ascii "productCode") p.productCode ++
    comma :: (lead ++ (stringMember (ascii "name") p.name ++
    comma :: (lead ++ (stringMember (ascii "status") p.status ++
    comma :: (lead ++ (numberMember (ascii "stock") (ascii (toString p.stock.toInt)) ++
    comma :: (lead ++ (numberMember (ascii "qualityRate") (fmtRate p.qualityRate) ++
    close))))))))), ?_⟩
  simp only [objectText, List.append_assoc, List.cons_append]

theorem stripped_writeProducts (p : Product (BitVec 32)) :
    stripped (writeProducts [p]) =
      newline ::
        (ascii "  " ++ objectText (newline :: ascii "    ") (newline :: ascii "  ") p) := by
  obtain ⟨inner, hinner⟩ := objectText_ends (newline :: ascii "    ") (newline :: ascii "  ") p
  have hwrite : writeProducts [p] =
      openBracket :: ((newline :: (ascii "  " ++ openBrace :: inner)) ++
        closeBrace :: [newline, closeBracket, newline]) := by
    rw [writeProducts, if_neg (List.cons_ne_nil _ _), writeObjects, writeProduct, hinner]
    simp only [List.append_assoc, List.cons_append, List.nil_append]
  have htail : ∀ front : Text,
      ((front ++ closeBrace :: [newline, closeBracket, newline]).reverse.dropWhile
        fun c => c = newline ∨ c = closeBracket).reverse = front ++ [closeBrace] := by
    intro front
    rw [List.reverse_append]
    show (List.dropWhile _ (newline :: closeBracket :: newline :: closeBrace ::
      front.reverse)).reverse = _
    rw [List.dropWhile_cons, if_pos (by decide), List.dropWhile_cons, if_pos (by decide),
      List.dropWhile_cons, if_pos (by decide), List.dropWhile_cons, if_neg (by decide),
      List.reverse_cons, List.reverse_reverse]
  rw [hwrite, hinner, stripped, List.head?_cons, if_pos rfl, List.tail_cons, htail]
  simp only [List.append_assoc, List.cons_append]

/-- The line of a product is its object on one line, with the runs of spaces in its strings made
into one. -/
theorem productToJsonLine_eq {p : Product (BitVec 32)} (hp : AllPrintable p) :
    productToJsonLine p = objectText [space] [space] (squeezed p) := by
  obtain ⟨inner, hinner⟩ := objectText_ends [space] [space] (squeezed p)
  have hspace : Tcp.trim (space :: objectText [space] [space] (squeezed p)) =
      CType.trim (objectText [space] [space] (squeezed p)) := rfl
  rw [productToJsonLine, stripped_writeProducts, flat_objectText hp, hspace, hinner]
  refine trim_eq_self (Text.forall_head (by decide) _) fun c hc => ?_
  rw [← List.cons_append, List.getLast?_concat] at hc
  cases hc
  decide

/-! ## The lines of the answer -/

theorem notMem_flat {s : Text} : ∀ b, newline ∉ flat b s ∧ (0x0D : UInt8) ∉ flat b s := by
  induction s with
  | nil => exact fun b => ⟨List.not_mem_nil, List.not_mem_nil⟩
  | cons c s ih =>
      intro b
      have hc : (if c = 0x0A ∨ c = 0x0D ∨ c = 0x09 then space else c) ≠ newline ∧
          (if c = 0x0A ∨ c = 0x0D ∨ c = 0x09 then space else c) ≠ 0x0D := by
        split
        · decide
        · next h => exact ⟨fun he => h (Or.inl he), fun he => h (Or.inr (Or.inl he))⟩
      simp only [flat]
      generalize (if c = 0x0A ∨ c = 0x0D ∨ c = 0x09 then space else c) = c' at hc
      split_ifs
      · exact ih true
      · exact ⟨List.not_mem_cons_of_ne_of_not_mem hc.1.symm (ih true).1,
          List.not_mem_cons_of_ne_of_not_mem hc.2.symm (ih true).2⟩
      · exact ⟨List.not_mem_cons_of_ne_of_not_mem hc.1.symm (ih false).1,
          List.not_mem_cons_of_ne_of_not_mem hc.2.symm (ih false).2⟩

theorem trim_subset (t : Text) : Tcp.trim t ⊆ t := by
  intro c hc
  rw [Tcp.trim, List.mem_reverse] at hc
  have hback := List.mem_reverse.mp ((List.dropWhile_sublist _).subset hc)
  exact (List.dropWhile_sublist _).subset hback

/-- Whatever a product holds, its line has no line break. -/
theorem notMem_productToJsonLine (p : Product (BitVec 32)) :
    newline ∉ productToJsonLine p ∧ (0x0D : UInt8) ∉ productToJsonLine p := by
  rw [productToJsonLine]
  generalize stripped (writeProducts [p]) = body
  obtain ⟨hlf, hcr⟩ := @notMem_flat body false
  exact ⟨fun h => hlf (trim_subset _ h), fun h => hcr (trim_subset _ h)⟩

theorem notMem_count (n : Nat) :
    newline ∉ ascii (toString n) ∧ (0x0D : UInt8) ∉ ascii (toString n) := by
  have hdigits := Numeral.nat_digits n
  refine ⟨fun h => absurd (hdigits _ h) (by decide), fun h => absurd (hdigits _ h) (by decide)⟩

theorem answer_eq (status : Text) (products : List (Product (BitVec 32))) :
    answer status products =
      (ascii (toString products.length) :: products.map productToJsonLine).flatMap
        (terminated newline) := by
  have htokens : Tcp.tokenize (ascii "products") = [ascii "products"] := by decide +kernel
  rw [answer, Tcp.dispatchCommand, htokens]
  simp only [List.length_map]
  rfl

/-- The answer is the count and the lines of the products, each of them ended. -/
theorem lines_answer (status : Text) (products : List (Product (BitVec 32))) :
    endedLines newline (answer status products) =
        ascii (toString products.length) :: products.map productToJsonLine ∧
      unended newline (answer status products) = [] := by
  have hfree : ∀ l ∈ ascii (toString products.length) :: products.map productToJsonLine,
      newline ∉ l := by
    intro l hl
    rcases List.mem_cons.mp hl with rfl | hl
    · exact (notMem_count _).1
    · obtain ⟨p, -, rfl⟩ := List.mem_map.mp hl
      exact (notMem_productToJsonLine p).1
  have hscan := scan_terminated hfree []
  rw [List.append_nil, ← answer_eq status, scan_of_notMem List.not_mem_nil, List.append_nil,
    scan_lineScanner] at hscan
  exact Prod.ext_iff.mp hscan

/-! ## What the lines say -/

/-- The same code, name, status and stock. -/
def SameFields {ρ σ : Type} (q : Product ρ) (p : Product σ) : Prop :=
  q.productCode = p.productCode ∧ q.name = p.name ∧ q.status = p.status ∧ q.stock = p.stock

/-- A line is an object with the fields of a product. -/
def Says [Lconv] (line : Text) (p : Product (BitVec 32)) : Prop :=
  ∃ q, parseObject line = .ok (q, []) ∧ SameFields q p

/-- The answer is the count and that many lines without line breaks, and each of them says what
its product is. -/
def Lossless [Lconv] (status : Text) (products : List (Product (BitVec 32))) : Prop :=
  ∃ lines, endedLines newline (answer status products) = ascii (toString products.length) :: lines ∧
    unended newline (answer status products) = [] ∧
    (∀ l ∈ lines, newline ∉ l ∧ (0x0D : UInt8) ∉ l) ∧ List.Forall₂ Says lines products

theorem readable_of_printable {s : Text} (h : Printable s) : Readable s :=
  fun c hc => Or.inl (h c hc)

theorem flat_eq_self_iff {s : Text} (hs : Printable s) : flat false s = s ↔ Squeezed s := by
  rw [flat_eq_self hs]
  simp

theorem says_iff [Lconv] {p : Product (BitVec 32)} (hp : AllPrintable p) :
    Says (productToJsonLine p) p ↔ Finite p.qualityRate ∧ Squeezed p.productCode ∧
      Squeezed p.name ∧ Squeezed p.status := by
  have hlead : Text.All (fun c => isWs c = true) [space] := by decide
  obtain ⟨hcode, hname, hstatus⟩ := hp
  have hsqueezed : AllReadable (squeezed p) :=
    ⟨readable_of_printable (printable_flat hcode false),
      readable_of_printable (printable_flat hname false),
      readable_of_printable (printable_flat hstatus false)⟩
  rw [Says, productToJsonLine_eq ⟨hcode, hname, hstatus⟩]
  by_cases hrate : Export.Finite p.qualityRate
  · have hread := @parseObject_written [space] [space] hlead _ hlead (squeezed p) hrate []
    rw [List.append_nil, if_pos hsqueezed] at hread
    rw [hread, ← flat_eq_self_iff hcode, ← flat_eq_self_iff hname,
      ← flat_eq_self_iff hstatus]
    constructor
    · rintro ⟨q, hq, hsame⟩
      cases hq
      exact ⟨hrate, hsame.1, hsame.2.1, hsame.2.2.1⟩
    · rintro ⟨-, hc, hn, hs⟩
      exact ⟨_, rfl, hc, hn, hs, rfl⟩
  · obtain ⟨e, he⟩ := @parseObject_not_finite [space] [space] hlead _ (squeezed p) hrate []
    rw [List.append_nil] at he
    refine iff_of_false ?_ fun h => hrate h.1
    rintro ⟨q, hq, -⟩
    rw [he] at hq
    cases hq

/-- The lines are framed in any case, so only what they say is left. -/
theorem lossless_iff_saying [Lconv] {status : Text} {products : List (Product (BitVec 32))} :
    Lossless status products ↔ ∀ p ∈ products, Says (productToJsonLine p) p := by
  obtain ⟨hlines, hunended⟩ := lines_answer status products
  rw [Lossless, hlines, ← List.forall₂_same, ← List.forall₂_map_left_iff]
  constructor
  · rintro ⟨lines, hcons, -, -, hall⟩
    rwa [(List.cons.inj hcons).2]
  · intro hall
    refine ⟨_, rfl, hunended, fun l hl => ?_, hall⟩
    obtain ⟨p, -, rfl⟩ := List.mem_map.mp hl
    exact notMem_productToJsonLine p

/-- The answer is lossless exactly when every rate is a number and no string of a product has two
adjacent spaces. -/
theorem lossless_iff [Lconv] {status : Text} {products : List (Product (BitVec 32))}
    (h : ∀ p ∈ products, AllPrintable p) :
    Lossless status products ↔ ∀ p ∈ products, Finite p.qualityRate ∧ Squeezed p.productCode ∧
      Squeezed p.name ∧ Squeezed p.status := by
  rw [lossless_iff_saying]
  exact forall₂_congr fun p hp => says_iff (h p hp)

/-- A name with two spaces in a row. -/
def spaced : Product (BitVec 32) :=
  { productCode := ascii "P", name := ascii "a  b", qualityRate := 0x42C80000 }

theorem allPrintable_spaced : AllPrintable spaced := ⟨by decide, by decide, by decide⟩

theorem not_lossless_spaced : AllPrintable spaced ∧ ¬@Lossless Lconv.c [] [spaced] := by
  refine ⟨allPrintable_spaced, fun h => ?_⟩
  have hkept := (@says_iff Lconv.c _ allPrintable_spaced).mp
    ((@lossless_iff_saying Lconv.c _ _).mp h spaced (List.mem_singleton_self spaced))
  refine hkept.2.2.1 ?_
  exact ⟨ascii "a", ascii "b", rfl⟩

theorem lossless_iff_spaced :
    @Lossless Lconv.c [] [spaced] ↔ ∀ p ∈ [spaced], Finite p.qualityRate ∧ Squeezed p.productCode ∧
      Squeezed p.name ∧ Squeezed p.status := by
  refine @lossless_iff Lconv.c _ _ fun p hp => ?_
  rw [List.mem_singleton.mp hp]
  exact allPrintable_spaced

end ProductStream
