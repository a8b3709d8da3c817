import IndustrialHmi.Integration.ExportedProduct

/-!
# Products as JSON

The writer prints an array of objects, and the reader goes down such a text with white space
anywhere between two tokens.  A string is escaped byte by byte.  Every control character has an
escape, and five of them have a short one.  The others are written by their code, and the reader
throws on that (`stringLoop_escaped`).  Its comment says that nothing written here has such an
escape.

So what was written is read back exactly as long as no string has a control character other than
those five, and `std::stof` takes a point for the decimal point of the program's locale or finds a
zero behind it (`roundTripsJson_iff`).
-/

namespace JsonExport

open CType Numeral Export

def quote : UInt8 := 0x22
def backslash : UInt8 := 0x5C
def space : UInt8 := 0x20
def newline : UInt8 := 0x0A
def comma : UInt8 := 0x2C
def colon : UInt8 := 0x3A
def openBrace : UInt8 := 0x7B
def closeBrace : UInt8 := 0x7D
def openBracket : UInt8 := 0x5B
def closeBracket : UInt8 := 0x5D

/-! ## Writing -/

def escapeChar (c : UInt8) : Text :=
  if c = quote then ascii "\\\""
  else if c = backslash then ascii "\\\\"
  else if c = 0x08 then ascii "\\b"
  else if c = 0x0C then ascii "\\f"
  else if c = 0x0A then ascii "\\n"
  else if c = 0x0D then ascii "\\r"
  else if c = 0x09 then ascii "\\t"
  else if c < 0x20 then
    ascii "\\u00" ++ [JsonText.hexDigit (c / 16), JsonText.hexDigit (c % 16)]
  else [c]

def escapeString (s : Text) : Text := s.flatMap escapeChar

def stringMember (key s : Text) : Text :=
  quote :: (key ++ quote :: colon :: space :: quote :: (escapeString s ++ [quote]))

def numberMember (key number : Text) : Text :=
  quote :: (key ++ quote :: colon :: space :: number)

/-- An object with the white space in front of each member and before the end. -/
def objectText (lead close : Text) (p : Product (BitVec 32)) : Text :=
  openBrace :: (lead ++ (stringMember (ascii "productCode") p.productCode ++
    comma :: (lead ++ (stringMember (ascii "name") p.name ++
    comma :: (lead ++ (stringMember (ascii "status") p.status ++
    comma :: (lead ++ (numberMember (ascii "stock") (ascii (toString p.stock.toInt)) ++
    comma :: (lead ++ (numberMember (ascii "qualityRate") (fmtRate p.qualityRate) ++
    (close ++ [closeBrace])))))))))))

def writeProduct (p : Product (BitVec 32)) : Text :=
  ascii "  " ++ objectText (newline :: ascii "    ") (newline :: ascii "  ") p

/-- The objects with a comma behind all but the last. -/
def writeObjects : List (Product (BitVec 32)) → Text
  | [] => []
  | [p] => writeProduct p ++ [newline]
  | p :: products => writeProduct p ++ comma :: newline :: writeObjects products

def writeProducts (products : List (Product (BitVec 32))) : Text :=
  if products = [] then openBracket :: closeBracket :: [newline]
  else openBracket :: newline :: (writeObjects products ++ closeBracket :: [newline])

/-! ## Reading -/

/-- What the reader throws; nothing stands for the end of the stream.  What is left of the stream
tells the offset that the first of the messages names. -/
inductive Error where
  | expected (c : UInt8) (got : Option UInt8) (left : Text)
  | endInsideString
  | unicodeEscape
  | badEscape (esc : Option UInt8)
  | expectedNumber
  | stock (s : Text)
  | rate (s : Text)
  | betweenObjects (got : Option UInt8)
  deriving DecidableEq

def isWs (c : UInt8) : Bool := c = 0x20 ∨ c = 0x09 ∨ c = 0x0A ∨ c = 0x0D

def skipWs (t : Text) : Text := t.dropWhile isWs

def expect (c : UInt8) (t : Text) : Except Error Text :=
  match skipWs t with
  | [] => .error (.expected c none [])
  | got :: rest => if got = c then .ok rest else .error (.expected c (some got) rest)

/-- The byte of a short escape. -/
def unescape (esc : UInt8) : Option UInt8 :=
  if esc = quote then some quote
  else if esc = backslash then some backslash
  else if esc = 0x2F then some 0x2F
  else if esc = 0x62 then some 0x08
  else if esc = 0x66 then some 0x0C
  else if esc = 0x6E then some 0x0A
  else if esc = 0x72 then some 0x0D
  else if esc = 0x74 then some 0x09
  else none

/-- The loop of `parseString`. -/
def stringLoop (out : Text) : Text → Except Error (Text × Text)
  | [] => .error .endInsideString
  | c :: rest =>
      if c = quote then .ok (out, rest)
      else if c = backslash then
        match rest with
        | [] => .error (.badEscape none)
        | esc :: rest' =>
            match unescape esc with
            | some b => stringLoop (out ++ [b]) rest'
            | none => .error (if esc = 0x75 then .unicodeEscape else .badEscape (some esc))
      else stringLoop (out ++ [c]) rest

def parseString (t : Text) : Except Error (Text × Text) :=
  match expect quote t with
  | .error e => .error e
  | .ok rest => stringLoop [] rest

def isNumberChar (c : UInt8) : Bool :=
  isDigit c || c = minus || c = plus || c = point || c = 0x65 || c = 0x45

def parseNumber (t : Text) : Except Error (Text × Text) :=
  let number := (skipWs t).takeWhile isNumberChar
  if number = [] then .error .expectedNumber else .ok (number, (skipWs t).dropWhile isNumberChar)

/-- The value of a member; that of an unknown one is skipped. -/
def parseValue [Lconv] (key : Text) (p : Product Binary32) (t : Text) :
    Except Error (Product Binary32 × Text) :=
  if key = ascii "productCode" then
    (parseString t).map fun (s, rest) => ({ p with productCode := s }, rest)
  else if key = ascii "name" then
    (parseString t).map fun (s, rest) => ({ p with name := s }, rest)
  else if key = ascii "status" then
    (parseString t).map fun (s, rest) => ({ p with status := s }, rest)
  else if key = ascii "stock" then
    (parseNumber t).bind fun (s, rest) =>
      match fromCharsInt s with
      | none => .error (.stock s)
      | some (stock, _) => .ok ({ p with stock := Int32.ofInt stock }, rest)
  else if key = ascii "qualityRate" then
    (parseNumber t).bind fun (s, rest) =>
      match stof s with
      | none => .error (.rate s)
      | some qualityRate => .ok ({ p with qualityRate }, rest)
  else if t.head? = some quote then (parseString t).map fun (_, rest) => (p, rest)
  else (parseNumber t).map fun (_, rest) => (p, rest)

/-- What one turn of the loop over the members finds. -/
inductive Member where
  | closed (rest : Text)
  | read (p : Product Binary32) (rest : Text)

/-- What is left of the stream behind it. -/
def Member.rest : Member → Text
  | closed rest => rest
  | read _ rest => rest

def parseMember [Lconv] (first : Bool) (p : Product Binary32) (t : Text) : Except Error Member :=
  let t := skipWs t
  if t.head? = some closeBrace then .ok (.closed t.tail)
  else
    (if first then .ok t else expect comma t).bind fun t =>
    (parseString t).bind fun (key, t) =>
    (expect colon t).bind fun t =>
    (parseValue key p (skipWs t)).bind fun (p, t) =>
    .ok (.read p t)

/-! ### What is consumed -/

theorem bind_eq_ok {ε α β : Type} {x : Except ε α} {f : α → Except ε β} {b : β} :
    x.bind f = .ok b ↔ ∃ a, x = .ok a ∧ f a = .ok b := by
  cases x with
  | error e =>
      refine iff_of_false (fun h => by cases h) ?_
      rintro ⟨a, h, -⟩
      cases h
  | ok a =>
      constructor
      · exact fun h => ⟨a, rfl, h⟩
      · rintro ⟨a', ha, h⟩
        cases ha
        exact h

theorem ok_bind {ε α β : Type} (a : α) (f : α → Except ε β) : (Except.ok a).bind f = f a := rfl

theorem map_eq_ok {ε α β : Type} {x : Except ε α} {f : α → β} {b : β} :
    x.map f = .ok b ↔ ∃ a, x = .ok a ∧ f a = b := by
  have hbind : x.map f = x.bind fun a => .ok (f a) := by
    cases x with
    | error e => rfl
    | ok a => rfl
  rw [hbind, bind_eq_ok]
  simp only [Except.ok.injEq]

theorem length_skipWs (t : Text) : (skipWs t).length ≤ t.length :=
  (List.dropWhile_sublist _).length_le

theorem expect_length {c : UInt8} {t rest : Text} (h : expect c t = .ok rest) :
    rest.length < t.length := by
  have hle := length_skipWs t
  rw [expect] at h
  split at h
  · cases h
  · next got rest' hskip =>
      rw [hskip, List.length_cons] at hle
      split at h
      · cases h
        exact hle
      · cases h

section

variable {out rest : Text} {c : UInt8}

theorem stringLoop_quote : stringLoop out (quote :: rest) = .ok (out, rest) := by
  cases rest <;> rfl

theorem stringLoop_plain (hquote : c ≠ quote) (hbackslash : c ≠ backslash) :
    stringLoop out (c :: rest) = stringLoop (out ++ [c]) rest := by
  cases rest <;> exact (if_neg hquote).trans (if_neg hbackslash)

theorem stringLoop_escape {b : UInt8} (h : unescape c = some b) :
    stringLoop out (backslash :: c :: rest) = stringLoop (out ++ [b]) rest := by
  rw [stringLoop, if_neg (by decide), if_pos rfl]
  simp only [h]

theorem stringLoop_badEscape (h : unescape c = none) :
    stringLoop out (backslash :: c :: rest) =
      .error (if c = 0x75 then .unicodeEscape else .badEscape (some c)) := by
  rw [stringLoop, if_neg (by decide), if_pos rfl]
  simp only [h]

end

theorem stringLoop_length {s : Text} {t : Text} : ∀ {out rest : Text},
    stringLoop out t = .ok (s, rest) → rest.length ≤ t.length := by
  induction t using List.twoStepInduction with
  | nil => intro out rest h; cases h
  | singleton c =>
      intro out rest h
      simp only [stringLoop] at h
      split_ifs at h
      cases h
      exact Nat.zero_le _
  | cons_cons c d t ih₁ ih₂ =>
      intro out rest h
      by_cases hquote : c = quote
      · rw [hquote, stringLoop_quote] at h
        cases h
        exact Nat.le_succ _
      by_cases hbackslash : c = backslash
      · subst hbackslash
        cases hescape : unescape d with
        | none =>
            rw [stringLoop_badEscape hescape] at h
            cases h
        | some b =>
            rw [stringLoop_escape hescape] at h
            exact (ih₁ h).trans (Nat.le_add_right _ 2)
      · rw [stringLoop_plain hquote hbackslash] at h
        exact (ih₂ d h).trans (Nat.le_succ _)

theorem parseString_length {s t rest : Text} (h : parseString t = .ok (s, rest)) :
    rest.length < t.length := by
  rw [parseString] at h
  split at h
  · cases h
  · next t' hexpect => exact Nat.lt_of_le_of_lt (stringLoop_length h) (expect_length hexpect)

theorem parseNumber_length {s t rest : Text} (h : parseNumber t = .ok (s, rest)) :
    rest.length ≤ t.length := by
  rw [parseNumber] at h
  split at h
  · cases h
  · cases h
    exact (List.dropWhile_sublist _).length_le.trans (length_skipWs t)

theorem parseValue_length [Lconv] {key t rest : Text} {p p' : Product Binary32}
    (h : parseValue key p t = .ok (p', rest)) : rest.length ≤ t.length := by
  have hstring : ∀ {f : Text → Product Binary32},
      ((parseString t).map fun r => (f r.1, r.2)) = .ok (p', rest) → rest.length ≤ t.length := by
    intro f hmap
    obtain ⟨r, hr, heq⟩ := map_eq_ok.mp hmap
    cases heq
    exact Nat.le_of_lt (parseString_length hr)
  have hnumber : ∀ {f : Text × Text → Except Error (Product Binary32 × Text)},
      (∀ r p'' rest', f r = .ok (p'', rest') → rest' = r.2) →
        (parseNumber t).bind f = .ok (p', rest) → rest.length ≤ t.length := by
    intro f hf hbind
    obtain ⟨r, hr, heq⟩ := bind_eq_ok.mp hbind
    rw [hf r p' rest heq]
    exact parseNumber_length hr
  simp only [parseValue] at h
  split_ifs at h
  · exact hstring (f := fun s => { p with productCode := s }) h
  · exact hstring (f := fun s => { p with name := s }) h
  · exact hstring (f := fun s => { p with status := s }) h
  · refine hnumber (fun r p'' rest' hr => ?_) h
    split at hr
    · cases hr
    · cases hr
      rfl
  · refine hnumber (fun r p'' rest' hr => ?_) h
    split at hr
    · cases hr
    · cases hr
      rfl
  · exact hstring (f := fun _ => p) h
  · obtain ⟨r, hr, heq⟩ := map_eq_ok.mp h
    cases heq
    exact parseNumber_length hr

theorem parseMember_length [Lconv] {first : Bool} {p : Product Binary32} {t : Text} {m : Member}
    (h : parseMember first p t = .ok m) : m.rest.length < t.length := by
  have hskip := length_skipWs t
  simp only [parseMember] at h
  split at h
  · next hclosed =>
      cases h
      cases hs : skipWs t with
      | nil => rw [hs] at hclosed; cases hclosed
      | cons c t' =>
          rw [hs] at hskip
          exact hskip
  · obtain ⟨t₁, h₁, h⟩ := bind_eq_ok.mp h
    obtain ⟨r₂, h₂, h⟩ := bind_eq_ok.mp h
    obtain ⟨t₃, h₃, h⟩ := bind_eq_ok.mp h
    obtain ⟨r₄, h₄, h⟩ := bind_eq_ok.mp h
    cases h
    have hlength₁ : t₁.length ≤ (skipWs t).length := by
      cases first with
      | true => cases h₁; exact Nat.le_refl _
      | false => exact Nat.le_of_lt (expect_length h₁)
    have hlength₂ := parseString_length h₂
    have hlength₃ := expect_length h₃
    have hlength₄ := parseValue_length h₄
    have hskip₃ := length_skipWs t₃
    show r₄.2.length < t.length
    omega

/-! ### The loops -/

def objectLoop [Lconv] (first : Bool) (p : Product Binary32) (t : Text) :
    Except Error (Product Binary32 × Text) :=
  match _h : parseMember first p t with
  | .error e => .error e
  | .ok (.closed rest) => .ok (p, rest)
  | .ok (.read p' rest) => objectLoop false p' rest
termination_by t.length
decreasing_by exact parseMember_length _h

/-- One object; its numbers are not initialised before they are read. -/
def parseObject [Lconv] (t : Text) : Except Error (Product Binary32 × Text) :=
  (expect openBrace t).bind (objectLoop true { qualityRate := .fin 0 })

section

variable {first : Bool} {p p' q : Product Binary32} {t rest : Text}

theorem objectLoop_error [Lconv] {e : Error} (h : parseMember first p t = .error e) :
    objectLoop first p t = .error e := by
  rw [objectLoop]
  split <;> simp_all

theorem objectLoop_closed [Lconv] (h : parseMember first p t = .ok (.closed rest)) :
    objectLoop first p t = .ok (p, rest) := by
  rw [objectLoop]
  split <;> simp_all

theorem objectLoop_read [Lconv] (h : parseMember first p t = .ok (.read p' rest)) :
    objectLoop first p t = objectLoop false p' rest := by
  rw [objectLoop]
  split <;> simp_all

theorem objectLoop_length [Lconv] (h : objectLoop first p t = .ok (q, rest)) :
    rest.length < t.length := by
  induction first, p, t using objectLoop.induct with
  | case1 first p t e hm =>
      rw [objectLoop_error hm] at h
      cases h
  | case2 first p t rest' hm =>
      rw [objectLoop_closed hm] at h
      cases h
      exact parseMember_length hm
  | case3 first p t p' rest' hm ih =>
      rw [objectLoop_read hm] at h
      exact (ih h).trans (parseMember_length hm)

end

theorem parseObject_length [Lconv] {p : Product Binary32} {t rest : Text}
    (h : parseObject t = .ok (p, rest)) : rest.length < t.length := by
  obtain ⟨t', ht', hloop⟩ := bind_eq_ok.mp h
  exact (objectLoop_length hloop).trans (expect_length ht')

def arrayLoop [Lconv] (result : List (Product Binary32)) (t : Text) :
    Except Error (List (Product Binary32)) :=
  match _h : parseObject t with
  | .error e => .error e
  | .ok (p, rest) =>
      match _h' : skipWs rest with
      | [] => .error (.betweenObjects none)
      | after :: rest' =>
          if after = closeBracket then .ok (result ++ [p])
          else if after ≠ comma then .error (.betweenObjects (some after))
          else arrayLoop (result ++ [p]) rest'
termination_by t.length
decreasing_by
  have hobject := parseObject_length _h
  have hskip := length_skipWs rest
  rw [_h', List.length_cons] at hskip
  omega

def readProducts [Lconv] (t : Text) : Except Error (List (Product Binary32)) :=
  (expect openBracket t).bind fun t =>
    if (skipWs t).head? = some closeBracket then .ok [] else arrayLoop [] (skipWs t)

theorem arrayLoop_error [Lconv] {result : List (Product Binary32)} {t : Text} {e : Error}
    (h : parseObject t = .error e) : arrayLoop result t = .error e := by
  rw [arrayLoop]
  split <;> simp_all

theorem arrayLoop_read [Lconv] {result : List (Product Binary32)} {p : Product Binary32}
    {t rest rest' : Text} {after : UInt8} (h : parseObject t = .ok (p, rest))
    (hskip : skipWs rest = after :: rest') :
    arrayLoop result t =
      if after = closeBracket then .ok (result ++ [p])
      else if after ≠ comma then .error (.betweenObjects (some after))
      else arrayLoop (result ++ [p]) rest' := by
  rw [arrayLoop]
  split
  · next h' => rw [h] at h'; cases h'
  · next h' =>
      rw [h] at h'
      cases h'
      split
      · next hskip' => rw [hskip] at hskip'; cases hskip'
      · next hskip' =>
          rw [hskip] at hskip'
          cases hskip'
          rfl

/-! ## Strings -/

/-- A byte that the reader reads back: no control character, or one with a short escape. -/
def Spellable (c : UInt8) : Prop := 0x20 ≤ c ∨ c ∈ [0x08, 0x09, 0x0A, 0x0C, 0x0D]

instance (c : UInt8) : Decidable (Spellable c) :=
  inferInstanceAs (Decidable (0x20 ≤ c ∨ c ∈ [0x08, 0x09, 0x0A, 0x0C, 0x0D]))

def Readable (s : Text) : Prop := s.All Spellable

instance (s : Text) : Decidable (Readable s) := inferInstanceAs (Decidable (s.All Spellable))

/-- A byte stands for itself or has a short escape. -/
theorem escapeChar_of_spellable {c : UInt8} (h : Spellable c) :
    (escapeChar c = [c] ∧ c ≠ quote ∧ c ≠ backslash) ∨
      (escapeChar c = [backslash, (escapeChar c).getD 1 0] ∧
        unescape ((escapeChar c).getD 1 0) = some c) := by
  revert h
  refine forall_byte (P := fun c => Spellable c →
    (escapeChar c = [c] ∧ c ≠ quote ∧ c ≠ backslash) ∨
      (escapeChar c = [backslash, (escapeChar c).getD 1 0] ∧
        unescape ((escapeChar c).getD 1 0) = some c)) ?_ c
  decide +kernel

/-- The others are written by their code. -/
theorem escapeChar_of_not_spellable {c : UInt8} (h : ¬Spellable c) :
    escapeChar c = backslash :: 0x75 :: (escapeChar c).drop 2 := by
  revert h
  refine forall_byte (P := fun c => ¬Spellable c →
    escapeChar c = backslash :: 0x75 :: (escapeChar c).drop 2) ?_ c
  decide +kernel

theorem escapeString_cons (c : UInt8) (s rest : Text) :
    escapeString (c :: s) ++ rest = escapeChar c ++ (escapeString s ++ rest) := by
  rw [escapeString, List.flatMap_cons, List.append_assoc]
  rfl

/-- An escaped string is read back up to its closing quote, if all of it has a short spelling. -/
theorem stringLoop_escaped (s out rest : Text) :
    stringLoop out (escapeString s ++ quote :: rest) =
      if Readable s then .ok (out ++ s, rest) else .error .unicodeEscape := by
  induction s generalizing out with
  | nil =>
      rw [List.append_nil]
      exact stringLoop_quote
  | cons c s ih =>
      have hout : out ++ [c] ++ s = out ++ c :: s := List.append_assoc out [c] s
      have hcons : Readable (c :: s) ↔ Spellable c ∧ Readable s := List.forall_mem_cons
      rw [escapeString_cons]
      by_cases hc : Spellable c
      · have hloop : stringLoop out (escapeChar c ++ (escapeString s ++ quote :: rest)) =
            stringLoop (out ++ [c]) (escapeString s ++ quote :: rest) := by
          rcases escapeChar_of_spellable hc with ⟨hself, hquote, hbackslash⟩ | ⟨hescape, hread⟩
          · rw [hself]
            exact stringLoop_plain hquote hbackslash
          · rw [hescape]
            exact stringLoop_escape hread
        rw [hloop, ih, hout]
        simp only [hcons, hc, true_and]
      · rw [escapeChar_of_not_spellable hc, if_neg fun h => hc (hcons.mp h).1]
        exact stringLoop_badEscape (by decide)

theorem skipWs_append {lead rest : Text} (hlead : lead.All fun c => isWs c = true)
    (hrest : ∀ c ∈ rest.head?, isWs c = false) : skipWs (lead ++ rest) = rest :=
  (takeWhile_run hlead hrest).2

theorem skipWs_self {t : Text} (h : ∀ c ∈ t.head?, isWs c = false) : skipWs t = t :=
  dropWhile_eq_self h

theorem expect_lead {lead rest : Text} {c : UInt8} (hlead : lead.All fun c => isWs c = true)
    (hc : isWs c = false) : expect c (lead ++ c :: rest) = .ok rest := by
  have hskip := @skipWs_append lead (c :: rest) hlead fun d hd => by
    cases hd
    exact hc
  simp only [expect, hskip, if_true]

theorem expect_self {rest : Text} {c : UInt8} (hc : isWs c = false) :
    expect c (c :: rest) = .ok rest :=
  @expect_lead [] rest c (fun d hd => by cases hd) hc

theorem expect_skipWs (c : UInt8) (t : Text) : expect c (skipWs t) = expect c t := by
  have hskip : skipWs (skipWs t) = skipWs t := skipWs_self (head_dropWhile isWs t)
  rw [expect, expect, hskip]

theorem parseString_escaped {lead : Text} (hlead : lead.All fun c => isWs c = true)
    (s rest : Text) :
    parseString (lead ++ quote :: (escapeString s ++ quote :: rest)) =
      if Readable s then .ok (s, rest) else .error .unicodeEscape := by
  rw [parseString, expect_lead hlead (by decide)]
  exact stringLoop_escaped s [] rest

/-- A name that needs no escapes. -/
def PlainKey (key : Text) : Prop := key.All fun c => 0x20 ≤ c ∧ c ≠ quote ∧ c ≠ backslash

instance (key : Text) : Decidable (PlainKey key) :=
  inferInstanceAs (Decidable (key.All fun c => 0x20 ≤ c ∧ c ≠ quote ∧ c ≠ backslash))

theorem escapeString_plain {key : Text} (h : PlainKey key) : escapeString key = key := by
  have hchar : ∀ c ∈ key, escapeChar c = [c] := by
    intro c hc
    have hplain := h c hc
    revert hplain
    refine forall_byte (P := fun c => 0x20 ≤ c ∧ c ≠ quote ∧ c ≠ backslash →
      escapeChar c = [c]) ?_ c
    decide +kernel
  rw [escapeString, List.flatMap_congr hchar]
  exact List.flatMap_singleton' key

theorem readable_plain {key : Text} (h : PlainKey key) : Readable key :=
  fun c hc => .inl (h c hc).1

/-! ## Members -/

section

variable {first : Bool} {p p' : Product Binary32} {lead key value rest : Text}

/-- The comma in front of every member but the first. -/
def separator (first : Bool) : Text := if first then [] else [comma]

/-- A member that was written is read for its value. -/
theorem parseMember_written [Lconv] (hlead : lead.All fun c => isWs c = true) (hkey : PlainKey key)
    (hvalue : ∀ c ∈ value.head?, isWs c = false) :
    parseMember first p
        (separator first ++ (lead ++ quote :: (key ++ quote :: colon :: space :: value))) =
      (parseValue key p value).bind fun r => .ok (.read r.1 r.2) := by
  have hcolon : skipWs (space :: value) = value :=
    @skipWs_append [space] value (by decide) hvalue
  have hread : (parseString (lead ++ quote :: (key ++ quote :: colon :: space :: value))).bind
        (fun r => (expect colon r.2).bind fun t =>
          (parseValue r.1 p (skipWs t)).bind fun r => .ok (Member.read r.1 r.2)) =
      (parseValue key p value).bind fun r => .ok (.read r.1 r.2) := by
    have hname := parseString_escaped hlead key (colon :: space :: value)
    rw [escapeString_plain hkey, if_pos (readable_plain hkey)] at hname
    rw [hname, ok_bind, expect_self (by decide), ok_bind, hcolon]
  cases first with
  | true =>
      have hskip : skipWs (separator true ++
          (lead ++ quote :: (key ++ quote :: colon :: space :: value))) =
            quote :: (key ++ quote :: colon :: space :: value) :=
        @skipWs_append lead _ hlead (Text.forall_head (by decide) _)
      have hname := @parseString_escaped lead hlead key (colon :: space :: value)
      have hself := @parseString_escaped [] (fun c hc => by cases hc) key (colon :: space :: value)
      rw [escapeString_plain hkey] at hname hself
      rw [hname, ← hself] at hread
      simp only [parseMember, hskip]
      rw [if_neg (by rw [List.head?_cons]; decide)]
      exact hread
  | false =>
      have hskip : skipWs (separator false ++
          (lead ++ quote :: (key ++ quote :: colon :: space :: value))) =
            comma :: (lead ++ quote :: (key ++ quote :: colon :: space :: value)) :=
        skipWs_self (Text.forall_head (by decide) _)
      simp only [parseMember, hskip]
      rw [if_neg (by rw [List.head?_cons]; decide)]
      rw [if_neg Bool.false_ne_true, expect_self (by decide), ok_bind]
      exact hread

theorem objectLoop_written [Lconv] (hlead : lead.All fun c => isWs c = true) (hkey : PlainKey key)
    (hvalue : ∀ c ∈ value.head?, isWs c = false) (h : parseValue key p value = .ok (p', rest)) :
    objectLoop first p
        (separator first ++ (lead ++ quote :: (key ++ quote :: colon :: space :: value))) =
      objectLoop false p' rest := by
  refine objectLoop_read ?_
  rw [parseMember_written hlead hkey hvalue, h]
  rfl

theorem objectLoop_written_error [Lconv] {e : Error} (hlead : lead.All fun c => isWs c = true)
    (hkey : PlainKey key) (hvalue : ∀ c ∈ value.head?, isWs c = false)
    (h : parseValue key p value = .error e) :
    objectLoop first p
        (separator first ++ (lead ++ quote :: (key ++ quote :: colon :: space :: value))) =
      .error e := by
  refine objectLoop_error ?_
  rw [parseMember_written hlead hkey hvalue, h]
  rfl

/-- A string member sets its field, if the string can be read. -/
theorem objectLoop_string [Lconv] (f : Text → Product Binary32) {s : Text}
    (hlead : lead.All fun c => isWs c = true) (hkey : PlainKey key)
    (hset : ∀ t, parseValue key p t = (parseString t).map fun r => (f r.1, r.2)) :
    objectLoop first p (separator first ++ (lead ++ (stringMember key s ++ rest))) =
      if Readable s then objectLoop false (f s) rest else .error .unicodeEscape := by
  have hmember : stringMember key s ++ rest =
      quote :: (key ++ quote :: colon :: space ::
        (quote :: (escapeString s ++ quote :: rest))) := by
    simp only [stringMember, List.cons_append, List.append_assoc, List.nil_append]
  have hstring := @parseString_escaped [] (fun c hc => by cases hc) s rest
  rw [List.nil_append] at hstring
  have hvalue : parseValue key p (quote :: (escapeString s ++ quote :: rest)) =
      if Readable s then .ok (f s, rest) else .error .unicodeEscape := by
    rw [hset, hstring]
    split <;> rfl
  have hhead : ∀ c ∈ (quote :: (escapeString s ++ quote :: rest)).head?, isWs c = false :=
    Text.forall_head (by decide) _
  rw [hmember]
  split
  · next h => exact objectLoop_written hlead hkey hhead (hvalue.trans (if_pos h))
  · next h => exact objectLoop_written_error hlead hkey hhead (hvalue.trans (if_neg h))

theorem isNumberChar_of_numeric {number : Text} (h : IsNumeric number) :
    number.All fun c => isNumberChar c = true := h.all (by decide +kernel)

theorem isWs_of_numeric {number : Text} (h : IsNumeric number) :
    ∀ c ∈ number.head?, isWs c = false := by
  have hall : number.All fun c => isWs c = false := h.all (by decide +kernel)
  exact fun c hc => hall c (List.mem_of_mem_head? hc)

/-- A number member sets its field. -/
theorem objectLoop_number [Lconv] {number : Text} (hlead : lead.All fun c => isWs c = true)
    (hkey : PlainKey key) (hnumber : IsNumeric number) (hne : number ≠ [])
    (hrest : ∀ c ∈ rest.head?, isNumberChar c = false)
    (hset : parseNumber (number ++ rest) = .ok (number, rest) →
      parseValue key p (number ++ rest) = .ok (p', rest)) :
    objectLoop first p (separator first ++ (lead ++ (numberMember key number ++ rest))) =
      objectLoop false p' rest := by
  have hmember : numberMember key number ++ rest =
      quote :: (key ++ quote :: colon :: space :: (number ++ rest)) := by
    simp only [numberMember, List.cons_append, List.append_assoc]
  have hhead : ∀ c ∈ (number ++ rest).head?, isWs c = false := by
    cases number with
    | nil => exact absurd rfl hne
    | cons d number =>
        intro c hc
        cases hc
        exact isWs_of_numeric hnumber d rfl
  obtain ⟨htake, hdrop⟩ := takeWhile_run (isNumberChar_of_numeric hnumber) hrest
  have hparse : parseNumber (number ++ rest) = .ok (number, rest) := by
    simp only [parseNumber, skipWs_self hhead, htake, hdrop, if_neg hne]
  rw [hmember]
  exact objectLoop_written hlead hkey hhead (hset hparse)

theorem objectLoop_close [Lconv] {close : Text} (hclose : close.All fun c => isWs c = true) :
    objectLoop first p (close ++ closeBrace :: rest) = .ok (p, rest) := by
  refine objectLoop_closed ?_
  have hskip := @skipWs_append close (closeBrace :: rest) hclose (Text.forall_head (by decide) _)
  simp only [parseMember, hskip, List.head?_cons, if_true, List.tail_cons]

end

/-! ## Objects -/

/-- All strings of the product are read back. -/
def AllReadable {ρ : Type} (p : Product ρ) : Prop :=
  Readable p.productCode ∧ Readable p.name ∧ Readable p.status

instance {ρ : Type} (p : Product ρ) : Decidable (AllReadable p) :=
  inferInstanceAs (Decidable (Readable p.productCode ∧ Readable p.name ∧ Readable p.status))

/-- The object before its rate is read. -/
def Product.beforeRate (p : Product (BitVec 32)) : Product Binary32 :=
  { p with qualityRate := .fin 0 }

theorem parseValue_stock [Lconv] (stock : Int32) {q : Product Binary32} {rest : Text}
    (h : parseNumber (ascii (toString stock.toInt) ++ rest) =
      .ok (ascii (toString stock.toInt), rest)) :
    parseValue (ascii "stock") q (ascii (toString stock.toInt) ++ rest) =
      .ok ({ q with stock }, rest) := by
  have hread := @fromChars_int stock.toInt (inInt_toInt _) [] fun b hb => by cases hb
  rw [List.append_nil] at hread
  rw [parseValue, if_neg (by decide), if_neg (by decide), if_neg (by decide), if_pos rfl, h,
    ok_bind]
  simp only [hread, Int32.ofInt_toInt]

theorem parseValue_qualityRate [Lconv] {rate : BitVec 32} (hrate : Finite rate)
    {q : Product Binary32} {rest : Text}
    (h : parseNumber (fmtRate rate ++ rest) = .ok (fmtRate rate, rest)) :
    parseValue (ascii "qualityRate") q (fmtRate rate ++ rest) =
      .ok ({ q with qualityRate := readRate rate }, rest) := by
  rw [parseValue, if_neg (by decide), if_neg (by decide), if_neg (by decide),
    if_neg (by decide), if_pos rfl, h, ok_bind]
  simp only [stof_fmtRate hrate]

/-- No rate is a minus alone. -/
theorem parseValue_minus [Lconv] {q : Product Binary32} {t rest : Text}
    (h : parseNumber t = .ok ([minus], rest)) :
    parseValue (ascii "qualityRate") q t = .error (.rate [minus]) := by
  rw [parseValue, if_neg (by decide), if_neg (by decide), if_neg (by decide),
    if_neg (by decide), if_pos rfl, h, ok_bind]
  simp only [stof_minus]

/-- An object that was written is read member by member. -/
theorem parseObject_members [Lconv] (lead close : Text) (p : Product (BitVec 32)) (rest : Text) :
    parseObject (objectText lead close p ++ rest) =
      objectLoop true { qualityRate := .fin 0 }
        (separator true ++ (lead ++ (stringMember (ascii "productCode") p.productCode ++
          (separator false ++ (lead ++ (stringMember (ascii "name") p.name ++
          (separator false ++ (lead ++ (stringMember (ascii "status") p.status ++
          (separator false ++ (lead ++ (numberMember (ascii "stock")
            (ascii (toString p.stock.toInt)) ++
          (separator false ++ (lead ++ (numberMember (ascii "qualityRate")
            (fmtRate p.qualityRate) ++ (close ++ closeBrace :: rest)))))))))))))))) := by
  rw [parseObject, objectText, List.cons_append, expect_self (by decide), ok_bind]
  simp only [separator, List.cons_append, List.append_assoc, List.nil_append, if_true,
    if_neg Bool.false_ne_true]

section

variable {lead close : Text} (hlead : lead.All fun c => isWs c = true)
include hlead

/-- An object that was written is read up to its rate, if its strings can be read. -/
theorem parseObject_strings [Lconv] (p : Product (BitVec 32)) (rest : Text) :
    parseObject (objectText lead close p ++ rest) =
      if AllReadable p then
        objectLoop false (Product.beforeRate p)
          (separator false ++ (lead ++ (numberMember (ascii "qualityRate")
            (fmtRate p.qualityRate) ++ (close ++ closeBrace :: rest))))
      else .error .unicodeEscape := by
  rw [parseObject_members,
    objectLoop_string (fun s => { qualityRate := .fin 0, productCode := s }) hlead
      (by decide) fun t => rfl]
  by_cases hcode : Readable p.productCode
  · rw [if_pos hcode, objectLoop_string
        (fun s => { qualityRate := .fin 0, productCode := p.productCode, name := s }) hlead
        (by decide) fun t => rfl]
    by_cases hname : Readable p.name
    · rw [if_pos hname, objectLoop_string
          (fun s => { qualityRate := .fin 0, productCode := p.productCode, name := p.name,
                      status := s }) hlead (by decide) fun t => rfl]
      by_cases hstatus : Readable p.status
      · rw [if_pos hstatus, if_pos ⟨hcode, hname, hstatus⟩,
          objectLoop_number hlead (by decide) (isNumeric_int _) (int_ne_nil _)
            (fun c hc => by cases hc; decide) (parseValue_stock p.stock)]
        rfl
      · rw [if_neg hstatus, if_neg fun h => hstatus h.2.2]
    · rw [if_neg hname, if_neg fun h => hname h.2.1]
  · rw [if_neg hcode, if_neg fun h => hcode h.1]

/-- An object that was written, with any white space between its members, is read back. -/
theorem parseObject_written [Lconv] (hclose : close.All fun c => isWs c = true)
    {p : Product (BitVec 32)} (hp : Finite p.qualityRate) (rest : Text) :
    parseObject (objectText lead close p ++ rest) =
      if AllReadable p then .ok (p.asRead, rest) else .error .unicodeEscape := by
  have hend : ∀ c ∈ (close ++ closeBrace :: rest).head?, isNumberChar c = false := by
    cases close with
    | nil => exact Text.forall_head (by decide) _
    | cons d close =>
        intro c hc
        cases hc
        have hd := hclose d List.mem_cons_self
        revert hd
        refine forall_byte (P := fun d => isWs d = true → isNumberChar d = false) ?_ d
        decide +kernel
  rw [parseObject_strings hlead, objectLoop_number hlead (by decide) (isNumeric_fmtRate hp)
      (fmtRate_ne_nil hp) hend (parseValue_qualityRate hp), objectLoop_close hclose]
  rfl

/-- A rate that is no number is printed as a word, and that is no value. -/
theorem parseObject_not_finite [Lconv] {p : Product (BitVec 32)} (hp : ¬Finite p.qualityRate)
    (rest : Text) : ∃ e, parseObject (objectText lead close p ++ rest) = .error e := by
  rw [parseObject_strings hlead]
  by_cases hreadable : AllReadable p
  · rw [if_pos hreadable]
    have hvalue : ∀ rest, (∀ c ∈ (fmtRate p.qualityRate ++ rest).head?, isWs c = false) ∧
        ∃ e, parseValue (ascii "qualityRate") (Product.beforeRate p)
          (fmtRate p.qualityRate ++ rest) = .error e := by
      intro rest
      have hword := fmtRate_not_finite hp
      simp only [List.mem_cons, List.not_mem_nil, or_false] at hword
      rcases hword with h | h | h | h
      · rw [h]
        exact ⟨Text.forall_head (by decide) _, .expectedNumber, rfl⟩
      · rw [h]
        exact ⟨Text.forall_head (by decide) _, _, parseValue_minus rfl⟩
      · rw [h]
        exact ⟨Text.forall_head (by decide) _, .expectedNumber, rfl⟩
      · rw [h]
        exact ⟨Text.forall_head (by decide) _, _, parseValue_minus rfl⟩
    obtain ⟨hhead, e, he⟩ := hvalue (close ++ closeBrace :: rest)
    have hmember : numberMember (ascii "qualityRate") (fmtRate p.qualityRate) ++
        (close ++ closeBrace :: rest) =
          quote :: (ascii "qualityRate" ++ quote :: colon :: space ::
            (fmtRate p.qualityRate ++ (close ++ closeBrace :: rest))) := by
      simp only [numberMember, List.cons_append, List.append_assoc]
    rw [hmember]
    exact ⟨e, objectLoop_written_error hlead (by decide) hhead he⟩
  · exact ⟨_, if_neg hreadable⟩

end

/-! ## Arrays -/

theorem writeObjects_cons (p : Product (BitVec 32)) (products : List (Product (BitVec 32))) :
    writeObjects (p :: products) =
      writeProduct p ++
        ((if products = [] then [] else [comma]) ++ newline :: writeObjects products) := by
  cases products with
  | nil => rfl
  | cons q products => rfl

theorem parseObject_lead [Lconv] {lead : Text} (hlead : lead.All fun c => isWs c = true)
    (t : Text) : parseObject (lead ++ t) = parseObject t := by
  have hskip : skipWs (lead ++ t) = skipWs t := List.dropWhile_append_of_pos hlead
  rw [parseObject, parseObject, expect, expect, hskip]

theorem parseObject_skipWs [Lconv] (t : Text) : parseObject (skipWs t) = parseObject t := by
  rw [parseObject, parseObject, expect_skipWs]

/-- The first object of an array is read, and what follows it is left. -/
theorem parseObject_writeObjects [Lconv] {p : Product (BitVec 32)} (hp : Finite p.qualityRate)
    (products : List (Product (BitVec 32))) (rest : Text) :
    parseObject (writeObjects (p :: products) ++ rest) =
      if AllReadable p then .ok (p.asRead, (if products = [] then [] else [comma]) ++
        newline :: (writeObjects products ++ rest))
      else .error .unicodeEscape := by
  have hspaces : Text.All (fun c => isWs c = true) (ascii "  ") := by decide
  have hlead : Text.All (fun c => isWs c = true) (newline :: ascii "    ") := by decide
  have hclose : Text.All (fun c => isWs c = true) (newline :: ascii "  ") := by decide
  rw [← parseObject_written hlead hclose hp]
  refine Eq.trans ?_ (parseObject_lead hspaces _)
  rw [writeObjects_cons, writeProduct]
  simp only [List.append_assoc, List.cons_append]

/-- The objects of an array are read one by one, up to the first that cannot be read. -/
theorem arrayLoop_written [Lconv] {products : List (Product (BitVec 32))}
    (h : ∀ p ∈ products, Finite p.qualityRate) (hne : products ≠ []) {t : Text}
    (ht : parseObject t = parseObject (writeObjects products ++ [closeBracket, newline]))
    (result : List (Product Binary32)) :
    arrayLoop result t =
      if ∀ p ∈ products, AllReadable p then .ok (result ++ products.map Product.asRead)
      else .error .unicodeEscape := by
  induction products generalizing result t with
  | nil => exact absurd rfl hne
  | cons p products ih =>
      have hparse := ht.trans (parseObject_writeObjects (h p List.mem_cons_self) products _)
      by_cases hreadable : AllReadable p
      · rw [if_pos hreadable] at hparse
        by_cases hlast : products = []
        · subst hlast
          have hskip : skipWs (newline :: ([] ++ [closeBracket, newline])) =
              closeBracket :: [newline] := rfl
          rw [arrayLoop_read hparse hskip, if_pos rfl,
            if_pos fun q hq => List.mem_singleton.mp hq ▸ hreadable]
          rfl
        · have hskip : skipWs ((if products = [] then [] else [comma]) ++
              newline :: (writeObjects products ++ [closeBracket, newline])) =
                comma :: newline :: (writeObjects products ++ [closeBracket, newline]) := by
            rw [if_neg hlast]
            rfl
          have hnext : parseObject (newline :: (writeObjects products ++ [closeBracket, newline])) =
              parseObject (writeObjects products ++ [closeBracket, newline]) :=
            parseObject_lead (show Text.All (isWs · = true) [newline] by decide) _
          rw [arrayLoop_read hparse hskip, if_neg (by decide), if_neg (by decide),
            ih (fun q hq => h q (List.mem_cons_of_mem p hq)) hlast hnext, List.append_assoc]
          simp only [List.forall_mem_cons, hreadable, true_and, List.map_cons,
            List.singleton_append]
      · rw [if_neg hreadable] at hparse
        rw [arrayLoop_error hparse, if_neg fun hall => hreadable (hall p List.mem_cons_self)]

/-- Reading what was written gives the products, with the rates as they were printed. -/
def RoundTripsJson [Lconv] (products : List (Product (BitVec 32))) : Prop :=
  readProducts (writeProducts products) = .ok (products.map Product.asPrinted)

theorem readProducts_written [Lconv] {products : List (Product (BitVec 32))}
    (h : ∀ p ∈ products, Finite p.qualityRate) :
    readProducts (writeProducts products) =
      if ∀ p ∈ products, AllReadable p then .ok (products.map Product.asRead)
      else .error .unicodeEscape := by
  by_cases hempty : products = []
  · subst hempty
    rfl
  · obtain ⟨p, others, rfl⟩ := List.exists_cons_of_ne_nil hempty
    have hopening : (skipWs (newline :: (writeObjects (p :: others) ++
        [closeBracket, newline]))).head? ≠ some closeBracket := by
      have hlead : Text.All (fun c => isWs c = true) (newline :: ascii "  ") := by
        decide
      have hskip := @skipWs_append (newline :: ascii "  ")
        (objectText (newline :: ascii "    ") (newline :: ascii "  ") p ++
          ((if others = [] then [] else [comma]) ++ newline :: (writeObjects others ++
            [closeBracket, newline]))) hlead (Text.forall_head (by decide) _)
      have hsame : newline :: (writeObjects (p :: others) ++ [closeBracket, newline]) =
          (newline :: ascii "  ") ++
            (objectText (newline :: ascii "    ") (newline :: ascii "  ") p ++
            ((if others = [] then [] else [comma]) ++ newline :: (writeObjects others ++
              [closeBracket, newline]))) := by
        rw [writeObjects_cons, writeProduct]
        simp only [List.append_assoc, List.cons_append]
      rw [hsame, hskip]
      exact fun h => absurd (Option.some.inj h) (by decide)
    have hnewline : Text.All (fun c => isWs c = true) [newline] := by decide
    have hfirst : parseObject (skipWs (newline :: (writeObjects (p :: others) ++
        [closeBracket, newline]))) =
          parseObject (writeObjects (p :: others) ++ [closeBracket, newline]) :=
      (parseObject_skipWs _).trans (parseObject_lead hnewline _)
    rw [readProducts, writeProducts, if_neg hempty, expect_self (by decide), ok_bind,
      if_neg hopening]
    exact arrayLoop_written h hempty hfirst []

/-- The export is read back exactly when no string has a control character without a short
escape, and the decimal point is a point or every rate is printed with a zero behind it. -/
theorem roundTripsJson_iff [Lconv] {products : List (Product (BitVec 32))}
    (h : ∀ p ∈ products, Finite p.qualityRate) :
    RoundTripsJson products ↔
      (∀ p ∈ products, Readable p.productCode ∧ Readable p.name ∧ Readable p.status) ∧
        (Lconv.Pointed ∨ ∀ p ∈ products, EndsInZero p.qualityRate) := by
  rw [RoundTripsJson, readProducts_written h, ← map_asRead_eq_iff h]
  by_cases hreadable : ∀ p ∈ products, AllReadable p
  · rw [if_pos hreadable, Except.ok.injEq]
    exact ⟨fun heq => ⟨hreadable, heq⟩, And.right⟩
  · rw [if_neg hreadable]
    refine iff_of_false (fun hread => by cases hread) fun hboth => hreadable hboth.1

/-- A name with an escape character (27) in any locale; and the rate 98.1, which is read as 98
where the decimal point is a comma. -/
theorem not_roundTripsJson_escape :
    (¬@RoundTripsJson Lconv.c
      [{ productCode := ascii "P", name := [0x1B], qualityRate := 0 }]) ∧
    ¬@RoundTripsJson Lconv.comma
      [{ productCode := ascii "P", name := ascii "a", status := ascii "Active",
         qualityRate := 0x42C43333 }] := by
  constructor
  · intro h
    have hread := (@readProducts_written Lconv.c _ (by decide)).symm.trans h
    rw [if_neg (by decide)] at hread
    cases hread
  · intro h
    have hread := (@readProducts_written Lconv.comma _ (by decide)).symm.trans h
    rw [if_pos (by decide)] at hread
    have hnot := (@map_asRead_eq_iff Lconv.comma _ (by decide)).mp (Except.ok.inj hread)
    exact absurd hnot (by decide +kernel)

/-- A name with a line break and a quote. -/
theorem roundTripsJson_line_break :
    @RoundTripsJson Lconv.c
      [{ productCode := ascii "P", name := ascii "a\nb\"", qualityRate := 0x42C43333 }] :=
  (@roundTripsJson_iff Lconv.c _ (by decide)).mpr ⟨by decide, Or.inl rfl⟩

end JsonExport
