import IndustrialHmi.Theory.Json

/-!
# JSON texts

A JSON text is a document spelled out: its tokens in order, with blank space and comments
between them.  How the body of a string and how a literal is read is left open.  A
*context* is a document with one place left out, and the tokens of a document are those
before the place, those of what stands in it, and those after it.
-/

namespace JsonText

/-! ## Tokens -/

def slash : UInt8 := 0x2F
def star : UInt8 := 0x2A

inductive Token where
  | comma
  | colon
  | openBrace
  | closeBrace
  | openBracket
  | closeBracket
  /-- The body of a string as it is spelled, and the string. -/
  | string (raw value : Text)
  /-- A number or a name as it is spelled, and its value. -/
  | literal (raw : Text) (value : Json)

def Token.text : Token → Text
  | .comma => [0x2C]
  | .colon => [0x3A]
  | .openBrace => [0x7B]
  | .closeBrace => [0x7D]
  | .openBracket => [0x5B]
  | .closeBracket => [0x5D]
  | .string raw _ => quote :: raw ++ [quote]
  | .literal raw _ => raw

/-- How strings and literals are read. -/
structure Reading where
  string : Text → Text → Prop
  literal : Text → Json → Prop

def Token.Legit (ρ : Reading) : Token → Prop
  | .string raw value => ρ.string raw value
  | .literal raw value => ρ.literal raw value
  | _ => True

/-! ## Documents -/

/-- A document as it is written, with each member under the spelling of its name and the
name. -/
inductive Written where
  | string (raw value : Text)
  | literal (raw : Text) (value : Json)
  | array (items : List Written)
  | object (members : List ((Text × Text) × Written))

namespace Written

/-- Induction over a document, with what holds of each item and of each member. -/
@[elab_as_elim]
theorem induction {P : Written → Prop} (string : ∀ raw value, P (.string raw value))
    (literal : ∀ raw value, P (.literal raw value))
    (array : ∀ items, (∀ w ∈ items, P w) → P (.array items))
    (object : ∀ members, (∀ e ∈ members, P e.2) → P (.object members)) (w : Written) : P w :=
  @Written.rec P (fun items => ∀ w ∈ items, P w) (fun members => ∀ e ∈ members, P e.2)
    (fun e => P e.2) string literal (fun items h => array items h)
    (fun members h => object members h) (fun _ h => absurd h List.not_mem_nil)
    (fun _ _ hw hitems => List.forall_mem_cons.mpr ⟨hw, hitems⟩)
    (fun _ h => absurd h List.not_mem_nil)
    (fun _ _ he hmembers => List.forall_mem_cons.mpr ⟨he, hmembers⟩) (fun _ _ h => h) w

mutual

/-- The value of a document. -/
def stored : Written → Json
  | .string _ value => .string value
  | .literal _ value => value
  | .array items => .array (storedItems items)
  | .object members => .object (Json.collapse (storedMembers members))

def storedItems : List Written → List Json
  | [] => []
  | w :: items => w.stored :: storedItems items

def storedMembers : List ((Text × Text) × Written) → List (Text × Json)
  | [] => []
  | (key, w) :: members => (key.2, w.stored) :: storedMembers members

end

mutual

def tokens : Written → List Token
  | .string raw value => [.string raw value]
  | .literal raw value => [.literal raw value]
  | .array items =>
      Token.openBracket :: ([Token.comma].intercalate (tokensOfItems items) ++ [.closeBracket])
  | .object members =>
      Token.openBrace :: ([Token.comma].intercalate (tokensOfMembers members) ++ [.closeBrace])

def tokensOfItems : List Written → List (List Token)
  | [] => []
  | w :: items => w.tokens :: tokensOfItems items

def tokensOfMembers : List ((Text × Text) × Written) → List (List Token)
  | [] => []
  | (key, w) :: members =>
      (.string key.1 key.2 :: .colon :: w.tokens) :: tokensOfMembers members

end

theorem storedItems_append (a b : List Written) :
    storedItems (a ++ b) = storedItems a ++ storedItems b := by
  induction a with
  | nil => rfl
  | cons w a ih => exact congrArg (w.stored :: ·) ih

theorem storedMembers_append (a b : List ((Text × Text) × Written)) :
    storedMembers (a ++ b) = storedMembers a ++ storedMembers b := by
  induction a with
  | nil => rfl
  | cons e a ih => exact congrArg ((e.1.2, e.2.stored) :: ·) ih

theorem tokensOfItems_append (a b : List Written) :
    tokensOfItems (a ++ b) = tokensOfItems a ++ tokensOfItems b := by
  induction a with
  | nil => rfl
  | cons w a ih => exact congrArg (w.tokens :: ·) ih

theorem tokensOfMembers_append (a b : List ((Text × Text) × Written)) :
    tokensOfMembers (a ++ b) = tokensOfMembers a ++ tokensOfMembers b := by
  induction a with
  | nil => rfl
  | cons e a ih => exact congrArg ((.string e.1.1 e.1.2 :: .colon :: e.2.tokens) :: ·) ih

theorem mem_tokensOfItems {items : List Written} {l : List Token} :
    l ∈ tokensOfItems items ↔ ∃ w ∈ items, l = w.tokens := by
  induction items with
  | nil => simp [tokensOfItems]
  | cons w items ih => simp [tokensOfItems, ih]

theorem mem_tokensOfMembers {members : List ((Text × Text) × Written)} {l : List Token} :
    l ∈ tokensOfMembers members ↔
      ∃ e ∈ members, l = .string e.1.1 e.1.2 :: .colon :: e.2.tokens := by
  induction members with
  | nil => simp [tokensOfMembers]
  | cons e members ih => simp only [tokensOfMembers, List.mem_cons, ih, exists_eq_or_imp]

end Written

/-! ## Contexts -/

/-- A document with one place left out. -/
inductive Context where
  | hole
  | item (before : List Written) (inner : Context) (after : List Written)
  | member (before : List ((Text × Text) × Written)) (key : Text × Text) (inner : Context)
      (after : List ((Text × Text) × Written))

namespace Context

def plug : Context → Written → Written
  | .hole, w => w
  | .item before inner after, w => .array (before ++ inner.plug w :: after)
  | .member before key inner after, w => .object (before ++ (key, inner.plug w) :: after)

/-- The tokens before the place. -/
def left : Context → List Token
  | .hole => []
  | .item before inner _ =>
      .openBracket :: ((Written.tokensOfItems before).flatMap (· ++ [.comma]) ++ inner.left)
  | .member before key inner _ =>
      .openBrace :: ((Written.tokensOfMembers before).flatMap (· ++ [.comma]) ++
        .string key.1 key.2 :: .colon :: inner.left)

/-- The tokens after the place. -/
def right : Context → List Token
  | .hole => []
  | .item _ inner after =>
      inner.right ++ ((Written.tokensOfItems after).flatMap (.comma :: ·) ++ [.closeBracket])
  | .member _ _ inner after =>
      inner.right ++ ((Written.tokensOfMembers after).flatMap (.comma :: ·) ++ [.closeBrace])

end Context

/-- A list among others joined by commas. -/
theorem intercalate_append_cons {α : Type} (sep : α) (a : List (List α)) (x : List α)
    (b : List (List α)) :
    [sep].intercalate (a ++ x :: b) = a.flatMap (· ++ [sep]) ++ x ++ b.flatMap (sep :: ·) := by
  induction a with
  | nil =>
      induction b generalizing x with
      | nil => simp [List.intercalate]
      | cons y b ih =>
          have hstep : [sep].intercalate (x :: y :: b) =
              x ++ sep :: [sep].intercalate (y :: b) := by
            simp [List.intercalate]
          rw [List.nil_append, hstep, ← List.nil_append (y :: b), ih y]
          simp
  | cons y a ih =>
      have hstep : ∀ z l, [sep].intercalate (y :: z :: l) =
          y ++ sep :: [sep].intercalate (z :: l) := by
        simp [List.intercalate]
      cases a with
      | nil =>
          rw [List.cons_append, List.nil_append, hstep, ← List.nil_append (x :: b), ih]
          simp
      | cons z a =>
          rw [List.cons_append, List.cons_append, hstep, ← List.cons_append, ih]
          simp

/-- What stands in the place has its tokens between those around the place. -/
theorem Context.tokens_plug (c : Context) (w : Written) :
    (c.plug w).tokens = c.left ++ w.tokens ++ c.right := by
  induction c with
  | hole => simp [plug, left, right]
  | item before inner after ih =>
      rw [plug, Written.tokens, Written.tokensOfItems_append, Written.tokensOfItems,
        intercalate_append_cons, ih]
      simp [left, right]
  | member before key inner after ih =>
      rw [plug, Written.tokens, Written.tokensOfMembers_append, Written.tokensOfMembers,
        intercalate_append_cons, ih]
      simp [left, right]

/-! ## Texts -/

def IsBlank (b : UInt8) : Prop := b = 0x20 ∨ b = 0x09 ∨ b = 0x0A ∨ b = 0x0D

instance (b : UInt8) : Decidable (IsBlank b) :=
  inferInstanceAs (Decidable (b = 0x20 ∨ b = 0x09 ∨ b = 0x0A ∨ b = 0x0D))

/-- A byte that ends a comment on one line. -/
def EndsLine (b : UInt8) : Prop := b = 0x0A ∨ b = 0x0D

instance (b : UInt8) : Decidable (EndsLine b) :=
  inferInstanceAs (Decidable (b = 0x0A ∨ b = 0x0D))

/-- The body of a comment on one line. -/
def LineBody (body : Text) : Prop := ∀ b ∈ body, ¬ EndsLine b ∧ b ≠ 0

/-- The body of a comment in brackets. -/
def BlockBody (body : Text) : Prop := ¬ [star, slash] <:+: body ∧ 0 ∉ body

/-- What may stand between two tokens. -/
inductive Gap : Text → Prop where
  | nil : Gap []
  | blank {b : UInt8} {rest : Text} : IsBlank b → Gap rest → Gap (b :: rest)
  | line {body : Text} {b : UInt8} {rest : Text} :
      LineBody body → EndsLine b → Gap rest → Gap (slash :: slash :: body ++ b :: rest)
  | block {body rest : Text} :
      BlockBody body → Gap rest → Gap (slash :: star :: body ++ star :: slash :: rest)

/-- What may stand after the last token: the last line may be a comment. -/
inductive Tail : Text → Prop where
  | gap {gap : Text} : Gap gap → Tail gap
  | line {gap body : Text} : Gap gap → LineBody body → Tail (gap ++ slash :: slash :: body)

/-- The tokens spelled out, each after a gap. -/
inductive Spaced : List Token → Text → Prop where
  | nil : Spaced [] []
  | cons {gap : Text} {t : Token} {ts : List Token} {rest : Text} :
      Gap gap → Spaced ts rest → Spaced (t :: ts) (gap ++ t.text ++ rest)

/-- The mark that may open a text. -/
def byteOrderMark : Text := [0xEF, 0xBB, 0xBF]

/-- The content is a text of the document. -/
structure IsText (ρ : Reading) (content : Text) (w : Written) : Prop where
  legit : ∀ t ∈ w.tokens, t.Legit ρ
  spelled : ∃ mark body tail, (mark = [] ∨ mark = byteOrderMark) ∧ Spaced w.tokens body ∧
    Tail tail ∧ content = mark ++ body ++ tail

theorem Spaced.append {ts us : List Token} {x y : Text} (hx : Spaced ts x) (hy : Spaced us y) :
    Spaced (ts ++ us) (x ++ y) := by
  induction hx with
  | nil => exact hy
  | cons hgap _ ih =>
      rw [List.append_assoc, List.cons_append]
      exact .cons hgap ih

theorem Spaced.blank {t : Token} {ts : List Token} {b : UInt8} {x : Text} (hb : IsBlank b)
    (hx : Spaced (t :: ts) x) : Spaced (t :: ts) (b :: x) := by
  cases hx with
  | cons hgap hrest => exact .cons (.blank hb hgap) hrest

theorem gap_of_blanks {l : Text} (h : l.All IsBlank) : Gap l := by
  induction l with
  | nil => exact .nil
  | cons b l ih =>
      exact .blank (h b List.mem_cons_self) (ih fun b' hb' => h b' (List.mem_cons_of_mem b hb'))

/-! ## Parsers -/

/-- A parser that reads plain strings as they are and every text of a document as the
document. -/
structure Parser where
  parse : Text → Parsed
  reading : Reading
  plain : ∀ {raw : Text}, Plain raw → reading.string raw raw
  reads : ∀ {content : Text} {w : Written}, IsText reading content w →
    parse content = .value w.stored

end JsonText
