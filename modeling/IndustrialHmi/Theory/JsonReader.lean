import Mathlib.Data.List.Chain
import IndustrialHmi.Theory.JsonText

/-!
# A reader of plain texts

A parser for the texts whose strings are spelled as they are and whose literals are the
three names.  A machine over the bytes finds the tokens, and one over the tokens, with a
stack of the containers that are open, builds the value.
-/

namespace JsonText

namespace Reader

/-! ## Tokens of a text -/

def IsLetter (b : UInt8) : Prop := 0x61 ≤ b ∧ b ≤ 0x7A

instance (b : UInt8) : Decidable (IsLetter b) :=
  inferInstanceAs (Decidable (0x61 ≤ b ∧ b ≤ 0x7A))

def readName (raw : Text) : Option Json :=
  if raw = ascii "null" then some .null
  else if raw = ascii "true" then some (.boolean true)
  else if raw = ascii "false" then some (.boolean false)
  else none

inductive Mode where
  | between
  | slash
  | line
  | block (starred : Bool)
  | string (body : Text)
  | name (body : Text)

/-- The token that ends where another one or a gap begins. -/
def pending (body : Text) : Option (List Token) :=
  (readName body).map fun value => [.literal body value]

/-- A byte between tokens. -/
def start (b : UInt8) : Option (List Token × Mode) :=
  if IsBlank b then some ([], .between)
  else if b = JsonText.slash then some ([], .slash)
  else if b = quote then some ([], .string [])
  else if IsLetter b then some ([], .name [b])
  else if b = 0x2C then some ([.comma], .between)
  else if b = 0x3A then some ([.colon], .between)
  else if b = 0x7B then some ([.openBrace], .between)
  else if b = 0x7D then some ([.closeBrace], .between)
  else if b = 0x5B then some ([.openBracket], .between)
  else if b = 0x5D then some ([.closeBracket], .between)
  else none

def step : Mode → UInt8 → Option (List Token × Mode)
  | .between, b => start b
  | .slash, b =>
      if b = JsonText.slash then some ([], .line)
      else if b = star then some ([], .block false)
      else none
  | .line, b =>
      if EndsLine b then some ([], .between) else if b = 0 then none else some ([], .line)
  | .block starred, b =>
      if starred ∧ b = JsonText.slash then some ([], .between)
      else if b = 0 then none
      else some ([], .block (b = star))
  | .string body, b =>
      if b = quote then
        if Plain body then some ([.string body body], .between) else none
      else some ([], .string (body ++ [b]))
  | .name body, b =>
      if IsLetter b then some ([], .name (body ++ [b]))
      else (pending body).bind fun ts => (start b).map fun r => (ts ++ r.1, r.2)

def finish : Mode → Option (List Token)
  | .between => some []
  | .line => some []
  | .name body => pending body
  | _ => none

def lex : Mode → Text → Option (List Token)
  | mode, [] => finish mode
  | mode, b :: rest => (step mode b).bind fun r => (lex r.2 rest).map (r.1 ++ ·)

/-- Tokens found before the rest of the text. -/
theorem lex_cons {mode mode' : Mode} {b : UInt8} {ts : List Token}
    (h : step mode b = some (ts, mode')) (rest : Text) :
    lex mode (b :: rest) = (lex mode' rest).map (ts ++ ·) := by
  rw [lex, h]
  rfl

/-- A byte that gives no token. -/
theorem lex_skip {mode mode' : Mode} {b : UInt8} (h : step mode b = some ([], mode'))
    (rest : Text) : lex mode (b :: rest) = lex mode' rest := by
  rw [lex_cons h]
  exact Option.map_id'

/-! ### Gaps -/

theorem lex_lineBody {body : Text} (h : LineBody body) (rest : Text) :
    lex .line (body ++ rest) = lex .line rest := by
  induction body with
  | nil => rfl
  | cons b body ih =>
      obtain ⟨hends, hzero⟩ := h b List.mem_cons_self
      rw [List.cons_append, lex_skip (by rw [step, if_neg hends, if_neg hzero])]
      exact ih fun b' hb' => h b' (List.mem_cons_of_mem b hb')

theorem lex_blockBody {body : Text} (starred : Bool)
    (h : ¬ [star, JsonText.slash] <:+: (if starred then star :: body else body))
    (hzero : 0 ∉ body) (rest : Text) :
    lex (.block starred) (body ++ star :: JsonText.slash :: rest) = lex .between rest := by
  induction body generalizing starred with
  | nil =>
      have hstar : step (.block starred) star = some ([], .block true) := by
        rw [step, if_neg (by decide +revert), if_neg (by decide)]
        rfl
      rw [List.nil_append, lex_skip hstar, lex_skip (by rw [step, if_pos ⟨rfl, rfl⟩])]
  | cons b body ih =>
      rw [List.mem_cons, not_or] at hzero
      have hclose : ¬ (starred = true ∧ b = JsonText.slash) := by
        rintro ⟨rfl, rfl⟩
        exact h ⟨[], body, rfl⟩
      rw [List.cons_append, lex_skip (by rw [step, if_neg hclose, if_neg (Ne.symm hzero.1)])]
      refine ih _ (fun hinfix => h ?_) hzero.2
      have hlater : [star, JsonText.slash] <:+: b :: body := by
        by_cases hb : b = star
        · subst hb
          simpa using hinfix
        · rw [if_neg (by simpa using hb)] at hinfix
          exact hinfix.trans (List.suffix_cons b body).isInfix
      cases starred with
      | false => exact hlater
      | true => exact hlater.trans (List.suffix_cons star (b :: body)).isInfix

theorem step_slash : step .between JsonText.slash = some ([], .slash) := by
  rw [step, start, if_neg (by decide), if_pos rfl]

theorem lex_slashes (rest : Text) :
    lex .between (JsonText.slash :: JsonText.slash :: rest) = lex .line rest := by
  rw [lex_skip step_slash, lex_skip (by rw [step, if_pos rfl])]

theorem lex_gap {gap : Text} (h : Gap gap) (rest : Text) :
    lex .between (gap ++ rest) = lex .between rest := by
  induction h with
  | nil => rfl
  | blank hb _ ih => rw [List.cons_append, lex_skip (by rw [step, start, if_pos hb]), ih]
  | line hbody hends _ ih =>
      rw [List.append_assoc, List.cons_append, List.cons_append, lex_slashes, lex_lineBody hbody,
        List.cons_append, lex_skip (by rw [step, if_pos hends]), ih]
  | block hbody _ ih =>
      have hopen : step .slash star = some ([], .block false) := by
        rw [step, if_neg (by decide), if_pos rfl]
      rw [List.append_assoc, List.cons_append, List.cons_append, lex_skip step_slash,
        lex_skip hopen, List.cons_append, List.cons_append,
        lex_blockBody false hbody.1 hbody.2, ih]

theorem lex_tail {tail : Text} (h : Tail tail) : lex .between tail = some [] := by
  cases h with
  | gap hgap =>
      rw [← List.append_nil tail, lex_gap hgap]
      rfl
  | @line gap body hgap hbody =>
      rw [lex_gap hgap, lex_slashes, ← List.append_nil body, lex_lineBody hbody]
      rfl

/-! ### Strings and names -/

/-- A string ends at its first quote. -/
theorem lex_string {body raw : Text} (hquote : quote ∉ raw) (hplain : Plain (body ++ raw))
    (rest : Text) :
    lex (.string body) (raw ++ quote :: rest) =
      (lex .between rest).map (.string (body ++ raw) (body ++ raw) :: ·) := by
  induction raw generalizing body with
  | nil =>
      rw [List.append_nil] at hplain
      rw [List.nil_append, List.append_nil, lex_cons (by rw [step, if_pos rfl, if_pos hplain])]
      rfl
  | cons b raw ih =>
      rw [List.mem_cons, not_or] at hquote
      have hstep : step (.string body) b = some ([], .string (body ++ [b])) := by
        rw [step, if_neg (Ne.symm hquote.1)]
      rw [List.cons_append, lex_skip hstep, ih hquote.2 (by simpa using hplain)]
      simp

/-- The text does not go on with a letter. -/
def NoLetter (rest : Text) : Prop := ∀ b rest', rest = b :: rest' → ¬ IsLetter b

/-- A name ends where no letter follows. -/
theorem lex_name {body raw : Text} (hletters : ∀ b ∈ raw, IsLetter b) {value : Json}
    (hvalue : readName (body ++ raw) = some value) {rest : Text} (hrest : NoLetter rest) :
    lex (.name body) (raw ++ rest) =
      (lex .between rest).map (.literal (body ++ raw) value :: ·) := by
  induction raw generalizing body with
  | nil =>
      rw [List.append_nil] at hvalue ⊢
      rw [List.nil_append]
      cases rest with
      | nil => simp [lex, finish, pending, hvalue]
      | cons b rest =>
          simp only [lex, step, if_neg (hrest b rest rfl), pending, hvalue, Option.map_some,
            Option.bind_some]
          cases start b with
          | none => rfl
          | some r => simp [Function.comp_def]
  | cons b raw ih =>
      have hstep : step (.name body) b = some ([], .name (body ++ [b])) := by
        rw [step, if_pos (hletters b List.mem_cons_self)]
      rw [List.cons_append, lex_skip hstep,
        ih (fun b' hb' => hletters b' (List.mem_cons_of_mem b hb')) (by simpa using hvalue)]
      simp

/-- How the reader reads: strings as they are spelled, and the three names. -/
def reading : Reading where
  string raw value := raw = value ∧ Plain raw
  literal raw value := readName raw = some value

theorem start_letter {b : UInt8} (h : IsLetter b) : start b = some ([], .name [b]) := by
  obtain ⟨hlow, hhigh⟩ := h
  have hblank : ¬ IsBlank b := by
    rintro (rfl | rfl | rfl | rfl) <;> exact absurd hlow (by decide)
  have hslash : b ≠ JsonText.slash := by
    rintro rfl
    exact absurd hlow (by decide)
  have hquote : b ≠ quote := by
    rintro rfl
    exact absurd hlow (by decide)
  rw [start, if_neg hblank, if_neg hslash, if_neg hquote, if_pos ⟨hlow, hhigh⟩]

/-- The three names are of letters. -/
theorem letters_of_readName {raw : Text} {value : Json} (h : readName raw = some value) :
    raw ≠ [] ∧ raw.All IsLetter := by
  rw [readName] at h
  by_cases hnull : raw = ascii "null"
  · subst hnull
    decide
  by_cases htrue : raw = ascii "true"
  · subst htrue
    decide
  by_cases hfalse : raw = ascii "false"
  · subst hfalse
    decide
  rw [if_neg hnull, if_neg htrue, if_neg hfalse] at h
  cases h

/-- A token is found, and what follows it is read on from between tokens. -/
theorem lex_token {t : Token} (ht : t.Legit reading) {rest : Text}
    (hrest : (∃ raw value, t = .literal raw value) → NoLetter rest) :
    lex .between (t.text ++ rest) = (lex .between rest).map (t :: ·) := by
  cases t with
  | string raw value =>
      obtain ⟨rfl, hplain⟩ := ht
      have hquote : quote ∉ raw := fun h => (hplain.1 quote h).2.1 rfl
      have hopen : step .between quote = some ([], .string []) := by
        rw [step, start, if_neg (by decide), if_neg (by decide), if_pos rfl]
      rw [Token.text, List.append_assoc, List.cons_append, lex_skip hopen, List.singleton_append,
        lex_string hquote (by simpa using hplain)]
      rfl
  | literal raw value =>
      obtain ⟨hne, hletters⟩ := letters_of_readName ht
      obtain ⟨b, raw, rfl⟩ := List.exists_cons_of_ne_nil hne
      have hfirst : step .between b = some ([], .name [b]) :=
        start_letter (hletters b List.mem_cons_self)
      have hname : readName ([b] ++ raw) = some value := ht
      rw [Token.text, List.cons_append, lex_skip hfirst,
        lex_name (fun b' hb' => hletters b' (List.mem_cons_of_mem b hb')) hname
          (hrest ⟨_, _, rfl⟩)]
      rfl
  | comma => exact lex_cons (rfl : step .between 0x2C = some ([Token.comma], .between)) rest
  | colon => exact lex_cons (rfl : step .between 0x3A = some ([Token.colon], .between)) rest
  | openBrace => exact lex_cons (rfl : step .between 0x7B = some ([Token.openBrace], .between)) rest
  | closeBrace =>
      exact lex_cons (rfl : step .between 0x7D = some ([Token.closeBrace], .between)) rest
  | openBracket =>
      exact lex_cons (rfl : step .between 0x5B = some ([Token.openBracket], .between)) rest
  | closeBracket =>
      exact lex_cons (rfl : step .between 0x5D = some ([Token.closeBracket], .between)) rest

/-! ### Texts -/

theorem noLetter_gap {gap : Text} (h : Gap gap) {rest : Text} (hrest : NoLetter rest) :
    NoLetter (gap ++ rest) := by
  have hblank : ∀ b, IsBlank b → ¬ IsLetter b := by
    rintro b (rfl | rfl | rfl | rfl) <;> decide
  cases h with
  | nil => exact hrest
  | blank hb _ =>
      rintro b' _ ⟨rfl, rfl⟩
      exact hblank _ hb
  | line _ _ _ =>
      rintro b' _ ⟨rfl, rfl⟩
      decide
  | block _ _ =>
      rintro b' _ ⟨rfl, rfl⟩
      decide

theorem noLetter_token {t : Token} (h : ¬ ∃ raw value, t = .literal raw value) (rest : Text) :
    NoLetter (t.text ++ rest) := by
  cases t with
  | literal raw value => exact absurd ⟨raw, value, rfl⟩ h
  | _ =>
      rintro b _ ⟨rfl, rfl⟩
      decide

theorem noLetter_tail {tail : Text} (h : Tail tail) : NoLetter tail := by
  cases h with
  | gap hgap =>
      rw [← List.append_nil tail]
      exact noLetter_gap hgap fun _ _ h => absurd h (by simp)
  | line hgap _ =>
      refine noLetter_gap hgap ?_
      rintro b' _ ⟨rfl, rfl⟩
      decide

end Reader

/-! ## Literals stand apart -/

def Token.IsLiteral (t : Token) : Prop := ∃ raw value, t = .literal raw value

/-- No literal follows another. -/
def Apart (ts : List Token) : Prop := ts.IsChain fun t t' => t.IsLiteral → ¬ t'.IsLiteral

/-- The tokens do not begin with a literal. -/
def NoLiteral (ts : List Token) : Prop := ∀ t ts', ts = t :: ts' → ¬ t.IsLiteral

/-- What may be put before any tokens that do not begin with a literal. -/
def Joins (ts : List Token) : Prop := ∀ rest, Apart rest → NoLiteral rest → Apart (ts ++ rest)

theorem apart_cons {t : Token} {ts : List Token} (ht : ¬ t.IsLiteral) (hts : Apart ts) :
    Apart (t :: ts) :=
  List.isChain_cons.mpr ⟨fun _ _ h => absurd h ht, hts⟩

theorem noLiteral_cons {t : Token} (ht : ¬ t.IsLiteral) (ts : List Token) :
    NoLiteral (t :: ts) := by
  rintro _ _ ⟨rfl, rfl⟩
  exact ht

theorem joins_cons {t : Token} {ts : List Token} (ht : ¬ t.IsLiteral) (hts : Joins ts) :
    Joins (t :: ts) := fun rest hrest hno => apart_cons ht (hts rest hrest hno)

theorem joins_append {ts us : List Token} (hts : Joins ts) (hus : Joins us)
    (hno : ∀ rest, NoLiteral rest → NoLiteral (us ++ rest)) : Joins (ts ++ us) := by
  intro rest hrest hrestNo
  rw [List.append_assoc]
  exact hts _ (hus rest hrest hrestNo) (hno rest hrestNo)

/-- Joined by commas and closed. -/
theorem joins_intercalate {ls : List (List Token)} (hls : ∀ l ∈ ls, Joins l) {close : Token}
    (hclose : ¬ close.IsLiteral) : Joins ([Token.comma].intercalate ls ++ [close]) := by
  have hcomma : ¬ Token.comma.IsLiteral := by rintro ⟨_, _, h⟩; cases h
  have hlast : Joins [close] := fun rest hrest _ => apart_cons hclose hrest
  induction ls with
  | nil => exact hlast
  | cons l ls ih =>
      have hhead := hls l List.mem_cons_self
      have hrest := ih fun l' hl' => hls l' (List.mem_cons_of_mem l hl')
      cases ls with
      | nil =>
          have hone : [Token.comma].intercalate [l] = l := by simp [List.intercalate]
          rw [hone]
          exact joins_append hhead hlast fun rest _ => noLiteral_cons hclose rest
      | cons l' ls =>
          have hstep : [Token.comma].intercalate (l :: l' :: ls) ++ [close] =
              l ++ Token.comma :: ([Token.comma].intercalate (l' :: ls) ++ [close]) := by
            simp [List.intercalate]
          rw [hstep]
          exact joins_append hhead (joins_cons hcomma hrest)
            fun rest _ => noLiteral_cons hcomma _

theorem Written.joins_tokens (w : Written) : Joins w.tokens := by
  have hopen : ¬ Token.openBracket.IsLiteral ∧ ¬ Token.closeBracket.IsLiteral ∧
      ¬ Token.openBrace.IsLiteral ∧ ¬ Token.closeBrace.IsLiteral ∧ ¬ Token.colon.IsLiteral := by
    refine ⟨?_, ?_, ?_, ?_, ?_⟩ <;> rintro ⟨_, _, h⟩ <;> cases h
  have hstring : ∀ raw value, ¬ (Token.string raw value).IsLiteral := by
    rintro raw value ⟨_, _, h⟩
    cases h
  induction w using Written.induction with
  | string raw value => exact fun rest hrest _ => apart_cons (hstring raw value) hrest
  | literal raw value =>
      refine fun rest hrest hno => List.isChain_cons.mpr ⟨fun t ht _ => ?_, hrest⟩
      obtain ⟨rest', rfl⟩ := List.head?_eq_some_iff.mp ht
      exact hno t rest' rfl
  | array items ih =>
      rw [tokens]
      refine joins_cons hopen.1 (joins_intercalate (fun l hl => ?_) hopen.2.1)
      obtain ⟨w, hw, rfl⟩ := mem_tokensOfItems.mp hl
      exact ih w hw
  | object members ih =>
      rw [tokens]
      refine joins_cons hopen.2.2.1 (joins_intercalate (fun l hl => ?_) hopen.2.2.2.1)
      obtain ⟨e, he, rfl⟩ := mem_tokensOfMembers.mp hl
      exact joins_cons (hstring _ _) (joins_cons hopen.2.2.2.2 (ih e he))

theorem Written.apart_tokens (w : Written) : Apart w.tokens := by
  have h := w.joins_tokens [] List.isChain_nil fun _ _ h => absurd h (by simp)
  rwa [List.append_nil] at h

namespace Reader

/-- The tokens of a text are found. -/
theorem lex_spaced {ts : List Token} {x : Text} (h : Spaced ts x) (hapart : Apart ts)
    (hlegit : ∀ t ∈ ts, t.Legit reading) {tail : Text} (htail : Tail tail) :
    lex .between (x ++ tail) = some ts := by
  induction h with
  | nil => exact lex_tail htail
  | @cons gap t ts rest hgap hrest ih =>
      have hlater := ih (List.isChain_cons.mp hapart).2 fun t' ht' =>
        hlegit t' (List.mem_cons_of_mem t ht')
      have hnext : t.IsLiteral → NoLetter (rest ++ tail) := by
        intro hliteral
        cases hrest with
        | nil => exact noLetter_tail htail
        | @cons gap' t' ts' rest' hgap' _ =>
            have hother := (List.isChain_cons.mp hapart).1 t' rfl hliteral
            rw [List.append_assoc, List.append_assoc]
            exact noLetter_gap hgap' (noLetter_token hother _)
      rw [List.append_assoc, List.append_assoc, lex_gap hgap,
        lex_token (hlegit t List.mem_cons_self) hnext, hlater]
      rfl

/-! ## The value of some tokens -/

/-- A container that is open, with what it has so far. -/
inductive Frame where
  | items (done : List Json)
  /-- The value of this member is being read. -/
  | members (done : List (Text × Json)) (name : Text)

inductive Expect where
  | value
  /-- The name of the next member of an object. -/
  | name (done : List (Text × Json))
  /-- The value has just been read. -/
  | after (j : Json)

def build : Expect → List Frame → List Token → Option Json
  | .value, stack, .string _ value :: ts => build (.after (.string value)) stack ts
  | .value, stack, .literal _ value :: ts => build (.after value) stack ts
  | .value, stack, .openBracket :: .closeBracket :: ts => build (.after (.array [])) stack ts
  | .value, stack, .openBracket :: ts => build .value (.items [] :: stack) ts
  | .value, stack, .openBrace :: .closeBrace :: ts => build (.after (.object [])) stack ts
  | .value, stack, .openBrace :: ts => build (.name []) stack ts
  | .name done, stack, .string _ name :: .colon :: ts =>
      build .value (.members done name :: stack) ts
  | .after j, [], [] => some j
  | .after j, .items done :: stack, .comma :: ts => build .value (.items (done ++ [j]) :: stack) ts
  | .after j, .items done :: stack, .closeBracket :: ts =>
      build (.after (.array (done ++ [j]))) stack ts
  | .after j, .members done name :: stack, .comma :: ts =>
      build (.name (done ++ [(name, j)])) stack ts
  | .after j, .members done name :: stack, .closeBrace :: ts =>
      build (.after (.object (Json.collapse (done ++ [(name, j)])))) stack ts
  | _, _, _ => none

theorem build_openBracket (stack : List Frame) {t : Token} (ht : t ≠ .closeBracket)
    (ts : List Token) :
    build .value stack (.openBracket :: t :: ts) = build .value (.items [] :: stack) (t :: ts) := by
  cases t with
  | closeBracket => exact absurd rfl ht
  | _ => rfl

theorem build_openBrace (stack : List Frame) {t : Token} (ht : t ≠ .closeBrace)
    (ts : List Token) :
    build .value stack (.openBrace :: t :: ts) = build (.name []) stack (t :: ts) := by
  cases t with
  | closeBrace => exact absurd rfl ht
  | _ => rfl

/-- A document opens with no closing bracket. -/
theorem tokens_eq_cons (w : Written) : ∃ t ts, w.tokens = t :: ts ∧ t ≠ .closeBracket := by
  cases w with
  | string raw value => exact ⟨_, _, rfl, by simp⟩
  | literal raw value => exact ⟨_, _, rfl, by simp⟩
  | array items => exact ⟨_, _, rfl, by simp⟩
  | object members => exact ⟨_, _, rfl, by simp⟩

/-- The document is read wherever a value is expected. -/
def Builds (w : Written) : Prop :=
  ∀ stack ts, build .value stack (w.tokens ++ ts) = build (.after w.stored) stack ts

theorem intercalate_cons_cons {α : Type} (sep x y : List α) (l : List (List α)) :
    sep.intercalate (x :: y :: l) = x ++ sep ++ sep.intercalate (y :: l) := by
  simp [List.intercalate]

/-- The items of an array, from the first to its closing bracket. -/
theorem build_items {w : Written} {items : List Written} (hw : Builds w)
    (hitems : ∀ w ∈ items, Builds w) (done : List Json) (stack : List Frame) (ts : List Token) :
    build .value (.items done :: stack)
        ([Token.comma].intercalate (Written.tokensOfItems (w :: items)) ++
          Token.closeBracket :: ts) =
      build (.after (.array (done ++ Written.storedItems (w :: items)))) stack ts := by
  induction items generalizing w done with
  | nil =>
      have hone : [Token.comma].intercalate (Written.tokensOfItems [w]) = w.tokens := by
        simp [Written.tokensOfItems, List.intercalate]
      rw [hone, hw]
      rfl
  | cons w' items ih =>
      have hrest := ih (hitems w' List.mem_cons_self)
        (fun w'' hw'' => hitems w'' (List.mem_cons_of_mem w' hw'')) (done ++ [w.stored])
      rw [Written.tokensOfItems, Written.tokensOfItems, intercalate_cons_cons, List.append_assoc,
        List.append_assoc, hw, List.singleton_append, build, ← Written.tokensOfItems, hrest]
      simp [Written.storedItems]

/-- The members of an object, from the first name to its closing brace. -/
theorem build_members {e : (Text × Text) × Written} {members : List ((Text × Text) × Written)}
    (he : Builds e.2) (hmembers : ∀ e ∈ members, Builds e.2) (done : List (Text × Json))
    (stack : List Frame) (ts : List Token) :
    build (.name done) stack
        ([Token.comma].intercalate (Written.tokensOfMembers (e :: members)) ++
          Token.closeBrace :: ts) =
      build (.after (.object (Json.collapse (done ++ Written.storedMembers (e :: members)))))
        stack ts := by
  induction members generalizing e done with
  | nil =>
      have hone : [Token.comma].intercalate (Written.tokensOfMembers [e]) =
          .string e.1.1 e.1.2 :: .colon :: e.2.tokens := by
        simp [Written.tokensOfMembers, List.intercalate]
      rw [hone, List.cons_append, List.cons_append, build, he]
      rfl
  | cons e' members ih =>
      have hrest := ih (hmembers e' List.mem_cons_self)
        (fun e'' he'' => hmembers e'' (List.mem_cons_of_mem e' he''))
        (done ++ [(e.1.2, e.2.stored)])
      rw [Written.tokensOfMembers, Written.tokensOfMembers, intercalate_cons_cons,
        List.append_assoc, List.append_assoc, List.cons_append, List.cons_append, build, he,
        List.singleton_append, build, ← Written.tokensOfMembers, hrest]
      simp [Written.storedMembers]

theorem builds (w : Written) : Builds w := by
  induction w using Written.induction with
  | string raw value => exact fun _ _ => rfl
  | literal raw value => exact fun _ _ => rfl
  | array items ih =>
      intro stack ts
      cases items with
      | nil => rfl
      | cons w items =>
          obtain ⟨t, ts', htokens, hclose⟩ := tokens_eq_cons w
          have hitems := build_items (ih w List.mem_cons_self)
            (fun w' hw' => ih w' (List.mem_cons_of_mem w hw')) [] stack ts
          obtain ⟨us, hus⟩ : ∃ us, [Token.comma].intercalate (Written.tokensOfItems (w :: items)) =
              t :: us := by
            rw [Written.tokensOfItems, ← List.nil_append (w.tokens :: _), intercalate_append_cons,
              htokens]
            exact ⟨_, rfl⟩
          rw [Written.tokens, List.cons_append, List.append_assoc, List.singleton_append]
          rw [hus, List.cons_append] at hitems ⊢
          rw [build_openBracket stack hclose, hitems]
          rfl
  | object members ih =>
      intro stack ts
      cases members with
      | nil => rfl
      | cons e members =>
          have hmembers := build_members (ih e List.mem_cons_self)
            (fun e' he' => ih e' (List.mem_cons_of_mem e he')) [] stack ts
          obtain ⟨us, hus⟩ : ∃ us, [Token.comma].intercalate
              (Written.tokensOfMembers (e :: members)) = .string e.1.1 e.1.2 :: us := by
            rw [Written.tokensOfMembers, ← List.nil_append (_ :: Written.tokensOfMembers members),
              intercalate_append_cons]
            exact ⟨_, rfl⟩
          rw [Written.tokens, List.cons_append, List.append_assoc, List.singleton_append]
          rw [hus, List.cons_append] at hmembers ⊢
          rw [build_openBrace stack (by simp), hmembers]
          rfl

/-! ## The reader -/

/-- The text without the mark that may open it. -/
def unmarked (content : Text) : Text :=
  if content.take 3 = byteOrderMark then content.drop 3 else content

def parse (content : Text) : Parsed :=
  match (lex .between (unmarked content)).bind (build .value []) with
  | some j => .value j
  | none => .parseError

/-- No text of a document opens with the mark of itself. -/
theorem unmarked_of_spaced {w : Written} {body tail : Text} (h : Spaced w.tokens body)
    (hlegit : ∀ t ∈ w.tokens, t.Legit reading) : unmarked (body ++ tail) = body ++ tail := by
  rw [unmarked, if_neg]
  intro hmark
  obtain ⟨t, ts, htokens, -⟩ := tokens_eq_cons w
  rw [htokens] at h hlegit
  have hfirst : ∀ b rest, body ++ tail = b :: rest → b ≠ 0xEF := by
    cases h with
    | cons hgap _ =>
        cases hgap with
        | nil =>
            have hlegit := hlegit t List.mem_cons_self
            cases t with
            | literal raw value =>
                obtain ⟨hne, hletters⟩ := letters_of_readName hlegit
                obtain ⟨b, raw, rfl⟩ := List.exists_cons_of_ne_nil hne
                rintro _ _ ⟨rfl, rfl⟩ rfl
                exact absurd (hletters _ List.mem_cons_self) (by decide)
            | _ =>
                rintro _ _ ⟨rfl, rfl⟩
                decide
        | blank hb _ =>
            rintro _ _ ⟨rfl, rfl⟩ rfl
            exact absurd hb (by decide)
        | line _ _ _ =>
            rintro _ _ ⟨rfl, rfl⟩
            decide
        | block _ _ =>
            rintro _ _ ⟨rfl, rfl⟩
            decide
  cases hcontent : body ++ tail with
  | nil =>
      rw [hcontent] at hmark
      exact absurd hmark (by decide)
  | cons b rest =>
      rw [hcontent, List.take_succ_cons, byteOrderMark, List.cons.injEq] at hmark
      exact hfirst b rest hcontent hmark.1

/-- Every text of a document is read as the document. -/
theorem parse_of_isText {content : Text} {w : Written} (h : IsText reading content w) :
    parse content = .value w.stored := by
  obtain ⟨hlegit, mark, body, tail, hmark, hspaced, htail, rfl⟩ := h
  have hbody : unmarked (mark ++ body ++ tail) = body ++ tail := by
    rcases hmark with rfl | rfl
    · exact unmarked_of_spaced hspaced hlegit
    · have htake : (byteOrderMark ++ body ++ tail).take 3 = byteOrderMark := rfl
      rw [unmarked, if_pos htake]
      rfl
  have hbuild := builds w [] []
  rw [List.append_nil] at hbuild
  rw [parse, hbody, lex_spaced hspaced w.apart_tokens hlegit htail, Option.bind_some, hbuild]
  rfl

end Reader

/-- The reader is a parser. -/
def reader : Parser where
  parse := Reader.parse
  reading := Reader.reading
  plain h := ⟨rfl, h⟩
  reads h := Reader.parse_of_isText h

end JsonText
