import IndustrialHmi.Theory.JsonReader
import IndustrialHmi.Config.PersistStringField

/-!
# A setting after a reload

The text search of the edit knows nothing of JSON.  The law is that the file a call leaves
loads with the map it had, but for the setting, and it holds when the search lands where the
parser would: on the string that the map reads the setting from, or, when there is nothing
to replace, behind the first brace of a root object that has members and no such section
(`roundTrips_of_lands`).

A place in a document gives one leaf of the map at most (`leaves_plug`), so an edit of a
string that the map reads from changes the map in that leaf only.
-/

namespace Config

open JsonText

/-! ## Loading -/

inductive Loaded where
  | loaded (map : FlatMap)
  | failed
  /-- An exception that is no parse error leaves the function. -/
  | escaped

def loadConfig (p : Parser) (disk : Disk) : Loaded :=
  match disk.config with
  | none => .failed
  | some content =>
      match p.parse content with
      | .value j => .loaded (flatten j)
      | .parseError => .failed
      | .outOfRange => .escaped

/-- A call that returns true leaves a file that loads with the map it had, but for the
setting. -/
def RoundTrips (p : Parser) (s : Setting) (a : Answers) (value content : Text) : Prop :=
  ∀ memory tmp map, loadConfig p ⟨some content, tmp⟩ = .loaded map →
    (setSetting s a value memory ⟨some content, tmp⟩).2.result = true →
      loadConfig p (setSetting s a value memory ⟨some content, tmp⟩).2.final =
        .loaded (Function.update map s.path (some value))

theorem loadConfig_of_isText {p : Parser} {content : Text} {w : Written}
    (h : IsText p.reading content w) (tmp : Option Text) :
    loadConfig p ⟨some content, tmp⟩ = .loaded (flatten w.stored) := by
  simp only [loadConfig, p.reads h]

/-- It is enough that the edited text is the text of a document with the new map. -/
theorem roundTrips_of_isText {p : Parser} {s : Setting} {a : Answers}
    {value content new : Text} {w w' : Written} (hold : IsText p.reading content w)
    (hedit : s.edit value content = some new) (hnew : IsText p.reading new w')
    (hwritten : new.length ≤ a.written)
    (hmap : flatten w'.stored = Function.update (flatten w.stored) s.path (some value)) :
    RoundTrips p s a value content := by
  intro memory tmp map hloaded hresult
  obtain ⟨new', hedit', hfinal⟩ := final_of_result hresult
  obtain rfl : new = new' := Option.some.inj (hedit.symm.trans hedit')
  rw [List.take_of_length_le hwritten] at hfinal
  rw [loadConfig_of_isText hold] at hloaded
  cases hloaded
  rw [← hmap]
  simp only [loadConfig, hfinal, p.reads hnew]

/-! ## A place in a document -/

/-- Leaves that do not depend on what stands in a place, or have its leaves among them. -/
def HasPlace (f : Written → List (Text × Text)) : Prop :=
  (∃ l, ∀ w, f w = l) ∨
    ∃ before path after, ∀ w, f w = before ++ leaves path w.stored ++ after

theorem HasPlace.between {f : Written → List (Text × Text)} (h : HasPlace f)
    (a b : List (Text × Text)) : HasPlace fun w => a ++ (f w ++ b) := by
  rcases h with ⟨l, hl⟩ | ⟨before, path, after, hf⟩
  · exact .inl ⟨a ++ (l ++ b), fun w => congrArg (a ++ ·) (congrArg (· ++ b) (hl w))⟩
  · exact .inr ⟨a ++ before, path, after ++ b, fun w => by simp [hf]⟩

theorem leaves_plug (c : Context) (pre : Text) :
    HasPlace fun w => leaves pre (c.plug w).stored := by
  induction c generalizing pre with
  | hole => exact .inr ⟨[], pre, [], fun w => by simp [Context.plug]⟩
  | item before inner after ih =>
      have hleaves : ∀ w, leaves pre ((Context.item before inner after).plug w).stored =
          leavesOfItems pre 0 (Written.storedItems before) ++
            (leaves (nextKey pre (ascii (toString (0 + (Written.storedItems before).length))))
                (inner.plug w).stored ++
              leavesOfItems pre (0 + (Written.storedItems before).length + 1)
                (Written.storedItems after)) := by
        intro w
        rw [Context.plug, Written.stored, leaves, Written.storedItems_append,
          leavesOfItems_append, Written.storedItems, leavesOfItems]
      simp only [hleaves]
      exact (ih _).between _ _
  | member before key inner after ih =>
      have hstored : ∀ w, leaves pre ((Context.member before key inner after).plug w).stored =
          leavesOfMembers pre (Json.collapse (Written.storedMembers before ++
            (key.2, (inner.plug w).stored) :: Written.storedMembers after)) := by
        intro w
        rw [Context.plug, Written.stored, leaves, Written.storedMembers_append,
          Written.storedMembers]
      simp only [hstored]
      -- a later member of the name takes the place, or the member keeps one of its own
      rcases Json.oneSlot_collapse (Written.storedMembers before)
        (Written.storedMembers after) key.2 with ⟨l, hl⟩ | ⟨a, b, -, hmembers⟩
      · exact .inl ⟨leavesOfMembers pre l, fun w => congrArg (leavesOfMembers pre) (hl _)⟩
      · simp only [hmembers, leavesOfMembers_append, leavesOfMembers]
        exact (ih _).between _ _

/-- The map has for the path whatever string stands in the place. -/
def ReadFrom (c : Context) (path : Text) : Prop :=
  ∀ value, flatten (c.plug (.string value value)).stored path = some value

/-- A string in a place gives at most one leaf of the map. -/
theorem flatten_plug (c : Context) :
    (∃ map : FlatMap, ∀ raw value, flatten (c.plug (.string raw value)).stored = map) ∨
      ∃ (path : Text) (map : FlatMap), ∀ raw value,
        flatten (c.plug (.string raw value)).stored = Function.update map path (some value) := by
  rcases leaves_plug c [] with ⟨l, hl⟩ | ⟨before, path, after, hleaves⟩
  · beta_reduce at hl
    exact .inl ⟨fun path => l.lookup path, fun raw value => funext fun path => by
      rw [flatten_eq, hl]⟩
  · beta_reduce at hleaves
    by_cases hempty : path.isEmpty = true
    · refine .inl ⟨fun q => (before ++ after).lookup q, fun raw value => funext fun q => ?_⟩
      rw [flatten_eq, hleaves, Written.stored, leaves, if_pos hempty, List.append_nil]
      · exact fun _ h => Json.noConfusion h
      · exact fun _ h => Json.noConfusion h
    · have hstring : ∀ value, leaves path (.string value) = [(path, value)] := by
        intro value
        rw [leaves, if_neg hempty]
        · rfl
        · exact fun _ h => Json.noConfusion h
        · exact fun _ h => Json.noConfusion h
      cases hbefore : before.lookup path with
      | some value' =>
          -- a leaf of the path before it hides the one of the place
          refine .inl ⟨fun q => (before ++ after).lookup q, fun raw value => funext fun q => ?_⟩
          rw [flatten_eq, hleaves, Written.stored, hstring, List.append_assoc,
            List.lookup_append, List.singleton_append, List.lookup_cons, List.lookup_append]
          by_cases hq : q = path
          · rw [hq, hbefore]
            rfl
          · have hne : (q == path) = false := by simpa using hq
            rw [hne]
      | none =>
          refine .inr ⟨path, fun q => (before ++ after).lookup q, fun raw value =>
            funext fun q => ?_⟩
          rw [flatten_eq, hleaves, Written.stored, hstring, List.append_assoc,
            List.lookup_append, List.singleton_append, List.lookup_cons]
          by_cases hq : q = path
          · subst hq
            rw [hbefore, beq_self_eq_true, Function.update_self]
            rfl
          · have hne : (q == path) = false := by simpa using hq
            rw [Function.update_of_ne hq, hne, List.lookup_append]

theorem flatten_plug_of_readFrom {c : Context} {path : Text} (h : ReadFrom c path)
    (raw raw' old new : Text) :
    flatten (c.plug (.string raw' new)).stored =
      Function.update (flatten (c.plug (.string raw old)).stored) path (some new) := by
  rcases flatten_plug c with ⟨map, hmap⟩ | ⟨path', map, hmap⟩
  · have hsame : some [] = some [dot] := by rw [← h [], ← h [dot], hmap, hmap]
    exact absurd hsame (by decide)
  · have hpath : path = path' := by
      by_contra hne
      have hsame : some [] = some [dot] := by
        rw [← h [], ← h [dot], hmap, hmap, Function.update_of_ne hne, Function.update_of_ne hne]
      exact absurd hsame (by decide)
    rw [hmap, hmap, hpath, Function.update_idem]

/-- If the map gets a new string for the path, then it reads the path from the place. -/
theorem readFrom_of_changed {c : Context} {path raw raw' old new : Text}
    (hold : flatten (c.plug (.string raw old)).stored path ≠ some new)
    (hnew : flatten (c.plug (.string raw' new)).stored path = some new) : ReadFrom c path := by
  intro value
  rcases flatten_plug c with ⟨map, hmap⟩ | ⟨path', map, hmap⟩
  · exact absurd (by rw [hmap, ← hmap raw' new, hnew]) hold
  · by_cases hpath : path = path'
    · rw [hmap, hpath, Function.update_self]
    · rw [hmap, Function.update_of_ne hpath] at hold hnew
      exact absurd hnew hold

/-! ## Replacing -/

/-- What is before and after the body of a string spells the rest of a document. -/
structure StandsIn (ρ : Reading) (c : Context) (before after : Text) : Prop where
  legit : ∀ t ∈ c.left ++ c.right, t.Legit ρ
  spelled : ∃ mark front gap back tail, (mark = [] ∨ mark = byteOrderMark) ∧
    Spaced c.left front ∧ Gap gap ∧ Spaced c.right back ∧ Tail tail ∧
    before = mark ++ front ++ gap ++ [quote] ∧ after = quote :: back ++ tail

theorem StandsIn.isText {ρ : Reading} {c : Context} {before after raw value : Text}
    (h : StandsIn ρ c before after) (hraw : ρ.string raw value) :
    IsText ρ (before ++ raw ++ after) (c.plug (.string raw value)) := by
  obtain ⟨mark, front, gap, back, tail, hmark, hfront, hgap, hback, htail, rfl, rfl⟩ := h.spelled
  refine ⟨?_, mark, front ++ (gap ++ (Token.string raw value).text ++ back), tail, hmark, ?_,
    htail, by simp [Token.text]⟩
  · rw [Context.tokens_plug, Written.tokens]
    intro t ht
    rw [List.append_assoc, List.mem_append, List.singleton_append, List.mem_cons] at ht
    rcases ht with hleft | rfl | hright
    · exact h.legit t (List.mem_append_left _ hleft)
    · exact hraw
    · exact h.legit t (List.mem_append_right _ hright)
  · rw [Context.tokens_plug, Written.tokens, List.append_assoc]
    exact hfront.append (.cons hgap hback)

/-! ## Inserting -/

/-- The first brace of the content opens a root object with members, none of them named
after the section. -/
structure OpensRoot (ρ : Reading) (s : Setting) (members : List ((Text × Text) × Written))
    (before rest : Text) : Prop where
  inhabited : members ≠ []
  fresh : s.sectionName ∉ members.map fun e => e.1.2
  legit : ∀ t ∈ (Written.object members).tokens, t.Legit ρ
  spelled : ∃ mark gap inside tail, (mark = [] ∨ mark = byteOrderMark) ∧ Gap gap ∧
    Spaced ([Token.comma].intercalate (Written.tokensOfMembers members) ++ [.closeBrace]) inside ∧
    Tail tail ∧ before = mark ++ gap ++ [0x7B] ∧ rest = inside ++ tail

/-- The member that is inserted. -/
def Setting.member (s : Setting) (value : Text) : (Text × Text) × Written :=
  ((s.sectionName, s.sectionName),
    .object [((s.fieldName, s.fieldName), .string value value)])

theorem OpensRoot.isText {ρ : Reading} {s : Setting} {members : List ((Text × Text) × Written)}
    {before rest : Text} (h : OpensRoot ρ s members before rest) :
    IsText ρ (before ++ rest) (.object members) := by
  obtain ⟨mark, gap, inside, tail, hmark, hgap, hinside, htail, rfl, rfl⟩ := h.spelled
  refine ⟨h.legit, mark, gap ++ Token.openBrace.text ++ inside, tail, hmark, ?_, htail, by
    simp [Token.text]⟩
  exact .cons hgap hinside

/-- The tokens of the member that is inserted, and the comma after it. -/
def Setting.insertedTokens (s : Setting) (value : Text) : List Token :=
  [.string s.sectionName s.sectionName, .colon, .openBrace,
    .string s.fieldName s.fieldName, .colon, .string value value, .closeBrace, .comma]

theorem Setting.spaced_insertion (s : Setting) (value : Text) {t : Token} {ts : List Token}
    {inside : Text} (h : Spaced (t :: ts) inside) :
    Spaced (s.insertedTokens value ++ t :: ts) (s.insertion value ++ inside) := by
  have hblanks : ∀ l : Text, l.All IsBlank → Gap l := fun _ => gap_of_blanks
  have hspelled : Spaced (s.insertedTokens value ++ t :: ts)
      (ascii "\n  " ++ (Token.string s.sectionName s.sectionName).text ++
        ([] ++ Token.colon.text ++ (ascii " " ++ Token.openBrace.text ++
          (ascii "\n    " ++ (Token.string s.fieldName s.fieldName).text ++
            ([] ++ Token.colon.text ++ (ascii " " ++ (Token.string value value).text ++
              (ascii "\n  " ++ Token.closeBrace.text ++
                ([] ++ Token.comma.text ++ (0x0A :: inside))))))))) :=
    .cons (hblanks _ (by decide)) <| .cons .nil <| .cons (hblanks _ (by decide)) <|
      .cons (hblanks _ (by decide)) <| .cons .nil <| .cons (hblanks _ (by decide)) <|
      .cons (hblanks _ (by decide)) <| .cons .nil <| h.blank (.inr (.inr (.inl rfl)))
  convert hspelled using 1
  simp only [Setting.insertion, Token.text, List.append_assoc, List.cons_append, List.nil_append]
  rfl

theorem OpensRoot.isText_inserted {p : Parser} {s : Setting} {value before rest : Text}
    {members : List ((Text × Text) × Written)} (h : OpensRoot p.reading s members before rest)
    (hvalue : Plain value) :
    IsText p.reading (before ++ s.insertion value ++ rest)
      (.object (s.member value :: members)) := by
  obtain ⟨e, members, rfl⟩ := List.exists_cons_of_ne_nil h.inhabited
  obtain ⟨mark, gap, inside, tail, hmark, hgap, hinside, htail, rfl, rfl⟩ := h.spelled
  have htokens : (Written.object (s.member value :: e :: members)).tokens =
      .openBrace :: (s.insertedTokens value ++
        ([Token.comma].intercalate (Written.tokensOfMembers (e :: members)) ++
          [.closeBrace])) := by
    simp [Written.tokens, Written.tokensOfMembers, Setting.member, Setting.insertedTokens,
      List.intercalate]
  refine ⟨fun t ht => ?_, mark, gap ++ Token.openBrace.text ++ (s.insertion value ++ inside),
    tail, hmark, ?_, htail, by simp [Token.text]⟩
  · rw [htokens, List.mem_cons, List.mem_append] at ht
    have hinserted : t ∈ s.insertedTokens value → t.Legit p.reading := by
      simp only [Setting.insertedTokens, List.mem_cons, List.not_mem_nil, or_false]
      rintro (rfl | rfl | rfl | rfl | rfl | rfl | rfl | rfl)
      · exact p.plain s.plain_section
      · trivial
      · trivial
      · exact p.plain s.plain_field
      · trivial
      · exact p.plain hvalue
      · trivial
      · trivial
    rcases ht with rfl | hmem | hmem
    · trivial
    · exact hinserted hmem
    · exact h.legit t (List.mem_cons_of_mem _ hmem)
  · rw [htokens]
    refine .cons hgap ?_
    rw [Written.tokensOfMembers, ← List.nil_append (_ :: Written.tokensOfMembers members),
      intercalate_append_cons] at hinside ⊢
    exact s.spaced_insertion value hinside

theorem flatten_inserted {s : Setting} {members : List ((Text × Text) × Written)}
    (hfresh : s.sectionName ∉ members.map fun e => e.1.2) (value : Text) :
    flatten (Written.object (s.member value :: members)).stored =
      Function.update (flatten (Written.object members).stored) s.path (some value) := by
  have hnames : ∀ members : List ((Text × Text) × Written),
      (Written.storedMembers members).map Prod.fst = members.map fun e => e.1.2 := by
    intro members
    induction members with
    | nil => rfl
    | cons e members ih => exact congrArg (e.1.2 :: ·) ih
  have hstored : (Written.object (s.member value :: members)).stored =
      .object ((s.sectionName, .object [(s.fieldName, .string value)]) ::
        Json.collapse (Written.storedMembers members)) := by
    rw [Written.stored, Written.storedMembers, ← Json.collapse_cons]
    · rfl
    · rw [hnames]
      exact hfresh
  have hleaves : leaves [] (Written.object (s.member value :: members)).stored =
      (s.path, value) :: leaves [] (Written.object members).stored := by
    obtain ⟨b, name, hname⟩ := List.exists_cons_of_ne_nil s.section_ne
    rw [hstored, Written.stored]
    simp [leaves, leavesOfMembers, nextKey, Setting.path, leafText, hname]
  funext path
  rw [flatten_eq, hleaves, List.lookup_cons]
  by_cases hpath : path = s.path
  · rw [hpath, beq_self_eq_true, Function.update_self]
  · have hne : (path == s.path) = false := by simpa using hpath
    rw [hne, Function.update_of_ne hpath, flatten_eq]

/-! ## The round trip -/

/-- The edit lands where the map has the setting, or would have it. -/
inductive Lands (p : Parser) (s : Setting) (content : Text) : Prop where
  | replaces {c : Context} {before raw old after : Text} :
      valueSpan s.fieldName content = some (before, raw, after) →
      StandsIn p.reading c before after → p.reading.string raw old → ReadFrom c s.path →
      Lands p s content
  | inserts {members : List ((Text × Text) × Written)} {before rest : Text} :
      valueSpan s.fieldName content = none → splitAfter [0x7B] content = some (before, rest) →
      OpensRoot p.reading s members before rest → Lands p s content

/-- A value that is spelled as it is, written in full where the setting is read from, is
there after a reload, with the rest of the map. -/
theorem roundTrips_of_lands {p : Parser} {s : Setting} {a : Answers} {value content : Text}
    (hlands : Lands p s content) (hvalue : Plain value)
    (hwritten : ∀ new, s.edit value content = some new → new.length ≤ a.written) :
    RoundTrips p s a value content := by
  cases hlands with
  | @replaces c before raw old after hspan hstands hraw hread =>
      have hold := hstands.isText hraw
      rw [← valueSpan_eq hspan] at hold
      have hedit : s.edit value content = some (before ++ value ++ after) := by
        rw [Setting.edit, Config.edit, hspan]
      exact roundTrips_of_isText hold hedit (hstands.isText (p.plain hvalue))
        (hwritten _ hedit) (flatten_plug_of_readFrom hread _ _ _ _)
  | @inserts members before rest hspan hbrace hopens =>
      have hold := hopens.isText
      rw [← (splitAfter_eq hbrace).1] at hold
      have hedit : s.edit value content = some (before ++ s.insertion value ++ rest) := by
        rw [Setting.edit, Config.edit, hspan, hbrace, Option.map_some]
      exact roundTrips_of_isText hold hedit (hopens.isText_inserted hvalue) (hwritten _ hedit)
        (flatten_inserted hopens.fresh value)

/-- The place of the value in a file with the language. -/
def languageContext : Context :=
  .member [] (ascii "i18n", ascii "i18n")
    (.member [] (ascii "language", ascii "language") .hole []) []

theorem roundTrips_english :
    RoundTrips reader language ⟨true, true, true, 26, true, true⟩ (ascii "de")
      (languageFile "en") := by
  have hstands : StandsIn reader.reading languageContext (ascii "\x7b\"i18n\":\x7b\"language\":\"")
      (ascii "\"\x7d\x7d") := by
    refine ⟨?_, [], ascii "\x7b\"i18n\":\x7b\"language\":", [], ascii "\x7d\x7d", [],
      .inl rfl, ?_, .nil, ?_, .gap .nil, rfl, rfl⟩
    · intro t ht
      simp only [languageContext, Context.left, Context.right, Written.tokensOfMembers,
        List.flatMap_nil, List.nil_append, List.mem_append, List.mem_cons, List.not_mem_nil,
        or_false] at ht
      rcases ht with (rfl | rfl | rfl | rfl | rfl | rfl) | rfl | rfl <;> trivial
    · exact .cons .nil <| .cons .nil <| .cons .nil <| .cons .nil <| .cons .nil <|
        .cons .nil .nil
    · exact .cons .nil <| .cons .nil .nil
  have hlands : Lands reader language (languageFile "en") := by
    refine .replaces rfl hstands (reader.plain (show Plain (ascii "en") by decide)) fun value => ?_
    rw [flatten_eq]
    rfl
  refine roundTrips_of_lands hlands (by decide) fun new hnew => ?_
  obtain rfl : languageFile "de" = new := Option.some.inj hnew
  decide

/-- An edit of a string that the map does not read the setting from is lost, unless the map
has the value already. -/
theorem readFrom_of_roundTrips {p : Parser} {s : Setting} {a : Answers}
    {value content before raw old after : Text} {c : Context}
    (hspan : valueSpan s.fieldName content = some (before, raw, after))
    (hstands : StandsIn p.reading c before after) (hraw : p.reading.string raw old)
    (hvalue : Plain value)
    (hwritten : ∀ new, s.edit value content = some new → new.length ≤ a.written)
    (hresult : ∀ memory tmp, (setSetting s a value memory ⟨some content, tmp⟩).2.result = true)
    (hchanged : flatten (c.plug (.string raw old)).stored s.path ≠ some value)
    (h : RoundTrips p s a value content) : ReadFrom c s.path := by
  have hold := hstands.isText hraw
  rw [← valueSpan_eq hspan] at hold
  have hedit : s.edit value content = some (before ++ value ++ after) := by
    rw [Setting.edit, Config.edit, hspan]
  have hloaded := h (fun _ => none) none _ (loadConfig_of_isText hold none) (hresult _ _)
  obtain ⟨new, hedit', hfinal⟩ := final_of_result (hresult (fun _ => none) none)
  obtain rfl := Option.some.inj (hedit.symm.trans hedit')
  rw [List.take_of_length_le (hwritten _ hedit)] at hfinal
  have hreload := loadConfig_of_isText (hstands.isText (p.plain hvalue))
    (setSetting s a value (fun _ => none) ⟨some content, none⟩).2.final.tmp
  rw [← hfinal, hloaded, Loaded.loaded.injEq] at hreload
  have hnew : flatten (c.plug (.string value value)).stored s.path = some value := by
    rw [← hreload, Function.update_self]
  exact readFrom_of_changed hchanged hnew

/-- A file that has a member of the name of the field in another section first. -/
def twoLanguages (code : String) : Text :=
  ascii "\x7b\"a\":\x7b\"language\":\"" ++ ascii code ++
    ascii "\"\x7d,\"i18n\":\x7b\"language\":\"en\"\x7d\x7d"

/-- The first member of the name of the field is edited, whatever it is in. -/
theorem first_language_is_edited :
    ¬ ∀ a value content, RoundTrips reader language a value content := by
  intro h
  let root (value : Text) : Json :=
    .object [(ascii "a", .object [(ascii "language", .string value)]),
      (ascii "i18n", .object [(ascii "language", .string (ascii "en"))])]
  have hbefore : loadConfig reader
      ⟨some (twoLanguages "x"), none⟩ =
        .loaded (flatten (root (ascii "x"))) := rfl
  have hafter : loadConfig reader
      ⟨some (twoLanguages "de"), none⟩ =
        .loaded (flatten (root (ascii "de"))) := rfl
  have hedited := h ⟨true, true, true, 48, true, true⟩ (ascii "de") _ (fun _ => none) none _
    hbefore rfl
  have hlanguage := congrFun (Loaded.loaded.inj (hafter.symm.trans hedited)) language.path
  rw [Function.update_self, flatten_eq] at hlanguage
  exact absurd hlanguage (by decide)

end Config
