import IndustrialHmi.Theory.JsonText
import IndustrialHmi.Config.Flatten

/-!
# Persisting a setting

The language and the palette are written back into the configuration file by editing its
text: between the first two quotes after the first colon after the first occurrence of the
name of the field, or, when there are none, as a new section after the first brace.  The
new text is written to a temporary file, the old file is removed, and the temporary one
takes its name.

What each file operation answers is a parameter, and so is how much of the text is in the
temporary file when it is closed: what is still buffered then is written without a check.
-/

namespace Config

open JsonText

/-! ## The edit -/

/-- The text through the first occurrence of a pattern, and the rest. -/
def splitAfter (pat : Text) : Text → Option (Text × Text)
  | [] => none
  | b :: text =>
      if pat.isPrefixOf (b :: text) then some (pat, (b :: text).drop pat.length)
      else (splitAfter pat text).map fun r => (b :: r.1, r.2)

/-- The text through the quote before the value of a field, the value, and the rest from
the quote after it. -/
def valueSpan (fieldName content : Text) : Option (Text × Text × Text) := do
  let (throughKey, rest) ← splitAfter (quote :: fieldName ++ [quote]) content
  let (throughColon, rest) ← splitAfter [0x3A] rest
  let (throughQuote, rest) ← splitAfter [quote] rest
  let (throughEnd, rest) ← splitAfter [quote] rest
  return (throughKey ++ throughColon ++ throughQuote, throughEnd.dropLast, quote :: rest)

def edit (fieldName value insertionIfMissing content : Text) : Option Text :=
  match valueSpan fieldName content with
  | some (before, _, after) => some (before ++ value ++ after)
  | none => (splitAfter [0x7B] content).map fun r => r.1 ++ insertionIfMissing ++ r.2

theorem splitAfter_eq {pat text before rest : Text}
    (h : splitAfter pat text = some (before, rest)) : text = before ++ rest ∧ pat <:+ before := by
  induction text generalizing before rest with
  | nil => simp [splitAfter] at h
  | cons b text ih =>
      rw [splitAfter] at h
      by_cases hhere : pat.isPrefixOf (b :: text) = true
      · rw [if_pos hhere] at h
        cases h
        obtain ⟨rest, hrest⟩ := List.isPrefixOf_iff_prefix.mp hhere
        refine ⟨?_, List.suffix_rfl⟩
        rw [← hrest, List.drop_left]
      · rw [if_neg hhere, Option.map_eq_some_iff] at h
        obtain ⟨⟨before, rest⟩, hsplit, hpair⟩ := h
        cases hpair
        obtain ⟨rfl, hsuffix⟩ := ih hsplit
        exact ⟨rfl, hsuffix.trans (List.suffix_cons b before)⟩

/-- The parts are those of the content. -/
theorem valueSpan_eq {fieldName content before old after : Text}
    (h : valueSpan fieldName content = some (before, old, after)) :
    content = before ++ old ++ after := by
  simp only [valueSpan, Option.bind_eq_bind, Option.bind_eq_some_iff, Prod.exists,
    Option.pure_def, Option.some.injEq, Prod.mk.injEq] at h
  obtain ⟨key, rest, hkey, colon, rest', hcolon, opening, rest'', hquote, throughEnd, rest''',
    hend, rfl, rfl, rfl⟩ := h
  obtain ⟨rfl, -⟩ := splitAfter_eq hkey
  obtain ⟨rfl, -⟩ := splitAfter_eq hcolon
  obtain ⟨rfl, -⟩ := splitAfter_eq hquote
  obtain ⟨rfl, body, rfl⟩ := splitAfter_eq hend
  simp

/-! ## The file operations -/

structure Disk where
  config : Option Text
  tmp : Option Text

structure Answers where
  opensConfig : Bool
  opensTmp : Bool
  /-- The stream is good after the content has been put into it. -/
  good : Bool
  /-- The number of bytes in the temporary file when it is closed. -/
  written : Nat
  removes : Bool
  renames : Bool

/-- The last thing done to the disk. -/
inductive Point where
  | start
  | writing
  | removed
  | renamed
  deriving DecidableEq

/-- A call: every disk it leaves if it is stopped there, the last one, and the result. -/
structure Persisted where
  stops : List (Point × Disk)
  final : Disk
  result : Bool

def persistStringField (a : Answers) (fieldName value insertionIfMissing : Text) (disk : Disk) :
    Persisted :=
  match disk.config with
  | none => ⟨[(.start, disk)], disk, false⟩
  | some content =>
      if !a.opensConfig then ⟨[(.start, disk)], disk, false⟩
      else
        match edit fieldName value insertionIfMissing content with
        | none => ⟨[(.start, disk)], disk, false⟩
        | some content =>
            if !a.opensTmp then ⟨[(.start, disk)], disk, false⟩
            else
              let writing := (List.range (a.written + 1)).map fun n =>
                (Point.writing, { disk with tmp := some (content.take n) })
              let written := { disk with tmp := some (content.take a.written) }
              if !a.good then ⟨(.start, disk) :: writing, written, false⟩
              else
                let removed := if a.removes then { written with config := none } else written
                let stops := (.start, disk) :: writing ++ [(.removed, removed)]
                if a.renames then
                  let renamed := ⟨removed.tmp, none⟩
                  ⟨stops ++ [(.renamed, renamed)], renamed, true⟩
                else ⟨stops, removed, false⟩

/-! ## The settings -/

/-- A field of a section of the file, under names that are spelled as they are. -/
structure Setting where
  sectionName : Text
  fieldName : Text
  section_ne : sectionName ≠ []
  plain_section : Plain sectionName
  plain_field : Plain fieldName

namespace Setting

def path (s : Setting) : Text := s.sectionName ++ dot :: s.fieldName

def insertion (s : Setting) (value : Text) : Text :=
  ascii "\n  \"" ++ s.sectionName ++ ascii "\": \x7b\n    \"" ++ s.fieldName ++ ascii "\": \"" ++
    value ++ ascii "\"\n  \x7d,\n"

end Setting

/-- The map in memory after the call, and what the call does to the disk. -/
def setSetting (s : Setting) (a : Answers) (value : Text) (memory : FlatMap) (disk : Disk) :
    FlatMap × Persisted :=
  (Function.update memory s.path (some value),
    persistStringField a s.fieldName value (s.insertion value) disk)

def language : Setting := ⟨ascii "i18n", ascii "language", by decide, by decide, by decide⟩
def palette : Setting := ⟨ascii "ui", ascii "palette", by decide, by decide, by decide⟩

def setLanguage := setSetting language
def setPalette := setSetting palette

/-- What the edit makes of the content. -/
def Setting.edit (s : Setting) (value content : Text) : Option Text :=
  Config.edit s.fieldName value (s.insertion value) content

/-- A file that has the language and nothing else. -/
def languageFile (code : String) : Text :=
  ascii "\x7b\"i18n\":\x7b\"language\":\"" ++ ascii code ++ ascii "\"\x7d\x7d"

/-! ## What a call does to the disk -/

/-- A call that returns true has put the edited content into the file, as far as it was
written. -/
theorem final_of_result {s : Setting} {a : Answers} {value content : Text} {memory : FlatMap}
    {tmp : Option Text} (h : (setSetting s a value memory ⟨some content, tmp⟩).2.result = true) :
    ∃ new, s.edit value content = some new ∧
      (setSetting s a value memory ⟨some content, tmp⟩).2.final.config =
        some (new.take a.written) := by
  have hedit' : Config.edit s.fieldName value (s.insertion value) content =
      s.edit value content := rfl
  simp only [setSetting, persistStringField, hedit'] at h ⊢
  cases hedit : s.edit value content with
  | none => simp [hedit] at h
  | some new =>
      simp only [hedit] at h ⊢
      refine ⟨new, rfl, ?_⟩
      cases hconfig : a.opensConfig <;> cases htmp : a.opensTmp <;> cases hgood : a.good <;>
        cases hrename : a.renames <;> simp_all
      split <;> rfl

/-- Until the removal of the file it holds the content it had, and from the rename on the
edited one, as far as it was written. -/
theorem config_of_stop {s : Setting} {a : Answers} {value content : Text} {memory : FlatMap}
    {tmp : Option Text} {stop : Point × Disk}
    (h : stop ∈ (setSetting s a value memory ⟨some content, tmp⟩).2.stops)
    (hremoved : ¬ (stop.1 = .removed ∧ a.removes = true)) :
    stop.2.config = some content ∨
      ∃ new, s.edit value content = some new ∧ stop.1 = .renamed ∧ a.good = true ∧
        stop.2.config = some (new.take a.written) := by
  have hedit' : Config.edit s.fieldName value (s.insertion value) content =
      s.edit value content := rfl
  simp only [setSetting, persistStringField, hedit'] at h
  cases hedit : s.edit value content with
  | none =>
      simp only [hedit, ite_self, List.mem_singleton] at h
      exact .inl (by rw [h])
  | some new =>
      simp only [hedit] at h
      split at h
      next => exact .inl (by rw [List.mem_singleton.mp h])
      split at h
      next => exact .inl (by rw [List.mem_singleton.mp h])
      split at h
      next =>
        simp only [List.mem_cons, List.mem_map] at h
        rcases h with rfl | ⟨n, -, rfl⟩ <;> exact .inl rfl
      next hgood =>
        have hgood : a.good = true := by simpa using hgood
        split at h
        · simp only [List.mem_append, List.mem_cons, List.mem_map, List.not_mem_nil,
            or_false] at h
          rcases h with ((rfl | ⟨n, -, rfl⟩) | rfl) | rfl
          · exact .inl rfl
          · exact .inl rfl
          · have hkept : a.removes = false := by simpa using hremoved
            exact .inl (by simp [hkept])
          · refine .inr ⟨new, rfl, rfl, hgood, ?_⟩
            split <;> rfl
        · simp only [List.mem_append, List.mem_cons, List.mem_map, List.not_mem_nil,
            or_false] at h
          rcases h with (rfl | ⟨n, -, rfl⟩) | rfl
          · exact .inl rfl
          · exact .inl rfl
          · have hkept : a.removes = false := by simpa using hremoved
            exact .inl (by simp [hkept])

end Config
