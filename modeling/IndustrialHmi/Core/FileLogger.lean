import IndustrialHmi.Theory.Numerals
import IndustrialHmi.Theory.Segments

/-!
# The rotating log file

The logger appends every line to the current file.  A file that has reached its size is given
the number 1, the files with numbers move up by one, and the one with the last number is
removed.  The shift goes from the last number down, so that no file is renamed onto one that
has not been moved yet.

So the directory holds the last of the files into which the log is cut by size
(`rotation_law`).  A size is that of the bytes in a file, which no counter outgrows.
-/

namespace Logging

/-! ## Lines -/

inductive LogLevel where
  | TRACE
  | DEBUG
  | INFO
  | WARN
  | ERROR
  | CRITICAL
  deriving DecidableEq

def levelToPaddedString : LogLevel → Text
  | .TRACE => ascii "TRACE"
  | .DEBUG => ascii "DEBUG"
  | .INFO => ascii "INFO "
  | .WARN => ascii "WARN "
  | .ERROR => ascii "ERROR"
  | .CRITICAL => ascii "CRIT "

/-- What follows the last slash or backslash. -/
def shortFileName (full : Text) : Text :=
  (full.reverse.takeWhile fun b => b ≠ 47 ∧ b ≠ 92).reverse

/-- A call of `log`, with the time the clock shows. -/
structure Entry where
  timestamp : Text
  level : LogLevel
  fileName : Text
  line : Nat
  message : Text

def Entry.text (e : Entry) : Text :=
  e.timestamp ++ ascii " [" ++ levelToPaddedString e.level ++ ascii "] " ++
    shortFileName e.fileName ++ ascii ":" ++ ascii (toString e.line) ++ ascii "  " ++
    e.message ++ [10]

/-! ## File names -/

/-- Where the extension of a file name begins: at its last dot, unless that is the first
character. -/
def extensionStart (name : Text) : Nat :=
  let start := name.length - (name.reverse.takeWhile fun b => b ≠ 46).length - 1
  if name = ascii ".." ∨ start = 0 then name.length else start

def stem (name : Text) : Text := name.take (extensionStart name)

def extension (name : Text) : Text := name.drop (extensionStart name)

/-- The name of a file with a number. -/
def rotated (filePath : Text) (i : Nat) : Text :=
  stem filePath ++ ascii "." ++ ascii (toString i) ++ extension filePath

theorem stem_append_extension (name : Text) : stem name ++ extension name = name :=
  List.take_append_drop _ _

theorem rotated_injective {filePath : Text} {i j : Nat}
    (h : rotated filePath i = rotated filePath j) : i = j := by
  have hmiddle := List.append_cancel_right h
  exact Numeral.nat_injective (List.append_cancel_left hmiddle)

/-- The current file has none of the names with a number. -/
theorem filePath_ne_rotated (filePath : Text) (i : Nat) : filePath ≠ rotated filePath i := by
  intro h
  have hname := congrArg List.length (stem_append_extension filePath)
  have hlonger := congrArg List.length h
  have hdot : (ascii ".").length = 1 := rfl
  rw [List.length_append] at hname
  simp only [rotated, List.length_append, hdot] at hlonger
  omega

/-! ## The directory -/

/-- What the files of a directory contain. -/
abbrev Directory := Text → Option Text

namespace Directory

def remove (d : Directory) (name : Text) : Directory := Function.update d name none

/-- A file that has the new name is replaced. -/
def rename (d : Directory) (src dst : Text) : Directory := fun name =>
  if name = dst then d src else if name = src then none else d name

/-- Appends to a file, which is created if it is missing. -/
def append (d : Directory) (name t : Text) : Directory :=
  Function.update d name (some ((d name).getD [] ++ t))

def truncate (d : Directory) (name : Text) : Directory := Function.update d name (some [])

end Directory

/-! ## The logger -/

structure FileLogger where
  filePath : Text
  maxFileSize : Nat
  maxFiles : Nat
  currentSize : Nat
  isOpen : Bool := true
  directory : Directory

namespace FileLogger

/-- The constructor opens the file for appending. -/
def create (filePath : Text) (maxFileSize maxFiles : Nat) (d : Directory) : FileLogger where
  filePath := filePath
  maxFileSize := maxFileSize
  maxFiles := maxFiles
  currentSize := ((d filePath).getD []).length
  directory := d.append filePath []

/-- The loop of the shift, from a number down to 1. -/
def shift (filePath : Text) : Nat → Directory → Directory
  | 0, d => d
  | i + 1, d =>
      let src := rotated filePath (i + 1)
      let dst := rotated filePath (i + 2)
      shift filePath i (if (d src).isSome then d.rename src dst else d)

def rotate (l : FileLogger) : FileLogger :=
  let d := l.directory.remove (rotated l.filePath l.maxFiles)
  let d := shift l.filePath (l.maxFiles - 1) d
  let d := d.rename l.filePath (rotated l.filePath 1)
  { l with directory := d.truncate l.filePath, isOpen := true, currentSize := 0 }

/-- Writes a line to the current file. -/
def write (l : FileLogger) (line : Text) : FileLogger :=
  { l with
    directory := l.directory.append l.filePath line
    currentSize := l.currentSize + line.length }

def log (l : FileLogger) (e : Entry) : FileLogger :=
  if !l.isOpen then l
  else
    let l := l.write e.text
    if l.maxFileSize > 0 ∧ l.currentSize ≥ l.maxFileSize then l.rotate else l

/-- The logger of an empty directory after calls of `log`. -/
def after (filePath : Text) (maxFileSize maxFiles : Nat) (entries : List Entry) : FileLogger :=
  entries.foldl log (create filePath maxFileSize maxFiles fun _ => none)

/-- What the files contain, from the last number down to the current file. -/
def files (l : FileLogger) : List Text :=
  ((List.range l.maxFiles).reverse.map fun i => rotated l.filePath (i + 1)).filterMap l.directory ++
    (l.directory l.filePath).toList

/-! ## The law of a run -/

/-- A file into which the log is cut is full when it has reached the size. -/
def full (maxFileSize : Nat) (lines : List Text) : Bool := maxFileSize ≤ lines.flatten.length

/-- The files into which the log is cut, oldest first. -/
def allFiles (maxFileSize : Nat) (entries : List Entry) : Segments.Cut Text :=
  Segments.cut (full maxFileSize) (entries.map Entry.text)

/-- The law of a run of calls. -/
structure RotationLaw (filePath : Text) (maxFileSize maxFiles : Nat) (entries : List Entry) :
    Prop where
  /-- Read in order the files are a suffix of the lines logged. -/
  suffix : ∃ kept, kept <:+ entries.map Entry.text ∧
    (after filePath maxFileSize maxFiles entries).files.flatten = kept.flatten
  /-- All the files there have been are made of whole lines. -/
  whole : (allFiles maxFileSize entries).segments.flatten = entries.map Entry.text
  /-- The directory has the last of them. -/
  kept : (after filePath maxFileSize maxFiles entries).files =
    ((allFiles maxFileSize entries).segments.drop
      ((allFiles maxFileSize entries).segments.length - (maxFiles + 1))).map List.flatten
  /-- A file that is no longer the current one does not change. -/
  closed : ∀ more, (allFiles maxFileSize entries).closed <+:
    (allFiles maxFileSize (entries ++ more)).closed
  /-- No other file exists. -/
  names : ∃ names : List Text, names.length = maxFiles + 1 ∧
    ∀ name, ((after filePath maxFileSize maxFiles entries).directory name).isSome → name ∈ names
  /-- A file exceeds the size by less than its last line. -/
  sizes : ∀ lines ∈ (allFiles maxFileSize entries).segments,
    lines.flatten.length < maxFileSize + (lines.getLastD []).length

/-! ## Shifting -/

/-- Each file with a number up to `n` moves up by one, if nothing is in the way. -/
structure Shifted (filePath : Text) (n : Nat) (d d' : Directory) : Prop where
  first : d' (rotated filePath 1) = none
  moved : ∀ i, 1 ≤ i → i ≤ n → d' (rotated filePath (i + 1)) = d (rotated filePath i)
  other : ∀ name, (∀ i, 1 ≤ i → i ≤ n + 1 → name ≠ rotated filePath i) → d' name = d name

variable {filePath : Text}

/-- One turn of the loop leaves the number free. -/
theorem turn_src {d : Directory} (i : Nat) :
    (if (d (rotated filePath i)).isSome then
        d.rename (rotated filePath i) (rotated filePath (i + 1))
      else d) (rotated filePath i) = none := by
  split
  next =>
    rw [Directory.rename, if_neg fun h => absurd (rotated_injective h) (by omega), if_pos rfl]
  next hmissing => exact Option.not_isSome_iff_eq_none.mp hmissing

theorem turn_dst {d : Directory} {i : Nat} (hfree : d (rotated filePath (i + 1)) = none) :
    (if (d (rotated filePath i)).isSome then
        d.rename (rotated filePath i) (rotated filePath (i + 1))
      else d) (rotated filePath (i + 1)) = d (rotated filePath i) := by
  split
  next => rw [Directory.rename, if_pos rfl]
  next hmissing => rw [hfree, Option.not_isSome_iff_eq_none.mp hmissing]

theorem turn_other {d : Directory} {i : Nat} {name : Text} (hsrc : name ≠ rotated filePath i)
    (hdst : name ≠ rotated filePath (i + 1)) :
    (if (d (rotated filePath i)).isSome then
        d.rename (rotated filePath i) (rotated filePath (i + 1))
      else d) name = d name := by
  split
  next => rw [Directory.rename, if_neg hdst, if_neg hsrc]
  next => rfl

/-- The loop shifts when the number above is free.  By induction on the number it starts
from: after a turn the number below is free for the next. -/
theorem shifted_shift (n : Nat) {d : Directory} (hfree : d (rotated filePath (n + 1)) = none) :
    Shifted filePath n d (shift filePath n d) := by
  induction n generalizing d with
  | zero => exact ⟨hfree, fun i hone hzero => by omega, fun name _ => rfl⟩
  | succ n ih =>
      obtain ⟨hfirst, hmoved, hother⟩ := ih (turn_src (d := d) (n + 1))
      refine ⟨hfirst, fun i hone hle => ?_, fun name hname => ?_⟩
      · rcases Nat.le_succ_iff.mp hle with hlower | rfl
        · refine (hmoved i hone hlower).trans (turn_other ?_ ?_)
          · exact fun h => absurd (rotated_injective h) (by omega)
          · exact fun h => absurd (rotated_injective h) (by omega)
        · refine (hother _ fun i _ hi h => ?_).trans (turn_dst hfree)
          exact absurd (rotated_injective h) (by omega)
      · refine (hother name fun i hone hi => hname i hone (by omega)).trans (turn_other ?_ ?_)
        · exact hname (n + 1) (by omega) (by omega)
        · exact hname (n + 2) (by omega) (by omega)

/-! ## What the directory holds -/

/-- The current file is the open one, and the closed files are under their numbers, the last
one first. -/
structure Holds (filePath : Text) (maxFiles : Nat) (c : Segments.Cut Text) (d : Directory) :
    Prop where
  current : d filePath = some c.current.flatten
  numbered : ∀ i, i < maxFiles →
    d (rotated filePath (i + 1)) = c.closed.reverse[i]?.map List.flatten
  other : ∀ name, name ≠ filePath → (∀ i, i < maxFiles → name ≠ rotated filePath (i + 1)) →
    d name = none

variable {maxFiles : Nat} {c : Segments.Cut Text} {d : Directory}

/-- The current file grows by a line. -/
theorem Holds.append (h : Holds filePath maxFiles c d) (line : Text) :
    Holds filePath maxFiles { c with current := c.current ++ [line] } (d.append filePath line) where
  current := by
    rw [Directory.append, Function.update_self, h.current, Option.getD_some, List.flatten_concat]
  numbered i hi := by
    rw [Directory.append, Function.update_of_ne (filePath_ne_rotated _ _).symm]
    exact h.numbered i hi
  other name hname hnumbered := by
    rw [Directory.append, Function.update_of_ne hname]
    exact h.other name hname hnumbered

/-- The current file is closed and becomes the first of the numbered ones. -/
theorem Holds.rotate (h : Holds filePath maxFiles c d) (hfiles : 1 ≤ maxFiles) :
    Holds filePath maxFiles { closed := c.closed ++ [c.current] }
      (((shift filePath (maxFiles - 1) (d.remove (rotated filePath maxFiles))).rename filePath
        (rotated filePath 1)).truncate filePath) := by
  obtain ⟨n, rfl⟩ : ∃ n, maxFiles = n + 1 := ⟨maxFiles - 1, by omega⟩
  rw [Nat.add_sub_cancel]
  have hfree : d.remove (rotated filePath (n + 1)) (rotated filePath (n + 1)) = none :=
    Function.update_self _ _ _
  obtain ⟨-, hmoved, hother⟩ := shifted_shift n hfree
  have hremoved {name : Text} (hname : name ≠ rotated filePath (n + 1)) :
      d.remove (rotated filePath (n + 1)) name = d name := Function.update_of_ne hname _ _
  have hcurrent : shift filePath n (d.remove (rotated filePath (n + 1))) filePath =
      some c.current.flatten := by
    rw [hother _ fun i _ _ => filePath_ne_rotated _ _, hremoved (filePath_ne_rotated _ _)]
    exact h.current
  refine ⟨Function.update_self _ _ _, fun i hi => ?_, fun name hname hnumbered => ?_⟩
  · rw [Directory.truncate, Function.update_of_ne (filePath_ne_rotated _ _).symm,
      List.reverse_concat]
    cases i with
    | zero => rw [Directory.rename, if_pos rfl, hcurrent]; rfl
    | succ i =>
        have hfirst : rotated filePath (i + 2) ≠ rotated filePath 1 :=
          fun hsame => absurd (rotated_injective hsame) (by omega)
        have hlast : rotated filePath (i + 1) ≠ rotated filePath (n + 1) :=
          fun hsame => absurd (rotated_injective hsame) (by omega)
        rw [Directory.rename, if_neg hfirst, if_neg (filePath_ne_rotated _ _).symm,
          hmoved (i + 1) (by omega) (by omega), hremoved hlast, List.getElem?_cons_succ]
        exact h.numbered i (by omega)
  · rw [Directory.truncate, Function.update_of_ne hname, Directory.rename,
      if_neg (hnumbered 0 (by omega)), if_neg hname, hother name, hremoved (hnumbered n (by omega))]
    · exact h.other name hname hnumbered
    · intro i hone hi
      obtain ⟨j, rfl⟩ : ∃ j, i = j + 1 := ⟨i - 1, by omega⟩
      exact hnumbered j (by omega)

/-! ## Runs -/

/-- The logger has cut the lines of its log into the files of its directory. -/
structure Logged (lines : List Text) (l : FileLogger) : Prop where
  isOpen : l.isOpen = true
  currentSize : l.currentSize = (Segments.cut (full l.maxFileSize) lines).current.flatten.length
  holds : Holds l.filePath l.maxFiles (Segments.cut (full l.maxFileSize) lines) l.directory

variable {lines : List Text} {l : FileLogger}

/-- What a call leaves is configured as before. -/
structure Kept (l l' : FileLogger) : Prop where
  filePath : l'.filePath = l.filePath
  maxFileSize : l'.maxFileSize = l.maxFileSize
  maxFiles : l'.maxFiles = l.maxFiles

theorem kept_log (l : FileLogger) (e : Entry) : Kept l (l.log e) := by
  rw [FileLogger.log]
  split
  next => exact ⟨rfl, rfl, rfl⟩
  next =>
    dsimp only
    split <;> exact ⟨rfl, rfl, rfl⟩

/-- A call makes the same cut in the directory as in the log. -/
theorem Logged.log (h : Logged lines l) (hsize : 0 < l.maxFileSize) (hfiles : 1 ≤ l.maxFiles)
    (e : Entry) : Logged (lines ++ [e.text]) (l.log e) := by
  obtain ⟨hopen, hcurrentSize, hholds⟩ := h
  have hgrown := hholds.append e.text
  have hlength : (l.write e.text).currentSize =
      ((Segments.cut (full l.maxFileSize) lines).current ++ [e.text]).flatten.length := by
    rw [List.flatten_concat, List.length_append, ← hcurrentSize]
    rfl
  have hcut := @Segments.cut_concat _ (full l.maxFileSize) lines e.text
  rw [Segments.Cut.add, full, ← hlength] at hcut
  have hlog : l.log e = if (l.write e.text).maxFileSize > 0 ∧
      (l.write e.text).currentSize ≥ (l.write e.text).maxFileSize then (l.write e.text).rotate
      else l.write e.text := by
    rw [FileLogger.log, hopen]
    rfl
  by_cases hfull : l.maxFileSize ≤ (l.write e.text).currentSize
  · rw [if_pos (decide_eq_true hfull)] at hcut
    rw [hlog, if_pos ⟨hsize, hfull⟩]
    have hrotated := hgrown.rotate hfiles
    rw [← hcut] at hrotated
    exact ⟨rfl, (congrArg (fun c => c.current.flatten.length) hcut).symm, hrotated⟩
  · rw [if_neg (fun h => hfull (of_decide_eq_true h))] at hcut
    rw [hlog, if_neg (fun h => hfull h.2)]
    rw [← hcut] at hgrown
    exact ⟨hopen, hlength.trans (congrArg (fun c => c.current.flatten.length) hcut).symm, hgrown⟩

/-- The constructor leaves an empty current file. -/
theorem holds_create (filePath : Text) (maxFiles : Nat) :
    Holds filePath maxFiles {} (Directory.append (fun _ => none) filePath []) where
  current := Function.update_self _ _ _
  numbered _ _ := Function.update_of_ne (filePath_ne_rotated filePath _).symm _ _
  other _ hname _ := Function.update_of_ne hname _ _

theorem logged_create (filePath : Text) (maxFileSize maxFiles : Nat) :
    Logged [] (create filePath maxFileSize maxFiles fun _ => none) :=
  ⟨rfl, rfl, holds_create filePath maxFiles⟩

section

variable (filePath : Text) {maxFileSize maxFiles : Nat}

theorem after_concat (entries : List Entry) (e : Entry) :
    after filePath maxFileSize maxFiles (entries ++ [e]) =
      (after filePath maxFileSize maxFiles entries).log e :=
  List.foldl_append

theorem kept_after (entries : List Entry) :
    Kept (create filePath maxFileSize maxFiles fun _ => none)
      (after filePath maxFileSize maxFiles entries) := by
  induction entries using List.reverseRecOn with
  | nil => exact ⟨rfl, rfl, rfl⟩
  | append_singleton entries e ih =>
      rw [after_concat]
      have hlog := kept_log (after filePath maxFileSize maxFiles entries) e
      exact ⟨hlog.filePath.trans ih.filePath, hlog.maxFileSize.trans ih.maxFileSize,
        hlog.maxFiles.trans ih.maxFiles⟩

theorem logged_after (hsize : 0 < maxFileSize) (hfiles : 1 ≤ maxFiles) (entries : List Entry) :
    Logged (entries.map Entry.text) (after filePath maxFileSize maxFiles entries) := by
  induction entries using List.reverseRecOn with
  | nil => exact logged_create filePath maxFileSize maxFiles
  | append_singleton entries e ih =>
      obtain ⟨-, hmaxFileSize, hmaxFiles⟩ := @kept_after filePath maxFileSize maxFiles entries
      rw [after_concat, List.map_append]
      exact ih.log (hmaxFileSize ▸ hsize) (hmaxFiles ▸ hfiles) e

/-- The directory of a run holds the cut of its lines. -/
theorem holds_after (hsize : 0 < maxFileSize) (hfiles : 1 ≤ maxFiles) (entries : List Entry) :
    Holds filePath maxFiles (allFiles maxFileSize entries)
      (after filePath maxFileSize maxFiles entries).directory := by
  obtain ⟨hfilePath, hmaxFileSize, hmaxFiles⟩ :=
    @kept_after filePath maxFileSize maxFiles entries
  have hholds := (logged_after filePath hsize hfiles entries).holds
  rw [hfilePath, hmaxFileSize, hmaxFiles] at hholds
  exact hholds

end

/-! ## Reading the files in order -/

theorem filterMap_range_getElem? {α : Type} (xs : List α) (n : Nat) :
    (List.range n).filterMap (fun i => xs[i]?) = xs.take n := by
  induction n with
  | zero => rfl
  | succ n ih =>
      rw [List.range_succ, List.filterMap_append, ih, List.take_add_one]
      rfl

/-- Read from the last number down, the files are the last ones of the cut. -/
theorem Holds.files {filePath : Text} {maxFiles : Nat} {c : Segments.Cut Text} {d : Directory}
    (h : Holds filePath maxFiles c d) :
    ((List.range maxFiles).reverse.map fun i => rotated filePath (i + 1)).filterMap d ++
        (d filePath).toList =
      (c.segments.drop (c.segments.length - (maxFiles + 1))).map List.flatten := by
  have hnumbered : (List.range maxFiles).filterMap (fun i => d (rotated filePath (i + 1))) =
      (c.closed.reverse.take maxFiles).map List.flatten := by
    rw [← filterMap_range_getElem?, List.map_filterMap]
    exact List.filterMap_congr fun i hi => h.numbered i (List.mem_range.mp hi)
  have hlength : c.segments.length - (maxFiles + 1) = c.closed.length - maxFiles := by
    rw [Segments.Cut.segments, List.length_append, List.length_singleton, Nat.add_sub_add_right]
  rw [List.filterMap_map, List.filterMap_reverse, Function.comp_def, hnumbered, h.current, hlength,
    Segments.Cut.segments, List.drop_append_of_le_length (Nat.sub_le _ _), List.map_append,
    List.take_reverse, List.map_reverse, List.reverse_reverse]
  rfl

theorem files_after (filePath : Text) {maxFileSize maxFiles : Nat} (hsize : 0 < maxFileSize)
    (hfiles : 1 ≤ maxFiles) (entries : List Entry) :
    (after filePath maxFileSize maxFiles entries).files =
      ((allFiles maxFileSize entries).segments.drop
        ((allFiles maxFileSize entries).segments.length - (maxFiles + 1))).map List.flatten := by
  obtain ⟨hfilePath, -, hmaxFiles⟩ := @kept_after filePath maxFileSize maxFiles entries
  rw [← (holds_after filePath hsize hfiles entries).files, FileLogger.files, hfilePath, hmaxFiles]
  rfl

/-! ## The law -/

theorem full_nil {maxFileSize : Nat} (hsize : 0 < maxFileSize) : full maxFileSize [] = false :=
  decide_eq_false (Nat.not_le.mpr hsize)

/-- A file exceeds the size by less than its last line. -/
theorem length_segment {maxFileSize : Nat} (hsize : 0 < maxFileSize) (entries : List Entry) :
    ∀ lines ∈ (allFiles maxFileSize entries).segments,
      lines.flatten.length < maxFileSize + (lines.getLastD []).length := by
  obtain ⟨hclosed, hcurrent⟩ :=
    Segments.wellCut_cut (full_nil hsize) (entries.map Entry.text)
  have hroom {lines : List Text} (h : full maxFileSize lines = false) :
      lines.flatten.length < maxFileSize := Nat.not_le.mp (of_decide_eq_false h)
  rw [Segments.Cut.segments, List.forall_mem_append, List.forall_mem_singleton]
  constructor
  · intro lines hlines
    obtain ⟨earlier, last, rfl, hearlier⟩ := hclosed lines hlines
    rw [List.flatten_concat, List.length_append, List.getLastD_concat]
    exact Nat.add_lt_add_right (hroom hearlier) _
  · exact Nat.lt_add_right _ (hroom hcurrent)

/-- Every run of calls on an empty directory obeys the law. -/
theorem rotation_law (filePath : Text) (maxFileSize maxFiles : Nat) (hsize : 0 < maxFileSize)
    (hfiles : 1 ≤ maxFiles) (entries : List Entry) :
    RotationLaw filePath maxFileSize maxFiles entries where
  suffix := by
    set segments := (allFiles maxFileSize entries).segments with hsegments
    have hlines : segments.flatten = entries.map Entry.text := Segments.flatten_segments_cut _
    refine ⟨(segments.drop (segments.length - (maxFiles + 1))).flatten, ?_, ?_⟩
    · refine ⟨(segments.take (segments.length - (maxFiles + 1))).flatten, ?_⟩
      rw [← List.flatten_append, List.take_append_drop, hlines]
    · rw [files_after filePath hsize hfiles, List.flatten_flatten]
  whole := Segments.flatten_segments_cut _
  kept := files_after filePath hsize hfiles entries
  closed more := by
    rw [allFiles, allFiles, List.map_append]
    exact Segments.closed_prefix_cut _ _
  names := by
    refine ⟨filePath :: (List.range maxFiles).map fun i => rotated filePath (i + 1), ?_, ?_⟩
    · rw [List.length_cons, List.length_map, List.length_range]
    · intro name hname
      by_contra hmissing
      obtain ⟨hcurrent, hnumbered⟩ := not_or.mp fun hor => hmissing (List.mem_cons.mpr hor)
      rw [(holds_after filePath hsize hfiles entries).other name hcurrent fun i hi hsame =>
        hnumbered (List.mem_map.mpr ⟨i, List.mem_range.mpr hi, hsame.symm⟩)] at hname
      cases hname
  sizes := length_segment hsize entries

theorem rotation_law_tiny : RotationLaw (ascii "app.log") 1 1
    [⟨ascii "10:00:00.000", .INFO, ascii "a/main.cpp", 7, ascii "up"⟩,
      ⟨ascii "10:00:00.001", .WARN, ascii "a/main.cpp", 9, ascii "down"⟩] :=
  rotation_law (ascii "app.log") 1 1 Nat.one_pos le_rfl _

end FileLogger

end Logging
