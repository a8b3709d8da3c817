import IndustrialHmi.Theory.Json
import IndustrialHmi.Theory.Lines

/-!
# Lines from a serial port

`consume` appends what was read to its buffer, parses every line that has ended and keeps the rest.
When the rest is longer than 4096 bytes it is dropped, so that a line without an end does not fill
the memory.  The parser does not remember that it is inside a line then.  What follows up to the
next newline is parsed as if it were a line.

Where a read ends decides whether that happens.  So the readings do not depend on the reads only if
no line of more than 4096 bytes can give a reading, neither as it is nor behind any such front part
of it (`readsDoNotMatter_iff`).
-/

namespace Serial

open Incremental

def kFrameDelimiter : UInt8 := 0x0A
def kFieldDelimiter : UInt8 := 0x2C
def kCarriageReturn : UInt8 := 0x0D
def kMaxBufferBytes : Nat := 4096

structure SerialReading where
  sensorId : Text
  value : Text
  deriving DecidableEq

/-- The first place of `c` from `start` on. -/
def find (t : Text) (c : UInt8) (start : Nat) : Option Nat :=
  ((t.drop start).idxOf? c).map (start + ·)

/-! ## One line -/

/-- The line without one trailing carriage return. -/
def trimmed (line : Text) : Text :=
  if line.getLast? = some kCarriageReturn then line.dropLast else line

def parseLine (line : Text) : Option SerialReading :=
  let line := trimmed line
  if line = [] then none
  else
    match find line kFieldDelimiter 0 with
    | none => none
    | some comma =>
        if find line kFieldDelimiter (comma + 1) ≠ none then none
        else
          let id := line.take comma
          let value := line.drop (comma + 1)
          if id = [] ∨ value = [] then none else some { sensorId := id, value := value }

theorem find_none {t : Text} {c : UInt8} {start : Nat} :
    find t c start = none ↔ c ∉ t.drop start := by
  rw [find, Option.map_eq_none_iff, List.idxOf?_eq_none_iff]

/-- What stands from `start` on has the first delimiter behind its first `newline - start` bytes. -/
theorem nextLine_find {t : Text} {c : UInt8} {start i : Nat} (h : find t c start = some i) :
    nextLine c (t.drop start) = some ((t.drop start).take (i - start), i - start + 1) ∧
      start ≤ i := by
  rw [find, Option.map_eq_some_iff] at h
  obtain ⟨j, hj, rfl⟩ := h
  rw [nextLine, hj, Option.map_some, Nat.add_sub_cancel_left]
  exact ⟨rfl, Nat.le_add_right start j⟩

theorem parseLine_of_notMem {line : Text} (h : kFieldDelimiter ∉ trimmed line) :
    parseLine line = none := by
  have hfind : find (trimmed line) kFieldDelimiter 0 = none :=
    find_none.mpr (by rwa [List.drop_zero])
  simp only [parseLine, hfind, ite_self]

theorem parseLine_of_fields {line id value : Text}
    (h : trimmed line = id ++ kFieldDelimiter :: value) (hid : kFieldDelimiter ∉ id) :
    parseLine line =
      if kFieldDelimiter ∈ value ∨ id = [] ∨ value = [] then none
      else some { sensorId := id, value := value } := by
  have hfind : find (id ++ kFieldDelimiter :: value) kFieldDelimiter 0 = some id.length := by
    rw [find, List.drop_zero, idxOf?_line hid, Option.map_some, Nat.zero_add]
  have hdrop : (id ++ kFieldDelimiter :: value).drop (id.length + 1) = value := by
    rw [← List.drop_drop, List.drop_left, List.drop_one, List.tail_cons]
  have hne : id ++ kFieldDelimiter :: value ≠ [] :=
    List.append_ne_nil_of_right_ne_nil id (List.cons_ne_nil _ _)
  have hsecond : find (id ++ kFieldDelimiter :: value) kFieldDelimiter (id.length + 1) ≠ none ↔
      kFieldDelimiter ∈ value := by
    rw [Ne, find_none, hdrop, not_not]
  simp only [parseLine, h, hne, if_false, hfind, hdrop, hsecond, List.take_left]
  by_cases hmem : kFieldDelimiter ∈ value
  · rw [if_pos hmem, if_pos (Or.inl hmem)]
  · simp only [hmem, if_false, false_or]

/-- A line gives a reading if it is an identifier, one comma and a value, neither of them empty. -/
theorem parseLine_eq_some {line : Text} {r : SerialReading} :
    parseLine line = some r ↔
      trimmed line = r.sensorId ++ kFieldDelimiter :: r.value ∧
        kFieldDelimiter ∉ r.sensorId ∧ kFieldDelimiter ∉ r.value ∧
        r.sensorId ≠ [] ∧ r.value ≠ [] := by
  by_cases hmem : kFieldDelimiter ∈ trimmed line
  · obtain ⟨id, value, hline, hid⟩ := List.eq_append_cons_of_mem hmem
    rw [parseLine_of_fields hline hid]
    constructor
    · intro h
      split at h
      · cases h
      · next hnot =>
          obtain ⟨hvalue, hid', hvalue'⟩ := not_or.mp hnot |>.imp_right not_or.mp
          cases h
          exact ⟨hline, hid, hvalue, hid', hvalue'⟩
    · rintro ⟨hr, hrid, hrvalue, hid', hvalue'⟩
      have hnext := nextLine_append hid value
      rw [← hline, hr, nextLine_append hrid] at hnext
      obtain ⟨rfl, -⟩ := Prod.mk.inj (Option.some.inj hnext)
      obtain ⟨-, rfl⟩ := List.cons.inj (List.append_cancel_left (hline.symm.trans hr))
      rw [if_neg (not_or.mpr ⟨hrvalue, not_or.mpr ⟨hid', hvalue'⟩⟩)]
  · rw [parseLine_of_notMem hmem]
    constructor
    · intro h
      cases h
    · rintro ⟨hr, -⟩
      exact absurd (hr ▸ List.mem_append_right _ List.mem_cons_self) hmem

theorem length_trimmed (line : Text) :
    (trimmed line).length ≤ line.length ∧ line.length ≤ (trimmed line).length + 1 := by
  rw [trimmed]
  split
  · rw [List.length_dropLast]
    omega
  · omega

/-! ## The stream -/

/-- The loop of `consume`: the lines that it parses from `start` on, and where it stops. -/
def consumeLoop (buffer : Text) (start : Nat) : List Text × Nat :=
  match _h : find buffer kFrameDelimiter start with
  | none => ([], start)
  | some newline =>
      let line := (buffer.drop start).take (newline - start)
      let r := consumeLoop buffer (newline + 1)
      (line :: r.1, r.2)
termination_by buffer.length - start
decreasing_by
  obtain ⟨hnext, hle⟩ := nextLine_find _h
  have hlt := (lineScanner kFrameDelimiter).le_length hnext
  rw [List.length_drop] at hlt
  omega

/-- The loop reads the ended lines, and stops at the one that is not. -/
theorem consumeLoop_eq (buffer : Text) (start : Nat) :
    (consumeLoop buffer start).1 = ((lineScanner kFrameDelimiter).scan (buffer.drop start)).1 ∧
      buffer.drop (consumeLoop buffer start).2 =
        ((lineScanner kFrameDelimiter).scan (buffer.drop start)).2 := by
  induction start using consumeLoop.induct buffer with
  | case1 start h =>
      have hwait : nextLine kFrameDelimiter (buffer.drop start) = none :=
        nextLine_of_notMem (find_none.mp h)
      rw [consumeLoop, (lineScanner kFrameDelimiter).scan_of_none hwait]
      split
      · exact ⟨rfl, rfl⟩
      · next h' => rw [h] at h'; cases h'
  | case2 start newline h ih =>
      obtain ⟨hnext, hle⟩ := nextLine_find h
      have hdrop : (buffer.drop start).drop (newline - start + 1) = buffer.drop (newline + 1) := by
        rw [List.drop_drop]
        congr 1
        omega
      rw [consumeLoop, (lineScanner kFrameDelimiter).scan_of_some hnext, hdrop]
      split
      · next h' => rw [h] at h'; cases h'
      · next newline' h' =>
          rw [h] at h'
          cases h'
          exact ⟨congrArg _ ih.1, ih.2⟩

structure SerialFrameParser where
  buffer : Text := []

namespace SerialFrameParser

/-- The lines that a call parses. -/
def linesOf (p : SerialFrameParser) (bytes : Text) : List Text :=
  (consumeLoop (p.buffer ++ bytes) 0).1

def consume (p : SerialFrameParser) (bytes : Text) : List SerialReading × SerialFrameParser :=
  let buffer := p.buffer ++ bytes
  let readings := (p.linesOf bytes).filterMap parseLine
  let buffer := buffer.drop (consumeLoop buffer 0).2
  (readings, { buffer := if kMaxBufferBytes < buffer.length then [] else buffer })

/-- The readings of one call after the other. -/
def consumeAll (p : SerialFrameParser) : List Text → List SerialReading
  | [] => []
  | bytes :: chunks => (p.consume bytes).1 ++ consumeAll (p.consume bytes).2 chunks

/-- The lines that the calls parse. -/
def linesOfAll (p : SerialFrameParser) : List Text → List Text
  | [] => []
  | bytes :: chunks => p.linesOf bytes ++ linesOfAll (p.consume bytes).2 chunks

/-- A call is one of the reader of lines that has the limit. -/
theorem readChunk_eq (p : SerialFrameParser) (bytes : Text) :
    readChunk kFrameDelimiter kMaxBufferBytes p.buffer bytes =
      (p.linesOf bytes, (p.consume bytes).2.buffer) := by
  obtain ⟨hlines, hrest⟩ := consumeLoop_eq (p.buffer ++ bytes) 0
  rw [List.drop_zero] at hlines hrest
  simp only [readChunk, linesOf, consume, hlines, hrest, guarded]

theorem linesOfAll_eq (p : SerialFrameParser) (chunks : List Text) :
    p.linesOfAll chunks = (readAll kFrameDelimiter kMaxBufferBytes p.buffer chunks).1 := by
  induction chunks generalizing p with
  | nil => rfl
  | cons bytes chunks ih => rw [linesOfAll, readAll, readChunk_eq, ih]

/-- The readings are those of the lines that are parsed. -/
theorem consumeAll_eq (p : SerialFrameParser) (chunks : List Text) :
    p.consumeAll chunks = (p.linesOfAll chunks).filterMap parseLine := by
  induction chunks generalizing p with
  | nil => rfl
  | cons bytes chunks ih =>
      rw [consumeAll, linesOfAll, List.filterMap_append, ih]
      rfl

/-- As many lines are parsed as the stream has, each of them whole or cut. -/
theorem linesOfAll_cut {chunks : List Text} {stream : Text} (h : chunks.flatten = stream) :
    List.Forall₂ (Cut kMaxBufferBytes) (({} : SerialFrameParser).linesOfAll chunks)
      (endedLines kFrameDelimiter stream) := by
  have hnil : kFrameDelimiter ∉ [] := List.not_mem_nil
  have hcut := readAll_cut chunks (Cut.refl kMaxBufferBytes []) hnil
  rw [List.nil_append, h, scan_lineScanner] at hcut
  rw [linesOfAll_eq]
  exact hcut

end SerialFrameParser

/-! ## Reads -/

/-- What the readings of a stream are, however it is cut into reads. -/
structure ReadsDoNotMatter (stream : Text) : Prop where
  /-- Any two ways to cut the stream give the same readings. -/
  same : ∀ {reads reads' : List Text}, reads.flatten = stream → reads'.flatten = stream →
    ({} : SerialFrameParser).consumeAll reads = ({} : SerialFrameParser).consumeAll reads'
  /-- They are those of the lines that are ended and well-formed, in order. -/
  inOrder : ∀ {reads : List Text}, reads.flatten = stream →
    ({} : SerialFrameParser).consumeAll reads =
      (endedLines kFrameDelimiter stream).filterMap parseLine
  /-- What gives a reading is the whole of the line at its place. -/
  whole : ∀ {reads : List Text} {i : Nat} {seen : Text} {r : SerialReading},
    reads.flatten = stream → (({} : SerialFrameParser).linesOfAll reads)[i]? = some seen →
    parseLine seen = some r → (endedLines kFrameDelimiter stream)[i]? = some seen

/-- Whole or behind any front part that is longer than the limit, the line gives no reading. -/
def Harmless (line : Text) : Prop :=
  ∀ cut, kMaxBufferBytes < cut → cut ≤ line.length →
    parseLine line = none ∧ parseLine (line.drop cut) = none

theorem length_of_parseLine {line : Text} {r : SerialReading} (h : parseLine line = some r) :
    r.sensorId.length + r.value.length + 1 ≤ line.length ∧
      line.length ≤ r.sensorId.length + r.value.length + 2 := by
  obtain ⟨hline, -⟩ := parseLine_eq_some.mp h
  obtain ⟨hle, hge⟩ := length_trimmed line
  rw [hline, List.length_append, List.length_cons] at hle hge
  omega

/-- A line and what is left of it behind two bytes or more do not give the same reading. -/
theorem parseLine_drop_eq {line : Text} {cut : Nat} (hcut : 1 < cut)
    (h : parseLine (line.drop cut) = parseLine line) :
    parseLine line = none ∧ parseLine (line.drop cut) = none := by
  cases hline : parseLine line with
  | none => exact ⟨rfl, h.trans hline⟩
  | some r =>
      have hwhole := (length_of_parseLine hline).2
      have hdropped := (length_of_parseLine (h.trans hline)).1
      rw [List.length_drop] at hdropped
      omega

theorem parseLine_cut {seen line : Text} (hline : Harmless line)
    (h : Cut kMaxBufferBytes seen line) :
    parseLine seen = parseLine line ∧ (∀ r, parseLine seen = some r → seen = line) := by
  obtain ⟨k, hk, rfl | hlong, rfl⟩ := h
  · exact ⟨rfl, fun _ _ => rfl⟩
  · obtain ⟨hwhole, hdropped⟩ := hline k hlong hk
    refine ⟨hdropped.trans hwhole.symm, fun r hr => ?_⟩
    rw [hdropped] at hr
    cases hr

/-- Among harmless lines it makes no difference that some are cut. -/
theorem parseLine_cuts {seen lines : List Text}
    (hcut : List.Forall₂ (Cut kMaxBufferBytes) seen lines) (h : ∀ line ∈ lines, Harmless line) :
    seen.filterMap parseLine = lines.filterMap parseLine ∧
      ∀ {i : Nat} {s : Text} {r : SerialReading}, seen[i]? = some s → parseLine s = some r →
        lines[i]? = some s := by
  induction hcut with
  | nil =>
      refine ⟨rfl, ?_⟩
      intro i s r hs
      cases hs
  | cons hhead _ ih =>
      obtain ⟨hsame, hwhole⟩ := parseLine_cut (h _ List.mem_cons_self) hhead
      obtain ⟨hrest, hplace⟩ := ih fun line hline => h line (List.mem_cons_of_mem _ hline)
      refine ⟨?_, ?_⟩
      · rw [List.filterMap_cons, List.filterMap_cons, hsame, hrest]
      · intro i s r hs hr
        cases i with
        | zero =>
            cases hs
            rw [← hwhole r hr]
            rfl
        | succ i => exact hplace hs hr

theorem eq_of_filterMap_cons {α β : Type} {f : α → Option β} {a b : α} {l : List α}
    (h : (a :: l).filterMap f = (b :: l).filterMap f) : f a = f b := by
  cases ha : f a with
  | none =>
      cases hb : f b with
      | none => rfl
      | some y =>
          rw [List.filterMap_cons_none ha, List.filterMap_cons_some hb] at h
          exact absurd h.symm (List.cons_ne_self _ _)
  | some x =>
      cases hb : f b with
      | none =>
          rw [List.filterMap_cons_some ha, List.filterMap_cons_none hb] at h
          exact absurd h (List.cons_ne_self _ _)
      | some y =>
          rw [List.filterMap_cons_some ha, List.filterMap_cons_some hb] at h
          rw [(List.cons.inj h).1]

/-- A line that is not harmless is cut by some reads so that another reading is made. -/
theorem exists_reads {stream line : Text} (hline : line ∈ endedLines kFrameDelimiter stream)
    (h : ¬Harmless line) :
    ∃ reads : List Text, reads.flatten = stream ∧
      ({} : SerialFrameParser).consumeAll reads ≠
        (endedLines kFrameDelimiter stream).filterMap parseLine := by
  simp only [Harmless, not_forall] at h
  obtain ⟨cut, hlong, hle, hnot⟩ := h
  obtain ⟨ls, ls', hlines⟩ := List.append_of_mem hline
  obtain ⟨reads, hreads, hseen⟩ := readAll_cutIn hlines hlong hle
  have htwo : 1 < cut := Nat.lt_of_le_of_lt (by decide) hlong
  refine ⟨reads, hreads, fun heq => hnot (parseLine_drop_eq htwo ?_)⟩
  have hseen' : ({} : SerialFrameParser).linesOfAll reads = ls ++ line.drop cut :: ls' := by
    rw [SerialFrameParser.linesOfAll_eq, hseen]
  rw [SerialFrameParser.consumeAll_eq, hseen', hlines, List.filterMap_append,
    List.filterMap_append] at heq
  exact eq_of_filterMap_cons (List.append_cancel_left heq)

/-- However a stream is cut into reads, its readings are those of its lines, exactly when no line
of it that is longer than the limit gives a reading, whole or behind more than the limit. -/
theorem readsDoNotMatter_iff (stream : Text) :
    ReadsDoNotMatter stream ↔ ∀ line ∈ endedLines kFrameDelimiter stream, Harmless line := by
  constructor
  · intro h line hline
    by_contra hnot
    obtain ⟨reads, hreads, hne⟩ := exists_reads hline hnot
    exact hne (h.inOrder hreads)
  · intro h
    have horder : ∀ {reads : List Text}, reads.flatten = stream →
        ({} : SerialFrameParser).consumeAll reads =
          (endedLines kFrameDelimiter stream).filterMap parseLine := by
      intro reads hreads
      rw [SerialFrameParser.consumeAll_eq]
      exact (parseLine_cuts (SerialFrameParser.linesOfAll_cut hreads) h).1
    exact {
      same := fun hreads hreads' => (horder hreads).trans (horder hreads').symm
      inOrder := horder
      whole := fun hreads => (parseLine_cuts (SerialFrameParser.linesOfAll_cut hreads) h).2 }

/-- A line of 4100 bytes, read whole or in two parts. -/
theorem not_readsDoNotMatter_long_line :
    ¬ReadsDoNotMatter (List.replicate 4097 0x78 ++ [0x61, 0x2C, 0x31, 0x0A]) := by
  have hlines : endedLines kFrameDelimiter (List.replicate 4097 0x78 ++ [0x61, 0x2C, 0x31, 0x0A]) =
      [List.replicate 4097 0x78 ++ [0x61, 0x2C, 0x31]] := by
    have hfree : kFrameDelimiter ∉ List.replicate 4097 (0x78 : UInt8) ++ [0x61, 0x2C, 0x31] := by
      rw [List.mem_append, List.mem_replicate]
      decide
    have hsplit := List.splitOn_append_cons_self_of_not_mem hfree []
    rw [List.append_assoc] at hsplit
    rw [endedLines]
    exact congrArg List.dropLast hsplit
  have hnot : ¬Harmless (List.replicate 4097 0x78 ++ [0x61, 0x2C, 0x31]) := by
    intro h
    have hdrop := (h 4097 (by decide) (by rw [List.length_append, List.length_replicate]; decide)).2
    have hrest : (List.replicate 4097 (0x78 : UInt8) ++ [0x61, 0x2C, 0x31]).drop 4097 =
        [0x61, 0x2C, 0x31] := by
      rw [List.drop_append, List.drop_replicate, List.length_replicate]
      rfl
    rw [hrest] at hdrop
    exact absurd hdrop (by decide)
  intro h
  obtain ⟨reads, hreads, hne⟩ := exists_reads (hlines ▸ List.mem_singleton_self _) hnot
  exact hne (h.inOrder hreads)

end Serial
