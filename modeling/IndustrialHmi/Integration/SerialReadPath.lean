import Mathlib.Data.List.Induction
import IndustrialHmi.Integration.FlashStream
import IndustrialHmi.Integration.SerialFrameParser

/-!
# The read path of the serial backend

Frames and telemetry share the wire.  `routeChunk` gives every chunk that the port delivers to the
frame parser, and what that passes on to the parser of lines.  Both parsers start afresh with a
session, the count of false starts goes on.

What the sinks are called with in a session depends on the bytes of the session alone: neither on
where its reads end nor on what an earlier session left behind.
-/

namespace SerialLink

open Flash Incremental Serial

inductive SinkCall where
  | frame (f : FlashFrame)
  | reading (r : SerialReading)
  deriving DecidableEq

def SinkCall.frame? : SinkCall → Option FlashFrame
  | .frame f => some f
  | .reading _ => none

def SinkCall.reading? : SinkCall → Option SerialReading
  | .frame _ => none
  | .reading r => some r

/-- What was read between a start and the next one, and what the sinks were called with. -/
structure Session where
  chunks : List Bytes := []
  calls : List SinkCall := []

structure SerialBackend where
  running : Bool := false
  /-- A read is armed. -/
  reading : Bool := false
  flashParser : FlashFrameParser := {}
  parser : SerialFrameParser := {}
  /-- Rejected frame candidates, summed across restarts. -/
  falseStarts : Nat := 0
  /-- The sessions so far, the newest first. -/
  sessions : List Session := []

namespace SerialBackend

/-- The calls of the sinks for one chunk: the frames first, then the readings.  Without a frame
sink the frames are dropped. -/
def routeChunk (b : SerialBackend) (frameSink : Bool) (chunk : Bytes) :
    SerialBackend × List SinkCall :=
  let falseStartsBefore := b.flashParser.falseStarts
  let (split, flashParser) := b.flashParser.consume chunk
  let (readings, parser) := b.parser.consume split.text
  ({ b with
      flashParser := flashParser
      parser := parser
      falseStarts := b.falseStarts + (flashParser.falseStarts - falseStartsBefore) },
    (if frameSink then split.frames.map .frame else []) ++ readings.map .reading)

end SerialBackend

inductive Event where
  /-- A call of `start`, and whether the port can be opened. -/
  | start (opens : Bool)
  /-- The armed read completes. -/
  | read (chunk : Bytes)
  | readFails
  | stop

namespace SerialBackend

def step (frameSink : Bool) (b : SerialBackend) : Event → SerialBackend
  | .start opens =>
      if b.running then b
      else
        { b with
          flashParser := {}
          parser := {}
          running := opens
          reading := opens
          sessions := {} :: b.sessions }
  | .read chunk =>
      if b.reading then
        match b.sessions, b.routeChunk frameSink chunk with
        | [], (b, _) => b
        | session :: earlier, (b, calls) =>
            { b with
              sessions :=
                { chunks := session.chunks ++ [chunk], calls := session.calls ++ calls } ::
                  earlier }
      else b
  | .readFails => { b with reading := false }
  | .stop => if b.running then { b with running := false, reading := false } else b

def after (frameSink : Bool) (run : List Event) : SerialBackend :=
  run.foldl (step frameSink) {}

end SerialBackend

/-! ## What a stream says -/

def Session.stream (s : Session) : Bytes := s.chunks.flatten

def Session.frames (s : Session) : List FlashFrame := s.calls.filterMap SinkCall.frame?

def Session.readings (s : Session) : List SerialReading := s.calls.filterMap SinkCall.reading?

/-- The frames of a stream, and what is left of it as text. -/
def split (stream : Bytes) : FlashStreamOutput := outputOf (flashScanner.scan stream).1

/-- The frame candidates of a stream that are none. -/
def rejected (stream : Bytes) : Nat := (flashScanner.scan stream).1.count .falseStart

def lines (stream : Bytes) : List Text := endedLines kFrameDelimiter (split stream).text

structure SessionLaw (frameSink : Bool) (s : Session) : Prop where
  frames : s.frames = if frameSink then (split s.stream).frames else []
  /-- Every line is parsed once, whole or behind more than the limit. -/
  cut : ∃ seen, List.Forall₂ (Cut kMaxBufferBytes) seen (lines s.stream) ∧
    s.readings = seen.filterMap parseLine
  /-- The readings are those of the lines, if no overlong line can give one. -/
  readings : (∀ line ∈ lines s.stream, Harmless line) →
    s.readings = (lines s.stream).filterMap parseLine
  /-- What the other end wrote comes apart again, up to a frame that is still arriving. -/
  wire : ∀ (items : List Item) (f : FlashFrame) (k : Nat) (sent : Bytes),
    (∀ i ∈ items, i.Valid) → f.payload.length ≤ kFlashMaxPayloadBytes →
    k < (frameBytes f).length → (items.mapM Item.wire).map List.flatten = .ok sent →
    s.stream = sent ++ (frameBytes f).take k →
      split s.stream = ⟨itemFrames items, itemText items⟩ ∧ rejected s.stream = 0

structure LinkLaw (frameSink : Bool) (run : List Event) : Prop where
  sessions : ∀ s ∈ (SerialBackend.after frameSink run).sessions, SessionLaw frameSink s
  falseStarts : (SerialBackend.after frameSink run).falseStarts =
    ((SerialBackend.after frameSink run).sessions.map fun s => rejected s.stream).sum
  /-- Never more is held than one unfinished frame and one unfinished line. -/
  held : HeldOk (SerialBackend.after frameSink run).flashParser.buffer ∧
    (SerialBackend.after frameSink run).parser.buffer.length ≤ kMaxBufferBytes

/-! ## Streams on the wire -/

/-- A frame that is still arriving makes the parser wait. -/
theorem nextToken_take {f : FlashFrame} (hfits : f.payload.length ≤ kFlashMaxPayloadBytes)
    {k : Nat} (hk : k < (frameBytes f).length) : nextToken ((frameBytes f).take k) = none := by
  by_contra hsome
  obtain ⟨⟨t, n⟩, hnext⟩ := Option.ne_none_iff_exists'.mp hsome
  have hwhole := nextToken_stable ((frameBytes f).drop k) hnext
  have hframe := nextToken_frameBytes hfits []
  rw [List.take_append_drop] at hwhole
  rw [List.append_nil, hwhole] at hframe
  have hlength := nextToken_le_length hnext
  obtain ⟨-, rfl⟩ := Prod.mk.inj (Option.some.inj hframe)
  rw [List.length_take] at hlength
  omega

theorem scan_wire {items : List Item} (hvalid : ∀ i ∈ items, i.Valid) {f : FlashFrame}
    (hfits : f.payload.length ≤ kFlashMaxPayloadBytes) {k : Nat}
    (hk : k < (frameBytes f).length) {sent : Bytes}
    (hsent : (items.mapM Item.wire).map List.flatten = .ok sent) :
    (flashScanner.scan (sent ++ (frameBytes f).take k)).1 = items.flatMap Item.tokens := by
  obtain rfl : (items.flatMap Item.tokens).flatMap Token.bytes = sent := by
    have hwire := (mapM_wire_eq hvalid).symm.trans hsent
    cases hwire
    rfl
  have hread : ∀ t ∈ items.flatMap Item.tokens, flashScanner.ReadsBack Token.bytes t := by
    intro t ht
    obtain ⟨i, hi, hti⟩ := List.mem_flatMap.mp ht
    exact Item.tokens_readBack (hvalid i hi) t hti
  rw [flashScanner.scan_render _ hread, flashScanner.scan_of_none (nextToken_take hfits hk)]
  exact List.append_nil _

/-! ## One chunk -/

/-- The parsers and the calls of a session, in terms of the bytes read in it. -/
structure Follows (frameSink : Bool) (b : SerialBackend) (s : Session) : Prop where
  frames : s.frames = if frameSink then (split s.stream).frames else []
  flash : b.flashParser =
    { buffer := (flashScanner.scan s.stream).2, falseStarts := rejected s.stream }
  text : ∃ seen, List.Forall₂ (Cut kMaxBufferBytes) seen (lines s.stream) ∧
    Cut kMaxBufferBytes b.parser.buffer (unended kFrameDelimiter (split s.stream).text) ∧
    s.readings = seen.filterMap parseLine
  held : b.parser.buffer.length ≤ kMaxBufferBytes

theorem filterMap_calls (frameSink : Bool) (frames : List FlashFrame)
    (readings : List SerialReading) :
    ((if frameSink then frames.map SinkCall.frame else []) ++
        readings.map SinkCall.reading).filterMap SinkCall.frame? =
        (if frameSink then frames else []) ∧
      ((if frameSink then frames.map SinkCall.frame else []) ++
        readings.map SinkCall.reading).filterMap SinkCall.reading? = readings := by
  have hreadings : (readings.map SinkCall.reading).filterMap SinkCall.frame? = [] := by
    simp [List.filterMap_map, SinkCall.frame?, Function.comp_def]
  have hreadings' : (readings.map SinkCall.reading).filterMap SinkCall.reading? = readings := by
    simp [List.filterMap_map, SinkCall.reading?, Function.comp_def]
  have hframes : (frames.map SinkCall.frame).filterMap SinkCall.frame? = frames := by
    simp [List.filterMap_map, SinkCall.frame?, Function.comp_def]
  have hframes' : (frames.map SinkCall.frame).filterMap SinkCall.reading? = [] := by
    simp [List.filterMap_map, SinkCall.reading?, Function.comp_def]
  rw [List.filterMap_append, List.filterMap_append, hreadings, hreadings']
  cases frameSink with
  | true => exact ⟨by rw [if_pos rfl, hframes, List.append_nil, if_pos rfl],
      by rw [if_pos rfl, hframes', List.nil_append]⟩
  | false => exact ⟨rfl, rfl⟩

theorem split_append (xs ys : Bytes) : split (xs ++ ys) =
    { frames := (split xs).frames ++
        (outputOf (flashScanner.feed (flashScanner.scan xs).2 ys).1).frames
      text := (split xs).text ++
        (outputOf (flashScanner.feed (flashScanner.scan xs).2 ys).1).text } := by
  rw [split, flashScanner.scan_append]
  simp [outputOf, split, Scanner.feed]

theorem rejected_append (xs ys : Bytes) : rejected (xs ++ ys) =
    rejected xs + (flashScanner.feed (flashScanner.scan xs).2 ys).1.count .falseStart := by
  rw [rejected, flashScanner.scan_append, List.count_append]
  rfl

theorem length_guarded {α : Type} (limit : Nat) (held : List α) :
    (guarded limit held).length ≤ limit := by
  rw [guarded]
  split <;> simp_all

theorem notMem_unended (xs : Text) : kFrameDelimiter ∉ unended kFrameDelimiter xs := by
  have hrest := notMem_scan_rest (d := kFrameDelimiter) xs
  rwa [scan_lineScanner] at hrest

/-- The parser of lines sees a line for each that ends in what it is given. -/
theorem consume_cut {p : SerialFrameParser} {text : Text} (more : Text)
    (h : Cut kMaxBufferBytes p.buffer (unended kFrameDelimiter text)) :
    (∃ seen, endedLines kFrameDelimiter (text ++ more) = endedLines kFrameDelimiter text ++
        ((lineScanner kFrameDelimiter).scan (unended kFrameDelimiter text ++ more)).1 ∧
      List.Forall₂ (Cut kMaxBufferBytes) seen
        ((lineScanner kFrameDelimiter).scan (unended kFrameDelimiter text ++ more)).1 ∧
      (p.consume more).1 = seen.filterMap parseLine) ∧
    Cut kMaxBufferBytes (p.consume more).2.buffer (unended kFrameDelimiter (text ++ more)) ∧
    (p.consume more).2.buffer.length ≤ kMaxBufferBytes := by
  have hchunk := p.readChunk_eq more
  obtain ⟨hlines, hrest⟩ := readChunk_cut h (notMem_unended text) more
  have hscan := (lineScanner kFrameDelimiter).scan_append text more
  rw [scan_lineScanner, scan_lineScanner text] at hscan
  obtain ⟨hended, hunended⟩ := Prod.mk.inj hscan
  rw [hchunk] at hlines hrest
  refine ⟨⟨p.linesOf more, hended, hlines, rfl⟩, hunended ▸ hrest, ?_⟩
  have hheld : (p.consume more).2.buffer = guarded kMaxBufferBytes _ :=
    (congrArg Prod.snd hchunk).symm
  rw [hheld]
  exact length_guarded _ _

namespace Follows

variable {frameSink : Bool} {b : SerialBackend} {s : Session}

/-- A session that has just begun. -/
theorem start (frameSink : Bool) (b : SerialBackend) :
    Follows frameSink { b with flashParser := {}, parser := {} } {} where
  frames := by
    have hnil : split [] = {} := by rw [split, flashScanner.scan_of_none rfl]; rfl
    change [] = if frameSink then (split []).frames else []
    rw [hnil]
    cases frameSink <;> rfl
  flash := by
    change ({} : FlashFrameParser) =
      { buffer := (flashScanner.scan []).2, falseStarts := rejected [] }
    rw [rejected, flashScanner.scan_of_none rfl]
    rfl
  text := by
    have hnil : split [] = {} := by rw [split, flashScanner.scan_of_none rfl]; rfl
    refine ⟨[], ?_, ?_, rfl⟩
    · change List.Forall₂ _ [] (endedLines kFrameDelimiter (split []).text)
      rw [hnil]
      exact .nil
    · change Cut _ [] (unended kFrameDelimiter (split []).text)
      rw [hnil]
      exact Cut.refl _ _
  held := Nat.zero_le _

/-- What a chunk brings about. -/
theorem read (h : Follows frameSink b s) (chunk : Bytes) :
    Follows frameSink (b.routeChunk frameSink chunk).1
        { chunks := s.chunks ++ [chunk], calls := s.calls ++ (b.routeChunk frameSink chunk).2 } ∧
      (b.routeChunk frameSink chunk).1.falseStarts + rejected s.stream =
        b.falseStarts + rejected (s.stream ++ chunk) := by
  obtain ⟨seen, hseen, hheld, hreadings⟩ := h.text
  have hstream : ∀ calls, Session.stream { chunks := s.chunks ++ [chunk], calls := calls } =
      s.stream ++ chunk := by simp [Session.stream]
  have hsplit := split_append s.stream chunk
  have hrejected := rejected_append s.stream chunk
  have hconsume : b.flashParser.consume chunk = _ := consume_outputOf b.flashParser chunk
  rw [h.flash] at hconsume
  dsimp only at hconsume
  have hheldBytes : (flashScanner.scan (s.stream ++ chunk)).2 =
      (flashScanner.feed (flashScanner.scan s.stream).2 chunk).2 := by
    rw [flashScanner.scan_append]
    rfl
  generalize flashScanner.feed (flashScanner.scan s.stream).2 chunk = fed at *
  obtain ⟨⟨more, hended, hmore, hconsumed⟩, hrest, hlength⟩ :=
    consume_cut (outputOf fed.1).text hheld
  have hroute : b.routeChunk frameSink chunk =
      ({ b with
          flashParser :=
            { buffer := fed.2, falseStarts := rejected s.stream + fed.1.count .falseStart }
          parser := (b.parser.consume (outputOf fed.1).text).2
          falseStarts :=
            b.falseStarts + (rejected s.stream + fed.1.count .falseStart - rejected s.stream) },
        (if frameSink then (outputOf fed.1).frames.map .frame else []) ++
          (b.parser.consume (outputOf fed.1).text).1.map .reading) := by
    rw [SerialBackend.routeChunk, h.flash, hconsume]
  obtain ⟨hframes, hparsed⟩ := filterMap_calls frameSink (outputOf fed.1).frames
    (b.parser.consume (outputOf fed.1).text).1
  rw [hroute]
  refine ⟨⟨?_, ?_, ⟨seen ++ more, ?_, ?_, ?_⟩, hlength⟩, ?_⟩
  · rw [hstream, hsplit, Session.frames, List.filterMap_append, hframes]
    refine (congrArg (· ++ _) h.frames).trans ?_
    cases frameSink <;> rfl
  · rw [hstream, hrejected, hheldBytes]
  · rw [hstream, lines, hsplit, hended]
    exact List.rel_append hseen hmore
  · rw [hstream, hsplit]
    exact hrest
  · rw [Session.readings, List.filterMap_append, hparsed, hconsumed, List.filterMap_append]
    exact congrArg (· ++ _) hreadings
  · rw [hrejected]
    dsimp only
    omega

theorem sessionLaw (h : Follows frameSink b s) : SessionLaw frameSink s where
  frames := h.frames
  cut := by
    obtain ⟨seen, hseen, -, hreadings⟩ := h.text
    exact ⟨seen, hseen, hreadings⟩
  readings := by
    obtain ⟨seen, hseen, -, hreadings⟩ := h.text
    intro hharmless
    rw [hreadings]
    exact (parseLine_cuts hseen hharmless).1
  wire := by
    intro items f k sent hvalid hfits hk hsent hstream
    obtain ⟨hout, hcount⟩ := outputOf_items items
    rw [split, rejected, hstream, scan_wire hvalid hfits hk hsent]
    exact ⟨hout, hcount⟩

theorem heldOk (h : Follows frameSink b s) : HeldOk b.flashParser.buffer := by
  rw [h.flash]
  exact heldOk_of_wait (flashScanner.next_scan_rest _)

end Follows

/-! ## Runs -/

/-- What every step keeps: the newest session is what the parsers have read. -/
structure Inv (frameSink : Bool) (b : SerialBackend) : Prop where
  idle : b.sessions = [] → b = {}
  current : ∀ s earlier, b.sessions = s :: earlier →
    Follows frameSink b s ∧ ∀ s' ∈ earlier, SessionLaw frameSink s'
  falseStarts : b.falseStarts = (b.sessions.map fun s => rejected s.stream).sum

theorem Inv.sessions {frameSink : Bool} {b : SerialBackend} (h : Inv frameSink b) :
    ∀ s ∈ b.sessions, SessionLaw frameSink s := by
  intro s hs
  cases hsessions : b.sessions with
  | nil => simp [hsessions] at hs
  | cons newest earlier =>
      obtain ⟨hnewest, hearlier⟩ := h.current newest earlier hsessions
      rw [hsessions] at hs
      rcases List.mem_cons.mp hs with rfl | hs
      · exact hnewest.sessionLaw
      · exact hearlier s hs

/-- A step that leaves parsers, count and sessions alone. -/
theorem Inv.of_flags {frameSink : Bool} {b : SerialBackend} (h : Inv frameSink b)
    (hsessions : b.sessions ≠ []) (running reading : Bool) :
    Inv frameSink { b with running := running, reading := reading } where
  idle := fun hnone => absurd hnone hsessions
  current := fun s earlier hs => by
    obtain ⟨hnewest, hearlier⟩ := h.current s earlier hs
    exact ⟨⟨hnewest.frames, hnewest.flash, hnewest.text, hnewest.held⟩, hearlier⟩
  falseStarts := h.falseStarts

theorem Inv.step {frameSink : Bool} {b : SerialBackend} (h : Inv frameSink b) (e : Event) :
    Inv frameSink (b.step frameSink e) := by
  cases e with
  | start opens =>
      rw [SerialBackend.step]
      split
      next => exact h
      next =>
        refine ⟨fun hnone => absurd hnone (List.cons_ne_nil _ _), fun s earlier hs => ?_, ?_⟩
        · obtain ⟨rfl, rfl⟩ := List.cons.inj hs
          obtain ⟨hframes, hflash, htext, hheld⟩ := Follows.start frameSink b
          exact ⟨⟨hframes, hflash, htext, hheld⟩, h.sessions⟩
        · have hnone : rejected (Session.stream {}) = 0 := by
            change rejected [] = 0
            rw [rejected, flashScanner.scan_of_none rfl]
            rfl
          rw [List.map_cons, List.sum_cons, hnone, Nat.zero_add]
          exact h.falseStarts
  | read chunk =>
      rw [SerialBackend.step]
      split
      next hreading =>
        cases hsessions : b.sessions with
        | nil =>
            rw [h.idle hsessions] at hreading
            cases hreading
        | cons session earlier =>
            obtain ⟨hnewest, hearlier⟩ := h.current session earlier hsessions
            obtain ⟨hfollows, hcount⟩ := hnewest.read chunk
            refine ⟨fun hnone => absurd hnone (List.cons_ne_nil _ _), fun s rest hs => ?_, ?_⟩
            · obtain ⟨rfl, rfl⟩ := List.cons.inj hs
              exact ⟨⟨hfollows.frames, hfollows.flash, hfollows.text, hfollows.held⟩, hearlier⟩
            · have htotal := h.falseStarts
              rw [hsessions, List.map_cons, List.sum_cons] at htotal
              have hstream : Session.stream { chunks := session.chunks ++ [chunk], calls :=
                  session.calls ++ (b.routeChunk frameSink chunk).2 } =
                    session.stream ++ chunk := by simp [Session.stream]
              rw [List.map_cons, List.sum_cons, hstream]
              dsimp only
              omega
      next => exact h
  | readFails =>
      cases hsessions : b.sessions with
      | nil =>
          obtain rfl := h.idle hsessions
          exact h
      | cons session earlier => exact h.of_flags (by simp [hsessions]) _ _
  | stop =>
      rw [SerialBackend.step]
      split
      next hrunning =>
        refine h.of_flags (fun hnone => ?_) _ _
        rw [h.idle hnone] at hrunning
        cases hrunning
      next => exact h

theorem inv_after (frameSink : Bool) (run : List Event) :
    Inv frameSink (SerialBackend.after frameSink run) := by
  induction run using List.reverseRecOn with
  | nil => exact ⟨fun _ => rfl, fun s earlier hs => absurd hs (by simp [SerialBackend.after]), rfl⟩
  | append_singleton run e ih =>
      rw [SerialBackend.after, List.foldl_append]
      exact ih.step e

/-- Every run obeys the law. -/
theorem link_law (frameSink : Bool) (run : List Event) : LinkLaw frameSink run where
  sessions := (inv_after frameSink run).sessions
  falseStarts := (inv_after frameSink run).falseStarts
  held := by
    have hinv := inv_after frameSink run
    cases hsessions : (SerialBackend.after frameSink run).sessions with
    | nil =>
        rw [hinv.idle hsessions]
        exact ⟨.inl rfl, Nat.zero_le _⟩
    | cons session earlier =>
        obtain ⟨hnewest, -⟩ := hinv.current session earlier hsessions
        exact ⟨hnewest.heldOk, hnewest.held⟩

end SerialLink
