import IndustrialHmi.Integration.FlashFrameParser

/-!
# Streams of frames and text

`consumeAll` is a run of `consume` calls on one parser.  Its output is the token
list of one scan (`consumeAll_eq`), which gives the two results of this module.

*Chunks do not matter.*  However a stream is cut into calls, the frames, the
text, the false starts and the held bytes are those of a single call, and the
stream is an interleaving of exactly what came out and what is held
(`consumeAll_conserves`).

*Round trip.*  A stream that mixes encoded frames and text without `0xA5` comes
apart again into those frames and that text (`consumeAll_wire`).
-/

namespace Flash

open Incremental

/-- Calls of `consume`, one for each chunk: their outputs, and the parser after them. -/
def FlashFrameParser.consumeAll (p : FlashFrameParser) :
    List Bytes → List FlashStreamOutput × FlashFrameParser
  | [] => ([], p)
  | c :: cs =>
      let (out, p') := p.consume c
      let (outs, p'') := p'.consumeAll cs
      (out :: outs, p'')

/-- All frames of a run, in order. -/
def framesOf (outs : List FlashStreamOutput) : List FlashFrame := outs.flatMap (·.frames)

/-- All text of a run, in order. -/
def textOf (outs : List FlashStreamOutput) : Bytes := outs.flatMap (·.text)

/-! ## What tokens amount to -/

/-- The frame of a token. -/
def Token.frame? : Token → Option FlashFrame
  | .frame f => some f
  | _ => none

/-- The text byte of a token. -/
def Token.text? : Token → Option UInt8
  | .text b => some b
  | _ => none

/-- The output for a run of tokens. -/
def outputOf (ts : List Token) : FlashStreamOutput :=
  { frames := ts.filterMap Token.frame?, text := ts.filterMap Token.text? }

@[simp] theorem outputOf_nil : outputOf [] = {} := rfl

@[simp] theorem outputOf_text (b : UInt8) (ts : List Token) :
    outputOf (.text b :: ts) = { outputOf ts with text := b :: (outputOf ts).text } := rfl

@[simp] theorem outputOf_frame (f : FlashFrame) (ts : List Token) :
    outputOf (.frame f :: ts) = { outputOf ts with frames := f :: (outputOf ts).frames } := rfl

@[simp] theorem outputOf_falseStart (ts : List Token) :
    outputOf (.falseStart :: ts) = outputOf ts := rfl

theorem foldl_absorb (ts : List Token) : ∀ acc : FlashStreamOutput × Nat,
    ts.foldl absorb acc =
      ({ frames := acc.1.frames ++ (outputOf ts).frames, text := acc.1.text ++ (outputOf ts).text },
        acc.2 + ts.count .falseStart) := by
  induction ts with
  | nil => intro acc; simp
  | cons t ts ih =>
      intro acc
      rw [List.foldl_cons, ih]
      cases t with
      | text b => simp [absorb]
      | frame f => simp [absorb]
      | falseStart => simp [absorb, Nat.add_assoc, Nat.add_comm 1]

/-- One call, in terms of its tokens. -/
theorem consume_outputOf (p : FlashFrameParser) (bytes : Bytes) :
    p.consume bytes =
      let r := flashScanner.feed p.buffer bytes
      (outputOf r.1, { buffer := r.2, falseStarts := p.falseStarts + r.1.count .falseStart }) := by
  simp only [consume_eq, foldl_absorb]
  rfl

/-- A run of calls, in terms of its tokens. -/
theorem consumeAll_feedAll (chunks : List Bytes) : ∀ p : FlashFrameParser,
    let r := flashScanner.feedAll p.buffer chunks
    framesOf (p.consumeAll chunks).1 = (outputOf r.1).frames ∧
      textOf (p.consumeAll chunks).1 = (outputOf r.1).text ∧
      (p.consumeAll chunks).2 =
        { buffer := r.2, falseStarts := p.falseStarts + r.1.count .falseStart } := by
  induction chunks with
  | nil => intro p; exact ⟨rfl, rfl, rfl⟩
  | cons c cs ih =>
      intro p
      have hcall := consume_outputOf p c
      obtain ⟨hframes, htext, hparser⟩ := ih (p.consume c).2
      simp only [hcall] at hframes htext hparser
      simp only [FlashFrameParser.consumeAll, hcall, framesOf, textOf, List.flatMap_cons,
        Scanner.feedAll]
      simp only [framesOf, textOf] at hframes htext
      refine ⟨?_, ?_, ?_⟩
      · rw [hframes]
        exact List.filterMap_append.symm
      · rw [htext]
        exact List.filterMap_append.symm
      · rw [hparser, List.count_append, Nat.add_assoc]

/-! ## Held bytes -/

/-- What may be held between calls: nothing, or the start of a frame that is not
whole yet. -/
def HeldOk (held : Bytes) : Prop :=
  held = [] ∨ (held.head? = some kFlashStartByte ∧
    held.length < kFlashHeaderBytes + kFlashMaxPayloadBytes + kFlashTrailerBytes)

theorem heldOk_of_wait {held : Bytes} (h : nextToken held = none) : HeldOk held := by
  cases turn_of_nextToken h with
  | done => exact Or.inl rfl
  | shortHeader hheader => exact Or.inr ⟨rfl, by omega⟩
  | shortBody _ _ hmax hbody => exact Or.inr ⟨rfl, by omega⟩

/-- The parser waits on what it holds after any calls on a fresh one. -/
theorem nextToken_buffer_fresh (chunks : List Bytes) :
    nextToken (({} : FlashFrameParser).consumeAll chunks).2.buffer = none := by
  obtain ⟨-, -, hparser⟩ := consumeAll_feedAll chunks {}
  rw [hparser, flashScanner.feedAll_eq_scan chunks [] rfl]
  exact flashScanner.next_scan_rest _

/-! ## Chunks do not matter -/

/-- `Interleaving frames text n bs`: the bytes `bs` are the encodings of `frames`,
the bytes of `text` and `n` start bytes, each in order, mixed in some way. -/
inductive Interleaving : List FlashFrame → Bytes → Nat → Bytes → Prop where
  | nil : Interleaving [] [] 0 []
  | text : Interleaving fs ts n bs → Interleaving fs (b :: ts) n (b :: bs)
  | frame : encodeFlashFrame f = .ok fb → Interleaving fs ts n bs →
      Interleaving (f :: fs) ts n (fb ++ bs)
  | falseStart : Interleaving fs ts n bs →
      Interleaving fs ts (n + 1) (kFlashStartByte :: bs)

/-- A token that carries a frame carries one that can be encoded. -/
def Token.Fits (t : Token) : Prop :=
  ∀ f, t = .frame f → f.payload.length ≤ kFlashMaxPayloadBytes

theorem nextToken_fits {xs : Bytes} {t : Token} {n : Nat} (h : flashScanner.next xs = some (t, n)) :
    t.Fits := by
  intro f hf
  subst hf
  cases turn_of_nextToken h with
  | frame _ hmax =>
      refine Nat.le_trans ?_ hmax
      exact List.length_take_le _ _

theorem interleaving_tokens (ts : List Token) (hfits : ∀ t ∈ ts, t.Fits) :
    Interleaving (outputOf ts).frames (outputOf ts).text (ts.count .falseStart)
      (ts.flatMap Token.bytes) := by
  induction ts with
  | nil => exact .nil
  | cons t ts ih =>
      have ih := ih fun u hu => hfits u (List.mem_cons_of_mem _ hu)
      cases t with
      | text b => simpa [Token.bytes] using ih.text
      | frame f =>
          have hf := hfits _ List.mem_cons_self f rfl
          have henc : encodeFlashFrame f = .ok (frameBytes f) :=
            encodeFlashFrame_eq_ok.mpr ⟨hf, rfl⟩
          simpa [Token.bytes] using ih.frame henc
      | falseStart =>
          simpa [Token.bytes] using ih.falseStart

/-- A run of calls on a parser that waits is one scan of the whole stream. -/
theorem consumeAll_eq {p : FlashFrameParser} (hp : nextToken p.buffer = none)
    (chunks : List Bytes) :
    let r := flashScanner.scan (p.buffer ++ chunks.flatten)
    framesOf (p.consumeAll chunks).1 = (outputOf r.1).frames ∧
      textOf (p.consumeAll chunks).1 = (outputOf r.1).text ∧
      (p.consumeAll chunks).2 =
        { buffer := r.2, falseStarts := p.falseStarts + r.1.count .falseStart } := by
  have h := consumeAll_feedAll chunks p
  rw [flashScanner.feedAll_eq_scan chunks p.buffer hp] at h
  exact h

theorem heldOk_consumeAll {p : FlashFrameParser} (hp : nextToken p.buffer = none)
    (chunks : List Bytes) : HeldOk (p.consumeAll chunks).2.buffer := by
  obtain ⟨-, -, hparser⟩ := consumeAll_eq hp chunks
  rw [hparser]
  exact heldOk_of_wait (flashScanner.next_scan_rest _)

/-- From any parser state that calls on a fresh one reach, a stream cut into any
chunks gives what one call gives.  What came out interleaves to the stream,
except for the held bytes, which are the start of one unfinished frame. -/
theorem consumeAll_conserves (before chunks : List Bytes) :
    let p := (({} : FlashFrameParser).consumeAll before).2
    let many := p.consumeAll chunks
    let once := p.consume chunks.flatten
    (framesOf many.1 = once.1.frames ∧ textOf many.1 = once.1.text ∧ many.2 = once.2) ∧
      (∃ n consumed, many.2.falseStarts = p.falseStarts + n ∧
        Interleaving (framesOf many.1) (textOf many.1) n consumed ∧
        p.buffer ++ chunks.flatten = consumed ++ many.2.buffer) ∧
      ∀ calls, calls <+: chunks → HeldOk (p.consumeAll calls).2.buffer := by
  intro p many once
  have hp : nextToken p.buffer = none := nextToken_buffer_fresh before
  obtain ⟨hframes, htext, hparser⟩ := consumeAll_eq hp chunks
  refine ⟨?_, ?_, fun calls _ => heldOk_consumeAll hp calls⟩
  · have honce : once = _ := consume_outputOf p chunks.flatten
    rw [honce]
    exact ⟨hframes, htext, hparser⟩
  · refine ⟨_, (flashScanner.scan (p.buffer ++ chunks.flatten)).1.flatMap Token.bytes,
      congrArg FlashFrameParser.falseStarts hparser, ?_, ?_⟩
    · change Interleaving (framesOf (p.consumeAll chunks).1) (textOf (p.consumeAll chunks).1) _ _
      rw [hframes, htext]
      exact interleaving_tokens _ (flashScanner.scan_forall nextToken_fits _)
    · change _ = _ ++ (p.consumeAll chunks).2.buffer
      rw [hparser]
      exact (flashScanner.scan_conserves nextToken_renders _).symm

/-! ## Round trip -/

/-- One item of a multiplexed stream. -/
inductive Item where
  /-- A frame. -/
  | frame (f : FlashFrame)
  /-- A run of telemetry text. -/
  | text (run : Bytes)

/-- The bytes of an item on the wire. -/
def Item.wire : Item → Except String Bytes
  | .frame f => encodeFlashFrame f
  | .text run => .ok run

/-- A frame within the payload maximum, or text without a start byte. -/
def Item.Valid : Item → Prop
  | .frame f => f.payload.length ≤ kFlashMaxPayloadBytes
  | .text run => kFlashStartByte ∉ run

/-- The tokens an item is read back as. -/
def Item.tokens : Item → List Token
  | .frame f => [.frame f]
  | .text run => run.map .text

/-- The frames of a stream, in order. -/
def itemFrames (items : List Item) : List FlashFrame :=
  items.flatMap fun
    | .frame f => [f]
    | .text _ => []

/-- The text of a stream, in order. -/
def itemText (items : List Item) : Bytes :=
  items.flatMap fun
    | .frame _ => []
    | .text run => run

theorem Item.wire_eq {i : Item} (h : i.Valid) : i.wire = .ok (i.tokens.flatMap Token.bytes) := by
  cases i with
  | frame f =>
      have henc : encodeFlashFrame f = .ok (frameBytes f) := encodeFlashFrame_eq_ok.mpr ⟨h, rfl⟩
      simpa [Item.wire, Item.tokens, Token.bytes] using henc
  | text run =>
      have hrun : (run.map Token.text).flatMap Token.bytes = run := by
        rw [List.flatMap_map]
        exact List.flatMap_singleton' run
      simp [Item.wire, Item.tokens, hrun]

theorem Item.tokens_readBack {i : Item} (h : i.Valid) :
    ∀ t ∈ i.tokens, flashScanner.ReadsBack Token.bytes t := by
  intro t ht
  cases i with
  | frame f =>
      obtain rfl := List.mem_singleton.mp ht
      exact fun zs => nextToken_frameBytes h zs
  | text run =>
      obtain ⟨b, hb, rfl⟩ := List.mem_map.mp ht
      refine readsBack_text ?_
      rintro rfl
      exact h hb

theorem mapM_wire_eq {items : List Item} (h : ∀ i ∈ items, i.Valid) :
    (items.mapM Item.wire).map List.flatten =
      .ok ((items.flatMap Item.tokens).flatMap Token.bytes) := by
  have hmap : items.mapM Item.wire = .ok (items.map fun i => i.tokens.flatMap Token.bytes) := by
    induction items with
    | nil => rfl
    | cons i items ih =>
        have hi := Item.wire_eq (h i List.mem_cons_self)
        have ih := ih fun j hj => h j (List.mem_cons_of_mem _ hj)
        rw [List.mapM_cons, hi, ih]
        rfl
  rw [hmap, List.flatMap_assoc]
  rfl

theorem outputOf_items (items : List Item) :
    outputOf (items.flatMap Item.tokens) =
        { frames := itemFrames items, text := itemText items } ∧
      (items.flatMap Item.tokens).count .falseStart = 0 := by
  induction items with
  | nil => exact ⟨rfl, rfl⟩
  | cons i items ih =>
      obtain ⟨hout, hcount⟩ := ih
      cases i with
      | frame f =>
          simp [Item.tokens, itemFrames, itemText, hout, hcount]
      | text run =>
          have hrun : ∀ ts, outputOf (run.map Token.text ++ ts) =
              { outputOf ts with text := run ++ (outputOf ts).text } := by
            intro ts
            induction run with
            | nil => rfl
            | cons b run ih => rw [List.map_cons, List.cons_append, outputOf_text, ih]; rfl
          have hnone : (run.map Token.text).count .falseStart = 0 := by
            rw [List.count_eq_zero]
            simp
          simp [Item.tokens, itemFrames, itemText, hrun, hout, hcount, hnone]

/-- Frames and text that share the wire come apart again, whatever the chunks:
a fresh parser returns exactly the frames, exactly the text, no false start and
holds nothing. -/
theorem consumeAll_wire (items : List Item) (hvalid : ∀ i ∈ items, i.Valid) :
    ∃ stream, (items.mapM Item.wire).map List.flatten = .ok stream ∧
      ∀ chunks : List Bytes, chunks.flatten = stream →
        framesOf (({} : FlashFrameParser).consumeAll chunks).1 = itemFrames items ∧
          textOf (({} : FlashFrameParser).consumeAll chunks).1 = itemText items ∧
          (({} : FlashFrameParser).consumeAll chunks).2 = {} := by
  refine ⟨_, mapM_wire_eq hvalid, fun chunks hchunks => ?_⟩
  have hread : ∀ t ∈ items.flatMap Item.tokens, flashScanner.ReadsBack Token.bytes t := by
    intro t ht
    obtain ⟨i, hi, hti⟩ := List.mem_flatMap.mp ht
    exact Item.tokens_readBack (hvalid i hi) t hti
  have hscan := flashScanner.scan_render _ hread []
  have hend : flashScanner.scan [] = ([], []) := flashScanner.scan_of_none rfl
  rw [hend] at hscan
  simp only [List.append_nil] at hscan
  obtain ⟨hout, hcount⟩ := outputOf_items items
  have hrun := consumeAll_eq (p := {}) rfl chunks
  rw [List.nil_append, hchunks, hscan] at hrun
  obtain ⟨hframes, htext, hparser⟩ := hrun
  refine ⟨?_, ?_, ?_⟩
  · rw [hframes, hout]
  · rw [htext, hout]
  · rw [hparser, hcount]

/-- A payload full of start bytes between two runs of text, cut inside the frame. -/
theorem consumeAll_wire_start_bytes :
    ∃ stream, ([Item.text [0x74, 0x2C], .frame ⟨0x03, 7, List.replicate 12 0xA5⟩,
        .text [0x31, 0x0A]].mapM Item.wire).map List.flatten = .ok stream ∧
      ∀ chunks : List Bytes, chunks.flatten = stream →
        framesOf (({} : FlashFrameParser).consumeAll chunks).1 =
            [⟨0x03, 7, List.replicate 12 0xA5⟩] ∧
          textOf (({} : FlashFrameParser).consumeAll chunks).1 = [0x74, 0x2C, 0x31, 0x0A] ∧
          (({} : FlashFrameParser).consumeAll chunks).2 = {} :=
  consumeAll_wire [.text [0x74, 0x2C], .frame ⟨0x03, 7, List.replicate 12 0xA5⟩,
    .text [0x31, 0x0A]] (by
      intro i hi
      simp only [List.mem_cons, List.not_mem_nil, or_false] at hi
      rcases hi with rfl | rfl | rfl
      · change kFlashStartByte ∉ _; decide
      · change _ ≤ kFlashMaxPayloadBytes; decide
      · change kFlashStartByte ∉ _; decide)

/-! ## Decoding one output -/

/-- The frames that a fresh parser reads from some bytes. -/
def decoded (bytes : Bytes) : List FlashFrame := (({} : FlashFrameParser).consume bytes).1.frames

theorem decoded_eq (bytes : Bytes) :
    decoded bytes = (outputOf (flashScanner.scan bytes).1).frames := by
  rw [decoded, consume_outputOf]
  rfl

theorem decoded_nil : decoded [] = [] := by
  have hend : flashScanner.scan [] = ([], []) := flashScanner.scan_of_none rfl
  rw [decoded_eq, hend]
  rfl

/-- The bytes of a frame decode to that frame and nothing else. -/
theorem WireFrame.decoded_bytes (w : WireFrame) : decoded w.bytes = [w.frame] := by
  have hread : ∀ t ∈ [Token.frame w.frame], flashScanner.ReadsBack Token.bytes t := by
    intro t ht
    obtain rfl := List.mem_singleton.mp ht
    exact fun zs => nextToken_frameBytes w.fits zs
  have hscan := flashScanner.scan_render _ hread []
  have hend : flashScanner.scan [] = ([], []) := flashScanner.scan_of_none rfl
  rw [hend, List.flatMap_singleton, List.append_nil, List.append_nil] at hscan
  change flashScanner.scan w.bytes = _ at hscan
  rw [decoded_eq, hscan]
  rfl

/-- Different frames have different bytes. -/
theorem WireFrame.bytes_injective {v w : WireFrame} (h : v.bytes = w.bytes) :
    v.frame = w.frame := by
  have hdecoded := congrArg decoded h
  rw [v.decoded_bytes, w.decoded_bytes] at hdecoded
  exact List.head_eq_of_cons_eq hdecoded

end Flash
