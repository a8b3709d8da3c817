import IndustrialHmi.Integration.FlashStream

/-!
# Frames behind garbage

A start byte that starts no frame may claim any length, and the parser waits until it has so many
bytes.  No frame is longer than 268 bytes, so with as many from some place on it does not wait at
that place, nor before it.  Then something that the parser took lies over the place.

All that the parser drops or hands on as text is single bytes.  So what lies over the place either
begins there, and is the frame that was written there, or it is another frame
(`frames_survive_garbage`).
-/

namespace Flash

open Incremental

/-- The longest frame. -/
def kFlashMaxFrameBytes : Nat := kFlashHeaderBytes + kFlashMaxPayloadBytes + kFlashTrailerBytes

/-- A fresh parser emits the frame, and takes its bytes where they begin at `start`: what was
emitted before makes up the stream before them. -/
def EmittedAt (chunks : List Bytes) (g : FlashFrame) (start : Nat) : Prop :=
  let run := ({} : FlashFrameParser).consumeAll chunks
  ∃ (frames later : List FlashFrame) (text consumed gb rest : Bytes) (falseStarts : Nat),
    framesOf run.1 = frames ++ g :: later ∧ text <+: textOf run.1 ∧
      encodeFlashFrame g = .ok gb ∧ chunks.flatten = consumed ++ (gb ++ rest) ∧
      Interleaving frames text falseStarts consumed ∧ consumed.length = start

/-- With the bytes of the longest frame the parser does not wait. -/
theorem nextToken_ne_none {bytes : Bytes} (h : kFlashMaxFrameBytes ≤ bytes.length) :
    nextToken bytes ≠ none := by
  intro hwait
  rcases heldOk_of_wait hwait with rfl | ⟨-, hlt⟩
  · exact absurd h (by decide)
  · exact Nat.not_lt.mpr h hlt

/-- A token of the scan that is a frame is emitted where its bytes stand. -/
theorem emittedAt_of_scan {chunks : List Bytes} {ts ts' : List Token} {g : FlashFrame}
    {rest : Bytes} (hscan : (flashScanner.scan chunks.flatten).1 = ts ++ .frame g :: ts')
    (hstream : chunks.flatten = ts.flatMap Token.bytes ++ (frameBytes g ++ rest)) :
    EmittedAt chunks g (ts.flatMap Token.bytes).length := by
  obtain ⟨hframes, htext, -⟩ := consumeAll_eq (p := {}) rfl chunks
  rw [List.nil_append, hscan, outputOf, List.filterMap_append] at hframes htext
  have hfits : ∀ t ∈ ts ++ .frame g :: ts', t.Fits := by
    rw [← hscan]
    exact flashScanner.scan_forall nextToken_fits _
  have hg : encodeFlashFrame g = .ok (frameBytes g) :=
    encodeFlashFrame_eq_ok.mpr ⟨hfits _ (List.mem_append_right _ List.mem_cons_self) g rfl, rfl⟩
  refine ⟨_, _, _, _, _, rest, _, hframes, ?_, hg, hstream,
    interleaving_tokens ts fun t ht => hfits t (List.mem_append_left _ ht), rfl⟩
  rw [htext]
  exact ⟨_, List.filterMap_append.symm⟩

/-- A frame that occurs in a stream, with 268 bytes from its first on, is emitted; or its first
byte lies strictly inside another frame that is emitted.  Nothing else before it swallows it. -/
theorem frames_survive_garbage {f : FlashFrame} {fb : Bytes} (hf : encodeFlashFrame f = .ok fb)
    {chunks : List Bytes} {before after : Bytes}
    (hstream : chunks.flatten = before ++ (fb ++ after))
    (hlong : kFlashMaxFrameBytes ≤ (fb ++ after).length) :
    EmittedAt chunks f before.length ∨
      ∃ g gb start, EmittedAt chunks g start ∧ encodeFlashFrame g = .ok gb ∧
        start < before.length ∧ before.length < start + gb.length := by
  obtain ⟨hfits, rfl⟩ := encodeFlashFrame_eq_ok.mp hf
  have hnever : ∀ q ≤ before.length, nextToken (chunks.flatten.drop q) ≠ none := by
    intro q hq
    refine nextToken_ne_none ?_
    rw [hstream, List.length_drop, List.length_append]
    omega
  obtain ⟨ts, t, ts', rest, hscan, hsplit, hnext, hle, hlt⟩ :=
    flashScanner.scan_covers nextToken_renders hnever
  rcases Nat.lt_or_eq_of_le hle with hbefore | hhere
  · -- A token that begins earlier has more than one byte.
    have htwo : 1 < (Token.bytes t).length := by omega
    cases t with
    | text b => exact absurd htwo (Nat.lt_irrefl 1)
    | falseStart => exact absurd htwo (Nat.lt_irrefl 1)
    | frame g =>
        have hemitted := emittedAt_of_scan hscan hsplit
        obtain ⟨-, -, -, -, gb, -, -, -, -, hg, -, -, -⟩ := id hemitted
        obtain ⟨-, hgb⟩ := encodeFlashFrame_eq_ok.mp hg
        exact Or.inr ⟨g, gb, _, hemitted, hg, hbefore, hgb ▸ hlt⟩
  · -- A token that begins here is the frame.
    obtain ⟨hts, hrest⟩ := List.append_inj (hsplit.symm.trans hstream) hhere
    have hframe := nextToken_frameBytes hfits after
    rw [← hrest] at hframe
    obtain ⟨rfl, -⟩ := Prod.mk.inj (Option.some.inj (hnext.symm.trans hframe))
    rw [← hhere]
    exact Or.inl (emittedAt_of_scan hscan hsplit)

/-- Behind a start byte that claims a length of 260. -/
theorem frames_survive_claim :
    EmittedAt [[0xA5, 0x00, 0x00, 0x00, 0x04], [0x01],
        [0xA5, 0x01, 0x01, 0x00, 0x00, 0x00, 0xE9, 0xCD], List.replicate 260 0]
        { type := 0x01, seq := 1 } 6 ∨
      ∃ g gb start, EmittedAt [[0xA5, 0x00, 0x00, 0x00, 0x04], [0x01],
          [0xA5, 0x01, 0x01, 0x00, 0x00, 0x00, 0xE9, 0xCD], List.replicate 260 0] g start ∧
        encodeFlashFrame g = .ok gb ∧ start < 6 ∧ 6 < start + gb.length := by
  have hf : encodeFlashFrame { type := 0x01, seq := 1 } =
      .ok [0xA5, 0x01, 0x01, 0x00, 0x00, 0x00, 0xE9, 0xCD] := by decide +kernel
  have hstream : [[0xA5, 0x00, 0x00, 0x00, 0x04], [0x01],
      [0xA5, 0x01, 0x01, 0x00, 0x00, 0x00, 0xE9, 0xCD], List.replicate 260 0].flatten =
      [0xA5, 0x00, 0x00, 0x00, 0x04, 0x01] ++
        ([0xA5, 0x01, 0x01, 0x00, 0x00, 0x00, 0xE9, 0xCD] ++ List.replicate 260 (0 : UInt8)) := by
    simp only [List.flatten_cons, List.flatten_nil, List.append_nil, List.cons_append,
      List.nil_append]
  refine frames_survive_garbage hf hstream ?_
  rw [List.length_append, List.length_replicate]
  decide

end Flash
