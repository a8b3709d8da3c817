import Mathlib.Data.List.Nodup
import IndustrialHmi.Integration.OtaRuns

/-!
# The image on the wire

The `DATA` frames of a run, with repeats left out, carry the image in chunks of
256 bytes: `Carries` says that their offsets are 0, 256, 512 and so on, that each
holds its chunk and the padding, and that the chunks make a first part of the
image.  `image_integrity` says this of every run, and that a `COMMIT` is sent only
when the chunks make the whole image and `BEGIN` and every `DATA` frame have been
acknowledged.
-/

namespace Ota

open LittleEndian Flash

/-! ## Repeats -/

section

variable {α β : Type} (n : α → Nat) (f : α → β)

theorem filter_repeats (p : β → Bool) (l : List α) :
    (l.flatMap fun a => List.replicate (n a + 1) (f a)).filter p =
      (l.filter (p ∘ f)).flatMap fun a => List.replicate (n a + 1) (f a) := by
  induction l with
  | nil => rfl
  | cons a l ih =>
      rw [List.flatMap_cons, List.filter_append, ih, List.filter_replicate, List.filter_cons]
      cases h : p (f a) with
      | true => simp [h]
      | false => simp [h]

/-- Leaving out repeats gives every item once. -/
theorem eraseDups_repeats [BEq β] [LawfulBEq β] {l : List α} (h : (l.map f).Nodup) :
    (l.flatMap fun a => List.replicate (n a + 1) (f a)).eraseDups = l.map f := by
  induction l with
  | nil => rfl
  | cons a l ih =>
      obtain ⟨hnot, hrest⟩ := List.nodup_cons.mp h
      have hkeep : (l.flatMap fun b => List.replicate (n b + 1) (f b)).filter (fun b => !b == f a) =
          l.flatMap fun b => List.replicate (n b + 1) (f b) := by
        refine List.filter_eq_self.mpr fun b hb => ?_
        obtain ⟨c, hc, hmem⟩ := List.mem_flatMap.mp hb
        have hne : b ≠ f a := by
          rintro rfl
          exact hnot ((List.mem_replicate.mp hmem).2 ▸ List.mem_map_of_mem hc)
        simpa using hne
      have hdrop : (List.replicate (n a) (f a)).filter (fun b => !b == f a) = [] := by
        rw [List.filter_replicate]
        simp
      rw [List.flatMap_cons, List.replicate_succ, List.cons_append, List.eraseDups_cons,
        List.filter_append, hdrop, hkeep, List.nil_append, ih hrest, List.map_cons]

end

/-! ## Chunks -/

/-- The image bytes of the `k`-th `DATA` frame. -/
def chunkAt (image : Bytes) (k : Nat) : Bytes :=
  (image.drop (kDataChunkBytes * k)).take kDataChunkBytes

/-- A chunk with its padding. -/
def padded (chunk : Bytes) : Bytes :=
  chunk ++ List.replicate (paddingBytes chunk.length) kErasedByte

/-- The first chunks make a first part of the image. -/
theorem flatten_chunks (image : Bytes) (k : Nat) :
    ((List.range k).map (chunkAt image)).flatten = image.take (kDataChunkBytes * k) := by
  induction k with
  | zero => rfl
  | succ k ih =>
      rw [List.range_succ, List.map_append, List.flatten_append, ih, List.map_singleton,
        List.flatten_singleton, chunkAt, Nat.mul_succ, List.take_add]

theorem lt_of_lt_chunkCount {image : Bytes} {k : Nat} (h : k < chunkCount image) :
    kDataChunkBytes * k < image.length := by
  simp only [chunkCount, kDataChunkBytes] at *
  omega

theorem length_le_chunkCount (image : Bytes) :
    image.length ≤ kDataChunkBytes * chunkCount image := by
  simp only [chunkCount, kDataChunkBytes]
  omega

theorem dataReq_payload (image : Bytes) (k : Nat) :
    (dataReq image k).payload.1 =
      leBytes 4 (UInt32.ofNat (kDataChunkBytes * k)).toNat ++ padded (chunkAt image k) := by
  have hchunk : (image.drop (kDataChunkBytes * k)).take (chunkLength image (kDataChunkBytes * k)) =
      chunkAt image k := by
    rw [chunkLength, chunkAt, ← List.length_drop, List.take_eq_take_min]
    simp
  change dataPayload image (kDataChunkBytes * k) (chunkLength image (kDataChunkBytes * k)) = _
  rw [dataPayload_eq, hchunk, List.append_assoc]
  rfl

/-- `Carries image frames chunks`: the frames carry the chunks at the offsets 0,
256, 512 and so on, and the chunks make a first part of the image. -/
structure Carries (image : Bytes) (frames : List FlashFrame) (chunks : List Bytes) : Prop where
  offsets : frames.map (fun f => (readLittleEndian32 f.payload).toNat) =
    (List.range chunks.length).map (kDataChunkBytes * ·)
  contents : frames.map (fun f => f.payload.drop 4) = chunks.map padded
  /-- Each chunk starts where the ones before it end. -/
  noGap : ∀ i, i < chunks.length → (chunks.take i).flatten.length = kDataChunkBytes * i
  sizes : ∀ chunk ∈ chunks, chunk ≠ [] ∧ chunk.length ≤ kDataChunkBytes
  firstPart : chunks.flatten <+: image

/-- What is read off the payloads is read off the requests. -/
theorem map_payload {γ : Type} {image : Bytes} {frames : List FlashFrame} {k : Nat}
    (hpayload : frames.map (·.payload) = (List.range k).map fun i => (dataReq image i).payload.1)
    (g : Bytes → γ) :
    frames.map (fun f => g f.payload) =
      (List.range k).map fun i => g (dataReq image i).payload.1 := by
  have h := congrArg (List.map g) hpayload
  rw [List.map_map, List.map_map] at h
  exact h

/-- Frames with the payloads of the first `DATA` requests carry the first chunks. -/
theorem carries_chunks {image : Bytes} {frames : List FlashFrame} {k : Nat}
    (hlength : image.length < 2 ^ 32) (hk : ∀ i, i < k → kDataChunkBytes * i < image.length)
    (hpayload : frames.map (·.payload) = (List.range k).map fun i => (dataReq image i).payload.1) :
    Carries image frames ((List.range k).map (chunkAt image)) where
  offsets := by
    have hoffset : ∀ i, i < k →
        (readLittleEndian32 (dataReq image i).payload.1).toNat = kDataChunkBytes * i := by
      intro i hi
      rw [dataReq_payload, readLittleEndian32_leBytes, UInt32.toNat_ofNat']
      exact Nat.mod_eq_of_lt (Nat.lt_trans (hk i hi) hlength)
    rw [map_payload hpayload fun p => (readLittleEndian32 p).toNat, List.length_map,
      List.length_range]
    exact List.map_congr_left fun i hi => hoffset i (List.mem_range.mp hi)
  contents := by
    rw [map_payload hpayload (List.drop 4), List.map_map]
    refine List.map_congr_left fun i _ => ?_
    change _ = padded (chunkAt image i)
    rw [dataReq_payload]
    exact List.drop_left' (leBytes_length _ _)
  noGap := by
    intro i hi
    rw [List.length_map, List.length_range] at hi
    rw [← List.map_take, List.take_range, Nat.min_eq_left (Nat.le_of_lt hi), flatten_chunks,
      List.length_take]
    exact Nat.min_eq_left (Nat.le_of_lt (hk i hi))
  sizes := by
    intro chunk hmem
    obtain ⟨i, hi, rfl⟩ := List.mem_map.mp hmem
    have hlt := hk i (List.mem_range.mp hi)
    refine ⟨?_, List.length_take_le _ _⟩
    refine List.ne_nil_of_length_pos ?_
    rw [chunkAt, List.length_take, List.length_drop]
    simp only [kDataChunkBytes] at *
    omega
  firstPart := by
    rw [flatten_chunks]
    exact List.take_prefix _ _

/-! ## The DATA frames of a run -/

/-- The `DATA` frames a run has sent. -/
def dataFrames (image : Bytes) (version : UInt32) (timing : Timing) (ops : List Op) :
    List FlashFrame :=
  (framesSent image version timing ops).filter (·.type == kData)

section

variable {image : Bytes} {version : UInt32} {timing : Timing} {ops : List Op} {s : OtaSession}
  {rs : List Request} {at_ : TableState} {blocks : List (WireFrame × Nat)}

theorem filter_openingReqs (n : Nat) :
    (openingReqs image version n).filter (·.type == kData) =
      (List.range n).map (dataReq image) := by
  have hall : ((List.range n).map (dataReq image)).filter (·.type == kData) =
      (List.range n).map (dataReq image) := by
    refine List.filter_eq_self.mpr fun r hr => ?_
    obtain ⟨i, -, rfl⟩ := List.mem_map.mp hr
    rfl
  exact hall

/-- The `DATA` requests asked are the first ones, without a gap. -/
theorem Reached.dataReqs {sm : TableState} {n : Nat} (h : Reached image version rs sm n) :
    ∃ k, rs.filter (·.type == kData) = (List.range k).map (dataReq image) ∧
      ∀ i, i < k → kDataChunkBytes * i < image.length := by
  have htransfer : ∀ more : List Request, more.filter (·.type == kData) = [] →
      (transferReqs image version ++ more).filter (·.type == kData) =
        (List.range (chunkCount image)).map (dataReq image) := by
    intro more hmore
    rw [List.filter_append, hmore, List.append_nil]
    exact filter_openingReqs _
  have hfew : ∀ i, i < 0 → kDataChunkBytes * i < image.length := fun i hi => absurd hi (by omega)
  cases h with
  | idle => exact ⟨0, rfl, hfew⟩
  | probing _ => exact ⟨0, rfl, hfew⟩
  | beginning _ => exact ⟨0, rfl, hfew⟩
  | @sending k hk =>
      refine ⟨k + 1, filter_openingReqs _, fun i hi => Nat.lt_of_le_of_lt ?_ hk⟩
      exact Nat.mul_le_mul_left _ (by omega)
  | committing => exact ⟨_, htransfer _ rfl, fun _ => lt_of_lt_chunkCount⟩
  | rebooting => exact ⟨_, htransfer _ rfl, fun _ => lt_of_lt_chunkCount⟩
  | rechecking =>
      rw [List.append_assoc]
      exact ⟨_, htransfer _ rfl, fun _ => lt_of_lt_chunkCount⟩
  | confirming =>
      rw [List.append_assoc, List.append_assoc]
      exact ⟨_, htransfer _ rfl, fun _ => lt_of_lt_chunkCount⟩
  | onTrial => exact ⟨0, rfl, hfew⟩
  | upToDate => exact ⟨0, rfl, hfew⟩
  | done =>
      rw [List.append_assoc, List.append_assoc]
      exact ⟨_, htransfer _ rfl, fun _ => lt_of_lt_chunkCount⟩
  | trialDone => exact ⟨0, rfl, hfew⟩

/-- Numbering requests keeps their types and payloads. -/
theorem numbered_payloads (rs : List Request) :
    (((numbered rs).map WireFrame.frame).filter (·.type == kData)).map (·.payload) =
      (rs.filter (·.type == kData)).map (·.payload.1) := by
  induction rs using List.reverseRecOn with
  | nil => rfl
  | append_singleton rs r ih =>
      rw [numbered_concat, List.map_append, List.filter_append, List.map_append, ih,
        List.filter_append, List.map_append]
      congr 1
      by_cases hr : r.type = kData
      · simp [Request.frame, hr]
      · simp [Request.frame, hr]

/-- With repeats left out, the `DATA` frames of a run carry the first chunks. -/
theorem History.carries (h : History image version timing ops s rs at_ blocks)
    (hlength : image.length < 2 ^ 32) {k : Nat}
    (hdata : rs.filter (·.type == kData) = (List.range k).map (dataReq image))
    (hk : ∀ i, i < k → kDataChunkBytes * i < image.length) :
    Carries image (dataFrames image version timing ops).eraseDups
      ((List.range k).map (chunkAt image)) := by
  have hpayload : (((numbered rs).map WireFrame.frame).filter (·.type == kData)).map (·.payload) =
      (List.range k).map fun i => (dataReq image i).payload.1 := by
    rw [numbered_payloads, hdata, List.map_map]
    rfl
  have hcarries := carries_chunks hlength hk hpayload
  have hdistinct : ((numbered rs).map WireFrame.frame).filter (·.type == kData) =
      (dataFrames image version timing ops).eraseDups := by
    have hframes : ((blocks.filter fun b => b.1.frame.type == kData).map fun b => b.1.frame) =
        ((numbered rs).map WireFrame.frame).filter (·.type == kData) := by
      rw [← h.frames, List.map_map, List.filter_map]
      rfl
    -- the offsets tell the frames apart
    have hnodup : (((numbered rs).map WireFrame.frame).filter (·.type == kData)).Nodup := by
      refine List.Nodup.of_map (fun f => (readLittleEndian32 f.payload).toNat) ?_
      rw [hcarries.offsets]
      exact List.nodup_range.map fun i j hij => Nat.eq_of_mul_eq_mul_left (by decide) hij
    rw [dataFrames, h.framesSent_eq, filter_repeats, ← hframes]
    exact (eraseDups_repeats _ _ (hframes ▸ hnodup)).symm
  rw [← hdistinct]
  exact hcarries

/-! ## COMMIT -/

/-- A `COMMIT` is sent when every chunk has been asked and acknowledged. -/
theorem History.commit_sent (h : History image version timing ops s rs at_ blocks) {op : Op}
    {f : FlashFrame} (hf : f ∈ decoded (s.apply op).1) (htype : f.type = kCommit) :
    ∃ more, rs = transferReqs image version ++ more ∧ more.filter (·.type == kData) = [] ∧
      ∀ w ∈ numbered rs, w.frame.type ≠ kInfoReq → w.frame.type ≠ kCommit →
        Acked image version timing (ops ++ [op]) w := by
  have hcases := apply_cases s op
  generalize s.apply op = res at hcases hf
  cases hcases with
  | ignored => cases decoded_nil ▸ hf
  | rejected _ _ _ _ _ => cases decoded_nil ▸ hf
  | @moved e now sm' c' htrigger hfail hrow =>
      have hreached := h.reached
      rw [h.state hfail] at hreached
      have hinFlight := h.in_flight hfail
      have hacked := h.acked
      have hasked := h.acked_asks hfail htrigger
      have hchunk := h.chunk hfail
      have hsent := row_sends hrow hf
      have himage : (s.seen e now).image = image := h.image_eq
      change _ ∨ Sends (s.seen e now) _ _ _ at hsent
      generalize s.sm = sm at hreached hinFlight hasked hchunk hsent
      rcases hsent with ⟨hwait, hagain⟩ | hsends
      · -- a copy: the request in flight is the `COMMIT`
        obtain ⟨g, hg, -, -, hkind⟩ := hinFlight hwait
        have hcommit : g.frame.type = kCommit := by
          have hout : c'.outbox = g.bytes := hagain.trans hg
          rw [hout, g.decoded_bytes] at hf
          rw [← htype, List.mem_singleton.mp hf]
        have hlast : ∀ rs' q, rs = rs' ++ [q] → q.type = kCommit :=
          fun rs' q hrs => (hkind rs' q hrs).symm.trans hcommit
        generalize s.ctx.sentBytes = n at hreached
        cases hreached with
        | idle => exact absurd hwait (by rintro (hw | hw | hw | hw | hw | hw) <;> cases hw)
        | probing _ => exact absurd (hlast [] infoReq rfl) (by decide)
        | beginning _ =>
            exact absurd (hlast [infoReq] (beginReq image version) rfl)
              (by decide : kBegin ≠ kCommit)
        | @sending k _ =>
            exact absurd (hlast _ _ (openingReqs_succ image version k))
              (by decide : kData ≠ kCommit)
        | committing =>
            refine ⟨[commitReq], rfl, rfl, fun w hw hinfo hne => (hacked w ?_ hinfo).mono _ _ _ _⟩
            rw [numbered_concat] at hw ⊢
            rw [List.dropLast_concat]
            cases List.mem_append.mp hw with
            | inl hmem => exact hmem
            | inr hmem => exact absurd (by rw [List.mem_singleton.mp hmem]; rfl) hne
        | rebooting => exact absurd hwait not_waiting_rebooting
        | rechecking => exact absurd (hlast _ infoReq rfl) (by decide)
        | confirming => exact absurd (hlast _ confirmReq rfl) (by decide)
        | onTrial => exact absurd (hlast [infoReq] confirmReq rfl) (by decide)
        | upToDate => exact absurd hwait not_waiting_done
        | done => exact absurd hwait not_waiting_done
        | trialDone => exact absurd hwait not_waiting_done
      · rw [htype] at hsends
        cases hsends with
        | commit hall =>
            have hall : image.length ≤ s.ctx.sentBytes + s.ctx.chunkBytes := himage ▸ hall
            rw [hchunk rfl] at hall
            generalize s.ctx.sentBytes = n at hreached hall
            cases hreached with
            | @sending k hk =>
                obtain ⟨-, hcount⟩ := chunk_at_end hk hall
                refine ⟨[], ?_, rfl, fun w hw hinfo _ => ?_⟩
                · rw [transferReqs, hcount, List.append_nil]
                · exact hasked (.ack (.inr (.inr (.inl rfl)))) w hw hinfo

theorem beginPayload_eq (hlength : image.length < 2 ^ 32) :
    (beginPayload image version).1 =
      leBytes 4 image.length ++ leBytes 4 (crc32IsoHdlc image).toNat ++
        leBytes 4 version.toNat := by
  have hsize : (UInt32.ofNat image.length).toNat = image.length := by
    rw [UInt32.toNat_ofNat']
    exact Nat.mod_eq_of_lt hlength
  simp only [beginPayload, appendLittleEndian32_eq, List.nil_append, hsize]

end

/-- The image on the wire, for one run. -/
structure ImageIntegrity (image : Bytes) (version : UInt32) (timing : Timing) (ops : List Op) :
    Prop where
  /-- The distinct `DATA` frames carry the first chunks of the image. -/
  data : ∃ chunks, Carries image (dataFrames image version timing ops).eraseDups chunks
  /-- A `COMMIT` is sent only when `BEGIN` and `DATA` frames for the whole image
  have each been acknowledged. -/
  commit : ∀ before op rest, ops = before ++ op :: rest →
    (∃ f ∈ decoded ((after image version timing before).apply op).1, f.type = kCommit) →
      (∃ b : WireFrame, b.frame ∈ framesSent image version timing before ∧
        b.frame.type = kBegin ∧
        b.frame.payload = leBytes 4 image.length ++ leBytes 4 (crc32IsoHdlc image).toNat ++
          leBytes 4 version.toNat ∧
        Acked image version timing (before ++ [op]) b) ∧
      (∃ chunks, Carries image (dataFrames image version timing before).eraseDups chunks ∧
        chunks.flatten = image) ∧
      ∀ d : WireFrame, d.frame ∈ dataFrames image version timing before →
        Acked image version timing (before ++ [op]) d

/-- Every run of a fresh session keeps the image whole. -/
theorem image_integrity (image : Bytes) (version : UInt32) (timing : Timing) (ops : List Op)
    (hlength : image.length < 2 ^ 32) : ImageIntegrity image version timing ops where
  data := by
    obtain ⟨rs, at_, blocks, h⟩ := history_run image version timing ops
    obtain ⟨k, hdata, hk⟩ := h.reached.dataReqs
    exact ⟨_, h.carries hlength hdata hk⟩
  commit := by
    rintro before op rest - ⟨f, hf, htype⟩
    obtain ⟨rs, at_, blocks, h⟩ := history_run image version timing before
    obtain ⟨more, hrs, hmore, hacked⟩ := h.commit_sent hf htype
    refine ⟨?_, ?_, ?_⟩
    · have hbegin : (beginReq image version).frame 2 ∈ numbered rs := by
        refine mem_numbered.mpr ⟨1, beginReq image version, ?_, rfl⟩
        rw [hrs]
        rfl
      refine ⟨_, h.mem_framesSent.mpr ⟨_, hbegin, rfl⟩, rfl, beginPayload_eq hlength, ?_⟩
      exact hacked _ hbegin (by decide : kBegin ≠ kInfoReq) (by decide : kBegin ≠ kCommit)
    · have hdata : rs.filter (·.type == kData) =
          (List.range (chunkCount image)).map (dataReq image) := by
        rw [hrs, List.filter_append, hmore, List.append_nil]
        exact filter_openingReqs _
      refine ⟨_, h.carries hlength hdata fun _ => lt_of_lt_chunkCount, ?_⟩
      rw [flatten_chunks]
      exact List.take_of_length_le (length_le_chunkCount image)
    · intro d hd
      obtain ⟨hsent, hkind⟩ := List.mem_filter.mp hd
      obtain ⟨w, hw, hwd⟩ := h.mem_framesSent.mp hsent
      obtain rfl : w = d := WireFrame.ext hwd
      have hkind : w.frame.type = kData := beq_iff_eq.mp hkind
      exact hacked w hw (by rw [hkind]; decide) (by rw [hkind]; decide)

/-- Two chunks, with the probe and the second chunk sent twice, up to the acknowledged `COMMIT`. -/
def twoChunks : List Op :=
  [.start 0, .onTick 2500, .onFrame ⟨kInfo, 1, [1, 0, 0, 0, 0, 0]⟩ 2510,
    .onFrame ⟨kAck, 2, []⟩ 2600, .onFrame ⟨kAck, 3, []⟩ 2700, .onTick 5000,
    .onFrame ⟨kAck, 4, []⟩ 5010, .onFrame ⟨kAck, 5, []⟩ 5020]

theorem image_integrity_probe : ImageIntegrity (List.replicate 300 0x11) 2 {} twoChunks ∧
    (after (List.replicate 300 0x11) 2 {} twoChunks).stage = .rebooting :=
  ⟨image_integrity (List.replicate 300 0x11) 2 {} twoChunks
    (by rw [List.length_replicate]; decide), by decide +kernel⟩

end Ota
