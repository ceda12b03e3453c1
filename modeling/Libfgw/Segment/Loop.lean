import Libfgw.Segment.Cut

/-! The loop that both a stream and a transit run over the bytes buffered for a link. -/

namespace Libfgw

open FgwSegmentHeader Lib

universe u

variable {σ : Type u} (onFrame : Nat → FgwSegmentHeader → List ZceByte → σ → σ)

/-- The loop over a buffer from `pos` on: the position where it stops, or `none` when it
has dropped the buffer.  The bytes left bound the rounds left. -/
def segmentLoop (buffer : List ZceByte) : Nat → Nat → σ → Option Nat × σ
  | 0, pos, s => (some pos, s)
  | fuel + 1, pos, s =>
    let remaining := buffer.length - pos
    if remaining < LEGACY_HEADER_SIZE then (some pos, s)
    else
      let frame := buffer.drop pos
      match fgwSegmentPeekHeader frame (intCast remaining) with
      | .badSegment => (none, s)
      | .needMore => (some pos, s)
      | .header hr hdr =>
        let total := hr + hdr.payloadLen.toNat
        if total > remaining then (some pos, s)
        else segmentLoop buffer fuel (pos + total) (onFrame hr hdr frame s)

def segmentScan (buffer : List ZceByte) (s : σ) : List ZceByte × σ :=
  let (pos, s) := segmentLoop onFrame buffer buffer.length 0 s
  ((pos.map buffer.drop).getD [], s)

def segmentHandle (s : σ) (f : List ZceByte) : σ :=
  match fgwSegmentPeekHeader f f.length with
  | .header hr hdr => onFrame hr hdr f s
  | _ => s

def segmentFeed (s : σ × List ZceByte) (chunk : List ZceByte) : σ × List ZceByte :=
  ((segmentScan onFrame (s.2 ++ chunk) s.1).2, (segmentScan onFrame (s.2 ++ chunk) s.1).1)

/-- Each chunk finds the buffer short enough for both to stay below 2 GiB. -/
def Fits : List ZceByte → List (List ZceByte) → Prop
  | _, [] => True
  | r, chunk :: chunks =>
    (r ++ chunk).length < 2 ^ 31 ∧ Fits (segmentCutter.split (r ++ chunk)).2 chunks

def ReadsFrame : Prop := ∀ hr (hdr : FgwSegmentHeader) f s,
  onFrame hr hdr (f.take (hr + hdr.payloadLen.toNat)) s = onFrame hr hdr f s

variable {onFrame}

theorem segmentHandle_take (honly : ReadsFrame onFrame) {hr : Nat} {hdr : FgwSegmentHeader}
    {f : List ZceByte} {inSize : Int} (hpeek : fgwSegmentPeekHeader f inSize = .header hr hdr)
    (hle : hr + hdr.payloadLen.toNat ≤ f.length) (s : σ) :
    segmentHandle onFrame s (f.take (hr + hdr.payloadLen.toNat)) = onFrame hr hdr f s := by
  unfold segmentHandle
  rw [fgwSegmentPeekHeader_take hpeek (by omega) hle]
  exact honly hr hdr f s

/-- The loop handles the whole frames one by one, and stops at the residue. -/
theorem segmentLoop_eq (honly : ReadsFrame onFrame) {buffer : List ZceByte}
    (hlen : buffer.length < 2 ^ 31) {fuel pos : Nat} (hpos : pos ≤ buffer.length)
    (hfuel : buffer.length - pos ≤ fuel) (s : σ) :
    ((segmentLoop onFrame buffer fuel pos s).1.map buffer.drop).getD [] =
        (segmentCutter.split (buffer.drop pos)).2 ∧
      (segmentLoop onFrame buffer fuel pos s).2 =
        (segmentCutter.split (buffer.drop pos)).1.foldl (segmentHandle onFrame) s := by
  induction fuel generalizing pos s with
  | zero =>
    have hnil : buffer.drop pos = [] := List.drop_eq_nil_of_le (by omega)
    rw [hnil, Cutter.split_wait (@segmentCut_of_short [] (by decide))]
    exact ⟨hnil, rfl⟩
  | succ fuel ih =>
    have hrem : (buffer.drop pos).length = buffer.length - pos := List.length_drop
    simp only [segmentLoop]
    split
    · rename_i hshort
      rw [Cutter.split_wait (segmentCut_of_short (by rw [hrem]; exact hshort))]
      exact ⟨rfl, rfl⟩
    rw [intCast_of_lt (by omega), ← hrem]
    cases hpeek : fgwSegmentPeekHeader (buffer.drop pos) (buffer.drop pos).length with
    | badSegment =>
      rw [Cutter.split_bad (segmentCut_eq_bad.2 hpeek)]
      exact ⟨rfl, rfl⟩
    | needMore =>
      rw [Cutter.split_wait (segmentCut_of_needMore hpeek)]
      exact ⟨rfl, rfl⟩
    | header hr hdr =>
      dsimp only
      have h16 := (sixteen_le_peek hpeek).1
      split
      · rename_i hlong
        rw [Cutter.split_wait (segmentCut_of_long hpeek hlong)]
        exact ⟨rfl, rfl⟩
      · rename_i hwhole
        rw [Cutter.split_frame (segmentCut_eq_frame.2 ⟨hpeek, rfl, by omega⟩), List.drop_drop]
        dsimp only
        rw [List.foldl_cons, segmentHandle_take honly hpeek (by omega)]
        exact ih (by omega) (by omega) _

def segmentFrames (buffer : List ZceByte) : List (List ZceByte) :=
  (segmentScan (fun hr hdr f fs => fs ++ [f.take (hr + hdr.payloadLen.toNat)]) buffer []).2

theorem segmentLoop_frames (honly : ReadsFrame onFrame) (buffer : List ZceByte) (fuel pos : Nat)
    (s : σ) (fs : List (List ZceByte)) :
    (segmentLoop (fun hr hdr f fs => fs ++ [f.take (hr + hdr.payloadLen.toNat)]) buffer fuel pos
        fs).2.foldl (segmentHandle onFrame) s =
      (segmentLoop onFrame buffer fuel pos (fs.foldl (segmentHandle onFrame) s)).2 := by
  induction fuel generalizing pos fs with
  | zero => rfl
  | succ fuel ih =>
    simp only [segmentLoop]
    split
    · rfl
    cases hpeek : fgwSegmentPeekHeader (buffer.drop pos) (intCast (buffer.length - pos)) with
    | badSegment => rfl
    | needMore => rfl
    | header hr hdr =>
      dsimp only
      split
      · rfl
      · rename_i hwhole
        have hlen : (buffer.drop pos).length = buffer.length - pos := List.length_drop
        rw [ih, List.foldl_append, List.foldl_cons, List.foldl_nil,
          segmentHandle_take honly hpeek (by omega)]

theorem segmentScan_frames (honly : ReadsFrame onFrame) (buffer : List ZceByte) (s : σ) :
    (segmentScan onFrame buffer s).2 = (segmentFrames buffer).foldl (segmentHandle onFrame) s :=
  (segmentLoop_frames honly buffer buffer.length 0 s []).symm

def collectFrame (hr : Nat) (hdr : FgwSegmentHeader) (f : List ZceByte) (fs : List (List ZceByte)) :
    List (List ZceByte) := fs ++ [f.take (hr + hdr.payloadLen.toNat)]

theorem collectFrame_readsFrame : ReadsFrame collectFrame := by
  intro hr hdr f fs
  simp only [collectFrame, List.take_take, Nat.min_self]

theorem segmentLoop_fst {τ : Type*} (onFrame' : Nat → FgwSegmentHeader → List ZceByte → τ → τ)
    (buffer : List ZceByte) (fuel pos : Nat) (s : σ) (t : τ) :
    (segmentLoop onFrame buffer fuel pos s).1 = (segmentLoop onFrame' buffer fuel pos t).1 := by
  induction fuel generalizing pos s t with
  | zero => rfl
  | succ fuel ih =>
    simp only [segmentLoop]
    split
    · rfl
    cases hpeek : fgwSegmentPeekHeader (buffer.drop pos) (intCast (buffer.length - pos)) with
    | badSegment => rfl
    | needMore => rfl
    | header hr hdr =>
      dsimp only
      split
      · rfl
      · exact ih _ _ _

theorem segmentScan_fst {τ : Type*} (onFrame' : Nat → FgwSegmentHeader → List ZceByte → τ → τ)
    (buffer : List ZceByte) (s : σ) (t : τ) :
    (segmentScan onFrame buffer s).1 = (segmentScan onFrame' buffer t).1 := by
  simp only [segmentScan, segmentLoop_fst onFrame' buffer buffer.length 0 s t]

theorem foldl_segmentHandle_collect {fs : List (List ZceByte)} (hfs : ∀ f ∈ fs, IsSegment f)
    (kept : List (List ZceByte)) : fs.foldl (segmentHandle collectFrame) kept = kept ++ fs := by
  induction fs generalizing kept with
  | nil => exact (List.append_nil kept).symm
  | cons f fs ih =>
    obtain ⟨hf, hfs⟩ := List.forall_mem_cons.1 hfs
    obtain ⟨hr, hdr, hpeek, hlen⟩ := isSegment_iff.1 hf
    have hone : segmentHandle collectFrame kept f = kept ++ [f] := by
      unfold segmentHandle
      rw [hpeek]
      simp only [collectFrame, List.take_of_length_le hlen.le]
    rw [List.foldl_cons, hone, ih hfs, List.append_assoc, List.singleton_append]

theorem segmentLoop_isSegment (buffer : List ZceByte) (fuel pos : Nat) (fs : List (List ZceByte))
    (hfs : ∀ f ∈ fs, IsSegment f) :
    ∀ f ∈ (segmentLoop collectFrame buffer fuel pos fs).2, IsSegment f := by
  induction fuel generalizing pos fs with
  | zero => exact hfs
  | succ fuel ih =>
    simp only [segmentLoop]
    split
    · exact hfs
    cases hpeek : fgwSegmentPeekHeader (buffer.drop pos) (intCast (buffer.length - pos)) with
    | badSegment => exact hfs
    | needMore => exact hfs
    | header hr hdr =>
      dsimp only
      split
      · exact hfs
      · rename_i hwhole
        have hlen : (buffer.drop pos).length = buffer.length - pos := List.length_drop
        have htake : ((buffer.drop pos).take (hr + hdr.payloadLen.toNat)).length =
            hr + hdr.payloadLen.toNat := by
          rw [List.length_take]
          omega
        refine ih _ _ (List.forall_mem_append.2 ⟨hfs, ?_⟩)
        rw [List.forall_mem_singleton]
        exact isSegment_iff.2 ⟨hr, hdr, fgwSegmentPeekHeader_take hpeek (by omega) (by omega), htake⟩

theorem isSegment_of_mem_segmentFrames {buffer f : List ZceByte} (hf : f ∈ segmentFrames buffer) :
    IsSegment f := segmentLoop_isSegment buffer buffer.length 0 [] (by simp) f hf

theorem segmentFeed_collect (kept : List (List ZceByte)) (r chunk : List ZceByte) :
    segmentFeed collectFrame (kept, r) chunk =
      (kept ++ segmentFrames (r ++ chunk), (segmentScan collectFrame (r ++ chunk) []).1) := by
  rw [segmentFeed, segmentScan_frames collectFrame_readsFrame,
    foldl_segmentHandle_collect fun f hf => isSegment_of_mem_segmentFrames hf,
    segmentScan_fst collectFrame _ kept []]

theorem segmentScan_eq (honly : ReadsFrame onFrame) {buffer : List ZceByte}
    (hlen : buffer.length < 2 ^ 31) (s : σ) :
    segmentScan onFrame buffer s =
      ((segmentCutter.split buffer).2,
        (segmentCutter.split buffer).1.foldl (segmentHandle onFrame) s) := by
  obtain ⟨hrest, hs⟩ := segmentLoop_eq honly hlen (Nat.zero_le _) (Nat.le_refl _) s
  rw [Nat.sub_zero, List.drop_zero] at hrest hs
  simp only [segmentScan]
  rw [hrest, hs]

theorem segmentFeed_eq (honly : ReadsFrame onFrame) {p : σ × List ZceByte} {chunk : List ZceByte}
    (hlen : (p.2 ++ chunk).length < 2 ^ 31) :
    segmentFeed onFrame p chunk = segmentCutter.feed (segmentHandle onFrame) p chunk := by
  simp only [segmentFeed, segmentScan_eq honly hlen, Cutter.feed]

theorem foldl_segmentFeed (honly : ReadsFrame onFrame) {chunks fs : List (List ZceByte)}
    {q r : List ZceByte} (s : σ) (hfs : ∀ f ∈ fs, IsSegment f) (hq : segmentCutter.IsPartial q)
    (hr : segmentCutter.IsPartial r) (hstream : r ++ chunks.flatten = fs.flatten ++ q)
    (hfits : Fits r chunks) :
    chunks.foldl (segmentFeed onFrame) (s, r) = (fs.foldl (segmentHandle onFrame) s, q) := by
  have hfeed : chunks.foldl (segmentFeed onFrame) (s, r) =
      chunks.foldl (segmentCutter.feed (segmentHandle onFrame)) (s, r) := by
    clear hstream hr
    induction chunks generalizing s r with
    | nil => rfl
    | cons chunk chunks ih =>
      obtain ⟨hlen, hfits⟩ := hfits
      rw [List.foldl_cons, List.foldl_cons, segmentFeed_eq honly hlen]
      exact ih _ hfits
  rw [hfeed, Cutter.foldl_feed_stream (segmentHandle onFrame) s hfs hq hstream hr]

theorem segmentFrames_isSegment {f : List ZceByte} (hf : IsSegment f) : segmentFrames f = [f] := by
  have hlen := IsSegment.length_le hf
  simp only [ROUTED_HEADER_SIZE, MAX_PAYLOAD] at hlen
  have hscan := segmentScan_eq collectFrame_readsFrame (show f.length < 2 ^ 31 by omega) []
  rw [hf.split_eq, foldl_segmentHandle_collect (List.forall_mem_singleton.2 hf)] at hscan
  exact congrArg Prod.snd hscan

theorem segmentScan_huge {buffer : List ZceByte} (hlo : 2 ^ 31 ≤ buffer.length)
    (hhi : buffer.length < 2 ^ 32) (s : σ) : segmentScan onFrame buffer s = (buffer, s) := by
  have hneg : intCast buffer.length < LEGACY_HEADER_SIZE := by
    rw [intCast, BitVec.toInt_eq_toNat_cond, BitVec.toNat_ofNat, Nat.mod_eq_of_lt hhi,
      if_neg (by omega)]
    simp only [LEGACY_HEADER_SIZE]
    omega
  have hwait : fgwSegmentPeekHeader buffer (intCast buffer.length) = .needMore := by
    rw [fgwSegmentPeekHeader_eq]
    exact if_pos hneg
  obtain ⟨fuel, hfuel⟩ := Nat.exists_eq_add_of_lt (Nat.lt_of_lt_of_le (by omega : 0 < 2 ^ 31) hlo)
  have hloop : segmentLoop onFrame buffer buffer.length 0 s = (some 0, s) := by
    have hshort : ¬ buffer.length < LEGACY_HEADER_SIZE := by
      simp only [LEGACY_HEADER_SIZE]
      omega
    rw [show buffer.length = fuel + 1 by omega]
    simp only [segmentLoop, Nat.sub_zero, hshort, if_false, List.drop_zero, hwait]
  simp only [segmentScan, hloop, Option.map_some, List.drop_zero, Option.getD_some]

end Libfgw
