import Libfgw.Lib.Framing
import Libfgw.Segment.Wire

namespace Libfgw

open FgwSegmentHeader Lib

theorem byteAt_append {a : List ZceByte} (b : List ZceByte) {i : Nat} (h : i < a.length) :
    byteAt (a ++ b) i = byteAt a i := by
  rw [byteAt, byteAt, List.getD_eq_getElem?_getD, List.getD_eq_getElem?_getD,
    List.getElem?_append_left h]

theorem unpackBe16_drop_append {a : List ZceByte} (b : List ZceByte) {i : Nat}
    (h : i + 2 ≤ a.length) : unpackBe16 ((a ++ b).drop i) = unpackBe16 (a.drop i) := by
  have hlen : (a.drop i).length = a.length - i := List.length_drop
  rw [List.drop_append_of_le_length (by omega)]
  simp only [unpackBe16]
  rw [byteAt_append b (by omega), byteAt_append b (by omega)]

theorem unpackBe32_drop_append {a : List ZceByte} (b : List ZceByte) {i : Nat}
    (h : i + 4 ≤ a.length) : unpackBe32 ((a ++ b).drop i) = unpackBe32 (a.drop i) := by
  have hlen : (a.drop i).length = a.length - i := List.length_drop
  rw [List.drop_append_of_le_length (by omega)]
  simp only [unpackBe32]
  rw [byteAt_append b (by omega), byteAt_append b (by omega), byteAt_append b (by omega),
    byteAt_append b (by omega)]

theorem peekFields_append {a : List ZceByte} (b : List ZceByte) {n : Nat}
    (hn : n = LEGACY_HEADER_SIZE ∨ n = HEADER_SIZE ∨ n = ROUTED_HEADER_SIZE) (h : n ≤ a.length) :
    peekFields (a ++ b) n = peekFields a n := by
  have h16 : 16 ≤ n := by rcases hn with rfl | rfl | rfl <;> decide
  have hing : n ≠ LEGACY_HEADER_SIZE → 20 ≤ n := by rcases hn with rfl | rfl | rfl <;> decide
  have hout : n = ROUTED_HEADER_SIZE → 24 ≤ n := by rcases hn with rfl | rfl | rfl <;> decide
  simp only [peekFields, FgwSegmentHeader.mk.injEq]
  refine ⟨byteAt_append b (by omega), byteAt_append b (by omega),
    unpackBe16_drop_append b (by omega), unpackBe32_drop_append b (by omega),
    unpackBe32_drop_append b (by omega), ?_, ?_, unpackBe32_drop_append b (by omega)⟩
  · split
    · rfl
    · rename_i hne
      have := hing hne
      exact unpackBe32_drop_append b (by omega)
  · split
    · rename_i heq
      have := hout heq
      exact unpackBe32_drop_append b (by omega)
    · rfl

theorem fgwSegmentPeekHeader_append {a : List ZceByte} (b : List ZceByte) {n : Nat}
    {hdr : FgwSegmentHeader} (h : fgwSegmentPeekHeader a a.length = .header n hdr) :
    fgwSegmentPeekHeader (a ++ b) (a ++ b).length = .header n hdr := by
  obtain ⟨rfl, rfl, hin, hmagic, hlen⟩ := fgwSegmentPeekHeader_eq_header.1 h
  have h16 := legacy_le_flagsSize (byteAt a 1)
  have h1 : byteAt (a ++ b) 1 = byteAt a 1 := byteAt_append b (by omega)
  refine fgwSegmentPeekHeader_eq_header.2 ⟨by rw [h1], ?_, ?_, ?_, hlen⟩
  · rw [peekFields_append b (flagsSize_cases _) (by omega)]
  · rw [List.length_append]
    omega
  · rw [byteAt_append b (by omega), hmagic]

theorem fgwSegmentPeekHeader_take {a : List ZceByte} {inSize : Int} {n k : Nat}
    {hdr : FgwSegmentHeader} (h : fgwSegmentPeekHeader a inSize = .header n hdr) (hk : n ≤ k)
    (hka : k ≤ a.length) :
    fgwSegmentPeekHeader (a.take k) (a.take k).length = .header n hdr := by
  obtain ⟨rfl, rfl, hin, hmagic, hlen⟩ := fgwSegmentPeekHeader_eq_header.1 h
  have h16 := legacy_le_flagsSize (byteAt a 1)
  have hlent : (a.take k).length = k := by rw [List.length_take]; omega
  have hsplit : a.take k ++ a.drop k = a := List.take_append_drop k a
  have hbyte : ∀ i < k, byteAt a i = byteAt (a.take k) i := by
    intro i hi
    have := byteAt_append (a.drop k) (i := i) (hlent.symm ▸ hi)
    rwa [hsplit] at this
  have h0 := hbyte 0 (by omega)
  have h1 := hbyte 1 (by omega)
  have hfields := peekFields_append (a := a.take k) (a.drop k) (flagsSize_cases (byteAt a 1))
    (by omega)
  rw [hsplit] at hfields
  refine fgwSegmentPeekHeader_eq_header.2 ⟨by rw [h1], hfields, ?_, ?_, hlen⟩
  · rw [hlent]
    omega
  · rw [← h0, hmagic]

theorem fgwSegmentPeekHeader_eq_bad {inp : List ZceByte} {inSize : Int} :
    fgwSegmentPeekHeader inp inSize = .badSegment ↔
      (LEGACY_HEADER_SIZE : Int) ≤ inSize ∧
        (byteAt inp 0 ≠ MAGIC ∨ (unpackBe16 (inp.drop 2)).toNat > MAX_PAYLOAD) := by
  rw [fgwSegmentPeekHeader_eq]
  constructor
  · intro h
    split at h
    · exact absurd h (by simp)
    split at h
    · exact ⟨by omega, by assumption⟩
    split at h <;> exact absurd h (by simp)
  · rintro ⟨h16, hbad⟩
    rw [if_neg (by omega), if_pos hbad]

theorem fgwSegmentPeekHeader_bad_append {a : List ZceByte} (b : List ZceByte)
    (h : fgwSegmentPeekHeader a a.length = .badSegment) :
    fgwSegmentPeekHeader (a ++ b) (a ++ b).length = .badSegment := by
  obtain ⟨h16, hbad⟩ := fgwSegmentPeekHeader_eq_bad.1 h
  simp only [LEGACY_HEADER_SIZE] at h16
  refine fgwSegmentPeekHeader_eq_bad.2 ⟨?_, ?_⟩
  · rw [List.length_append]
    simp only [LEGACY_HEADER_SIZE]
    omega
  · rwa [byteAt_append b (by omega), unpackBe16_drop_append b (by omega)]

theorem length_lt_of_needMore {inp : List ZceByte}
    (h : fgwSegmentPeekHeader inp inp.length = .needMore) : inp.length < 24 := by
  have h24 := flagsSize_le_routed (byteAt inp 1)
  rw [fgwSegmentPeekHeader_eq] at h
  split at h
  · rename_i hlt
    simp only [LEGACY_HEADER_SIZE] at hlt
    omega
  split at h
  · exact absurd h (by simp)
  split at h
  · omega
  · exact absurd h (by simp)

def segmentCut (buf : List ZceByte) : Cut (Nat × FgwSegmentHeader) :=
  match fgwSegmentPeekHeader buf buf.length with
  | .needMore => .wait
  | .badSegment => .bad
  | .header hr hdr =>
    if hr + hdr.payloadLen.toNat ≤ buf.length then .frame (hr + hdr.payloadLen.toNat) (hr, hdr)
    else .wait

theorem segmentCut_eq_frame {buf : List ZceByte} {n hr : Nat} {hdr : FgwSegmentHeader} :
    segmentCut buf = .frame n (hr, hdr) ↔
      fgwSegmentPeekHeader buf buf.length = .header hr hdr ∧ n = hr + hdr.payloadLen.toNat ∧
        n ≤ buf.length := by
  unfold segmentCut
  constructor
  · intro h
    split at h
    · exact absurd h (by simp)
    · exact absurd h (by simp)
    · rename_i hr' hdr' hpeek
      split at h
      · rename_i hle
        injection h with hn hh
        obtain ⟨rfl, rfl⟩ := Prod.mk.inj hh
        exact ⟨hpeek, hn.symm, hn ▸ hle⟩
      · exact absurd h (by simp)
  · rintro ⟨hpeek, rfl, hle⟩
    rw [hpeek]
    exact if_pos hle

theorem segmentCut_eq_bad {buf : List ZceByte} :
    segmentCut buf = .bad ↔ fgwSegmentPeekHeader buf buf.length = .badSegment := by
  unfold segmentCut
  split
  · simp_all
  · simp_all
  · simp only [*, reduceCtorEq, iff_false]
    split <;> simp

theorem needMore_of_short {inp : List ZceByte} (h : inp.length < LEGACY_HEADER_SIZE) :
    fgwSegmentPeekHeader inp inp.length = .needMore := by
  have hint : (inp.length : Int) < (LEGACY_HEADER_SIZE : Nat) := by
    simp only [LEGACY_HEADER_SIZE] at *
    omega
  rw [fgwSegmentPeekHeader_eq]
  exact if_pos hint

theorem segmentCut_of_short {buf : List ZceByte} (h : buf.length < LEGACY_HEADER_SIZE) :
    segmentCut buf = .wait := by
  unfold segmentCut
  rw [needMore_of_short h]

theorem segmentCut_of_needMore {buf : List ZceByte}
    (h : fgwSegmentPeekHeader buf buf.length = .needMore) : segmentCut buf = .wait := by
  unfold segmentCut
  rw [h]

theorem segmentCut_of_long {buf : List ZceByte} {hr : Nat} {hdr : FgwSegmentHeader}
    (h : fgwSegmentPeekHeader buf buf.length = .header hr hdr)
    (hlong : hr + hdr.payloadLen.toNat > buf.length) : segmentCut buf = .wait := by
  unfold segmentCut
  rw [h]
  exact if_neg (Nat.not_le.2 hlong)

theorem sixteen_le_peek {inp : List ZceByte} {inSize : Int} {n : Nat} {hdr : FgwSegmentHeader}
    (h : fgwSegmentPeekHeader inp inSize = .header n hdr) : 16 ≤ n ∧ n ≤ 24 := by
  obtain ⟨rfl, -⟩ := fgwSegmentPeekHeader_eq_header.1 h
  exact ⟨legacy_le_flagsSize _, flagsSize_le_routed _⟩

def segmentCutter : Cutter ZceByte (Nat × FgwSegmentHeader) where
  cut := segmentCut
  frame_size := by
    rintro b n ⟨hr, hdr⟩ h
    obtain ⟨hpeek, rfl, hle⟩ := segmentCut_eq_frame.1 h
    have := sixteen_le_peek hpeek
    exact ⟨by omega, hle⟩
  frame_append := by
    rintro b n ⟨hr, hdr⟩ r h
    obtain ⟨hpeek, hn, hle⟩ := segmentCut_eq_frame.1 h
    refine segmentCut_eq_frame.2 ⟨fgwSegmentPeekHeader_append r hpeek, hn, ?_⟩
    rw [List.length_append]
    omega
  frame_take := by
    rintro b n ⟨hr, hdr⟩ h
    obtain ⟨hpeek, hn, hle⟩ := segmentCut_eq_frame.1 h
    refine segmentCut_eq_frame.2 ⟨fgwSegmentPeekHeader_take hpeek (by omega) hle, hn, ?_⟩
    rw [List.length_take]
    omega
  bad_append := by
    intro b r h
    exact segmentCut_eq_bad.2 (fgwSegmentPeekHeader_bad_append r (segmentCut_eq_bad.1 h))

/-- A whole frame: a header that the decoder accepts and exactly its payload. -/
def IsSegment (f : List ZceByte) : Prop := segmentCutter.IsFrame f

theorem isSegment_iff {f : List ZceByte} :
    IsSegment f ↔ ∃ hr hdr, fgwSegmentPeekHeader f f.length = .header hr hdr ∧
      f.length = hr + hdr.payloadLen.toNat := by
  constructor
  · rintro ⟨⟨hr, hdr⟩, h⟩
    obtain ⟨hpeek, hlen, -⟩ := segmentCut_eq_frame.1 h
    exact ⟨hr, hdr, hpeek, hlen⟩
  · rintro ⟨hr, hdr, hpeek, hlen⟩
    exact ⟨(hr, hdr), segmentCut_eq_frame.2 ⟨hpeek, hlen, le_refl _⟩⟩

theorem IsSegment.length_le {f : List ZceByte} (hf : IsSegment f) :
    f.length ≤ ROUTED_HEADER_SIZE + MAX_PAYLOAD := by
  obtain ⟨hr, hdr, hpeek, hlen⟩ := isSegment_iff.1 hf
  have hle := (sixteen_le_peek hpeek).2
  have hmax := (fgwSegmentPeekHeader_eq_header.1 hpeek).2.2.2.2
  simp only [ROUTED_HEADER_SIZE]
  omega

theorem IsSegment.split_eq {f : List ZceByte} (hf : IsSegment f) : segmentCutter.split f = ([f], []) := by
  have hnil : segmentCutter.split [] = ([], []) :=
    Cutter.split_wait (@segmentCut_of_short [] (by decide))
  have hsplit := Cutter.split_isFrame_append hf []
  rwa [List.append_nil, hnil] at hsplit

theorem length_lt_of_isPartial {q : List ZceByte} (hq : segmentCutter.IsPartial q) :
    q.length < ROUTED_HEADER_SIZE + MAX_PAYLOAD := by
  obtain ⟨r, hr, hf⟩ := hq
  have hle := IsSegment.length_le hf
  have hpos := List.length_pos_of_ne_nil hr
  rw [List.length_append] at hle
  omega

theorem crcOk_take (f : List ZceByte) {n m : Nat} (crc : ZceUint32) :
    crcOk (f.take (n + m)) n m crc = crcOk f n m crc := by
  have hhead : (f.take (n + m)).take (n - 4) = f.take (n - 4) := by
    rw [List.take_take, Nat.min_eq_left (by omega)]
  have hbody : ((f.take (n + m)).drop n).take m = (f.drop n).take m := by
    rw [List.drop_take, List.take_take, Nat.add_sub_cancel_left, Nat.min_self]
  simp only [crcOk, hhead, hbody]

theorem fgwSegmentVerifyCrc_take (f : List ZceByte) (hdr : FgwSegmentHeader) (n : Nat) :
    fgwSegmentVerifyCrc (f.take (n + hdr.payloadLen.toNat)) hdr n = fgwSegmentVerifyCrc f hdr n := by
  simp only [fgwSegmentVerifyCrc, crcOk_take]

theorem isSegment_wireFrame (hdr : FgwSegmentHeader) (payload : List ZceByte)
    (hlen : payload.length ≤ MAX_PAYLOAD) : IsSegment (wireFrame hdr payload) := by
  have hplen : (wireDecoded hdr payload).payloadLen.toNat = payload.length := by
    simp only [wireDecoded, BitVec.toNat_ofNat, MAX_PAYLOAD] at hlen ⊢
    omega
  have hin : (wireHeaderSize hdr : Int) ≤ (wireFrame hdr payload).length := by
    rw [length_wireFrame]
    omega
  have hpeek := fgwSegmentPeekHeader_wireFrame hdr payload [] hlen hin
  rw [List.append_nil] at hpeek
  exact isSegment_iff.2 ⟨_, _, hpeek, by rw [length_wireFrame, hplen]⟩

theorem length_split_residue_lt (buf : List ZceByte) :
    (segmentCutter.split buf).2.length < ROUTED_HEADER_SIZE + MAX_PAYLOAD := by
  induction hn : buf.length using Nat.strongRecOn generalizing buf with
  | _ len ih =>
    subst hn
    cases hc : segmentCutter.cut buf with
    | wait =>
      rw [Cutter.split_wait hc]
      have hc' : segmentCut buf = .wait := hc
      simp only [ROUTED_HEADER_SIZE, MAX_PAYLOAD]
      unfold segmentCut at hc'
      split at hc'
      · rename_i hpeek
        have := length_lt_of_needMore hpeek
        omega
      · exact absurd hc' (by simp)
      · rename_i hr hdr hpeek
        have h24 := (sixteen_le_peek hpeek).2
        have hmax := (fgwSegmentPeekHeader_eq_header.1 hpeek).2.2.2.2
        simp only [MAX_PAYLOAD] at hmax
        split at hc'
        · exact absurd hc' (by simp)
        · omega
    | bad =>
      rw [Cutter.split_bad hc]
      decide
    | frame n h =>
      obtain ⟨hpos, hle⟩ := segmentCutter.frame_size hc
      rw [Cutter.split_frame hc]
      exact ih _ (by rw [List.length_drop]; omega) _ rfl

end Libfgw
