import Libfgw.Segment.Wire

namespace Libfgw

open FgwSegmentHeader

theorem wireHeaderSize_peekFields {inp : List ZceByte}
    (hext : (peekFields inp (flagsSize (byteAt inp 1))).isHdrExt = true) :
    wireHeaderSize (peekFields inp (flagsSize (byteAt inp 1))) = flagsSize (byteAt inp 1) := by
  have hext' : (byteAt inp 1 &&& FLAG_HDR_EXT != 0#8) = true := hext
  simp only [wireHeaderSize, flagsSize, isHdrRoute, peekFields, hext', if_true]

theorem wireFields_peekFields {inp : List ZceByte} (hmagic : byteAt inp 0 = MAGIC)
    (hext : (peekFields inp (flagsSize (byteAt inp 1))).isHdrExt = true)
    (hin : flagsSize (byteAt inp 1) ≤ inp.length) :
    wireFields (peekFields inp (flagsSize (byteAt inp 1))) (unpackBe16 (inp.drop 2)).toNat =
      inp.take (flagsSize (byteAt inp 1) - 4) := by
  have hext' : (byteAt inp 1 &&& FLAG_HDR_EXT != 0#8) = true := hext
  have h16 := legacy_le_flagsSize (byteAt inp 1)
  have hfront : [MAGIC, byteAt inp 1 ||| FLAG_HDR_EXT] = inp.take 2 := by
    rw [ext_or_ext hext', ← hmagic, take_two (by omega)]
  cases hr : (byteAt inp 1 &&& FLAG_HDR_ROUTE != 0#8) with
  | true =>
    have hsize : flagsSize (byteAt inp 1) = ROUTED_HEADER_SIZE := by simp [flagsSize, hr]
    rw [hsize] at hin ⊢
    simp only [ROUTED_HEADER_SIZE] at hin
    rw [@wireFields_routed (peekFields inp _) hr]
    simp only [peekFields, BitVec.ofNat_toNat, BitVec.setWidth_eq, ROUTED_HEADER_SIZE, LEGACY_HEADER_SIZE]
    simp only [Nat.reduceEqDiff, if_false, if_true]
    rw [hfront, packBe16_unpackBe16_drop (by omega), packBe32_unpackBe32_drop (by omega),
      packBe32_unpackBe32_drop (by omega), packBe32_unpackBe32_drop (by omega),
      packBe32_unpackBe32_drop (by omega)]
    simp only [← List.take_add]
  | false =>
    have hsize : flagsSize (byteAt inp 1) = HEADER_SIZE := by simp [flagsSize, hr, hext']
    rw [hsize] at hin ⊢
    simp only [HEADER_SIZE] at hin
    rw [@wireFields_extended (peekFields inp _) hr]
    simp only [peekFields, BitVec.ofNat_toNat, BitVec.setWidth_eq, HEADER_SIZE, LEGACY_HEADER_SIZE]
    simp only [Nat.reduceEqDiff, if_false]
    rw [hfront, packBe16_unpackBe16_drop (by omega), packBe32_unpackBe32_drop (by omega),
      packBe32_unpackBe32_drop (by omega), packBe32_unpackBe32_drop (by omega)]
    simp only [← List.take_add]

theorem wireFrame_of_verified {inp : List ZceByte} {n : Nat} {hdr : FgwSegmentHeader}
    (hpeek : fgwSegmentPeekHeader inp inp.length = .header n hdr) (hext : hdr.isHdrExt = true)
    (hwhole : n + hdr.payloadLen.toNat ≤ inp.length) (hcrc : fgwSegmentVerifyCrc inp hdr n = true) :
    wireHeaderSize hdr = n ∧
      wireFrame hdr ((inp.drop n).take hdr.payloadLen.toNat) =
        inp.take (n + hdr.payloadLen.toNat) := by
  obtain ⟨rfl, rfl, hin, hmagic, hlen⟩ := fgwSegmentPeekHeader_eq_header.1 hpeek
  set n := flagsSize (byteAt inp 1) with hn
  have h16 := legacy_le_flagsSize (byteAt inp 1)
  have hpay : ((inp.drop n).take (peekFields inp n).payloadLen.toNat).length =
      (peekFields inp n).payloadLen.toNat := by
    rw [List.length_take, List.length_drop]
    omega
  have hf := wireFields_peekFields hmagic hext (by omega)
  rw [← hn] at hf
  have hc := (fgwSegmentVerifyCrc_iff (flagsSize_cases (byteAt inp 1))).1 hcrc
  refine ⟨wireHeaderSize_peekFields hext, ?_⟩
  have hcrc' : wireCrc (peekFields inp n) ((inp.drop n).take (peekFields inp n).payloadLen.toNat) =
      (peekFields inp n).crc32 := by
    rw [wireCrc, hpay, ← hc]
    exact congrArg (fun f => fgwCrc32 (f ++ packBe32 0#32 ++ _)) hf
  have hword : packBe32 (peekFields inp n).crc32 = (inp.drop (n - 4)).take 4 :=
    packBe32_unpackBe32_drop (by omega)
  rw [wireFrame, hcrc', hpay, hword]
  calc wireFields (peekFields inp n) (unpackBe16 (inp.drop 2)).toNat ++ (inp.drop (n - 4)).take 4 ++
        (inp.drop n).take (peekFields inp n).payloadLen.toNat
      = inp.take (n - 4) ++ (inp.drop (n - 4)).take 4 ++
          (inp.drop n).take (peekFields inp n).payloadLen.toNat := by rw [hf]
    _ = inp.take n ++ (inp.drop n).take (peekFields inp n).payloadLen.toNat := by
        rw [← List.take_add, show n - 4 + 4 = n by omega]
    _ = inp.take (n + (peekFields inp n).payloadLen.toNat) := by rw [← List.take_add]

theorem fgwSegment_round_trip :
    (∀ (hdr : FgwSegmentHeader) (payload : Option (List ZceByte)) (out trailing : List ZceByte),
      (payload.getD []).length ≤ MAX_PAYLOAD →
      (if hdr.isHdrRoute then 24 else 20) + (payload.getD []).length ≤ out.length →
      ∃ total buf dec,
        fgwSegmentEncode (some out) hdr payload (payload.getD []).length = .ok (total, buf) ∧
        total = (if hdr.isHdrRoute then 24 else 20) + (payload.getD []).length ∧
        fgwSegmentPeekHeader (buf.take total ++ trailing) (buf.take total ++ trailing).length =
          .header (if hdr.isHdrRoute then 24 else 20) dec ∧
        dec.flags = hdr.flags ||| FLAG_HDR_EXT ∧
        dec.payloadLen.toNat = (payload.getD []).length ∧
        dec.sessionId = hdr.sessionId ∧ dec.seqNum = hdr.seqNum ∧ dec.ingressId = hdr.ingressId ∧
        dec.outportId = (if hdr.isHdrRoute then hdr.outportId else 0#32) ∧
        ((buf.take total ++ trailing).drop (if hdr.isHdrRoute then 24 else 20)).take
          dec.payloadLen.toNat = payload.getD [] ∧
        fgwSegmentVerifyCrc (buf.take total ++ trailing) dec
          (if hdr.isHdrRoute then 24 else 20) = true) ∧
    (∀ (inp : List ZceByte) (n : Nat) (dec : FgwSegmentHeader) (out : List ZceByte),
      fgwSegmentPeekHeader inp inp.length = .header n dec → dec.isHdrExt = true →
      n + dec.payloadLen.toNat ≤ inp.length → fgwSegmentVerifyCrc inp dec n = true →
      n + dec.payloadLen.toNat ≤ out.length →
      ∃ buf,
        fgwSegmentEncode (some out) dec (some ((inp.drop n).take dec.payloadLen.toNat))
          dec.payloadLen.toNat = .ok (n + dec.payloadLen.toNat, buf) ∧
        buf.take (n + dec.payloadLen.toNat) = inp.take (n + dec.payloadLen.toNat)) := by
  constructor
  · intro hdr payload out trailing hlen hout
    change wireHeaderSize hdr + _ ≤ _ at hout
    have henc : fgwSegmentEncode (some out) hdr payload (payload.getD []).length =
        .ok (wireHeaderSize hdr + (payload.getD []).length,
          wireFrame hdr (payload.getD []) ++
            out.drop (wireHeaderSize hdr + (payload.getD []).length)) := by
      cases payload with
      | none => exact (fgwSegmentEncode_null out hdr).trans (fgwSegmentEncode_eq out hdr [] hlen hout)
      | some p => exact fgwSegmentEncode_eq out hdr p hlen hout
    set p := payload.getD []
    have htake : (wireFrame hdr p ++ out.drop (wireHeaderSize hdr + p.length)).take
        (wireHeaderSize hdr + p.length) = wireFrame hdr p := by
      rw [List.take_left' (length_wireFrame hdr p)]
    have hplen : (wireDecoded hdr p).payloadLen.toNat = p.length := by
      simp only [wireDecoded, BitVec.toNat_ofNat, MAX_PAYLOAD] at hlen ⊢
      omega
    refine ⟨_, _, wireDecoded hdr p, henc, rfl, ?_, rfl, hplen, rfl, rfl, rfl, rfl, ?_, ?_⟩
    · rw [htake]
      exact fgwSegmentPeekHeader_wireFrame hdr p trailing hlen (by
        rw [List.length_append, length_wireFrame]
        omega)
    · rw [htake, hplen]
      exact wireFrame_drop_header hdr p trailing
    · rw [htake]
      exact fgwSegmentVerifyCrc_wireFrame hdr p trailing hlen
  · intro inp n dec out hpeek hext hwhole hcrc hout
    obtain ⟨hsize, hframe⟩ := wireFrame_of_verified hpeek hext hwhole hcrc
    have hmax : dec.payloadLen.toNat ≤ MAX_PAYLOAD := (fgwSegmentPeekHeader_eq_header.1 hpeek).2.2.2.2
    have hlen : ((inp.drop n).take dec.payloadLen.toNat).length = dec.payloadLen.toNat := by
      rw [List.length_take, List.length_drop]
      omega
    have henc := fgwSegmentEncode_eq out dec ((inp.drop n).take dec.payloadLen.toNat)
      (by omega) (by omega)
    rw [hlen, hsize, hframe] at henc
    refine ⟨_, henc, List.take_left' ?_⟩
    rw [List.length_take]
    omega

theorem fgwSegment_round_trip_routed :
    let hdr : FgwSegmentHeader :=
      { flags := FLAG_DATA ||| FLAG_HDR_ROUTE, sessionId := 5#32, seqNum := 9#32,
        ingressId := 7#32, outportId := 3#32 }
    (∃ total buf dec,
      fgwSegmentEncode (some (List.replicate 30 0#8)) hdr (some [1#8, 2#8, 3#8]) 3 =
          .ok (total, buf) ∧
        fgwSegmentPeekHeader (buf.take total ++ [0#8]) (buf.take total ++ [0#8]).length =
          .header 24 dec ∧
        fgwSegmentVerifyCrc (buf.take total ++ [0#8]) dec 24 = true) ∧
    ∃ buf,
      fgwSegmentEncode (some (List.replicate 27 0#8)) (wireDecoded hdr [1#8, 2#8, 3#8])
          (some [1#8, 2#8, 3#8]) 3 = .ok (27, buf) ∧
        buf.take 27 = wireFrame hdr [1#8, 2#8, 3#8] := by
  intro hdr
  have hroute : hdr.isHdrRoute = true := by decide
  have hsize : wireHeaderSize hdr = 24 := by decide
  have hlen : (wireFrame hdr [1#8, 2#8, 3#8]).length = 27 := by rw [length_wireFrame, hsize]; rfl
  obtain ⟨total, buf, dec, henc, -, hpeek, -, -, -, -, -, -, -, hcrc⟩ :=
    fgwSegment_round_trip.1 hdr (some [1#8, 2#8, 3#8]) (List.replicate 30 0#8) [0#8]
      (by decide) (by decide)
  rw [if_pos hroute] at hpeek hcrc
  refine ⟨⟨total, buf, dec, henc, hpeek, hcrc⟩, ?_⟩
  have hin : (wireHeaderSize hdr : Int) ≤ (wireFrame hdr [1#8, 2#8, 3#8]).length := by
    rw [hlen, hsize]
    decide
  have hpeek := fgwSegmentPeekHeader_wireFrame hdr [1#8, 2#8, 3#8] [] (by decide) hin
  have hcrc := fgwSegmentVerifyCrc_wireFrame hdr [1#8, 2#8, 3#8] [] (by decide)
  rw [List.append_nil, hsize] at hpeek hcrc
  have hback := fgwSegment_round_trip.2 (wireFrame hdr [1#8, 2#8, 3#8]) 24 (wireDecoded hdr [1#8, 2#8, 3#8])
    (List.replicate 27 0#8) hpeek (isHdrExt_or_ext _) (by rw [hlen]; decide) hcrc (by decide)
  have hplen : (wireDecoded hdr [1#8, 2#8, 3#8]).payloadLen.toNat = 3 := rfl
  have hpay : ((wireFrame hdr [1#8, 2#8, 3#8]).drop 24).take 3 = [1#8, 2#8, 3#8] := by
    have h := wireFrame_drop_header hdr [1#8, 2#8, 3#8] []
    rwa [List.append_nil, hsize] at h
  rw [hplen, hpay] at hback
  obtain ⟨buf', henc', htake'⟩ := hback
  exact ⟨buf', henc', htake'.trans (List.take_of_length_le (Nat.le_of_eq hlen))⟩

end Libfgw
