import Libfgw.Lib.ReflectedCrc
import Libfgw.Segment.Wire

namespace Libfgw

open FgwSegmentHeader
open Lib.ReflectedCrc (Burst)

theorem crcRound_eq (c : ZceUint32) : crcRound c = Lib.ReflectedCrc.round kCrc32Poly c := by
  have hlow : (c &&& 1#32 != 0#32) = c.getLsbD 0 := by
    rw [BitVec.and_one_eq_setWidth_ofBool_getLsbD]
    cases c.getLsbD 0 <;> rfl
  rw [crcRound, Lib.ReflectedCrc.round, hlow]

theorem crcByte_eq : crcByte = Lib.ReflectedCrc.feed kCrc32Poly := by
  funext c b
  rw [Lib.ReflectedCrc.feed_eq, ← funext crcRound_eq]
  rfl

theorem fgwCrc32_ne {bs bs' : List ZceByte} (h : Burst 4 bs bs') : fgwCrc32 bs ≠ fgwCrc32 bs' := by
  intro hcrc
  simp only [fgwCrc32, crcByte_eq] at hcrc
  have hpoly : kCrc32Poly.msb = true := by decide
  exact h.foldl_feed_ne hpoly (Nat.le_refl 32) _ ((BitVec.xor_left_inj _).1 hcrc)

theorem length_le_writeAt (out bytes : List ZceByte) (off : Nat) :
    out.length ≤ (writeAt out off bytes).length := by
  simp only [writeAt, List.length_append, List.length_take, List.length_drop]
  omega

theorem writeAt_extend (out bytes : List ZceByte) {off n : Nat} (h : bytes.length ≤ n)
    (hout : off + n ≤ out.length) :
    ∃ q, q.length = n ∧ writeAt out off bytes = writeAt out off q := by
  have hlen : (bytes ++ (out.drop (off + bytes.length)).take (n - bytes.length)).length = n := by
    rw [List.length_append, List.length_take, List.length_drop]
    omega
  have hdrop : out.drop (off + n) = (out.drop (off + bytes.length)).drop (n - bytes.length) := by
    rw [List.drop_drop]
    congr 1
    omega
  refine ⟨_, hlen, ?_⟩
  rw [writeAt, writeAt, hlen, hdrop]
  simp only [List.append_assoc, List.take_append_drop]

theorem fgwSegmentEncode_body {out : List ZceByte} {hdr : FgwSegmentHeader} {n : Nat}
    (hmax : n ≤ MAX_PAYLOAD) (hout : wireHeaderSize hdr + n ≤ out.length) :
    ∃ o, out.length ≤ o.length ∧ ∀ payload : Option (List ZceByte),
      fgwSegmentEncode (some out) hdr payload n =
        (let body := match payload with
          | some p => writeAt o (wireHeaderSize hdr) (p.take n)
          | none => o
        .ok (wireHeaderSize hdr + n, writeAt body (wireHeaderSize hdr - 4)
          (packBe32 (fgwCrc32 (body.take (wireHeaderSize hdr + n)))))) := by
  have hrange : ¬ ((n : Int) < 0 ∨ (n : Int) > MAX_PAYLOAD) := by omega
  let front := writeAt (writeAt (writeAt (writeAt (writeAt out 0 [MAGIC, hdr.flags ||| FLAG_HDR_EXT])
    2 (packBe16 (BitVec.ofNat 16 n))) 4 (packBe32 hdr.sessionId)) 8 (packBe32 hdr.seqNum))
    12 (packBe32 hdr.ingressId)
  have hfront : out.length ≤ front.length := by
    repeat refine Nat.le_trans ?_ (length_le_writeAt _ _ _)
    exact Nat.le_refl _
  cases hr : hdr.isHdrRoute with
  | true =>
    have hflag : (hdr.flags &&& FLAG_HDR_ROUTE != 0#8) = true := hr
    simp only [wireHeaderSize, hr, if_true] at hout ⊢
    refine ⟨writeAt (writeAt front 16 (packBe32 hdr.outportId)) 20 (packBe32 0#32), ?_, ?_⟩
    · exact hfront.trans ((length_le_writeAt _ _ _).trans (length_le_writeAt _ _ _))
    · intro payload
      simp only [fgwSegmentEncode, hrange, if_false, hflag, if_true, Int.toNat_natCast,
        Nat.not_lt.2 hout]
      rfl
  | false =>
    have hflag : (hdr.flags &&& FLAG_HDR_ROUTE != 0#8) = false := hr
    simp only [wireHeaderSize, hr, Bool.false_eq_true, if_false] at hout ⊢
    refine ⟨writeAt front 16 (packBe32 0#32), ?_, ?_⟩
    · exact hfront.trans (length_le_writeAt _ _ _)
    · intro payload
      simp only [fgwSegmentEncode, hrange, if_false, hflag, Bool.false_eq_true, Int.toNat_natCast,
        Nat.not_lt.2 hout]
      rfl

theorem fgwSegmentEncode_ok {out : List ZceByte} {hdr : FgwSegmentHeader}
    {payload : Option (List ZceByte)} {payloadLen : Int} {total : Nat} {buf : List ZceByte}
    (h : fgwSegmentEncode (some out) hdr payload payloadLen = .ok (total, buf)) :
    ∃ q, (q.length : Int) = payloadLen ∧ q.length ≤ MAX_PAYLOAD ∧
      total = wireHeaderSize hdr + q.length ∧ buf.take total = wireFrame hdr q := by
  have hrange : ¬ (payloadLen < 0 ∨ payloadLen > MAX_PAYLOAD) := by
    intro hbad
    simp [fgwSegmentEncode, hbad] at h
  obtain ⟨n, rfl⟩ := Int.eq_ofNat_of_zero_le (Int.not_lt.1 (not_or.1 hrange).1)
  have hmax : n ≤ MAX_PAYLOAD := by omega
  have hout : wireHeaderSize hdr + n ≤ out.length := by
    by_contra hlt
    have hlt' : out.length < wireHeaderSize hdr + n := Nat.lt_of_not_le hlt
    simp only [fgwSegmentEncode, if_neg hrange, Int.toNat_natCast] at h
    change (if out.length < wireHeaderSize hdr + n then _ else _) = _ at h
    rw [if_pos hlt'] at h
    cases h
  obtain ⟨q, hq, henc⟩ : ∃ q, q.length = n ∧
      fgwSegmentEncode (some out) hdr payload n = fgwSegmentEncode (some out) hdr (some q) n := by
    obtain ⟨o, ho, heq⟩ := fgwSegmentEncode_body hmax hout
    have hroom : wireHeaderSize hdr + n ≤ o.length := Nat.le_trans hout ho
    cases payload with
    | none =>
      obtain ⟨q, hq, hwrite⟩ := writeAt_extend o [] (Nat.zero_le n) hroom
      refine ⟨q, hq, ?_⟩
      rw [writeAt_nil] at hwrite
      rw [heq, heq]
      simp only
      rw [List.take_of_length_le (Nat.le_of_eq hq), ← hwrite]
    | some p =>
      obtain ⟨q, hq, hwrite⟩ := writeAt_extend o (p.take n) (List.length_take_le n p) hroom
      refine ⟨q, hq, ?_⟩
      rw [heq, heq]
      simp only
      rw [List.take_of_length_le (Nat.le_of_eq hq), ← hwrite]
  subst hq
  rw [henc, fgwSegmentEncode_eq out hdr q hmax hout] at h
  cases h
  exact ⟨q, rfl, hmax, rfl, List.take_left' (length_wireFrame hdr q)⟩

theorem byteAt_of_take {inp inp' : List ZceByte} {k i : Nat} (h : inp'.take k = inp.take k)
    (hi : i < k) : byteAt inp' i = byteAt inp i := by
  have hget : ∀ l : List ZceByte, byteAt l i = byteAt (l.take k) i := by
    intro l
    simp only [byteAt, List.getD_eq_getElem?_getD, List.getElem?_take, hi, if_true]
  rw [hget inp', h, ← hget]

theorem fgwSegmentPeekHeader_of_take {inp inp' : List ZceByte} (h : inp'.take 4 = inp.take 4)
    {inSize : Int} {n : Nat} {dec : FgwSegmentHeader}
    (hpeek : fgwSegmentPeekHeader inp inSize = .header n dec) :
    fgwSegmentPeekHeader inp' inSize = .header n (peekFields inp' n) ∧
      (peekFields inp' n).payloadLen = dec.payloadLen := by
  obtain ⟨hn, rfl, hsize, hmagic, hmax⟩ := fgwSegmentPeekHeader_eq_header.1 hpeek
  have hlen : unpackBe16 (inp'.drop 2) = unpackBe16 (inp.drop 2) := by
    have hdrop : ∀ (l : List ZceByte) (i : Nat), byteAt (l.drop 2) i = byteAt l (2 + i) := by
      intro l i
      simp only [byteAt, List.getD_eq_getElem?_getD, List.getElem?_drop]
    simp only [unpackBe16, hdrop, byteAt_of_take h (show 2 + 0 < 4 by decide),
      byteAt_of_take h (show 2 + 1 < 4 by decide)]
  refine ⟨fgwSegmentPeekHeader_eq_header.2 ⟨?_, rfl, hsize, ?_, ?_⟩, hlen⟩
  · rw [hn, byteAt_of_take h (by decide)]
  · rw [byteAt_of_take h (by decide), hmagic]
  · rw [show (peekFields inp' n).payloadLen = (peekFields inp n).payloadLen from hlen]
    exact hmax

theorem packBe32_eq_iff {crc : List ZceByte} (hcrc : crc.length = 4) (v : ZceUint32)
    (rest : List ZceByte) : v = unpackBe32 (crc ++ rest) ↔ packBe32 v = crc := by
  constructor
  · rintro rfl
    match crc, hcrc with
    | [a, b, c, d], _ => exact packBe32_unpackBe32 a b c d rest
  · rintro rfl
    exact (unpackBe32_packBe32 v rest).symm

theorem packBe32_injective : Function.Injective packBe32 := by
  intro v v' h
  rw [← unpackBe32_packBe32 v [], h, unpackBe32_packBe32]

theorem fgwSegmentVerifyCrc_parts {fields crc payload : List ZceByte} {n : Nat}
    (hn : n = LEGACY_HEADER_SIZE ∨ n = HEADER_SIZE ∨ n = ROUTED_HEADER_SIZE)
    (hfields : fields.length + 4 = n) (hcrc : crc.length = 4)
    (hpayload : (peekFields (fields ++ crc ++ payload) n).payloadLen.toNat = payload.length) :
    fgwSegmentVerifyCrc (fields ++ crc ++ payload) (peekFields (fields ++ crc ++ payload) n) n = true ↔
      packBe32 (fgwCrc32 (fields ++ packBe32 0#32 ++ payload)) = crc := by
  have hoff : n - 4 = fields.length := by omega
  have htake : (fields ++ crc ++ payload).take (n - 4) = fields := by
    rw [hoff, List.append_assoc, List.take_left]
  have hdrop : (fields ++ crc ++ payload).drop n = payload := by
    rw [List.drop_left']
    rw [List.length_append, hcrc, hfields]
  have hword : (peekFields (fields ++ crc ++ payload) n).crc32 = unpackBe32 (crc ++ payload) := by
    simp only [peekFields, hoff]
    rw [List.append_assoc, List.drop_left]
  rw [fgwSegmentVerifyCrc_iff hn, hpayload, htake, hdrop, List.take_length, hword]
  exact packBe32_eq_iff hcrc _ payload

theorem prefix_split {xs ys pre mid post : List ZceByte} (h : pre ++ mid ++ post = xs ++ ys)
    (hle : pre.length + mid.length ≤ xs.length) :
    ∃ post', xs = pre ++ mid ++ post' ∧ post = post' ++ ys := by
  obtain ⟨post', rfl⟩ := List.prefix_of_prefix_length_le (h ▸ List.prefix_append (pre ++ mid) post)
    (List.prefix_append xs ys) (by rwa [List.length_append])
  refine ⟨post', rfl, ?_⟩
  rw [List.append_assoc (pre ++ mid)] at h
  exact List.append_cancel_left h

theorem suffix_split {xs ys pre mid post : List ZceByte} (h : pre ++ mid ++ post = xs ++ ys)
    (hle : xs.length ≤ pre.length) : ∃ pre', pre = xs ++ pre' ∧ ys = pre' ++ mid ++ post := by
  rw [List.append_assoc] at h
  obtain ⟨pre', rfl⟩ := List.prefix_of_prefix_length_le (List.prefix_append xs ys)
    (h ▸ List.prefix_append pre (mid ++ post)) hle
  refine ⟨pre', rfl, ?_⟩
  rw [List.append_assoc] at h ⊢
  exact (List.append_cancel_left h).symm

/-- A stretch of a frame of `total` bytes that lies in the fields between the length and the CRC,
in the CRC, or in the payload. -/
def OnePlace (headerSize total off len : Nat) : Prop :=
  (4 ≤ off ∧ off + len ≤ headerSize - 4) ∨ (headerSize - 4 ≤ off ∧ off + len ≤ headerSize) ∨
    (headerSize ≤ off ∧ off + len ≤ total)

theorem altered_parts {fields crc payload pre mid mid' post : List ZceByte}
    (hsplit : pre ++ mid ++ post = fields ++ crc ++ payload) (hcrc : crc.length = 4)
    (hlen : mid.length = mid'.length) (hshort : mid.length ≤ 4) (hne : mid ≠ mid')
    (hplace : OnePlace (fields.length + 4) (fields.length + 4 + payload.length) pre.length mid.length) :
    ∃ fields' crc' payload', pre ++ mid' ++ post = fields' ++ crc' ++ payload' ∧
      fields'.length = fields.length ∧ crc'.length = 4 ∧ payload'.length = payload.length ∧
      fields'.take 4 = fields.take 4 ∧
      ((crc' = crc ∧
          Burst 4 (fields ++ packBe32 0#32 ++ payload) (fields' ++ packBe32 0#32 ++ payload')) ∨
        (fields' = fields ∧ payload' = payload ∧ crc' ≠ crc)) := by
  have hburst : ∀ a b : List ZceByte, Burst 4 (a ++ mid ++ b) (a ++ mid' ++ b) :=
    fun a b => ⟨a, mid, mid', b, rfl, rfl, hlen, hshort, hne⟩
  rcases hplace with ⟨hfour, hend⟩ | ⟨hstart, hend⟩ | ⟨hstart, -⟩
  · rw [List.append_assoc fields] at hsplit
    obtain ⟨post', rfl, rfl⟩ := prefix_split hsplit (by omega)
    refine ⟨pre ++ mid' ++ post', crc, payload, ?_, ?_, hcrc, rfl, ?_, Or.inl ⟨rfl, ?_⟩⟩
    · simp only [List.append_assoc]
    · simp only [List.length_append, hlen]
    · rw [List.append_assoc, List.append_assoc pre, List.take_append_of_le_length hfour,
        List.take_append_of_le_length hfour]
    · rw [List.append_assoc, List.append_assoc _ (packBe32 _)]
      exact (hburst pre post').append [] (packBe32 0#32 ++ payload)
  · rw [List.append_assoc fields] at hsplit
    obtain ⟨pre', rfl, hrest⟩ := suffix_split hsplit (by omega)
    rw [List.length_append] at hend
    obtain ⟨post', rfl, rfl⟩ := prefix_split hrest.symm (by omega)
    refine ⟨fields, pre' ++ mid' ++ post', payload, ?_, rfl, ?_, rfl, rfl, Or.inr ⟨rfl, rfl, ?_⟩⟩
    · simp only [List.append_assoc]
    · simpa only [List.length_append, hlen] using hcrc
    · intro heq
      exact hne (List.append_cancel_left (List.append_cancel_right heq)).symm
  · obtain ⟨pre', rfl, rfl⟩ := suffix_split hsplit (by rw [List.length_append, hcrc]; exact hstart)
    refine ⟨fields, crc, pre' ++ mid' ++ post, ?_, rfl, hcrc, ?_, rfl, Or.inl ⟨rfl, ?_⟩⟩
    · simp only [List.append_assoc]
    · simp only [List.length_append, hlen]
    · have h := (hburst pre' post).append (fields ++ packBe32 0#32) []
      simpa only [List.append_nil] using h

/-- An encoded frame altered within four bytes of one place still announces its header and its
length, and does not pass the check. -/
theorem fgwSegmentVerifyCrc_altered {out : List ZceByte} {hdr : FgwSegmentHeader}
    {payload : Option (List ZceByte)} {payloadLen : Int} {total : Nat} {buf : List ZceByte}
    (henc : fgwSegmentEncode (some out) hdr payload payloadLen = .ok (total, buf))
    {pre mid mid' post : List ZceByte} (hframe : buf.take total = pre ++ mid ++ post)
    (hlen : mid.length = mid'.length) (hshort : mid.length ≤ 4) (hne : mid ≠ mid')
    (hplace : OnePlace (if hdr.isHdrRoute then 24 else 20) total pre.length mid.length) :
    ∃ n dec dec',
      fgwSegmentPeekHeader (buf.take total) total = .header n dec ∧
      fgwSegmentPeekHeader (pre ++ mid' ++ post) total = .header n dec' ∧
      n = (if hdr.isHdrRoute then 24 else 20) ∧
      (dec.payloadLen.toNat : Int) = payloadLen ∧ dec'.payloadLen = dec.payloadLen ∧
      fgwSegmentVerifyCrc (buf.take total) dec n = true ∧
      fgwSegmentVerifyCrc (pre ++ mid' ++ post) dec' n = false := by
  obtain ⟨q, rfl, hmax, rfl, hwire⟩ := fgwSegmentEncode_ok henc
  have hsize : (if hdr.isHdrRoute then 24 else 20) = wireHeaderSize hdr := rfl
  have hfields := length_wireFields hdr q.length
  have hin : (wireHeaderSize hdr : Int) ≤ (wireHeaderSize hdr + q.length : Nat) := by omega
  have hpeek := fgwSegmentPeekHeader_wireFrame hdr q [] hmax hin
  have hverify := fgwSegmentVerifyCrc_wireFrame hdr q [] hmax
  rw [List.append_nil] at hpeek hverify
  have hplen : (wireDecoded hdr q).payloadLen.toNat = q.length := by
    simp only [wireDecoded, BitVec.toNat_ofNat, MAX_PAYLOAD] at hmax ⊢
    omega
  rw [hsize, ← hfields] at hplace
  obtain ⟨fields', crc', payload', halt, hf, hc, hp, htake, hcover⟩ :=
    altered_parts (hframe.symm.trans hwire) (length_packBe32 _) hlen hshort hne hplace
  have hwide : 4 ≤ (wireFields hdr q.length).length := by
    rw [wireHeaderSize] at hfields
    split at hfields <;> simp only [ROUTED_HEADER_SIZE, HEADER_SIZE] at hfields <;> omega
  have hfour : (fields' ++ crc' ++ payload').take 4 = (wireFrame hdr q).take 4 := by
    rw [wireFrame, List.append_assoc, List.append_assoc,
      List.take_append_of_le_length (by omega), htake, List.take_append_of_le_length hwide]
  obtain ⟨hpeek', hplen'⟩ := fgwSegmentPeekHeader_of_take hfour hpeek
  rw [hwire, halt]
  refine ⟨_, _, _, hpeek, hpeek', rfl, by rw [hplen], hplen', hverify, ?_⟩
  rw [Bool.eq_false_iff]
  intro hgood
  have hn : wireHeaderSize hdr = LEGACY_HEADER_SIZE ∨ wireHeaderSize hdr = HEADER_SIZE ∨
      wireHeaderSize hdr = ROUTED_HEADER_SIZE := by
    unfold wireHeaderSize
    split <;> simp
  rw [fgwSegmentVerifyCrc_parts hn (by rw [hf, hfields]) hc (by rw [hplen', hplen, hp])] at hgood
  rcases hcover with ⟨rfl, hburst⟩ | ⟨rfl, rfl, hcrc⟩
  · exact fgwCrc32_ne hburst (packBe32_injective hgood).symm
  · exact hcrc hgood.symm

theorem fgwSegmentVerifyCrc_altered_session :
    let hdr : FgwSegmentHeader := { flags := FLAG_DATA, sessionId := 5#32, seqNum := 9#32 }
    let alt := (wireFrame hdr [1#8, 2#8]).take 4 ++ packBe32 6#32 ++
      (wireFrame hdr [1#8, 2#8]).drop 8
    ∃ n dec,
      fgwSegmentPeekHeader alt 22 = .header n dec ∧ fgwSegmentVerifyCrc alt dec n = false := by
  intro hdr alt
  have hsize : wireHeaderSize hdr + [1#8, 2#8].length = 22 := by decide
  have henc := fgwSegmentEncode_eq (List.replicate 22 0#8) hdr [1#8, 2#8] (by decide) (by decide)
  rw [hsize] at henc
  have hframe : wireFrame hdr [1#8, 2#8] =
      (wireFrame hdr [1#8, 2#8]).take 4 ++ packBe32 5#32 ++ (wireFrame hdr [1#8, 2#8]).drop 8 := by
    rw [wireFrame]
    rfl
  have hsplit : (wireFrame hdr [1#8, 2#8] ++ (List.replicate 22 0#8).drop 22).take 22 =
      (wireFrame hdr [1#8, 2#8]).take 4 ++ packBe32 5#32 ++ (wireFrame hdr [1#8, 2#8]).drop 8 :=
    (List.take_left' ((length_wireFrame hdr _).trans hsize)).trans hframe
  obtain ⟨n, dec, dec', -, hpeek, -, -, -, -, hbad⟩ :=
    fgwSegmentVerifyCrc_altered henc hsplit (show _ = (packBe32 6#32).length from rfl) (by decide)
      (by decide) (Or.inl ⟨Nat.le_refl 4, by decide⟩)
  exact ⟨n, dec', hpeek, hbad⟩

end Libfgw
