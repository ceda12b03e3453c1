import Libfgw.Segment.Codec

namespace Libfgw

open FgwSegmentHeader

def wireFields (hdr : FgwSegmentHeader) (payloadLen : Nat) : List ZceByte :=
  [MAGIC, hdr.flags ||| FLAG_HDR_EXT] ++ packBe16 (BitVec.ofNat 16 payloadLen) ++
    packBe32 hdr.sessionId ++ packBe32 hdr.seqNum ++ packBe32 hdr.ingressId ++
    (if hdr.isHdrRoute then packBe32 hdr.outportId else [])

def wireCrc (hdr : FgwSegmentHeader) (payload : List ZceByte) : ZceUint32 :=
  fgwCrc32 (wireFields hdr payload.length ++ packBe32 0#32 ++ payload)

def wireFrame (hdr : FgwSegmentHeader) (payload : List ZceByte) : List ZceByte :=
  wireFields hdr payload.length ++ packBe32 (wireCrc hdr payload) ++ payload

def wireHeaderSize (hdr : FgwSegmentHeader) : Nat :=
  if hdr.isHdrRoute then ROUTED_HEADER_SIZE else HEADER_SIZE

theorem length_wireFields (hdr : FgwSegmentHeader) (n : Nat) :
    (wireFields hdr n).length + 4 = wireHeaderSize hdr := by
  unfold wireFields wireHeaderSize
  split <;> rfl

@[simp] theorem length_wireFrame (hdr : FgwSegmentHeader) (payload : List ZceByte) :
    (wireFrame hdr payload).length = wireHeaderSize hdr + payload.length := by
  simp [wireFrame, ← length_wireFields hdr payload.length, Nat.add_assoc]

theorem writeAt_crc (fields payload out : List ZceByte) {n : Nat} (hn : fields.length = n) :
    let body := writeAt (writeAt (fields ++ out.drop n) n (packBe32 0#32)) (n + 4) payload
    writeAt body n (packBe32 (fgwCrc32 (body.take (n + 4 + payload.length)))) =
      fields ++ packBe32 (fgwCrc32 (fields ++ packBe32 0#32 ++ payload)) ++ payload ++
        out.drop (n + 4 + payload.length) := by
  intro body
  have hbody : body = fields ++ packBe32 0#32 ++ payload ++ out.drop (n + 4 + payload.length) := by
    simp only [body]
    rw [writeAt_next fields out _ hn rfl, length_packBe32,
      writeAt_next _ out payload (by simp [hn]) rfl]
  have htake : body.take (n + 4 + payload.length) = fields ++ packBe32 0#32 ++ payload := by
    rw [hbody, List.take_left' (by simp [hn, Nat.add_assoc])]
  rw [htake, hbody, List.append_assoc _ payload, writeAt_over fields (packBe32 0#32) _ _ hn (by rfl)]
  simp only [List.append_assoc]

theorem wireFields_routed {hdr : FgwSegmentHeader} (hr : hdr.isHdrRoute = true) (n : Nat) :
    wireFields hdr n = [MAGIC, hdr.flags ||| FLAG_HDR_EXT] ++ packBe16 (BitVec.ofNat 16 n) ++
      packBe32 hdr.sessionId ++ packBe32 hdr.seqNum ++ packBe32 hdr.ingressId ++
      packBe32 hdr.outportId := by
  rw [wireFields, if_pos hr]

theorem wireFields_extended {hdr : FgwSegmentHeader} (hr : hdr.isHdrRoute = false) (n : Nat) :
    wireFields hdr n = [MAGIC, hdr.flags ||| FLAG_HDR_EXT] ++ packBe16 (BitVec.ofNat 16 n) ++
      packBe32 hdr.sessionId ++ packBe32 hdr.seqNum ++ packBe32 hdr.ingressId := by
  rw [wireFields, hr, if_neg Bool.false_ne_true, List.append_nil]

theorem fgwSegmentEncode_eq (out : List ZceByte) (hdr : FgwSegmentHeader)
    (payload : List ZceByte) (hlen : payload.length ≤ MAX_PAYLOAD)
    (hout : wireHeaderSize hdr + payload.length ≤ out.length) :
    fgwSegmentEncode (some out) hdr (some payload) payload.length =
      .ok (wireHeaderSize hdr + payload.length,
        wireFrame hdr payload ++ out.drop (wireHeaderSize hdr + payload.length)) := by
  have hneg : ¬ ((payload.length : Int) < 0 ∨ (payload.length : Int) > MAX_PAYLOAD) := by omega
  cases hr : hdr.isHdrRoute with
  | true =>
    have hflag : (hdr.flags &&& FLAG_HDR_ROUTE != 0#8) = true := hr
    have hf := wireFields_routed hr payload.length
    simp only [wireHeaderSize, hr, if_true] at hout ⊢
    simp only [fgwSegmentEncode, hneg, if_false, hflag, if_true, Int.toNat_natCast,
      Nat.not_lt.2 hout, List.take_length]
    rw [writeAt_front out _ (m := 2) (by rfl), writeAt_next _ out _ (n := 2) (m := 4) (by rfl) (by rfl),
      writeAt_next _ out _ (n := 4) (m := 8) (by rfl) (by rfl),
      writeAt_next _ out _ (n := 8) (m := 12) (by rfl) (by rfl),
      writeAt_next _ out _ (n := 12) (m := 16) (by rfl) (by rfl),
      writeAt_next _ out _ (n := 16) (m := 20) (by rfl) (by rfl), ← hf]
    exact congrArg (fun b => Except.ok (_, b)) (writeAt_crc _ payload out (by rw [hf]; rfl))
  | false =>
    have hflag : (hdr.flags &&& FLAG_HDR_ROUTE != 0#8) = false := hr
    have hf := wireFields_extended hr payload.length
    simp only [wireHeaderSize, hr, Bool.false_eq_true, if_false] at hout ⊢
    simp only [fgwSegmentEncode, hneg, if_false, hflag, Bool.false_eq_true, Int.toNat_natCast,
      Nat.not_lt.2 hout, List.take_length]
    rw [writeAt_front out _ (m := 2) (by rfl), writeAt_next _ out _ (n := 2) (m := 4) (by rfl) (by rfl),
      writeAt_next _ out _ (n := 4) (m := 8) (by rfl) (by rfl),
      writeAt_next _ out _ (n := 8) (m := 12) (by rfl) (by rfl),
      writeAt_next _ out _ (n := 12) (m := 16) (by rfl) (by rfl), ← hf]
    exact congrArg (fun b => Except.ok (_, b)) (writeAt_crc _ payload out (by rw [hf]; rfl))

theorem fgwSegmentEncode_null (out : List ZceByte) (hdr : FgwSegmentHeader) :
    fgwSegmentEncode (some out) hdr none 0 = fgwSegmentEncode (some out) hdr (some []) 0 := by
  simp only [fgwSegmentEncode, List.take_nil, writeAt_nil]

def wireDecoded (hdr : FgwSegmentHeader) (payload : List ZceByte) : FgwSegmentHeader :=
  { magic := MAGIC
    flags := hdr.flags ||| FLAG_HDR_EXT
    payloadLen := BitVec.ofNat 16 payload.length
    sessionId := hdr.sessionId
    seqNum := hdr.seqNum
    ingressId := hdr.ingressId
    outportId := if hdr.isHdrRoute then hdr.outportId else 0#32
    crc32 := wireCrc hdr payload }

theorem isHdrRoute_or_ext (f : ZceByte) :
    ((f ||| FLAG_HDR_EXT) &&& FLAG_HDR_ROUTE != 0#8) = (f &&& FLAG_HDR_ROUTE != 0#8) := by
  have h : (f ||| FLAG_HDR_EXT) &&& FLAG_HDR_ROUTE = f &&& FLAG_HDR_ROUTE := by
    rw [BitVec.and_comm, BitVec.and_or_distrib_left]
    simp [FLAG_HDR_EXT, FLAG_HDR_ROUTE, BitVec.and_comm]
  rw [h]

theorem isHdrExt_or_ext (f : ZceByte) : ((f ||| FLAG_HDR_EXT) &&& FLAG_HDR_EXT != 0#8) = true := by
  have h : (f ||| FLAG_HDR_EXT) &&& FLAG_HDR_EXT = FLAG_HDR_EXT := by
    apply BitVec.eq_of_getLsbD_eq
    intro i hi
    simp only [BitVec.getLsbD_and, BitVec.getLsbD_or]
    cases f.getLsbD i <;> simp
  rw [h]
  rfl

theorem fgwSegmentPeekHeader_wireFrame (hdr : FgwSegmentHeader) (payload rest : List ZceByte)
    (hlen : payload.length ≤ MAX_PAYLOAD) {inSize : Int} (hin : wireHeaderSize hdr ≤ inSize) :
    fgwSegmentPeekHeader (wireFrame hdr payload ++ rest) inSize =
      .header (wireHeaderSize hdr) (wireDecoded hdr payload) := by
  have hplen : (BitVec.ofNat 16 payload.length).toNat = payload.length := by
    rw [BitVec.toNat_ofNat, Nat.mod_eq_of_lt]
    simp only [MAX_PAYLOAD] at hlen
    omega
  have hmagic : byteAt (wireFrame hdr payload ++ rest) 0 = MAGIC := rfl
  have hflags : byteAt (wireFrame hdr payload ++ rest) 1 = hdr.flags ||| FLAG_HDR_EXT := rfl
  have hlen' : unpackBe16 ((wireFrame hdr payload ++ rest).drop 2) =
      BitVec.ofNat 16 payload.length := by
    rw [wireFrame, wireFields]
    exact unpackBe16_packBe16 _ _
  have hsid : unpackBe32 ((wireFrame hdr payload ++ rest).drop 4) = hdr.sessionId := by
    rw [wireFrame, wireFields]
    exact unpackBe32_packBe32 _ _
  have hseq : unpackBe32 ((wireFrame hdr payload ++ rest).drop 8) = hdr.seqNum := by
    rw [wireFrame, wireFields]
    exact unpackBe32_packBe32 _ _
  have hing : unpackBe32 ((wireFrame hdr payload ++ rest).drop 12) = hdr.ingressId := by
    rw [wireFrame, wireFields]
    exact unpackBe32_packBe32 _ _
  have hmax : ¬ (BitVec.ofNat 16 payload.length).toNat > MAX_PAYLOAD := by omega
  cases hr : hdr.isHdrRoute with
  | true =>
    have hflag : (hdr.flags &&& FLAG_HDR_ROUTE != 0#8) = true := hr
    have hout : unpackBe32 ((wireFrame hdr payload ++ rest).drop 16) = hdr.outportId := by
      rw [wireFrame, wireFields_routed hr]
      exact unpackBe32_packBe32 _ _
    have hcrc : unpackBe32 ((wireFrame hdr payload ++ rest).drop 20) = wireCrc hdr payload := by
      rw [wireFrame, wireFields_routed hr]
      exact unpackBe32_packBe32 _ _
    simp only [wireHeaderSize, hr, if_true] at hin ⊢
    have h16 : ¬ inSize < LEGACY_HEADER_SIZE := by
      simp only [ROUTED_HEADER_SIZE, LEGACY_HEADER_SIZE] at *
      omega
    simp only [fgwSegmentPeekHeader, h16, if_false, hmagic, hflags, hlen', hsid, hseq, hing, hout, hcrc, ne_eq,
      not_true_eq_false, hmax, isHdrRoute, isHdrRoute_or_ext, hflag, if_true, Int.not_lt.2 hin, wireDecoded]
  | false =>
    have hflag : (hdr.flags &&& FLAG_HDR_ROUTE != 0#8) = false := hr
    have hcrc : unpackBe32 ((wireFrame hdr payload ++ rest).drop 16) = wireCrc hdr payload := by
      rw [wireFrame, wireFields_extended hr]
      exact unpackBe32_packBe32 _ _
    simp only [wireHeaderSize, hr, Bool.false_eq_true, if_false] at hin ⊢
    have h16 : ¬ inSize < LEGACY_HEADER_SIZE := by
      simp only [HEADER_SIZE, LEGACY_HEADER_SIZE] at *
      omega
    simp only [fgwSegmentPeekHeader, h16, if_false, hmagic, hflags, hlen', hsid, hseq, hing, hcrc, ne_eq,
      not_true_eq_false, hmax, isHdrRoute, isHdrRoute_or_ext, hflag, isHdrExt, isHdrExt_or_ext, if_true,
      Int.not_lt.2 hin, wireDecoded, Bool.false_eq_true]


theorem crcOk_iff (inp : List ZceByte) (n m : Nat) (crc : ZceUint32) :
    crcOk inp n m crc = true ↔
      fgwCrc32 (inp.take (n - 4) ++ packBe32 0#32 ++ (inp.drop n).take m) = crc := by
  have hz : packBe32 0#32 = List.replicate 4 0#8 := by decide
  simp only [crcOk, fgwCrc32, beq_iff_eq, List.foldl_append, hz, BitVec.zero_xor]

theorem fgwSegmentVerifyCrc_iff {inp : List ZceByte} {hdr : FgwSegmentHeader} {n : Nat}
    (hn : n = LEGACY_HEADER_SIZE ∨ n = HEADER_SIZE ∨ n = ROUTED_HEADER_SIZE) :
    fgwSegmentVerifyCrc inp hdr n = true ↔
      fgwCrc32 (inp.take (n - 4) ++ packBe32 0#32 ++
        (inp.drop n).take hdr.payloadLen.toNat) = hdr.crc32 := by
  have h : ¬ (n ≠ LEGACY_HEADER_SIZE ∧ n ≠ HEADER_SIZE ∧ n ≠ ROUTED_HEADER_SIZE) := by
    rintro ⟨h16, h20, h24⟩
    rcases hn with h | h | h
    · exact h16 h
    · exact h20 h
    · exact h24 h
  rw [fgwSegmentVerifyCrc, if_neg h, crcOk_iff]

theorem wireFrame_drop_header (hdr : FgwSegmentHeader) (payload rest : List ZceByte) :
    ((wireFrame hdr payload ++ rest).drop (wireHeaderSize hdr)).take payload.length = payload := by
  rw [wireFrame, List.append_assoc, List.drop_left', List.take_left]
  simp [← length_wireFields hdr payload.length]

theorem fgwSegmentVerifyCrc_wireFrame (hdr : FgwSegmentHeader) (payload rest : List ZceByte)
    (hlen : payload.length ≤ MAX_PAYLOAD) :
    fgwSegmentVerifyCrc (wireFrame hdr payload ++ rest) (wireDecoded hdr payload)
      (wireHeaderSize hdr) = true := by
  have hn : wireHeaderSize hdr = LEGACY_HEADER_SIZE ∨ wireHeaderSize hdr = HEADER_SIZE ∨
      wireHeaderSize hdr = ROUTED_HEADER_SIZE := by
    unfold wireHeaderSize
    split <;> simp
  have hplen : (wireDecoded hdr payload).payloadLen.toNat = payload.length := by
    simp only [wireDecoded, BitVec.toNat_ofNat, MAX_PAYLOAD] at hlen ⊢
    omega
  have htake : (wireFrame hdr payload ++ rest).take (wireHeaderSize hdr - 4) =
      wireFields hdr payload.length := by
    rw [wireFrame, List.append_assoc, List.append_assoc, List.take_left']
    have := length_wireFields hdr payload.length
    omega
  rw [fgwSegmentVerifyCrc_iff hn, hplen, wireFrame_drop_header, htake]
  rfl



def flagsSize (flags : ZceByte) : Nat :=
  if flags &&& FLAG_HDR_ROUTE != 0#8 then ROUTED_HEADER_SIZE
  else if flags &&& FLAG_HDR_EXT != 0#8 then HEADER_SIZE
  else LEGACY_HEADER_SIZE

def peekFields (inp : List ZceByte) (size : Nat) : FgwSegmentHeader :=
  { magic := byteAt inp 0
    flags := byteAt inp 1
    payloadLen := unpackBe16 (inp.drop 2)
    sessionId := unpackBe32 (inp.drop 4)
    seqNum := unpackBe32 (inp.drop 8)
    ingressId := if size = LEGACY_HEADER_SIZE then 0#32 else unpackBe32 (inp.drop 12)
    outportId := if size = ROUTED_HEADER_SIZE then unpackBe32 (inp.drop 16) else 0#32
    crc32 := unpackBe32 (inp.drop (size - 4)) }

theorem flagsSize_cases (flags : ZceByte) :
    flagsSize flags = LEGACY_HEADER_SIZE ∨ flagsSize flags = HEADER_SIZE ∨
      flagsSize flags = ROUTED_HEADER_SIZE := by
  unfold flagsSize
  split
  · simp
  · split <;> simp

theorem legacy_le_flagsSize (flags : ZceByte) : 16 ≤ flagsSize flags := by
  rcases flagsSize_cases flags with h | h | h <;> rw [h] <;> decide

theorem flagsSize_le_routed (flags : ZceByte) : flagsSize flags ≤ 24 := by
  rcases flagsSize_cases flags with h | h | h <;> rw [h] <;> decide

theorem fgwSegmentPeekHeader_eq (inp : List ZceByte) (inSize : Int) :
    fgwSegmentPeekHeader inp inSize =
      if inSize < LEGACY_HEADER_SIZE then .needMore
      else if byteAt inp 0 ≠ MAGIC ∨ (unpackBe16 (inp.drop 2)).toNat > MAX_PAYLOAD then .badSegment
      else if inSize < flagsSize (byteAt inp 1) then .needMore
      else .header (flagsSize (byteAt inp 1)) (peekFields inp (flagsSize (byteAt inp 1))) := by
  unfold fgwSegmentPeekHeader
  by_cases h16 : inSize < LEGACY_HEADER_SIZE
  · rw [if_pos h16, if_pos h16]
  rw [if_neg h16, if_neg h16]
  by_cases hmagic : byteAt inp 0 = MAGIC
  swap
  · rw [if_pos hmagic, if_pos (Or.inl hmagic)]
  by_cases hlen : (unpackBe16 (inp.drop 2)).toNat > MAX_PAYLOAD
  · rw [if_neg (not_not.2 hmagic), if_pos (Or.inr hlen)]
    exact if_pos hlen
  rw [if_neg (not_not.2 hmagic), if_neg (not_or.2 ⟨not_not.2 hmagic, hlen⟩)]
  simp only [hlen, isHdrRoute, isHdrExt, flagsSize]
  by_cases hr : (byteAt inp 1 &&& FLAG_HDR_ROUTE != 0#8) = true
  · simp only [hr, if_true]
    rfl
  by_cases he : (byteAt inp 1 &&& FLAG_HDR_EXT != 0#8) = true
  · simp only [hr, he, if_true, Bool.false_eq_true, if_false]
    rfl
  · have h16' : ¬ inSize < 16 := h16
    simp [hr, he, h16', peekFields, ROUTED_HEADER_SIZE, LEGACY_HEADER_SIZE]

theorem fgwSegmentPeekHeader_eq_header {inp : List ZceByte} {inSize : Int} {n : Nat}
    {hdr : FgwSegmentHeader} :
    fgwSegmentPeekHeader inp inSize = .header n hdr ↔
      n = flagsSize (byteAt inp 1) ∧ hdr = peekFields inp n ∧ (n : Int) ≤ inSize ∧
        byteAt inp 0 = MAGIC ∧ hdr.payloadLen.toNat ≤ MAX_PAYLOAD := by
  rw [fgwSegmentPeekHeader_eq]
  constructor
  · intro h
    split at h
    · exact absurd h (by simp)
    split at h
    · exact absurd h (by simp)
    rename_i hgood
    split at h
    · exact absurd h (by simp)
    rename_i hsize
    injection h with h1 h2
    subst h1 h2
    obtain ⟨hmagic, hlen⟩ := not_or.1 hgood
    exact ⟨rfl, rfl, Int.not_lt.1 hsize, not_not.1 hmagic, Nat.not_lt.1 hlen⟩
  · rintro ⟨rfl, rfl, hsize, hmagic, hlen⟩
    have h16 := legacy_le_flagsSize (byteAt inp 1)
    rw [if_neg (by simp only [LEGACY_HEADER_SIZE]; omega), if_neg, if_neg (by omega)]
    rintro (h | h)
    · exact h hmagic
    · exact absurd hlen (by simpa [peekFields] using h)

theorem take_two {inp : List ZceByte} (h : 2 ≤ inp.length) :
    [byteAt inp 0, byteAt inp 1] = inp.take 2 := by
  match inp, h with
  | a :: b :: rest, _ => rfl

theorem packBe16_unpackBe16_drop {inp : List ZceByte} {n : Nat} (h : n + 2 ≤ inp.length) :
    packBe16 (unpackBe16 (inp.drop n)) = (inp.drop n).take 2 := by
  have hd : 2 ≤ (inp.drop n).length := by rw [List.length_drop]; omega
  match inp.drop n, hd with
  | a :: b :: rest, _ => exact packBe16_unpackBe16 a b rest

theorem packBe32_unpackBe32_drop {inp : List ZceByte} {n : Nat} (h : n + 4 ≤ inp.length) :
    packBe32 (unpackBe32 (inp.drop n)) = (inp.drop n).take 4 := by
  have hd : 4 ≤ (inp.drop n).length := by rw [List.length_drop]; omega
  match inp.drop n, hd with
  | a :: b :: c :: d :: rest, _ => exact packBe32_unpackBe32 a b c d rest

theorem ext_or_ext {f : ZceByte} (h : (f &&& FLAG_HDR_EXT != 0#8) = true) :
    f ||| FLAG_HDR_EXT = f := by
  revert h f
  decide

end Libfgw
