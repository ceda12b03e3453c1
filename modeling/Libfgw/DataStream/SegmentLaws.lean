import Libfgw.DataStream.ReceiveLaws

namespace Libfgw

open FgwSegmentHeader Lib

def synKey (key : SessionKey) : DedupKey := ⟨key.1, key.2, 0#32, .syn⟩

namespace DataStream

variable {σ τ : Type}

def segmentDecoded (T : Setting τ) (key : SessionKey) (seq : ZceUint32) (flags : ZceByte)
    (payload : List ZceByte) : FgwSegmentHeader :=
  wireDecoded (segmentHeader T key.1 key.2 seq flags payload.length) payload

section Decoded

variable (T : Setting τ) (key : SessionKey) (seq : ZceUint32) (flags : ZceByte)
  (payload : List ZceByte)

@[simp] theorem seqNum_segmentDecoded : (segmentDecoded T key seq flags payload).seqNum = seq := by
  simp only [segmentDecoded, wireDecoded, segmentHeader]
  split <;> rfl

@[simp] theorem frameKey_segmentDecoded :
    frameKey (segmentDecoded T key seq flags payload) = key := by
  have hext : (segmentDecoded T key seq flags payload).isHdrExt = true := isHdrExt_or_ext _
  rw [frameKey, hext, if_pos rfl]
  simp only [segmentDecoded, wireDecoded, segmentHeader]
  split <;> rfl

theorem payloadLen_segmentDecoded (hlen : payload.length ≤ MAX_PAYLOAD) :
    (segmentDecoded T key seq flags payload).payloadLen.toNat = payload.length := by
  simp only [segmentDecoded, wireDecoded, BitVec.toNat_ofNat, MAX_PAYLOAD] at hlen ⊢
  omega

theorem flags_segmentDecoded {mask : ZceByte} (hmask : mask &&& (FLAG_HDR_ROUTE ||| FLAG_HDR_EXT) = 0#8) :
    (segmentDecoded T key seq flags payload).flags &&& mask = flags &&& mask := by
  have hor : ∀ a b : ZceByte, b &&& mask = 0#8 → (a ||| b) &&& mask = a &&& mask := by
    intro a b hb
    rw [BitVec.and_comm, BitVec.and_or_distrib_left, BitVec.and_comm mask b, hb, BitVec.or_zero,
      BitVec.and_comm]
  rw [BitVec.and_or_distrib_left] at hmask
  have hroute : FLAG_HDR_ROUTE &&& mask = 0#8 := by
    rw [BitVec.and_comm]
    exact (BitVec.or_eq_zero_iff.1 hmask).1
  have hext : FLAG_HDR_EXT &&& mask = 0#8 := by
    rw [BitVec.and_comm]
    exact (BitVec.or_eq_zero_iff.1 hmask).2
  simp only [segmentDecoded, wireDecoded, segmentHeader]
  rw [hor _ _ hext]
  split
  · exact hor _ _ hroute
  · rfl

theorem isSyn_segmentDecoded :
    (segmentDecoded T key seq flags payload).isSyn = (flags &&& FLAG_SYN != 0#8) := by
  rw [isSyn, flags_segmentDecoded T key seq flags payload (by decide)]

theorem isFin_segmentDecoded :
    (segmentDecoded T key seq flags payload).isFin = (flags &&& FLAG_FIN != 0#8) := by
  rw [isFin, flags_segmentDecoded T key seq flags payload (by decide)]

theorem isData_segmentDecoded :
    (segmentDecoded T key seq flags payload).isData = (flags &&& FLAG_DATA != 0#8) := by
  rw [isData, flags_segmentDecoded T key seq flags payload (by decide)]

theorem isControl_segmentDecoded :
    isControl (segmentDecoded T key seq flags payload) =
      ((flags &&& FLAG_HELLO != 0#8) || (flags &&& FLAG_HEARTBEAT != 0#8) ||
        (flags &&& FLAG_ACK != 0#8)) := by
  rw [isControl, isHello, isHeartbeat, isAck, flags_segmentDecoded T key seq flags payload (by decide),
    flags_segmentDecoded T key seq flags payload (by decide),
    flags_segmentDecoded T key seq flags payload (by decide)]

theorem peek_segmentFrame (hlen : payload.length ≤ MAX_PAYLOAD) :
    fgwSegmentPeekHeader (segmentFrame T key seq flags payload)
        (segmentFrame T key seq flags payload).length =
      .header (wireHeaderSize (segmentHeader T key.1 key.2 seq flags payload.length))
        (segmentDecoded T key seq flags payload) := by
  have hin : (wireHeaderSize (segmentHeader T key.1 key.2 seq flags payload.length) : Int) ≤
      (segmentFrame T key seq flags payload).length := by
    rw [segmentFrame, length_wireFrame]
    omega
  have h := fgwSegmentPeekHeader_wireFrame (segmentHeader T key.1 key.2 seq flags payload.length)
    payload [] hlen hin
  rwa [List.append_nil] at h

theorem isSegment_segmentFrame (hlen : payload.length ≤ MAX_PAYLOAD) :
    IsSegment (segmentFrame T key seq flags payload) := isSegment_wireFrame _ payload hlen

theorem verifyCrc_segmentFrame (hlen : payload.length ≤ MAX_PAYLOAD) :
    fgwSegmentVerifyCrc (segmentFrame T key seq flags payload) (segmentDecoded T key seq flags payload)
      (wireHeaderSize (segmentHeader T key.1 key.2 seq flags payload.length)) = true := by
  have h := fgwSegmentVerifyCrc_wireFrame
    (segmentHeader T key.1 key.2 seq flags payload.length) payload [] hlen
  rwa [List.append_nil] at h

theorem handleFrame_segmentFrame (S : Setting σ) (ch : ChannelRef) (st : StreamState σ)
    (hlen : payload.length ≤ MAX_PAYLOAD)
    (hctl : isControl (segmentDecoded T key seq flags payload) = false) :
    handleFrame S ch st (segmentFrame T key seq flags payload) =
      onSessionSegment S ch (segmentDecoded T key seq flags payload) payload st := by
  have hpay := wireFrame_drop_header
    (segmentHeader T key.1 key.2 seq flags payload.length) payload []
  rw [List.append_nil] at hpay
  rw [handleFrame_segment ch (peek_segmentFrame T key seq flags payload hlen) hctl
    fun _ => verifyCrc_segmentFrame T key seq flags payload hlen,
    payloadLen_segmentDecoded T key seq flags payload hlen, segmentFrame, hpay]

end Decoded

theorem dedupKey_segmentDecoded (T : Setting τ) (key : SessionKey) (ingress seq : ZceUint32)
    (flags : ZceByte) (payload : List ZceByte) :
    dedupKey ingress (segmentDecoded T key seq flags payload) =
      ⟨ingress, key.2, seq, if flags &&& FLAG_SYN != 0#8 then .syn
        else if flags &&& FLAG_FIN != 0#8 then .fin else .data⟩ := by
  have hsid : (segmentDecoded T key seq flags payload).sessionId = key.2 :=
    congrArg Prod.snd (frameKey_segmentDecoded T key seq flags payload)
  simp only [dedupKey, seqNum_segmentDecoded, isSyn_segmentDecoded, isFin_segmentDecoded, hsid]

def synFrame (T : Setting τ) (key : SessionKey) : List ZceByte :=
  segmentFrame T key 0#32 FLAG_SYN []

def dataFrame (T : Setting τ) (key : SessionKey) (k : Nat) (payload : List ZceByte) :
    List ZceByte := segmentFrame T key (BitVec.ofNat 32 k) FLAG_DATA payload

def finFrame (T : Setting τ) (key : SessionKey) (n : Nat) : List ZceByte :=
  segmentFrame T key (BitVec.ofNat 32 n) FLAG_FIN []

def IsCopy (T : Setting τ) (key : SessionKey) (segs : List (List ZceByte)) (f : List ZceByte) :
    Prop := f = synFrame T key ∨ ∃ k payload, segs[k]? = some payload ∧ f = dataFrame T key k payload

end DataStream

end Libfgw
