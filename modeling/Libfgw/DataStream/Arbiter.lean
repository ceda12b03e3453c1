import Libfgw.DataStream.Control

namespace Libfgw

open FgwSegmentHeader Lib DataStream

variable {σ : Type}

/-- What decides which feedback is applied, and what has been fed back. -/
structure Arbiter where
  feedbackEpoch : ZceUint32
  appliedEpoch : ZceUint32
  peerGeneration : ZceUint32
  feedbackSent : List (FgwLinkFeedback × List ZceByte × List FgwChannel)

def StreamState.arbiter (st : StreamState σ) : Arbiter :=
  ⟨st.feedbackEpoch, st.appliedEpoch, st.peerGeneration, st.feedbackSent⟩

namespace Arbiter

def hello (generation : ZceUint32) (a : Arbiter) : Arbiter :=
  if generation ≠ 0#32 ∧ generation ≠ a.peerGeneration then
    { a with peerGeneration := generation, appliedEpoch := 0#32 }
  else a

def adopt (fb : FgwLinkFeedback) (a : Arbiter) : Arbiter :=
  if fb.decisionEpoch > a.appliedEpoch then { a with appliedEpoch := fb.decisionEpoch } else a

def emit (fb : FgwLinkFeedback) (frame : List ZceByte) (live : List FgwChannel) (a : Arbiter) :
    Arbiter :=
  { a with
    feedbackEpoch := fb.decisionEpoch
    feedbackSent := a.feedbackSent ++ [(fb, frame, live)] }

def fedBack (a : Arbiter) :
    ZceUint32 × List (FgwLinkFeedback × List ZceByte × List FgwChannel) :=
  (a.feedbackEpoch, a.feedbackSent)

def heard (a : Arbiter) : ZceUint32 × ZceUint32 := (a.appliedEpoch, a.peerGeneration)

end Arbiter

theorem SendsOnly.arbiter {st st' : StreamState σ} (h : SendsOnly st st') :
    st'.arbiter = st.arbiter := (congrArg StreamState.arbiter h).trans rfl

namespace DataStream

variable (S : Setting σ)

theorem ServesOnly.arbiter {st st' : StreamState σ} (h : ServesOnly st st') :
    st'.arbiter = st.arbiter := (congrArg StreamState.arbiter h).trans rfl

@[simp] theorem noteLoser_arbiter (ch : ChannelRef) (st : StreamState σ) :
    (noteLoser ch st).arbiter = st.arbiter := by
  unfold noteLoser
  split <;> rfl

@[simp] theorem noteWinner_arbiter (ch : ChannelRef) (st : StreamState σ) :
    (noteWinner ch st).arbiter = st.arbiter := by
  unfold noteWinner
  split <;> rfl

@[simp] theorem acceptSegment_arbiter (key : SessionKey) (hdr : FgwSegmentHeader)
    (payload : List ZceByte) (st : StreamState σ) :
    (acceptSegment S key hdr payload st).arbiter = st.arbiter :=
  (acceptSegment_servesOnly S key hdr payload st).arbiter

@[simp] theorem onSessionSegment_arbiter (ch : ChannelRef) (hdr : FgwSegmentHeader)
    (payload : List ZceByte) (st : StreamState σ) :
    (onSessionSegment S ch hdr payload st).arbiter = st.arbiter := by
  unfold onSessionSegment
  dsimp only
  split
  · simp
  split
  · rfl
  · rw [acceptSegment_arbiter, noteWinner_arbiter]
    rfl

end DataStream

def IsPlain (f : List ZceByte) : Prop :=
  ∀ hr hdr, fgwSegmentPeekHeader f f.length = .header hr hdr → hdr.isHello = false ∧ hdr.isAck = false

def FeedbackFrame (S : Setting σ) (fb : FgwLinkFeedback) (f : List ZceByte) : Prop :=
  IsSegment f ∧ ∃ hr hdr, fgwSegmentPeekHeader f f.length = .header hr hdr ∧
    fgwSegmentVerifyCrc f hdr hr = true ∧ hdr.isHello = false ∧ hdr.isHeartbeat = false ∧
    hdr.isAck = true ∧
    S.zds.unpackFeedback ((f.drop hr).take hdr.payloadLen.toNat) = some fb

theorem handleFrame_plain_arbiter {S : Setting σ} {f : List ZceByte} (hf : IsPlain f)
    (ch : ChannelRef) (st : StreamState σ) : (handleFrame S ch st f).arbiter = st.arbiter := by
  unfold handleFrame segmentHandle
  split
  · rename_i hr hdr hpeek
    obtain ⟨hhello, hack⟩ := hf hr hdr hpeek
    simp only [onFrame, hhello, hack, Bool.false_eq_true, if_false]
    split
    · rfl
    split
    · rfl
    · exact onSessionSegment_arbiter S ch hdr _ st
  all_goals rfl

theorem handleFrame_hello_arbiter {S : Setting σ} {ingress generation : ZceUint32}
    {f : List ZceByte} (hf : HelloFrame S ingress generation f) (ch : ChannelRef)
    (st : StreamState σ) : (handleFrame S ch st f).arbiter = st.arbiter.hello generation := by
  obtain ⟨-, hr, hdr, hello, hpeek, hcrc, hhello, hunpack, hversion, -, rfl⟩ := hf
  unfold handleFrame segmentHandle
  rw [hpeek]
  simp only [onFrame, hcrc, hhello, not_true_eq_false, and_false, if_false, if_true, onHello,
    hunpack, hversion, ne_eq]
  split
  · rename_i hnew
    exact (if_pos hnew).symm
  · rename_i hold
    exact (if_neg hold).symm

theorem handleFrame_feedback {S : Setting σ} {fb : FgwLinkFeedback} {f : List ZceByte}
    (hf : FeedbackFrame S fb f) (ch : ChannelRef) (st : StreamState σ) :
    handleFrame S ch st f =
      if fb.decisionEpoch > st.appliedEpoch then
        { st with
          appliedEpoch := fb.decisionEpoch
          selector := if fb.recommendedPrimary ≠ 0#32 then
            { st.selector with primaryChannelId := fb.recommendedPrimary } else st.selector }
      else st := by
  obtain ⟨-, hr, hdr, hpeek, hcrc, hhello, hbeat, hack, hunpack⟩ := hf
  unfold handleFrame segmentHandle
  rw [hpeek]
  simp only [onFrame, hcrc, hhello, hbeat, hack, not_true_eq_false, and_false, if_false, if_true,
    Bool.false_eq_true, onAck, hunpack]
  split
  · split <;> rfl
  · rfl

theorem handleFrame_feedback_arbiter {S : Setting σ} {fb : FgwLinkFeedback} {f : List ZceByte}
    (hf : FeedbackFrame S fb f) (ch : ChannelRef) (st : StreamState σ) :
    (handleFrame S ch st f).arbiter = st.arbiter.adopt fb := by
  rw [handleFrame_feedback hf ch st]
  unfold Arbiter.adopt
  split
  · rename_i hnew
    rw [if_pos (show fb.decisionEpoch > st.arbiter.appliedEpoch from hnew)]
    rfl
  · rename_i hold
    rw [if_neg (show ¬ fb.decisionEpoch > st.arbiter.appliedEpoch from hold)]

def StreamState.withPrimary (st : StreamState σ) (id : ZceUint32) : StreamState σ :=
  { st with selector := { st.selector with primaryChannelId := id } }

def SetsPrimary (S : Setting σ) (ch : ChannelRef) (st : StreamState σ) (f : List ZceByte)
    (id : ZceUint32) : Prop :=
  ∀ old, (handleFrame S ch (st.withPrimary old) f).selector.primaryChannelId = id

theorem setsPrimary_iff {S : Setting σ} {fb : FgwLinkFeedback} {f : List ZceByte}
    (hf : FeedbackFrame S fb f) (ch : ChannelRef) (st : StreamState σ) :
    SetsPrimary S ch st f fb.recommendedPrimary ↔
      fb.decisionEpoch > st.arbiter.appliedEpoch ∧ fb.recommendedPrimary ≠ 0#32 := by
  constructor
  · intro hsets
    have hother := hsets (fb.recommendedPrimary + 1#32)
    rw [handleFrame_feedback hf] at hother
    split at hother
    · rename_i hnew
      refine ⟨hnew, fun hzero => ?_⟩
      simp [hzero, StreamState.withPrimary] at hother
    · exact absurd hother (by simp [StreamState.withPrimary])
  · rintro ⟨hnew, hrecommends⟩ old
    rw [handleFrame_feedback hf, if_pos (show _ > (st.withPrimary old).appliedEpoch from hnew)]
    dsimp only
    rw [if_pos hrecommends]

theorem feedbackFrame_wireFrame {S : Setting σ} {fb : FgwLinkFeedback} {payload : List ZceByte}
    (hunpack : S.zds.unpackFeedback payload = some fb) (hlen : payload.length ≤ MAX_PAYLOAD)
    {hdr : FgwSegmentHeader} (hflags : hdr.flags = FLAG_ACK) :
    FeedbackFrame S fb (wireFrame hdr payload) := by
  obtain ⟨hsegment, hpeek, hcrc, hpay⟩ := wireFrame_decodes hdr hlen
  have hdecoded : (wireDecoded hdr payload).flags = FLAG_ACK ||| FLAG_HDR_EXT := by
    rw [wireDecoded, hflags]
  refine ⟨hsegment, _, _, hpeek, hcrc, ?_, ?_, ?_, by rw [hpay, hunpack]⟩
  · rw [FgwSegmentHeader.isHello, hdecoded]
    decide
  · rw [FgwSegmentHeader.isHeartbeat, hdecoded]
    decide
  · rw [FgwSegmentHeader.isAck, hdecoded]
    decide

theorem handleFrame_arbiter_cases (S : Setting σ) (ch : ChannelRef) (st : StreamState σ)
    (f : List ZceByte) : (handleFrame S ch st f).arbiter = st.arbiter ∨
      (∃ generation, (handleFrame S ch st f).arbiter = st.arbiter.hello generation) ∨
      ∃ fb, (handleFrame S ch st f).arbiter = st.arbiter.adopt fb := by
  unfold handleFrame segmentHandle
  split
  · rename_i hr hdr _
    simp only [onFrame]
    split
    · exact Or.inl rfl
    split
    · unfold onHello
      split
      · exact Or.inl rfl
      split
      · exact Or.inl rfl
      · rename_i hello _ _
        refine Or.inr (Or.inl ⟨hello.generation, ?_⟩)
        dsimp only
        split
        · rename_i hnew
          exact (if_pos hnew).symm
        · rename_i hold
          exact (if_neg hold).symm
    split
    · exact Or.inl rfl
    split
    · unfold onAck
      split
      · exact Or.inl rfl
      · rename_i fb _
        refine Or.inr (Or.inr ⟨fb, ?_⟩)
        split
        · rename_i hnew
          rw [Arbiter.adopt, if_pos (show fb.decisionEpoch > st.arbiter.appliedEpoch from hnew)]
          dsimp only
          split <;> rfl
        · rename_i hold
          rw [Arbiter.adopt, if_neg (show ¬ fb.decisionEpoch > st.arbiter.appliedEpoch from hold)]
    · exact Or.inl (onSessionSegment_arbiter S ch hdr _ st)
  all_goals exact Or.inl rfl

def StreamState.fedBack (st : StreamState σ) :
    ZceUint32 × List (FgwLinkFeedback × List ZceByte × List FgwChannel) := st.arbiter.fedBack

def StreamState.heard (st : StreamState σ) : ZceUint32 × ZceUint32 := st.arbiter.heard

theorem handleFrame_fedBack (S : Setting σ) (ch : ChannelRef) (st : StreamState σ)
    (f : List ZceByte) : (handleFrame S ch st f).fedBack = st.fedBack := by
  unfold StreamState.fedBack Arbiter.fedBack
  rcases handleFrame_arbiter_cases S ch st f with h | ⟨generation, h⟩ | ⟨fb, h⟩
  · rw [h]
  · rw [h, Arbiter.hello]
    split <;> rfl
  · rw [h, Arbiter.adopt]
    split <;> rfl

theorem onChannelBytes_fedBack (S : Setting σ) (ch : ChannelRef) (buf : List ZceByte)
    (ds : DataStream σ) :
    (onChannelBytes S ch buf ds).toStreamState.fedBack = ds.toStreamState.fedBack := by
  rw [onChannelBytes_frames]
  generalize ds.toStreamState = st
  induction segmentFrames (ds.scratch ch ++ buf) generalizing st with
  | nil => rfl
  | cons f fs ih => rw [List.foldl_cons, ih, handleFrame_fedBack]

namespace DataStream

variable (S : Setting σ)

def Recommends (st : StreamState σ) : Prop :=
  st.peerPartCount.entries ≠ [] ∧ pickPrimaryLocked st ≠ 0#32

instance (st : StreamState σ) : Decidable (Recommends st) := inferInstanceAs (Decidable (_ ∧ _))

def nextFeedback (st : StreamState σ) : FgwLinkFeedback :=
  { decisionEpoch := st.feedbackEpoch + 1#32, recommendedPrimary := pickPrimaryLocked st }

theorem emitFeedback_silent {st : StreamState σ} (h : ¬ Recommends st) :
    (emitFeedback S st).arbiter = st.arbiter := by
  unfold emitFeedback
  by_cases hempty : st.peerPartCount.entries = []
  · rw [hempty]
    rfl
  · have hpick : pickPrimaryLocked st = 0#32 := by
      by_contra hpick
      exact h ⟨hempty, hpick⟩
    rw [if_neg (by rwa [List.isEmpty_iff])]
    dsimp only
    rw [if_pos hpick]
    rfl

theorem emitFeedback_recommends {st : StreamState σ} (h : Recommends st) {payload : List ZceByte}
    (hpack : S.zds.packFeedback 64 (nextFeedback st) = some payload) :
    (emitFeedback S st).arbiter = st.arbiter.emit (nextFeedback st)
      (wireFrame (feedbackHeader S payload.length) payload) (S.manager st.clock).liveChannels := by
  have hlen : payload.length ≤ 64 := S.zds.packFeedback_length hpack
  have hencode := fgwSegmentEncode_eq (List.replicate 128 0#8) (feedbackHeader S payload.length) payload
    (hlen.trans (by decide)) (by
      have hsize : wireHeaderSize (feedbackHeader S payload.length) ≤ ROUTED_HEADER_SIZE := by
        unfold wireHeaderSize
        split <;> decide
      rw [ROUTED_HEADER_SIZE] at hsize
      rw [List.length_replicate]
      omega)
  have hframe : ∀ rest : List ZceByte,
      (wireFrame (feedbackHeader S payload.length) payload ++ rest).take
        (wireHeaderSize (feedbackHeader S payload.length) + payload.length) =
      wireFrame (feedbackHeader S payload.length) payload := fun rest =>
    List.take_left' (length_wireFrame _ _)
  unfold nextFeedback at hpack
  unfold emitFeedback
  rw [if_neg (by rw [List.isEmpty_iff]; exact h.1)]
  dsimp only
  rw [if_neg h.2, hpack]
  dsimp only
  rw [hencode]
  dsimp only
  rw [hframe]
  rfl

theorem emitFeedback_heard (st : StreamState σ) : (emitFeedback S st).heard = st.heard := by
  unfold emitFeedback
  split
  · rfl
  dsimp only
  split
  · rfl
  split
  · rfl
  · split <;> rfl

theorem step_heard (ds : DataStream σ) {op : Op σ} (h : ∀ ch buf, op ≠ .onChannelBytes ch buf) :
    (step S ds op).toStreamState.heard = ds.toStreamState.heard := by
  cases op with
  | openSession sid handler =>
    exact congrArg Arbiter.heard (openSession_sendsOnly S sid handler _).arbiter
  | closeSession sid ingressKey =>
    exact congrArg Arbiter.heard (closeSession_sendsOnly S sid ingressKey _).arbiter
  | sendSessionData sid buf ingressKey =>
    exact congrArg Arbiter.heard (sendSessionData_sendsOnly S sid buf ingressKey _).arbiter
  | onChannelBytes ch buf => exact absurd rfl (h ch buf)
  | emitFeedback => exact emitFeedback_heard S _
  | owner _ => rfl
  | selector _ => rfl

theorem step_fedBack (ds : DataStream σ) {op : Op σ} (h : op ≠ .emitFeedback) :
    (step S ds op).toStreamState.fedBack = ds.toStreamState.fedBack := by
  cases op with
  | openSession sid handler =>
    exact congrArg Arbiter.fedBack (openSession_sendsOnly S sid handler _).arbiter
  | closeSession sid ingressKey =>
    exact congrArg Arbiter.fedBack (closeSession_sendsOnly S sid ingressKey _).arbiter
  | sendSessionData sid buf ingressKey =>
    exact congrArg Arbiter.fedBack (sendSessionData_sendsOnly S sid buf ingressKey _).arbiter
  | onChannelBytes ch buf => exact onChannelBytes_fedBack S ch buf ds
  | emitFeedback => exact absurd rfl h
  | owner _ => rfl
  | selector _ => rfl

end DataStream

def flatFeedback (fb : FgwLinkFeedback) : List ZceByte :=
  packBe32 fb.decisionEpoch ++ (packBe32 fb.recommendedPrimary ++
    (packBe32 fb.aliveBitmap ++ packBe32 fb.highestSeq))

def ZdsCodec.flat (hellos : List (List ZceByte × FgwHello)) : ZdsCodec where
  unpackHello p := hellos.lookup p
  unpackFeedback p := if p.length = 16 then
    some ⟨unpackBe32 p, unpackBe32 (p.drop 4), unpackBe32 (p.drop 8), unpackBe32 (p.drop 12)⟩ else none
  packFeedback n fb := if 16 ≤ n then some (flatFeedback fb) else none
  packFeedback_length := by
    intro n fb p h
    split at h
    · obtain rfl := Option.some.inj h
      assumption
    · exact absurd h (Option.some_ne_none p).symm

theorem ZdsCodec.flat_unpackFeedback (hellos : List (List ZceByte × FgwHello)) (fb : FgwLinkFeedback) :
    (ZdsCodec.flat hellos).unpackFeedback (flatFeedback fb) = some fb := by
  have hlen : (flatFeedback fb).length = 16 := rfl
  have hlast : unpackBe32 (packBe32 fb.highestSeq) = fb.highestSeq := by
    have h := unpackBe32_packBe32 fb.highestSeq []
    rwa [List.append_nil] at h
  have h4 : (flatFeedback fb).drop 4 = packBe32 fb.recommendedPrimary ++
      (packBe32 fb.aliveBitmap ++ packBe32 fb.highestSeq) := rfl
  have h8 : (flatFeedback fb).drop 8 = packBe32 fb.aliveBitmap ++ packBe32 fb.highestSeq := rfl
  have h12 : (flatFeedback fb).drop 12 = packBe32 fb.highestSeq := rfl
  rw [ZdsCodec.flat]
  dsimp only
  rw [if_pos hlen, h4, h8, h12, flatFeedback, unpackBe32_packBe32, unpackBe32_packBe32,
    unpackBe32_packBe32, hlast]

end Libfgw
