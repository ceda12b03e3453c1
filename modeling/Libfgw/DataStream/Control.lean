import Libfgw.DataStream.Arrivals

namespace Libfgw

open FgwSegmentHeader Lib DataStream

variable {σ : Type}

def handleFrames (S : Setting σ) (st : StreamState σ) (frames : List (ChannelRef × List ZceByte)) :
    StreamState σ := frames.foldl (fun st p => handleFrame S p.1 st p.2) st

def frameOps (frames : List (ChannelRef × List ZceByte)) : List (Op σ) :=
  frames.map fun p => .onChannelBytes p.1 p.2

theorem onChannelBytes_segment {S : Setting σ} {ch : ChannelRef} {f : List ZceByte}
    (hf : IsSegment f) {ds : DataStream σ} (hclean : ds.scratch ch = []) :
    onChannelBytes S ch f ds = { ds with toStreamState := handleFrame S ch ds.toStreamState f } := by
  have hlen := IsSegment.length_le hf
  simp only [ROUTED_HEADER_SIZE, MAX_PAYLOAD] at hlen
  rw [onChannelBytes_eq S ch (by rw [hclean, List.nil_append]; omega), hclean, List.nil_append,
    IsSegment.split_eq hf]
  have hscratch : Function.update ds.scratch ch [] = ds.scratch := by
    rw [← hclean, Function.update_eq_self]
  dsimp only
  rw [hscratch]
  rfl

theorem run_frameOps {S : Setting σ} {frames : List (ChannelRef × List ZceByte)}
    (hsegments : ∀ p ∈ frames, IsSegment p.2) {ds : DataStream σ}
    (hclean : ∀ p ∈ frames, ds.scratch p.1 = []) :
    run S ds (frameOps frames) =
      { ds with toStreamState := handleFrames S ds.toStreamState frames } := by
  induction frames generalizing ds with
  | nil => rfl
  | cons p frames ih =>
    obtain ⟨hp, hsegments⟩ := List.forall_mem_cons.1 hsegments
    obtain ⟨hc, hclean⟩ := List.forall_mem_cons.1 hclean
    have hstep : step S ds (.onChannelBytes p.1 p.2) =
        { ds with toStreamState := handleFrame S p.1 ds.toStreamState p.2 } :=
      onChannelBytes_segment hp hc
    rw [frameOps, List.map_cons, run_cons, hstep]
    exact ih hsegments hclean

def HelloFrame (S : Setting σ) (ingress generation : ZceUint32) (f : List ZceByte) : Prop :=
  IsSegment f ∧ ∃ hr hdr hello, fgwSegmentPeekHeader f f.length = .header hr hdr ∧
    fgwSegmentVerifyCrc f hdr hr = true ∧ hdr.isHello = true ∧
    S.zds.unpackHello ((f.drop hr).take hdr.payloadLen.toNat) = some hello ∧
    hello.protoVersion = kFgwProtoVersion ∧ hello.ingressId = ingress ∧
    hello.generation = generation

def helloHeader (ingress : ZceUint32) : FgwSegmentHeader :=
  { flags := FLAG_HELLO, ingressId := ingress }

theorem wireFrame_decodes (hdr : FgwSegmentHeader) {payload : List ZceByte}
    (hlen : payload.length ≤ MAX_PAYLOAD) :
    let f := wireFrame hdr payload
    IsSegment f ∧
      fgwSegmentPeekHeader f f.length = .header (wireHeaderSize hdr) (wireDecoded hdr payload) ∧
      fgwSegmentVerifyCrc f (wireDecoded hdr payload) (wireHeaderSize hdr) = true ∧
      (f.drop (wireHeaderSize hdr)).take (wireDecoded hdr payload).payloadLen.toNat = payload := by
  intro f
  have hin : (wireHeaderSize hdr : Int) ≤ f.length := by
    rw [length_wireFrame]
    omega
  have hpeek := fgwSegmentPeekHeader_wireFrame hdr payload [] hlen hin
  have hcrc := fgwSegmentVerifyCrc_wireFrame hdr payload [] hlen
  have hpay := wireFrame_drop_header hdr payload []
  rw [List.append_nil] at hpeek hcrc hpay
  have hplen : (wireDecoded hdr payload).payloadLen.toNat = payload.length := by
    simp only [wireDecoded, BitVec.toNat_ofNat, MAX_PAYLOAD] at hlen ⊢
    omega
  exact ⟨isSegment_wireFrame _ payload hlen, hpeek, hcrc, by rw [hplen, hpay]⟩

theorem helloFrame_wireFrame {S : Setting σ} {hello : FgwHello} {payload : List ZceByte}
    (hunpack : S.zds.unpackHello payload = some hello) (hversion : hello.protoVersion = kFgwProtoVersion)
    (hlen : payload.length ≤ MAX_PAYLOAD) :
    HelloFrame S hello.ingressId hello.generation
      (wireFrame (helloHeader hello.ingressId) payload) := by
  obtain ⟨hsegment, hpeek, hcrc, hpay⟩ := wireFrame_decodes (helloHeader hello.ingressId) hlen
  have hhello : ((FLAG_HELLO ||| FLAG_HDR_EXT) &&& FLAG_HELLO != 0#8) = true := by decide
  refine ⟨hsegment, _, _, hello, hpeek, hcrc, hhello, ?_, hversion, rfl, rfl⟩
  rw [hpay, hunpack]

end Libfgw
