import Libfgw.DataStream.Run

namespace Libfgw

open FgwSegmentHeader Lib

namespace DataStream

variable {σ : Type} (S : Setting σ)

def handleFrame (ch : ChannelRef) : StreamState σ → List ZceByte → StreamState σ :=
  segmentHandle (onFrame S ch)

theorem onFrame_readsFrame (ch : ChannelRef) : ReadsFrame (onFrame S ch) := by
  intro hr hdr f st
  have hpay : ((f.take (hr + hdr.payloadLen.toNat)).drop hr).take hdr.payloadLen.toNat =
      (f.drop hr).take hdr.payloadLen.toNat := by
    rw [List.drop_take, List.take_take, Nat.add_sub_cancel_left, Nat.min_self]
  simp only [onFrame, fgwSegmentVerifyCrc_take, hpay]

theorem onChannelBytes_eq (ch : ChannelRef) {buf : List ZceByte} {ds : DataStream σ}
    (hlen : (ds.scratch ch ++ buf).length < 2 ^ 31) :
    onChannelBytes S ch buf ds =
      { toStreamState := (segmentCutter.split (ds.scratch ch ++ buf)).1.foldl (handleFrame S ch)
          ds.toStreamState
        scratch := Function.update ds.scratch ch (segmentCutter.split (ds.scratch ch ++ buf)).2 } := by
  simp only [onChannelBytes, segmentScan_eq (onFrame_readsFrame S ch) hlen]
  rfl

theorem onChannelBytes_huge (ch : ChannelRef) {buf : List ZceByte} {ds : DataStream σ}
    (hlo : 2 ^ 31 ≤ (ds.scratch ch ++ buf).length) (hhi : (ds.scratch ch ++ buf).length < 2 ^ 32) :
    onChannelBytes S ch buf ds =
      { ds with scratch := Function.update ds.scratch ch (ds.scratch ch ++ buf) } := by
  simp only [onChannelBytes, segmentScan_huge hlo hhi]

theorem foldl_onChannelBytes (ch : ChannelRef) (scratch : ChannelRef → List ZceByte)
    (chunks : List (List ZceByte)) (st : StreamState σ) (r : List ZceByte) :
    chunks.foldl (fun ds chunk => onChannelBytes S ch chunk ds)
        { toStreamState := st, scratch := Function.update scratch ch r } =
      { toStreamState := (chunks.foldl (segmentFeed (onFrame S ch)) (st, r)).1
        scratch := Function.update scratch ch
          (chunks.foldl (segmentFeed (onFrame S ch)) (st, r)).2 } := by
  induction chunks generalizing st r with
  | nil => rfl
  | cons chunk chunks ih =>
    rw [List.foldl_cons, List.foldl_cons]
    simp only [onChannelBytes, Function.update_self, Function.update_idem]
    exact ih _ _

def crcMatches (f : List ZceByte) : Bool :=
  match fgwSegmentPeekHeader f f.length with
  | .header hr hdr => fgwSegmentVerifyCrc f hdr hr
  | _ => false

theorem handleFrame_of_mismatch (hverify : S.config.verifyCrc = true) (ch : ChannelRef)
    {f : List ZceByte} (hcrc : crcMatches f = false) (st : StreamState σ) :
    handleFrame S ch st f = st := by
  unfold crcMatches at hcrc
  unfold handleFrame segmentHandle
  split
  · rename_i hr hdr hpeek
    rw [hpeek] at hcrc
    have hcrc' : fgwSegmentVerifyCrc f hdr hr = false := hcrc
    rw [onFrame, if_pos ⟨hverify, by rw [hcrc']; exact Bool.false_ne_true⟩]
  · rfl

theorem foldl_handleFrame_filter (hverify : S.config.verifyCrc = true) (ch : ChannelRef)
    (fs : List (List ZceByte)) (st : StreamState σ) :
    fs.foldl (handleFrame S ch) st = (fs.filter crcMatches).foldl (handleFrame S ch) st := by
  induction fs generalizing st with
  | nil => rfl
  | cons f fs ih =>
    rw [List.foldl_cons]
    cases hcrc : crcMatches f with
    | true => rw [List.filter_cons_of_pos hcrc, List.foldl_cons, ih]
    | false =>
      rw [List.filter_cons_of_neg (by rw [hcrc]; exact Bool.false_ne_true),
        handleFrame_of_mismatch S hverify ch hcrc, ih]

end DataStream

end Libfgw
