import Libfgw.Transit.Service

namespace Libfgw

open FgwSegmentHeader Lib

namespace TransitService

variable (S : TransitSetting)

def handleLinkFrame (ref : ChannelRef) (outbound : Bool) : Routing → List ZceByte → Routing :=
  segmentHandle (onLinkFrame S ref outbound)

theorem onLinkFrame_readsFrame (ref : ChannelRef) (outbound : Bool) :
    ReadsFrame (onLinkFrame S ref outbound) := by
  intro hr hdr f rt
  have hpay : ((f.take (hr + hdr.payloadLen.toNat)).drop hr).take hdr.payloadLen.toNat =
      (f.drop hr).take hdr.payloadLen.toNat := by
    rw [List.drop_take, List.take_take, Nat.add_sub_cancel_left, Nat.min_self]
  simp only [onLinkFrame, hpay, List.take_take, Nat.min_self]

theorem foldl_onLinkBytes {ref : ChannelRef} {link : Link} (chunks : List (List ZceByte))
    (ts : TransitService) (rt : Routing) (r : List ZceByte) :
    chunks.foldl (fun ts chunk => onLinkBytes S ref chunk ts)
        { ts with toRouting := rt, links := ts.links.insert ref { link with buffer := r } } =
      { ts with
        toRouting := (chunks.foldl (segmentFeed (onLinkFrame S ref link.outbound)) (rt, r)).1
        links := ts.links.insert ref { link with
          buffer := (chunks.foldl (segmentFeed (onLinkFrame S ref link.outbound)) (rt, r)).2 } } := by
  induction chunks generalizing rt r with
  | nil => rfl
  | cons chunk chunks ih =>
    rw [List.foldl_cons, List.foldl_cons]
    simp only [onLinkBytes, SortedMap.find?_insert, if_true, SortedMap.insert_insert]
    exact ih _ _

end TransitService

end Libfgw
