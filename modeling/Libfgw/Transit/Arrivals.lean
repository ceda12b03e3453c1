import Libfgw.Segment.Wire
import Libfgw.Transit.Framing

namespace Libfgw

open FgwSegmentHeader Lib

namespace TransitService

def isHopLocal (f : List ZceByte) : Bool :=
  match fgwSegmentPeekHeader f f.length with
  | .header _ hdr => hdr.isHello || hdr.isHeartbeat || hdr.isAck
  | _ => false

def frameOutport (f : List ZceByte) : ZceUint32 :=
  match fgwSegmentPeekHeader f f.length with
  | .header _ hdr => hdr.outportId
  | _ => 0#32

def frameIngress (f : List ZceByte) : ZceUint32 :=
  match fgwSegmentPeekHeader f f.length with
  | .header _ hdr => hdr.ingressId
  | _ => 0#32

def destination (rt : Routing) (outbound : Bool) (f : List ZceByte) : Option ChannelRef :=
  if isHopLocal f then none
  else if outbound then findInbound rt (frameIngress f)
  else findOutbound rt (frameOutport f)

variable (S : TransitSetting)

def identifies (f : List ZceByte) : Option ZceUint32 :=
  match fgwSegmentPeekHeader f f.length with
  | .header hr hdr =>
    if hdr.isHello then
      match S.zds.unpackHello ((f.drop hr).take hdr.payloadLen.toNat) with
      | none => none
      | some hello => if hello.protoVersion = kFgwProtoVersion then some hello.ingressId else none
    else if hdr.isHeartbeat || hdr.isAck then none
    else some hdr.ingressId
  | _ => none

def learnAll (rt : Routing) (ref : ChannelRef) (ingresses : List ZceUint32) : Routing :=
  ingresses.foldl (fun rt ingress => rt.learn ingress ref) rt

variable {S}

theorem findOutbound_learn (rt : Routing) (ingress : ZceUint32) (ref : ChannelRef) (o : ZceUint32) :
    findOutbound (rt.learn ingress ref) o = findOutbound rt o := rfl

theorem handleLinkFrame_eq {f : List ZceByte} (hf : IsSegment f) (ref : ChannelRef) (outbound : Bool)
    (rt : Routing) :
    handleLinkFrame S ref outbound rt f =
      { learnAll rt ref (if outbound then [] else (identifies S f).toList) with
        written := rt.written ++ (destination rt outbound f).toList.map (fun out => (out, f)) } := by
  obtain ⟨hr, hdr, hpeek, hlen⟩ := isSegment_iff.1 hf
  have htake : f.take (hr + hdr.payloadLen.toNat) = f := List.take_of_length_le hlen.le
  unfold handleLinkFrame segmentHandle destination isHopLocal frameOutport frameIngress identifies
  rw [hpeek]
  dsimp only
  unfold onLinkFrame
  dsimp only
  rw [htake]
  by_cases hhello : hdr.isHello = true
  · cases outbound with
    | true => simp [hhello, learnAll]
    | false =>
      simp only [hhello, Bool.not_false, if_true, Bool.true_or, Bool.false_eq_true, if_false]
      cases S.zds.unpackHello ((f.drop hr).take hdr.payloadLen.toNat) with
      | none => simp [learnAll]
      | some hello =>
        dsimp only
        split <;> simp [learnAll, Routing.learn]
  · by_cases hctl : (hdr.isHeartbeat || hdr.isAck) = true
    · cases outbound <;> simp [hhello, hctl, learnAll]
    · simp only [hhello, Bool.false_or, hctl, if_false, Bool.false_eq_true]
      cases outbound with
      | true =>
        simp only [if_true, Bool.not_true, Bool.false_eq_true, if_false]
        cases findInbound rt hdr.ingressId with
        | none => simp [learnAll]
        | some inbound => simp [learnAll, Routing.write]
      | false =>
        simp only [Bool.false_eq_true, if_false, Bool.not_false, if_true]
        rw [findOutbound_learn]
        cases findOutbound rt hdr.outportId with
        | none => simp [learnAll, Routing.learn]
        | some out => simp [learnAll, Routing.learn, Routing.write]

/-- A frame that a link's bytes have completed, with the routing tables that it finds. -/
structure Arrival where
  source : ChannelRef
  outbound : Bool
  routing : Routing
  frame : List ZceByte

def Arrival.forward (a : Arrival) : Option (ChannelRef × List ZceByte) :=
  (destination a.routing a.outbound a.frame).map (fun out => (out, a.frame))

variable (S)

def arriveFrames (ref : ChannelRef) (outbound : Bool) : Routing → List (List ZceByte) → List Arrival
  | _, [] => []
  | rt, f :: fs =>
    ⟨ref, outbound, rt, f⟩ :: arriveFrames ref outbound (handleLinkFrame S ref outbound rt f) fs

def arrivalsAt (ts : TransitService) : Op → List Arrival
  | .bytes ref buf =>
    match ts.links.find? ref with
    | none => []
    | some link =>
      arriveFrames S ref link.outbound ts.toRouting (segmentFrames (link.buffer ++ buf))
  | _ => []

def arrivals : TransitService → List Op → List Arrival
  | _, [] => []
  | ts, op :: ops => arrivalsAt S ts op ++ arrivals (step S ts op) ops

variable {S}

theorem onLinkBytes_frames {ref : ChannelRef} {buf : List ZceByte} {ts : TransitService} {link : Link}
    (hlink : ts.links.find? ref = some link) :
    (onLinkBytes S ref buf ts).toRouting = (segmentFrames (link.buffer ++ buf)).foldl
      (handleLinkFrame S ref link.outbound) ts.toRouting := by
  simp only [onLinkBytes, hlink]
  exact segmentScan_frames (onLinkFrame_readsFrame S ref link.outbound) _ _

theorem written_arriveFrames (ref : ChannelRef) (outbound : Bool) {fs : List (List ZceByte)}
    (hfs : ∀ f ∈ fs, IsSegment f) (rt : Routing) :
    (fs.foldl (handleLinkFrame S ref outbound) rt).written =
      rt.written ++ (arriveFrames S ref outbound rt fs).filterMap Arrival.forward := by
  induction fs generalizing rt with
  | nil => simp [arriveFrames]
  | cons f fs ih =>
    obtain ⟨hf, hfs⟩ := List.forall_mem_cons.1 hfs
    rw [List.foldl_cons, ih hfs, arriveFrames]
    have hone : (handleLinkFrame S ref outbound rt f).written =
        rt.written ++ (destination rt outbound f).toList.map (fun out => (out, f)) := by
      rw [handleLinkFrame_eq hf]
    rw [hone, List.append_assoc]
    congr 1
    cases hdest : destination rt outbound f with
    | none => simp [Arrival.forward, hdest]
    | some out => simp [Arrival.forward, hdest]

/-- The frame that a transit sends of its own accord. -/
def heartbeatFrame (S : TransitSetting) : List ZceByte := wireFrame (heartbeatHeader S) []

theorem sendHeartbeat_eq (ref : ChannelRef) (ts : TransitService) :
    sendHeartbeat S ref ts =
      { ts with toRouting := ts.toRouting.write ref (heartbeatFrame S) } := by
  have hroute : ¬ (FLAG_HEARTBEAT &&& FLAG_HDR_ROUTE != 0#8) = true := by decide
  have hsize : wireHeaderSize (heartbeatHeader S) = HEADER_SIZE := if_neg hroute
  have henc := fgwSegmentEncode_eq (List.replicate 64 0#8) (heartbeatHeader S) [] (Nat.zero_le _)
    (by rw [hsize]; decide)
  rw [List.length_nil, Nat.add_zero, Nat.cast_zero, ← fgwSegmentEncode_null] at henc
  have htake : ((wireFrame (heartbeatHeader S) [] ++
      (List.replicate 64 0#8).drop (wireHeaderSize (heartbeatHeader S))).take
        (wireHeaderSize (heartbeatHeader S))) = heartbeatFrame S :=
    List.take_left' (length_wireFrame _ _)
  simp only [sendHeartbeat, henc, htake]

theorem isHopLocal_heartbeatFrame (S : TransitSetting) : isHopLocal (heartbeatFrame S) = true := by
  have hin : (wireHeaderSize (heartbeatHeader S) : Int) ≤ (heartbeatFrame S).length := by
    rw [heartbeatFrame, length_wireFrame]
    omega
  have hpeek := fgwSegmentPeekHeader_wireFrame (heartbeatHeader S) [] [] (Nat.zero_le _) hin
  rw [List.append_nil] at hpeek
  unfold isHopLocal
  have hbeat : (FLAG_HEARTBEAT ||| FLAG_HDR_EXT) &&& FLAG_HEARTBEAT != 0#8 := by decide
  change fgwSegmentPeekHeader (heartbeatFrame S) (heartbeatFrame S).length = _ at hpeek
  rw [hpeek]
  have hdecoded : (wireDecoded (heartbeatHeader S) []).isHeartbeat = true := hbeat
  simp only [hdecoded, Bool.or_true, Bool.true_or]

def beats (ts : TransitService) : Op → List ChannelRef
  | .heartbeat => (ts.links.entries.filter fun e => e.2.connected).map Prod.fst
  | _ => []

theorem onHeartbeatTick_eq (ts : TransitService) :
    onHeartbeatTick S ts = { ts with
      written := ts.written ++ (beats ts .heartbeat).map (fun ref => (ref, heartbeatFrame S)) } := by
  have hfold : ∀ (es : List (ChannelRef × Link)) (ts : TransitService),
      es.foldl (fun ts' e => if e.2.connected then sendHeartbeat S e.1 ts' else ts') ts =
        { ts with
          written := ts.written ++ ((es.filter fun e => e.2.connected).map Prod.fst).map
            fun ref => (ref, heartbeatFrame S) } := by
    intro es
    induction es with
    | nil => simp
    | cons e es ih =>
      intro ts
      rw [List.foldl_cons, ih]
      by_cases he : e.2.connected = true
      · simp [he, sendHeartbeat_eq, Routing.write]
      · simp [he]
  exact hfold ts.links.entries ts

theorem step_written (ts : TransitService) (op : Op) :
    (step S ts op).written = ts.written ++ (arrivalsAt S ts op).filterMap Arrival.forward ++
      (beats ts op).map (fun ref => (ref, heartbeatFrame S)) := by
  cases op with
  | bytes ref buf =>
    simp only [step, arrivalsAt, beats, List.map_nil, List.append_nil]
    cases hlink : ts.links.find? ref with
    | none => simp [onLinkBytes, hlink]
    | some link =>
      rw [onLinkBytes_frames hlink]
      exact written_arriveFrames ref link.outbound
        (fun f hf => isSegment_of_mem_segmentFrames hf) ts.toRouting
  | heartbeat =>
    simp only [step, onHeartbeatTick_eq, arrivalsAt, List.filterMap_nil, List.append_nil]
  | accept ref =>
    simp only [step, arrivalsAt, beats]
    split <;> simp [makeInboundChannel]
  | dial ccfg ref ret =>
    simp only [step, arrivalsAt, beats, dialOneOutport, scheduleOutportRedial]
    split
    · split <;> simp
    · simp
  | connected ref =>
    simp only [step, arrivalsAt, beats, setConnected]
    split <;> simp
  | closed ref =>
    simp only [step, arrivalsAt, beats, onLinkClosed, setConnected]
    split <;> simp
  | removeClosed ref =>
    simp only [step, arrivalsAt, beats, removeClosed, scheduleOutportRedial]
    split
    · split
      · simp
      · split <;> simp
    · simp
  | redial outportId ref ret =>
    simp only [step, arrivalsAt, beats, redial, dialOneOutport, scheduleOutportRedial]
    split
    · split
      · simp
      · split <;> simp
    · simp
  | stop => simp [step, arrivalsAt, beats, stop]

theorem forward_ne_heartbeat {a : Arrival} {w : ChannelRef × List ZceByte}
    (hw : a.forward = some w) : w.2 ≠ heartbeatFrame S := by
  obtain ⟨out, hdest, rfl⟩ := Option.map_eq_some_iff.1 hw
  rintro (heq : a.frame = heartbeatFrame S)
  rw [destination, heq, isHopLocal_heartbeatFrame, if_pos rfl] at hdest
  exact absurd hdest (by simp)

theorem run_written (ts : TransitService) (ops : List Op) :
    ∃ log, (run S ts ops).written = ts.written ++ log ∧
      log.filter (fun w => w.2 ≠ heartbeatFrame S) =
        (arrivals S ts ops).filterMap Arrival.forward := by
  induction ops generalizing ts with
  | nil => exact ⟨[], (List.append_nil _).symm, rfl⟩
  | cons op ops ih =>
    obtain ⟨log, hlog, hforward⟩ := ih (step S ts op)
    refine ⟨(arrivalsAt S ts op).filterMap Arrival.forward ++
      ((beats ts op).map (fun ref => (ref, heartbeatFrame S)) ++ log), ?_, ?_⟩
    · rw [run_cons, hlog, step_written]
      simp only [List.append_assoc]
    · have hkept : ((arrivalsAt S ts op).filterMap Arrival.forward).filter
          (fun w => w.2 ≠ heartbeatFrame S) = (arrivalsAt S ts op).filterMap Arrival.forward := by
        rw [List.filter_eq_self]
        intro w hw
        obtain ⟨a, -, ha⟩ := List.mem_filterMap.1 hw
        exact decide_eq_true (forward_ne_heartbeat ha)
      have hbeats : ((beats ts op).map (fun ref => (ref, heartbeatFrame S))).filter
          (fun w => w.2 ≠ heartbeatFrame S) = [] := by
        rw [List.filter_eq_nil_iff]
        intro w hw
        obtain ⟨ref, -, rfl⟩ := List.mem_map.1 hw
        simp
      rw [List.filter_append, List.filter_append, hkept, hbeats, hforward, List.nil_append,
        arrivals, List.filterMap_append]

def chunksOf (ref : ChannelRef) (ops : List Op) : List (List ZceByte) :=
  ops.filterMap fun
    | .bytes r buf => if r = ref then some buf else none
    | _ => none

def framesOf (ref : ChannelRef) (tr : List Arrival) : List (List ZceByte) :=
  (tr.filter fun a => a.source = ref).map Arrival.frame

theorem framesOf_arriveFrames (ref source : ChannelRef) (outbound : Bool) (rt : Routing)
    (fs : List (List ZceByte)) :
    framesOf ref (arriveFrames S source outbound rt fs) = if source = ref then fs else [] := by
  induction fs generalizing rt with
  | nil => simp [framesOf, arriveFrames]
  | cons f fs ih =>
    have h := ih (handleLinkFrame S source outbound rt f)
    by_cases hsource : source = ref
    · simp only [framesOf, hsource, if_true] at h
      simp [framesOf, arriveFrames, hsource, h]
    · simp only [framesOf, hsource, if_false] at h
      simp [framesOf, arriveFrames, hsource, h]

end TransitService

end Libfgw
