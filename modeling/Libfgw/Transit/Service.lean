import Libfgw.Channel
import Libfgw.Lib.SortedMap
import Libfgw.Proto
import Libfgw.Segment.Loop

namespace Libfgw

open FgwSegmentHeader Lib

/-- The configuration of a transit, and the serialisation library that it calls. -/
structure TransitSetting where
  ingressId : ZceUint32 := 0#32
  channels : List FgwChannelConfig := []
  zds : ZdsCodec

structure Link where
  channelId : ZceUint32
  connected : Bool := false
  outbound : Bool := false
  buffer : List ZceByte := []
  deriving DecidableEq

/-- The routing tables, and what has been written to which channel.  `identity` keeps the
ingress that each inbound link has last identified itself as; nothing reads it. -/
structure Routing where
  outboundByOutport : SortedMap ZceUint32 ChannelRef
  inboundByIngress : SortedMap ZceUint32 ChannelRef
  written : List (ChannelRef × List ZceByte)
  identity : ChannelRef → Option ZceUint32

structure TransitService extends Routing where
  links : SortedMap ChannelRef Link
  acceptedIdSeq : ZceUint32
  /-- The links whose deferred removal is still to run. -/
  closing : List ChannelRef
  /-- The outports whose redial timer is still to fire. -/
  redialing : List ZceUint32

namespace Routing

def learn (rt : Routing) (ingress : ZceUint32) (ref : ChannelRef) : Routing :=
  { rt with
    inboundByIngress := rt.inboundByIngress.insert ingress ref
    identity := Function.update rt.identity ref (some ingress) }

def write (rt : Routing) (ref : ChannelRef) (bytes : List ZceByte) : Routing :=
  { rt with written := rt.written ++ [(ref, bytes)] }

end Routing

namespace TransitService

def init : TransitService where
  outboundByOutport := SortedMap.empty
  inboundByIngress := SortedMap.empty
  written := []
  identity _ := none
  links := SortedMap.empty
  acceptedIdSeq := 0x80000000#32
  closing := []
  redialing := []

def findOutbound (rt : Routing) (outportId : ZceUint32) : Option ChannelRef :=
  rt.outboundByOutport.find? outportId

def findInbound (rt : Routing) (ingressId : ZceUint32) : Option ChannelRef :=
  rt.inboundByIngress.find? ingressId

variable (S : TransitSetting)

def onLinkFrame (ref : ChannelRef) (outbound : Bool) (hr : Nat) (hdr : FgwSegmentHeader)
    (frame : List ZceByte) (rt : Routing) : Routing :=
  let total := hr + hdr.payloadLen.toNat
  if hdr.isHello then
    if !outbound then
      match S.zds.unpackHello ((frame.drop hr).take hdr.payloadLen.toNat) with
      | none => rt
      | some hello =>
        if hello.protoVersion = kFgwProtoVersion then rt.learn hello.ingressId ref else rt
    else rt
  else if hdr.isHeartbeat || hdr.isAck then rt
  else if !outbound then
    let rt := rt.learn hdr.ingressId ref
    match findOutbound rt hdr.outportId with
    | none => rt
    | some out => rt.write out (frame.take total)
  else
    match findInbound rt hdr.ingressId with
    | none => rt
    | some inbound => rt.write inbound (frame.take total)

def onLinkBytes (ref : ChannelRef) (buf : List ZceByte) (ts : TransitService) : TransitService :=
  match ts.links.find? ref with
  | none => ts
  | some link =>
    let (rest, rt) := segmentScan (onLinkFrame S ref link.outbound) (link.buffer ++ buf) ts.toRouting
    { ts with toRouting := rt, links := ts.links.insert ref { link with buffer := rest } }

def makeInboundChannel (ref : ChannelRef) (ts : TransitService) : TransitService :=
  { ts with
    acceptedIdSeq := ts.acceptedIdSeq + 1#32
    identity := Function.update ts.identity ref none
    links := ts.links.insert ref { channelId := ts.acceptedIdSeq, outbound := false } }

def scheduleOutportRedial (outportId : ZceUint32) (ts : TransitService) : TransitService :=
  { ts with redialing := ts.redialing ++ [outportId] }

def dialOneOutport (ccfg : FgwChannelConfig) (ref : ChannelRef) (ret : Int) (ts : TransitService) :
    TransitService :=
  let links := match ts.outboundByOutport.find? ccfg.channelId with
    | none => ts.links
    | some old => ts.links.erase old
  let ts := { ts with
    links := links.insert ref { channelId := ccfg.channelId, outbound := true }
    identity := Function.update ts.identity ref none
    outboundByOutport := ts.outboundByOutport.insert ccfg.channelId ref }
  if ret < 0 then scheduleOutportRedial ccfg.channelId ts else ts

def redial (outportId : ZceUint32) (ref : ChannelRef) (ret : Int) (ts : TransitService) :
    TransitService :=
  let ts := { ts with redialing := ts.redialing.erase outportId }
  match S.channels.find? (fun c => c.channelId = outportId) with
  | none => ts
  | some ccfg => dialOneOutport ccfg ref ret ts

def setConnected (ref : ChannelRef) (connected : Bool) (ts : TransitService) : TransitService :=
  match ts.links.find? ref with
  | none => ts
  | some link => { ts with links := ts.links.insert ref { link with connected := connected } }

def onLinkClosed (ref : ChannelRef) (ts : TransitService) : TransitService :=
  { setConnected ref false ts with closing := ts.closing ++ [ref] }

def removeClosed (ref : ChannelRef) (ts : TransitService) : TransitService :=
  let ts := { ts with closing := ts.closing.erase ref }
  match ts.links.find? ref with
  | none => ts
  | some link =>
    let outports := ts.outboundByOutport.entries.filter (fun e => e.2 = ref)
    let ts := { ts with
      outboundByOutport := ts.outboundByOutport.filter (fun e => e.2 ≠ ref)
      inboundByIngress := ts.inboundByIngress.filter (fun e => e.2 ≠ ref)
      links := ts.links.erase ref }
    match link.outbound, outports.getLast? with
    | true, some (outportId, _) => scheduleOutportRedial outportId ts
    | _, _ => ts

def heartbeatHeader : FgwSegmentHeader :=
  { flags := FLAG_HEARTBEAT, ingressId := S.ingressId }

def sendHeartbeat (ref : ChannelRef) (ts : TransitService) : TransitService :=
  match fgwSegmentEncode (some (List.replicate 64 0#8)) (heartbeatHeader S) none 0 with
  | .error _ => ts
  | .ok (wrote, frame) => { ts with toRouting := ts.toRouting.write ref (frame.take wrote) }

def onHeartbeatTick (ts : TransitService) : TransitService :=
  ts.links.entries.foldl (fun ts' e => if e.2.connected then sendHeartbeat S e.1 ts' else ts') ts

def stop (ts : TransitService) : TransitService :=
  { ts with
    links := SortedMap.empty
    outboundByOutport := SortedMap.empty
    inboundByIngress := SortedMap.empty }

inductive Op
  | accept (ref : ChannelRef)
  | dial (ccfg : FgwChannelConfig) (ref : ChannelRef) (ret : Int)
  | connected (ref : ChannelRef)
  | bytes (ref : ChannelRef) (buf : List ZceByte)
  | closed (ref : ChannelRef)
  | removeClosed (ref : ChannelRef)
  | redial (outportId : ZceUint32) (ref : ChannelRef) (ret : Int)
  | heartbeat
  | stop

def unused (ts : TransitService) (ref : ChannelRef) : Bool :=
  (ts.links.find? ref).isNone &&
    ts.outboundByOutport.entries.all (fun e => e.2 ≠ ref) &&
    ts.inboundByIngress.entries.all (fun e => e.2 ≠ ref)

/-- A new channel object gets an unused address, and a timer that fires is one that was set. -/
def step (ts : TransitService) : Op → TransitService
  | .accept ref => if ts.unused ref then makeInboundChannel ref ts else ts
  | .dial ccfg ref ret => if ts.unused ref then dialOneOutport ccfg ref ret ts else ts
  | .connected ref => setConnected ref true ts
  | .bytes ref buf => onLinkBytes S ref buf ts
  | .closed ref => onLinkClosed ref ts
  | .removeClosed ref => if ref ∈ ts.closing then removeClosed ref ts else ts
  | .redial outportId ref ret =>
    if outportId ∈ ts.redialing ∧ ts.unused ref then redial S outportId ref ret ts else ts
  | .heartbeat => onHeartbeatTick S ts
  | .stop => stop ts

def run (ts : TransitService) (ops : List Op) : TransitService := ops.foldl (step S) ts

@[simp] theorem run_nil (ts : TransitService) : run S ts [] = ts := rfl

@[simp] theorem run_cons (ts : TransitService) (op : Op) (ops : List Op) :
    run S ts (op :: ops) = run S (step S ts op) ops := rfl

theorem run_append (ts : TransitService) (ops ops' : List Op) :
    run S ts (ops ++ ops') = run S (run S ts ops) ops' := List.foldl_append

end TransitService

end Libfgw
