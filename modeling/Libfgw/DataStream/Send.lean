import Libfgw.DataStream.State

namespace Libfgw

open FgwSegmentHeader Lib

namespace DataStream

variable {σ : Type} (S : Setting σ)

def resolveIngressKey (keyArg : ZceUint32) : ZceUint32 :=
  if keyArg = kFgwWireIngressUseLocal then S.config.localIngressId else keyArg

def segmentHeader (wireIngress sid seq : ZceUint32) (flags : ZceByte) (payloadLen : Nat) :
    FgwSegmentHeader :=
  let hdr : FgwSegmentHeader :=
    { flags := flags
      payloadLen := BitVec.ofNat 16 payloadLen
      sessionId := sid
      seqNum := seq
      ingressId := wireIngress }
  if S.config.routeOutportId ≠ 0#32 then
    { hdr with flags := hdr.flags ||| FLAG_HDR_ROUTE, outportId := S.config.routeOutportId }
  else hdr

def handTo (live : List FgwChannel) (ids : List ZceUint32) (frame : List ZceByte) :
    List (FgwChannel × Int) :=
  ids.filterMap fun id =>
    (live.find? (fun ch => ch.channelId = id)).map (fun ch => (ch, ch.sendBytes frame))

def bestOf (live : List FgwChannel) (ids : List ZceUint32) (frame : List ZceByte) : Int :=
  match ids with
  | [] => 0
  | id :: _ =>
    match live.find? (fun ch => ch.channelId = id) with
    | none => 0
    | some ch => if ch.sendBytes frame > 0 then ch.sendBytes frame else 0

/-- The payload is `none` for a null pointer of length 0. -/
def sendSegment (wireIngress sid seq : ZceUint32) (flags : ZceByte)
    (payload : Option (List ZceByte)) (ds : StreamState σ) :
    Except ZfgwErrcode Int × StreamState σ :=
  let payloadLen := (payload.getD []).length
  let hdr := segmentHeader S wireIngress sid seq flags payloadLen
  let hdrSz := if S.config.routeOutportId ≠ 0#32 then ROUTED_HEADER_SIZE else HEADER_SIZE
  let total := hdrSz + payloadLen
  let attempt : Attempt :=
    { key := (wireIngress, sid)
      seq := seq
      flags := flags
      payload := payload.getD []
      time := ds.clock
      selector := ds.selector
      frame := []
      handed := []
      result := .error .memory }
  let dblock := S.mbacquire ds.clock total
  if dblock.length < total then
    (.error .memory, { ds with clock := ds.clock + 1, sent := ds.sent ++ [attempt] })
  else
    match fgwSegmentEncode (some dblock) hdr payload payloadLen with
    | .error e =>
      (.error e, { ds with
        clock := ds.clock + 1
        sent := ds.sent ++ [{ attempt with result := .error e }] })
    | .ok (wrote, dblock) =>
      let frame := dblock.take wrote
      let live := (S.manager ds.clock).liveChannels
      let (ids, selector) := ds.selector.select S.sort live
      if ids.isEmpty then
        (.error .nochannel, { ds with
          clock := ds.clock + 1
          selector := selector
          sent := ds.sent ++ [{ attempt with frame := frame, result := .error .nochannel }] })
      else
        let best := bestOf live ids frame
        let ret := if best > 0 then best else (payloadLen : Int)
        (.ok ret, { ds with
          clock := ds.clock + 1
          selector := selector
          sent := ds.sent ++
            [{ attempt with
                frame := frame
                handed := handTo live ids frame
                result := .ok ret }] })

def openSession (sid : ZceUint32) (handler : Option Handler) (ds : StreamState σ) :
    Except ZfgwErrcode Int × StreamState σ :=
  let key := (S.config.localIngressId, sid)
  if (ds.sessions key).isSome then (.error .busy, ds)
  else
    let ds := ds.setSession key
      { sessionId := sid
        wireIngressId := S.config.localIngressId
        handler := handler
        opened := true }
    (.ok 0, (sendSegment S S.config.localIngressId sid 0#32 FLAG_SYN none ds).2)

def closeSession (sid ingressKey : ZceUint32) (ds : StreamState σ) : StreamState σ :=
  let key := (resolveIngressKey S ingressKey, sid)
  match ds.sessions key with
  | none => ds
  | some st =>
    let ds :=
      if st.closed then ds
      else
        let ds := ds.setSession key { st with nextSendSeq := st.nextSendSeq + 1#32 }
        (sendSegment S st.wireIngressId sid st.nextSendSeq FLAG_FIN none ds).2
    ds.eraseSession key

def chunkSize (left : Nat) : Nat :=
  if left > S.config.segmentSize.toNat then S.config.segmentSize.toNat else left

def sendChunks (key : SessionKey) (sid : ZceUint32) (buf : List ZceByte) :
    Nat → Nat → SessionState → StreamState σ → Except ZfgwErrcode Int × StreamState σ
  | 0, written, _, ds => (.ok (intCast written), ds)
  | fuel + 1, written, st, ds =>
    if written < buf.length then
      let chunk := chunkSize S (buf.length - written)
      let seq := st.nextSendSeq
      let st := { st with nextSendSeq := seq + 1#32 }
      match sendSegment S st.wireIngressId sid seq FLAG_DATA (some ((buf.drop written).take chunk))
          (ds.setSession key st) with
      | (.error e, ds) => (.error e, ds)
      | (.ok _, ds) => sendChunks key sid buf fuel (written + chunk) st ds
    else (.ok (intCast written), ds)

def sendSessionData (sid : ZceUint32) (buf : List ZceByte) (ingressKey : ZceUint32)
    (ds : StreamState σ) : Except ZfgwErrcode Int × StreamState σ :=
  let key := (resolveIngressKey S ingressKey, sid)
  match ds.sessions key with
  | none => (.error .nochannel, ds)
  | some st =>
    if st.closed then (.error .nochannel, ds)
    else sendChunks S key sid buf buf.length 0 st ds

end DataStream

end Libfgw
