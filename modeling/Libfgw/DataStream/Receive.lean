import Libfgw.DataStream.Send
import Libfgw.Segment.Loop

namespace Libfgw

open FgwSegmentHeader Lib

namespace DataStream

variable {σ : Type} (S : Setting σ)

def call (ds : StreamState σ) : Call → StreamState σ
  | .openSession sid handler => (openSession S sid handler ds).2
  | .closeSession sid ingressKey => closeSession S sid ingressKey ds
  | .sendSessionData sid buf ingressKey => (sendSessionData S sid buf ingressKey ds).2

def notify (e : Event) (ds : StreamState σ) : StreamState σ :=
  let (owner, calls) := S.onEvent ds.owner e
  calls.foldl (call S) { ds.logEvent e with owner := owner }

def dedupKey (rxIngress : ZceUint32) (hdr : FgwSegmentHeader) : DedupKey :=
  { ingress := rxIngress
    session := hdr.sessionId
    seq := hdr.seqNum
    kind := if hdr.isSyn then .syn else if hdr.isFin then .fin else .data }

def increment (m : SortedMap ZceUint32 ZceUint32) (id : ZceUint32) :
    SortedMap ZceUint32 ZceUint32 := m.insert id ((m.find? id).getD 0#32 + 1#32)

def noteLoser (ch : ChannelRef) (ds : StreamState σ) : StreamState σ :=
  if (ds.peers ch).channel ≠ 0#32 then
    { ds with peerPartCount := increment ds.peerPartCount (ds.peers ch).channel }
  else ds

def noteWinner (ch : ChannelRef) (ds : StreamState σ) : StreamState σ :=
  if (ds.peers ch).channel ≠ 0#32 then
    { ds with
      peerWinCount := increment ds.peerWinCount (ds.peers ch).channel
      peerPartCount := increment ds.peerPartCount (ds.peers ch).channel }
  else ds

def onHello (ch : ChannelRef) (payload : List ZceByte) (ds : StreamState σ) : StreamState σ :=
  match S.zds.unpackHello payload with
  | none => ds
  | some hello =>
    if hello.protoVersion ≠ kFgwProtoVersion then ds
    else
      let ds := { ds with
        peers := Function.update ds.peers ch ⟨hello.channelId, hello.ingressId, hello.outportId⟩ }
      if hello.generation ≠ 0#32 ∧ hello.generation ≠ ds.peerGeneration then
        { ds with
          peerGeneration := hello.generation
          appliedEpoch := 0#32
          peerWinCount := SortedMap.empty
          peerPartCount := SortedMap.empty }
      else ds

def onAck (payload : List ZceByte) (ds : StreamState σ) : StreamState σ :=
  match S.zds.unpackFeedback payload with
  | none => ds
  | some fb =>
    if fb.decisionEpoch > ds.appliedEpoch then
      let ds := { ds with appliedEpoch := fb.decisionEpoch }
      if fb.recommendedPrimary ≠ 0#32 then
        { ds with selector := { ds.selector with primaryChannelId := fb.recommendedPrimary } }
      else ds
    else ds

def createSession (key : SessionKey) (ds : StreamState σ) : StreamState σ :=
  match S.unknownCb with
  | none => ds.setSession key { sessionId := key.2, wireIngressId := key.1 }
  | some cb =>
    let (owner, handler) := cb ds.owner key
    ({ ds.logEvent (.unknownSession key handler) with owner := owner }).setSession key
      { sessionId := key.2, wireIngressId := key.1, handler := handler }

def ensureSession (key : SessionKey) (ds : StreamState σ) : StreamState σ :=
  if (ds.sessions key).isSome then ds else createSession S key ds

def collectReady : Nat → SessionState → List (List ZceByte) × SessionState
  | 0, st => ([], st)
  | fuel + 1, st =>
    match st.rxBuffer.begin? with
    | none => ([], st)
    | some (seq, blk) =>
      if seq ≠ st.expectedRxSeq then ([], st)
      else
        let (ready, st) := collectReady fuel
          { st with
            rxBuffer := st.rxBuffer.eraseBegin
            expectedRxSeq := st.expectedRxSeq + 1#32 }
        (blk :: ready, st)

def deliverInOrder (key : SessionKey) (st : SessionState) (ds : StreamState σ) : StreamState σ :=
  match st.handler with
  | none => ds
  | some handler =>
    let (ready, st') := collectReady st.rxBuffer.size st
    ready.foldl
      (fun ds blk =>
        if blk.length > 0 then notify S (.sessionData key handler st.sessionId blk) ds else ds)
      (ds.setSession key st')

def onSyn (key : SessionKey) (ds : StreamState σ) : StreamState σ :=
  let ds := ensureSession S key ds
  match (ds.sessions key).bind SessionState.handler with
  | none => ds
  | some handler => notify S (.sessionOpen key handler key.2) ds

def onFin (key : SessionKey) (ds : StreamState σ) : StreamState σ :=
  match ds.sessions key with
  | none => ds
  | some st =>
    match st.handler with
    | none => ds.eraseSession key
    | some handler => (notify S (.sessionClose key handler key.2) ds).eraseSession key

def onData (key : SessionKey) (seq : ZceUint32) (payload : List ZceByte) (ds : StreamState σ) :
    StreamState σ :=
  let ds := ensureSession S key ds
  match ds.sessions key with
  | none => ds
  | some st =>
    let block := S.mbacquire ds.clock payload.length
    let st :=
      if block.length ≥ payload.length then { st with rxBuffer := st.rxBuffer.emplace seq payload }
      else st
    deliverInOrder S key st ({ ds with clock := ds.clock + 1 }.setSession key st)

def outsideWindow (key : SessionKey) (seq : ZceUint32) (ds : StreamState σ) : Prop :=
  let expected := ((ds.sessions key).map SessionState.expectedRxSeq).getD 0#32
  (seq - expected).toNat ≥ S.config.recvWindow.toNat

instance (key : SessionKey) (seq : ZceUint32) (ds : StreamState σ) :
    Decidable (outsideWindow S key seq ds) := inferInstanceAs (Decidable (_ ≥ _))

def carriesData (hdr : FgwSegmentHeader) : Bool := hdr.isData && decide (hdr.payloadLen.toNat > 0)

def acceptSegment (key : SessionKey) (hdr : FgwSegmentHeader) (payload : List ZceByte)
    (ds : StreamState σ) : StreamState σ :=
  let ds := if hdr.isSyn then onSyn S key ds else ds
  if hdr.isFin then onFin S key ds
  else if carriesData hdr then onData S key hdr.seqNum payload ds
  else ds

def frameKey (hdr : FgwSegmentHeader) : SessionKey :=
  (if hdr.isHdrExt then hdr.ingressId else 0#32, hdr.sessionId)

def onSessionSegment (ch : ChannelRef) (hdr : FgwSegmentHeader) (payload : List ZceByte)
    (ds : StreamState σ) : StreamState σ :=
  let skey := frameKey hdr
  let dk := dedupKey skey.1 hdr
  if ds.dedup.map dk then noteLoser ch ds
  else if carriesData hdr ∧ outsideWindow S skey hdr.seqNum ds then ds
  else
    acceptSegment S skey hdr payload
      (noteWinner ch { ds with dedup := ds.dedup.record kDedupRing dk })

def onFrame (ch : ChannelRef) (hr : Nat) (hdr : FgwSegmentHeader) (frame : List ZceByte)
    (ds : StreamState σ) : StreamState σ :=
  if S.config.verifyCrc ∧ ¬ fgwSegmentVerifyCrc frame hdr hr then ds
  else
    let payload := (frame.drop hr).take hdr.payloadLen.toNat
    if hdr.isHello then onHello S ch payload ds
    else if hdr.isHeartbeat then ds
    else if hdr.isAck then onAck S payload ds
    else onSessionSegment S ch hdr payload ds

def onChannelBytes (ch : ChannelRef) (buf : List ZceByte) (ds : DataStream σ) : DataStream σ :=
  let (rest, state) := segmentScan (onFrame S ch) (ds.scratch ch ++ buf) ds.toStreamState
  { toStreamState := state, scratch := Function.update ds.scratch ch rest }

end DataStream

end Libfgw
