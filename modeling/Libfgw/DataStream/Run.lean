import Libfgw.DataStream.Receive
import Libfgw.Lib.Rounding

namespace Libfgw

open FgwSegmentHeader Lib

namespace DataStream

variable {σ : Type} (S : Setting σ)

def double (x : ℚ) : ℚ := Rounding.round 53 x

structure Pick where
  bestId : ZceUint32 := 0#32
  bestPart : ZceUint32 := 0#32
  bestRate : ℚ := -1

def pickPrimaryLocked (ds : StreamState σ) : ZceUint32 :=
  let pick := ds.peerPartCount.entries.foldl
    (fun (best : Pick) (kv : ZceUint32 × ZceUint32) =>
      if kv.2 = 0#32 then best
      else
        let wins := (ds.peerWinCount.find? kv.1).getD 0#32
        let rate := double (wins.toNat / kv.2.toNat)
        if rate > best.bestRate ∨ (rate = best.bestRate ∧ kv.2 > best.bestPart) then
          { bestId := kv.1, bestPart := kv.2, bestRate := rate }
        else best)
    {}
  pick.bestId

def recommendedPrimary (ds : StreamState σ) : ZceUint32 := pickPrimaryLocked ds

def feedbackHeader (plen : Nat) : FgwSegmentHeader :=
  { flags := FLAG_ACK
    payloadLen := BitVec.ofNat 16 plen
    ingressId := S.config.localIngressId }

def emitFeedback (ds : StreamState σ) : StreamState σ :=
  if ds.peerPartCount.entries.isEmpty then ds
  else
    let bestId := pickPrimaryLocked ds
    let ds := { ds with
      peerWinCount := ds.peerWinCount.map (· >>> 1)
      peerPartCount := ds.peerPartCount.map (· >>> 1) }
    if bestId = 0#32 then ds
    else
      let fb : FgwLinkFeedback :=
        { decisionEpoch := ds.feedbackEpoch + 1#32, recommendedPrimary := bestId }
      let ds := { ds with feedbackEpoch := fb.decisionEpoch }
      match S.zds.packFeedback 64 fb with
      | none => ds
      | some payload =>
        match fgwSegmentEncode (some (List.replicate 128 0#8)) (feedbackHeader S payload.length)
            (some payload) payload.length with
        | .error _ => ds
        | .ok (wrote, frame) =>
          { ds with
            clock := ds.clock + 1
            feedbackSent := ds.feedbackSent ++
              [(fb, frame.take wrote, (S.manager ds.clock).liveChannels)] }

/-- What can happen to a stream: a call of the owner, bytes from a channel, a tick of the
heartbeat, and changes of the owner's and the shared selector's state that come from elsewhere. -/
inductive Op (σ : Type)
  | openSession (sid : ZceUint32) (handler : Option Handler)
  | closeSession (sid ingressKey : ZceUint32)
  | sendSessionData (sid : ZceUint32) (buf : List ZceByte) (ingressKey : ZceUint32)
  | onChannelBytes (ch : ChannelRef) (buf : List ZceByte)
  | emitFeedback
  | owner (owner : σ)
  | selector (selector : LinkSelector)

def step (ds : DataStream σ) : Op σ → DataStream σ
  | .openSession sid handler =>
    { ds with toStreamState := (openSession S sid handler ds.toStreamState).2 }
  | .closeSession sid ingressKey =>
    { ds with toStreamState := closeSession S sid ingressKey ds.toStreamState }
  | .sendSessionData sid buf ingressKey =>
    { ds with toStreamState := (sendSessionData S sid buf ingressKey ds.toStreamState).2 }
  | .onChannelBytes ch buf => onChannelBytes S ch buf ds
  | .emitFeedback => { ds with toStreamState := emitFeedback S ds.toStreamState }
  | .owner owner => { ds with owner := owner }
  | .selector selector => { ds with selector := selector }

def run (ds : DataStream σ) (ops : List (Op σ)) : DataStream σ := ops.foldl (step S) ds

@[simp] theorem run_nil (ds : DataStream σ) : run S ds [] = ds := rfl

@[simp] theorem run_cons (ds : DataStream σ) (op : Op σ) (ops : List (Op σ)) :
    run S ds (op :: ops) = run S (step S ds op) ops := rfl

end DataStream

end Libfgw
