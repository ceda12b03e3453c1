import Libfgw.Channel
import Libfgw.Lib.KeyRing
import Libfgw.Lib.SortedMap
import Libfgw.Proto
import Libfgw.Segment.Codec

namespace Libfgw

open FgwSegmentHeader Lib

abbrev Handler := Nat

abbrev SessionKey := ZceUint32 × ZceUint32

inductive SegmentKind
  | data | syn | fin
  deriving DecidableEq

structure DedupKey where
  ingress : ZceUint32
  session : ZceUint32
  seq : ZceUint32
  kind : SegmentKind
  deriving DecidableEq

def kDedupRing : Nat := 4096

structure SessionState where
  sessionId : ZceUint32 := 0#32
  wireIngressId : ZceUint32 := 0#32
  nextSendSeq : ZceUint32 := 0#32
  expectedRxSeq : ZceUint32 := 0#32
  rxBuffer : SortedMap ZceUint32 (List ZceByte) := SortedMap.empty
  handler : Option Handler := none
  opened : Bool := false
  closed : Bool := false

structure PeerIdentity where
  channel : ZceUint32 := 0#32
  ingress : ZceUint32 := 0#32
  outport : ZceUint32 := 0#32
  deriving DecidableEq

/-- A call that the stream makes to its owner. -/
inductive Event
  | unknownSession (key : SessionKey) (handler : Option Handler)
  | sessionOpen (key : SessionKey) (handler : Handler) (sid : ZceUint32)
  | sessionData (key : SessionKey) (handler : Handler) (sid : ZceUint32) (buf : List ZceByte)
  | sessionClose (key : SessionKey) (handler : Handler) (sid : ZceUint32)
  deriving DecidableEq

def Event.key : Event → SessionKey
  | .unknownSession key _ => key
  | .sessionOpen key _ _ => key
  | .sessionData key _ _ _ => key
  | .sessionClose key _ _ => key

/-- A call that a handler makes back into the stream. -/
inductive Call
  | openSession (sid : ZceUint32) (handler : Option Handler)
  | closeSession (sid ingressKey : ZceUint32)
  | sendSessionData (sid : ZceUint32) (buf : List ZceByte) (ingressKey : ZceUint32)

/-- One call of `sendSegment`: what it was asked to send and when, the frame and the
channels that got it with their answers, and its result. -/
structure Attempt where
  key : SessionKey
  seq : ZceUint32
  flags : ZceByte
  payload : List ZceByte
  time : Nat
  selector : LinkSelector
  frame : List ZceByte
  handed : List (FgwChannel × Int)
  result : Except ZfgwErrcode Int

structure StreamConfig where
  localIngressId : ZceUint32
  segmentSize : ZceUint16
  recvWindow : ZceUint16
  verifyCrc : Bool
  routeOutportId : ZceUint32
  segmentSize_pos : 0 < segmentSize.toNat
  segmentSize_le : segmentSize.toNat ≤ MAX_PAYLOAD
  recvWindow_pos : 0 < recvWindow.toNat

def StreamConfig.make (localIngressId : ZceUint32) (segmentSize recvWindow : ZceUint16)
    (verifyCrc : Bool) (routeOutportId : ZceUint32) : StreamConfig where
  localIngressId := localIngressId
  segmentSize :=
    if segmentSize = 0#16 ∨ segmentSize.toNat > MAX_PAYLOAD then 1200#16 else segmentSize
  recvWindow := if recvWindow = 0#16 then 1024#16 else recvWindow
  verifyCrc := verifyCrc
  routeOutportId := routeOutportId
  segmentSize_pos := by
    split
    · decide
    · bv_omega
  segmentSize_le := by
    split
    · decide
    · omega
  recvWindow_pos := by
    split
    · decide
    · bv_omega

/-- Everything around a stream: its configuration, the channels and the memory blocks
that its calls find as time passes, and its owner, whose state is a `σ`. -/
structure Setting (σ : Type) where
  config : StreamConfig
  manager : Nat → ChannelManager
  mbacquire : Nat → Nat → List ZceByte
  sort : StdSort
  zds : ZdsCodec
  unknownCb : Option (σ → SessionKey → σ × Option Handler)
  onEvent : σ → Event → σ × List Call

def Setting.quiet (config : StreamConfig) (manager : ChannelManager) (zds : ZdsCodec)
    (handler : Option Handler := none) : Setting Unit where
  config := config
  manager _ := manager
  mbacquire _ n := List.replicate n 0#8
  sort := stableSort
  zds := zds
  unknownCb := handler.map (fun h _ _ => ((), some h))
  onEvent _ _ := ((), [])

/-- A stream but for the bytes that wait on its channels. -/
structure StreamState (σ : Type) where
  sessions : SessionKey → Option SessionState
  dedup : KeyRing DedupKey
  peerWinCount : SortedMap ZceUint32 ZceUint32
  peerPartCount : SortedMap ZceUint32 ZceUint32
  feedbackEpoch : ZceUint32
  appliedEpoch : ZceUint32
  peerGeneration : ZceUint32
  peers : ChannelRef → PeerIdentity
  selector : LinkSelector
  owner : σ
  clock : Nat
  events : List Event
  sent : List Attempt
  feedbackSent : List (FgwLinkFeedback × List ZceByte × List FgwChannel)

/-- A stream, with the partial frame that waits on each channel. -/
structure DataStream (σ : Type) extends StreamState σ where
  scratch : ChannelRef → List ZceByte

namespace StreamState

variable {σ : Type}

def init (owner : σ) (selector : LinkSelector := {}) : StreamState σ where
  sessions _ := none
  dedup := KeyRing.empty
  peerWinCount := SortedMap.empty
  peerPartCount := SortedMap.empty
  feedbackEpoch := 0#32
  appliedEpoch := 0#32
  peerGeneration := 0#32
  peers _ := {}
  selector := selector
  owner := owner
  clock := 0
  events := []
  sent := []
  feedbackSent := []

def setSession (ds : StreamState σ) (key : SessionKey) (st : SessionState) : StreamState σ :=
  { ds with sessions := Function.update ds.sessions key (some st) }

def eraseSession (ds : StreamState σ) (key : SessionKey) : StreamState σ :=
  { ds with sessions := Function.update ds.sessions key none }

def logEvent (ds : StreamState σ) (e : Event) : StreamState σ :=
  { ds with events := ds.events ++ [e] }

end StreamState

def DataStream.init {σ : Type} (owner : σ) (selector : LinkSelector := {}) : DataStream σ where
  toStreamState := StreamState.init owner selector
  scratch _ := []

end Libfgw
