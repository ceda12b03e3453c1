import Libfgw.Base

namespace Libfgw

structure FgwHello where
  protoVersion : ZceUint16 := 2#16
  role : ZceByte := 0#8
  ingressId : ZceUint32 := 0#32
  outportId : ZceUint32 := 0#32
  channelId : ZceUint32 := 0#32
  generation : ZceUint32 := 0#32
  deriving DecidableEq

structure FgwLinkFeedback where
  decisionEpoch : ZceUint32 := 0#32
  recommendedPrimary : ZceUint32 := 0#32
  aliveBitmap : ZceUint32 := 0#32
  highestSeq : ZceUint32 := 0#32
  deriving DecidableEq

def ZFGW_ROLE_INPORT : ZceByte := 0#8
def ZFGW_ROLE_OUTPORT : ZceByte := 1#8
def ZFGW_ROLE_TRANSIT : ZceByte := 2#8

def ZFGW_CHANNEL_TCP : ZceByte := 0#8
def ZFGW_CHANNEL_UTP : ZceByte := 1#8

structure FgwEndpoint where
  host : ZceAstring := []
  port : ZceUint16 := 0#16
  deriving DecidableEq

structure FgwChannelConfig where
  channelId : ZceUint32
  kind : ZceByte := ZFGW_CHANNEL_TCP
  remote : FgwEndpoint := {}
  priority : ZceUint32 := 100#32
  deriving DecidableEq

structure FgwConfig where
  role : ZceByte := ZFGW_ROLE_INPORT
  ingressId : ZceUint32 := 0#32
  inportListenPort : ZceUint16 := 1080#16
  outportListenHost : ZceAstring := []
  outportListenPort : ZceUint16 := 0#16
  channels : List FgwChannelConfig := []
  segmentSize : ZceUint16 := 1200#16
  recvWindow : ZceUint16 := 1024#16
  heartbeatInterval : ZceUint16 := 5#16
  linkTimeout : ZceUint16 := 15#16
  reconnectMax : ZceUint16 := 60#16
  multipathMode : ZceByte := 2#8
  enableCrc : ZceByte := 1#8
  routeOutportId : ZceUint32 := 0#32
  configVersion : ZceUint32 := 0#32
  deriving DecidableEq

def kFgwConfigVersion : ZceUint32 := 0xF6C00003#32

def fgwConfigVersionOk (v : ZceUint32) : Bool := v == kFgwConfigVersion

/-- The packing of the two payloads, which the serialisation library does.  Unpacking
gives `none` where the library returns a negative length, and packing gives the bytes
written to a buffer of the given size. -/
structure ZdsCodec where
  unpackHello : List ZceByte → Option FgwHello
  unpackFeedback : List ZceByte → Option FgwLinkFeedback
  packFeedback : Nat → FgwLinkFeedback → Option (List ZceByte)
  packFeedback_length : ∀ {n fb p}, packFeedback n fb = some p → p.length ≤ n

def ZdsCodec.known (hellos : List (List ZceByte × FgwHello))
    (feedbacks : List (List ZceByte × FgwLinkFeedback)) : ZdsCodec where
  unpackHello p := hellos.lookup p
  unpackFeedback p := feedbacks.lookup p
  packFeedback _ _ := none
  packFeedback_length h := nomatch h

end Libfgw
