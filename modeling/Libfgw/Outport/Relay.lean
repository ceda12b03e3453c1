import Libfgw.DataStream.State
import Libfgw.Segment.Header

namespace Libfgw

def SOCKS5_VER : ZceByte := 0x05#8
def SOCKS5_CMD_CONNECT : ZceByte := 0x01#8
def SOCKS5_ATYP_IPV4 : ZceByte := 0x01#8
def SOCKS5_ATYP_DOMAIN : ZceByte := 0x03#8
def SOCKS5_ATYP_IPV6 : ZceByte := 0x04#8
def SOCKS5_REP_OK : ZceByte := 0x00#8
def SOCKS5_REP_HOSTUNREACH : ZceByte := 0x04#8
def SOCKS5_REP_CMDNOTSUP : ZceByte := 0x07#8

def ascii (c : Char) : ZceByte := BitVec.ofNat 8 c.toNat

def decimal (b : ZceByte) : ZceAstring := (Nat.toDigits 10 b.toNat).map ascii

def hex2 (b : ZceByte) : ZceAstring :=
  [ascii (Nat.digitChar (b.toNat / 16)), ascii (Nat.digitChar (b.toNat % 16))]

/-- What a relay finds around it: what `start_connect` answers to the dial of the relay at some
address, and whether a block of some size is obtained, filled and written. -/
structure Sockets where
  startConnect : Handler → Int
  acquires : Nat → Bool

inductive RelayState
  | awaitMethods | awaitRequest | connecting | relaying | closed
  deriving DecidableEq

/-- `reached`, `dials`, `written` and `calls` log the states that the relay has taken, what it has
dialed, the bytes that it has written to its target, and its calls into the stream. -/
structure FgwRelaySession where
  ref : Handler
  peerIngressId : ZceUint32
  sessionId : ZceUint32
  state : RelayState := .awaitMethods
  rxBuffer : List ZceByte := []
  remoteTcp : Bool := false
  reached : List RelayState := []
  dials : List FgwEndpoint := []
  written : List ZceByte := []
  calls : List Call := []

namespace FgwRelaySession

def setState (state : RelayState) (s : FgwRelaySession) : FgwRelaySession :=
  { s with state := state, reached := s.reached ++ [state] }

def toPeer (buf : List ZceByte) (s : FgwRelaySession) : Call :=
  .sendSessionData s.sessionId buf s.peerIngressId

def sendToPeer (buf : List ZceByte) (s : FgwRelaySession) : FgwRelaySession :=
  { s with calls := s.calls ++ [s.toPeer buf] }

def reply (rep : ZceByte) : List ZceByte :=
  [SOCKS5_VER, rep, 0x00#8, SOCKS5_ATYP_IPV4, 0#8, 0#8, 0#8, 0#8, 0#8, 0#8]

def writeReply (rep : ZceByte) (s : FgwRelaySession) : FgwRelaySession := s.sendToPeer (reply rep)

def close (s : FgwRelaySession) : FgwRelaySession :=
  if s.state = .closed then s
  else
    let s := s.setState .closed
    { s with
      remoteTcp := false
      calls := s.calls ++ [.closeSession s.sessionId s.peerIngressId] }

variable (K : Sockets)

def startConnect (host : ZceAstring) (port : ZceUint16) (s : FgwRelaySession) : FgwRelaySession :=
  let s := { s with remoteTcp := true, dials := s.dials ++ [⟨host, port⟩] }
  if K.startConnect s.ref < 0 then (s.writeReply SOCKS5_REP_HOSTUNREACH).close else s

def tryParseMethods (s : FgwRelaySession) : Int × FgwRelaySession :=
  if s.rxBuffer.length < 2 then (0, s)
  else if byteAt s.rxBuffer 0 ≠ SOCKS5_VER then (-1, s.close)
  else
    let nmethods := (byteAt s.rxBuffer 1).toNat
    if s.rxBuffer.length < 2 + nmethods then (0, s)
    else
      let s := { s with rxBuffer := s.rxBuffer.drop (2 + nmethods) }
      ((2 + nmethods : Nat), (s.sendToPeer [SOCKS5_VER, 0x00#8]).setState .awaitRequest)

def ipv4Host (rx : List ZceByte) : ZceAstring :=
  decimal (byteAt rx 4) ++ [ascii '.'] ++ decimal (byteAt rx 5) ++ [ascii '.'] ++
    decimal (byteAt rx 6) ++ [ascii '.'] ++ decimal (byteAt rx 7)

def ipv6Host (rx : List ZceByte) : ZceAstring :=
  (List.range 8).flatMap fun i =>
    (if i ≠ 0 then [ascii ':'] else []) ++ hex2 (byteAt rx (4 + 2 * i)) ++
      hex2 (byteAt rx (4 + 2 * i + 1))

def domainHost (dlen : Nat) (rx : List ZceByte) : ZceAstring := (rx.drop 5).take dlen

def portAt (rx : List ZceByte) (i : Nat) : ZceUint16 := unpackBe16 (rx.drop i)

/-- A request of `need` bytes with this target, once all of it is there. -/
def takeRequest (need : Nat) (host : ZceAstring) (port : ZceUint16) (s : FgwRelaySession) :
    Int × FgwRelaySession :=
  if s.rxBuffer.length < need then (0, s)
  else
    let cmd := byteAt s.rxBuffer 1
    let s := { s with rxBuffer := s.rxBuffer.drop need }
    if cmd ≠ SOCKS5_CMD_CONNECT then (-1, (s.writeReply SOCKS5_REP_CMDNOTSUP).close)
    else ((need : Int), startConnect K host port (s.setState .connecting))

def tryParseRequest (s : FgwRelaySession) : Int × FgwRelaySession :=
  let rx := s.rxBuffer
  if rx.length < 5 then (0, s)
  else if byteAt rx 0 ≠ SOCKS5_VER then (-1, s.close)
  else
    let atyp := byteAt rx 3
    if atyp = SOCKS5_ATYP_IPV4 then takeRequest K 10 (ipv4Host rx) (portAt rx 8) s
    else if atyp = SOCKS5_ATYP_DOMAIN then
      let dlen := (byteAt rx 4).toNat
      takeRequest K (4 + 1 + dlen + 2) (domainHost dlen rx) (portAt rx (5 + dlen)) s
    else if atyp = SOCKS5_ATYP_IPV6 then takeRequest K 22 (ipv6Host rx) (portAt rx 20) s
    else (-1, (s.writeReply SOCKS5_REP_CMDNOTSUP).close)

def flush (s : FgwRelaySession) : FgwRelaySession :=
  let data := s.rxBuffer
  let s := { s with rxBuffer := [] }
  if data ≠ [] ∧ s.remoteTcp ∧ K.acquires data.length then { s with written := s.written ++ data }
  else s

/-- The loop of `feedRx`.  It leaves each of its parsing states at most once. -/
def feedLoop : Nat → FgwRelaySession → FgwRelaySession
  | 0, s => s
  | fuel + 1, s =>
    match s.state with
    | .awaitMethods =>
      let (ret, s) := tryParseMethods s
      if ret ≤ 0 then s else feedLoop fuel s
    | .awaitRequest =>
      let (ret, s) := tryParseRequest K s
      if ret ≤ 0 then s else feedLoop fuel s
    | .relaying => flush K s
    | _ => s

def feedRx (buf : List ZceByte) (s : FgwRelaySession) : FgwRelaySession :=
  feedLoop K 3 { s with rxBuffer := s.rxBuffer ++ buf }

def onSessionData (buf : List ZceByte) (s : FgwRelaySession) : FgwRelaySession := feedRx K buf s

def onSessionClose (s : FgwRelaySession) : FgwRelaySession := s.close

def onRemoteOpen (s : FgwRelaySession) : FgwRelaySession :=
  flush K ((s.writeReply SOCKS5_REP_OK).setState .relaying)

def onRemoteBytes (buf : List ZceByte) (s : FgwRelaySession) : FgwRelaySession := s.sendToPeer buf

def onRemoteClose (s : FgwRelaySession) : FgwRelaySession := s.close

end FgwRelaySession

end Libfgw
