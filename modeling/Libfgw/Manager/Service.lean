import Libfgw.Channel
import Libfgw.Lib.SortedMap
import Libfgw.Proto
import Mathlib.Algebra.Order.BigOperators.Group.List
import Mathlib.Algebra.Order.Group.Nat

namespace Libfgw

open Lib

/-- What a process finds around it: where the allocator places a new channel when some
addresses are in use, what `start_connect` answers, and what `random_device` has given. -/
structure Host where
  address : Nat → List ChannelRef → ChannelRef
  address_fresh : ∀ n used, address n used ∉ used
  startConnect : Nat → Int
  randomDevice : ZceUint32 := 1#32

def Host.reusing (startConnect : Nat → Int) : Host where
  address _ used := if 1 ∈ used then used.sum + 1 else 1
  address_fresh := by
    intro n used
    split
    · intro hmem
      exact Nat.not_succ_le_self _ (List.le_sum_of_mem hmem)
    · assumption
  startConnect := startConnect

def fgwProcessGeneration (H : Host) : ZceUint32 :=
  if H.randomDevice = 0#32 then 1#32 else H.randomDevice

inductive LinkState
  | down | opening | up
  deriving DecidableEq

/-- A registered channel.  `opened` counts the channel objects made before this one. -/
structure LinkChannel where
  ref : ChannelRef
  kind : ZceByte := ZFGW_CHANNEL_TCP
  priority : ZceUint32 := 100#32
  remote : FgwEndpoint := {}
  accepted : Bool := false
  state : LinkState
  opened : Nat
  deriving DecidableEq

/-- A one-shot timer with what its lambda has captured.  `opened` is the channel that the
redial was scheduled for; nothing reads it. -/
inductive Timer
  | remove (channelId : ZceUint32)
  | reconnect (cfg : FgwChannelConfig) (backoffSeconds : Nat) (opened : Nat)
  deriving DecidableEq

def Timer.channelId : Timer → ZceUint32
  | .remove channelId => channelId
  | .reconnect cfg _ _ => cfg.channelId

def Timer.Redials (id : ZceUint32) : Timer → Prop
  | .remove _ => False
  | .reconnect cfg _ _ => cfg.channelId = id

instance (id : ZceUint32) : DecidablePred (Timer.Redials id)
  | .remove _ => inferInstanceAs (Decidable False)
  | .reconnect cfg _ _ => inferInstanceAs (Decidable (cfg.channelId = id))

structure Dial where
  channelId : ZceUint32
  remote : FgwEndpoint
  ret : Int
  deriving DecidableEq

abbrev StreamRef := Nat

structure ManagerState where
  config : FgwConfig
  channels : SortedMap ZceUint32 LinkChannel
  acceptedIdSeq : ZceUint32
  linkAcceptor : Bool
  heartbeatTimer : Option Nat
  bytesSubscribers : List StreamRef
  timers : List Timer
  clock : Nat
  dials : List Dial
  hellos : List FgwHello

namespace ChannelManager

def init : ManagerState where
  config := {}
  channels := SortedMap.empty
  acceptedIdSeq := 0x80000000#32
  linkAcceptor := false
  heartbeatTimer := none
  bytesSubscribers := []
  timers := []
  clock := 0
  dials := []
  hellos := []

def refs (m : ManagerState) : List ChannelRef := m.channels.entries.map (fun e => e.2.ref)

def isKnownKind (kind : ZceByte) : Bool := kind == ZFGW_CHANNEL_TCP || kind == ZFGW_CHANNEL_UTP

variable (H : Host)

def connect (cfg : FgwChannelConfig) (n : Nat) : Int :=
  if cfg.kind = ZFGW_CHANNEL_TCP then H.startConnect n else ZfgwErrcode.invalidconfig.toInt

def dialedChannel (cfg : FgwChannelConfig) (m : ManagerState) : LinkChannel where
  ref := H.address m.clock (refs m)
  kind := cfg.kind
  priority := cfg.priority
  remote := cfg.remote
  state := if connect H cfg m.clock < 0 then .down else .opening
  opened := m.clock

def dial (cfg : FgwChannelConfig) (m : ManagerState) : ManagerState :=
  { m with
    channels := m.channels.insert cfg.channelId (dialedChannel H cfg m)
    clock := m.clock + 1
    dials := m.dials ++ [⟨cfg.channelId, cfg.remote, connect H cfg m.clock⟩] }

def addChannel (cfg : FgwChannelConfig) (m : ManagerState) : Int × ManagerState :=
  if (m.channels.find? cfg.channelId).isSome then (ZfgwErrcode.channelexists.toInt, m)
  else if isKnownKind cfg.kind then (connect H cfg m.clock, dial H cfg m)
  else (ZfgwErrcode.invalidconfig.toInt, m)

def unregister (channelId : ZceUint32) (m : ManagerState) : ManagerState :=
  { m with channels := m.channels.erase channelId }

def removeChannel (channelId : ZceUint32) (m : ManagerState) : Int × ManagerState :=
  match m.channels.find? channelId with
  | none => (ZfgwErrcode.channelnotfound.toInt, m)
  | some _ => (0, unregister channelId m)

def startHeartbeat (m : ManagerState) : ManagerState :=
  let interval := m.config.heartbeatInterval.toNat
  { m with heartbeatTimer := some (if interval > 0 then interval else 5) }

def setConfig (cfg : FgwConfig) (m : ManagerState) : ManagerState := { m with config := cfg }

def start (cfg : FgwConfig) (m : ManagerState) : Int × ManagerState :=
  (0, startHeartbeat
    (cfg.channels.foldl (fun m ccfg => (addChannel H ccfg m).2) (setConfig cfg m)))

def stop (m : ManagerState) : ManagerState :=
  { m with
    linkAcceptor := false
    heartbeatTimer := none
    bytesSubscribers := []
    channels := SortedMap.empty }

def startLinkListener (ret : Int) (m : ManagerState) : Int × ManagerState :=
  if m.linkAcceptor then (ZfgwErrcode.busy.toInt, m)
  else if ret < 0 then (ZfgwErrcode.listenfail.toInt, m)
  else (0, { m with linkAcceptor := true })

def acceptedChannel (m : ManagerState) : LinkChannel where
  ref := H.address m.clock (refs m)
  accepted := true
  state := .opening
  opened := m.clock

def makeAcceptedChannel (m : ManagerState) : ManagerState :=
  { m with
    channels := m.channels.insert m.acceptedIdSeq (acceptedChannel H m)
    acceptedIdSeq := m.acceptedIdSeq + 1#32
    clock := m.clock + 1 }

def helloOf (channelId : ZceUint32) (m : ManagerState) : FgwHello where
  protoVersion := kFgwProtoVersion
  role := m.config.role
  ingressId := m.config.ingressId
  outportId := 0#32
  channelId := channelId
  generation := fgwProcessGeneration H

def setLink (channelId : ZceUint32) (chan : LinkChannel) (state : LinkState) (m : ManagerState) :
    ManagerState := { m with channels := m.channels.insert channelId { chan with state := state } }

def onChannelConnected (channelId : ZceUint32) (chan : LinkChannel) (m : ManagerState) :
    ManagerState :=
  let m := setLink channelId chan .up m
  { m with hellos := m.hellos ++ [helloOf H channelId m] }

def redialConfig (config : FgwConfig) (channelId : ZceUint32) : FgwChannelConfig :=
  match config.channels.find? (fun c => c.channelId = channelId) with
  | none => { channelId := channelId }
  | some c => { channelId := channelId, kind := c.kind, remote := c.remote, priority := c.priority }

def reconnectBackoff (config : FgwConfig) : Nat :=
  if config.reconnectMax.toNat > 0 then config.reconnectMax.toNat else 30

def schedule (t : Timer) (m : ManagerState) : ManagerState := { m with timers := m.timers ++ [t] }

def scheduleReconnect (cfg : FgwChannelConfig) (backoffSeconds opened : Nat) (m : ManagerState) :
    ManagerState := schedule (.reconnect cfg backoffSeconds opened) m

def onChannelClosed (channelId : ZceUint32) (chan : LinkChannel) (m : ManagerState) :
    ManagerState :=
  let m := setLink channelId chan .down m
  if chan.accepted then schedule (.remove channelId) m
  else
    scheduleReconnect (redialConfig m.config channelId) (reconnectBackoff m.config) chan.opened m

def expire (t : Timer) (m : ManagerState) : ManagerState := { m with timers := m.timers.erase t }

def fire : Timer → ManagerState → ManagerState
  | .remove channelId, m => (removeChannel channelId m).2
  | .reconnect cfg _ _, m => (addChannel H cfg (removeChannel cfg.channelId m).2).2

def addBytesSubscriber (stream : StreamRef) (m : ManagerState) : ManagerState :=
  if stream ∈ m.bytesSubscribers then m
  else { m with bytesSubscribers := m.bytesSubscribers ++ [stream] }

def removeBytesSubscriber (stream : StreamRef) (m : ManagerState) : ManagerState :=
  { m with bytesSubscribers := m.bytesSubscribers.filter (· ≠ stream) }

/-- What can happen to a manager.  `closed` is a lost connection, or a dial that fails
after it has been started. -/
inductive Op
  | start (cfg : FgwConfig)
  | stop
  | addChannel (cfg : FgwChannelConfig)
  | removeChannel (channelId : ZceUint32)
  | startLinkListener (ret : Int)
  | accept
  | connected (channelId : ZceUint32)
  | closed (channelId : ZceUint32)
  | timer (t : Timer)
  | addBytesSubscriber (stream : StreamRef)
  | removeBytesSubscriber (stream : StreamRef)

/-- The channel that reports is registered: `close` cuts a channel off before it goes. -/
def step (m : ManagerState) : Op → ManagerState
  | .start cfg => (start H cfg m).2
  | .stop => stop m
  | .addChannel cfg => (addChannel H cfg m).2
  | .removeChannel channelId => (removeChannel channelId m).2
  | .startLinkListener ret => (startLinkListener ret m).2
  | .accept => if m.linkAcceptor then makeAcceptedChannel H m else m
  | .connected channelId =>
    match m.channels.find? channelId with
    | none => m
    | some chan => if chan.state = .opening then onChannelConnected H channelId chan m else m
  | .closed channelId =>
    match m.channels.find? channelId with
    | none => m
    | some chan => if chan.state = .down then m else onChannelClosed channelId chan m
  | .timer t => if t ∈ m.timers then fire H t (expire t m) else m
  | .addBytesSubscriber stream => addBytesSubscriber stream m
  | .removeBytesSubscriber stream => removeBytesSubscriber stream m

def run (m : ManagerState) (ops : List Op) : ManagerState := ops.foldl (step H) m

@[simp] theorem run_nil (m : ManagerState) : run H m [] = m := rfl

@[simp] theorem run_cons (m : ManagerState) (op : Op) (ops : List Op) :
    run H m (op :: ops) = run H (step H m op) ops := rfl

theorem run_append (m : ManagerState) (ops ops' : List Op) :
    run H m (ops ++ ops') = run H (run H m ops) ops' := List.foldl_append

end ChannelManager

end Libfgw
