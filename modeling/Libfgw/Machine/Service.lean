import Libfgw.Manager.Linked
import Libfgw.Transit.Service

namespace Libfgw

open Lib

def ZfgwMultipathMode.ofByte (mode : ZceByte) : ZfgwMultipathMode :=
  if mode = 0#8 then .best else if mode = 1#8 then .all else .weighted

def FgwConfig.streamConfig (config : FgwConfig) : StreamConfig :=
  StreamConfig.make config.ingressId config.segmentSize config.recvWindow (config.enableCrc != 0#8)
    config.routeOutportId

/-- What the bring-ups of a machine find around them, each by its number.  They share the process. -/
structure Env (σ : Type) where
  host : Nat → Host
  setting : Nat → Setting σ
  owner : Nat → σ
  one_process : ∀ n, (host n).randomDevice = (host 0).randomDevice

/-- The Inport service.  Its sessions are part of the owner of its stream. -/
structure InportObject where
  stream : Nat
  acceptor : Bool := false

/-- The Outport service.  Its relays are part of the owner of its stream. -/
structure OutportObject where
  stream : Nat

/-- A stream with its construction arguments.  `hooked` says whether it has got a callback for
unknown sessions. -/
structure StreamObject (σ : Type) where
  bringup : Nat
  config : StreamConfig
  hooked : Bool := false
  state : DataStream σ

structure TransitObject where
  bringup : Nat
  config : FgwConfig
  state : TransitService := .init
  acceptor : Bool := false
  heartbeatTimer : Option Nat := none

structure Emission where
  bringup : Nat
  fb : FgwLinkFeedback
  frame : List ZceByte
  live : List FgwChannel

/-- `bringups` counts the bring-ups that have got a reactor, `role` is the role in force at the last
of them, and `past` is what the streams that are gone have fed back. -/
structure ZfgwMachine (σ : Type) where
  config : FgwConfig := {}
  manager : Option ManagerState := none
  stream : Option (StreamObject σ) := none
  inport : Option InportObject := none
  outport : Option OutportObject := none
  transit : Option TransitObject := none
  running : Bool := false
  bringups : Nat := 0
  role : ZceByte := ZFGW_ROLE_INPORT
  past : List Emission := []

structure FgwStartResult where
  errcode : Int
  message : String
  deriving DecidableEq

/-- What a bring-up finds: whether there is a reactor, and what `listen` returns to its acceptor. -/
structure Bringup where
  reactor : Bool := true
  listen : Int := 0

namespace InportObject

def start (listen : Int) (svc : InportObject) : Int × InportObject :=
  if svc.acceptor then (ZfgwErrcode.busy.toInt, svc)
  else if listen < 0 then (ZfgwErrcode.listenfail.toInt, svc)
  else (0, { svc with acceptor := true })

end InportObject

namespace StreamObject

variable {σ : Type} (E : Env σ)

def make (n : Nat) (config : FgwConfig) : StreamObject σ where
  bringup := n
  config := config.streamConfig
  state := DataStream.init (E.owner n) { mode := .ofByte config.multipathMode }

def setting (so : StreamObject σ) : Setting σ :=
  { E.setting so.bringup with
    config := so.config
    unknownCb := if so.hooked then (E.setting so.bringup).unknownCb else none }

def emissions (so : StreamObject σ) : List Emission :=
  so.state.feedbackSent.map fun p => ⟨so.bringup, p.1, p.2.1, p.2.2⟩

end StreamObject

namespace OutportObject

variable {σ : Type}

/-- The start of an Outport service only installs the callback. -/
def start (so : StreamObject σ) : Int × StreamObject σ := (0, { so with hooked := true })

end OutportObject

namespace TransitObject

variable {σ : Type}

def setting (E : Env σ) (t : TransitObject) : TransitSetting where
  ingressId := t.config.ingressId
  channels := t.config.channels
  zds := (E.setting t.bringup).zds

def refs (ts : TransitService) : List ChannelRef := ts.links.entries.map Prod.fst

def dialOutports (H : Host) (channels : List FgwChannelConfig) (ts : TransitService) :
    TransitService :=
  channels.zipIdx.foldl
    (fun ts p => TransitService.dialOneOutport p.1 (H.address p.2 (refs ts)) (H.startConnect p.2) ts) ts

def startHeartbeat (t : TransitObject) : TransitObject :=
  let interval := t.config.heartbeatInterval.toNat
  { t with heartbeatTimer := some (if interval > 0 then interval else 5) }

/-- A transit that cannot listen has dialed its outports already. -/
def start (H : Host) (listen : Int) (t : TransitObject) : Int × TransitObject :=
  let t := { t with state := dialOutports H t.config.channels t.state }
  if t.config.outportListenPort ≠ 0#16 then
    if listen < 0 then (ZfgwErrcode.listenfail.toInt, t)
    else (0, startHeartbeat { t with acceptor := true })
  else (0, startHeartbeat t)

def arises (t : TransitObject) : TransitService.Op → Bool
  | .accept _ => t.acceptor
  | .dial _ _ _ => false
  | .heartbeat => t.heartbeatTimer.isSome
  | .stop => false
  | _ => true

end TransitObject

namespace ZfgwMachine

variable {σ : Type} (E : Env σ)

def init : ZfgwMachine σ := {}

def emitted (m : ZfgwMachine σ) : List Emission := m.past ++ (m.stream.map StreamObject.emissions).getD []

def doTeardown (m : ZfgwMachine σ) : ZfgwMachine σ :=
  { m with
    inport := none
    outport := none
    transit := none
    stream := none
    manager := none
    running := false
    past := m.emitted }

def up (m : ZfgwMachine σ) : Int × ZfgwMachine σ := (0, { m with running := true })

def finish (ret : Int) (m : ZfgwMachine σ) : Int × ZfgwMachine σ :=
  if ret < 0 then (ret, m.doTeardown) else m.up

def bringupTransit (b : Bringup) (m : ZfgwMachine σ) : Int × ZfgwMachine σ :=
  let (ret, transit) := TransitObject.start (E.host m.bringups) b.listen
    { bringup := m.bringups, config := m.config }
  finish ret { m with transit := some transit }

def bringupInport (b : Bringup) (m : ZfgwMachine σ) : Int × ZfgwMachine σ :=
  let (ret, inport) := InportObject.start b.listen { stream := m.bringups }
  finish ret { m with inport := some inport }

def bringupOutport (b : Bringup) (manager : ManagerState) (so : StreamObject σ) (m : ZfgwMachine σ) :
    Int × ZfgwMachine σ :=
  let (ret, so) := OutportObject.start so
  let m := { m with outport := some ⟨m.bringups⟩, stream := some so }
  if ret < 0 then (ret, m.doTeardown)
  else if m.config.outportListenPort ≠ 0#16 then
    let (lret, manager) := ChannelManager.startLinkListener b.listen manager
    finish lret { m with manager := some manager }
  else m.up

def bringupLinked (b : Bringup) (m : ZfgwMachine σ) : Int × ZfgwMachine σ :=
  let (ret, manager) := ChannelManager.start (E.host m.bringups) m.config ChannelManager.init
  if ret < 0 then (ret, { m with manager := some manager })
  else
    let manager := ChannelManager.addBytesSubscriber 0 manager
    let so := StreamObject.make E m.bringups m.config
    let m := { m with manager := some manager, stream := some so }
    if m.config.role = ZFGW_ROLE_INPORT then bringupInport b m
    else if m.config.role = ZFGW_ROLE_OUTPORT then bringupOutport b manager so m
    else (ZfgwErrcode.invalidrole.toInt, m.doTeardown)

def doBringup (b : Bringup) (m : ZfgwMachine σ) : Int × ZfgwMachine σ :=
  if m.running then (0, m)
  else if ¬ b.reactor then (ZfgwErrcode.notrunning.toInt, m)
  else
    let m := { m with bringups := m.bringups + 1, role := m.config.role }
    if m.config.role = ZFGW_ROLE_TRANSIT then bringupTransit E b m else bringupLinked E b m

/-- `file` is what reading and unpacking the file gives, or the code of what has failed. -/
def zfgwLoadConfig (file : Except Int FgwConfig) : Except Int FgwConfig :=
  file.bind fun decoded =>
    if fgwConfigVersionOk decoded.configVersion then .ok decoded
    else .error ZfgwErrcode.invalidconfig.toInt

/-- A machine with a stub, which has a directory, loads its configuration first. -/
def start (file : Option (Except Int FgwConfig)) (b : Bringup) (m : ZfgwMachine σ) :
    Int × ZfgwMachine σ :=
  match file.map zfgwLoadConfig with
  | some (.error _) => (0, m)
  | some (.ok config) => doBringup E b { m with config := config }
  | none => doBringup E b m

def mlfStart (forceRestart : ZceByte) (b : Bringup) (m : ZfgwMachine σ) :
    FgwStartResult × ZfgwMachine σ :=
  if m.running ∧ forceRestart = 0#8 then (⟨ZfgwErrcode.busy.toInt, "already running"⟩, m)
  else
    let m := if m.running ∧ forceRestart ≠ 0#8 then m.doTeardown else m
    let (ret, m) := doBringup E b m
    (⟨ret, if ret < 0 then "failed" else "ok"⟩, m)

def mlfStop (m : ZfgwMachine σ) : FgwStartResult × ZfgwMachine σ := (⟨0, "stopped"⟩, m.doTeardown)

def mlfSetConfig (config : FgwConfig) (m : ZfgwMachine σ) : FgwStartResult × ZfgwMachine σ :=
  if fgwConfigVersionOk config.configVersion then (⟨0, "config updated"⟩, { m with config := config })
  else (⟨ZfgwErrcode.invalidconfig.toInt, "incompatible config_version"⟩, m)

def channelResult (ret : Int) : FgwStartResult := ⟨ret, if ret < 0 then "failed" else "ok"⟩

def mlfAddChannel (channel : FgwChannelConfig) (m : ZfgwMachine σ) :
    FgwStartResult × ZfgwMachine σ :=
  match m.manager with
  | none => (channelResult ZfgwErrcode.notrunning.toInt, m)
  | some old =>
    let (ret, manager) := ChannelManager.addChannel (E.host m.bringups) channel old
    let m := { m with
      manager := some manager
      stream := m.stream.map fun so => { so with state := so.state.meetChannels old manager } }
    (channelResult ret,
      if ret ≥ 0 then
        { m with config := { m.config with channels := m.config.channels ++ [channel] } }
      else m)

def mlfRemoveChannel (channelId : ZceUint32) (m : ZfgwMachine σ) :
    FgwStartResult × ZfgwMachine σ :=
  match m.manager with
  | none => (channelResult ZfgwErrcode.notrunning.toInt, m)
  | some manager =>
    let (ret, manager) := ChannelManager.removeChannel channelId manager
    let m := { m with manager := some manager }
    (channelResult ret,
      if ret ≥ 0 then
        { m with config := { m.config with
            channels := m.config.channels.filter (fun c => c.channelId ≠ channelId) } }
      else m)

def arises : LinkedStream.Op σ → Bool
  | .manager op => match op with
    | .accept | .connected _ | .closed _ | .timer _ => true
    | _ => false
  | .bytes _ _ => true
  | .stream op => match op with
    | .openSession _ _ | .closeSession _ _ | .sendSessionData _ _ _ | .owner _ => true
    | _ => false
  | .heartbeat => true

def linkEvent (op : LinkedStream.Op σ) (m : ZfgwMachine σ) : ZfgwMachine σ :=
  match m.manager, m.stream with
  | some manager, some so =>
    let s := LinkedStream.step (E.host m.bringups) (so.setting E) ⟨manager, so.state⟩ op
    { m with manager := some s.manager, stream := some { so with state := s.stream } }
  | _, _ => m

def transitEvent (op : TransitService.Op) (m : ZfgwMachine σ) : ZfgwMachine σ :=
  match m.transit with
  | none => m
  | some t =>
    if t.arises op then
      { m with transit := some { t with state := TransitService.step (t.setting E) t.state op } }
    else m

inductive Op (σ : Type)
  | start (file : Option (Except Int FgwConfig)) (b : Bringup)
  | stop
  | mlfStart (forceRestart : ZceByte) (b : Bringup)
  | mlfStop
  | mlfSetConfig (config : FgwConfig)
  | mlfAddChannel (channel : FgwChannelConfig)
  | mlfRemoveChannel (channelId : ZceUint32)
  | link (op : LinkedStream.Op σ)
  | transit (op : TransitService.Op)

def step (m : ZfgwMachine σ) : Op σ → ZfgwMachine σ
  | .start file b => (start E file b m).2
  | .stop => m.doTeardown
  | .mlfStart forceRestart b => (mlfStart E forceRestart b m).2
  | .mlfStop => (mlfStop m).2
  | .mlfSetConfig config => (mlfSetConfig config m).2
  | .mlfAddChannel channel => (mlfAddChannel E channel m).2
  | .mlfRemoveChannel channelId => (mlfRemoveChannel channelId m).2
  | .link op => if arises op then linkEvent E op m else m
  | .transit op => transitEvent E op m

def run (m : ZfgwMachine σ) (ops : List (Op σ)) : ZfgwMachine σ := ops.foldl (step E) m

@[simp] theorem run_nil (m : ZfgwMachine σ) : run E m [] = m := rfl

@[simp] theorem run_cons (m : ZfgwMachine σ) (op : Op σ) (ops : List (Op σ)) :
    run E m (op :: ops) = run E (step E m op) ops := rfl

theorem run_append (m : ZfgwMachine σ) (ops ops' : List (Op σ)) :
    run E m (ops ++ ops') = run E (run E m ops) ops' := List.foldl_append

end ZfgwMachine

end Libfgw
