import Libfgw.DataStream.Run
import Libfgw.Outport.Relay

namespace Libfgw

open Lib

/-- The relays of an outport.  `sessions` are those that are registered, and `relays` all that have
been made, each at an address of its own. -/
structure OutportService where
  sessions : SessionKey → Option Handler
  relays : Handler → Option FgwRelaySession
  made : Nat

namespace FgwRelaySession

def key (s : FgwRelaySession) : SessionKey := (s.peerIngressId, s.sessionId)

end FgwRelaySession

namespace OutportService

def init : OutportService where
  sessions _ := none
  relays _ := none
  made := 0

def ensureSession (key : SessionKey) (svc : OutportService) : OutportService × Handler :=
  match svc.sessions key with
  | some handler => (svc, handler)
  | none =>
    ({ sessions := Function.update svc.sessions key (some svc.made)
       relays := Function.update svc.relays svc.made
         (some { ref := svc.made, peerIngressId := key.1, sessionId := key.2 })
       made := svc.made + 1 },
      svc.made)

def removeSession (key : SessionKey) (svc : OutportService) : OutportService :=
  { svc with sessions := Function.update svc.sessions key none }

def settle (handler : Handler) (old new : FgwRelaySession) (svc : OutportService) : OutportService :=
  let svc := { svc with relays := Function.update svc.relays handler (some new) }
  if old.state ≠ .closed ∧ new.state = .closed then svc.removeSession old.key else svc

def runRelay (f : FgwRelaySession → FgwRelaySession) (handler : Handler) (svc : OutportService) :
    OutportService × List Call :=
  match svc.relays handler with
  | none => (svc, [])
  | some s =>
    let s' := f { s with calls := [] }
    (svc.settle handler s s', s'.calls)

variable (K : Sockets)

def dataStreamHook (svc : OutportService) (key : SessionKey) : OutportService × Option Handler :=
  let (svc, handler) := svc.ensureSession key
  (svc, some handler)

def onEvent (svc : OutportService) : Event → OutportService × List Call
  | .unknownSession _ _ => (svc, [])
  | .sessionOpen _ _ _ => (svc, [])
  | .sessionData _ handler _ buf => svc.runRelay (FgwRelaySession.onSessionData K buf) handler
  | .sessionClose _ handler _ => svc.runRelay FgwRelaySession.onSessionClose handler

def setting (S : Setting OutportService) : Setting OutportService :=
  { S with unknownCb := some dataStreamHook, onEvent := onEvent K }

inductive Op
  | onChannelBytes (ch : ChannelRef) (buf : List ZceByte)
  | onRemoteOpen (handler : Handler)
  | onRemoteBytes (handler : Handler) (buf : List ZceByte)
  | onRemoteClose (handler : Handler)
  | emitFeedback
  | selector (selector : LinkSelector)

def reports (state : Option RelayState) (handler : Handler) (svc : OutportService) : Bool :=
  match svc.relays handler with
  | none => false
  | some s => s.remoteTcp && state.all (· == s.state)

def drive (S : Setting OutportService) (f : FgwRelaySession → FgwRelaySession) (handler : Handler)
    (st : StreamState OutportService) : StreamState OutportService :=
  let (svc, calls) := st.owner.runRelay f handler
  calls.foldl (DataStream.call (setting K S)) { st with owner := svc }

variable (S : Setting OutportService)

def step (ds : DataStream OutportService) : Op → DataStream OutportService
  | .onChannelBytes ch buf => DataStream.onChannelBytes (setting K S) ch buf ds
  | .onRemoteOpen handler =>
    if ds.owner.reports (some .connecting) handler then
      { ds with
        toStreamState := drive K S (FgwRelaySession.onRemoteOpen K) handler ds.toStreamState }
    else ds
  | .onRemoteBytes handler buf =>
    if ds.owner.reports (some .relaying) handler then
      { ds with
        toStreamState := drive K S (FgwRelaySession.onRemoteBytes buf) handler ds.toStreamState }
    else ds
  | .onRemoteClose handler =>
    if ds.owner.reports none handler then
      { ds with toStreamState := drive K S FgwRelaySession.onRemoteClose handler ds.toStreamState }
    else ds
  | .emitFeedback => { ds with toStreamState := DataStream.emitFeedback (setting K S) ds.toStreamState }
  | .selector selector => { ds with selector := selector }

def run (ds : DataStream OutportService) (ops : List Op) : DataStream OutportService :=
  ops.foldl (step K S) ds

@[simp] theorem run_nil (ds : DataStream OutportService) : run K S ds [] = ds := rfl

@[simp] theorem run_cons (ds : DataStream OutportService) (op : Op) (ops : List Op) :
    run K S ds (op :: ops) = run K S (step K S ds op) ops := rfl

end OutportService

end Libfgw
