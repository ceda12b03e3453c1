import Libfgw.DataStream.Run

namespace Libfgw

open Lib

/-- `received`, `written` and `calls` log the bytes that the client has brought while the session was
open, those that have been written to it, and the session's calls into the stream. -/
structure FgwSession where
  sessionId : ZceUint32
  clientTcp : Bool := true
  closed : Bool := false
  received : List ZceByte := []
  written : List ZceByte := []
  calls : List Call := []

namespace FgwSession

def onClientBytes (buf : List ZceByte) (s : FgwSession) : FgwSession :=
  if s.closed then s
  else
    { s with
      received := s.received ++ buf
      calls := s.calls ++ [.sendSessionData s.sessionId buf kFgwWireIngressUseLocal] }

def close (s : FgwSession) : FgwSession :=
  if s.closed then s
  else
    { s with
      closed := true
      clientTcp := false
      calls := s.calls ++ [.closeSession s.sessionId kFgwWireIngressUseLocal] }

def onClientClose (s : FgwSession) : FgwSession := s.close

def onSessionData (acquires : Nat → Bool) (buf : List ZceByte) (s : FgwSession) : FgwSession :=
  if ¬ s.clientTcp ∨ s.closed then s
  else if ¬ acquires buf.length then s
  else { s with written := s.written ++ buf }

def onSessionClose (s : FgwSession) : FgwSession := s.close

end FgwSession

/-- The clients of an inport.  `sessions` are those that are registered, and `clients` all that have
been accepted, each at an address of its own. -/
structure InportService where
  acceptor : Bool
  sessions : SortedMap ZceUint32 Handler
  clients : Handler → Option FgwSession
  made : Nat
  nextSessionId : ZceUint32

namespace InportService

def init : InportService where
  acceptor := false
  sessions := SortedMap.empty
  clients _ := none
  made := 0
  nextSessionId := 1#32

def start (listen : Int) (svc : InportService) : Except ZfgwErrcode Int × InportService :=
  if svc.acceptor then (.error .busy, svc)
  else if listen < 0 then (.error .listenfail, svc)
  else (.ok 0, { svc with acceptor := true })

def allocateSessionId (svc : InportService) : ZceUint32 × InportService :=
  (svc.nextSessionId, { svc with nextSessionId := svc.nextSessionId + 1#32 })

def attach (svc : InportService) : ZceUint32 × Handler × InportService :=
  let (sid, svc) := svc.allocateSessionId
  (sid, svc.made,
    { svc with
      sessions := svc.sessions.insert sid svc.made
      clients := Function.update svc.clients svc.made (some { sessionId := sid })
      made := svc.made + 1 })

def removeSession (sid : ZceUint32) (svc : InportService) : InportService :=
  { svc with sessions := svc.sessions.erase sid }

def settle (handler : Handler) (old new : FgwSession) (svc : InportService) : InportService :=
  let svc := { svc with clients := Function.update svc.clients handler (some new) }
  if ¬ old.closed ∧ new.closed then svc.removeSession old.sessionId else svc

def runClient (f : FgwSession → FgwSession) (handler : Handler) (svc : InportService) :
    InportService × List Call :=
  match svc.clients handler with
  | none => (svc, [])
  | some s =>
    let s' := f { s with calls := [] }
    (svc.settle handler s s', s'.calls)

variable (acquires : Nat → Bool)

def onEvent (svc : InportService) : Event → InportService × List Call
  | .unknownSession _ _ => (svc, [])
  | .sessionOpen _ _ _ => (svc, [])
  | .sessionData _ handler _ buf => svc.runClient (FgwSession.onSessionData acquires buf) handler
  | .sessionClose _ handler _ => svc.runClient FgwSession.onSessionClose handler

/-- The stream's surroundings when an inport serves it: nobody asks for sessions that it has not
opened. -/
def setting (S : Setting InportService) : Setting InportService :=
  { S with unknownCb := none, onEvent := onEvent acquires }

inductive Op
  | start (listen : Int)
  | accept
  | onClientBytes (handler : Handler) (buf : List ZceByte)
  | onClientClose (handler : Handler)
  | onChannelBytes (ch : ChannelRef) (buf : List ZceByte)
  | emitFeedback
  | selector (selector : LinkSelector)
  | stop

variable (S : Setting InportService)

def drive (f : FgwSession → FgwSession) (handler : Handler) (st : StreamState InportService) :
    StreamState InportService :=
  let (svc, calls) := st.owner.runClient f handler
  calls.foldl (DataStream.call (setting acquires S)) { st with owner := svc }

def accept (st : StreamState InportService) : StreamState InportService :=
  if st.owner.acceptor then
    let (sid, handler, svc) := st.owner.attach
    (DataStream.openSession (setting acquires S) sid (some handler) { st with owner := svc }).2
  else st

def stop (st : StreamState InportService) : StreamState InportService :=
  let copy := st.owner.sessions.entries
  copy.foldl (fun st e => drive acquires S FgwSession.close e.2 st)
    { st with owner := { st.owner with acceptor := false, sessions := SortedMap.empty } }

def step (ds : DataStream InportService) : Op → DataStream InportService
  | .start listen => { ds with owner := (ds.owner.start listen).2 }
  | .accept => { ds with toStreamState := accept acquires S ds.toStreamState }
  | .onClientBytes handler buf =>
    { ds with
      toStreamState := drive acquires S (FgwSession.onClientBytes buf) handler ds.toStreamState }
  | .onClientClose handler =>
    { ds with toStreamState := drive acquires S FgwSession.onClientClose handler ds.toStreamState }
  | .onChannelBytes ch buf => DataStream.onChannelBytes (setting acquires S) ch buf ds
  | .emitFeedback =>
    { ds with toStreamState := DataStream.emitFeedback (setting acquires S) ds.toStreamState }
  | .selector selector => { ds with selector := selector }
  | .stop => { ds with toStreamState := stop acquires S ds.toStreamState }

def run (ds : DataStream InportService) (ops : List Op) : DataStream InportService :=
  ops.foldl (step acquires S) ds

@[simp] theorem run_nil (ds : DataStream InportService) : run acquires S ds [] = ds := rfl

@[simp] theorem run_cons (ds : DataStream InportService) (op : Op) (ops : List Op) :
    run acquires S ds (op :: ops) = run acquires S (step acquires S ds op) ops := rfl

end InportService

end Libfgw
