import Libfgw.Outport.Laws
import Libfgw.Socks5

namespace Libfgw

namespace FgwRelaySession

inductive Op
  | onSessionData (buf : List ZceByte)
  | onSessionClose
  | onRemoteOpen
  | onRemoteBytes (buf : List ZceByte)
  | onRemoteClose

section Runs

variable (K : Sockets)

/-- A connection reports as long as the relay has it: it opens once, brings bytes then, and closes
last. -/
def step (s : FgwRelaySession) : Op → FgwRelaySession
  | .onSessionData buf => onSessionData K buf s
  | .onSessionClose => onSessionClose s
  | .onRemoteOpen => if s.remoteTcp ∧ s.state = .connecting then onRemoteOpen K s else s
  | .onRemoteBytes buf => if s.remoteTcp ∧ s.state = .relaying then onRemoteBytes buf s else s
  | .onRemoteClose => if s.remoteTcp then onRemoteClose s else s

def run (s : FgwRelaySession) (ops : List Op) : FgwRelaySession := ops.foldl (step K) s

theorem run_concat (s : FgwRelaySession) (ops : List Op) (op : Op) :
    run K s (ops ++ [op]) = step K (run K s ops) op := List.foldl_concat ..

theorem run_append (s : FgwRelaySession) (ops ops' : List Op) :
    run K s (ops ++ ops') = run K (run K s ops) ops' := List.foldl_append

def Op.received : Op → List ZceByte
  | .onSessionData buf => buf
  | _ => []

def received (ops : List Op) : List ZceByte := ops.flatMap Op.received

def broughtAt (s : FgwRelaySession) : Op → List (List ZceByte)
  | .onRemoteBytes buf => if s.remoteTcp ∧ s.state = .relaying then [buf] else []
  | _ => []

def brought : FgwRelaySession → List Op → List (List ZceByte)
  | _, [] => []
  | s, op :: ops => broughtAt s op ++ brought (step K s op) ops

variable (s : FgwRelaySession) (ops : List Op)

def fin (state : RelayState) : List Call :=
  if state = .closed then [.closeSession s.sessionId s.peerIngressId] else []

end Runs

variable {K : Sockets} {s : FgwRelaySession} {ops : List Op} {op : Op}

namespace Stage

variable {head : List ZceByte}

end Stage

section Requests

variable {ref : Handler} {ingress sid : ZceUint32} {methods : List ZceByte} {cmd rsv : ZceByte}
  {addr : TargetAddr} {port : ZceUint16}

end Requests

end FgwRelaySession

end Libfgw
