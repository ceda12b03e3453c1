import Libfgw.DataStream.ReceiveLaws

namespace Libfgw

open FgwSegmentHeader Lib

namespace DataStream

variable {σ : Type} (S : Setting σ)

def frameTrace (ch : ChannelRef) : StreamState σ → List (List ZceByte) →
    List (StreamState σ × List ZceByte)
  | _, [] => []
  | st, f :: fs => (st, f) :: frameTrace ch (handleFrame S ch st f) fs

def traceAt (ds : DataStream σ) : Op σ → List (StreamState σ × List ZceByte)
  | .onChannelBytes ch buf =>
    frameTrace S ch ds.toStreamState (segmentFrames (ds.scratch ch ++ buf))
  | _ => []

/-- The frames that a run takes out of the channels' bytes, with the states that they find. -/
def trace : DataStream σ → List (Op σ) → List (StreamState σ × List ZceByte)
  | _, [] => []
  | ds, op :: ops => traceAt S ds op ++ trace (step S ds op) ops

def opTrace : DataStream σ → List (Op σ) → List (DataStream σ × Op σ)
  | _, [] => []
  | ds, op :: ops => (ds, op) :: opTrace (step S ds op) ops

/-- The frames that a run takes out of the channels' bytes. -/
def arrived (ds : DataStream σ) (ops : List (Op σ)) : List (List ZceByte) :=
  (trace S ds ops).map Prod.snd

@[simp] theorem trace_nil (ds : DataStream σ) : trace S ds [] = [] := rfl

@[simp] theorem trace_cons (ds : DataStream σ) (op : Op σ) (ops : List (Op σ)) :
    trace S ds (op :: ops) = traceAt S ds op ++ trace S (step S ds op) ops := rfl

@[simp] theorem arrived_nil (ds : DataStream σ) : arrived S ds [] = [] := rfl

theorem map_snd_frameTrace (ch : ChannelRef) (st : StreamState σ) (fs : List (List ZceByte)) :
    (frameTrace S ch st fs).map Prod.snd = fs := by
  induction fs generalizing st with
  | nil => rfl
  | cons f fs ih => rw [frameTrace, List.map_cons, ih]

theorem map_snd_opTrace (ds : DataStream σ) (ops : List (Op σ)) :
    (opTrace S ds ops).map Prod.snd = ops := by
  induction ops generalizing ds with
  | nil => rfl
  | cons op ops ih => rw [opTrace, List.map_cons, ih]

theorem traceAt_of_ne {ds : DataStream σ} {op : Op σ}
    (h : ∀ ch buf, op ≠ .onChannelBytes ch buf) : traceAt S ds op = [] := by
  cases op with
  | onChannelBytes ch buf => exact absurd rfl (h ch buf)
  | openSession _ _ => rfl
  | closeSession _ _ => rfl
  | sendSessionData _ _ _ => rfl
  | emitFeedback => rfl
  | owner _ => rfl
  | selector _ => rfl

def SparesOp (key : SessionKey) : Op σ → Prop
  | .openSession sid handler => Spares S key (.openSession sid handler)
  | .closeSession sid ingressKey => Spares S key (.closeSession sid ingressKey)
  | _ => True

theorem onChannelBytes_frames (ch : ChannelRef) (buf : List ZceByte) (ds : DataStream σ) :
    (onChannelBytes S ch buf ds).toStreamState =
      (segmentFrames (ds.scratch ch ++ buf)).foldl (handleFrame S ch) ds.toStreamState :=
  segmentScan_frames (onFrame_readsFrame S ch) _ _

theorem call_passive {key : SessionKey} {c : Call} (h : Spares S key c) (st : StreamState σ) :
    Passive key st (call S st c) := by
  have hsends := call_sendsOnly S st c
  refine ⟨call_grows S h st, ?_, by rw [hsends.events]⟩
  intro seq hseq
  rwa [hsends.dedup] at hseq

theorem step_passive {key : SessionKey} {op : Op σ} (h : SparesOp S key op) {ds : DataStream σ}
    (hframes : ∀ ch buf, op ≠ .onChannelBytes ch buf) :
    Passive key ds.toStreamState (step S ds op).toStreamState := by
  cases op with
  | openSession sid handler => exact call_passive S (c := .openSession sid handler) h _
  | closeSession sid ingressKey => exact call_passive S (c := .closeSession sid ingressKey) h _
  | sendSessionData sid buf ingressKey =>
    exact call_passive S (c := .sendSessionData sid buf ingressKey) ⟨fun h => h, fun h => h⟩ _
  | onChannelBytes ch buf => exact absurd rfl (hframes ch buf)
  | emitFeedback => exact (emitFeedback_judgesOnly S _).passive
  | owner owner => exact Passive.of_eq rfl rfl rfl
  | selector selector => exact Passive.of_eq rfl rfl rfl

section Invariant

variable {S} {P : List (StreamState σ × List ZceByte) → StreamState σ → Prop}
  {Allowed : StreamState σ × List ZceByte → Prop}

theorem frames_invariant (ch : ChannelRef)
    (hframe : ∀ f tr st, Allowed (st, f) → P tr st → P (tr ++ [(st, f)]) (handleFrame S ch st f))
    {fs : List (List ZceByte)} {tr : List (StreamState σ × List ZceByte)} {st : StreamState σ}
    (hfs : ∀ p ∈ frameTrace S ch st fs, Allowed p) (h : P tr st) :
    P (tr ++ frameTrace S ch st fs) (fs.foldl (handleFrame S ch) st) := by
  induction fs generalizing tr st with
  | nil => rwa [frameTrace, List.append_nil]
  | cons f fs ih =>
    obtain ⟨hf, hfs⟩ := List.forall_mem_cons.1 hfs
    rw [List.foldl_cons, frameTrace, List.append_cons]
    exact ih hfs (hframe f tr st hf h)

/-- What every allowed step and frame carries on holds after every run. -/
theorem run_invariant_opTrace {OkOp : DataStream σ → Op σ → Prop}
    (hstep : ∀ op tr ds, OkOp ds op → (∀ ch buf, op ≠ .onChannelBytes ch buf) →
      P tr ds.toStreamState → P tr (step S ds op).toStreamState)
    (hframe : ∀ ch f tr st, Allowed (st, f) → P tr st → P (tr ++ [(st, f)]) (handleFrame S ch st f))
    {ops : List (Op σ)} {ds : DataStream σ} {tr : List (StreamState σ × List ZceByte)}
    (hops : ∀ p ∈ opTrace S ds ops, OkOp p.1 p.2) (htrace : ∀ p ∈ trace S ds ops, Allowed p)
    (h : P tr ds.toStreamState) : P (tr ++ trace S ds ops) (run S ds ops).toStreamState := by
  induction ops generalizing ds tr with
  | nil => rwa [trace_nil, List.append_nil]
  | cons op ops ih =>
    obtain ⟨hop, hops⟩ := List.forall_mem_cons.1 hops
    rw [trace_cons] at htrace
    obtain ⟨hhere, hlater⟩ := List.forall_mem_append.1 htrace
    rw [trace_cons, run_cons, ← List.append_assoc]
    refine ih hops hlater ?_
    by_cases hbytes : ∃ ch buf, op = .onChannelBytes ch buf
    · obtain ⟨ch, buf, rfl⟩ := hbytes
      change P _ (onChannelBytes S ch buf ds).toStreamState
      rw [onChannelBytes_frames]
      exact frames_invariant ch (hframe ch) hhere h
    · have hother : ∀ ch buf, op ≠ .onChannelBytes ch buf := fun ch buf heq => hbytes ⟨ch, buf, heq⟩
      rw [traceAt_of_ne S hother, List.append_nil]
      exact hstep op tr ds hop hother h

theorem run_invariant {OkOp : Op σ → Prop}
    (hstep : ∀ op tr ds, OkOp op → (∀ ch buf, op ≠ .onChannelBytes ch buf) →
      P tr ds.toStreamState → P tr (step S ds op).toStreamState)
    (hframe : ∀ ch f tr st, Allowed (st, f) → P tr st → P (tr ++ [(st, f)]) (handleFrame S ch st f))
    {ops : List (Op σ)} {ds : DataStream σ} {tr : List (StreamState σ × List ZceByte)}
    (hops : ∀ op ∈ ops, OkOp op) (htrace : ∀ p ∈ trace S ds ops, Allowed p)
    (h : P tr ds.toStreamState) : P (tr ++ trace S ds ops) (run S ds ops).toStreamState := by
  refine run_invariant_opTrace hstep hframe (fun p hp => hops p.2 ?_) htrace h
  rw [← map_snd_opTrace S ds ops]
  exact List.mem_map_of_mem hp

end Invariant

theorem arrived_iff_trace {ds : DataStream σ} {ops : List (Op σ)} {Allowed : List ZceByte → Prop} :
    (∀ f ∈ arrived S ds ops, Allowed f) ↔ ∀ p ∈ trace S ds ops, Allowed p.2 := List.forall_mem_map

end DataStream

end Libfgw
