import Libfgw.DataStream.Absence
import Libfgw.DataStream.HandOut

namespace Libfgw

open FgwSegmentHeader Lib

variable {σ : Type}

open Classical in
/-- The same setting, but for an owner that leaves out the calls that are not allowed. -/
noncomputable def Setting.keeping (S : Setting σ) (Allowed : Event → Call → Prop) : Setting σ :=
  { S with onEvent := fun o e => ((S.onEvent o e).1, (S.onEvent o e).2.filter (Allowed e)) }

namespace DataStream

variable (S : Setting σ)

def answer (o : σ) : Event → σ × List Call
  | .unknownSession key _ => ((S.unknownCb.map fun cb => (cb o key).1).getD o, [])
  | e => S.onEvent o e

def ownerCalls : σ → List Event → List (Event × Call)
  | _, [] => []
  | o, e :: es => (answer S o e).2.map (e, ·) ++ ownerCalls (answer S o e).1 es

def ownerTold : σ → List Event → σ := List.foldl fun o e => (answer S o e).1

theorem ownerCalls_append (o : σ) (es es' : List Event) :
    ownerCalls S o (es ++ es') = ownerCalls S o es ++ ownerCalls S (ownerTold S o es) es' := by
  induction es generalizing o with
  | nil => rfl
  | cons e es ih =>
    rw [List.cons_append, ownerCalls, ih, ownerCalls, List.append_assoc]
    rfl

theorem ownerTold_append (o : σ) (es es' : List Event) :
    ownerTold S o (es ++ es') = ownerTold S (ownerTold S o es) es' := List.foldl_append

section Evaluation

instance (key : SessionKey) (c : Call) : Decidable (Closes S key c) :=
  match c with
  | .openSession _ _ => .isFalse id
  | .closeSession _ _ => inferInstanceAs (Decidable (_ = _))
  | .sendSessionData _ _ _ => .isFalse id

instance (key : SessionKey) (handler : Option Handler) (c : Call) : Decidable (Opens S key handler c) :=
  match c with
  | .openSession _ _ => inferInstanceAs (Decidable (_ ∧ _))
  | .closeSession _ _ => .isFalse id
  | .sendSessionData _ _ _ => .isFalse id

instance (key : SessionKey) (e : Event) : Decidable (IsClose key e) :=
  match e with
  | .unknownSession _ _ => .isFalse id
  | .sessionOpen _ _ _ => .isFalse id
  | .sessionData _ _ _ _ => .isFalse id
  | .sessionClose _ _ _ => inferInstanceAs (Decidable (_ = _))

instance (key : SessionKey) (c : Call) : Decidable (Spares S key c) :=
  inferInstanceAs (Decidable (_ ∧ _))

instance (key : SessionKey) (c : Call) : Decidable (∀ handler, ¬ Opens S key handler c) :=
  match c with
  | .openSession sid handler =>
    decidable_of_iff ((S.config.localIngressId, sid) ≠ key)
      ⟨fun hother _ hopens => hother hopens.1, fun hnever hkey => hnever handler ⟨hkey, rfl⟩⟩
  | .closeSession _ _ => .isTrue fun _ => id
  | .sendSessionData _ _ _ => .isTrue fun _ => id

end Evaluation

/-- Whatever the owner has called between two states of a run is allowed. -/
def CallsAllowed (Allowed : Event → Call → Prop) (st st' : StreamState σ) : Prop :=
  ∀ p ∈ ownerCalls S st.owner (st'.events.drop st.events.length), Allowed p.1 p.2

/-- Whatever the owner calls in answer to the steps of a run is allowed. -/
def RunAllowed (Allowed : Event → Call → Prop) (ds : DataStream σ) (ops : List (Op σ)) : Prop :=
  ∀ p ∈ opTrace S ds ops, CallsAllowed S Allowed p.1.toStreamState (step S p.1 p.2).toStreamState

/-- The call leaves a session open, or answers its closing. -/
def Sparing (key : SessionKey) (e : Event) (c : Call) : Prop := IsClose key e ∨ Spares S key c

instance (key : SessionKey) (e : Event) (c : Call) : Decidable (Sparing S key e c) :=
  inferInstanceAs (Decidable (_ ∨ _))

instance (Allowed : Event → Call → Prop) [∀ e c, Decidable (Allowed e c)] (st st' : StreamState σ) :
    Decidable (CallsAllowed S Allowed st st') := inferInstanceAs (Decidable (∀ p ∈ _, _))

instance (Allowed : Event → Call → Prop) [∀ e c, Decidable (Allowed e c)] (ds : DataStream σ)
    (ops : List (Op σ)) : Decidable (RunAllowed S Allowed ds ops) :=
  inferInstanceAs (Decidable (∀ p ∈ _, _))

theorem sparesAlways_keeping {key : SessionKey} {Allowed : Event → Call → Prop}
    (h : ∀ e c, Allowed e c → Sparing S key e c) : SparesAlways (S.keeping Allowed) key := by
  intro o e hopen c hc
  simp only [Setting.keeping, List.mem_filter, decide_eq_true_eq] at hc
  exact (h e c hc.2).resolve_left hopen

theorem neverOpens_keeping {key : SessionKey} {Allowed : Event → Call → Prop}
    (h : ∀ e c, Allowed e c → ∀ handler, ¬ Opens S key handler c) :
    NeverOpens (S.keeping Allowed) key := by
  intro o e c hc
  simp only [Setting.keeping, List.mem_filter, decide_eq_true_eq] at hc
  exact h e c hc.2

variable {S} {Allowed : Event → Call → Prop}

/-- A step of the stream, and the same step where the owner keeps to what is allowed: they differ
only if the owner has made another call. -/
def Concurs (S : Setting σ) (Allowed : Event → Call → Prop) (st st' kept : StreamState σ) : Prop :=
  ∃ es, st'.events = st.events ++ es ∧ st'.owner = ownerTold S st.owner es ∧
    ((∀ p ∈ ownerCalls S st.owner es, Allowed p.1 p.2) → kept = st')

namespace Concurs

variable {st st' st'' kept kept' : StreamState σ}

theorem of_same (hevents : st'.events = st.events) (howner : st'.owner = st.owner) :
    Concurs S Allowed st st' st' :=
  ⟨[], by rw [hevents, List.append_nil], howner, fun _ => rfl⟩

theorem refl (st : StreamState σ) : Concurs S Allowed st st st := of_same rfl rfl

theorem bind (f' : StreamState σ → StreamState σ) (h : Concurs S Allowed st st' kept)
    (h' : Concurs S Allowed st' st'' (f' st')) : Concurs S Allowed st st'' (f' kept) := by
  obtain ⟨es, hevents, howner, hkept⟩ := h
  obtain ⟨es', hevents', howner', hkept'⟩ := h'
  refine ⟨es ++ es', ?_, ?_, fun hallowed => ?_⟩
  · rw [hevents', hevents, List.append_assoc]
  · rw [howner', howner, ownerTold_append]
  · rw [ownerCalls_append] at hallowed
    obtain ⟨hfirst, hsecond⟩ := List.forall_mem_append.1 hallowed
    rw [hkept hfirst]
    exact hkept' (howner ▸ hsecond)

theorem foldl {α : Type} {f f' : StreamState σ → α → StreamState σ}
    (h : ∀ st a, Concurs S Allowed st (f st a) (f' st a)) (as : List α) (st : StreamState σ) :
    Concurs S Allowed st (as.foldl f st) (as.foldl f' st) := by
  induction as generalizing st with
  | nil => exact refl st
  | cons a as ih => exact (h st a).bind (fun st => as.foldl f' st) (ih (f st a))

theorem eq_of_allowed (h : Concurs S Allowed st st' kept) (hallowed : CallsAllowed S Allowed st st') :
    kept = st' := by
  obtain ⟨es, hevents, -, hkept⟩ := h
  rw [CallsAllowed, hevents, List.drop_left] at hallowed
  exact hkept hallowed

end Concurs

theorem sendChunks_keeping (key : SessionKey) (sid : ZceUint32) (buf : List ZceByte)
    (fuel written : Nat) (s : SessionState) (st : StreamState σ) :
    sendChunks (S.keeping Allowed) key sid buf fuel written s st =
      sendChunks S key sid buf fuel written s st := by
  induction fuel generalizing written s st with
  | zero => rfl
  | succ fuel ih =>
    simp only [sendChunks, ih]
    rfl

theorem call_keeping (st : StreamState σ) (c : Call) :
    call (S.keeping Allowed) st c = call S st c := by
  cases c with
  | openSession _ _ => rfl
  | closeSession _ _ => rfl
  | sendSessionData sid buf ingressKey =>
    simp only [call, sendSessionData, sendChunks_keeping]
    rfl

open Classical in
theorem notify_agrees (e : Event) (hknown : ∀ key handler, e ≠ .unknownSession key handler)
    (st : StreamState σ) :
    Concurs S Allowed st (notify S e st) (notify (S.keeping Allowed) e st) := by
  have hanswer : answer S st.owner e = S.onEvent st.owner e := by
    cases e with
    | unknownSession key handler => exact absurd rfl (hknown key handler)
    | sessionOpen _ _ _ => rfl
    | sessionData _ _ _ _ => rfl
    | sessionClose _ _ _ => rfl
  refine ⟨[e], notify_events S e st, ?_, fun hallowed => ?_⟩
  · rw [notify_owner]
    exact (congrArg Prod.fst hanswer).symm
  · rw [ownerCalls, hanswer, ownerCalls, List.append_nil] at hallowed
    have hkept : (S.keeping Allowed).onEvent st.owner e = S.onEvent st.owner e :=
      Prod.ext rfl <| List.filter_eq_self.2 fun c hc =>
        decide_eq_true (hallowed (e, c) (List.mem_map_of_mem hc))
    have hcall : call (S.keeping Allowed) = call S := funext₂ call_keeping
    simp only [notify, hkept, hcall]

theorem createSession_agrees (key : SessionKey) (st : StreamState σ) :
    Concurs S Allowed st (createSession S key st) (createSession (S.keeping Allowed) key st) := by
  cases hcb : S.unknownCb with
  | none =>
    have hsame : createSession (S.keeping Allowed) key st = createSession S key st := rfl
    rw [hsame]
    exact Concurs.of_same (by rw [createSession, hcb]; rfl) (by rw [createSession, hcb]; rfl)
  | some cb =>
    refine ⟨[.unknownSession key (cb st.owner key).2], ?_, ?_, fun _ => rfl⟩
    · rw [createSession, hcb]
      rfl
    · rw [createSession, hcb]
      simp only [ownerTold, List.foldl_cons, List.foldl_nil, answer, hcb]
      rfl

theorem ensureSession_agrees (key : SessionKey) (st : StreamState σ) :
    Concurs S Allowed st (ensureSession S key st) (ensureSession (S.keeping Allowed) key st) := by
  unfold ensureSession
  split
  · exact Concurs.refl st
  · exact createSession_agrees key st

theorem onSyn_agrees (key : SessionKey) (st : StreamState σ) :
    Concurs S Allowed st (onSyn S key st) (onSyn (S.keeping Allowed) key st) := by
  have hensured := @ensureSession_agrees σ S Allowed key st
  simp only [onSyn]
  generalize ensureSession S key st = ensured at hensured ⊢
  generalize ensureSession (S.keeping Allowed) key st = kept at hensured ⊢
  apply hensured.bind
  cases (ensured.sessions key).bind SessionState.handler with
  | none => exact Concurs.refl ensured
  | some handler => exact notify_agrees _ (by simp) ensured

theorem onFin_agrees (key : SessionKey) (st : StreamState σ) :
    Concurs S Allowed st (onFin S key st) (onFin (S.keeping Allowed) key st) := by
  unfold onFin
  split
  · exact Concurs.refl st
  split
  · exact Concurs.of_same rfl rfl
  · rename_i handler _
    have htold := @notify_agrees σ S Allowed (.sessionClose key handler key.2)
      (by simp) st
    generalize notify (S.keeping Allowed) (.sessionClose key handler key.2) st = kept at htold ⊢
    apply htold.bind
    exact Concurs.of_same rfl rfl

theorem deliverInOrder_agrees (key : SessionKey) (s : SessionState) (st : StreamState σ) :
    Concurs S Allowed st (deliverInOrder S key s st) (deliverInOrder (S.keeping Allowed) key s st) := by
  unfold deliverInOrder
  split
  · exact Concurs.refl st
  · rename_i handler _
    have htaken : Concurs S Allowed st (st.setSession key (collectReady s.rxBuffer.size s).2)
      (st.setSession key (collectReady s.rxBuffer.size s).2) := Concurs.of_same rfl rfl
    dsimp only
    generalize st.setSession key (collectReady s.rxBuffer.size s).2 = taken at htaken ⊢
    refine htaken.bind (fun st => List.foldl _ st _) (Concurs.foldl (fun st blk => ?_) _ taken)
    split
    · exact notify_agrees _ (by simp) st
    · exact Concurs.refl st

theorem onData_agrees (key : SessionKey) (seq : ZceUint32) (payload : List ZceByte)
    (st : StreamState σ) :
    Concurs S Allowed st (onData S key seq payload st)
      (onData (S.keeping Allowed) key seq payload st) := by
  have hensured := @ensureSession_agrees σ S Allowed key st
  simp only [onData]
  generalize ensureSession S key st = ensured at hensured ⊢
  generalize ensureSession (S.keeping Allowed) key st = kept at hensured ⊢
  apply hensured.bind
  cases ensured.sessions key with
  | none => exact Concurs.refl ensured
  | some s =>
    exact Concurs.bind (deliverInOrder (S.keeping Allowed) key _) (Concurs.of_same rfl rfl)
      (deliverInOrder_agrees key _ _)

theorem acceptSegment_agrees (key : SessionKey) (hdr : FgwSegmentHeader) (payload : List ZceByte)
    (st : StreamState σ) :
    Concurs S Allowed st (acceptSegment S key hdr payload st)
      (acceptSegment (S.keeping Allowed) key hdr payload st) := by
  have hsyn : Concurs S Allowed st (if hdr.isSyn then onSyn S key st else st)
      (if hdr.isSyn then onSyn (S.keeping Allowed) key st else st) := by
    split
    · exact onSyn_agrees key st
    · exact Concurs.refl st
  simp only [acceptSegment]
  generalize (if hdr.isSyn then onSyn S key st else st) = opened at hsyn ⊢
  generalize (if hdr.isSyn then onSyn (S.keeping Allowed) key st else st) = kept at hsyn ⊢
  apply hsyn.bind
  split
  · exact onFin_agrees key opened
  split
  · exact onData_agrees key _ _ opened
  · exact Concurs.refl opened

theorem onSessionSegment_agrees (ch : ChannelRef) (hdr : FgwSegmentHeader) (payload : List ZceByte)
    (st : StreamState σ) :
    Concurs S Allowed st (onSessionSegment S ch hdr payload st)
      (onSessionSegment (S.keeping Allowed) ch hdr payload st) := by
  simp only [onSessionSegment]
  split
  · exact Concurs.of_same (noteLoser_judgesOnly ch st).events (noteLoser_judgesOnly ch st).owner
  split
  · rename_i hout
    rw [if_pos (by exact hout)]
    exact Concurs.refl st
  · rename_i hin
    rw [if_neg (by exact hin)]
    have hnoted := noteWinner_judgesOnly ch
      { st with dedup := st.dedup.record kDedupRing (dedupKey (frameKey hdr).1 hdr) }
    exact Concurs.bind (acceptSegment (S.keeping Allowed) (frameKey hdr) hdr payload)
      (Concurs.of_same hnoted.events hnoted.owner) (acceptSegment_agrees _ hdr payload _)

theorem handleFrame_agrees (ch : ChannelRef) (st : StreamState σ) (f : List ZceByte) :
    Concurs S Allowed st (handleFrame S ch st f) (handleFrame (S.keeping Allowed) ch st f) := by
  unfold handleFrame segmentHandle
  split
  · rename_i hr hdr hpeek
    simp only [onFrame]
    split
    · rename_i hbad
      rw [if_pos (by exact hbad)]
      exact Concurs.refl st
    rename_i hgood
    have hgood' : ¬ ((S.keeping Allowed).config.verifyCrc = true ∧
      ¬ fgwSegmentVerifyCrc f hdr hr = true) := hgood
    rw [if_neg hgood']
    split
    · exact Concurs.of_same (onHello_judgesOnly S ch _ st).events (onHello_judgesOnly S ch _ st).owner
    split
    · exact Concurs.refl st
    split
    · exact Concurs.of_same (onAck_judgesOnly S _ st).events (onAck_judgesOnly S _ st).owner
    · exact onSessionSegment_agrees ch hdr _ st
  · exact Concurs.refl st

theorem frames_agree (ch : ChannelRef) (fs : List (List ZceByte)) (st : StreamState σ) :
    Concurs S Allowed st (fs.foldl (handleFrame S ch) st)
      (fs.foldl (handleFrame (S.keeping Allowed) ch) st) :=
  Concurs.foldl (handleFrame_agrees ch) fs st

theorem frameTrace_keeping (ch : ChannelRef) {fs : List (List ZceByte)} {st : StreamState σ}
    (h : CallsAllowed S Allowed st (fs.foldl (handleFrame S ch) st)) :
    frameTrace (S.keeping Allowed) ch st fs = frameTrace S ch st fs := by
  induction fs generalizing st with
  | nil => rfl
  | cons f fs ih =>
    obtain ⟨es, hevents, howner, hkept⟩ := @handleFrame_agrees σ S Allowed ch st f
    obtain ⟨es', hevents', -, -⟩ := @frames_agree σ S Allowed ch fs (handleFrame S ch st f)
    rw [List.foldl_cons, CallsAllowed, hevents', hevents, List.append_assoc, List.drop_left,
      ownerCalls_append] at h
    obtain ⟨hfirst, hrest⟩ := List.forall_mem_append.1 h
    rw [frameTrace, frameTrace, hkept hfirst, ih]
    rwa [CallsAllowed, hevents', List.drop_left, howner]

theorem onChannelBytes_keeping {ch : ChannelRef} {buf : List ZceByte} {ds : DataStream σ}
    (h : CallsAllowed S Allowed ds.toStreamState (onChannelBytes S ch buf ds).toStreamState) :
    onChannelBytes (S.keeping Allowed) ch buf ds = onChannelBytes S ch buf ds ∧
      traceAt (S.keeping Allowed) ds (.onChannelBytes ch buf) =
        traceAt S ds (.onChannelBytes ch buf) := by
  rw [onChannelBytes_frames] at h
  refine ⟨?_, frameTrace_keeping ch h⟩
  have hrest : (segmentScan (onFrame (S.keeping Allowed) ch) (ds.scratch ch ++ buf)
      ds.toStreamState).1 = (segmentScan (onFrame S ch) (ds.scratch ch ++ buf) ds.toStreamState).1 :=
    segmentScan_fst _ _ _ _
  have hstate : (onChannelBytes (S.keeping Allowed) ch buf ds).toStreamState =
      (onChannelBytes S ch buf ds).toStreamState := by
    rw [onChannelBytes_frames, onChannelBytes_frames]
    exact (frames_agree ch _ _).eq_of_allowed h
  have hscratch : (onChannelBytes (S.keeping Allowed) ch buf ds).scratch =
      (onChannelBytes S ch buf ds).scratch := congrArg (Function.update ds.scratch ch) hrest
  exact congrArg₂ DataStream.mk hstate hscratch

theorem step_keeping {op : Op σ} {ds : DataStream σ}
    (h : CallsAllowed S Allowed ds.toStreamState (step S ds op).toStreamState) :
    step (S.keeping Allowed) ds op = step S ds op ∧
      traceAt (S.keeping Allowed) ds op = traceAt S ds op := by
  cases op with
  | onChannelBytes ch buf => exact onChannelBytes_keeping h
  | openSession _ _ => exact ⟨rfl, rfl⟩
  | closeSession _ _ => exact ⟨rfl, rfl⟩
  | sendSessionData sid buf ingressKey =>
    have hsame := @call_keeping σ S Allowed ds.toStreamState (.sendSessionData sid buf ingressKey)
    simp only [call] at hsame
    exact ⟨by simp only [step, hsame], rfl⟩
  | emitFeedback => exact ⟨rfl, rfl⟩
  | owner _ => exact ⟨rfl, rfl⟩
  | selector _ => exact ⟨rfl, rfl⟩

/-- A run in which the owner keeps to what is allowed is a run of the owner that always does. -/
theorem run_keeping {ops : List (Op σ)} {ds : DataStream σ} (h : RunAllowed S Allowed ds ops) :
    run (S.keeping Allowed) ds ops = run S ds ops ∧
      trace (S.keeping Allowed) ds ops = trace S ds ops := by
  induction ops generalizing ds with
  | nil => exact ⟨rfl, rfl⟩
  | cons op ops ih =>
    obtain ⟨hfirst, hrest⟩ := List.forall_mem_cons.1 h
    obtain ⟨hstep, htrace⟩ := step_keeping hfirst
    obtain ⟨hrun, htraces⟩ := ih hrest
    rw [run_cons, run_cons, trace_cons, trace_cons, hstep, htrace, htraces]
    exact ⟨hrun, rfl⟩

end DataStream

end Libfgw
