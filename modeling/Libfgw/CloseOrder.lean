import Libfgw.ClosedSession
import Libfgw.DataStream.Closing

namespace Libfgw

open FgwSegmentHeader Lib Lib.Reassembly DataStream

variable {σ τ : Type}

theorem handed_over_of_sparesAlways {S : Setting τ} {R : Setting σ} {sid ingressKey : ZceUint32}
    {handler : Option Handler} {bufs : List (List ZceByte)} {snd : StreamState τ}
    (hkey : resolveIngressKey S ingressKey = S.config.localIngressId)
    (hnew : snd.sessions (S.config.localIngressId, sid) = none)
    (hemitted : ∀ a ∈ emitted S (closedCalls sid handler ingressKey bufs) snd, a.result.isOk)
    (hwindow : (dataSegments S bufs).length ≤ R.config.recvWindow.toNat)
    {rcv : DataStream σ} (hrcv : NewTo R (S.config.localIngressId, sid) rcv.toStreamState)
    (hanswers : Answers R (S.config.localIngressId, sid)) (hacquires : Acquires R)
    (hspares : SparesAlways R (S.config.localIngressId, sid))
    (hnever : NeverOpens R (S.config.localIngressId, sid)) {ops : List (Op σ)}
    (hops : ∀ op ∈ ops, SparesOp R (S.config.localIngressId, sid) op ∧
      NotOpening R (S.config.localIngressId, sid) op)
    (hcopies : ∀ f ∈ arrived R rcv ops, Foreign (S.config.localIngressId, sid) f ∨
      ∃ a ∈ emitted S (closedCalls sid handler ingressKey bufs) snd, f = a.frame)
    (hall : ∀ a ∈ emitted S (closedCalls sid handler ingressKey bufs) snd,
      a.frame ∈ arrived R rcv ops) :
    let key := (S.config.localIngressId, sid)
    HandedOver key bufs.flatten (traffic key rcv.events) (run R rcv ops).toStreamState ↔
      ClosedLast S key (dataSegments S bufs) (trace R rcv ops) := by
  intro key
  have hframes := closedCalls_frames hkey hnew hemitted
  have hmem : ∀ f, f ∈ sessionFrames S key (dataSegments S bufs) ++
      [finFrame S key (dataSegments S bufs).length] ↔
        IsCopy S key (dataSegments S bufs) f ∨ f = finFrame S key (dataSegments S bufs).length := by
    intro f
    rw [List.mem_append, List.mem_singleton, mem_sessionFrames]
  have hallowed : ∀ f ∈ arrived R rcv ops, Foreign key f ∨ IsCopy S key (dataSegments S bufs) f ∨
      f = finFrame S key (dataSegments S bufs).length := by
    intro f hf
    rcases hcopies f hf with hforeign | ⟨a, ha, rfl⟩
    · exact Or.inl hforeign
    · rw [← hmem, ← hframes]
      exact Or.inr (List.mem_map_of_mem ha)
  have hphase : Phase S R key (dataSegments S bufs) (traffic key rcv.events) (trace R rcv ops)
      (run R rcv ops).toStreamState :=
    run_invariant (P := Phase S R key (dataSegments S bufs) (traffic key rcv.events))
      (fun op tr ds hop hother h =>
        h.calm (step_passive R hop.1 hother) (step_shut hop.2 hother ds))
      (fun ch f tr st hf h => h.frame hacquires hspares hnever hanswers
        (fun _ => mem_dataSegments) hwindow ch hf)
      hops ((arrived_iff_trace R).1 hallowed)
      (.opened (fun q hq => absurd hq List.not_mem_nil) (hrcv.follows _)
        (fun q hq => absurd hq List.not_mem_nil))
  rw [← flatten_dataSegments S bufs]
  refine hphase.handedOver_iff fun k payload hseg => ?_
  have hf : dataFrame S key k payload ∈ (emitted S (closedCalls sid handler ingressKey bufs)
      snd).map Attempt.frame := by
    rw [hframes, hmem]
    exact Or.inl (Or.inr ⟨k, payload, hseg, rfl⟩)
  obtain ⟨a, ha, heq⟩ := List.mem_map.1 hf
  have harrived := hall a ha
  rw [heq] at harrived
  exact List.mem_map.1 harrived

/-- The call leaves a session as it is, unless it answers its closing. -/
def LeavesAlone (R : Setting σ) (key : SessionKey) (e : Event) (c : Call) : Prop :=
  Sparing R key e c ∧ ∀ handler, ¬ Opens R key handler c

instance (R : Setting σ) (key : SessionKey) (e : Event) (c : Call) :
    Decidable (LeavesAlone R key e c) := inferInstanceAs (Decidable (_ ∧ _))

/-- When a copy of each frame of a session has arrived, in whatever order and among whatever
other frames, and the receiver's owner has left the session alone, its handler has received all its
bytes and then one close, and no entry is left, if and only if the closing took effect after all of
them. -/
theorem handed_over_iff {S : Setting τ} {R : Setting σ} {sid ingressKey : ZceUint32}
    {handler : Option Handler} {bufs : List (List ZceByte)} {snd : StreamState τ}
    (hkey : resolveIngressKey S ingressKey = S.config.localIngressId)
    (hnew : snd.sessions (S.config.localIngressId, sid) = none)
    (hemitted : ∀ a ∈ emitted S (closedCalls sid handler ingressKey bufs) snd, a.result.isOk)
    (hwindow : (dataSegments S bufs).length ≤ R.config.recvWindow.toNat)
    {rcv : DataStream σ} (hrcv : NewTo R (S.config.localIngressId, sid) rcv.toStreamState)
    (hanswers : Answers R (S.config.localIngressId, sid)) (hacquires : Acquires R) {ops : List (Op σ)}
    (hops : ∀ op ∈ ops, SparesOp R (S.config.localIngressId, sid) op ∧
      NotOpening R (S.config.localIngressId, sid) op)
    (hcalls : RunAllowed R (LeavesAlone R (S.config.localIngressId, sid)) rcv ops)
    (hcopies : ∀ f ∈ arrived R rcv ops, Foreign (S.config.localIngressId, sid) f ∨
      ∃ a ∈ emitted S (closedCalls sid handler ingressKey bufs) snd, f = a.frame)
    (hall : ∀ a ∈ emitted S (closedCalls sid handler ingressKey bufs) snd,
      a.frame ∈ arrived R rcv ops) :
    let key := (S.config.localIngressId, sid)
    HandedOver key bufs.flatten (traffic key rcv.events) (run R rcv ops).toStreamState ↔
      ClosedLast S key (dataSegments S bufs) (trace R rcv ops) := by
  intro key
  have hspares : SparesAlways (R.keeping (LeavesAlone R key)) key :=
    sparesAlways_keeping R fun _ _ h => h.1
  have hnever : NeverOpens (R.keeping (LeavesAlone R key)) key :=
    neverOpens_keeping R fun _ _ h => h.2
  obtain ⟨hrun, htrace⟩ := @run_keeping σ R (LeavesAlone R key) ops rcv hcalls
  have harrived : arrived (R.keeping (LeavesAlone R key)) rcv ops = arrived R rcv ops := by
    rw [arrived, htrace, arrived]
  have h := @handed_over_of_sparesAlways σ τ S (R.keeping (LeavesAlone R key)) sid ingressKey handler
    bufs snd hkey hnew hemitted hwindow rcv ⟨hrcv.view, hrcv.dedup⟩ hanswers hacquires hspares hnever
    ops hops (harrived ▸ hcopies) (harrived ▸ hall)
  simp only [hrun, htrace] at h
  exact h

def closedGreeting : List Call :=
  closedCalls 1#32 none kFgwWireIngressUseLocal [[0x05#8, 0x01#8, 0x00#8]]

theorem closedGreeting_frames : (emitted inportSetting closedGreeting (StreamState.init ())).map
    Attempt.frame = [sampleSyn, greeting0, greeting1, sampleFin] := by decide +kernel

def inOrderOps : List (Op OutportService) :=
  [.onChannelBytes 1 (sampleSyn ++ greeting0), .onChannelBytes 2 (greeting1 ++ sampleFin),
    .onChannelBytes 1 greeting1]

theorem inOrderOps_frames : arrived relayOutport (DataStream.init OutportService.init) inOrderOps =
    [sampleSyn, greeting0, greeting1, sampleFin, greeting1] := by decide +kernel

theorem handed_over_iff_in_order :
    HandedOver sampleKey [0x05#8, 0x01#8, 0x00#8] []
        (run relayOutport (DataStream.init OutportService.init) inOrderOps).toStreamState ↔
      ClosedLast inportSetting sampleKey (dataSegments inportSetting [[0x05#8, 0x01#8, 0x00#8]])
        (trace relayOutport (DataStream.init OutportService.init) inOrderOps) := by
  have hcopies : ∀ f ∈ arrived relayOutport (DataStream.init OutportService.init) inOrderOps,
      f ∈ (emitted inportSetting closedGreeting (StreamState.init ())).map Attempt.frame := by
    rw [inOrderOps_frames, closedGreeting_frames]
    simp
  have hall : ∀ f ∈ (emitted inportSetting closedGreeting (StreamState.init ())).map
      Attempt.frame, f ∈ arrived relayOutport (DataStream.init OutportService.init) inOrderOps := by
    rw [inOrderOps_frames, closedGreeting_frames]
    simp
  have hanswers : Answers relayOutport sampleKey :=
    ⟨_, rfl, fun svc => ⟨(svc.ensureSession sampleKey).2, rfl⟩⟩
  refine @handed_over_iff OutportService Unit inportSetting relayOutport 1#32
    kFgwWireIngressUseLocal none [[0x05#8, 0x01#8, 0x00#8]] (StreamState.init ()) rfl rfl
    (by decide +kernel) (by decide +kernel)
    (DataStream.init OutportService.init) ⟨Or.inl ⟨rfl, hanswers⟩, fun _ => rfl⟩ hanswers
    (fun _ _ => List.length_replicate.ge) inOrderOps (by simp [inOrderOps, SparesOp, NotOpening])
    (by decide +kernel) ?_ (List.forall_mem_map.1 hall)
  intro f hf
  obtain ⟨a, ha, rfl⟩ := List.mem_map.1 (hcopies f hf)
  exact Or.inr ⟨a, ha, rfl⟩

def sampleClosedCalls : List Call := closedCalls 1#32 none kFgwWireIngressUseLocal [[1#8, 2#8, 3#8]]

theorem sampleClosedCalls_frames : (emitted inportSetting sampleClosedCalls
    (StreamState.init ())).map Attempt.frame =
      [sampleSyn, sampleData0, sampleData1, sampleFin] := by decide +kernel

def overtakenOps : List (Op Unit) :=
  [.onChannelBytes 1 sampleSyn, .onChannelBytes 2 sampleFin,
    .onChannelBytes 1 (sampleData0 ++ sampleData1)]

theorem not_handed_over_overtaken :
    ¬ ∀ ops : List (Op Unit),
      (∀ f ∈ arrived outportSetting (DataStream.init ()) ops,
        f ∈ (emitted inportSetting sampleClosedCalls (StreamState.init ())).map Attempt.frame) →
      (∀ f ∈ (emitted inportSetting sampleClosedCalls (StreamState.init ())).map Attempt.frame,
        f ∈ arrived outportSetting (DataStream.init ()) ops) →
      HandedOver sampleKey [1#8, 2#8, 3#8] []
        (run outportSetting (DataStream.init ()) ops).toStreamState := by
  intro hclaim
  have harrived : arrived outportSetting (DataStream.init ()) overtakenOps =
      [sampleSyn, sampleFin, sampleData0, sampleData1] := by decide +kernel
  have hpresent : ((run outportSetting (DataStream.init ()) overtakenOps).sessions
      sampleKey).isSome := by decide +kernel
  obtain ⟨-, habsent⟩ := hclaim overtakenOps (by rw [harrived, sampleClosedCalls_frames]; simp)
    (by rw [harrived, sampleClosedCalls_frames]; simp)
  rw [habsent] at hpresent
  exact absurd hpresent Bool.false_ne_true

end Libfgw
