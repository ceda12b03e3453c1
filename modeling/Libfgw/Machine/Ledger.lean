import Libfgw.AllOrNothing
import Libfgw.DataStream.Arbiter
import Libfgw.Lib.EachAfter

namespace Libfgw

open Lib DataStream

variable {σ : Type}

namespace LinkedStream

variable (H : Host) (S : Setting σ)

theorem step_fedBack (s : LinkedStream σ) {op : Op σ} (hbeat : op ≠ .heartbeat)
    (hstream : op ≠ .stream .emitFeedback) :
    (step H S s op).stream.toStreamState.fedBack = s.stream.toStreamState.fedBack := by
  cases op with
  | manager op => rfl
  | bytes channelId buf =>
    simp only [step, dispatchChannelBytes]
    split
    · rfl
    · exact onChannelBytes_fedBack S _ buf s.stream
  | stream op =>
    have hop : op ≠ .emitFeedback := fun heq => hstream (congrArg Op.stream heq)
    cases op with
    | onChannelBytes ch buf => rfl
    | _ => exact DataStream.step_fedBack S s.stream hop
  | heartbeat => exact absurd rfl hbeat

end LinkedStream

def emissionsOf (n : Nat) (es : List Emission) : Nat := es.countP (fun e => e.bringup = n)

def CountFromOne (es : List Emission) : Prop :=
  EachAfter (fun pre e => e.fb.decisionEpoch = BitVec.ofNat 32 (emissionsOf e.bringup pre + 1)) es

namespace StreamObject

def account (so : StreamObject σ) :
    Nat × ZceUint32 × List (FgwLinkFeedback × List ZceByte × List FgwChannel) :=
  (so.bringup, so.state.toStreamState.fedBack)

end StreamObject

namespace ZfgwMachine

variable {E : Env σ} {m : ZfgwMachine σ}

theorem emitted_eq (m : ZfgwMachine σ) : m.emitted = m.past ++
    ((m.stream.map StreamObject.account).map
      (fun a => a.2.2.map fun p => (⟨a.1, p.1, p.2.1, p.2.2⟩ : Emission))).getD [] := by
  unfold emitted
  cases m.stream <;> rfl

/-- The books of a machine that has fed back `es`. -/
structure Ledger (es : List Emission) (m : ZfgwMachine σ) : Prop where
  emitted : m.emitted = es
  counts : CountFromOne es
  bound : ∀ e ∈ es, e.bringup ≤ m.bringups
  stream : ∀ so, m.stream = some so → so.account.1 = m.bringups ∧
    so.account.2.1 = BitVec.ofNat 32 (emissionsOf m.bringups es)

namespace Ledger

variable {es : List Emission}

theorem init : Ledger [] (ZfgwMachine.init : ZfgwMachine σ) :=
  ⟨rfl, EachAfter.nil, fun _ he => absurd he List.not_mem_nil,
    fun so hso => absurd hso (Option.some_ne_none so).symm⟩

theorem of_same (h : Ledger es m) {m' : ZfgwMachine σ} (hpast : m'.past = m.past)
    (hstream : m'.stream.map StreamObject.account = m.stream.map StreamObject.account)
    (hbringups : m'.bringups = m.bringups) : Ledger es m' := by
  refine ⟨?_, h.counts, by rw [hbringups]; exact h.bound, fun so hso => ?_⟩
  · rw [emitted_eq, hpast, hstream, ← emitted_eq]
    exact h.emitted
  · rw [hso, Option.map_some] at hstream
    obtain ⟨so', hso', haccount⟩ := Option.map_eq_some_iff.1 hstream.symm
    rw [← haccount, hbringups]
    exact h.stream so' hso'

theorem doTeardown (h : Ledger es m) : Ledger es m.doTeardown :=
  ⟨(List.append_nil _).trans h.emitted, h.counts, h.bound,
    fun so hso => absurd hso (Option.some_ne_none so).symm⟩

theorem finish (h : Ledger es m) (ret : Int) : Ledger es (m.finish ret).2 := by
  unfold ZfgwMachine.finish
  split
  · exact h.doTeardown
  · exact h.of_same rfl rfl rfl

theorem next (h : Ledger es m) (hstream : m.stream = none) :
    Ledger es { m with bringups := m.bringups + 1, role := m.config.role } ∧
      emissionsOf (m.bringups + 1) es = 0 := by
  refine ⟨⟨h.emitted, h.counts, fun e he => Nat.le_succ_of_le (h.bound e he), ?_⟩, ?_⟩
  · intro so hso
    exact absurd (hstream.symm.trans hso) (Option.some_ne_none so).symm
  · refine List.countP_eq_zero.2 fun e he => ?_
    have hbound := h.bound e he
    rw [decide_eq_true_iff]
    omega

theorem withStream (h : Ledger es m) (hstream : m.stream = none)
    (hcount : emissionsOf m.bringups es = 0) {so : StreamObject σ}
    (haccount : so.account = (m.bringups, 0#32, [])) (manager : Option ManagerState) :
    Ledger es { m with manager := manager, stream := some so } := by
  refine ⟨?_, h.counts, h.bound, fun so' hso' => ?_⟩
  · have hpast := h.emitted
    rw [emitted_eq, hstream] at hpast
    rw [emitted_eq, Option.map_some, haccount]
    exact hpast
  · obtain rfl := Option.some.inj hso'
    rw [haccount]
    exact ⟨rfl, by rw [hcount]⟩

theorem bringupTransit (h : Ledger es m) (b : Bringup) : Ledger es (bringupTransit E b m).2 := by
  refine finish ?_ _
  exact h.of_same rfl rfl rfl

theorem bringupInport (h : Ledger es m) (b : Bringup) : Ledger es (bringupInport b m).2 := by
  refine finish ?_ _
  exact h.of_same rfl rfl rfl

theorem hooked (h : Ledger es m) {so : StreamObject σ} (hso : m.stream = some so)
    (manager : Option ManagerState) (outport : Option OutportObject) :
    Ledger es { m with
      manager := manager
      outport := outport
      stream := some { so with hooked := true } } := by
  refine h.of_same rfl ?_ rfl
  rw [hso]
  rfl

theorem bringupOutport (h : Ledger es m) (b : Bringup) (manager : ManagerState)
    {so : StreamObject σ} (hso : m.stream = some so) :
    Ledger es (bringupOutport b manager so m).2 := by
  unfold ZfgwMachine.bringupOutport OutportObject.start
  dsimp only
  split
  · exact (h.hooked hso _ _).doTeardown
  split
  · exact (h.hooked hso _ _).finish _
  · exact (h.hooked hso m.manager (some ⟨m.bringups⟩)).of_same rfl rfl rfl

theorem bringupLinked (h : Ledger es m) (hstream : m.stream = none)
    (hcount : emissionsOf m.bringups es = 0) (b : Bringup) :
    Ledger es (bringupLinked E b m).2 := by
  have hlinked : ∀ manager, Ledger es
      { m with manager := manager, stream := some (StreamObject.make E m.bringups m.config) } :=
    h.withStream hstream hcount rfl
  unfold ZfgwMachine.bringupLinked
  dsimp only
  split
  · exact h.of_same rfl rfl rfl
  split
  · exact (hlinked _).bringupInport b
  split
  · exact (hlinked _).bringupOutport b _ rfl
  · exact (hlinked _).doTeardown

theorem doBringup (h : Ledger es m) (hwhole : m.Whole) (b : Bringup) :
    Ledger es (doBringup E b m).2 := by
  unfold ZfgwMachine.doBringup
  split
  · exact h
  rename_i hstopped
  split
  · exact h
  have hdown : m.Down := hwhole.resolve_left fun hup => hstopped hup.1
  have hstream : m.stream = none :=
    Option.isNone_iff_eq_none.1 (by
      have hnone := congrArg Components.stream hdown.2
      rw [components] at hnone
      simpa using hnone)
  obtain ⟨hnext, hcount⟩ := h.next hstream
  dsimp only
  split
  · exact hnext.bringupTransit b
  · exact hnext.bringupLinked hstream hcount b

theorem start (h : Ledger es m) (hwhole : m.Whole) (file : Option (Except Int FgwConfig))
    (b : Bringup) : Ledger es (start E file b m).2 := by
  unfold ZfgwMachine.start
  split
  · exact h
  · refine doBringup ?_ ?_ b
    · exact h.of_same rfl rfl rfl
    · exact hwhole.of_same rfl rfl rfl
  · exact h.doBringup hwhole b

theorem mlfStart (h : Ledger es m) (hwhole : m.Whole) (forceRestart : ZceByte) (b : Bringup) :
    Ledger es (mlfStart E forceRestart b m).2 := by
  unfold ZfgwMachine.mlfStart
  split
  · exact h
  dsimp only
  split
  · exact h.doTeardown.doBringup (Or.inr m.doTeardown_down) b
  · exact h.doBringup hwhole b

theorem mlfAddChannel (h : Ledger es m) (channel : FgwChannelConfig) :
    Ledger es (mlfAddChannel E channel m).2 := by
  unfold ZfgwMachine.mlfAddChannel
  split
  · exact h
  · rename_i old _
    have hstream : ∀ manager, (m.stream.map fun so =>
        { so with state := so.state.meetChannels old manager }).map StreamObject.account =
          m.stream.map StreamObject.account := fun manager => by
      rw [Option.map_map]
      rfl
    dsimp only
    split <;> exact h.of_same rfl (hstream _) rfl

theorem mlfRemoveChannel (h : Ledger es m) (channelId : ZceUint32) :
    Ledger es (mlfRemoveChannel channelId m).2 := by
  unfold ZfgwMachine.mlfRemoveChannel
  split
  · exact h
  · dsimp only
    split <;> exact h.of_same rfl rfl rfl

theorem linkEvent (h : Ledger es m) {op : LinkedStream.Op σ} (harises : arises op = true)
    (hbeat : op ≠ .heartbeat) : Ledger es (linkEvent E op m) := by
  unfold ZfgwMachine.linkEvent
  split
  · rename_i manager so hmanager hso
    refine h.of_same rfl ?_ rfl
    rw [hso, Option.map_some, Option.map_some, StreamObject.account, StreamObject.account]
    dsimp only
    rw [LinkedStream.step_fedBack _ _ _ hbeat (by rintro rfl; exact Bool.false_ne_true harises)]
  · exact h

theorem transitEvent (h : Ledger es m) (op : TransitService.Op) :
    Ledger es (transitEvent E op m) := by
  unfold ZfgwMachine.transitEvent
  split
  · exact h
  split
  · exact h.of_same rfl rfl rfl
  · exact h

end Ledger

def Feeds (m : ZfgwMachine σ) (op : Op σ) : Prop :=
  op = .link .heartbeat ∧ ∃ manager so, m.manager = some manager ∧ m.stream = some so ∧
    manager.heartbeatTimer.isSome ∧ 0 ∈ manager.bytesSubscribers ∧
    Recommends so.state.toStreamState

theorem Ledger.step {es : List Emission} (h : Ledger es m) (hwhole : m.Whole) {op : Op σ}
    (hop : ¬ Feeds m op) : Ledger es (step E m op) := by
  cases op with
  | start file b => exact h.start hwhole file b
  | stop => exact h.doTeardown
  | mlfStart forceRestart b => exact h.mlfStart hwhole forceRestart b
  | mlfStop => exact h.doTeardown
  | mlfSetConfig config =>
    simp only [ZfgwMachine.step, mlfSetConfig]
    split
    · exact h.of_same rfl rfl rfl
    · exact h
  | mlfAddChannel channel => exact h.mlfAddChannel channel
  | mlfRemoveChannel channelId => exact h.mlfRemoveChannel channelId
  | link op =>
    simp only [ZfgwMachine.step]
    split
    · rename_i harises
      by_cases hbeat : op = .heartbeat
      · subst hbeat
        unfold ZfgwMachine.linkEvent
        split
        · rename_i manager so hmanager hso
          refine h.of_same rfl ?_ rfl
          rw [hso, Option.map_some, Option.map_some, StreamObject.account, StreamObject.account]
          simp only [LinkedStream.step, LinkedStream.onHeartbeatTick]
          split
          · rename_i hticks
            have hsilent := emitFeedback_silent (so.setting E) fun hrec =>
              hop ⟨rfl, manager, so, hmanager, hso, hticks.1, hticks.2, hrec⟩
            have hsame := congrArg (fun a => (a.feedbackEpoch, a.feedbackSent)) hsilent
            exact congrArg (fun a => some (so.bringup, a)) hsame
          · rfl
        · exact h
      · exact h.linkEvent harises hbeat
    · exact h
  | transit op => exact h.transitEvent op

/-- What such a tick feeds back. -/
theorem Ledger.step_feeds {es : List Emission} (h : Ledger es m) {op : Op σ} (hop : Feeds m op)
    (hpacks : ∀ n fb, ∃ p, (E.setting n).zds.packFeedback 64 fb = some p) :
    ∃ e hdr payload, e.bringup = m.bringups ∧ e.fb.recommendedPrimary ≠ 0#32 ∧
      e.frame = wireFrame hdr payload ∧ hdr.flags = FgwSegmentHeader.FLAG_ACK ∧
      (E.setting m.bringups).zds.packFeedback 64 e.fb = some payload ∧
      Ledger (es ++ [e]) (ZfgwMachine.step E m op) := by
  obtain ⟨rfl, manager, so, hmanager, hso, htimer, hsubscribed, hrec⟩ := hop
  obtain ⟨hbringup, hepoch⟩ := h.stream so hso
  obtain ⟨payload, hpayload⟩ := hpacks so.bringup (nextFeedback so.state.toStreamState)
  have hemits := emitFeedback_recommends (so.setting E) hrec hpayload
  have hstep : (ZfgwMachine.step E m (.link .heartbeat)) =
      { m with
        stream := some { so with state := DataStream.step (so.setting E) so.state .emitFeedback } } := by
    simp only [ZfgwMachine.step, arises, if_true, ZfgwMachine.linkEvent, hmanager, hso,
      LinkedStream.step, LinkedStream.onHeartbeatTick]
    rw [if_pos ⟨htimer, hsubscribed⟩]
  have hfed : (DataStream.step (so.setting E) so.state .emitFeedback).toStreamState.fedBack =
      (so.state.feedbackEpoch + 1#32, so.state.feedbackSent ++
        [(nextFeedback so.state.toStreamState, wireFrame (feedbackHeader (so.setting E) payload.length)
          payload, ((so.setting E).manager so.state.clock).liveChannels)]) :=
    congrArg (fun a => (a.feedbackEpoch, a.feedbackSent)) hemits
  let e : Emission := ⟨m.bringups, nextFeedback so.state.toStreamState,
    wireFrame (feedbackHeader (so.setting E) payload.length) payload,
    ((so.setting E).manager so.state.clock).liveChannels⟩
  have hown : so.bringup = m.bringups := hbringup
  have hnext : so.state.feedbackEpoch + 1#32 = BitVec.ofNat 32 (emissionsOf m.bringups es + 1) := by
    rw [BitVec.ofNat_add]
    exact congrArg (· + 1#32) hepoch
  refine ⟨e, feedbackHeader (so.setting E) payload.length, payload, rfl, hrec.2, rfl, rfl,
    hown ▸ hpayload, ⟨?_, h.counts.concat hnext, ?_, ?_⟩⟩
  · rw [hstep, ← h.emitted, emitted_eq, emitted_eq, hso]
    simp only [Option.map_some, Option.getD_some, StreamObject.account, hfed, List.map_append,
      List.map_singleton, List.append_assoc, hown]
    rfl
  · intro e' he'
    rw [hstep]
    rcases List.mem_append.1 he' with he' | he'
    · exact h.bound e' he'
    · rw [List.mem_singleton.1 he']
  · intro so' hso'
    rw [hstep] at hso' ⊢
    obtain rfl := Option.some.inj hso'
    refine ⟨hown, ?_⟩
    have hcount : emissionsOf m.bringups (es ++ [e]) = emissionsOf m.bringups es + 1 := by
      rw [emissionsOf, emissionsOf, List.countP_append, List.countP_singleton,
        if_pos (decide_eq_true rfl)]
    rw [StreamObject.account]
    dsimp only
    rw [hfed, hcount]
    exact hnext

end ZfgwMachine

end Libfgw
