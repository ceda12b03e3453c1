import Libfgw.ExactlyOnce
import Libfgw.Outport.Agreement

namespace Libfgw

open Lib DataStream

namespace OutportService

variable (K : Sockets) (S : Setting OutportService)

/-- No relay under the reserved id closes itself: not on what it is handed, nor because its target
has closed. -/
def SparesOp (ds : DataStream OutportService) : Op → Prop
  | .onChannelBytes ch buf =>
    ∀ p ∈ frameTrace (setting K S) ch ds.toStreamState (segmentFrames (ds.scratch ch ++ buf)),
      ∀ d, delivery (setting K S) ch p.1 p.2 = some d → SparesReserved K S d
  | .onRemoteClose handler =>
    ∀ s, ds.owner.relays handler = some s → s.remoteTcp = true → ¬ Reserved S s.peerIngressId
  | _ => True

def AllSpare : DataStream OutportService → List Op → Prop
  | _, [] => True
  | ds, op :: ops => SparesOp K S ds op ∧ AllSpare (step K S ds op) ops

variable {K S}

theorem reports_relay {state : Option RelayState} {handler : Handler} {svc : OutportService}
    (h : svc.reports state handler = true) :
    ∃ s, svc.relays handler = some s ∧ s.remoteTcp = true ∧ ∀ st ∈ state, st = s.state := by
  unfold reports at h
  split at h
  · exact absurd h Bool.false_ne_true
  · rename_i s hs
    obtain ⟨hremote, hstate⟩ := Bool.and_eq_true_iff.1 h
    refine ⟨s, hs, hremote, fun st hst => ?_⟩
    rw [Option.mem_def.1 hst] at hstate
    exact eq_of_beq hstate

theorem onRemoteOpen_state (s : FgwRelaySession) :
    (FgwRelaySession.onRemoteOpen K s).state = .relaying := FgwRelaySession.flush_state K _

theorem InStep.step {ds : DataStream OutportService} (h : InStep ds.toStreamState) {op : Op}
    (hop : SparesOp K S ds op) : InStep (OutportService.step K S ds op).toStreamState := by
  cases op with
  | onChannelBytes ch buf =>
    have hframes := @frames_invariant _ (setting K S) (fun _ st => InStep st)
      (fun p => ∀ d, delivery (setting K S) ch p.1 p.2 = some d → SparesReserved K S d) ch
      (fun f _ st hf hst => hst.handleFrame hf) _ [] ds.toStreamState hop h
    change InStep (DataStream.onChannelBytes (setting K S) ch buf ds).toStreamState
    rw [onChannelBytes_frames]
    exact hframes
  | onRemoteOpen handler =>
    simp only [OutportService.step]
    split
    · rename_i hreports
      obtain ⟨s, hs, -, hstate⟩ := reports_relay hreports
      have hconnecting : s.state = .connecting := (hstate _ rfl).symm
      have hdrive := h.drive (K := K) (S := S) (FgwRelaySession.onRemoteOpen K) handler
        fun t ht => FgwRelaySession.Follows.onRemoteOpen K (by
          obtain rfl := Option.some.inj (ht.symm.trans hs)
          exact fun hclosed => RelayState.noConfusion (hconnecting.symm.trans hclosed))
      refine ⟨hdrive.wf, fun key v handler' _ => hdrive.names key v handler' ⟨trivial, ?_⟩⟩
      intro t _ _ _ hclosed
      rw [onRemoteOpen_state] at hclosed
      exact RelayState.noConfusion hclosed
    · exact h
  | onRemoteBytes handler buf =>
    simp only [OutportService.step]
    split
    · rename_i hreports
      obtain ⟨s, hs, -, hstate⟩ := reports_relay hreports
      have hrelaying : s.state = .relaying := (hstate _ rfl).symm
      have hopen : ∀ t, ds.owner.relays handler = some t → t.state ≠ .closed := by
        intro t ht hclosed
        obtain rfl := Option.some.inj (ht.symm.trans hs)
        exact RelayState.noConfusion (hrelaying.symm.trans hclosed)
      have hdrive := h.drive (K := K) (S := S) (FgwRelaySession.onRemoteBytes buf) handler
        fun t ht => FgwRelaySession.Follows.sendToPeer (by exact hopen t ht) buf
      refine ⟨hdrive.wf, fun key v handler' _ => hdrive.names key v handler' ⟨trivial, ?_⟩⟩
      intro t ht _ _ hclosed
      exact absurd hclosed (hopen t ht)
    · exact h
  | onRemoteClose handler =>
    simp only [OutportService.step]
    split
    · rename_i hreports
      obtain ⟨s, hs, hremote, -⟩ := reports_relay hreports
      have hdrive := h.drive (K := K) (S := S) FgwRelaySession.onRemoteClose handler
        fun t _ => FgwRelaySession.Follows.close _
      refine ⟨hdrive.wf, fun key v handler' _ => hdrive.names key v handler' ⟨trivial, ?_⟩⟩
      intro t ht _ _ _
      obtain rfl := Option.some.inj (ht.symm.trans hs)
      exact hop t ht hremote
    · exact h
  | emitFeedback =>
    exact h.judgesOnly (emitFeedback_judgesOnly (setting K S) _)
  | selector selector => exact h.of_eq rfl rfl

theorem InStep.run {ops : List Op} {ds : DataStream OutportService} (h : InStep ds.toStreamState)
    (hops : AllSpare K S ds ops) : InStep (OutportService.run K S ds ops).toStreamState := by
  induction ops generalizing ds with
  | nil => exact h
  | cons op ops ih => exact ih (h.step hops.1) hops.2

theorem InStep.init (selector : LinkSelector) :
    InStep (DataStream.init OutportService.init selector).toStreamState := by
  refine ⟨Wf.init, fun key v handler _ hv => ?_⟩
  exact absurd hv (Option.some_ne_none v).symm

end OutportService

open OutportService in
/-- As long as no relay under the reserved id closes itself, every handler in the stream's table is
the relay that is registered under the same key, and is open. -/
theorem no_dangling_relay (K : Sockets) (S : Setting OutportService) (selector : LinkSelector)
    (ops : List OutportService.Op)
    (hspare : AllSpare K S (DataStream.init OutportService.init selector) ops) :
    let ds := OutportService.run K S (DataStream.init OutportService.init selector) ops
    ∀ key s handler, ds.sessions key = some s → s.handler = some handler →
      ds.owner.sessions key = some handler ∧
        ∃ relay, ds.owner.relays handler = some relay ∧ relay.state ≠ .closed := by
  intro ds key s handler hs hhandler
  have hsound := (InStep.init selector).run hspare
  have hreg := hsound.names key s.rxView handler trivial (by rw [StreamState.rxView, hs]; rfl) hhandler
  obtain ⟨relay, hrelay, -, hopen⟩ := hsound.wf.registered hreg
  exact ⟨hreg, relay, hrelay, hopen⟩

def clientHello : List ZceByte := dataFrame inportSetting sampleKey 0 [0x05#8, 0x01#8, 0x00#8]

def strangeHello : List ZceByte := dataFrame inportSetting (7#32, 2#32) 0 [0x04#8, 0x01#8]

def helloOps : List OutportService.Op :=
  [.onChannelBytes 1 clientHello, .onChannelBytes 1 strangeHello]

def helloRun : DataStream OutportService :=
  OutportService.run sampleSockets relaySetting (DataStream.init OutportService.init) helloOps

theorem sparesOp_frame {ds : DataStream OutportService} {ch : ChannelRef} {f : List ZceByte}
    (hframes : segmentFrames (ds.scratch ch ++ f) = [f])
    (hkey : (delivery (OutportService.setting sampleSockets relaySetting) ch ds.toStreamState f).map
      (fun d => d.key.1) = some 7#32) :
    OutportService.SparesOp sampleSockets relaySetting ds (.onChannelBytes ch f) := by
  intro p hp d hd hreserved
  rw [hframes] at hp
  obtain rfl := List.mem_singleton.1 hp
  rw [hd] at hkey
  have hdkey : d.key.1 = 7#32 := Option.some.inj hkey
  rw [hdkey] at hreserved
  exact absurd hreserved.1 (by decide)

theorem no_dangling_relay_greeting : helloRun.owner.sessions sampleKey = some 0 ∧
    (helloRun.owner.relays 1).map FgwRelaySession.state = some .closed := by
  have hspare : OutportService.AllSpare sampleSockets relaySetting
      (DataStream.init OutportService.init) helloOps :=
    ⟨sparesOp_frame (by decide +kernel) (by decide +kernel),
      sparesOp_frame (by decide +kernel) (by decide +kernel), trivial⟩
  have hhandler : (helloRun.sessions sampleKey).bind SessionState.handler = some 0 := by
    decide +kernel
  obtain ⟨s, hs, hhandler⟩ := Option.bind_eq_some_iff.1 hhandler
  have hregistered := no_dangling_relay sampleSockets relaySetting {} helloOps hspare
  refine ⟨?_, by decide +kernel⟩
  unfold helloRun at hs ⊢
  exact (hregistered sampleKey s 0 hs hhandler).1

def reservedInport : Setting Unit :=
  { inportSetting with config := StreamConfig.make kFgwWireIngressUseLocal 2#16 4#16 true 0#32 }

def strangeOps : List OutportService.Op :=
  [.onChannelBytes 1
    (dataFrame reservedInport (kFgwWireIngressUseLocal, 1#32) 0 [0x04#8, 0x01#8])]

def strangeRun : DataStream OutportService :=
  OutportService.run sampleSockets relaySetting (DataStream.init OutportService.init) strangeOps

theorem dangling_relay :
    ¬ ∀ (K : Sockets) (S : Setting OutportService) (selector : LinkSelector)
      (ops : List OutportService.Op),
      let ds := OutportService.run K S (DataStream.init OutportService.init selector) ops
      ∀ key s handler, ds.sessions key = some s → s.handler = some handler →
        ds.owner.sessions key = some handler ∧
          ∃ relay, ds.owner.relays handler = some relay ∧ relay.state ≠ .closed := by
  intro hclaim
  have hhandler : (strangeRun.sessions (kFgwWireIngressUseLocal, 1#32)).bind SessionState.handler =
      some 0 := by decide +kernel
  have hremoved : strangeRun.owner.sessions (kFgwWireIngressUseLocal, 1#32) = none := by
    decide +kernel
  obtain ⟨s, hs, hhandler⟩ := Option.bind_eq_some_iff.1 hhandler
  unfold strangeRun at hs hremoved
  have hnamed : (OutportService.run sampleSockets relaySetting (DataStream.init OutportService.init)
      strangeOps).owner.sessions (kFgwWireIngressUseLocal, 1#32) = some 0 :=
    (hclaim sampleSockets relaySetting {} strangeOps (kFgwWireIngressUseLocal, 1#32) s 0 hs
      hhandler).1
  exact absurd (hremoved.symm.trans hnamed) (Option.some_ne_none 0).symm

end Libfgw
