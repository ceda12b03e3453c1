import Libfgw.Clients
import Libfgw.ExactlyOnce
import Libfgw.Outport.Drained
import Libfgw.Tunnel.Transits

namespace Libfgw

open Lib DataStream FgwRelaySession

namespace Tunnel

variable {W : Sites} {T : Tunnel}

theorem sampleLink_sorted :
    [upChannel 1 1#32].Pairwise fun a b => a.channelId < b.channelId := List.pairwise_singleton _ _

def sampleSites : Sites where
  inport i :=
    { InportService.lonelySetting with
      config := StreamConfig.make i.val 1200#16 1024#16 true 9#32
      manager := fun _ => ⟨[upChannel 1 1#32], sampleLink_sorted⟩ }
  acquires _ _ := true
  outport :=
    { config := StreamConfig.make 0#32 1200#16 1024#16 true 0#32
      manager := fun _ => ⟨[upChannel 1 1#32], sampleLink_sorted⟩
      mbacquire := fun _ n => List.replicate n 0#8
      sort := stableSort
      zds := ZdsCodec.known [] []
      unknownCb := none
      onEvent := fun svc _ => (svc, []) }
  sockets := { startConnect := fun _ => 0, acquires := fun _ => true }
  localIngressId _ := rfl

def sampleInport : IngressId := ⟨7#32, by decide⟩

def sampleAsks : List ZceByte :=
  greeting [0x00#8] ++ connectRequest 0x00#8 (.ipv4 10#8 0#8 0#8 1#8) 80#16 ++ [1#8, 2#8]

def sampleTunnel : List Op → Tunnel := List.foldl (step sampleSites) init

def sampleAsked : Tunnel := sampleTunnel
  [.inport sampleInport (.start 0), .inport sampleInport .accept,
    .inport sampleInport (.onClientBytes 0 sampleAsks)]

def carried (sent : List Attempt) : List ZceByte := (sent.map Attempt.frame).flatten

def sampleDialed : Tunnel :=
  step sampleSites sampleAsked
    (.outport (.onChannelBytes 1 (carried (sampleAsked.inports sampleInport).sent)))

def sampleOpened : Tunnel :=
  step sampleSites (step sampleSites sampleDialed (.outport (.onRemoteOpen 0)))
    (.outport (.onRemoteBytes 0 [9#8]))

theorem sampleAsked_reachable : Reachable sampleSites sampleAsked :=
  ((Reachable.inport .init rfl).inport rfl).inport rfl

theorem sampleDialed_reachable : Reachable sampleSites sampleDialed := by
  have hsent : ∀ f ∈ OutportService.arriving sampleAsked.outport
      (.onChannelBytes 1 (carried (sampleAsked.inports sampleInport).sent)),
      ∃ a ∈ (sampleAsked.inports sampleInport).sent, a.result.isOk ∧ a.frame = f := by
    decide +kernel
  exact sampleAsked_reachable.next fun f hf => Or.inr ⟨sampleInport, hsent f hf⟩

theorem sampleOpened_reachable : Reachable sampleSites sampleOpened :=
  (sampleDialed_reachable.outport rfl).outport rfl

def sampleAnswered : Tunnel :=
  step sampleSites sampleOpened
    (.inport sampleInport (.onChannelBytes 1 (carried sampleOpened.outport.sent)))

theorem sampleAnswered_reachable : Reachable sampleSites sampleAnswered := by
  have hsent : ∀ f ∈ InportService.arriving (sampleOpened.inports sampleInport)
      (.onChannelBytes 1 (carried sampleOpened.outport.sent)),
      ∃ a ∈ sampleOpened.outport.sent, a.result.isOk ∧ a.frame = f := by
    decide +kernel
  exact sampleOpened_reachable.next fun f hf => Or.inr (hsent f hf)

theorem sampleAnswered_run :
    ((sampleAnswered.inports sampleInport).owner.made = 1 ∧ sampleAnswered.outport.owner.made = 1) ∧
    ((sampleAnswered.inports sampleInport).owner.clients 0).map
        (fun s => ((s.sessionId, s.closed), s.written)) =
      some ((1#32, false), [SOCKS5_VER, 0x00#8] ++ reply SOCKS5_REP_OK ++ [9#8]) ∧
    (sampleAnswered.outport.owner.relays 0).map (fun s => ((s.key, s.state), s.written)) =
      some (((7#32, 1#32), .relaying), [1#8, 2#8]) ∧
    ((numbered (7#32, 1#32) (sampleAnswered.inports sampleInport).sent).length < 2 ^ 32 ∧
      (numbered (7#32, 1#32) sampleAnswered.outport.sent).length < 2 ^ 32) ∧
    sampleAnswered.outport.names (7#32, 1#32) = some 0 := by
  decide +kernel

theorem sampleAnswered_made : (sampleAnswered.inports sampleInport).owner.made ≤ 2 ^ 32 := by
  rw [sampleAnswered_run.1.1]
  decide

theorem sampleAnswered_client :
    ∃ client, (sampleAnswered.inports sampleInport).owner.clients 0 = some client ∧
      (client.sessionId = 1#32 ∧ client.closed = false) ∧
        client.written = [SOCKS5_VER, 0x00#8] ++ reply SOCKS5_REP_OK ++ [9#8] := by
  obtain ⟨client, hclient, hrun⟩ := Option.map_eq_some_iff.1 sampleAnswered_run.2.1
  exact ⟨client, hclient, Prod.mk.inj (Prod.mk.inj hrun).1, (Prod.mk.inj hrun).2⟩

/-- The receiving end of a session expects the number that the sending end gives next. -/
def CaughtUp {σ τ : Type} (key : SessionKey) (sender : StreamState σ) (receiver : StreamState τ) :
    Prop :=
  ∃ s t, sender.sessions key = some s ∧ receiver.sessions key = some t ∧
    t.expectedRxSeq = s.nextSendSeq

theorem caughtUp_iff {σ τ : Type} {key : SessionKey} {sender : StreamState σ}
    {receiver : StreamState τ} : CaughtUp key sender receiver ↔
      (sender.sessions key).isSome ∧ (receiver.sessions key).map SessionState.expectedRxSeq =
        (sender.sessions key).map SessionState.nextSendSeq := by
  constructor
  · rintro ⟨s, t, hs, ht, hexpects⟩
    rw [hs, ht, Option.map_some, Option.map_some, hexpects]
    exact ⟨rfl, rfl⟩
  · rintro ⟨hsome, hexpects⟩
    obtain ⟨s, hs⟩ := Option.isSome_iff_exists.1 hsome
    rw [hs, Option.map_some, Option.map_eq_some_iff] at hexpects
    obtain ⟨t, ht, hexpects⟩ := hexpects
    exact ⟨s, t, hs, ht, hexpects⟩

instance {σ τ : Type} (key : SessionKey) (sender : StreamState σ) (receiver : StreamState τ) :
    Decidable (CaughtUp key sender receiver) := decidable_of_iff _ caughtUp_iff.symm

theorem CaughtUp.handed_eq {σ τ : Type} {key : SessionKey} {sender : StreamState σ}
    {receiver : StreamState τ} (h : CaughtUp key sender receiver) {speaker handler : Handler}
    (hspeaks : Speaks key speaker sender) {given : List ZceByte}
    (hcounted : Counted key given sender.sent) (hlen : (numbered key sender.sent).length < 2 ^ 32)
    {G : SessionKey → ZceUint32 → List ZceByte → Prop} (hfed : Fed G receiver)
    (hnames : receiver.names key = some handler)
    (htakes : Takes Attempt.WentOut Attempt.payload Attempt.seq (numbered key sender.sent)
      (handed key handler receiver.events)) :
    (handed key handler receiver.events).flatten = given := by
  obtain ⟨s, t, hs, ht, hexpects⟩ := h
  obtain ⟨s', hs', -, hnext⟩ := hspeaks
  obtain rfl := Option.some.inj (hs.symm.trans hs')
  have hhandler : t.handler = some handler := by
    rw [StreamState.names, ht] at hnames
    exact hnames
  have hview : receiver.rxView key = some t.rxView := by rw [StreamState.rxView, ht]; rfl
  have hexpected : t.expectedRxSeq = BitVec.ofNat 32 (handed key handler receiver.events).length :=
    hfed.expected hview hhandler
  have hle := htakes.length_le hcounted.counts hlen
  refine htakes.flatten_eq hcounted.counts hlen hcounted.tells ?_
  rw [hexpects, hnext, ← BitVec.toNat_inj, BitVec.toNat_ofNat, BitVec.toNat_ofNat,
    Nat.mod_eq_of_lt hlen, Nat.mod_eq_of_lt (Nat.lt_of_le_of_lt hle hlen)] at hexpected
  exact hexpected.symm

/-- In every run of a tunnel: a client that is open is attached to the entry of its session, so no
frame has taken its place before it came. -/
theorem clients_attached (h : Reachable W T) {i : IngressId}
    (hmade : (T.inports i).owner.made ≤ 2 ^ 32) {c : Handler} {client : FgwSession}
    (hclient : (T.inports i).owner.clients c = some client) (hopen : client.closed = false) :
    (T.inports i).names (i.val, client.sessionId) = some c := by
  have hspeaks := ((h.sound.inport i).voiced.speaks hmade c client hclient).2 hopen
  rw [InportService.keyOf, W.localIngressId] at hspeaks
  obtain ⟨s, hs, hhandler, -⟩ := hspeaks
  rw [StreamState.names, hs]
  exact hhandler

theorem clients_attached_sample :
    (sampleAnswered.inports sampleInport).names (7#32, 1#32) = some 0 := by
  obtain ⟨client, hclient, ⟨hsid, hopen⟩, -⟩ := sampleAnswered_client
  have h := clients_attached sampleAnswered_reachable sampleAnswered_made hclient hopen
  rwa [hsid] at h

/-- In every run of a tunnel: the outport's stream names a relay for a session exactly when the relay
is registered under the session's key, and that is when it is open. -/
theorem relays_registered (h : Reachable W T) (key : SessionKey) (r : Handler) :
    (T.outport.names key = some r ↔ T.outport.owner.sessions key = some r) ∧
      (T.outport.owner.sessions key = some r ↔ ∃ relay, T.outport.owner.relays r = some relay ∧
        relay.key = key ∧ relay.state ≠ .closed) := by
  refine ⟨h.sound.outport.named key r, h.sound.outport.wf.registered, ?_⟩
  rintro ⟨relay, hrelay, rfl, hopen⟩
  exact h.sound.outport.wf.opened hrelay hopen

theorem relays_registered_sample :
    ∃ relay, sampleAnswered.outport.owner.relays 0 = some relay ∧ relay.key = (7#32, 1#32) ∧
      relay.state ≠ .closed := by
  obtain ⟨hnames, hregistered⟩ := relays_registered sampleAnswered_reachable (7#32, 1#32) 0
  exact hregistered.1 (hnames.1 sampleAnswered_run.2.2.2.2)

end Tunnel

namespace Mesh

open Tunnel

/-- In every run of a tunnel whose links run through transits, one behind the other and as many as
there are, whatever becomes of their links: the ends are in a state that they can reach without
them. -/
theorem transits_unseen {W : MeshSites} {M : Mesh} (h : Mesh.Reachable W M) :
    Tunnel.Reachable W.toSites M.tunnel := ((refines W).reachable h).1

def sampleMeshSites : MeshSites :=
  { sampleSites with transit := fun _ => { zds := ZdsCodec.known [] [] } }

def sampleLinked : Mesh :=
  step sampleMeshSites (step sampleMeshSites { init with tunnel := sampleAsked }
    (.transit 0 (.accept 1))) (.transit 0 (.dial { channelId := 9#32 } 2 0))

def sampleForwarded : Mesh :=
  step sampleMeshSites sampleLinked
    (.transit 0 (.bytes 1 (carried (sampleLinked.tunnel.inports sampleInport).sent)))

def sampleBrought : Mesh :=
  step sampleMeshSites sampleForwarded
    (.tunnel (.outport (.onChannelBytes 1 sampleForwarded.up.flatten)))

theorem sampleForwarded_reachable : Mesh.Reachable sampleMeshSites sampleForwarded := by
  have hasked : Mesh.Reachable sampleMeshSites { init with tunnel := sampleAsked } :=
    ((Mesh.Reachable.inport .init rfl).inport rfl).inport rfl
  have harrives : ∀ a ∈ TransitService.arrivalsAt (sampleMeshSites.transit 0)
      (sampleLinked.transits 0) (.bytes 1 (carried (sampleLinked.tunnel.inports sampleInport).sent)),
      a.outbound = false ∧ ∃ x ∈ (sampleLinked.tunnel.inports sampleInport).sent,
        x.result.isOk ∧ x.frame = a.frame := by decide +kernel
  refine ((hasked.transit rfl).transit rfl).next fun a ha => ?_
  obtain ⟨hinbound, hsent⟩ := harrives a ha
  rw [hinbound, if_neg Bool.false_ne_true]
  exact Or.inl (Or.inr ⟨sampleInport, hsent⟩)

theorem transits_unseen_sample :
    (sampleBrought.tunnel.outport.owner.relays 0).map (fun s => s.dials.length) = some 1 ∧
      Tunnel.Reachable sampleSites sampleBrought.tunnel := by
  have hrun : (∀ f ∈ OutportService.arriving sampleForwarded.tunnel.outport
        (.onChannelBytes 1 sampleForwarded.up.flatten), f ∈ sampleForwarded.up) ∧
      (sampleBrought.tunnel.outport.owner.relays 0).map (fun s => s.dials.length) = some 1 := by
    decide +kernel
  have hreachable : Mesh.Reachable sampleMeshSites sampleBrought :=
    sampleForwarded_reachable.next fun f hf => Or.inr (hrun.1 f hf)
  exact ⟨hrun.2, transits_unseen hreachable⟩

end Mesh

end Libfgw
