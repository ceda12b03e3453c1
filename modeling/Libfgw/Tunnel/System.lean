import Libfgw.Inport.Orderly
import Libfgw.Lib.Transitions
import Libfgw.Outport.Orderly

namespace Libfgw

open Lib DataStream

/-- An ingress id that an inport can have: the reserved one is taken for another by the calls into a
stream. -/
abbrev IngressId := { i : ZceUint32 // i ≠ kFgwWireIngressUseLocal }

/-- Where the inports and the outport run, each inport under an ingress id of its own. -/
structure Sites where
  inport : IngressId → Setting InportService
  acquires : IngressId → Nat → Bool
  outport : Setting OutportService
  sockets : Sockets
  localIngressId : ∀ i, (inport i).config.localIngressId = i.val

/-- The inports and the outport that they share.  `brought` logs what the target of each relay has
brought. -/
structure Tunnel where
  inports : IngressId → DataStream InportService
  outport : DataStream OutportService
  brought : Handler → List ZceByte

namespace Tunnel

def init : Tunnel where
  inports _ := DataStream.init InportService.init
  outport := DataStream.init OutportService.init
  brought _ := []

inductive Op
  | inport (i : IngressId) (op : InportService.Op)
  | outport (op : OutportService.Op)

variable (W : Sites)

def step (T : Tunnel) : Op → Tunnel
  | .inport i op =>
    { T with
      inports := Function.update T.inports i
        (InportService.step (W.acquires i) (W.inport i) (T.inports i) op) }
  | .outport op =>
    { T with
      outport := OutportService.step W.sockets W.outport T.outport op
      brought := OutportService.broughtAfter T.outport T.brought op }

def Enabled (T : Tunnel) : Op → Prop
  | .inport i op => ∀ f ∈ InportService.arriving (T.inports i) op,
    PassesOver (InportService.setting (W.acquires i) (W.inport i)) f ∨ Emitted T.outport.sent f
  | .outport op => ∀ f ∈ OutportService.arriving T.outport op,
    PassesOver (OutportService.setting W.sockets W.outport) f ∨
      ∃ i, Emitted (T.inports i).sent f

def system : Transitions Tunnel Op where
  init := init
  Enabled := Enabled W
  step := step W

abbrev Reachable : Tunnel → Prop := Transitions.Reachable (system W)

section

variable {W} {T : Tunnel}

theorem Reachable.next (h : Reachable W T) {op : Op} (henabled : Enabled W T op) :
    Reachable W (step W T op) :=
  @Transitions.Reachable.step _ _ (system W) T h op henabled

theorem Reachable.inport (h : Reachable W T) {i : IngressId} {op : InportService.Op}
    (hquiet : InportService.arriving (T.inports i) op = []) :
    Reachable W (step W T (.inport i op)) :=
  h.next fun f hf => absurd (hquiet ▸ hf : f ∈ []) List.not_mem_nil

theorem Reachable.outport (h : Reachable W T) {op : OutportService.Op}
    (hquiet : OutportService.arriving T.outport op = []) :
    Reachable W (step W T (.outport op)) :=
  h.next fun f hf => absurd (hquiet ▸ hf : f ∈ []) List.not_mem_nil

end

def Known (T : Tunnel) (key : SessionKey) : Prop :=
  ∃ i : IngressId, key.1 = i.val ∧ InportService.Known (T.inports i).owner key.2

def SentIn (T : Tunnel) (key : SessionKey) (seq : ZceUint32) (p : List ZceByte) : Prop :=
  ∃ i : IngressId, key.1 = i.val ∧ SentOut (T.inports i).sent key seq p

/-- Both ends serve, and each hears only what the other has sent. -/
structure Sound (T : Tunnel) : Prop where
  inport : ∀ i, InportService.Serves (W.acquires i) (W.inport i) (SentOut T.outport.sent)
    (T.inports i).toStreamState
  outport : OutportService.Serves W.sockets W.outport (Known T) (SentIn T) T.brought
    T.outport.toStreamState

variable {W} {T : Tunnel}

def Later (T T' : Tunnel) : Prop :=
  ∀ i, (T.inports i).owner.made ≤ (T'.inports i).owner.made ∧
    (T.inports i).sent <+: (T'.inports i).sent

theorem Later.known {T' : Tunnel} (h : Later T T') {key : SessionKey} (hknown : Known T key) :
    Known T' key := by
  obtain ⟨i, hi, hclient⟩ := hknown
  exact ⟨i, hi, hclient.mono (h i).1⟩

theorem Later.sentIn {T' : Tunnel} (h : Later T T') {key : SessionKey} {seq : ZceUint32}
    {p : List ZceByte} (hsent : SentIn T key seq p) : SentIn T' key seq p := by
  obtain ⟨i, hi, hout⟩ := hsent
  exact ⟨i, hi, hout.mono fun a ha => (h i).2.subset ha⟩

theorem Known.ingress {key : SessionKey} (h : Known T key) : key.1 ≠ kFgwWireIngressUseLocal := by
  obtain ⟨i, hi, -⟩ := h
  rw [hi]
  exact i.property

theorem Sound.init (W : Sites) : Sound W Tunnel.init where
  inport _ := ⟨.init _ _ _, .init _ _ _⟩
  outport := ⟨.init _ _ (fun _ h => Known.ingress h) _, .init _ _ _⟩

/-- What an inport has sent, it has sent for a client of its own. -/
theorem Sound.sent_known (h : Sound W T) {i : IngressId} {a : Attempt} (ha : a ∈ (T.inports i).sent) :
    a.key.1 = i.val ∧ Known T a.key := by
  obtain ⟨hlocal, hknown⟩ := (h.inport i).voiced.sent a ha
  rw [W.localIngressId] at hlocal
  exact ⟨hlocal, i, hlocal, hknown⟩

theorem Sound.inport_brings (h : Sound W T) {i : IngressId} {f : List ZceByte}
    (harrives : PassesOver (InportService.setting (W.acquires i) (W.inport i)) f ∨
      Emitted T.outport.sent f) :
    Brings (InportService.setting (W.acquires i) (W.inport i))
      (fun key => key.1 = (W.inport i).config.localIngressId →
        InportService.Known (T.inports i).owner key.2) (SentOut T.outport.sent) f := by
  rcases harrives with hpass | hemitted
  · exact .of_passesOver hpass
  refine (Brings.of_emitted h.outport.keyed.logged hemitted).mono ?_ id
  rintro key ⟨a, ha, rfl⟩ hlocal
  obtain ⟨handler, s, hs, hkey⟩ := h.outport.sent a ha
  obtain ⟨j, hj, hknown⟩ := h.outport.keys handler s hs
  rw [hkey] at hj hknown
  rw [W.localIngressId, hj] at hlocal
  obtain rfl := Subtype.ext hlocal
  exact hknown

theorem Sound.outport_brings (h : Sound W T) {f : List ZceByte}
    (harrives : PassesOver (OutportService.setting W.sockets W.outport) f ∨
      ∃ i, Emitted (T.inports i).sent f) :
    Brings (OutportService.setting W.sockets W.outport) (Known T) (SentIn T) f := by
  rcases harrives with hpass | ⟨i, hemitted⟩
  · exact .of_passesOver hpass
  refine (Brings.of_emitted (h.inport i).keyed.logged hemitted).mono ?_ ?_
  · rintro key ⟨a, ha, rfl⟩
    exact (h.sent_known ha).2
  · intro key seq p hsent
    have hsent' := hsent
    obtain ⟨a, ha, -⟩ := hsent'
    obtain ⟨hmem, rfl, -⟩ := mem_numbered.1 ha
    exact ⟨i, (h.sent_known hmem).1, hsent⟩

theorem Sound.later (h : Sound W T) (op : Op) : Later T (Tunnel.step W T op) := by
  cases op with
  | inport i op =>
    have hadvances : InportService.Advances (W.inport i) (T.inports i).toStreamState
      (InportService.step (W.acquires i) (W.inport i) (T.inports i) op).toStreamState :=
      .step (h.inport i).sound op
    intro j
    change _ ≤ (Function.update T.inports i _ j).owner.made ∧
      _ <+: (Function.update T.inports i _ j).sent
    by_cases hj : j = i
    · rw [hj, Function.update_self]
      exact ⟨hadvances.made, InportService.step_sent (h.inport i) op⟩
    · rw [Function.update_of_ne hj]
      exact ⟨le_rfl, List.prefix_refl _⟩
  | outport op => exact fun i => ⟨le_rfl, List.prefix_refl _⟩

theorem Sound.outport_sent (h : Sound W T) (op : Op) :
    T.outport.sent <+: (Tunnel.step W T op).outport.sent := by
  cases op with
  | inport i op => exact List.prefix_refl _
  | outport op => exact OutportService.step_sent h.outport op

theorem Sound.step (h : Sound W T) {op : Op} (henabled : Enabled W T op) :
    Sound W (Tunnel.step W T op) := by
  have hlater := h.later op
  have hsent := h.outport_sent op
  cases op with
  | inport i op =>
    have hserves := (h.inport i).step fun f hf => h.inport_brings (henabled f hf)
    refine ⟨fun j => ?_, h.outport.mono (fun _ => hlater.known) (fun _ hknown => hknown.ingress)
      hlater.sentIn⟩
    change InportService.Serves (W.acquires j) (W.inport j) _
      (Function.update T.inports i _ j).toStreamState
    by_cases hj : j = i
    · rw [hj, Function.update_self]
      exact hserves
    · rw [Function.update_of_ne hj]
      exact h.inport j
  | outport op =>
    have hserves := h.outport.step fun f hf => h.outport_brings (henabled f hf)
    exact ⟨fun i => (h.inport i).mono fun hout => hout.mono fun a ha => hsent.subset ha, hserves⟩

theorem Reachable.sound (h : Reachable W T) : Sound W T :=
  h.invariant (.init W) fun hsound henabled => hsound.step henabled

end Tunnel

end Libfgw
