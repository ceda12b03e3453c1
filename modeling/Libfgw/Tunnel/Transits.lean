import Libfgw.OutportRoutes
import Libfgw.Tunnel.System

namespace Libfgw

open FgwSegmentHeader Lib DataStream

namespace TransitService

variable {S : TransitSetting} {ts : TransitService} {ref : ChannelRef}

theorem consistent_step (h : Consistent [] ts) (op : Op) : Consistent [] (step S ts op) := by
  -- Only redials read the configured outports.
  have hstep : ∀ op, op ≠ .stop → Consistent [] (step { S with channels := [] } ts op) :=
    fun _ => h.step rfl
  cases op with
  | redial outportId r ret =>
    simp only [step]
    split
    · rename_i hfires
      have hother : Consistent [] { ts with redialing := ts.redialing.erase outportId } :=
        ⟨h.outbound, h.inbound, h.only, fun c hc => absurd hc List.not_mem_nil⟩
      rcases redial_cases (S := S) outportId ret with heq | ⟨ccfg, heq⟩
      · rw [heq]
        exact hother
      · rw [heq]
        exact (hother.dial (h.unused_iff_kind.1 hfires.2) ccfg ret).of_subset
          fun c hc => absurd hc List.not_mem_nil
    · exact h
  | stop =>
    exact ⟨fun ho => absurd ho (by simp [step, stop, findOutbound]),
      fun hi => absurd hi (by simp [step, stop, findInbound]),
      fun hk => absurd hk (by simp [step, stop, kind]),
      fun c hc => absurd hc List.not_mem_nil⟩
  | accept r => exact hstep (.accept r) (by simp)
  | dial ccfg r ret => exact hstep (.dial ccfg r ret) (by simp)
  | connected r => exact hstep (.connected r) (by simp)
  | bytes r buf => exact hstep (.bytes r buf) (by simp)
  | closed r => exact hstep (.closed r) (by simp)
  | removeClosed r => exact hstep (.removeClosed r) (by simp)
  | heartbeat => exact hstep .heartbeat (by simp)

theorem mem_arriveFrames {outbound : Bool} {fs : List (List ZceByte)} (hfs : ∀ f ∈ fs, IsSegment f)
    {rt : Routing} {a : Arrival} (ha : a ∈ arriveFrames S ref outbound rt fs) :
    a.outbound = outbound ∧ a.routing.outboundByOutport = rt.outboundByOutport ∧
      (outbound = true → a.routing.inboundByIngress = rt.inboundByIngress) := by
  induction fs generalizing rt with
  | nil => exact absurd ha List.not_mem_nil
  | cons f fs ih =>
    obtain ⟨hf, hrest⟩ := List.forall_mem_cons.1 hfs
    rcases List.mem_cons.1 ha with rfl | hlater
    · exact ⟨rfl, rfl, fun _ => rfl⟩
    have hone : ∀ g ∈ [f], IsSegment g := by simpa using hf
    obtain ⟨hout, hroutes, hinbound⟩ := ih hrest hlater
    refine ⟨hout, hroutes.trans (findOutbound_handleLinkFrames hone rt), ?_⟩
    rintro rfl
    rw [hinbound rfl, handleLinkFrame_eq hf]
    rfl

theorem forward_kind (h : Consistent [] ts) {op : Op} {a : Arrival} (ha : a ∈ arrivalsAt S ts op)
    {w : ChannelRef × List ZceByte} (hw : a.forward = some w) :
    w.2 = a.frame ∧ ∃ id, kind ts w.1 = some (id, !a.outbound) := by
  obtain ⟨out, hdest, rfl⟩ := Option.map_eq_some_iff.1 hw
  refine ⟨rfl, ?_⟩
  cases op with
  | bytes r buf =>
    simp only [arrivalsAt] at ha
    split at ha
    · exact absurd ha List.not_mem_nil
    rename_i link hlink
    obtain ⟨hside, hroutes, hinbound⟩ :=
      mem_arriveFrames (fun f hf => isSegment_of_mem_segmentFrames hf) ha
    unfold destination at hdest
    split at hdest
    · cases hdest
    split at hdest
    · rename_i hout
      rw [hout]
      refine h.inbound (i := frameIngress a.frame) ?_
      rw [← hdest, findInbound, findInbound, hinbound (hside ▸ hout)]
    · rename_i hin
      rw [Bool.not_eq_true] at hin
      rw [hin]
      refine ⟨_, h.outbound (o := frameOutport a.frame) ?_⟩
      rw [← hdest, findOutbound, findOutbound, hroutes]
  | accept _ | dial _ _ _ | redial _ _ _ | connected _ | closed _ | removeClosed _ | heartbeat | stop =>
    exact absurd ha List.not_mem_nil

theorem passesOver_of_isHopLocal {σ : Type} (T : Setting σ) {f : List ZceByte}
    (h : isHopLocal f = true) : PassesOver T f := by
  intro hr hdr hpeek
  unfold isHopLocal at h
  simp only [hpeek] at h
  exact Or.inr h

end TransitService

structure MeshSites extends Sites where
  transit : Nat → TransitSetting

/-- A tunnel whose links may run through transits.  `up` and `down` log the frames that these have
handed to links towards the outport and towards the inports. -/
structure Mesh where
  tunnel : Tunnel
  transits : Nat → TransitService
  up : List (List ZceByte)
  down : List (List ZceByte)

namespace Mesh

def init : Mesh where
  tunnel := Tunnel.init
  transits _ := TransitService.init
  up := []
  down := []

inductive Op
  | tunnel (op : Tunnel.Op)
  | transit (j : Nat) (op : TransitService.Op)

def writtenTo (outbound : Bool) (ts ts' : TransitService) : List (List ZceByte) :=
  ((ts'.written.drop ts.written.length).filter fun w =>
    (ts.kind w.1).all fun k => k.2 = outbound).map Prod.snd

variable (W : MeshSites)

def step (M : Mesh) : Op → Mesh
  | .tunnel op => { M with tunnel := Tunnel.step W.toSites M.tunnel op }
  | .transit j op =>
    let ts := TransitService.step (W.transit j) (M.transits j) op
    { M with
      transits := Function.update M.transits j ts
      up := M.up ++ writtenTo true (M.transits j) ts
      down := M.down ++ writtenTo false (M.transits j) ts }

def Upward (T : Tunnel) (f : List ZceByte) : Prop :=
  PassesOver (OutportService.setting W.sockets W.outport) f ∨ ∃ i, Emitted (T.inports i).sent f

def Downward (T : Tunnel) (f : List ZceByte) : Prop :=
  (∀ i, PassesOver (InportService.setting (W.acquires i) (W.inport i)) f) ∨ Emitted T.outport.sent f

def Enabled (M : Mesh) : Op → Prop
  | .tunnel (.inport i op) => ∀ f ∈ InportService.arriving (M.tunnel.inports i) op,
    PassesOver (InportService.setting (W.acquires i) (W.inport i)) f ∨
      Emitted M.tunnel.outport.sent f ∨ f ∈ M.down
  | .tunnel (.outport op) => ∀ f ∈ OutportService.arriving M.tunnel.outport op,
    Upward W M.tunnel f ∨ f ∈ M.up
  | .transit j op => ∀ a ∈ TransitService.arrivalsAt (W.transit j) (M.transits j) op,
    if a.outbound then Downward W M.tunnel a.frame ∨ a.frame ∈ M.down
    else Upward W M.tunnel a.frame ∨ a.frame ∈ M.up

def system : Transitions Mesh Op where
  init := init
  Enabled := Enabled W
  step := step W

abbrev Reachable : Mesh → Prop := Transitions.Reachable (system W)

section

variable {W} {M : Mesh}

theorem Reachable.next (h : Reachable W M) {op : Op} (henabled : Enabled W M op) :
    Reachable W (step W M op) :=
  @Transitions.Reachable.step _ _ (system W) M h op henabled

theorem Reachable.inport (h : Reachable W M) {i : IngressId} {op : InportService.Op}
    (hquiet : InportService.arriving (M.tunnel.inports i) op = []) :
    Reachable W (step W M (.tunnel (.inport i op))) :=
  h.next fun f hf => absurd (hquiet ▸ hf : f ∈ []) List.not_mem_nil

theorem Reachable.transit (h : Reachable W M) {j : Nat} {op : TransitService.Op}
    (hquiet : TransitService.arrivalsAt (W.transit j) (M.transits j) op = []) :
    Reachable W (step W M (.transit j op)) :=
  h.next fun a ha => absurd (hquiet ▸ ha : a ∈ []) List.not_mem_nil

end

/-- The transits have forwarded nothing but what the ends have sent. -/
structure Honest (M : Mesh) : Prop where
  tables : ∀ j, TransitService.Consistent [] (M.transits j)
  up : ∀ f ∈ M.up, Upward W M.tunnel f
  down : ∀ f ∈ M.down, Downward W M.tunnel f

variable {W} {M : Mesh}

theorem mem_writtenTo {S : TransitSetting} {ts : TransitService} (h : ts.Consistent [])
    {op : TransitService.Op} {outbound : Bool} {f : List ZceByte}
    (hf : f ∈ writtenTo outbound ts (TransitService.step S ts op)) :
    (∃ a ∈ TransitService.arrivalsAt S ts op, a.frame = f ∧ a.outbound = !outbound) ∨
      f = TransitService.heartbeatFrame S := by
  obtain ⟨w, hw, rfl⟩ := List.mem_map.1 hf
  obtain ⟨hmem, hkind⟩ := List.mem_filter.1 hw
  rw [TransitService.step_written, List.append_assoc, List.drop_left, List.mem_append] at hmem
  rcases hmem with hforward | hbeat
  · obtain ⟨a, ha, hwa⟩ := List.mem_filterMap.1 hforward
    obtain ⟨hframe, id, hid⟩ := TransitService.forward_kind h ha hwa
    rw [hid, Option.all_some, decide_eq_true_eq] at hkind
    refine Or.inl ⟨a, ha, hframe.symm, ?_⟩
    rw [← hkind, Bool.not_not]
  · obtain ⟨ref, -, rfl⟩ := List.mem_map.1 hbeat
    exact Or.inr rfl

theorem Upward.mono {T T' : Tunnel} {f : List ZceByte} (h : Upward W T f)
    (hsent : ∀ i, (T.inports i).sent <+: (T'.inports i).sent) : Upward W T' f :=
  h.imp_right fun ⟨i, a, ha, hout⟩ => ⟨i, a, (hsent i).subset ha, hout⟩

theorem Downward.mono {T T' : Tunnel} {f : List ZceByte} (h : Downward W T f)
    (hsent : T.outport.sent <+: T'.outport.sent) : Downward W T' f :=
  h.imp_right fun ⟨a, ha, hout⟩ => ⟨a, hsent.subset ha, hout⟩

theorem Honest.tunnel (h : Honest W M) (hsound : M.tunnel.Sound W.toSites) (op : Tunnel.Op) :
    Honest W (step W M (.tunnel op)) where
  tables := h.tables
  up f hf := (h.up f hf).mono fun i => (hsound.later op i).2
  down f hf := (h.down f hf).mono (hsound.outport_sent op)

theorem Honest.transit (h : Honest W M) {j : Nat} {op : TransitService.Op}
    (henabled : Enabled W M (.transit j op)) : Honest W (step W M (.transit j op)) where
  tables k := by
    change TransitService.Consistent [] (Function.update M.transits j _ k)
    by_cases hk : k = j
    · rw [hk, Function.update_self]
      exact TransitService.consistent_step (h.tables j) op
    · rw [Function.update_of_ne hk]
      exact h.tables k
  up f hf := by
    rcases List.mem_append.1 hf with hold | hnew
    · exact h.up f hold
    rcases mem_writtenTo (h.tables j) hnew with ⟨a, ha, rfl, hside⟩ | rfl
    · have harrived := henabled a ha
      rw [hside, if_neg (by decide)] at harrived
      exact harrived.elim id (h.up a.frame)
    · exact Or.inl (TransitService.passesOver_of_isHopLocal _
        (TransitService.isHopLocal_heartbeatFrame _))
  down f hf := by
    rcases List.mem_append.1 hf with hold | hnew
    · exact h.down f hold
    rcases mem_writtenTo (h.tables j) hnew with ⟨a, ha, rfl, hside⟩ | rfl
    · have harrived := henabled a ha
      rw [hside, if_pos (by decide)] at harrived
      exact harrived.elim id (h.down a.frame)
    · exact Or.inl fun i => TransitService.passesOver_of_isHopLocal _
        (TransitService.isHopLocal_heartbeatFrame _)

theorem Honest.init (W : MeshSites) : Honest W Mesh.init where
  tables _ := TransitService.consistent_init
  up _ hf := absurd hf List.not_mem_nil
  down _ hf := absurd hf List.not_mem_nil

theorem Honest.enabled (h : Honest W M) {op : Tunnel.Op} (henabled : Enabled W M (.tunnel op)) :
    Tunnel.Enabled W.toSites M.tunnel op := by
  cases op with
  | inport i op =>
    intro f hf
    rcases henabled f hf with hpass | hemitted | hdown
    · exact Or.inl hpass
    · exact Or.inr hemitted
    · exact (h.down f hdown).imp_left fun hpass => hpass i
  | outport op =>
    intro f hf
    exact (henabled f hf).elim id (h.up f)

theorem refines (W : MeshSites) :
    Transitions.Refines (system W) (Tunnel.system W.toSites) Mesh.tunnel (Honest W) where
  init := rfl
  inv := .init W
  step {M op} hview h henabled := by
    cases op with
    | tunnel op =>
      have hsound : M.tunnel.Sound W.toSites := Tunnel.Reachable.sound hview
      exact ⟨h.tunnel hsound op, Or.inr ⟨op, h.enabled henabled, rfl⟩⟩
    | transit j op => exact ⟨h.transit henabled, Or.inl rfl⟩

end Mesh

end Libfgw
