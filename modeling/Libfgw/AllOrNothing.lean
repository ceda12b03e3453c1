import Libfgw.Machine.Service

namespace Libfgw

open Lib

structure Components where
  manager : Bool := false
  stream : Bool := false
  inport : Bool := false
  outport : Bool := false
  transit : Bool := false
  deriving DecidableEq

def Components.ofRole (role : ZceByte) : Option Components :=
  if role = ZFGW_ROLE_TRANSIT then some { transit := true }
  else if role = ZFGW_ROLE_INPORT then some { manager := true, stream := true, inport := true }
  else if role = ZFGW_ROLE_OUTPORT then some { manager := true, stream := true, outport := true }
  else none

namespace ZfgwMachine

variable {σ : Type} {E : Env σ} {m : ZfgwMachine σ}

def components (m : ZfgwMachine σ) : Components where
  manager := m.manager.isSome
  stream := m.stream.isSome
  inport := m.inport.isSome
  outport := m.outport.isSome
  transit := m.transit.isSome

def Down (m : ZfgwMachine σ) : Prop := m.running = false ∧ m.components = {}

def Up (m : ZfgwMachine σ) : Prop :=
  m.running = true ∧ Components.ofRole m.role = some m.components

def Whole (m : ZfgwMachine σ) : Prop := m.Up ∨ m.Down

def Sound (p : Int × ZfgwMachine σ) : Prop := p.2.Whole ∧ (p.1 < 0 → p.2.Down)

theorem init_down : Down (init : ZfgwMachine σ) := ⟨rfl, rfl⟩

theorem doTeardown_down (m : ZfgwMachine σ) : m.doTeardown.Down := ⟨rfl, rfl⟩

theorem up_sound (h : Components.ofRole m.role = some m.components) : Sound m.up :=
  ⟨Or.inl ⟨rfl, h⟩, fun hneg => absurd hneg (lt_irrefl 0)⟩

theorem failed_sound (ret : Int) (m : ZfgwMachine σ) : Sound (ret, m.doTeardown) :=
  ⟨Or.inr m.doTeardown_down, fun _ => m.doTeardown_down⟩

theorem finish_sound {ret : Int} (h : Components.ofRole m.role = some m.components) :
    Sound (m.finish ret) := by
  unfold finish
  split
  · exact failed_sound ret m
  · exact up_sound h

theorem bringupTransit_sound {b : Bringup} (hrole : m.role = ZFGW_ROLE_TRANSIT)
    (hnone : m.components = {}) : Sound (bringupTransit E b m) := by
  obtain ⟨hmanager, hstream, hinport, houtport, -⟩ := Components.mk.inj hnone
  refine finish_sound ?_
  simp only [components, hmanager, hstream, hinport, houtport]
  rw [hrole]
  rfl

theorem bringupInport_sound {b : Bringup} (hrole : m.role = ZFGW_ROLE_INPORT)
    (hlinked : m.components = { manager := true, stream := true }) :
    Sound (bringupInport b m) := by
  obtain ⟨hmanager, hstream, -, houtport, htransit⟩ := Components.mk.inj hlinked
  refine finish_sound ?_
  simp only [components, hmanager, hstream, houtport, htransit]
  rw [hrole]
  rfl

theorem bringupOutport_sound {b : Bringup} {manager : ManagerState} {so : StreamObject σ}
    (hrole : m.role = ZFGW_ROLE_OUTPORT)
    (hlinked : m.components = { manager := true, stream := true }) :
    Sound (bringupOutport b manager so m) := by
  obtain ⟨hmanager, -, hinport, -, htransit⟩ := Components.mk.inj hlinked
  have hset : ∀ m' : ZfgwMachine σ, m'.role = m.role →
      m'.components = { manager := true, stream := true, outport := true } →
      Components.ofRole m'.role = some m'.components := by
    intro m' hrole' hcomponents
    rw [hrole', hrole, hcomponents]
    rfl
  unfold bringupOutport OutportObject.start
  dsimp only
  split
  · exact failed_sound _ _
  split
  · refine finish_sound (hset _ rfl ?_)
    simp only [components, hinport, htransit, Option.isSome_some]
  · refine up_sound (hset _ rfl ?_)
    simp only [components, hmanager, hinport, htransit, Option.isSome_some]

theorem bringupLinked_sound {b : Bringup} (hrole : m.role = m.config.role) (hnone : m.components = {}) :
    Sound (bringupLinked E b m) := by
  obtain ⟨-, -, hinport, houtport, htransit⟩ := Components.mk.inj hnone
  have hlinked : ∀ (manager : ManagerState) (so : StreamObject σ),
      components { m with manager := some manager, stream := some so } =
        { manager := true, stream := true } := by
    intro manager so
    simp only [components, hinport, houtport, htransit, Option.isSome_some]
  -- the manager's start does not fail, so that the exit without a teardown is never taken
  unfold bringupLinked ChannelManager.start
  dsimp only
  rw [if_neg (lt_irrefl 0)]
  split
  · rename_i hinportRole
    exact bringupInport_sound (hrole.trans hinportRole) (hlinked _ _)
  split
  · rename_i houtportRole
    exact bringupOutport_sound (hrole.trans houtportRole) (hlinked _ _)
  · exact failed_sound _ _

theorem doBringup_sound {b : Bringup} (h : m.Whole) : Sound (doBringup E b m) := by
  unfold doBringup
  split
  · exact ⟨h, fun hneg => absurd hneg (lt_irrefl 0)⟩
  rename_i hstopped
  have hdown : m.Down := h.resolve_left fun hup => hstopped hup.1
  split
  · exact ⟨Or.inr hdown, fun _ => hdown⟩
  · dsimp only
    split
    · rename_i htransit
      exact bringupTransit_sound htransit hdown.2
    · exact bringupLinked_sound rfl hdown.2

theorem Whole.of_same {m' : ZfgwMachine σ} (h : m.Whole) (hrunning : m'.running = m.running)
    (hrole : m'.role = m.role) (hcomponents : m'.components = m.components) : m'.Whole := by
  unfold Whole Up Down at h ⊢
  rw [hrunning, hrole, hcomponents]
  exact h

theorem start_sound {file : Option (Except Int FgwConfig)} {b : Bringup} (h : m.Whole) :
    Sound (start E file b m) := by
  unfold start
  split
  · exact ⟨h, fun hneg => absurd hneg (lt_irrefl 0)⟩
  · exact doBringup_sound (h.of_same rfl rfl rfl)
  · exact doBringup_sound h

theorem mlfStart_sound {forceRestart : ZceByte} {b : Bringup} (h : m.Whole) :
    (mlfStart E forceRestart b m).2.Whole ∧
      ((mlfStart E forceRestart b m).1.errcode < 0 →
        (m.running = true ∧ forceRestart = 0#8) ∨ (mlfStart E forceRestart b m).2.Down) := by
  unfold mlfStart
  split
  · rename_i hrefused
    exact ⟨h, fun _ => Or.inl hrefused⟩
  · have hready : (if m.running = true ∧ forceRestart ≠ 0#8 then m.doTeardown else m).Whole := by
      split
      · exact Or.inr m.doTeardown_down
      · exact h
    obtain ⟨hwhole, hdown⟩ := doBringup_sound (E := E) (b := b) hready
    exact ⟨hwhole, fun hneg => Or.inr (hdown hneg)⟩

theorem Whole.setManager (h : m.Whole) {manager manager' : ManagerState}
    (hm : m.manager = some manager) {stream : Option (StreamObject σ)}
    (hs : stream.isSome = m.stream.isSome) (config : FgwConfig) :
    Whole { m with manager := some manager', stream := stream, config := config } := by
  refine h.of_same rfl rfl ?_
  simp only [components, hm, hs, Option.isSome_some]

theorem Whole.mlfAddChannel (h : m.Whole) (channel : FgwChannelConfig) :
    (mlfAddChannel E channel m).2.Whole := by
  unfold ZfgwMachine.mlfAddChannel
  split
  · exact h
  · rename_i manager hm
    dsimp only
    split <;> exact h.setManager hm Option.isSome_map _

theorem Whole.mlfRemoveChannel (h : m.Whole) (channelId : ZceUint32) :
    (mlfRemoveChannel channelId m).2.Whole := by
  unfold ZfgwMachine.mlfRemoveChannel
  split
  · exact h
  · rename_i manager hm
    dsimp only
    split <;> exact h.setManager hm rfl _

theorem Whole.linkEvent (h : m.Whole) (op : LinkedStream.Op σ) : (linkEvent E op m).Whole := by
  unfold ZfgwMachine.linkEvent
  split
  · rename_i manager so hm hs
    refine h.of_same rfl rfl ?_
    simp only [components, hm, hs, Option.isSome_some]
  · exact h

theorem Whole.transitEvent (h : m.Whole) (op : TransitService.Op) : (transitEvent E op m).Whole := by
  unfold ZfgwMachine.transitEvent
  split
  · exact h
  rename_i t ht
  split
  · refine h.of_same rfl rfl ?_
    simp only [components, ht, Option.isSome_some]
  · exact h

theorem Whole.step (h : m.Whole) (op : Op σ) : (step E m op).Whole := by
  cases op with
  | start file b => exact (start_sound h).1
  | stop => exact Or.inr m.doTeardown_down
  | mlfStart forceRestart b => exact (mlfStart_sound h).1
  | mlfStop => exact Or.inr m.doTeardown_down
  | mlfSetConfig config =>
    simp only [ZfgwMachine.step, mlfSetConfig]
    split
    · exact h.of_same rfl rfl rfl
    · exact h
  | mlfAddChannel channel => exact h.mlfAddChannel channel
  | mlfRemoveChannel channelId => exact h.mlfRemoveChannel channelId
  | link op =>
    simp only [ZfgwMachine.step]
    split
    · exact h.linkEvent op
    · exact h
  | transit op => exact h.transitEvent op

theorem Whole.run (h : m.Whole) (ops : List (Op σ)) : (run E m ops).Whole := by
  induction ops generalizing m with
  | nil => exact h
  | cons op ops ih => exact ih (h.step op)

end ZfgwMachine

open ZfgwMachine in
/-- After any calls a machine is up with the components of the role in force, or down with none;
and a bring-up that fails leaves it down, whichever call has made it. -/
theorem never_half_up {σ : Type} (E : Env σ) (ops : List (ZfgwMachine.Op σ)) :
    let m := ZfgwMachine.run E ZfgwMachine.init ops
    m.Whole ∧
      (∀ b, (doBringup E b m).1 < 0 → (doBringup E b m).2.Down) ∧
      (∀ file b, (start E file b m).1 < 0 → (start E file b m).2.Down) ∧
      ∀ forceRestart b, (mlfStart E forceRestart b m).1.errcode < 0 →
        (m.running = true ∧ forceRestart = 0#8) ∨ (mlfStart E forceRestart b m).2.Down := by
  intro m
  have hwhole : m.Whole := Whole.run (Or.inr init_down) ops
  exact ⟨hwhole, fun b => (doBringup_sound hwhole).2, fun file b => (start_sound hwhole).2,
    fun forceRestart b => (mlfStart_sound hwhole).2⟩

end Libfgw
