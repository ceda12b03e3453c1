import Libfgw.Epochs
import Libfgw.Lib.EachAfter

namespace Libfgw

open Lib

variable {σ : Type}

def Gains (l l' : List ZceUint32) (id : ZceUint32) : Prop := l.count id < l'.count id

section Gains

variable {l l' : List ZceUint32} {id a : ZceUint32}

theorem not_gains_self : ¬ Gains l l id := Nat.lt_irrefl _

theorem gains_iff_of_nodup (h : l.Nodup) (h' : l'.Nodup) : Gains l l' id ↔ id ∉ l ∧ id ∈ l' := by
  rw [Gains, h.count, h'.count]
  split <;> split <;> simp_all

theorem gains_concat : Gains l (l ++ [a]) id ↔ id = a := by
  rw [Gains, List.count_append, Nat.lt_add_right_iff_pos, List.count_pos_iff, List.mem_singleton]

theorem not_gains_of_sublist (h : l'.Sublist l) : ¬ Gains l l' id := Nat.not_lt.2 (h.count_le id)

theorem gains_of_filter_ne : Gains (l.filter (· ≠ a)) l id ↔ id = a ∧ a ∈ l := by
  rw [Gains]
  by_cases h : id = a
  · subst h
    have hnone : (l.filter (· ≠ id)).count id = 0 := List.count_eq_zero.2 (by simp)
    rw [hnone, List.count_pos_iff, and_iff_right rfl]
  · rw [List.count_filter (by simpa using h)]
    simp [h]

end Gains

namespace ChannelManager

def dialedIds (m : ManagerState) : List ZceUint32 :=
  (m.channels.entries.filter (fun e => !e.2.accepted)).map Prod.fst

theorem nodup_dialedIds (m : ManagerState) : (dialedIds m).Nodup := by
  have hkeys : (m.channels.entries.map Prod.fst).Nodup :=
    List.pairwise_map.2 (m.channels.sorted.imp ne_of_lt)
  exact hkeys.sublist (List.filter_sublist.map _)

theorem mem_dialedIds {m : ManagerState} {id : ZceUint32} :
    id ∈ dialedIds m ↔ ∃ chan, m.channels.find? id = some chan ∧ chan.accepted = false := by
  simp only [dialedIds, List.mem_map, List.mem_filter, Bool.not_eq_true']
  constructor
  · rintro ⟨⟨id', chan⟩, ⟨hmem, haccepted⟩, rfl⟩
    exact ⟨chan, SortedMap.find?_eq_some.2 hmem, haccepted⟩
  · rintro ⟨chan, hfound, haccepted⟩
    exact ⟨(id, chan), ⟨SortedMap.find?_eq_some.1 hfound, haccepted⟩, rfl⟩

theorem mem_dialedIds_dial {H : Host} {cfg : FgwChannelConfig} {m : ManagerState} {id : ZceUint32} :
    id ∈ dialedIds (dial H cfg m) ↔ id = cfg.channelId ∨ id ∈ dialedIds m := by
  rw [mem_dialedIds, mem_dialedIds, find?_dial]
  by_cases h : id = cfg.channelId
  · simp [h, dialedChannel]
  · simp [h]

theorem mem_dialedIds_unregister {m : ManagerState} {id id' : ZceUint32} :
    id' ∈ dialedIds (unregister id m) ↔ id' ≠ id ∧ id' ∈ dialedIds m := by
  rw [mem_dialedIds, mem_dialedIds, find?_unregister]
  by_cases h : id' = id
  · simp [h]
  · simp [h]

theorem addChannel_cases (H : Host) (cfg : FgwChannelConfig) (m : ManagerState) :
    (∃ e : ZfgwErrcode, addChannel H cfg m = (e.toInt, m) ∧
      (m.channels.find? cfg.channelId = none → ¬ isKnownKind cfg.kind = true)) ∨
    (m.channels.find? cfg.channelId = none ∧ isKnownKind cfg.kind = true ∧
      addChannel H cfg m = (connect H cfg m.clock, dial H cfg m)) := by
  unfold addChannel
  cases hfound : m.channels.find? cfg.channelId with
  | some chan => exact Or.inl ⟨.channelexists, rfl, nofun⟩
  | none =>
    by_cases hknown : isKnownKind cfg.kind = true
    · exact Or.inr ⟨rfl, hknown, if_pos hknown⟩
    · exact Or.inl ⟨.invalidconfig, if_neg hknown, fun _ => hknown⟩

end ChannelManager

namespace ZfgwMachine

open ChannelManager

variable {E : Env σ} {m m' : ZfgwMachine σ} {channel : FgwChannelConfig}

def dialedIds (m : ZfgwMachine σ) : List ZceUint32 := (m.manager.map ChannelManager.dialedIds).getD []

def configIds (m : ZfgwMachine σ) : List ZceUint32 := m.config.channels.map FgwChannelConfig.channelId

/-- The manager's dialed channels and the configuration's gain and lose the same ids. -/
def InStep (m m' : ZfgwMachine σ) : Prop :=
  ∀ id, (Gains m.dialedIds m'.dialedIds id ↔ Gains m.configIds m'.configIds id) ∧
    (Gains m'.dialedIds m.dialedIds id ↔ Gains m'.configIds m.configIds id)

/-- A request that is answered with an error leaves both tables as they were; else both have the
channel. -/
def Atomic (E : Env σ) (channel : FgwChannelConfig) (manager : ManagerState) (m : ZfgwMachine σ) : Prop :=
  ((mlfAddChannel E channel m).1.errcode < 0 →
    (mlfAddChannel E channel m).2.manager.map ManagerState.channels = some manager.channels ∧
      (mlfAddChannel E channel m).2.config.channels = m.config.channels) ∧
  (0 ≤ (mlfAddChannel E channel m).1.errcode →
    (∃ manager', (mlfAddChannel E channel m).2.manager = some manager' ∧
      (manager'.channels.find? channel.channelId).isSome = true) ∧
      channel ∈ (mlfAddChannel E channel m).2.config.channels)

/-- The request finds its id free and its kind known, and `connect` fails at once. -/
def DialFails (E : Env σ) (channel : FgwChannelConfig) (m : ZfgwMachine σ) : Prop :=
  ∃ manager, m.manager = some manager ∧ manager.channels.find? channel.channelId = none ∧
    isKnownKind channel.kind = true ∧ connect (E.host m.bringups) channel manager.clock < 0

def dialed (E : Env σ) (channel : FgwChannelConfig) (manager : ManagerState) (m : ZfgwMachine σ) :
    ZfgwMachine σ :=
  { m with
    manager := some (dial (E.host m.bringups) channel manager)
    stream := m.stream.map fun so => { so with
      state := so.state.meetChannels manager (dial (E.host m.bringups) channel manager) }
    config :=
      if connect (E.host m.bringups) channel manager.clock ≥ 0 then
        { m.config with channels := m.config.channels ++ [channel] }
      else m.config }

theorem mlfAddChannel_cases (E : Env σ) (channel : FgwChannelConfig) (m : ZfgwMachine σ) :
    ((mlfAddChannel E channel m).1.errcode < 0 ∧ (mlfAddChannel E channel m).2 = m ∧
      ¬ DialFails E channel m) ∨
    ∃ manager, m.manager = some manager ∧ manager.channels.find? channel.channelId = none ∧
      isKnownKind channel.kind = true ∧
      (mlfAddChannel E channel m).1.errcode = connect (E.host m.bringups) channel manager.clock ∧
      (mlfAddChannel E channel m).2 = dialed E channel manager m := by
  cases hmanager : m.manager with
  | none =>
    have hadd : mlfAddChannel E channel m = (channelResult ZfgwErrcode.notrunning.toInt, m) := by
      rw [mlfAddChannel, hmanager]
    rw [hadd]
    refine Or.inl ⟨ZfgwErrcode.notrunning.toInt_neg, rfl, ?_⟩
    rintro ⟨manager, hsome, -⟩
    rw [hmanager] at hsome
    cases hsome
  | some manager =>
    rcases addChannel_cases (E.host m.bringups) channel manager with ⟨e, hrefused, hnot⟩ |
      ⟨hfree, hknown, hdial⟩
    · have hadd : mlfAddChannel E channel m = (channelResult e.toInt, m) := by
        simp only [mlfAddChannel, hmanager, hrefused, DataStream.meetChannels_self, Option.map_id']
        rw [if_neg (not_le.2 e.toInt_neg), ← hmanager]
      rw [hadd]
      refine Or.inl ⟨e.toInt_neg, rfl, ?_⟩
      rintro ⟨manager', hsome, hfree, hknown, -⟩
      obtain rfl := Option.some.inj (hmanager.symm.trans hsome)
      exact hnot hfree hknown
    · refine Or.inr ⟨manager, rfl, hfree, hknown, ?_, ?_⟩
      · simp only [mlfAddChannel, hmanager, hdial]
        rfl
      · simp only [mlfAddChannel, hmanager, hdial, dialed]
        split <;> rfl

theorem mlfRemoveChannel_cases (id : ZceUint32) (m : ZfgwMachine σ) :
    (mlfRemoveChannel id m).2 = m ∨
    ∃ manager chan, m.manager = some manager ∧ manager.channels.find? id = some chan ∧
      (mlfRemoveChannel id m).2 = { m with
        manager := some (unregister id manager)
        config := { m.config with
          channels := m.config.channels.filter (fun c => c.channelId ≠ id) } } := by
  cases hmanager : m.manager with
  | none =>
    refine Or.inl ?_
    rw [mlfRemoveChannel, hmanager]
  | some manager =>
    cases hfound : manager.channels.find? id with
    | none =>
      have hrefused : removeChannel id manager = (ZfgwErrcode.channelnotfound.toInt, manager) := by
        rw [removeChannel, hfound]
      refine Or.inl ?_
      simp only [mlfRemoveChannel, hmanager, hrefused]
      rw [if_neg (not_le.2 (ZfgwErrcode.toInt_neg _)), ← hmanager]
    | some chan =>
      have hremoved : removeChannel id manager = (0, unregister id manager) := by
        rw [removeChannel, hfound]
      refine Or.inr ⟨manager, chan, rfl, hfound, ?_⟩
      simp only [mlfRemoveChannel, hmanager, hremoved]
      rfl

theorem atomic_iff {manager : ManagerState} (hmanager : m.manager = some manager) :
    Atomic E channel manager m ↔ ¬ DialFails E channel m := by
  rcases mlfAddChannel_cases E channel m with ⟨hneg, hsame, hnot⟩ |
    ⟨manager', hsome, hfree, hknown, hcode, hdialed⟩
  · refine iff_of_true ⟨fun _ => ?_, fun hpos => absurd hneg (not_lt.2 hpos)⟩ hnot
    rw [hsame, hmanager]
    exact ⟨rfl, rfl⟩
  · obtain rfl := Option.some.inj (hmanager.symm.trans hsome)
    have hfails : DialFails E channel m ↔ connect (E.host m.bringups) channel manager.clock < 0 := by
      refine ⟨fun ⟨manager', hsome', _, _, hneg⟩ => ?_, fun hneg => ⟨manager, hsome, hfree, hknown, hneg⟩⟩
      obtain rfl := Option.some.inj (hmanager.symm.trans hsome')
      exact hneg
    have hregistered : ((dial (E.host m.bringups) channel manager).channels.find?
        channel.channelId).isSome = true := by rw [find?_dial, if_pos rfl]; rfl
    rw [hfails, not_lt]
    unfold Atomic
    rw [hcode, hdialed]
    constructor
    · intro h
      by_contra hneg
      have hchannels : (dial (E.host m.bringups) channel manager).channels = manager.channels :=
        Option.some.inj (h.1 (not_le.1 hneg)).1
      rw [hchannels, hfree] at hregistered
      cases hregistered
    · intro hpos
      refine ⟨fun hneg => absurd hneg (not_lt.2 hpos), fun _ => ⟨⟨_, rfl, hregistered⟩, ?_⟩⟩
      rw [dialed, if_pos hpos]
      exact List.mem_append_right _ (List.mem_singleton_self channel)

theorem InStep.refl (m : ZfgwMachine σ) : InStep m m :=
  fun _ => ⟨iff_of_false not_gains_self not_gains_self, iff_of_false not_gains_self not_gains_self⟩

def TrackedBy (config : FgwConfig) (manager : ManagerState) : Prop :=
  ∀ id chan, manager.channels.find? id = some chan →
    chan.accepted = false ∧ id ∈ config.channels.map FgwChannelConfig.channelId

def Tracked (m : ZfgwMachine σ) : Prop := ∀ manager, m.manager = some manager → TrackedBy m.config manager

theorem dialedIds_eq {manager : ManagerState} (h : m.manager = some manager) :
    m.dialedIds = ChannelManager.dialedIds manager := by
  rw [dialedIds, h]
  rfl

theorem dialed_inStep_iff {manager : ManagerState} (hmanager : m.manager = some manager)
    (hfree : manager.channels.find? channel.channelId = none) :
    InStep m (dialed E channel manager m) ↔
      0 ≤ connect (E.host m.bringups) channel manager.clock := by
  have hold : m.dialedIds = ChannelManager.dialedIds manager := dialedIds_eq hmanager
  have hnew : (dialed E channel manager m).dialedIds =
      ChannelManager.dialedIds (dial (E.host m.bringups) channel manager) := rfl
  have hnot : channel.channelId ∉ ChannelManager.dialedIds manager := by
    rw [mem_dialedIds, hfree]
    nofun
  have hgains : ∀ id, Gains m.dialedIds (dialed E channel manager m).dialedIds id ↔
      id = channel.channelId := by
    intro id
    rw [hold, hnew, gains_iff_of_nodup (nodup_dialedIds _) (nodup_dialedIds _), mem_dialedIds_dial]
    constructor
    · rintro ⟨hout, heq | hin⟩
      · exact heq
      · exact absurd hin hout
    · rintro rfl
      exact ⟨hnot, Or.inl rfl⟩
  have hloses : ∀ id, ¬ Gains (dialed E channel manager m).dialedIds m.dialedIds id := by
    intro id
    rw [hold, hnew, gains_iff_of_nodup (nodup_dialedIds _) (nodup_dialedIds _), mem_dialedIds_dial]
    exact fun h => h.1 (Or.inr h.2)
  by_cases hok : 0 ≤ connect (E.host m.bringups) channel manager.clock
  · have hids : (dialed E channel manager m).configIds = m.configIds ++ [channel.channelId] := by
      simp only [configIds, dialed, ge_iff_le, if_pos hok, List.map_append, List.map_singleton]
    refine iff_of_true (fun id => ⟨?_, ?_⟩) hok
    · rw [hgains, hids, gains_concat]
    · rw [hids]
      exact iff_of_false (hloses id) (not_gains_of_sublist (List.sublist_append_left _ _))
  · have hids : (dialed E channel manager m).configIds = m.configIds := by
      simp only [configIds, dialed, ge_iff_le, if_neg hok]
    refine iff_of_false (fun h => ?_) hok
    have hgain := (h channel.channelId).1.1 ((hgains _).2 rfl)
    rw [hids] at hgain
    exact not_gains_self hgain

theorem mlfAddChannel_inStep_iff :
    InStep m (mlfAddChannel E channel m).2 ↔ ¬ DialFails E channel m := by
  rcases mlfAddChannel_cases E channel m with ⟨-, hsame, hnot⟩ |
    ⟨manager, hmanager, hfree, hknown, -, hdialed⟩
  · rw [hsame]
    exact iff_of_true (InStep.refl m) hnot
  · rw [hdialed, dialed_inStep_iff hmanager hfree]
    constructor
    · rintro hok ⟨manager', hsome, -, -, hneg⟩
      obtain rfl := Option.some.inj (hmanager.symm.trans hsome)
      exact absurd hneg (not_lt.2 hok)
    · intro hnot
      exact not_lt.1 fun hneg => hnot ⟨manager, hmanager, hfree, hknown, hneg⟩

theorem map_channelId_filter (channels : List FgwChannelConfig) (id : ZceUint32) :
    (channels.filter (fun c => c.channelId ≠ id)).map FgwChannelConfig.channelId =
      (channels.map FgwChannelConfig.channelId).filter (· ≠ id) := by
  rw [List.filter_map]
  rfl

theorem mlfRemoveChannel_inStep (h : m.Tracked) (id : ZceUint32) :
    InStep m (mlfRemoveChannel id m).2 := by
  rcases mlfRemoveChannel_cases id m with hsame | ⟨manager, chan, hmanager, hfound, hremoved⟩
  · rw [hsame]
    exact InStep.refl m
  obtain ⟨hdialed, hmem⟩ := h manager hmanager id chan hfound
  have hold : m.dialedIds = ChannelManager.dialedIds manager := dialedIds_eq hmanager
  have hnew : (mlfRemoveChannel id m).2.dialedIds =
      ChannelManager.dialedIds (ChannelManager.unregister id manager) := by
    rw [hremoved]
    rfl
  have hids : (mlfRemoveChannel id m).2.configIds = m.configIds.filter (· ≠ id) := by
    rw [hremoved]
    exact map_channelId_filter _ _
  rw [InStep, hold, hnew, hids]
  intro id'
  rw [gains_iff_of_nodup (nodup_dialedIds _) (nodup_dialedIds _),
    gains_iff_of_nodup (nodup_dialedIds _) (nodup_dialedIds _), mem_dialedIds_unregister,
    gains_of_filter_ne]
  constructor
  · refine iff_of_false (fun hin => hin.1 hin.2.2) (not_gains_of_sublist List.filter_sublist)
  · constructor
    · rintro ⟨hout, hin⟩
      exact ⟨not_not.1 fun hne => hout ⟨hne, hin⟩, hmem⟩
    · rintro ⟨rfl, -⟩
      exact ⟨fun hin => hin.1 rfl, mem_dialedIds.2 ⟨chan, hfound, hdialed⟩⟩

def Op.IsRequest : Op σ → Prop
  | .mlfAddChannel _ | .mlfRemoveChannel _ => True
  | _ => False

def OpDialFails (E : Env σ) (m : ZfgwMachine σ) : Op σ → Prop
  | .mlfAddChannel channel => DialFails E channel m
  | _ => False

theorem step_inStep_iff (h : m.Tracked) {op : Op σ} (hop : op.IsRequest) :
    InStep m (step E m op) ↔ ¬ OpDialFails E m op := by
  cases op with
  | mlfAddChannel channel => exact mlfAddChannel_inStep_iff
  | mlfRemoveChannel id => exact iff_of_true (mlfRemoveChannel_inStep h id) not_false
  | start file b => exact hop.elim
  | stop => exact hop.elim
  | mlfStart forceRestart b => exact hop.elim
  | mlfStop => exact hop.elim
  | mlfSetConfig config => exact hop.elim
  | link op => exact hop.elim
  | transit op => exact hop.elim

theorem step_tracked (h : m.Tracked) {op : Op σ} (hop : op.IsRequest) (hok : ¬ OpDialFails E m op) :
    (step E m op).Tracked := by
  cases op with
  | mlfAddChannel channel =>
    change (mlfAddChannel E channel m).2.Tracked
    rcases mlfAddChannel_cases E channel m with ⟨-, hsame, -⟩ |
      ⟨manager, hmanager, hfree, hknown, -, hdialed⟩
    · rwa [hsame]
    · have hpos : 0 ≤ connect (E.host m.bringups) channel manager.clock :=
        not_lt.1 fun hneg => hok ⟨manager, hmanager, hfree, hknown, hneg⟩
      rw [hdialed]
      intro manager' hsome id chan hfound
      obtain rfl := Option.some.inj hsome
      rw [find?_dial] at hfound
      have hchannels : (dialed E channel manager m).config.channels =
          m.config.channels ++ [channel] := by
        simp only [dialed, ge_iff_le, if_pos hpos]
      rw [hchannels, List.map_append, List.mem_append]
      split at hfound
      · rename_i heq
        obtain rfl := Option.some.inj hfound
        exact ⟨rfl, Or.inr (List.mem_singleton.2 heq)⟩
      · obtain ⟨hdialed, hmem⟩ := h manager hmanager id chan hfound
        exact ⟨hdialed, Or.inl hmem⟩
  | mlfRemoveChannel id =>
    change (mlfRemoveChannel id m).2.Tracked
    rcases mlfRemoveChannel_cases id m with hsame | ⟨manager, chan, hmanager, -, hremoved⟩
    · rwa [hsame]
    · rw [hremoved]
      intro manager' hsome id' chan' hfound
      obtain rfl := Option.some.inj hsome
      rw [find?_unregister] at hfound
      split at hfound
      · cases hfound
      · rename_i hne
        obtain ⟨hdialed, hmem⟩ := h manager hmanager id' chan' hfound
        rw [map_channelId_filter]
        exact ⟨hdialed, List.mem_filter.2 ⟨hmem, by simpa using hne⟩⟩
  | start file b => exact hop.elim
  | stop => exact hop.elim
  | mlfStart forceRestart b => exact hop.elim
  | mlfStop => exact hop.elim
  | mlfSetConfig config => exact hop.elim
  | link op => exact hop.elim
  | transit op => exact hop.elim

theorem start_trackedBy (H : Host) (config : FgwConfig) :
    TrackedBy config (ChannelManager.start H config ChannelManager.init).2 := by
  refine start_induction (P := TrackedBy config) (fun id chan hfound => by cases hfound) ?_
    (fun m hm => hm)
  intro c hc manager hm
  refine addChannel_induction hm fun _ _ id chan hfound => ?_
  rw [find?_dial] at hfound
  split at hfound
  · rename_i heq
    obtain rfl := Option.some.inj hfound
    exact ⟨rfl, heq ▸ List.mem_map_of_mem hc⟩
  · exact hm id chan hfound

theorem Tracked.finish (h : m.Tracked) (ret : Int) : (m.finish ret).2.Tracked := by
  unfold ZfgwMachine.finish
  split
  · exact fun manager hmanager => absurd hmanager (Option.some_ne_none manager).symm
  · exact h

theorem bringupLinked_tracked (b : Bringup) : (bringupLinked E b m).2.Tracked := by
  have htracked : ∀ manager : ManagerState,
      manager.channels = (ChannelManager.start (E.host m.bringups) m.config
        ChannelManager.init).2.channels → TrackedBy m.config manager := by
    intro manager hchannels id chan hfound
    rw [hchannels] at hfound
    exact start_trackedBy (E.host m.bringups) m.config id chan hfound
  have hsubscribed := htracked (ChannelManager.addBytesSubscriber 0
    (ChannelManager.start (E.host m.bringups) m.config ChannelManager.init).2) (by
      unfold ChannelManager.addBytesSubscriber
      split <;> rfl)
  have hup : ∀ m' : ZfgwMachine σ, (∀ manager, m'.manager = some manager →
      TrackedBy m.config manager) → m'.config = m.config → m'.Tracked := by
    intro m' hmanager hconfig manager hsome
    rw [hconfig]
    exact hmanager manager hsome
  unfold bringupLinked
  dsimp only
  split
  · exact hup _ (fun manager hsome => Option.some.inj hsome ▸ htracked _ rfl) rfl
  split
  · unfold bringupInport
    refine Tracked.finish ?_ _
    exact hup _ (fun manager hsome => Option.some.inj hsome ▸ hsubscribed) rfl
  split
  · unfold bringupOutport OutportObject.start
    dsimp only
    rw [if_neg (lt_irrefl 0)]
    split
    · refine Tracked.finish ?_ _
      refine hup _ (fun manager hsome => ?_) rfl
      obtain rfl := Option.some.inj hsome
      unfold ChannelManager.startLinkListener
      split
      · exact hsubscribed
      · split <;> exact hsubscribed
    · exact hup _ (fun manager hsome => Option.some.inj hsome ▸ hsubscribed) rfl
  · exact fun manager hmanager => absurd hmanager (Option.some_ne_none manager).symm

theorem doBringup_tracked (hdown : m.Down) (b : Bringup) : (doBringup E b m).2.Tracked := by
  have hnone : m.manager = none := Option.not_isSome_iff_eq_none.1
    (Bool.eq_false_iff.1 (congrArg Components.manager hdown.2))
  have htracked : ∀ m' : ZfgwMachine σ, m'.manager = m.manager → m'.Tracked := by
    intro m' hsame manager hsome
    rw [hsame, hnone] at hsome
    cases hsome
  unfold doBringup
  split
  · exact htracked _ rfl
  split
  · exact htracked _ rfl
  · dsimp only
    split
    · unfold bringupTransit
      refine Tracked.finish ?_ _
      exact htracked _ rfl
    · exact bringupLinked_tracked b

theorem run_tracked (h : m.Tracked) {ops : List (Op σ)}
    (hops : EachAfter (fun _ op => op.IsRequest) ops)
    (hok : EachAfter (fun pre op => ¬ OpDialFails E (run E m pre) op) ops) :
    (run E m ops).Tracked := by
  induction ops using List.reverseRecOn with
  | nil => exact h
  | append_singleton ops op ih =>
    rw [run_append]
    exact step_tracked (ih hops.left hok.left) hops.last hok.last

end ZfgwMachine

open ZfgwMachine in
/-- A request for a new channel whose dial fails at once is answered with an error and leaves the
channel registered.  Every other request is carried out in both tables or in neither. -/
theorem refused_channel_iff (E : Env σ) :
    (∀ (m : ZfgwMachine σ) (manager : ManagerState) (channel : FgwChannelConfig),
      m.manager = some manager → (Atomic E channel manager m ↔ ¬ DialFails E channel m)) ∧
    (∀ (m : ZfgwMachine σ) (b : Bringup) (ops : List (Op σ)), m.Down → (∀ op ∈ ops, op.IsRequest) →
      (EachAfter (fun pre op => InStep (run E (doBringup E b m).2 pre)
          (step E (run E (doBringup E b m).2 pre) op)) ops ↔
        EachAfter (fun pre op => ¬ OpDialFails E (run E (doBringup E b m).2 pre) op) ops)) := by
  refine ⟨fun m manager channel hmanager => atomic_iff hmanager, fun m b ops hdown hops => ?_⟩
  have hrequests : EachAfter (fun _ op => op.IsRequest) ops := by
    intro pre op post hsplit
    exact hops op (hsplit ▸ List.mem_append_right _ List.mem_cons_self)
  refine EachAfter.congr hrequests fun pre op hpre _ hok hop => ?_
  exact step_inStep_iff (run_tracked (doBringup_tracked hdown b) hpre hok) hop

def utpChannel : FgwChannelConfig := { channelId := 9#32, kind := ZFGW_CHANNEL_UTP }

def linkedMachine : ZfgwMachine Unit :=
  (ZfgwMachine.doBringup quietEnv {} { config := linkedInport }).2

def linkedManager : ManagerState := linkedMachine.manager.getD ChannelManager.init

theorem linkedMachine_manager : linkedMachine.manager = some linkedManager := by
  have hup : linkedMachine.manager.isSome = true := by decide +kernel
  obtain ⟨manager, hmanager⟩ := Option.isSome_iff_exists.1 hup
  rw [linkedManager, hmanager]
  rfl

open ZfgwMachine in
theorem refused_channel_stays :
    ¬ Atomic quietEnv utpChannel linkedManager linkedMachine ∧
      (mlfAddChannel quietEnv utpChannel (mlfAddChannel quietEnv utpChannel linkedMachine).2).1.errcode =
        ZfgwErrcode.channelexists.toInt := by
  refine ⟨fun h => ?_, by decide +kernel⟩
  have hneg : (mlfAddChannel quietEnv utpChannel linkedMachine).1.errcode < 0 := by decide +kernel
  have hchannels := congrArg (Option.map fun channels => (channels.find? 9#32).isSome) (h.1 hneg).1
  have hafter : ((mlfAddChannel quietEnv utpChannel linkedMachine).2.manager.map
      ManagerState.channels).map (fun channels => (channels.find? 9#32).isSome) = some true := by
    decide +kernel
  have hbefore : (linkedManager.channels.find? 9#32).isSome = false := by decide +kernel
  rw [hafter, Option.map_some, hbefore] at hchannels
  cases hchannels

theorem quietEnv_dials (m : ZfgwMachine Unit) :
    ¬ ZfgwMachine.DialFails quietEnv { channelId := 9#32 } m := by
  rintro ⟨manager, -, -, -, hneg⟩
  rw [ChannelManager.connect, if_pos rfl] at hneg
  exact absurd hneg (lt_irrefl 0)

open ZfgwMachine in
theorem refused_channel_dialed :
    Atomic quietEnv { channelId := 9#32 } linkedManager linkedMachine ∧
      EachAfter (fun pre op => InStep (run quietEnv linkedMachine pre)
          (step quietEnv (run quietEnv linkedMachine pre) op))
        [.mlfAddChannel { channelId := 9#32 }, .mlfRemoveChannel 9#32] := by
  obtain ⟨hatomic, hruns⟩ := refused_channel_iff quietEnv
  constructor
  · exact (hatomic linkedMachine linkedManager _ linkedMachine_manager).2 (quietEnv_dials _)
  · refine (hruns { config := linkedInport } {} _ ⟨rfl, rfl⟩ ?_).2 ?_
    · intro op hop
      rcases List.mem_pair.1 hop with rfl | rfl <;> trivial
    · intro pre op post hsplit hfails
      cases op with
      | mlfAddChannel channel =>
        have hmem : ZfgwMachine.Op.mlfAddChannel channel ∈
            ([.mlfAddChannel { channelId := 9#32 }, .mlfRemoveChannel 9#32] :
              List (ZfgwMachine.Op Unit)) := hsplit ▸ List.mem_append_right _ List.mem_cons_self
        rcases List.mem_pair.1 hmem with heq | heq
        · obtain rfl := ZfgwMachine.Op.mlfAddChannel.inj heq
          exact quietEnv_dials _ hfails
        · cases heq
      | mlfRemoveChannel id => exact hfails
      | start file b => exact hfails
      | stop => exact hfails
      | mlfStart forceRestart b => exact hfails
      | mlfStop => exact hfails
      | mlfSetConfig config => exact hfails
      | link op => exact hfails
      | transit op => exact hfails

end Libfgw
