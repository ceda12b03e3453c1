import Libfgw.Manager.Service

namespace Libfgw

open Lib

namespace ChannelManager

variable {H : Host} {cfg : FgwChannelConfig} {m : ManagerState} {id : ZceUint32}

@[simp] theorem dials_dial : (dial H cfg m).dials =
    m.dials ++ [⟨cfg.channelId, cfg.remote, connect H cfg m.clock⟩] := rfl

@[simp] theorem find?_dial : (dial H cfg m).channels.find? id =
    if id = cfg.channelId then some (dialedChannel H cfg m) else m.channels.find? id :=
  SortedMap.find?_insert _ _ _ _

theorem addChannel_snd : (addChannel H cfg m).2 =
    if (m.channels.find? cfg.channelId).isSome = false ∧ isKnownKind cfg.kind = true then
      dial H cfg m
    else m := by
  unfold addChannel
  by_cases hfound : (m.channels.find? cfg.channelId).isSome = true
  · simp only [hfound, if_true, Bool.true_eq_false, false_and, if_false]
  · by_cases hknown : isKnownKind cfg.kind = true
    · simp only [Bool.not_eq_true] at hfound
      simp only [hfound, hknown, Bool.false_eq_true, if_false, if_true, and_self]
    · simp only [hfound, hknown, if_false, and_false, Bool.false_eq_true]

theorem addChannel_induction {P : ManagerState → Prop} (h : P m)
    (hdial : m.channels.find? cfg.channelId = none → isKnownKind cfg.kind = true →
      P (dial H cfg m)) : P (addChannel H cfg m).2 := by
  rw [addChannel_snd]
  split
  · rename_i hnew
    exact hdial (Option.not_isSome_iff_eq_none.1 (by simp [hnew.1])) hnew.2
  · exact h

@[simp] theorem find?_unregister (id' : ZceUint32) : (unregister id m).channels.find? id' =
    if id' = id then none else m.channels.find? id' := SortedMap.find?_erase _ _ _

theorem removeChannel_snd : (removeChannel id m).2 = unregister id m := by
  unfold removeChannel
  split
  · rename_i hnone
    have herase : m.channels.erase id = m.channels := SortedMap.ext_find? fun k => by
      rw [SortedMap.find?_erase]
      split
      · rename_i heq
        rw [heq, hnone]
      · rfl
    rw [unregister, herase]
  · rfl

theorem removeChannel_fst_eq_zero : (removeChannel id m).1 = 0 ↔ (m.channels.find? id).isSome := by
  unfold removeChannel
  split
  · rename_i hnone
    simp only [hnone, Option.isSome_none, Bool.false_eq_true, iff_false]
    exact (ZfgwErrcode.toInt_neg _).ne
  · rename_i hsome
    simp only [hsome, Option.isSome_some]

theorem start_induction {P : ManagerState → Prop} {config : FgwConfig}
    (h : P (setConfig config m))
    (hadd : ∀ c ∈ config.channels, ∀ m, P m → P (addChannel H c m).2)
    (hbeat : ∀ m, P m → P (startHeartbeat m)) : P (start H config m).2 := by
  refine hbeat _ ?_
  have hfold : ∀ cs : List FgwChannelConfig, (∀ c ∈ cs, ∀ m, P m → P (addChannel H c m).2) →
      ∀ m, P m → P (cs.foldl (fun m c => (addChannel H c m).2) m) := by
    intro cs hcs
    induction cs with
    | nil => exact fun m hm => hm
    | cons c cs ih =>
      obtain ⟨hc, hcs⟩ := List.forall_mem_cons.1 hcs
      exact fun m hm => ih hcs _ (hc m hm)
  exact hfold _ hadd _ h

theorem fire_remove : fire H (.remove id) m = unregister id m := removeChannel_snd

theorem fire_reconnect {backoff opened : Nat} : fire H (.reconnect cfg backoff opened) m =
    if isKnownKind cfg.kind = true then dial H cfg (unregister cfg.channelId m)
    else unregister cfg.channelId m := by
  change (addChannel H cfg (removeChannel cfg.channelId m).2).2 = _
  rw [removeChannel_snd, addChannel_snd]
  simp only [find?_unregister, if_true, Option.isSome_none, true_and]

theorem channelId_redialConfig (config : FgwConfig) (id : ZceUint32) :
    (redialConfig config id).channelId = id := by
  unfold redialConfig
  split <;> rfl

theorem onChannelClosed_dialed {chan : LinkChannel} (hdialed : chan.accepted = false) :
    onChannelClosed id chan m =
      schedule (.reconnect (redialConfig m.config id) (reconnectBackoff m.config) chan.opened)
        (setLink id chan .down m) := by
  unfold onChannelClosed
  dsimp only
  rw [hdialed, if_neg Bool.false_ne_true]
  rfl

theorem onChannelClosed_accepted {chan : LinkChannel} (haccepted : chan.accepted = true) :
    onChannelClosed id chan m = schedule (.remove id) (setLink id chan .down m) := by
  unfold onChannelClosed
  dsimp only
  rw [haccepted, if_pos rfl]

structure SameLinks (m m' : ManagerState) : Prop where
  config : m'.config = m.config
  channels : m'.channels = m.channels
  acceptedIdSeq : m'.acceptedIdSeq = m.acceptedIdSeq
  linkAcceptor : m'.linkAcceptor = m.linkAcceptor
  timers : m'.timers = m.timers
  clock : m'.clock = m.clock
  dials : m'.dials = m.dials

/-- A step does nothing to the links, or it does one of these. -/
theorem step_induction {P : ManagerState → Prop} {op : Op}
    (hsame : ∀ m m', SameLinks m m' → P m → P m') (h : P m)
    (hstart : ∀ config, op = .start config → P (start H config m).2)
    (hstop : op = .stop → P (stop m))
    (hadd : ∀ cfg, op = .addChannel cfg → m.channels.find? cfg.channelId = none →
      isKnownKind cfg.kind = true → P (dial H cfg m))
    (hremove : ∀ id, op = .removeChannel id → P (unregister id m))
    (hlistener : ∀ ret, op = .startLinkListener ret → P { m with linkAcceptor := true })
    (haccept : op = .accept → m.linkAcceptor = true → P (makeAcceptedChannel H m))
    (hconnected : ∀ id chan, op = .connected id → m.channels.find? id = some chan →
      chan.state = .opening → P (setLink id chan .up m))
    (hclosed : ∀ id chan, op = .closed id → m.channels.find? id = some chan →
      chan.state ≠ .down → P (onChannelClosed id chan m))
    (htimer : ∀ t, op = .timer t → t ∈ m.timers → P (fire H t (expire t m))) :
    P (step H m op) := by
  cases op with
  | start config => exact hstart config rfl
  | stop => exact hstop rfl
  | addChannel cfg => exact addChannel_induction h (hadd cfg rfl)
  | removeChannel id =>
    change P (removeChannel id m).2
    rw [removeChannel_snd]
    exact hremove id rfl
  | startLinkListener ret =>
    simp only [step, startLinkListener]
    split
    · exact h
    · split
      · exact h
      · exact hlistener ret rfl
  | accept =>
    simp only [step]
    split
    · rename_i hlistening
      exact haccept rfl hlistening
    · exact h
  | connected id =>
    simp only [step]
    split
    · exact h
    · rename_i chan hfound
      split
      · rename_i hopening
        exact hsame (setLink id chan .up m) _ ⟨rfl, rfl, rfl, rfl, rfl, rfl, rfl⟩
          (hconnected id chan rfl hfound hopening)
      · exact h
  | closed id =>
    simp only [step]
    split
    · exact h
    · rename_i chan hfound
      split
      · exact h
      · rename_i hlive
        exact hclosed id chan rfl hfound hlive
  | timer t =>
    simp only [step]
    split
    · rename_i hmem
      exact htimer t rfl hmem
    · exact h
  | addBytesSubscriber stream =>
    simp only [step, addBytesSubscriber]
    split
    · exact h
    · exact hsame m _ ⟨rfl, rfl, rfl, rfl, rfl, rfl, rfl⟩ h
  | removeBytesSubscriber stream => exact hsame m _ ⟨rfl, rfl, rfl, rfl, rfl, rfl, rfl⟩ h

end ChannelManager

end Libfgw
