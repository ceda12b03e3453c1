import Libfgw.Manager.Laws

namespace Libfgw

open Lib

namespace ChannelManager

variable {H : Host} {m : ManagerState} {id id' : ZceUint32} {cfg : FgwChannelConfig}
  {chan : LinkChannel}

/-- A channel is connected or being dialed, or a redial of its id is pending. -/
def Tended (id : ZceUint32) (m : ManagerState) : Prop :=
  (∃ chan, m.channels.find? id = some chan ∧ chan.accepted = false ∧ chan.state ≠ .down) ∨
    ∃ t ∈ m.timers, t.Redials id

def NoDialFailed (id : ZceUint32) (m : ManagerState) : Prop :=
  ∀ d ∈ m.dials, d.channelId = id → 0 ≤ d.ret

instance (id : ZceUint32) (m : ManagerState) : Decidable (NoDialFailed id m) :=
  inferInstanceAs (Decidable (∀ d ∈ m.dials, _))

def Spares (id : ZceUint32) (m : ManagerState) : Op → Prop
  | .start _ => False
  | .stop => False
  | .removeChannel id' => id' ≠ id
  | .accept => m.acceptedIdSeq ≠ id
  | _ => True

def AllSpare (H : Host) (id : ZceUint32) : ManagerState → List Op → Prop
  | _, [] => True
  | m, op :: ops => Spares id m op ∧ AllSpare H id (step H m op) ops

def pending (id : ZceUint32) (m : ManagerState) : Nat := m.timers.countP (fun t => t.Redials id)

/-- A dialed channel is live and has no redial pending, or it is down and has one, or it is given
up: then a dial of it has failed at once. -/
inductive Fate (id : ZceUint32) (m : ManagerState) (chan : LinkChannel) : Prop
  | live (state : chan.state ≠ .down) (none : pending id m = 0) (ok : NoDialFailed id m)
  | waiting (state : chan.state = .down) (one : pending id m = 1) (ok : NoDialFailed id m)
  | lost (state : chan.state = .down) (none : pending id m = 0) (failed : ¬ NoDialFailed id m)

structure Kept (id : ZceUint32) (m : ManagerState) : Prop where
  entry : ∃ chan, m.channels.find? id = some chan ∧ chan.accepted = false ∧ Fate id m chan
  removals : .remove id ∉ m.timers
  redials : ∀ cfg backoff opened, .reconnect cfg backoff opened ∈ m.timers → cfg.channelId = id →
    isKnownKind cfg.kind = true
  config : isKnownKind (redialConfig m.config id).kind = true

theorem pending_eq_zero : pending id m = 0 ↔ ∀ t ∈ m.timers, ¬ t.Redials id := by
  rw [pending, List.countP_eq_zero]
  exact forall₂_congr fun t _ => by rw [decide_eq_true_iff]

theorem Kept.tended_iff (h : Kept id m) : Tended id m ↔ NoDialFailed id m := by
  obtain ⟨chan, hfound, hdialed, hfate⟩ := h.entry
  cases hfate with
  | live state none ok => exact iff_of_true (Or.inl ⟨chan, hfound, hdialed, state⟩) ok
  | waiting state one ok =>
    refine iff_of_true (Or.inr ?_) ok
    obtain ⟨t, ht, hredials⟩ := List.countP_pos_iff.1 (show 0 < pending id m by omega)
    exact ⟨t, ht, of_decide_eq_true hredials⟩
  | lost state none failed =>
    refine iff_of_false ?_ failed
    rintro (⟨chan', hfound', -, hlive⟩ | ⟨t, ht, hredials⟩)
    · obtain rfl := Option.some.inj (hfound.symm.trans hfound')
      exact hlive state
    · exact pending_eq_zero.1 none t ht hredials

theorem Fate.congr {m' : ManagerState} (h : Fate id m chan) (htimers : pending id m' = pending id m)
    (hdials : NoDialFailed id m' ↔ NoDialFailed id m) : Fate id m' chan := by
  cases h with
  | live state none ok => exact .live state (htimers.trans none) (hdials.2 ok)
  | waiting state one ok => exact .waiting state (htimers.trans one) (hdials.2 ok)
  | lost state none failed => exact .lost state (htimers.trans none) (mt hdials.1 failed)

theorem noDialFailed_dial : NoDialFailed id (dial H cfg m) ↔
    NoDialFailed id m ∧ (cfg.channelId = id → 0 ≤ connect H cfg m.clock) := by
  rw [NoDialFailed, dials_dial, List.forall_mem_append, List.forall_mem_singleton]
  rfl

namespace Kept

theorem frame {m' : ManagerState} (h : Kept id m)
    (hchannels : m'.channels.find? id = m.channels.find? id) (hconfig : m'.config = m.config)
    (htimers : pending id m' = pending id m) (hsub : ∀ t ∈ m'.timers, t ∈ m.timers)
    (hdials : NoDialFailed id m' ↔ NoDialFailed id m) : Kept id m' where
  entry := by
    obtain ⟨chan, hfound, hdialed, hfate⟩ := h.entry
    exact ⟨chan, hchannels.trans hfound, hdialed, hfate.congr htimers hdials⟩
  removals := fun hmem => h.removals (hsub _ hmem)
  redials := fun cfg backoff opened hmem => h.redials cfg backoff opened (hsub _ hmem)
  config := by
    rw [hconfig]
    exact h.config

theorem of_sameLinks {m' : ManagerState} (h : Kept id m) (hsame : SameLinks m m') : Kept id m' := by
  refine h.frame (by rw [hsame.channels]) hsame.config (by rw [pending, pending, hsame.timers]) ?_ ?_
  · rw [hsame.timers]
    exact fun t ht => ht
  · rw [NoDialFailed, NoDialFailed, hsame.dials]

theorem dial_other (h : Kept id m) (hne : cfg.channelId ≠ id) : Kept id (dial H cfg m) := by
  refine h.frame ?_ rfl rfl (fun t ht => ht) ?_
  · rw [find?_dial, if_neg hne.symm]
  · rw [noDialFailed_dial]
    exact and_iff_left fun heq => absurd heq hne

theorem unregister_other (h : Kept id m) (hne : id' ≠ id) : Kept id (unregister id' m) := by
  refine h.frame ?_ rfl rfl (fun t ht => ht) Iff.rfl
  rw [find?_unregister, if_neg hne.symm]

theorem expire_other (h : Kept id m) {t : Timer} (ht : ¬ t.Redials id) : Kept id (expire t m) := by
  refine h.frame rfl rfl ?_ (fun t' ht' => List.mem_of_mem_erase ht') Iff.rfl
  rw [pending, expire, List.countP_erase, if_neg (fun hboth => ht (of_decide_eq_true hboth.2))]
  rfl

theorem setLink_up (h : Kept id m) (hfound : m.channels.find? id' = some chan)
    (hopening : chan.state = .opening) : Kept id (setLink id' chan .up m) := by
  by_cases hid : id = id'
  · subst hid
    refine ⟨⟨{ chan with state := .up }, ?_, ?_, ?_⟩, h.removals, h.redials, h.config⟩
    · exact (SortedMap.find?_insert _ _ _ _).trans (if_pos rfl)
    · obtain ⟨chan', hfound', hdialed, -⟩ := h.entry
      obtain rfl := Option.some.inj (hfound.symm.trans hfound')
      exact hdialed
    · obtain ⟨chan', hfound', -, hfate⟩ := h.entry
      obtain rfl := Option.some.inj (hfound.symm.trans hfound')
      cases hfate with
      | live state none ok => exact .live (by simp) none ok
      | waiting state => simp [hopening] at state
      | lost state => simp [hopening] at state
  · exact h.frame ((SortedMap.find?_insert _ _ _ _).trans (if_neg hid)) rfl rfl (fun t ht => ht) Iff.rfl

theorem onChannelClosed (h : Kept id m) (hfound : m.channels.find? id' = some chan)
    (hlive : chan.state ≠ .down) : Kept id (onChannelClosed id' chan m) := by
  by_cases hid : id = id'
  · subst hid
    obtain ⟨chan', hfound', hdialed, hfate⟩ := h.entry
    obtain rfl := Option.some.inj (hfound.symm.trans hfound')
    rw [onChannelClosed_dialed hdialed]
    refine ⟨⟨{ chan with state := .down }, ?_, hdialed, ?_⟩, ?_, ?_, h.config⟩
    · exact (SortedMap.find?_insert _ _ _ _).trans (if_pos rfl)
    · cases hfate with
      | live state none ok =>
        refine .waiting rfl ?_ ok
        rw [pending, schedule, List.countP_append]
        change pending id m + _ = 1
        rw [none, Nat.zero_add, List.countP_singleton, if_pos]
        exact decide_eq_true (channelId_redialConfig _ _)
      | waiting state => exact absurd state hlive
      | lost state => exact absurd state hlive
    · intro hmem
      rcases List.mem_append.1 hmem with hmem | hmem
      · exact h.removals hmem
      · cases List.mem_singleton.1 hmem
    · intro cfg backoff opened hmem hcfg
      rcases List.mem_append.1 hmem with hmem | hmem
      · exact h.redials cfg backoff opened hmem hcfg
      · rw [(Timer.reconnect.inj (List.mem_singleton.1 hmem)).1]
        exact h.config
  · have hset : Kept id (setLink id' chan .down m) :=
      h.frame ((SortedMap.find?_insert _ _ _ _).trans (if_neg hid)) rfl rfl (fun t ht => ht) Iff.rfl
    obtain ⟨t, heq, hother, hremove, hreconnect⟩ : ∃ t,
        ChannelManager.onChannelClosed id' chan m = schedule t (setLink id' chan .down m) ∧
        ¬ t.Redials id ∧ t ≠ .remove id ∧ ∀ cfg backoff opened, t = .reconnect cfg backoff opened →
          cfg.channelId ≠ id := by
      cases haccepted : chan.accepted with
      | true =>
        refine ⟨_, onChannelClosed_accepted haccepted, fun hredials => hredials, ?_, nofun⟩
        exact fun heq => hid (Timer.remove.inj heq).symm
      | false =>
        refine ⟨_, onChannelClosed_dialed haccepted, ?_, nofun, ?_⟩
        · intro hredials
          rw [Timer.Redials, channelId_redialConfig] at hredials
          exact hid hredials.symm
        · rintro cfg backoff opened heq
          rw [← (Timer.reconnect.inj heq).1, channelId_redialConfig]
          exact fun heq => hid heq.symm
    rw [heq]
    refine ⟨?_, ?_, ?_, hset.config⟩
    · obtain ⟨chan', hfound', hdialed, hfate⟩ := hset.entry
      refine ⟨chan', hfound', hdialed, hfate.congr ?_ Iff.rfl⟩
      rw [pending, schedule, List.countP_append, List.countP_singleton, if_neg, Nat.add_zero]
      · rfl
      · exact fun htrue => hother (of_decide_eq_true htrue)
    · intro hmem
      rcases List.mem_append.1 hmem with hmem | hmem
      · exact hset.removals hmem
      · exact hremove (List.mem_singleton.1 hmem).symm
    · intro cfg backoff opened hmem hcfg
      rcases List.mem_append.1 hmem with hmem | hmem
      · exact hset.redials cfg backoff opened hmem hcfg
      · exact absurd hcfg (hreconnect cfg backoff opened (List.mem_singleton.1 hmem).symm)

theorem dial_own (hpending : pending cfg.channelId m = 0) (hok : NoDialFailed cfg.channelId m)
    (hremovals : .remove cfg.channelId ∉ m.timers)
    (hconfig : isKnownKind (redialConfig m.config cfg.channelId).kind = true) :
    Kept cfg.channelId (dial H cfg m) where
  entry := by
    refine ⟨dialedChannel H cfg m, find?_dial.trans (if_pos rfl), rfl, ?_⟩
    by_cases hret : connect H cfg m.clock < 0
    · refine .lost (if_pos hret) hpending fun hok' => ?_
      have := (noDialFailed_dial.1 hok').2 rfl
      omega
    · refine .live ?_ hpending (noDialFailed_dial.2 ⟨hok, fun _ => not_lt.1 hret⟩)
      have hstate : (dialedChannel H cfg m).state = .opening := if_neg hret
      rw [hstate]
      exact nofun
  removals := hremovals
  redials := fun cfg' backoff opened hmem hid =>
    absurd hid (pending_eq_zero.1 hpending (.reconnect cfg' backoff opened) hmem)
  config := hconfig

theorem pending_expire {t : Timer} (hmem : t ∈ m.timers) (hredials : t.Redials id) :
    pending id (expire t m) = pending id m - 1 := by
  rw [pending, expire, List.countP_erase, if_pos ⟨hmem, decide_eq_true hredials⟩]
  rfl

theorem timer (h : Kept id m) {t : Timer} (hmem : t ∈ m.timers) : Kept id (fire H t (expire t m)) := by
  by_cases hredials : t.Redials id
  · cases t with
    | remove id' => exact absurd hredials (fun h => h)
    | reconnect cfg backoff opened =>
      have hid : cfg.channelId = id := hredials
      subst hid
      rw [fire_reconnect, if_pos (h.redials cfg backoff opened hmem rfl)]
      have hcount := pending_expire hmem hredials
      obtain ⟨chan, -, -, hfate⟩ := h.entry
      cases hfate with
      | waiting state one ok =>
        rw [one] at hcount
        exact dial_own hcount ok (fun hremove => h.removals (List.mem_of_mem_erase hremove)) h.config
      | live state none => exact absurd hredials (pending_eq_zero.1 none _ hmem)
      | lost state none => exact absurd hredials (pending_eq_zero.1 none _ hmem)
  · have hless := h.expire_other hredials
    cases t with
    | remove id' =>
      rw [fire_remove]
      refine hless.unregister_other ?_
      rintro rfl
      exact h.removals hmem
    | reconnect cfg backoff opened =>
      have hne : cfg.channelId ≠ id := hredials
      rw [fire_reconnect]
      split
      · exact (hless.unregister_other hne).dial_other hne
      · exact hless.unregister_other hne

theorem step (h : Kept id m) {op : Op} (hop : Spares id m op) : Kept id (step H m op) := by
  refine step_induction ?same h ?start ?stop ?add ?remove ?listener ?accept ?connected ?closed ?timer
  case same => exact fun m m' hsame hm => hm.of_sameLinks hsame
  case start =>
    rintro config rfl
    exact absurd hop (fun h => h)
  case stop =>
    rintro rfl
    exact absurd hop (fun h => h)
  case add =>
    rintro cfg rfl hfree -
    refine h.dial_other ?_
    rintro rfl
    obtain ⟨chan, hfound, -⟩ := h.entry
    rw [hfree] at hfound
    cases hfound
  case remove =>
    rintro id' rfl
    exact h.unregister_other hop
  case listener => exact fun _ _ => h.frame rfl rfl rfl (fun t ht => ht) Iff.rfl
  case accept =>
    rintro rfl -
    exact h.frame ((SortedMap.find?_insert _ _ _ _).trans (if_neg fun heq => hop heq.symm)) rfl rfl
      (fun t ht => ht) Iff.rfl
  case connected => exact fun id' chan _ hfound hopening => h.setLink_up hfound hopening
  case closed => exact fun id' chan _ hfound hlive => h.onChannelClosed hfound hlive
  case timer => exact fun t _ hmem => h.timer hmem

theorem run (h : Kept id m) {ops : List Op} (hops : AllSpare H id m ops) : Kept id (run H m ops) := by
  induction ops generalizing m with
  | nil => exact h
  | cons op ops ih => exact ih (h.step hops.1) hops.2

theorem addChannel (h : Kept id m) (c : FgwChannelConfig) : Kept id (addChannel H c m).2 := by
  refine addChannel_induction h fun hfree _ => h.dial_other ?_
  rintro rfl
  obtain ⟨chan, hfound, -⟩ := h.entry
  rw [hfree] at hfound
  cases hfound

theorem foldl_addChannel (h : Kept id m) (cs : List FgwChannelConfig) :
    Kept id (cs.foldl (fun m c => (ChannelManager.addChannel H c m).2) m) := by
  induction cs generalizing m with
  | nil => exact h
  | cons c cs ih => exact ih (h.addChannel c)

theorem of_foldl_addChannel {cs : List FgwChannelConfig}
    (hfirst : cs.find? (fun c => c.channelId = cfg.channelId) = some cfg)
    (hknown : isKnownKind cfg.kind = true)
    (hconfig : isKnownKind (redialConfig m.config cfg.channelId).kind = true)
    (hfree : m.channels.find? cfg.channelId = none) (htimers : m.timers = [])
    (hok : NoDialFailed cfg.channelId m) :
    Kept cfg.channelId (cs.foldl (fun m c => (ChannelManager.addChannel H c m).2) m) := by
  induction cs generalizing m with
  | nil => cases hfirst
  | cons c cs ih =>
    rw [List.foldl_cons]
    rw [List.find?_cons] at hfirst
    by_cases hid : c.channelId = cfg.channelId
    · rw [decide_eq_true hid] at hfirst
      obtain rfl := Option.some.inj hfirst
      have hnew : (ChannelManager.addChannel H c m).2 = dial H c m :=
        addChannel_snd.trans (if_pos ⟨by rw [hfree]; rfl, hknown⟩)
      rw [hnew]
      refine foldl_addChannel (dial_own ?_ hok ?_ hconfig) cs
      · rw [pending, htimers, List.countP_nil]
      · rw [htimers]
        exact List.not_mem_nil
    · rw [decide_eq_false hid] at hfirst
      refine addChannel_induction
        (P := fun m => Kept cfg.channelId (cs.foldl (fun m c => (ChannelManager.addChannel H c m).2) m))
        (ih hfirst hconfig hfree htimers hok) fun _ _ => ?_
      refine ih hfirst hconfig ?_ htimers (noDialFailed_dial.2 ⟨hok, fun heq => absurd heq hid⟩)
      rw [find?_dial, if_neg (fun heq => hid heq.symm), hfree]

theorem start {config : FgwConfig}
    (hfirst : config.channels.find? (fun c => c.channelId = cfg.channelId) = some cfg)
    (htcp : cfg.kind = ZFGW_CHANNEL_TCP) : Kept cfg.channelId (start H config init).2 := by
  have hknown : isKnownKind cfg.kind = true := by
    rw [htcp]
    rfl
  have hredial : isKnownKind (redialConfig config cfg.channelId).kind = true := by
    unfold redialConfig
    rw [hfirst]
    exact hknown
  have hkept : Kept cfg.channelId
      (config.channels.foldl (fun m c => (ChannelManager.addChannel H c m).2) (setConfig config init)) :=
    of_foldl_addChannel hfirst hknown hredial rfl rfl (fun d hd => nomatch hd)
  exact hkept.of_sameLinks ⟨rfl, rfl, rfl, rfl, rfl, rfl, rfl⟩

end Kept

end ChannelManager

open ChannelManager in
/-- A TCP channel that a start has configured, and that nobody has taken away, is connected, being
dialed or to be redialed exactly as long as no dial of it has failed at once. -/
theorem configured_link_tended_iff (H : Host) (config : FgwConfig) (cfg : FgwChannelConfig)
    (hfirst : config.channels.find? (fun c => c.channelId = cfg.channelId) = some cfg)
    (htcp : cfg.kind = ZFGW_CHANNEL_TCP) (ops : List ChannelManager.Op)
    (hops : AllSpare H cfg.channelId (start H config init).2 ops) :
    Tended cfg.channelId (run H (start H config init).2 ops) ↔
      NoDialFailed cfg.channelId (run H (start H config init).2 ops) :=
  ((Kept.start hfirst htcp).run hops).tended_iff

def oneLink : FgwConfig := { channels := [{ channelId := 7#32, remote := ⟨[], 9000#16⟩ }] }

theorem configured_link_tended_iff_one_link :
    ChannelManager.Tended 7#32 (ChannelManager.run (Host.reusing fun _ => 0)
      (ChannelManager.start (Host.reusing fun _ => 0) oneLink ChannelManager.init).2
      [.connected 7#32, .closed 7#32]) :=
  (configured_link_tended_iff (Host.reusing fun _ => 0) oneLink
    { channelId := 7#32, remote := ⟨[], 9000#16⟩ } rfl rfl [.connected 7#32, .closed 7#32]
    ⟨trivial, trivial, trivial⟩).2 (by decide +kernel)

theorem failed_dial_given_up :
    ¬ ChannelManager.Tended 7#32
      (ChannelManager.start (Host.reusing fun _ => -1) oneLink ChannelManager.init).2 := by
  have hdown : (ChannelManager.start (Host.reusing fun _ => -1) oneLink
      ChannelManager.init).2.channels.find? 7#32 =
    some { ref := 1, remote := ⟨[], 9000#16⟩, state := .down, opened := 0 } := by decide +kernel
  rintro (⟨chan, hfound, -, hlive⟩ | ⟨t, ht, -⟩)
  · obtain rfl := Option.some.inj (hdown.symm.trans hfound)
    exact hlive rfl
  · exact List.not_mem_nil ht

end Libfgw
