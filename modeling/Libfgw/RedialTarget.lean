import Libfgw.Manager.Laws

namespace Libfgw

open Lib

namespace ChannelManager

variable {H : Host}

/-- The parameters that each id was last added with, by `start` or by `addChannel`. -/
abbrev Added := ZceUint32 → Option FgwChannelConfig

def addNoted (H : Host) (p : ManagerState × Added) (cfg : FgwChannelConfig) : ManagerState × Added :=
  ((addChannel H cfg p.1).2,
    if p.1.channels.find? cfg.channelId = none ∧ isKnownKind cfg.kind = true then
      Function.update p.2 cfg.channelId (some cfg)
    else p.2)

def stepNoted (H : Host) (p : ManagerState × Added) : Op → ManagerState × Added
  | .start config =>
    let q := config.channels.foldl (addNoted H) (setConfig config p.1, p.2)
    (startHeartbeat q.1, q.2)
  | .addChannel cfg => addNoted H p cfg
  | op => (step H p.1 op, p.2)

def runNoted (H : Host) (p : ManagerState × Added) (ops : List Op) : ManagerState × Added :=
  ops.foldl (stepNoted H) p

def DialsAgain (H : Host) (id : ZceUint32) (cfg : FgwChannelConfig) (t : Timer) : Prop :=
  ∀ m, t ∈ m.timers →
    (step H m (.timer t)).dials = m.dials ++ [⟨id, cfg.remote, connect H cfg m.clock⟩] ∧
      ∃ chan, (step H m (.timer t)).channels.find? id = some chan ∧ chan.accepted = false ∧
        chan.remote = cfg.remote ∧ chan.kind = cfg.kind ∧ chan.priority = cfg.priority

/-- When a dialed channel closes, a redial is scheduled, and when it fires, the id is dialed with the
parameters that it was last added with. -/
def RedialsAdded (H : Host) (p : ManagerState × Added) : Prop :=
  ∀ id chan, p.1.channels.find? id = some chan → chan.accepted = false →
    ∃ cfg t, p.2 id = some cfg ∧ (onChannelClosed id chan p.1).timers = p.1.timers ++ [t] ∧
      DialsAgain H id cfg t

def firstKnown (cs : List FgwChannelConfig) (id : ZceUint32) : Option FgwChannelConfig :=
  cs.find? (fun c => c.channelId = id ∧ isKnownKind c.kind = true)

def Agrees (p : ManagerState × Added) : Op → Prop
  | .start config =>
    (∀ id chan, p.1.channels.find? id = some chan → chan.accepted = false →
      p.2 id = some (redialConfig config id)) ∧
    ∀ id cfg, p.1.channels.find? id = none → firstKnown config.channels id = some cfg →
      redialConfig config id = cfg
  | .addChannel cfg =>
    p.1.channels.find? cfg.channelId = none → isKnownKind cfg.kind = true →
      redialConfig p.1.config cfg.channelId = cfg
  | .timer (.reconnect cfg backoff opened) =>
    .reconnect cfg backoff opened ∈ p.1.timers → isKnownKind cfg.kind = true →
      p.2 cfg.channelId = some (redialConfig p.1.config cfg.channelId)
  | _ => True

def AllAgree (H : Host) : ManagerState × Added → List Op → Prop
  | _, [] => True
  | p, op :: ops => Agrees p op ∧ AllAgree H (stepNoted H p op) ops

theorem foldl_addNoted_fst (cs : List FgwChannelConfig) (p : ManagerState × Added) :
    (cs.foldl (addNoted H) p).1 = cs.foldl (fun m c => (addChannel H c m).2) p.1 := by
  induction cs generalizing p with
  | nil => rfl
  | cons c cs ih => exact ih _

theorem stepNoted_fst (p : ManagerState × Added) (op : Op) : (stepNoted H p op).1 = step H p.1 op := by
  cases op with
  | start config =>
    change startHeartbeat (config.channels.foldl (addNoted H) _).1 = _
    rw [foldl_addNoted_fst]
    rfl
  | addChannel cfg => rfl
  | _ => rfl

theorem runNoted_fst (p : ManagerState × Added) (ops : List Op) :
    (runNoted H p ops).1 = run H p.1 ops := by
  induction ops generalizing p with
  | nil => rfl
  | cons op ops ih =>
    rw [run_cons, ← stepNoted_fst]
    exact ih _

def Names (added : Added) (m : ManagerState) : Prop :=
  ∀ id chan, m.channels.find? id = some chan → chan.accepted = false →
    added id = some (redialConfig m.config id)

def Noted (added : Added) : Prop :=
  ∀ id cfg, added id = some cfg → cfg.channelId = id ∧ isKnownKind cfg.kind = true

theorem Noted.addNoted {p : ManagerState × Added} (h : Noted p.2) (cfg : FgwChannelConfig) :
    Noted (addNoted H p cfg).2 := by
  intro id cfg' hadded
  simp only [ChannelManager.addNoted] at hadded
  split at hadded
  · rename_i hnew
    rcases eq_or_ne id cfg.channelId with rfl | hne
    · rw [Function.update_self] at hadded
      obtain rfl := Option.some.inj hadded
      exact ⟨rfl, hnew.2⟩
    · rw [Function.update_of_ne hne] at hadded
      exact h id cfg' hadded
  · exact h id cfg' hadded

theorem Noted.stepNoted {p : ManagerState × Added} (h : Noted p.2) (op : Op) :
    Noted (stepNoted H p op).2 := by
  cases op with
  | start config =>
    have hall : ∀ (cs : List FgwChannelConfig) (q : ManagerState × Added), Noted q.2 →
        Noted (cs.foldl (ChannelManager.addNoted H) q).2 := by
      intro cs
      induction cs with
      | nil => exact fun q hq => hq
      | cons c cs ih => exact fun q hq => ih _ (hq.addNoted c)
    exact hall config.channels _ h
  | addChannel cfg => exact h.addNoted cfg
  | _ => exact h

theorem onChannelClosed_timers {id : ZceUint32} {chan : LinkChannel} {m : ManagerState}
    (hdialed : chan.accepted = false) : (onChannelClosed id chan m).timers = m.timers ++
      [.reconnect (redialConfig m.config id) (reconnectBackoff m.config) chan.opened] := by
  rw [onChannelClosed_dialed hdialed]
  rfl

theorem dialsAgain_reconnect {id : ZceUint32} {cfg : FgwChannelConfig} {backoff opened : Nat}
    (hid : cfg.channelId = id) (hknown : isKnownKind cfg.kind = true) :
    DialsAgain H id cfg (.reconnect cfg backoff opened) := by
  intro m hmem
  have hstep : step H m (.timer (.reconnect cfg backoff opened)) =
      dial H cfg (unregister cfg.channelId (expire (.reconnect cfg backoff opened) m)) := by
    rw [step, if_pos hmem, fire_reconnect, if_pos hknown]
  subst hid
  rw [hstep, dials_dial, find?_dial, if_pos rfl]
  exact ⟨rfl, _, rfl, rfl, rfl, rfl, rfl⟩

theorem DialsAgain.eq {id : ZceUint32} {cfg cfg' : FgwChannelConfig} {backoff opened : Nat}
    (h : DialsAgain H id cfg (.reconnect cfg' backoff opened)) (hid : cfg.channelId = id)
    (hid' : cfg'.channelId = id) : cfg' = cfg := by
  obtain ⟨hdials, chan, hfound, -, hremote, hkind, hpriority⟩ :=
    h (schedule (.reconnect cfg' backoff opened) init) List.mem_cons_self
  have hstep : step H (schedule (.reconnect cfg' backoff opened) init)
      (.timer (.reconnect cfg' backoff opened)) = fire H (.reconnect cfg' backoff opened)
        (expire (.reconnect cfg' backoff opened) (schedule (.reconnect cfg' backoff opened) init)) :=
    if_pos List.mem_cons_self
  rw [hstep, fire_reconnect] at hdials hfound
  split at hfound
  · rw [find?_dial, if_pos hid'.symm] at hfound
    obtain rfl := Option.some.inj hfound
    cases cfg
    cases cfg'
    simp only [dialedChannel] at hremote hkind hpriority hid hid'
    subst hremote hkind hpriority hid hid'
    rfl
  · rename_i hunknown
    rw [if_neg hunknown] at hdials
    exact absurd (congrArg List.length hdials) (by simp [unregister, expire, schedule])

theorem redialsAdded_iff {p : ManagerState × Added} (hnoted : Noted p.2) :
    RedialsAdded H p ↔ Names p.2 p.1 := by
  refine forall₂_congr fun id chan => forall₂_congr fun hfound hdialed => ?_
  rw [onChannelClosed_timers hdialed]
  constructor
  · rintro ⟨cfg, t, hadded, htimers, hagain⟩
    rw [List.append_cancel_left_eq, List.singleton_inj] at htimers
    obtain rfl := htimers
    rw [hadded, hagain.eq (hnoted id cfg hadded).1 (channelId_redialConfig _ id)]
  · intro hadded
    obtain ⟨hid, hknown⟩ := hnoted id _ hadded
    exact ⟨_, _, hadded, rfl, dialsAgain_reconnect hid hknown⟩

theorem firstKnown_cons (c : FgwChannelConfig) (cs : List FgwChannelConfig) (id : ZceUint32) :
    firstKnown (c :: cs) id =
      if c.channelId = id ∧ isKnownKind c.kind = true then some c else firstKnown cs id := by
  unfold firstKnown
  rw [List.find?_cons]
  by_cases hc : c.channelId = id ∧ isKnownKind c.kind = true
  · simp only [hc, decide_true, if_true, and_self]
  · simp only [hc, decide_false, if_false]

theorem addNoted_of_new {p : ManagerState × Added} {cfg : FgwChannelConfig}
    (hfree : p.1.channels.find? cfg.channelId = none) (hknown : isKnownKind cfg.kind = true) :
    addNoted H p cfg = (dial H cfg p.1, Function.update p.2 cfg.channelId (some cfg)) :=
  Prod.ext (addChannel_snd.trans (if_pos ⟨by rw [hfree]; rfl, hknown⟩)) (if_pos ⟨hfree, hknown⟩)

theorem addNoted_of_not_new {p : ManagerState × Added} {cfg : FgwChannelConfig}
    (hnot : ¬ (p.1.channels.find? cfg.channelId = none ∧ isKnownKind cfg.kind = true)) :
    addNoted H p cfg = p := by
  refine Prod.ext (addChannel_snd.trans (if_neg fun hnew => hnot ⟨?_, hnew.2⟩)) (if_neg hnot)
  exact Option.not_isSome_iff_eq_none.1 (by simp [hnew.1])

theorem config_foldl_addNoted (cs : List FgwChannelConfig) (p : ManagerState × Added) :
    (cs.foldl (addNoted H) p).1.config = p.1.config := by
  induction cs generalizing p with
  | nil => rfl
  | cons c cs ih =>
    have hkeep : (addNoted H p c).1.config = p.1.config :=
      addChannel_induction (P := fun m => m.config = p.1.config) rfl fun _ _ => rfl
    exact (ih _).trans hkeep

theorem foldl_addNoted_old (cs : List FgwChannelConfig) {p : ManagerState × Added} {id : ZceUint32}
    {chan : LinkChannel} (hfound : p.1.channels.find? id = some chan) :
    (cs.foldl (addNoted H) p).1.channels.find? id = some chan ∧
      (cs.foldl (addNoted H) p).2 id = p.2 id := by
  induction cs generalizing p with
  | nil => exact ⟨hfound, rfl⟩
  | cons c cs ih =>
    rw [List.foldl_cons]
    by_cases hnew : p.1.channels.find? c.channelId = none ∧ isKnownKind c.kind = true
    · have hne : id ≠ c.channelId := by
        rintro rfl
        rw [hnew.1] at hfound
        cases hfound
      rw [addNoted_of_new hnew.1 hnew.2]
      have hrest := ih (p := (dial H c p.1, Function.update p.2 c.channelId (some c)))
        (by rw [find?_dial, if_neg hne, hfound])
      dsimp only at hrest
      rwa [Function.update_of_ne hne] at hrest
    · rw [addNoted_of_not_new hnew]
      exact ih hfound

theorem foldl_addNoted_new (cs : List FgwChannelConfig) {p : ManagerState × Added} {id : ZceUint32}
    (hfree : p.1.channels.find? id = none) :
    (∀ chan, (cs.foldl (addNoted H) p).1.channels.find? id = some chan → chan.accepted = false ∧
      ∃ cfg, firstKnown cs id = some cfg ∧ (cs.foldl (addNoted H) p).2 id = some cfg) ∧
    ∀ cfg, firstKnown cs id = some cfg →
      ∃ chan, (cs.foldl (addNoted H) p).1.channels.find? id = some chan := by
  induction cs generalizing p with
  | nil =>
    refine ⟨fun chan hfound => ?_, fun cfg hfirst => nomatch hfirst⟩
    cases hfree.symm.trans hfound
  | cons c cs ih =>
    rw [List.foldl_cons, firstKnown_cons]
    by_cases hid : c.channelId = id ∧ isKnownKind c.kind = true
    · obtain ⟨rfl, hknown⟩ := hid
      rw [addNoted_of_new hfree hknown, if_pos ⟨rfl, hknown⟩]
      have hrest := foldl_addNoted_old (H := H) cs
        (p := (dial H c p.1, Function.update p.2 c.channelId (some c)))
        (find?_dial.trans (if_pos rfl))
      dsimp only at hrest
      rw [Function.update_self] at hrest
      refine ⟨fun chan hfound => ?_, fun cfg _ => ⟨_, hrest.1⟩⟩
      obtain rfl := Option.some.inj (hrest.1.symm.trans hfound)
      exact ⟨rfl, c, rfl, hrest.2⟩
    · rw [if_neg hid]
      refine ih ?_
      by_cases hnew : p.1.channels.find? c.channelId = none ∧ isKnownKind c.kind = true
      · rw [addNoted_of_new hnew.1 hnew.2, find?_dial, if_neg]
        · exact hfree
        · rintro rfl
          exact hid ⟨rfl, hnew.2⟩
      · rw [addNoted_of_not_new hnew]
        exact hfree

namespace Names

variable {added : Added} {m : ManagerState} {id : ZceUint32} {chan : LinkChannel}

theorem of_sameLinks {m' : ManagerState} (h : Names added m) (hsame : SameLinks m m') :
    Names added m' := by
  intro id chan hfound
  rw [hsame.channels] at hfound
  rw [hsame.config]
  exact h id chan hfound

theorem unregister (h : Names added m) (id : ZceUint32) : Names added (unregister id m) := by
  intro id' chan hfound
  rw [find?_unregister] at hfound
  split at hfound
  · cases hfound
  · exact h id' chan hfound

theorem setLink (h : Names added m) (hfound : m.channels.find? id = some chan) (state : LinkState) :
    Names added (setLink id chan state m) := by
  intro id' chan' hfound' hdialed
  have hfind := (SortedMap.find?_insert _ _ _ _).symm.trans hfound'
  split at hfind
  · rename_i heq
    obtain rfl := Option.some.inj hfind
    subst heq
    exact h id' chan hfound hdialed
  · exact h id' chan' hfind hdialed

theorem onChannelClosed (h : Names added m) (hfound : m.channels.find? id = some chan) :
    Names added (onChannelClosed id chan m) := by
  cases haccepted : chan.accepted with
  | true =>
    rw [onChannelClosed_accepted haccepted]
    exact h.setLink hfound .down
  | false =>
    rw [onChannelClosed_dialed haccepted]
    exact h.setLink hfound .down

theorem dial_iff {cfg : FgwChannelConfig}
    (h : ∀ id chan, id ≠ cfg.channelId → m.channels.find? id = some chan → chan.accepted = false →
      added id = some (redialConfig m.config id)) :
    Names added (dial H cfg m) ↔ added cfg.channelId = some (redialConfig m.config cfg.channelId) := by
  constructor
  · intro hnames
    exact hnames cfg.channelId (dialedChannel H cfg m) (find?_dial.trans (if_pos rfl)) rfl
  · intro hname id chan hfound hdialed
    rw [find?_dial] at hfound
    split at hfound
    · rename_i heq
      rw [heq]
      exact hname
    · rename_i hne
      exact h id chan hne hfound hdialed

theorem start_iff (config : FgwConfig) :
    Names (stepNoted H (m, added) (.start config)).2 (stepNoted H (m, added) (.start config)).1 ↔
      Agrees (m, added) (.start config) := by
  have hconfig : (stepNoted H (m, added) (.start config)).1.config = config :=
    config_foldl_addNoted config.channels (setConfig config m, added)
  constructor
  · intro hnames
    refine ⟨fun id chan hfound hdialed => ?_, fun id cfg hfree hfirst => ?_⟩
    · obtain ⟨hfound', hsame⟩ := foldl_addNoted_old (H := H) config.channels
        (p := (setConfig config m, added)) hfound
      have hname := hnames id chan hfound' hdialed
      rw [hconfig] at hname
      exact hsame.symm.trans hname
    · obtain ⟨hnew, hregistered⟩ := foldl_addNoted_new (H := H) config.channels
        (p := (setConfig config m, added)) hfree
      obtain ⟨chan, hfound⟩ := hregistered cfg hfirst
      obtain ⟨hdialed, cfg', hfirst', hcfg'⟩ := hnew chan hfound
      obtain rfl := Option.some.inj (hfirst.symm.trans hfirst')
      have hname := hnames id chan hfound hdialed
      rw [hconfig] at hname
      exact (Option.some.inj (hcfg'.symm.trans hname)).symm
  · rintro ⟨hold, hnew⟩ id chan hfound hdialed
    rw [hconfig]
    cases hwas : m.channels.find? id with
    | some chan' =>
      obtain ⟨hfound', hsame⟩ := foldl_addNoted_old (H := H) config.channels
        (p := (setConfig config m, added)) hwas
      obtain rfl := Option.some.inj (hfound'.symm.trans hfound)
      exact hsame.trans (hold id chan' hwas hdialed)
    | none =>
      obtain ⟨hregistered, -⟩ := foldl_addNoted_new (H := H) config.channels
        (p := (setConfig config m, added)) hwas
      obtain ⟨-, cfg, hfirst, hcfg⟩ := hregistered chan hfound
      rw [hnew id cfg hwas hfirst]
      exact hcfg

theorem add_iff (h : Names added m) (cfg : FgwChannelConfig) :
    Names (addNoted H (m, added) cfg).2 (addNoted H (m, added) cfg).1 ↔
      Agrees (m, added) (.addChannel cfg) := by
  by_cases hnew : m.channels.find? cfg.channelId = none ∧ isKnownKind cfg.kind = true
  · rw [addNoted_of_new hnew.1 hnew.2, dial_iff]
    · dsimp only
      rw [Function.update_self, Option.some_inj]
      exact ⟨fun heq _ _ => heq.symm, fun heq => (heq hnew.1 hnew.2).symm⟩
    · intro id chan hne hfound hdialed
      dsimp only
      rw [Function.update_of_ne hne]
      exact h id chan hfound hdialed
  · rw [addNoted_of_not_new hnew]
    exact ⟨fun _ hfree hknown => absurd ⟨hfree, hknown⟩ hnew, fun _ => h⟩

theorem timer_iff (h : Names added m) (cfg : FgwChannelConfig) (backoff opened : Nat) :
    Names added (step H m (.timer (.reconnect cfg backoff opened))) ↔
      Agrees (m, added) (.timer (.reconnect cfg backoff opened)) := by
  by_cases hmem : .reconnect cfg backoff opened ∈ m.timers
  · have hstep : step H m (.timer (.reconnect cfg backoff opened)) =
        fire H (.reconnect cfg backoff opened) (expire (.reconnect cfg backoff opened) m) :=
      if_pos hmem
    have hless : Names added
        (ChannelManager.unregister cfg.channelId (expire (.reconnect cfg backoff opened) m)) :=
      unregister (m := expire (.reconnect cfg backoff opened) m) h cfg.channelId
    rw [hstep, fire_reconnect]
    by_cases hknown : isKnownKind cfg.kind = true
    · rw [if_pos hknown, dial_iff fun id chan _ => hless id chan]
      exact ⟨fun heq _ _ => heq, fun heq => heq hmem hknown⟩
    · rw [if_neg hknown]
      exact ⟨fun _ _ hknown' => absurd hknown' hknown, fun _ => hless⟩
  · have hstep : step H m (.timer (.reconnect cfg backoff opened)) = m := if_neg hmem
    rw [hstep]
    exact ⟨fun _ hmem' => absurd hmem' hmem, fun _ => h⟩

theorem step (h : Names added m) {op : Op} (hstart : ∀ config, op ≠ .start config)
    (hadd : ∀ cfg, op ≠ .addChannel cfg)
    (htimer : ∀ cfg backoff opened, op ≠ .timer (.reconnect cfg backoff opened)) :
    Names added (step H m op) := by
  refine step_induction ?same h ?start ?stop ?add ?remove ?listener ?accept ?connected ?closed ?timer
  case same => exact fun m m' hsame hm => hm.of_sameLinks hsame
  case start => exact fun config hop => absurd hop (hstart config)
  case stop => exact fun _ id chan hfound => (nomatch hfound)
  case add => exact fun cfg hop _ _ => absurd hop (hadd cfg)
  case remove => exact fun id _ => h.unregister id
  case listener => exact fun _ _ => h
  case accept =>
    intro _ _ id chan hfound hdialed
    have hfind := (SortedMap.find?_insert _ _ _ _).symm.trans hfound
    split at hfind
    · obtain rfl := Option.some.inj hfind
      cases hdialed
    · exact h id chan hfind hdialed
  case connected => exact fun id chan _ hfound _ => h.setLink hfound .up
  case closed => exact fun id chan _ hfound _ => h.onChannelClosed hfound
  case timer =>
    intro t hop _
    cases t with
    | remove id =>
      rw [fire_remove]
      exact Names.unregister (m := expire (.remove id) m) h id
    | reconnect cfg backoff opened => exact absurd hop (htimer cfg backoff opened)

theorem step_iff (h : Names added m) (op : Op) :
    Names (stepNoted H (m, added) op).2 (stepNoted H (m, added) op).1 ↔ Agrees (m, added) op := by
  cases op with
  | start config => exact start_iff config
  | addChannel cfg => exact h.add_iff cfg
  | timer t =>
    cases t with
    | reconnect cfg backoff opened => exact h.timer_iff cfg backoff opened
    | remove id => exact iff_of_true (h.step nofun nofun nofun) trivial
  | _ => exact iff_of_true (h.step nofun nofun nofun) trivial

theorem run_iff {p : ManagerState × Added} (h : Names p.2 p.1) (hnoted : Noted p.2)
    (ops : List Op) :
    (∀ pre, pre <+: ops → RedialsAdded H (runNoted H p pre)) ↔ AllAgree H p ops := by
  induction ops generalizing p with
  | nil =>
    refine iff_of_true (fun pre hpre => ?_) trivial
    rw [List.prefix_nil.1 hpre]
    exact (redialsAdded_iff hnoted).2 h
  | cons op ops ih =>
    have hnoted' : Noted (ChannelManager.stepNoted H p op).2 := hnoted.stepNoted op
    constructor
    · intro halways
      have hnext := (redialsAdded_iff hnoted').1 (halways [op] (List.prefix_append [op] ops))
      refine ⟨(h.step_iff op).1 hnext, (ih hnext hnoted').1 fun pre hpre => ?_⟩
      exact halways (op :: pre) (List.cons_prefix_cons.2 ⟨rfl, hpre⟩)
    · rintro ⟨hop, hops⟩ pre hpre
      rcases List.prefix_cons_iff.1 hpre with rfl | ⟨pre', rfl, hpre'⟩
      · exact (redialsAdded_iff hnoted).2 h
      · exact (ih ((h.step_iff op).2 hop) hnoted').2 hops pre' hpre'

end Names

end ChannelManager

open ChannelManager in
/-- At every point of a run the redial of a dropped link dials the endpoint, with the kind and the
priority, that its id was last added with, exactly when every step that registers a dialed channel
finds them in the manager's own configuration. -/
theorem redialed_where_added_iff (H : Host) (ops : List ChannelManager.Op) :
    (∀ pre, pre <+: ops → RedialsAdded H (runNoted H (init, fun _ => none) pre)) ↔
      AllAgree H (init, fun _ => none) ops := by
  have hinit : Names (fun _ => none) init := fun id chan hfound => (nomatch hfound)
  have hnone : Noted fun _ => none := fun id cfg hadded => (nomatch hadded)
  exact hinit.run_iff hnone ops

def runtimeLink : ManagerState × ChannelManager.Added :=
  ChannelManager.runNoted (Host.reusing fun _ => 0) (ChannelManager.init, fun _ => none)
    [.start {}, .addChannel { channelId := 7#32, remote := ⟨[], 9000#16⟩ }, .connected 7#32]

theorem runtime_link_redialed_elsewhere :
    ¬ ChannelManager.RedialsAdded (Host.reusing fun _ => 0) runtimeLink := by
  intro hredials
  have hfound : runtimeLink.1.channels.find? 7#32 =
      some { ref := 1, remote := ⟨[], 9000#16⟩, state := .up, opened := 0 } := by decide +kernel
  obtain ⟨cfg, t, hadded, htimers, hagain⟩ := hredials 7#32 _ hfound rfl
  have hcfg : runtimeLink.2 7#32 = some { channelId := 7#32, remote := ⟨[], 9000#16⟩ } := by
    decide +kernel
  obtain rfl := Option.some.inj (hcfg.symm.trans hadded)
  rw [ChannelManager.onChannelClosed_timers rfl, List.append_cancel_left_eq,
    List.singleton_inj] at htimers
  obtain rfl := htimers
  exact absurd (hagain.eq rfl (ChannelManager.channelId_redialConfig _ _)) (by decide +kernel)

end Libfgw
