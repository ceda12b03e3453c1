import Libfgw.Manager.Laws
import Libfgw.Transit.Tables

namespace Libfgw

open Lib

namespace ChannelManager

variable {H : Host} {m : ManagerState} {id : ZceUint32}

def StartsDial : Timer → Prop
  | .remove _ => False
  | .reconnect cfg _ _ => isKnownKind cfg.kind = true

def AsksFor (id : ZceUint32) (m : ManagerState) : Op → Prop
  | .start _ => True
  | .addChannel cfg => cfg.channelId = id
  | .accept => m.acceptedIdSeq = id
  | _ => False

def Unasked (H : Host) (id : ZceUint32) : ManagerState → List Op → Prop
  | _, [] => True
  | m, op :: ops => ¬ AsksFor id m op ∧ Unasked H id (step H m op) ops

def Revives : Op → Prop
  | .start _ => True
  | .addChannel _ => True
  | .startLinkListener _ => True
  | _ => False

def dialsOf (id : ZceUint32) (m : ManagerState) : List Dial :=
  m.dials.filter (fun d => d.channelId = id)

/-- When a removal has succeeded, the id is neither registered nor dialed until it is asked
for, and a redial of a channel from before leaves what is registered under the id alone. -/
def RemovalFinal (H : Host) (m : ManagerState) (id : ZceUint32) : Prop :=
  (removeChannel id m).1 = 0 → ∀ ops, let m' := run H (removeChannel id m).2 ops
    (Unasked H id (removeChannel id m).2 ops →
      m'.channels.find? id = none ∧ dialsOf id m' = dialsOf id m) ∧
    ∀ cfg backoff opened, .reconnect cfg backoff opened ∈ m'.timers → cfg.channelId = id →
      opened < m.clock →
      (step H m' (.timer (.reconnect cfg backoff opened))).channels.find? id = m'.channels.find? id

/-- Nothing is registered or dialed after a stop until it is asked for. -/
def StopFinal (H : Host) (m : ManagerState) : Prop :=
  ∀ ops, (∀ op ∈ ops, ¬ Revives op) →
    (run H (stop m) ops).channels = SortedMap.empty ∧ (run H (stop m) ops).dials = m.dials

structure Gone (id : ZceUint32) (dialed : List Dial) (m : ManagerState) : Prop where
  unregistered : m.channels.find? id = none
  timers : ∀ t ∈ m.timers, ¬ Timer.Redials id t
  dials : dialsOf id m = dialed

namespace Gone

variable {dialed : List Dial} {cfg : FgwChannelConfig} {id' : ZceUint32} {chan : LinkChannel}

theorem of_sameLinks {m' : ManagerState} (h : Gone id dialed m) (hsame : SameLinks m m') :
    Gone id dialed m' where
  unregistered := by
    rw [hsame.channels]
    exact h.unregistered
  timers := by
    rw [hsame.timers]
    exact h.timers
  dials := by
    rw [dialsOf, hsame.dials]
    exact h.dials

theorem dial (h : Gone id dialed m) (hne : cfg.channelId ≠ id) : Gone id dialed (dial H cfg m) where
  unregistered := by
    rw [find?_dial, if_neg hne.symm]
    exact h.unregistered
  timers := h.timers
  dials := by
    have hfilter : [(⟨cfg.channelId, cfg.remote, connect H cfg m.clock⟩ : Dial)].filter
        (fun d => d.channelId = id) = [] := by simp [hne]
    rw [dialsOf, dials_dial, List.filter_append, hfilter, List.append_nil]
    exact h.dials

theorem unregister (h : Gone id dialed m) : Gone id dialed (unregister id' m) where
  unregistered := by
    rw [find?_unregister, h.unregistered, ite_self]
  timers := h.timers
  dials := h.dials

theorem setLink (h : Gone id dialed m) (hfound : m.channels.find? id' = some chan)
    (state : LinkState) : Gone id dialed (setLink id' chan state m) where
  unregistered := by
    refine (SortedMap.find?_insert _ _ _ _).trans ?_
    rw [if_neg, h.unregistered]
    rintro rfl
    rw [h.unregistered] at hfound
    cases hfound
  timers := h.timers
  dials := h.dials

theorem schedule (h : Gone id dialed m) {t : Timer} (ht : ¬ Timer.Redials id t) :
    Gone id dialed (schedule t m) where
  unregistered := h.unregistered
  timers := List.forall_mem_append.2 ⟨h.timers, List.forall_mem_singleton.2 ht⟩
  dials := h.dials

theorem expire (h : Gone id dialed m) (t : Timer) :
    Gone id dialed (expire t m) where
  unregistered := h.unregistered
  timers := fun t' ht' => h.timers t' (List.mem_of_mem_erase ht')
  dials := h.dials

theorem onChannelClosed (h : Gone id dialed m) (hfound : m.channels.find? id' = some chan) :
    Gone id dialed (onChannelClosed id' chan m) := by
  have hne : id' ≠ id := by
    rintro rfl
    rw [h.unregistered] at hfound
    cases hfound
  cases haccepted : chan.accepted with
  | true =>
    rw [onChannelClosed_accepted haccepted]
    exact (h.setLink hfound _).schedule (fun hredials => hredials)
  | false =>
    rw [onChannelClosed_dialed haccepted]
    refine (h.setLink hfound _).schedule fun hredials => hne ?_
    rwa [Timer.Redials, channelId_redialConfig] at hredials

theorem fire (h : Gone id dialed m) {t : Timer} (ht : ¬ Timer.Redials id t) :
    Gone id dialed (fire H t m) := by
  cases t with
  | remove id' =>
    rw [fire_remove]
    exact h.unregister
  | reconnect cfg backoff opened =>
    rw [fire_reconnect]
    split
    · exact h.unregister.dial ht
    · exact h.unregister

theorem step (h : Gone id dialed m) {op : Op} (hop : ¬ AsksFor id m op) :
    Gone id dialed (step H m op) := by
  refine step_induction ?same h ?start ?stop ?add ?remove ?listener ?accept ?connected ?closed ?timer
  case same => exact fun m m' hsame hm => hm.of_sameLinks hsame
  case start =>
    rintro config rfl
    exact absurd trivial hop
  case stop => exact fun _ => ⟨rfl, h.timers, h.dials⟩
  case add =>
    rintro cfg rfl - -
    exact h.dial hop
  case remove => exact fun id' _ => h.unregister
  case listener => exact fun _ _ => ⟨h.unregistered, h.timers, h.dials⟩
  case accept =>
    rintro rfl -
    refine ⟨(SortedMap.find?_insert _ _ _ _).trans ?_, h.timers, h.dials⟩
    rw [if_neg (fun heq => hop heq.symm), h.unregistered]
  case connected => exact fun id' chan _ hfound _ => h.setLink hfound .up
  case closed => exact fun id' chan _ hfound _ => h.onChannelClosed hfound
  case timer => exact fun t _ hmem => (h.expire t).fire (h.timers t hmem)

theorem run (h : Gone id dialed m) {ops : List Op} (hops : Unasked H id m ops) :
    Gone id dialed (run H m ops) := by
  induction ops generalizing m with
  | nil => exact h
  | cons op ops ih => exact ih (h.step hops.1) hops.2

end Gone

/-- What is registered under an id, and its pending redials, are of channels opened from some
point on. -/
structure Spans (id : ZceUint32) (since : Nat) (m : ManagerState) : Prop where
  clock : since ≤ m.clock
  entry : ∀ chan, m.channels.find? id = some chan → since ≤ chan.opened ∧ chan.opened < m.clock
  timers : ∀ cfg backoff opened, .reconnect cfg backoff opened ∈ m.timers → cfg.channelId = id →
    since ≤ opened ∧ opened < m.clock

namespace Spans

variable {since : Nat} {cfg : FgwChannelConfig} {id' : ZceUint32} {chan : LinkChannel}

theorem init (id : ZceUint32) : Spans id 0 init where
  clock := Nat.zero_le _
  entry := by
    intro chan hfound
    cases hfound
  timers := by
    intro cfg backoff opened hmem
    cases hmem

theorem of_sameLinks {m' : ManagerState} (h : Spans id since m) (hsame : SameLinks m m') :
    Spans id since m' where
  clock := by
    rw [hsame.clock]
    exact h.clock
  entry := by
    rw [hsame.channels, hsame.clock]
    exact h.entry
  timers := by
    rw [hsame.timers, hsame.clock]
    exact h.timers

theorem register (h : Spans id since m) (hchan : chan.opened = m.clock) {m' : ManagerState}
    (hchannels : m'.channels = m.channels.insert id' chan) (hclock : m'.clock = m.clock + 1)
    (htimers : m'.timers = m.timers) : Spans id since m' where
  clock := by
    have := h.clock
    omega
  entry := by
    intro chan' hfound
    rw [hchannels, SortedMap.find?_insert] at hfound
    split at hfound
    · obtain rfl := Option.some.inj hfound
      have := h.clock
      omega
    · have := h.entry chan' hfound
      omega
  timers := by
    intro cfg backoff opened hmem hid
    rw [htimers] at hmem
    have := h.timers cfg backoff opened hmem hid
    omega

theorem dial (h : Spans id since m) : Spans id since (dial H cfg m) := h.register rfl rfl rfl rfl

theorem unregister (h : Spans id since m) : Spans id since (unregister id' m) where
  clock := h.clock
  entry := by
    intro chan hfound
    rw [find?_unregister] at hfound
    split at hfound
    · cases hfound
    · exact h.entry chan hfound
  timers := h.timers

theorem setLink (h : Spans id since m) (hfound : m.channels.find? id' = some chan)
    (state : LinkState) : Spans id since (setLink id' chan state m) where
  clock := h.clock
  entry := by
    intro chan' hfound'
    have hfind := (SortedMap.find?_insert _ _ _ _).symm.trans hfound'
    split at hfind
    · rename_i heq
      subst heq
      obtain rfl := Option.some.inj hfind
      exact h.entry chan hfound
    · exact h.entry chan' hfind
  timers := h.timers

theorem onChannelClosed (h : Spans id since m) (hfound : m.channels.find? id' = some chan) :
    Spans id since (onChannelClosed id' chan m) := by
  have hset := h.setLink hfound .down
  cases haccepted : chan.accepted with
  | true =>
    rw [onChannelClosed_accepted haccepted]
    refine ⟨hset.clock, hset.entry, fun cfg backoff opened hmem => hset.timers cfg backoff opened ?_⟩
    simpa [schedule] using hmem
  | false =>
    rw [onChannelClosed_dialed haccepted]
    refine ⟨hset.clock, hset.entry, fun cfg backoff opened hmem hid => ?_⟩
    rcases List.mem_append.1 hmem with hmem | hmem
    · exact hset.timers cfg backoff opened hmem hid
    · obtain ⟨hcfg, -, hopened⟩ := Timer.reconnect.inj (List.mem_singleton.1 hmem)
      rw [hcfg, channelId_redialConfig] at hid
      subst hid hopened
      exact h.entry chan hfound

theorem fire (h : Spans id since m) (t : Timer) : Spans id since (fire H t m) := by
  cases t with
  | remove id' =>
    rw [fire_remove]
    exact h.unregister
  | reconnect cfg backoff opened =>
    rw [fire_reconnect]
    split
    · exact h.unregister.dial
    · exact h.unregister

theorem step (h : Spans id since m) (op : Op) : Spans id since (step H m op) := by
  refine step_induction ?same h ?start ?stop ?add ?remove ?listener ?accept ?connected ?closed ?timer
  case same => exact fun m m' hsame hm => hm.of_sameLinks hsame
  case start =>
    intro config _
    exact start_induction ⟨h.clock, h.entry, h.timers⟩
      (fun c _ m hm => addChannel_induction hm fun _ _ => hm.dial)
      (fun m hm => ⟨hm.clock, hm.entry, hm.timers⟩)
  case stop => exact fun _ => ⟨h.clock, fun chan hfound => (nomatch hfound), h.timers⟩
  case add => exact fun cfg _ _ _ => h.dial
  case remove => exact fun id' _ => h.unregister
  case listener => exact fun _ _ => ⟨h.clock, h.entry, h.timers⟩
  case accept => exact fun _ _ => h.register rfl rfl rfl rfl
  case connected => exact fun id' chan _ hfound _ => h.setLink hfound .up
  case closed => exact fun id' chan _ hfound _ => h.onChannelClosed hfound
  case timer =>
    intro t _ _
    have hless : Spans id since (expire t m) :=
      ⟨h.clock, h.entry, fun cfg backoff opened hmem =>
        h.timers cfg backoff opened (List.mem_of_mem_erase hmem)⟩
    exact hless.fire t

theorem run (h : Spans id since m) (ops : List Op) : Spans id since (run H m ops) := by
  induction ops generalizing m with
  | nil => exact h
  | cons op ops ih => exact ih (h.step op)

end Spans

structure Stopped (dialed : List Dial) (m : ManagerState) : Prop where
  channels : m.channels = SortedMap.empty
  linkAcceptor : m.linkAcceptor = false
  timers : ∀ t ∈ m.timers, ¬ StartsDial t
  dials : m.dials = dialed

namespace Stopped

variable {dialed : List Dial}

theorem of_sameLinks {m' : ManagerState} (h : Stopped dialed m) (hsame : SameLinks m m') :
    Stopped dialed m' where
  channels := hsame.channels.trans h.channels
  linkAcceptor := hsame.linkAcceptor.trans h.linkAcceptor
  timers := by
    rw [hsame.timers]
    exact h.timers
  dials := hsame.dials.trans h.dials

theorem unregister (h : Stopped dialed m) (id : ZceUint32) : Stopped dialed (unregister id m) where
  channels := by
    rw [ChannelManager.unregister, h.channels]
    rfl
  linkAcceptor := h.linkAcceptor
  timers := h.timers
  dials := h.dials

theorem not_found (h : Stopped dialed m) {id : ZceUint32} {chan : LinkChannel} :
    m.channels.find? id ≠ some chan := by
  rw [h.channels]
  exact nofun

theorem step (h : Stopped dialed m) {op : Op} (hop : ¬ Revives op) : Stopped dialed (step H m op) := by
  refine step_induction ?same h ?start ?stop ?add ?remove ?listener ?accept ?connected ?closed ?timer
  case same => exact fun m m' hsame hm => hm.of_sameLinks hsame
  case start =>
    rintro config rfl
    exact absurd trivial hop
  case stop => exact fun _ => ⟨rfl, rfl, h.timers, h.dials⟩
  case add =>
    rintro cfg rfl
    exact absurd trivial hop
  case remove => exact fun id _ => h.unregister id
  case listener =>
    rintro ret rfl
    exact absurd trivial hop
  case accept =>
    intro _ hlistening
    rw [h.linkAcceptor] at hlistening
    cases hlistening
  case connected => exact fun id chan _ hfound _ => absurd hfound h.not_found
  case closed => exact fun id chan _ hfound _ => absurd hfound h.not_found
  case timer =>
    intro t _ hmem
    have hless : Stopped dialed (expire t m) :=
      ⟨h.channels, h.linkAcceptor, fun t' ht' => h.timers t' (List.mem_of_mem_erase ht'), h.dials⟩
    cases t with
    | remove id =>
      rw [fire_remove]
      exact hless.unregister id
    | reconnect cfg backoff opened =>
      have hunknown : ¬ isKnownKind cfg.kind = true := h.timers _ hmem
      rw [fire_reconnect, if_neg hunknown]
      exact hless.unregister cfg.channelId

theorem run (h : Stopped dialed m) {ops : List Op} (hops : ∀ op ∈ ops, ¬ Revives op) :
    Stopped dialed (run H m ops) := by
  induction ops generalizing m with
  | nil => exact h
  | cons op ops ih =>
    obtain ⟨hop, hops⟩ := List.forall_mem_cons.1 hops
    exact ih (h.step hop) hops

end Stopped

theorem isSome_find?_step_reconnect {cfg : FgwChannelConfig} {backoff opened : Nat}
    (hmem : .reconnect cfg backoff opened ∈ m.timers) :
    ((step H m (.timer (.reconnect cfg backoff opened))).channels.find? cfg.channelId).isSome =
      isKnownKind cfg.kind := by
  have hstep : step H m (.timer (.reconnect cfg backoff opened)) =
      fire H (.reconnect cfg backoff opened) (expire (.reconnect cfg backoff opened) m) :=
    if_pos hmem
  rw [hstep, fire_reconnect]
  by_cases hknown : isKnownKind cfg.kind = true
  · rw [if_pos hknown, find?_dial, if_pos rfl, hknown, Option.isSome_some]
  · rw [if_neg hknown, find?_unregister, if_pos rfl, Option.isSome_none, Bool.eq_false_iff.2 hknown]

theorem removalFinal_iff (hspan : Spans id 0 m) :
    RemovalFinal H m id ↔ m.channels.find? id = none ∨ ∀ t ∈ m.timers, ¬ Timer.Redials id t := by
  constructor
  · intro hfinal
    by_cases hfound : m.channels.find? id = none
    · exact Or.inl hfound
    · refine Or.inr fun t ht hredials => ?_
      have hok : (removeChannel id m).1 = 0 :=
        removeChannel_fst_eq_zero.2 (Option.isSome_iff_ne_none.2 hfound)
      cases t with
      | remove id' => exact hredials
      | reconnect cfg backoff opened =>
        obtain rfl : cfg.channelId = id := hredials
        have hfired := fun ops => (hfinal hok ops).2 cfg backoff opened
        rw [removeChannel_snd] at hfired
        have hold := (hspan.timers cfg backoff opened ht rfl).2
        have hfree : (unregister cfg.channelId m).channels.find? cfg.channelId = none := by
          rw [find?_unregister, if_pos rfl]
        have hnow := isSome_find?_step_reconnect (H := H) (m := unregister cfg.channelId m) ht
        have hsame : (step H (unregister cfg.channelId m)
            (.timer (.reconnect cfg backoff opened))).channels.find? cfg.channelId =
          (unregister cfg.channelId m).channels.find? cfg.channelId := hfired [] ht rfl hold
        rw [hsame, hfree] at hnow
        -- The redial cannot dial, so it would remove a channel that has been added meanwhile.
        have hnew : step H (unregister cfg.channelId m) (.addChannel { channelId := cfg.channelId }) =
            dial H { channelId := cfg.channelId } (unregister cfg.channelId m) :=
          addChannel_snd.trans (if_pos ⟨by rw [hfree]; rfl, rfl⟩)
        have hlater := hfired [.addChannel { channelId := cfg.channelId }]
        rw [run_cons, run_nil, hnew] at hlater
        have hgone := isSome_find?_step_reconnect (H := H)
          (m := dial H { channelId := cfg.channelId } (unregister cfg.channelId m)) ht
        rw [hlater ht rfl hold, find?_dial, if_pos rfl, ← hnow] at hgone
        cases hgone
  · rintro hcond hok ops
    have htimers : ∀ t ∈ m.timers, ¬ Timer.Redials id t := by
      refine hcond.resolve_left fun hnone => ?_
      rw [removeChannel_fst_eq_zero, hnone] at hok
      cases hok
    rw [removeChannel_snd]
    have hgone : Gone id (dialsOf id m) (unregister id m) :=
      ⟨by rw [find?_unregister, if_pos rfl], htimers, rfl⟩
    have hsince : Spans id m.clock (unregister id m) := by
      refine ⟨le_refl _, ?_, fun cfg backoff opened hmem hid => absurd hid (htimers _ hmem)⟩
      intro chan hfound
      rw [find?_unregister, if_pos rfl] at hfound
      cases hfound
    refine ⟨fun hunasked => ?_, fun cfg backoff opened hmem hid hold => ?_⟩
    · exact ⟨(hgone.run hunasked).unregistered, (hgone.run hunasked).dials⟩
    · have hnew := ((hsince.run ops).timers cfg backoff opened hmem hid).1
      omega

theorem stopFinal_iff : StopFinal H m ↔ ∀ t ∈ m.timers, ¬ StartsDial t := by
  constructor
  · intro hfinal t ht hdials
    cases t with
    | remove id => exact hdials
    | reconnect cfg backoff opened =>
      have hempty := (hfinal [.timer (.reconnect cfg backoff opened)]
        (List.forall_mem_singleton.2 (fun h => h))).1
      have hfound := isSome_find?_step_reconnect (H := H) (m := stop m) ht
      rw [run_cons, run_nil] at hempty
      have hknown : isKnownKind cfg.kind = true := hdials
      rw [hempty, hknown] at hfound
      cases hfound
  · intro htimers ops hops
    have hstopped : Stopped m.dials (stop m) := ⟨rfl, rfl, htimers, rfl⟩
    exact ⟨(hstopped.run hops).channels, (hstopped.run hops).dials⟩

end ChannelManager

namespace TransitService

variable {S : TransitSetting} {ts : TransitService}

def Revives : Op → Prop
  | .accept _ => True
  | .dial _ _ _ => True
  | _ => False

/-- No link is registered, and so none is dialed, after a stop until links are asked for. -/
def StopFinal (S : TransitSetting) (ts : TransitService) : Prop :=
  ∀ ops, (∀ op ∈ ops, ¬ Revives op) → (run S (stop ts) ops).links = SortedMap.empty

structure Stopped (S : TransitSetting) (ts : TransitService) : Prop where
  links : ts.links = SortedMap.empty
  redialing : ∀ id ∈ ts.redialing, S.channels.find? (fun c => c.channelId = id) = none

namespace Stopped

theorem not_found (h : Stopped S ts) (ref : ChannelRef) : ts.links.find? ref = none := by
  rw [h.links]
  rfl

theorem setConnected (h : Stopped S ts) (ref : ChannelRef) (connected : Bool) :
    setConnected ref connected ts = ts := by
  unfold TransitService.setConnected
  rw [h.not_found]

theorem step (h : Stopped S ts) {op : Op} (hop : ¬ Revives op) : Stopped S (step S ts op) := by
  cases op with
  | accept ref => exact absurd trivial hop
  | dial ccfg ref ret => exact absurd trivial hop
  | connected ref =>
    change Stopped S (TransitService.setConnected ref true ts)
    rw [h.setConnected]
    exact h
  | bytes ref buf =>
    have hsame : onLinkBytes S ref buf ts = ts := by
      unfold onLinkBytes
      rw [h.not_found]
    change Stopped S (onLinkBytes S ref buf ts)
    rw [hsame]
    exact h
  | closed ref =>
    change Stopped S (onLinkClosed ref ts)
    unfold onLinkClosed
    rw [h.setConnected]
    exact ⟨h.links, h.redialing⟩
  | removeClosed ref =>
    simp only [TransitService.step]
    split
    · unfold removeClosed
      dsimp only
      rw [h.not_found]
      exact ⟨h.links, h.redialing⟩
    · exact h
  | redial outportId ref ret =>
    simp only [TransitService.step]
    split
    · rename_i hpending
      unfold redial
      dsimp only
      rw [h.redialing outportId hpending.1]
      exact ⟨h.links, fun id hid => h.redialing id (List.mem_of_mem_erase hid)⟩
    · exact h
  | heartbeat =>
    have hsame : onHeartbeatTick S ts = ts := by
      unfold onHeartbeatTick
      rw [h.links]
      rfl
    change Stopped S (onHeartbeatTick S ts)
    rw [hsame]
    exact h
  | stop => exact ⟨rfl, h.redialing⟩

theorem run (h : Stopped S ts) {ops : List Op} (hops : ∀ op ∈ ops, ¬ Revives op) :
    Stopped S (run S ts ops) := by
  induction ops generalizing ts with
  | nil => exact h
  | cons op ops ih =>
    obtain ⟨hop, hops⟩ := List.forall_mem_cons.1 hops
    exact ih (h.step hop) hops

end Stopped

theorem stopFinal_iff : StopFinal S ts ↔
    ∀ id ∈ ts.redialing, S.channels.find? (fun c => c.channelId = id) = none := by
  constructor
  · intro hfinal id hid
    by_contra hsome
    obtain ⟨ccfg, hccfg⟩ := Option.ne_none_iff_exists'.1 hsome
    have hempty := hfinal [.redial id 0 0] (List.forall_mem_singleton.2 (fun h => h))
    have hpending : id ∈ (stop ts).redialing ∧ (stop ts).unused 0 := ⟨hid, rfl⟩
    have hstep : run S (stop ts) [.redial id 0 0] = redial S id 0 0 (stop ts) := if_pos hpending
    have hdial : redial S id 0 0 (stop ts) =
        dialOneOutport ccfg 0 0 { stop ts with redialing := (stop ts).redialing.erase id } := by
      unfold redial
      dsimp only
      rw [hccfg]
    have hfound : (dialOneOutport ccfg 0 0
        { stop ts with redialing := (stop ts).redialing.erase id }).links.find? 0 ≠ none := by
      rw [find?_dialOneOutport, if_pos rfl]
      exact Option.some_ne_none _
    rw [← hdial, ← hstep, hempty] at hfound
    exact hfound rfl
  · intro hredialing ops hops
    have hstopped : Stopped S (stop ts) := ⟨rfl, hredialing⟩
    exact (hstopped.run hops).links

end TransitService

open ChannelManager in
/-- In every state that a manager or a transit reaches, a removal is final exactly when no redial
of the id is pending, and a stop exactly when no pending redial could dial. -/
theorem removal_final_iff (H : Host) (ops : List ChannelManager.Op) (S : TransitSetting)
    (ts : TransitService) :
    (∀ id, RemovalFinal H (run H init ops) id ↔ (run H init ops).channels.find? id = none ∨
      ∀ t ∈ (run H init ops).timers, ¬ Timer.Redials id t) ∧
    (StopFinal H (run H init ops) ↔ ∀ t ∈ (run H init ops).timers, ¬ StartsDial t) ∧
    (TransitService.StopFinal S ts ↔
      ∀ id ∈ ts.redialing, S.channels.find? (fun c => c.channelId = id) = none) :=
  ⟨fun id => removalFinal_iff ((Spans.init id).run ops), stopFinal_iff, TransitService.stopFinal_iff⟩

def droppedLink : ManagerState :=
  ChannelManager.run (Host.reusing fun _ => 0) ChannelManager.init
    [.start { channels := [{ channelId := 7#32, remote := ⟨[], 9000#16⟩ }] },
      .connected 7#32, .closed 7#32]

theorem removal_not_final :
    ¬ ChannelManager.RemovalFinal (Host.reusing fun _ => 0) droppedLink 7#32 ∧
      ¬ ChannelManager.StopFinal (Host.reusing fun _ => 0) droppedLink := by
  have htimers : droppedLink.timers =
      [.reconnect { channelId := 7#32, remote := ⟨[], 9000#16⟩ } 60 0] := by decide +kernel
  refine ⟨fun hfinal => ?_, fun hfinal => ?_⟩
  · have hgone := ((hfinal (by decide +kernel)
      [.timer (.reconnect { channelId := 7#32, remote := ⟨[], 9000#16⟩ } 60 0)]).1
      ⟨fun h => h, trivial⟩).1
    exact absurd hgone (by decide +kernel)
  · have hdials := (hfinal [.timer (.reconnect { channelId := 7#32, remote := ⟨[], 9000#16⟩ } 60 0)]
      (List.forall_mem_singleton.2 (fun h => h))).2
    exact absurd hdials (by decide +kernel)

end Libfgw
