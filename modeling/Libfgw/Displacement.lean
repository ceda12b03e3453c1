import Libfgw.Lib.EachAfter
import Libfgw.Manager.Laws

namespace Libfgw

open Lib

namespace ChannelManager

abbrev Owned := ManagerState × List (Timer × Nat)

def closingTimer (config : FgwConfig) (id : ZceUint32) (chan : LinkChannel) : Timer :=
  if chan.accepted then .remove id
  else .reconnect (redialConfig config id) (reconnectBackoff config) chan.opened

def stepOwned (H : Host) (p : Owned) (op : Op) : Owned :=
  (step H p.1 op,
    match op with
    | .closed id =>
      match p.1.channels.find? id with
      | none => p.2
      | some chan =>
        if chan.state = .down then p.2
        else p.2 ++ [(closingTimer p.1.config id chan, chan.opened)]
    | .timer t => p.2.eraseP (fun q => q.1 = t)
    | _ => p.2)

def runOwned (H : Host) (p : Owned) (ops : List Op) : Owned := ops.foldl (stepOwned H) p

/-- An accepted connection takes the entry of another channel, or a timer fires while the entry of
its id is another channel than the one that it was scheduled for. -/
def Displaces (p : Owned) : Op → Prop
  | .accept => p.1.linkAcceptor = true ∧ (p.1.channels.find? p.1.acceptedIdSeq).isSome = true
  | .timer t =>
    ∃ q chan, p.2.find? (fun q => q.1 = t) = some q ∧
      p.1.channels.find? t.channelId = some chan ∧ chan.opened ≠ q.2
  | _ => False

def AcceptFree (m : ManagerState) : Op → Prop
  | .accept => m.linkAcceptor = true → m.channels.find? m.acceptedIdSeq = none
  | _ => True

def Op.Ordinary : Op → Prop
  | .start _ | .stop | .removeChannel _ => False
  | _ => True

/-- Each pending timer belongs to the closed channel that has its id, and to no other timer's. -/
structure Attributed (p : Owned) : Prop where
  timers : p.2.map Prod.fst = p.1.timers
  ids : (p.2.map fun q => q.1.channelId).Nodup
  entry : ∀ q ∈ p.2, ∃ chan, p.1.channels.find? q.1.channelId = some chan ∧ chan.opened = q.2 ∧
    chan.state = .down

variable {H : Host} {p : Owned} {m : ManagerState}

theorem closingTimer_channelId (config : FgwConfig) (id : ZceUint32) (chan : LinkChannel) :
    (closingTimer config id chan).channelId = id := by
  unfold closingTimer
  split
  · rfl
  · exact channelId_redialConfig config id

theorem onChannelClosed_eq (id : ZceUint32) (chan : LinkChannel) (m : ManagerState) :
    onChannelClosed id chan m = schedule (closingTimer m.config id chan) (setLink id chan .down m) := by
  unfold closingTimer
  cases haccepted : chan.accepted with
  | true => exact onChannelClosed_accepted haccepted
  | false => exact onChannelClosed_dialed haccepted

theorem find?_setLink (id id' : ZceUint32) (chan : LinkChannel) (state : LinkState) (m : ManagerState) :
    (setLink id chan state m).channels.find? id' =
      if id' = id then some { chan with state := state } else m.channels.find? id' :=
  SortedMap.find?_insert _ _ _ _

theorem fire_timers (t : Timer) (m : ManagerState) : (fire H t m).timers = m.timers := by
  cases t with
  | remove id =>
    rw [fire_remove]
    rfl
  | reconnect cfg backoff opened =>
    rw [fire_reconnect]
    split <;> rfl

theorem find?_fire_of_ne {t : Timer} {id : ZceUint32} (h : id ≠ t.channelId) (m : ManagerState) :
    (fire H t m).channels.find? id = m.channels.find? id := by
  cases t with
  | remove id' =>
    rw [fire_remove, find?_unregister]
    exact if_neg h
  | reconnect cfg backoff opened =>
    have hne : id ≠ cfg.channelId := h
    rw [fire_reconnect]
    split
    · rw [find?_dial, if_neg hne, find?_unregister, if_neg hne]
    · rw [find?_unregister, if_neg hne]

theorem map_fst_eraseP (l : List (Timer × Nat)) (t : Timer) :
    (l.eraseP (fun q => q.1 = t)).map Prod.fst = (l.map Prod.fst).erase t := by
  induction l with
  | nil => rfl
  | cons q l ih =>
    by_cases h : q.1 = t
    · simp [h]
    · rw [List.eraseP_cons_of_neg (by simpa using h), List.map_cons, List.map_cons,
        List.erase_cons_tail (by simpa using h), ih]

namespace Attributed

theorem keep (h : Attributed p) {m' : ManagerState} (htimers : m'.timers = p.1.timers)
    (hentry : ∀ id chan, p.1.channels.find? id = some chan → chan.state = .down →
      m'.channels.find? id = some chan) : Attributed (m', p.2) where
  timers := h.timers.trans htimers.symm
  ids := h.ids
  entry q hq := by
    obtain ⟨chan, hfound, hopened, hdown⟩ := h.entry q hq
    exact ⟨chan, hentry _ chan hfound hdown, hopened, hdown⟩

theorem register (h : Attributed p) {id : ZceUint32} (hfree : p.1.channels.find? id = none)
    {m' : ManagerState} {chan' : LinkChannel} (htimers : m'.timers = p.1.timers)
    (hchannels : ∀ id', m'.channels.find? id' =
      if id' = id then some chan' else p.1.channels.find? id') : Attributed (m', p.2) := by
  refine h.keep htimers fun id' chan hfound _ => ?_
  rw [hchannels, if_neg, hfound]
  rintro rfl
  rw [hfree] at hfound
  cases hfound

theorem connected (h : Attributed p) {id : ZceUint32} {chan : LinkChannel}
    (hfound : p.1.channels.find? id = some chan) (hopening : chan.state = .opening) :
    Attributed (onChannelConnected H id chan p.1, p.2) := by
  refine h.keep rfl fun id' chan' hfound' hdown => ?_
  change (setLink id chan .up p.1).channels.find? id' = some chan'
  rw [find?_setLink, if_neg, hfound']
  rintro rfl
  obtain rfl := Option.some.inj (hfound.symm.trans hfound')
  rw [hdown] at hopening
  cases hopening

theorem closed (h : Attributed p) {id : ZceUint32} {chan : LinkChannel}
    (hfound : p.1.channels.find? id = some chan) (hlive : chan.state ≠ .down) :
    Attributed (onChannelClosed id chan p.1,
      p.2 ++ [(closingTimer p.1.config id chan, chan.opened)]) := by
  have hother : ∀ q ∈ p.2, q.1.channelId ≠ id := by
    rintro q hq rfl
    obtain ⟨chan', hfound', -, hdown⟩ := h.entry q hq
    obtain rfl := Option.some.inj (hfound.symm.trans hfound')
    exact hlive hdown
  rw [onChannelClosed_eq]
  constructor
  · rw [List.map_append, h.timers]
    rfl
  · rw [List.map_append]
    refine List.Nodup.append h.ids (List.nodup_singleton _) ?_
    rw [List.map_singleton, List.disjoint_singleton, closingTimer_channelId, List.mem_map]
    rintro ⟨q, hq, heq⟩
    exact hother q hq heq
  · intro q hq
    change ∃ chan', (setLink id chan .down p.1).channels.find? _ = some chan' ∧ _
    rcases List.mem_append.1 hq with hold | hnew
    · rw [find?_setLink, if_neg (hother q hold)]
      exact h.entry q hold
    · obtain rfl := List.mem_singleton.1 hnew
      rw [find?_setLink, if_pos (closingTimer_channelId _ _ _)]
      exact ⟨_, rfl, rfl, rfl⟩

theorem owner (h : Attributed p) {t : Timer} (hmem : t ∈ p.1.timers) :
    ∃ q l₁ l₂, p.2 = l₁ ++ q :: l₂ ∧ q.1 = t ∧ p.2.eraseP (fun q => q.1 = t) = l₁ ++ l₂ := by
  rw [← h.timers, List.mem_map] at hmem
  obtain ⟨q, hq, hqt⟩ := hmem
  obtain ⟨q', l₁, l₂, -, hq', hsplit, herase⟩ :=
    List.exists_of_eraseP (p := fun q : Timer × Nat => q.1 = t) hq (by simpa using hqt)
  exact ⟨q', l₁, l₂, hsplit, by simpa using hq', herase⟩

theorem timer (h : Attributed p) {t : Timer} (hmem : t ∈ p.1.timers) :
    Attributed (fire H t (expire t p.1), p.2.eraseP (fun q => q.1 = t)) := by
  obtain ⟨q, l₁, l₂, hsplit, rfl, herase⟩ := h.owner hmem
  have hids := h.ids
  rw [hsplit, List.map_append, List.map_cons] at hids
  have hother : ∀ q' ∈ l₁ ++ l₂, q'.1.channelId ≠ q.1.channelId := by
    intro q' hq' heq
    have hnot := (List.nodup_cons.1 (List.nodup_middle.1 hids)).1
    rw [← List.map_append] at hnot
    exact hnot (List.mem_map.2 ⟨q', hq', heq⟩)
  have hsub : (l₁ ++ l₂).Sublist p.2 := hsplit ▸ (List.sublist_cons_self q l₂).append_left l₁
  constructor
  · rw [fire_timers]
    change _ = p.1.timers.erase q.1
    rw [← h.timers, map_fst_eraseP]
  · rw [herase]
    exact h.ids.sublist (hsub.map _)
  · rw [herase]
    intro q' hq'
    rw [find?_fire_of_ne (hother q' hq')]
    exact h.entry q' (hsub.subset hq')

theorem step (h : Attributed p) {op : Op} (hop : op.Ordinary) (hfree : AcceptFree p.1 op) :
    Attributed (stepOwned H p op) := by
  cases op with
  | start config => exact hop.elim
  | stop => exact hop.elim
  | removeChannel id => exact hop.elim
  | addChannel cfg =>
    change Attributed ((ChannelManager.addChannel H cfg p.1).2, p.2)
    refine addChannel_induction (P := fun m => Attributed (m, p.2)) h fun hnew _ => ?_
    exact h.register hnew rfl fun id => find?_dial
  | startLinkListener ret =>
    change Attributed ((ChannelManager.startLinkListener ret p.1).2, p.2)
    unfold ChannelManager.startLinkListener
    split
    · exact h
    · split
      · exact h
      · exact h.keep rfl fun _ _ hfound _ => hfound
  | accept =>
    simp only [stepOwned, ChannelManager.step]
    split
    · rename_i hlistening
      exact h.register (hfree hlistening) rfl fun id => SortedMap.find?_insert _ _ _ _
    · exact h
  | connected id =>
    simp only [stepOwned, ChannelManager.step]
    split
    · exact h
    · rename_i chan hfound
      split
      · rename_i hopening
        exact h.connected hfound hopening
      · exact h
  | closed id =>
    simp only [stepOwned, ChannelManager.step]
    cases hfound : p.1.channels.find? id with
    | none => exact h
    | some chan =>
      dsimp only
      by_cases hdown : chan.state = .down
      · rw [if_pos hdown, if_pos hdown]
        exact h
      · rw [if_neg hdown, if_neg hdown]
        exact h.closed hfound hdown
  | timer t =>
    simp only [stepOwned, ChannelManager.step]
    split
    · rename_i hmem
      exact h.timer hmem
    · rename_i hmem
      rw [List.eraseP_of_forall_not fun q hq => ?_]
      · exact h
      · rw [← h.timers] at hmem
        simpa using fun heq : q.1 = t => hmem (heq ▸ List.mem_map_of_mem hq)
  | addBytesSubscriber stream =>
    simp only [stepOwned, ChannelManager.step, ChannelManager.addBytesSubscriber]
    split
    · exact h
    · exact h.keep rfl fun _ _ hfound _ => hfound
  | removeBytesSubscriber stream => exact h.keep rfl fun _ _ hfound _ => hfound

theorem displaces_iff (h : Attributed p) (op : Op) : ¬ Displaces p op ↔ AcceptFree p.1 op := by
  cases op with
  | accept =>
    simp only [Displaces, AcceptFree, not_and, Bool.not_eq_true, Option.isSome_eq_false_iff,
      Option.isNone_iff_eq_none]
  | timer t =>
    refine iff_of_true ?_ trivial
    rintro ⟨q, chan, hq, hfound, hne⟩
    obtain rfl : q.1 = t := by simpa using List.find?_some hq
    obtain ⟨chan', hfound', hopened, -⟩ := h.entry q (List.mem_of_find?_eq_some hq)
    obtain rfl := Option.some.inj (hfound.symm.trans hfound')
    exact hne hopened
  | start config => exact iff_of_true not_false trivial
  | stop => exact iff_of_true not_false trivial
  | removeChannel id => exact iff_of_true not_false trivial
  | addChannel cfg => exact iff_of_true not_false trivial
  | startLinkListener ret => exact iff_of_true not_false trivial
  | connected id => exact iff_of_true not_false trivial
  | closed id => exact iff_of_true not_false trivial
  | addBytesSubscriber stream => exact iff_of_true not_false trivial
  | removeBytesSubscriber stream => exact iff_of_true not_false trivial

end Attributed

theorem runOwned_append (H : Host) (p : Owned) (ops ops' : List Op) :
    runOwned H p (ops ++ ops') = runOwned H (runOwned H p ops) ops' := List.foldl_append

theorem run_attributed (h : Attributed p) {ops : List Op}
    (hops : EachAfter (fun _ op => op.Ordinary) ops)
    (hfree : EachAfter (fun pre op => AcceptFree (runOwned H p pre).1 op) ops) :
    Attributed (runOwned H p ops) := by
  induction ops using List.reverseRecOn with
  | nil => exact h
  | append_singleton ops op ih =>
    rw [runOwned_append]
    exact (ih hops.left hfree.left).step hops.last hfree.last

def begun (H : Host) (config : FgwConfig) : Owned := ((start H config init).2, [])

theorem begun_attributed (H : Host) (config : FgwConfig) : Attributed (begun H config) where
  timers := by
    refine Eq.symm (start_induction (P := fun m => m.timers = []) rfl (fun c _ m hm => ?_)
      fun m hm => hm)
    exact addChannel_induction (P := fun m => m.timers = []) hm fun _ _ => hm
  ids := List.nodup_nil
  entry q hq := absurd hq List.not_mem_nil

/-- The ids in use, by entries and by timers, are below the next accepted one, of which `k` have
been given out. -/
structure Reserved (k : Nat) (m : ManagerState) : Prop where
  seq : m.acceptedIdSeq.toNat = 2 ^ 31 + k
  ids : ∀ id chan, m.channels.find? id = some chan → id.toNat < 2 ^ 31 + k
  timers : ∀ t ∈ m.timers, t.channelId.toNat < 2 ^ 31 + k

def Op.isAccept : Op → Bool
  | .accept => true
  | _ => false

def LowIds : Op → Prop
  | .addChannel cfg => cfg.channelId < 0x80000000#32
  | _ => True

namespace Reserved

variable {k : Nat} {op : Op}

theorem sameLinks {m' : ManagerState} (h : Reserved k m) (hsame : SameLinks m m') :
    Reserved k m' where
  seq := by rw [hsame.acceptedIdSeq, h.seq]
  ids := by rw [hsame.channels]; exact h.ids
  timers := by rw [hsame.timers]; exact h.timers

theorem dial {cfg : FgwChannelConfig} (h : Reserved k m) (hid : cfg.channelId.toNat < 2 ^ 31 + k) :
    Reserved k (dial H cfg m) where
  seq := h.seq
  ids id chan hfound := by
    rw [find?_dial] at hfound
    split at hfound
    · rename_i heq
      rwa [heq]
    · exact h.ids id chan hfound
  timers := h.timers

theorem accept (h : Reserved k m) (hk : k + 1 < 2 ^ 31) :
    Reserved (k + 1) (makeAcceptedChannel H m) where
  seq := by
    have hseq := h.seq
    change (m.acceptedIdSeq + 1#32).toNat = _
    rw [BitVec.toNat_add, BitVec.toNat_ofNat]
    omega
  ids id chan hfound := by
    have hseq := h.seq
    change (m.channels.insert m.acceptedIdSeq _).find? id = some chan at hfound
    rw [SortedMap.find?_insert] at hfound
    split at hfound
    · rename_i heq
      rw [heq]
      omega
    · have := h.ids id chan hfound
      omega
  timers t ht := by
    have := h.timers t ht
    omega

theorem setLink {id : ZceUint32} {chan : LinkChannel} (h : Reserved k m)
    (hfound : m.channels.find? id = some chan) (state : LinkState) :
    Reserved k (setLink id chan state m) where
  seq := h.seq
  ids id' chan' hfound' := by
    rw [find?_setLink] at hfound'
    split at hfound'
    · rename_i heq
      rw [heq]
      exact h.ids id chan hfound
    · exact h.ids id' chan' hfound'
  timers := h.timers

theorem schedule (h : Reserved k m) {t : Timer} (ht : t.channelId.toNat < 2 ^ 31 + k) :
    Reserved k (schedule t m) where
  seq := h.seq
  ids := h.ids
  timers := by
    intro t' ht'
    rcases List.mem_append.1 ht' with hold | hnew
    · exact h.timers t' hold
    · rwa [List.mem_singleton.1 hnew]

theorem unregister (h : Reserved k m) (id : ZceUint32) : Reserved k (unregister id m) where
  seq := h.seq
  ids id' chan hfound := by
    rw [find?_unregister] at hfound
    split at hfound
    · cases hfound
    · exact h.ids id' chan hfound
  timers := h.timers

theorem fire (h : Reserved k m) {t : Timer} (hmem : t ∈ m.timers) :
    Reserved k (fire H t (expire t m)) := by
  have hid := h.timers t hmem
  have hexpired : Reserved k (expire t m) :=
    ⟨h.seq, h.ids, fun t' ht' => h.timers t' (List.mem_of_mem_erase ht')⟩
  cases t with
  | remove id =>
    rw [fire_remove]
    exact hexpired.unregister id
  | reconnect cfg backoff opened =>
    rw [fire_reconnect]
    split
    · exact (hexpired.unregister _).dial hid
    · exact hexpired.unregister _

theorem step (h : Reserved k m) (hop : op.Ordinary) (hlow : LowIds op)
    (hk : k + (if op.isAccept then 1 else 0) < 2 ^ 31) :
    ∃ k' ≤ k + (if op.isAccept then 1 else 0), Reserved k' (step H m op) := by
  refine step_induction (P := fun m' => ∃ k' ≤ k + (if op.isAccept then 1 else 0), Reserved k' m')
    ?_ ⟨k, Nat.le_add_right _ _, h⟩ ?_ ?_ ?_ ?_ ?_ ?_ ?_ ?_ ?_
  · rintro m m' hsame ⟨k', hle, hm⟩
    exact ⟨k', hle, hm.sameLinks hsame⟩
  · rintro config rfl
    exact hop.elim
  · rintro rfl
    exact hop.elim
  · rintro cfg rfl - -
    have hid : cfg.channelId.toNat < 2 ^ 31 := BitVec.lt_def.1 hlow
    exact ⟨k, Nat.le_add_right _ _, h.dial (by omega)⟩
  · rintro id rfl
    exact hop.elim
  · rintro ret rfl
    exact ⟨k, Nat.le_add_right _ _, h.seq, h.ids, h.timers⟩
  · rintro rfl -
    exact ⟨k + 1, Nat.le_refl _, h.accept hk⟩
  · rintro id chan rfl hfound -
    exact ⟨k, Nat.le_add_right _ _, h.setLink hfound .up⟩
  · rintro id chan rfl hfound -
    rw [onChannelClosed_eq]
    refine ⟨k, Nat.le_add_right _ _, (h.setLink hfound .down).schedule ?_⟩
    rw [closingTimer_channelId]
    exact h.ids id chan hfound
  · rintro t rfl hmem
    exact ⟨k, Nat.le_add_right _ _, h.fire hmem⟩

end Reserved

theorem runOwned_fst (p : Owned) (ops : List Op) : (runOwned H p ops).1 = run H p.1 ops := by
  induction ops generalizing p with
  | nil => rfl
  | cons op ops ih => exact ih _

theorem run_reserved (h : Reserved 0 m) {ops : List Op}
    (hops : EachAfter (fun _ op => op.Ordinary ∧ LowIds op) ops)
    (hcount : ops.countP Op.isAccept < 2 ^ 31) :
    ∃ k ≤ ops.countP Op.isAccept, Reserved k (run H m ops) := by
  induction ops using List.reverseRecOn with
  | nil => exact ⟨0, Nat.le_refl _, h⟩
  | append_singleton ops op ih =>
    rw [List.countP_append, List.countP_singleton] at hcount ⊢
    obtain ⟨k, hle, hk⟩ := ih hops.left (by omega)
    obtain ⟨hop, hlow⟩ := hops.last
    obtain ⟨k', hle', hk'⟩ := hk.step (H := H) hop hlow (by omega)
    rw [run_append]
    exact ⟨k', by omega, hk'⟩

theorem begun_reserved {config : FgwConfig} (h : ∀ c ∈ config.channels, c.channelId < 0x80000000#32) :
    Reserved 0 (begun H config).1 := by
  refine start_induction (P := Reserved 0) ⟨rfl, nofun, nofun⟩
    (fun c hc m hm => ?_) fun m hm => ⟨hm.seq, hm.ids, hm.timers⟩
  exact addChannel_induction hm fun _ _ => hm.dial (BitVec.lt_def.1 (h c hc))

end ChannelManager

open ChannelManager in
/-- As long as each accepted connection finds its id free, no timer touches another channel than its
own.  Ids without the high bit for the configured channels see to that for `2 ^ 31` connections. -/
theorem accepted_never_displaces_iff (H : Host) (config : FgwConfig) {ops : List Op}
    (hops : ∀ op ∈ ops, op.Ordinary) :
    (EachAfter (fun pre op => ¬ Displaces (runOwned H (begun H config) pre) op) ops ↔
      EachAfter (fun pre op => AcceptFree (runOwned H (begun H config) pre).1 op) ops) ∧
    ((∀ c ∈ config.channels, c.channelId < 0x80000000#32) → (∀ op ∈ ops, LowIds op) →
      ops.countP Op.isAccept ≤ 2 ^ 31 →
      EachAfter (fun pre op => ¬ Displaces (runOwned H (begun H config) pre) op) ops) := by
  have hordinary : EachAfter (fun _ op => op.Ordinary) ops := by
    intro pre op post hsplit
    exact hops op (hsplit ▸ List.mem_append_right _ List.mem_cons_self)
  have hiff := EachAfter.congr (P := fun pre op => ¬ Displaces (runOwned H (begun H config) pre) op)
    (Q := fun pre op => AcceptFree (runOwned H (begun H config) pre).1 op) hordinary
    fun pre op hpre _ hfree _ =>
      (run_attributed (begun_attributed H config) hpre hfree).displaces_iff op
  refine ⟨hiff, fun hconfig hlow hcount => hiff.2 fun pre op post hsplit => ?_⟩
  cases op with
  | accept =>
    intro _
    have hsub : ∀ op ∈ pre, op ∈ ops := fun op hop => hsplit ▸ List.mem_append_left _ hop
    have hbefore : pre.countP Op.isAccept + 1 ≤ ops.countP Op.isAccept := by
      rw [hsplit, List.countP_append, List.countP_cons]
      simp only [Op.isAccept, if_true]
      omega
    have hlows : EachAfter (fun _ op => op.Ordinary ∧ LowIds op) pre := by
      intro pre' op post hsplit'
      have hop : op ∈ pre := hsplit' ▸ List.mem_append_right _ List.mem_cons_self
      exact ⟨hops op (hsub op hop), hlow op (hsub op hop)⟩
    obtain ⟨k, -, hk⟩ := run_reserved (H := H) (begun_reserved hconfig) hlows (by omega)
    rw [runOwned_fst]
    cases hfound : (run H (begun H config).1 pre).channels.find?
      (run H (begun H config).1 pre).acceptedIdSeq with
    | none => rfl
    | some chan =>
      have := hk.ids _ chan hfound
      rw [hk.seq] at this
      exact absurd this (lt_irrefl _)
  | _ => trivial

open ChannelManager in
theorem accepted_displaces :
    ¬ EachAfter (fun pre op => ¬ Displaces (runOwned (Host.reusing fun _ => 0)
        (begun (Host.reusing fun _ => 0) { channels := [{ channelId := 0x80000000#32 }] }) pre) op)
      [.startLinkListener 0, .accept] := by
  intro h
  refine h [.startLinkListener 0] .accept [] rfl ⟨by decide +kernel, by decide +kernel⟩

open ChannelManager in
theorem accepted_never_displaces_low :
    EachAfter (fun pre op => ¬ Displaces (runOwned (Host.reusing fun _ => 0)
        (begun (Host.reusing fun _ => 0) { channels := [{ channelId := 7#32 }] }) pre) op)
      [.startLinkListener 0, .closed 7#32, .accept, .closed 0x80000000#32,
        .timer (.remove 0x80000000#32), .timer (.reconnect { channelId := 7#32 } 60 0)] := by
  refine (accepted_never_displaces_iff _ _ ?_).2 ?_ ?_ (by decide)
  · simp [ChannelManager.Op.Ordinary]
  · exact List.forall_mem_singleton.2 (by decide)
  · simp [LowIds]

end Libfgw
