import Libfgw.DataStream.Moves
import Libfgw.DataStream.Views

namespace Libfgw

open Lib

def Event.handed (key : SessionKey) (handler : Handler) : Event → Option (List ZceByte)
  | .sessionData key' handler' _ buf => if key' = key ∧ handler' = handler then some buf else none
  | _ => none

def handed (key : SessionKey) (handler : Handler) (events : List Event) : List (List ZceByte) :=
  events.filterMap (Event.handed key handler)

@[simp] theorem handed_append (key : SessionKey) (handler : Handler) (es es' : List Event) :
    handed key handler (es ++ es') = handed key handler es ++ handed key handler es' :=
  List.filterMap_append

theorem handed_of_not_data (key : SessionKey) (handler : Handler) {e : Event} (he : e.isData = false) :
    handed key handler [e] = [] := by
  cases e with
  | sessionData _ _ _ _ => cases he
  | _ => rfl

theorem handed_sessionData (key : SessionKey) (handler : Handler) (key' : SessionKey)
    (handler' : Handler) (sid : ZceUint32) (blks : List (List ZceByte)) :
    handed key handler (blks.map (.sessionData key' handler' sid)) =
      if key' = key ∧ handler' = handler then blks else [] := by
  induction blks with
  | nil => exact (ite_self []).symm
  | cons blk blks ih =>
    rw [List.map_cons, ← List.singleton_append, handed_append, ih]
    by_cases h : key' = key ∧ handler' = handler
    · have hone : Event.handed key handler (.sessionData key' handler' sid blk) = some blk := if_pos h
      rw [if_pos h, if_pos h, handed, List.filterMap_cons_some hone]
      rfl
    · have hnone : Event.handed key handler (.sessionData key' handler' sid blk) = none := if_neg h
      rw [if_neg h, if_neg h, handed, List.filterMap_cons_none hnone]
      rfl

variable {σ : Type}

/-- What a stream has kept and handed out of its sessions is genuine, `G` saying which numbered
payloads of which sessions are.  A session's handler has been handed what comes before the expected
number. -/
structure Fed (G : SessionKey → ZceUint32 → List ZceByte → Prop) (st : StreamState σ) : Prop where
  taken : ∀ {key handler k p}, (handed key handler st.events)[k]? = some p →
    G key (BitVec.ofNat 32 k) p
  expected : ∀ {key v handler}, st.rxView key = some v → v.handler = some handler →
    v.expected = BitVec.ofNat 32 (handed key handler st.events).length
  buffered : ∀ {key v seq p}, st.rxView key = some v → v.buffer.find? seq = some p →
    G key seq p ∧ p ≠ []

namespace Fed

variable {G G' : SessionKey → ZceUint32 → List ZceByte → Prop} {st st' : StreamState σ}

theorem init (G : SessionKey → ZceUint32 → List ZceByte → Prop) (owner : σ) (selector : LinkSelector) :
    Fed G (StreamState.init owner selector) where
  taken h := by cases h
  expected h := by cases h
  buffered h := by cases h

theorem mono (h : Fed G st) (hG : ∀ {key seq p}, G key seq p → G' key seq p) : Fed G' st where
  taken hk := hG (h.taken hk)
  expected := h.expected
  buffered hv hp := ⟨hG (h.buffered hv hp).1, (h.buffered hv hp).2⟩

def Unused (st : StreamState σ) (key : SessionKey) (v : RxView) : Prop :=
  v = RxView.fresh v.handler ∧ ∀ handler, v.handler = some handler →
    handed key handler st.events = []

theorem resets (h : Fed G st)
    (hevents : ∀ key handler, handed key handler st'.events = handed key handler st.events)
    (hviews : ∀ key v, st'.rxView key = some v → st.rxView key = some v ∨ Unused st key v) :
    Fed G st' where
  taken hk := by
    rw [hevents] at hk
    exact h.taken hk
  expected {key v handler} hv hhandler := by
    rw [hevents]
    rcases hviews key v hv with hold | ⟨hfresh, hnone⟩
    · exact h.expected hold hhandler
    · rw [hnone handler hhandler, hfresh]
      rfl
  buffered {key v seq p} hv hp := by
    rcases hviews key v hv with hold | ⟨hfresh, -⟩
    · exact h.buffered hold hp
    · rw [hfresh] at hp
      cases (SortedMap.find?_empty seq).symm.trans hp

theorem of_eq (h : Fed G st) (hsessions : st'.sessions = st.sessions)
    (hevents : st'.events = st.events) : Fed G st' :=
  h.resets (fun _ _ => by rw [hevents]) fun key v hv => Or.inl (by
    rwa [StreamState.rxView, hsessions] at hv)

end Fed

namespace DataStream

variable {S : Setting σ} {G : SessionKey → ZceUint32 → List ZceByte → Prop} {st : StreamState σ}

def NeverOpening (S : Setting σ) : Prop :=
  ∀ o e, ∀ c ∈ (S.onEvent o e).2, ∀ key handler, ¬ Opens S key handler c

theorem call_leaves {c : Call} (hc : ∀ key handler, ¬ Opens S key handler c) (st : StreamState σ)
    (key : SessionKey) :
    (call S st c).rxView key = st.rxView key ∨ (call S st c).rxView key = none := by
  rcases call_views key st c with hsame | ⟨-, hgone⟩ | ⟨handler, hopens, -⟩
  · exact Or.inl hsame
  · exact Or.inr hgone
  · exact absurd hopens (hc key handler)

theorem calls_leave {cs : List Call} (hcs : ∀ c ∈ cs, ∀ key handler, ¬ Opens S key handler c)
    (st : StreamState σ) (key : SessionKey) :
    (cs.foldl (call S) st).rxView key = st.rxView key ∨ (cs.foldl (call S) st).rxView key = none := by
  induction cs generalizing st with
  | nil => exact Or.inl rfl
  | cons c cs ih =>
    obtain ⟨hc, hcs⟩ := List.forall_mem_cons.1 hcs
    rw [List.foldl_cons]
    rcases ih hcs (call S st c) with hsame | hgone
    · rw [hsame]
      exact call_leaves hc st key
    · exact Or.inr hgone

theorem notify_leaves (hnever : NeverOpening S) (e : Event) (st : StreamState σ) (key : SessionKey) :
    (notify S e st).rxView key = st.rxView key ∨ (notify S e st).rxView key = none :=
  calls_leave (hnever st.owner e) { st.logEvent e with owner := (S.onEvent st.owner e).1 } key

theorem handOut_leaves (hnever : NeverOpening S) (key : SessionKey) (handler : Handler)
    (sid : ZceUint32) (blks : List (List ZceByte)) (st : StreamState σ) (key' : SessionKey) :
    (handOut S key handler sid blks st).rxView key' = st.rxView key' ∨
      (handOut S key handler sid blks st).rxView key' = none := by
  induction blks generalizing st with
  | nil => exact Or.inl rfl
  | cons blk blks ih =>
    rw [handOut_cons]
    split
    · rcases ih (notify S (.sessionData key handler sid blk) st) with hsame | hgone
      · rw [hsame]
        exact notify_leaves hnever _ st key'
      · exact Or.inr hgone
    · exact ih st

theorem handed_dataEvents (key : SessionKey) (handler : Handler) (events : List Event) :
    handed key handler (dataEvents events) = handed key handler events := by
  induction events with
  | nil => rfl
  | cons e events ih =>
    rw [← List.singleton_append, dataEvents_append, handed_append, handed_append, ih]
    congr 1
    cases e <;> rfl

theorem collectReady_run (fuel : Nat) (s : SessionState) :
    (∀ k p, (collectReady fuel s).1[k]? = some p →
        s.rxBuffer.find? (s.expectedRxSeq + BitVec.ofNat 32 k) = some p) ∧
      (collectReady fuel s).2.expectedRxSeq =
        s.expectedRxSeq + BitVec.ofNat 32 (collectReady fuel s).1.length ∧
      ∀ seq p, (collectReady fuel s).2.rxBuffer.find? seq = some p → s.rxBuffer.find? seq = some p := by
  have hstop : ∀ s : SessionState, (∀ k p, ([] : List (List ZceByte))[k]? = some p →
        s.rxBuffer.find? (s.expectedRxSeq + BitVec.ofNat 32 k) = some p) ∧
      s.expectedRxSeq = s.expectedRxSeq + BitVec.ofNat 32 ([] : List (List ZceByte)).length ∧
      ∀ seq p, s.rxBuffer.find? seq = some p → s.rxBuffer.find? seq = some p := fun s =>
    ⟨fun k p hk => (Option.some_ne_none p hk.symm).elim, (BitVec.add_zero _).symm, fun _ _ h => h⟩
  induction fuel generalizing s with
  | zero => exact hstop s
  | succ fuel ih =>
    unfold collectReady
    split
    · exact hstop s
    rename_i seq blk hbegin
    split
    · exact hstop s
    rename_i hseq
    obtain ⟨hrun, hexpected, hrest⟩ := ih { s with
      rxBuffer := s.rxBuffer.eraseBegin
      expectedRxSeq := s.expectedRxSeq + 1#32 }
    have herase : ∀ seq' p, s.rxBuffer.eraseBegin.find? seq' = some p →
        s.rxBuffer.find? seq' = some p := by
      intro seq' p hp
      rw [SortedMap.find?_eraseBegin hbegin] at hp
      split at hp
      · cases hp
      · exact hp
    refine ⟨fun k p hk => ?_, ?_, fun seq' p hp => herase seq' p (hrest seq' p hp)⟩
    · cases k with
      | zero =>
        obtain rfl := Option.some.inj hk
        rw [show BitVec.ofNat 32 0 = 0#32 from rfl, BitVec.add_zero, ← not_not.1 hseq]
        exact SortedMap.find?_begin hbegin
      | succ k =>
        have hnext := herase _ p (hrun k p hk)
        rwa [BitVec.add_assoc, ← BitVec.ofNat_add, Nat.add_comm] at hnext
    · rw [hexpected, List.length_cons, BitVec.add_assoc, Nat.add_comm, BitVec.ofNat_add]

end DataStream

namespace Fed

open DataStream

variable {S : Setting σ} {G : SessionKey → ZceUint32 → List ZceByte → Prop} {st : StreamState σ}
  {key : SessionKey}

theorem calls (h : Fed G st) {cs : List Call}
    (hcs : ∀ c ∈ cs, ∀ key handler, ¬ Opens S key handler c) :
    Fed G (cs.foldl (DataStream.call S) st) := by
  refine h.resets (fun _ _ => by rw [(calls_sendsOnly S cs st).events]) fun key v hv => Or.inl ?_
  rcases calls_leave hcs st key with hsame | hgone
  · rwa [hsame] at hv
  · rw [hgone] at hv
    cases hv

theorem openSession (h : Fed G st) {sid : ZceUint32} {handler : Handler}
    (hunused : handed (S.config.localIngressId, sid) handler st.events = []) :
    Fed G (DataStream.openSession S sid (some handler) st).2 := by
  refine h.resets (fun _ _ => by rw [(openSession_sendsOnly S sid _ st).events]) fun key v hv => ?_
  rcases call_views key st (.openSession sid (some handler)) with
    hsame | ⟨-, hgone⟩ | ⟨handler', hopens, -, hfresh⟩
  · exact Or.inl (hsame.symm.trans hv)
  · rw [show (DataStream.openSession S sid (some handler) st).2.rxView key = none from hgone] at hv
    cases hv
  · obtain ⟨rfl, hhandler⟩ := hopens
    obtain rfl := Option.some.inj (hv.symm.trans hfresh)
    refine Or.inr ⟨rfl, fun other hother => ?_⟩
    obtain rfl := Option.some.inj (hhandler.trans hother)
    exact hunused

theorem notify (h : Fed G st) (hnever : NeverOpening S) {e : Event} (he : e.isData = false) :
    Fed G (DataStream.notify S e st) := by
  refine h.resets (fun key handler => ?_) fun key v hv => Or.inl ?_
  · rw [notify_events, handed_append, handed_of_not_data key handler he, List.append_nil]
  · rcases notify_leaves hnever e st key with hsame | hgone
    · rwa [hsame] at hv
    · rw [hgone] at hv
      cases hv

theorem eraseSession (h : Fed G st) (key : SessionKey) : Fed G (st.eraseSession key) := by
  refine h.resets (fun _ _ => rfl) fun key' v hv => Or.inl ?_
  rw [rxView_eraseSession] at hv
  split at hv
  · cases hv
  · exact hv

theorem createSession (h : Fed G st)
    (hunused : ∀ cb handler, S.unknownCb = some cb → (cb st.owner key).2 = some handler →
      handed key handler st.events = []) : Fed G (DataStream.createSession S key st) := by
  unfold DataStream.createSession
  split
  · refine h.resets (fun _ _ => rfl) fun key' v hv => ?_
    rw [rxView_setSession] at hv
    split at hv
    · obtain rfl := Option.some.inj hv
      exact Or.inr ⟨rfl, nofun⟩
    · exact Or.inl hv
  · rename_i cb hcb
    refine h.resets (fun key' handler => ?_) fun key' v hv => ?_
    · exact (handed_append key' handler _ _).trans (List.append_nil _)
    · rw [rxView_setSession] at hv
      split at hv
      · rename_i hkey
        obtain rfl := Option.some.inj hv
        rw [hkey]
        exact Or.inr ⟨rfl, fun handler hhandler => hunused cb handler hcb hhandler⟩
      · exact Or.inl hv

theorem kept (h : Fed G st) {s : SessionState} {buffer : SortedMap ZceUint32 (List ZceByte)}
    {data : ZceUint32 → List ZceByte → Prop} (hs : st.sessions key = some s)
    (hdata : ∀ seq p, data seq p → G key seq p ∧ p ≠ [])
    (hbuffer : ∀ seq p, buffer.find? seq = some p → s.rxBuffer.find? seq = some p ∨ data seq p) :
    Fed G ({ st with clock := st.clock + 1 }.setSession key { s with rxBuffer := buffer }) where
  taken := h.taken
  expected {key' v handler} hv hhandler := by
    rw [rxView_setSession] at hv
    split at hv
    · rename_i hkey
      obtain rfl := Option.some.inj hv
      rw [hkey]
      exact h.expected (v := s.rxView) (by rw [StreamState.rxView, hs]; rfl) hhandler
    · exact h.expected hv hhandler
  buffered {key' v seq p} hv hp := by
    rw [rxView_setSession] at hv
    split at hv
    · rename_i hkey
      obtain rfl := Option.some.inj hv
      rw [hkey]
      rcases hbuffer seq p hp with hold | hnew
      · exact h.buffered (v := s.rxView) (by rw [StreamState.rxView, hs]; rfl) hold
      · exact hdata seq p hnew
    · exact h.buffered hv hp

theorem delivered (h : Fed G st) (hnever : NeverOpening S) {s : SessionState} {handler : Handler}
    (hs : st.sessions key = some s) (hhandler : s.handler = some handler) :
    Fed G (handOut S key handler s.sessionId (collectReady s.rxBuffer.size s).1
      (st.setSession key (collectReady s.rxBuffer.size s).2)) := by
  obtain ⟨hrun, hexpected, hrest⟩ := collectReady_run s.rxBuffer.size s
  have hsame : (collectReady s.rxBuffer.size s).2.handler = s.handler := collectReady_handler _ s
  generalize (collectReady s.rxBuffer.size s).1 = blks at hrun hexpected ⊢
  generalize (collectReady s.rxBuffer.size s).2 = s' at hexpected hrest hsame ⊢
  have hview : st.rxView key = some s.rxView := by rw [StreamState.rxView, hs]; rfl
  have hseq : s.expectedRxSeq = BitVec.ofNat 32 (handed key handler st.events).length :=
    h.expected hview hhandler
  have hblks : blks.filter (fun blk => blk.length > 0) = blks := by
    refine List.filter_eq_self.2 fun blk hblk => decide_eq_true (List.length_pos_iff.2 ?_)
    obtain ⟨k, hk⟩ := List.getElem?_of_mem hblk
    exact (h.buffered hview (hrun k blk hk)).2
  have hhanded : ∀ key' handler', handed key' handler'
      (handOut S key handler s.sessionId blks (st.setSession key s')).events =
        handed key' handler' st.events ++ if key = key' ∧ handler = handler' then blks else [] := by
    intro key' handler'
    rw [← handed_dataEvents, dataEvents_handOut, hblks, handed_append, handed_dataEvents,
      handed_sessionData]
    rfl
  have hviews : ∀ key' v, (handOut S key handler s.sessionId blks (st.setSession key s')).rxView
      key' = some v → (if key' = key then some s'.rxView else st.rxView key') = some v := by
    intro key' v hv
    rcases handOut_leaves hnever key handler s.sessionId blks (st.setSession key s') key' with
      hkept | hgone
    · rwa [hkept, rxView_setSession] at hv
    · rw [hgone] at hv
      cases hv
  constructor
  · intro key' handler' k p hk
    rw [hhanded] at hk
    by_cases hlt : k < (handed key' handler' st.events).length
    · rw [List.getElem?_append_left hlt] at hk
      exact h.taken hk
    · rw [List.getElem?_append_right (Nat.le_of_not_lt hlt)] at hk
      split at hk
      · rename_i hown
        obtain ⟨rfl, rfl⟩ := hown
        have hgenuine := (h.buffered hview (hrun _ p hk)).1
        rwa [hseq, ← BitVec.ofNat_add, Nat.add_sub_cancel' (Nat.le_of_not_lt hlt)] at hgenuine
      · cases hk
  · intro key' v handler' hv hhandler'
    have hv := hviews key' v hv
    rw [hhanded, List.length_append]
    split at hv
    · rename_i hkey
      obtain rfl := Option.some.inj hv
      obtain rfl := Option.some.inj ((hhandler'.symm.trans hsame).trans hhandler)
      rw [hkey, if_pos ⟨rfl, rfl⟩, BitVec.ofNat_add, ← hseq]
      exact hexpected
    · rename_i hkey
      rw [if_neg fun hown => hkey hown.1.symm, List.length_nil, Nat.add_zero]
      exact h.expected hv hhandler'
  · intro key' v seq p hv hp
    have hv := hviews key' v hv
    split at hv
    · rename_i hkey
      obtain rfl := Option.some.inj hv
      rw [hkey]
      exact h.buffered hview (hrest seq p hp)
    · exact h.buffered hv hp

theorem move {data : ZceUint32 → List ZceByte → Prop} {st' : StreamState σ} (h : Fed G st)
    (hnever : NeverOpening S) (hdata : ∀ seq p, data seq p → G key seq p ∧ p ≠ [])
    (hunused : st.sessions key = none → ∀ cb handler, S.unknownCb = some cb →
      (cb st.owner key).2 = some handler → handed key handler st.events = [])
    (hmove : Move S key data st st') : Fed G st' := by
  cases hmove with
  | judged hjudges => exact h.of_eq hjudges.sessions hjudges.events
  | recorded dk => exact h.of_eq rfl rfl
  | created hnone => exact h.createSession (hunused hnone)
  | opened hs hhandler => exact h.notify hnever rfl
  | closed hs hhandler => exact (h.notify hnever rfl).eraseSession key
  | dropped hs hhandler => exact h.eraseSession key
  | kept hs hbuffer => exact h.kept hs hdata hbuffer
  | delivered hs hhandler => exact h.delivered hnever hs hhandler

end Fed

end Libfgw
