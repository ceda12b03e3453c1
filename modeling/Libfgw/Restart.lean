import Libfgw.ClosedSession
import Libfgw.DataStream.Control
import Libfgw.DataStream.Emission
import Libfgw.DataStream.History
import Libfgw.DataStream.Keeping

namespace Libfgw

open FgwSegmentHeader Lib Lib.Reassembly DataStream

variable {σ τ : Type}

theorem handleFrame_hello {S : Setting σ} {ingress generation : ZceUint32} {f : List ZceByte}
    (hf : HelloFrame S ingress generation f) (ch : ChannelRef) (st : StreamState σ) :
    (handleFrame S ch st f).sessions = st.sessions ∧ (handleFrame S ch st f).dedup = st.dedup ∧
      (handleFrame S ch st f).events = st.events := by
  obtain ⟨-, hr, hdr, hello, hpeek, -, hhello, -⟩ := hf
  rcases handleFrame_cases S ch f st with ⟨-, hjudges⟩ | ⟨hr', hdr', hpeek', hsession, -⟩
  · exact ⟨hjudges.sessions, hjudges.dedup, hjudges.events⟩
  · obtain ⟨rfl, rfl⟩ := PeekResult.header.inj (hpeek.symm.trans hpeek')
    rw [isControl, hhello, Bool.true_or, Bool.true_or] at hsession
    cases hsession

theorem handleFrames_hellos {S : Setting σ} {ingress generation : ZceUint32}
    {hellos : List (ChannelRef × List ZceByte)}
    (hhellos : ∀ p ∈ hellos, HelloFrame S ingress generation p.2) (st : StreamState σ) :
    (handleFrames S st hellos).sessions = st.sessions ∧
      (handleFrames S st hellos).dedup = st.dedup ∧
      (handleFrames S st hellos).events = st.events := by
  induction hellos generalizing st with
  | nil => exact ⟨rfl, rfl, rfl⟩
  | cons p hellos ih =>
    obtain ⟨hp, hhellos⟩ := List.forall_mem_cons.1 hhellos
    obtain ⟨hs, hd, he⟩ := handleFrame_hello hp p.1 st
    obtain ⟨hs', hd', he'⟩ := ih hhellos (handleFrame S p.1 st p.2)
    exact ⟨hs'.trans hs, hd'.trans hd, he'.trans he⟩

def dataArrivals (T : Setting τ) (key : SessionKey) (ch : Nat → ChannelRef)
    (segs : List (List ZceByte)) : List (ChannelRef × List ZceByte) :=
  segs.mapIdx fun k payload => (ch k, dataFrame T key k payload)

/-- Since some state, a new handler has been named, told of the opening, and given exactly these
payloads. -/
def Served (key : SessionKey) (segs : List (List ZceByte)) (st st' : StreamState σ) : Prop :=
  ∃ handler, history key st'.events =
    history key st.events ++ ([.created (some handler), .opened handler] ++ segs.map (.data handler))

/-- Nothing is left of a session that would stop a new one with `n` data segments: no entry, and
in the dedup table neither its SYN nor a data key that is still there when its turn comes. -/
def Forgotten (key : SessionKey) (n : Nat) (st : StreamState σ) : Prop :=
  st.sessions key = none ∧ synKey key ∉ st.dedup.queue ∧
    ∀ k < n, dataKey key (BitVec.ofNat 32 k) ∉
      st.dedup.queue.drop (st.dedup.queue.length + (k + 1) - kDedupRing)

section Arrivals

variable {S : Setting σ} {T : Setting τ} {key : SessionKey} {segs : List (List ZceByte)}
  {base : List (Option (List ZceByte))} {st : StreamState σ}

theorem handleFrames_append (st : StreamState σ) (frames frames' : List (ChannelRef × List ZceByte)) :
    handleFrames S st (frames ++ frames') = handleFrames S (handleFrames S st frames) frames' :=
  List.foldl_append

def afterData (S : Setting σ) (T : Setting τ) (key : SessionKey) (ch : Nat → ChannelRef)
    (segs : List (List ZceByte)) (st : StreamState σ) (m : Nat) : StreamState σ :=
  handleFrames S st (dataArrivals T key ch (segs.take m))

theorem afterData_succ (ch : Nat → ChannelRef) (st : StreamState σ) {m : Nat} (hm : m < segs.length) :
    afterData S T key ch segs st (m + 1) =
      handleFrame S (ch m) (afterData S T key ch segs st m) (dataFrame T key m segs[m]) := by
  have htake : segs.take (m + 1) = segs.take m ++ [segs[m]] := List.take_succ_eq_append_getElem hm
  have hlen : (segs.take m).length = m := by rw [List.length_take, Nat.min_eq_left hm.le]
  rw [afterData, afterData, dataArrivals, htake, List.mapIdx_concat, handleFrames_append, hlen]
  rfl

theorem afterData_invariant {P : Nat → StreamState σ → Prop} (ch : Nat → ChannelRef)
    (hstep : ∀ m (hm : m < segs.length) st, P m st →
      P (m + 1) (handleFrame S (ch m) st (dataFrame T key m segs[m])))
    (h : P 0 st) : P segs.length (handleFrames S st (dataArrivals T key ch segs)) := by
  have hall : ∀ m ≤ segs.length, P m (afterData S T key ch segs st m) := by
    intro m hm
    induction m with
    | zero => exact h
    | succ m ih =>
      rw [afterData_succ ch st (Nat.lt_of_succ_le hm)]
      exact hstep m _ _ (ih (Nat.le_of_succ_le hm))
  have hlast := hall segs.length (le_refl _)
  rwa [afterData, List.take_length] at hlast

variable (hspares : SparesAlways S key) (hne : ∀ seg ∈ segs, seg ≠ [] ∧ seg.length ≤ MAX_PAYLOAD)

include hspares hne in
theorem not_served_of_present (c : ChannelRef) (ch : Nat → ChannelRef) (hview : st.rxView key ≠ none) :
    ¬ Served key segs st
      (handleFrames S st ((c, synFrame T key) :: dataArrivals T key ch segs)) := by
  obtain ⟨hview', l, hl, hcreated⟩ := synFrame_uncreated (T := T) hspares c hview
  have hend := @afterData_invariant σ τ S T key segs (handleFrame S c st (synFrame T key))
    (fun _ st' => st'.rxView key ≠ none ∧ ∃ l, history key st'.events =
      history key st.events ++ l ∧ ∀ handler, News.created handler ∉ l) ch
    (fun m hm st' h => by
      obtain ⟨hpresent, l, hl, hcreated⟩ := h
      obtain ⟨v, hv⟩ := Option.ne_none_iff_exists'.1 hpresent
      obtain ⟨hpne, hplen⟩ := hne segs[m] (List.getElem_mem hm)
      obtain ⟨v', blks, hv', -, hhist⟩ := dataFrame_told (T := T) hspares (ch m) (k := m) hpne hplen hv
      refine ⟨by rw [hv']; exact Option.some_ne_none v', l ++ told v.handler blks, ?_, ?_⟩
      · rw [hhist, hl, List.append_assoc]
      · intro handler hmem
        rcases List.mem_append.1 hmem with hmem | hmem
        · exact hcreated handler hmem
        · exact created_notMem_told _ _ _ hmem)
    ⟨hview', l, hl, hcreated⟩
  rintro ⟨handler, hserved⟩
  obtain ⟨-, l, hl, hcreated⟩ := hend
  rw [handleFrames, List.foldl_cons] at hserved
  rw [handleFrames, hserved, List.append_cancel_left_eq] at hl
  exact hcreated (some handler) (hl ▸ by simp)

include hspares hne in
theorem not_served_of_syn_dup (c : ChannelRef) (ch : Nat → ChannelRef)
    (hdup : st.dedup.map (synKey key) = true) :
    ¬ Served key segs st
      (handleFrames S st ((c, synFrame T key) :: dataArrivals T key ch segs)) := by
  have hend := @afterData_invariant σ τ S T key segs (handleFrame S c st (synFrame T key))
    (fun _ st' => ∃ l, history key st'.events = history key st.events ++ l ∧
      ∀ handler, News.opened handler ∉ l) ch
    (fun m hm st' h => by
      obtain ⟨l, hl, hopened⟩ := h
      obtain ⟨hpne, hplen⟩ := hne segs[m] (List.getElem_mem hm)
      obtain ⟨l', hl', hopened'⟩ := dataFrame_unopened (T := T) hspares (ch m) (k := m) hpne hplen st'
      refine ⟨l ++ l', by rw [hl', hl, List.append_assoc], ?_⟩
      intro handler hmem
      rcases List.mem_append.1 hmem with hmem | hmem
      · exact hopened handler hmem
      · exact hopened' handler hmem)
    ⟨[], by rw [synFrame_dup c hdup, (noteLoser_judgesOnly c st).events, List.append_nil],
      fun _ => List.not_mem_nil⟩
  rintro ⟨handler, hserved⟩
  obtain ⟨l, hl, hopened⟩ := hend
  rw [handleFrames, List.foldl_cons] at hserved
  rw [handleFrames, hserved, List.append_cancel_left_eq] at hl
  exact hopened handler (hl ▸ by simp)

def dataKeys (key : SessionKey) (m : Nat) : List DedupKey :=
  (List.range m).map fun k => dataKey key (BitVec.ofNat 32 k)

theorem dataKeys_succ (key : SessionKey) (m : Nat) :
    dataKeys key (m + 1) = dataKeys key m ++ [dataKey key (BitVec.ofNat 32 m)] := by
  rw [dataKeys, List.range_succ, List.map_append]
  rfl

theorem notMem_dataKeys {m : Nat} (hm : m < 2 ^ 32) :
    dataKey key (BitVec.ofNat 32 m) ∉ synKey key :: dataKeys key m := by
  intro hmem
  rcases List.mem_cons.1 hmem with heq | hmem
  · exact synKey_ne_dataKey key key _ heq.symm
  · obtain ⟨k, hk, heq⟩ := List.mem_map.1 hmem
    have hlt := List.mem_range.1 hk
    have := ofNat_inj (by omega) hm (congrArg DedupKey.seq heq)
    omega

def recorded (key : SessionKey) (m : Nat) (r : KeyRing DedupKey) : KeyRing DedupKey :=
  (synKey key :: dataKeys key m).foldl (KeyRing.record kDedupRing) r

theorem recorded_succ (key : SessionKey) (m : Nat) (r : KeyRing DedupKey) :
    recorded key (m + 1) r =
      (recorded key m r).record kDedupRing (dataKey key (BitVec.ofNat 32 m)) := by
  rw [recorded, dataKeys_succ, ← List.cons_append, List.foldl_append]
  rfl

theorem map_recorded_iff {m : Nat} (hm : m < 2 ^ 32) {r : KeyRing DedupKey}
    (hr : r.queue.length ≤ kDedupRing) (hwf : (recorded key m r).Wf kDedupRing) :
    (recorded key m r).map (dataKey key (BitVec.ofNat 32 m)) = true ↔
      dataKey key (BitVec.ofNat 32 m) ∈
        r.queue.drop (r.queue.length + (m + 1) - kDedupRing) := by
  have hlen : (synKey key :: dataKeys key m).length = m + 1 := by simp [dataKeys]
  rw [hwf.mem, recorded, KeyRing.queue_foldl_record hr, hlen, List.drop_append, List.mem_append]
  refine or_iff_left fun hmem => ?_
  exact notMem_dataKeys hm (List.mem_of_mem_drop hmem)

/-- How the data segments of a new session fare: as long as the old queue holds none of their keys
when their turn comes, all of them are kept; afterwards one is missing. -/
structure Fares (S : Setting σ) (key : SessionKey) (segs : List (List ZceByte))
    (old : StreamState σ) (handler : Handler) (m : Nat) (st : StreamState σ) : Prop where
  wf : st.dedup.Wf kDedupRing
  attended : ∃ (v : RxView) (blks : List (List ZceByte)), st.rxView key = some v ∧
    v.handler = some handler ∧
    history key st.events = history key old.events ++
      ([.created (some handler), .opened handler] ++ blks.map (.data handler))
  kept : (∀ k < m, dataKey key (BitVec.ofNat 32 k) ∉
        old.dedup.queue.drop (old.dedup.queue.length + (k + 1) - kDedupRing)) ∧
      Reassembles S key segs (traffic key old.events) (Finset.range m) st ∧
      st.dedup = recorded key m old.dedup ∨
    (¬ ∀ k < m, dataKey key (BitVec.ofNat 32 k) ∉
        old.dedup.queue.drop (old.dedup.queue.length + (k + 1) - kDedupRing)) ∧
      ∃ kept, ∃ j < m, j ∉ kept ∧ Reassembles S key segs (traffic key old.events) kept st

theorem next_range (m : Nat) : next (Finset.range m) = m :=
  next_eq (fun _ hk => Finset.mem_range.2 hk) (by simp)

theorem receive_range {window m : Nat} (hwindow : 0 < window) :
    receive window (Finset.range m) m = Finset.range (m + 1) := by
  rw [receive, next_range, if_pos ⟨le_refl m, by omega⟩, Finset.range_add_one]

variable (hacquires : Acquires S) (hwindow : segs.length ≤ S.config.recvWindow.toNat)

include hspares hne hacquires hwindow in
theorem Fares.step {old : StreamState σ} {handler : Handler} {m : Nat} (hm : m < segs.length)
    (hold : old.dedup.Wf kDedupRing) (ch : ChannelRef) (h : Fares S key segs old handler m st) :
    Fares S key segs old handler (m + 1)
      (handleFrame S ch st (dataFrame T key m segs[m])) := by
  have hW := S.config.recvWindow.isLt
  have hlen : segs.length + S.config.recvWindow.toNat < 2 ^ 32 := by omega
  have hseg : segs[m]? = some segs[m] := List.getElem?_eq_getElem hm
  obtain ⟨hpne, hplen⟩ := hne segs[m] (List.getElem_mem hm)
  refine ⟨handleFrame_wf S ch _ h.wf, ?_, ?_⟩
  · obtain ⟨v, blks, hv, hhandler, hhist⟩ := h.attended
    obtain ⟨v', blks', hv', hhandler', hhist'⟩ :=
      dataFrame_told (T := T) hspares ch (k := m) hpne hplen hv
    refine ⟨v', blks ++ blks', hv', hhandler'.trans hhandler, ?_⟩
    rw [hhist', hhist, hhandler, told, List.map_append, List.append_assoc, List.append_assoc]
  · rcases h.kept with ⟨hclear, hre, hdedup⟩ | ⟨hblocked, kept, j, hj, hjkept, hre⟩
    · have hiff := @map_recorded_iff key m (by omega) _ hold.bounded (hdedup ▸ h.wf)
      cases hmap : st.dedup.map (dataKey key (BitVec.ofNat 32 m)) with
      | true =>
        rw [hdedup] at hmap
        refine Or.inr ⟨fun hall => hall m (Nat.lt_succ_self m) (hiff.1 hmap), Finset.range m, m,
          Nat.lt_succ_self m, by simp, ?_⟩
        rw [← hdedup] at hmap
        rw [dataFrame_dup ch hpne hplen hmap]
        exact hre.passive (noteLoser_judgesOnly ch st).passive
      | false =>
        have hre' := dataFrame_fresh (T := T) hacquires hspares hne hlen ch hseg hmap hre
        rw [receive_range S.config.recvWindow_pos] at hre'
        refine Or.inl ⟨?_, hre', ?_⟩
        · intro k hk hmem
          rcases Nat.lt_succ_iff_lt_or_eq.1 hk with hk | rfl
          · exact hclear k hk hmem
          · rw [hdedup, hiff.2 hmem] at hmap
            exact absurd hmap (by simp)
        · have hin : ¬ outsideWindow S key (BitVec.ofNat 32 m) st := by
            rw [outsideWindow_iff hlen hre hm, next_range, not_not]
            exact ⟨le_refl m, by have := S.config.recvWindow_pos; omega⟩
          rw [handleFrame_dataFrame ch st hpne hplen, hmap, if_neg Bool.false_ne_true, if_neg hin,
            onData_dedup, admitted_dedup, hdedup, recorded_succ]
    · refine Or.inr ⟨fun hall => hblocked fun k hk => hall k (Nat.lt_succ_of_lt hk), ?_⟩
      cases hmap : st.dedup.map (dataKey key (BitVec.ofNat 32 m)) with
      | true =>
        refine ⟨kept, j, Nat.lt_succ_of_lt hj, hjkept, ?_⟩
        rw [dataFrame_dup ch hpne hplen hmap]
        exact hre.passive (noteLoser_judgesOnly ch st).passive
      | false =>
        refine ⟨_, j, Nat.lt_succ_of_lt hj, fun hmem => ?_,
          dataFrame_fresh (T := T) hacquires hspares hne hlen ch hseg hmap hre⟩
        rcases mem_receive_imp hmem with rfl | hmem
        · exact absurd hj (lt_irrefl j)
        · exact hjkept hmem

theorem Fares.served_iff {old : StreamState σ} {handler : Handler}
    (h : Fares S key segs old handler segs.length st) :
    Served key segs old st ↔ ∀ k < segs.length, dataKey key (BitVec.ofNat 32 k) ∉
      old.dedup.queue.drop (old.dedup.queue.length + (k + 1) - kDedupRing) := by
  obtain ⟨v, blks, -, -, hhist⟩ := h.attended
  have hblks : ∀ kept, Reassembles S key segs (traffic key old.events) kept st →
      blks = segs.take (next kept) := by
    intro kept hre
    have htraffic := hre.traffic
    rw [traffic_eq_history, hhist, List.filterMap_append, ← traffic_eq_history,
      List.append_cancel_left_eq, List.filterMap_append, List.filterMap_map] at htraffic
    have hnone : [News.created (some handler), News.opened handler].filterMap News.traffic = [] := rfl
    have hsome : (News.traffic ∘ News.data handler) = some ∘ some := rfl
    rw [hsome, hnone, List.nil_append, List.filterMap_eq_map] at htraffic
    exact List.map_injective_iff.2 (Option.some_injective _) htraffic
  rcases h.kept with ⟨hclear, hre, -⟩ | ⟨hblocked, kept, j, hj, hjkept, hre⟩
  · refine iff_of_true ⟨handler, ?_⟩ hclear
    rw [hhist, hblks _ hre, next_range, List.take_length]
  · refine iff_of_false ?_ hblocked
    rintro ⟨handler', hserved⟩
    rw [hhist, List.append_cancel_left_eq] at hserved
    have hlen := congrArg List.length hserved
    have hnext := next_le hjkept
    rw [List.length_append, List.length_append, List.length_map, List.length_map, hblks _ hre,
      List.length_take] at hlen
    simp only [List.length_cons, List.length_nil] at hlen
    omega

include hspares hne hacquires hwindow in
/-- The frames of a new session, in order, are all given to a new handler if and only if nothing
is left of an earlier session with its number. -/
theorem served_iff_forgotten (hanswers : Answers S key) (hwf : st.dedup.Wf kDedupRing)
    (c : ChannelRef) (ch : Nat → ChannelRef) :
    Served key segs st
        (handleFrames S st ((c, synFrame T key) :: dataArrivals T key ch segs)) ↔
      Forgotten key segs.length st := by
  by_cases hnone : st.sessions key = none
  · cases hmap : st.dedup.map (synKey key) with
    | true =>
      refine iff_of_false (not_served_of_syn_dup hspares hne c ch hmap) ?_
      rintro ⟨-, hsyn, -⟩
      exact hsyn ((hwf.mem _).1 hmap)
    | false =>
      obtain ⟨handler, hview, hhist⟩ := synFrame_created (T := T) hspares hanswers c hmap hnone
      have hdedup : (handleFrame S c st (synFrame T key)).dedup = recorded key 0 st.dedup := by
        rw [handleFrame_synFrame, hmap, if_neg Bool.false_ne_true, onSyn_dedup, admitted_dedup]
        rfl
      have htraffic : traffic key (handleFrame S c st (synFrame T key)).events =
          traffic key st.events :=
        (synFrame_passive hspares c fun _ => hanswers).traffic
      have hstart : Fares S key segs st handler 0 (handleFrame S c st (synFrame T key)) := by
        refine ⟨handleFrame_wf S c _ hwf, ⟨_, [], hview, rfl, hhist⟩, Or.inl ⟨?_, ?_, hdedup⟩⟩
        · exact fun k hk => absurd hk (Nat.not_lt_zero k)
        · rw [← htraffic]
          exact reassembles_fresh segs (Or.inr ⟨handler, hview⟩)
      have hend : Fares S key segs st handler segs.length
          (handleFrames S (handleFrame S c st (synFrame T key)) (dataArrivals T key ch segs)) :=
        afterData_invariant ch
          (fun m hm _ h => h.step hspares hne hacquires hwindow hm hwf (ch m)) hstart
      have hsyn : synKey key ∉ st.dedup.queue := hwf.map_eq_false.1 hmap
      rw [handleFrames, List.foldl_cons, ← handleFrames, hend.served_iff]
      exact ⟨fun h => ⟨hnone, hsyn, h⟩, fun h => h.2.2⟩
  · refine iff_of_false (not_served_of_present hspares hne c ch (mt rxView_eq_none.1 hnone)) ?_
    exact fun h => hnone h.1

end Arrivals

/-- The frames of an Inport that comes back: the hellos of its links, and then those of a session. -/
def restartFrames (T : Setting τ) (key : SessionKey) (segs : List (List ZceByte))
    (hellos : List (ChannelRef × List ZceByte)) (c : ChannelRef) (ch : Nat → ChannelRef) :
    List (ChannelRef × List ZceByte) :=
  hellos ++ (c, synFrame T key) :: dataArrivals T key ch segs

theorem handleFrames_agree {R : Setting σ} {Allowed : Event → Call → Prop}
    (frames : List (ChannelRef × List ZceByte)) (st : StreamState σ) :
    Concurs R Allowed st (handleFrames R st frames) (handleFrames (R.keeping Allowed) st frames) := by
  unfold handleFrames
  refine Concurs.foldl (fun st p => ?_) frames st
  exact handleFrame_agrees p.1 st p.2

/-- Whatever an Outport has served before, an Inport that comes back (as whatever generation) and
whose new session the Outport's owner does not close meanwhile can use a session number if and only
if the Outport has forgotten it. -/
theorem restarted_served_iff {R : Setting σ} {T : Setting τ} {sid generation : ZceUint32}
    {segs : List (List ZceByte)} (hne : ∀ seg ∈ segs, seg ≠ [] ∧ seg.length ≤ MAX_PAYLOAD)
    (hwindow : segs.length ≤ R.config.recvWindow.toNat) (hacquires : Acquires R)
    (hanswers : Answers R (T.config.localIngressId, sid))
    (owner : σ) (past : List (Op σ)) {hellos : List (ChannelRef × List ZceByte)}
    (hhellos : ∀ p ∈ hellos, HelloFrame R T.config.localIngressId generation p.2)
    (c : ChannelRef) (ch : Nat → ChannelRef)
    (hclean : ∀ p ∈ restartFrames T (T.config.localIngressId, sid) segs hellos c ch,
      (run R (DataStream.init owner) past).scratch p.1 = []) :
    let key := (T.config.localIngressId, sid)
    let before := run R (DataStream.init owner) past
    CallsAllowed R (Sparing R key) before.toStreamState
      (run R before (frameOps (restartFrames T key segs hellos c ch))).toStreamState →
    (Served key segs before.toStreamState
        (run R before (frameOps (restartFrames T key segs hellos c ch))).toStreamState ↔
      Forgotten key segs.length before.toStreamState) := by
  intro key before hcalls
  have hsegments : ∀ p ∈ restartFrames T key segs hellos c ch, IsSegment p.2 := by
    intro p hp
    rcases List.mem_append.1 hp with hp | hp
    · exact (hhellos p hp).1
    rcases List.mem_cons.1 hp with rfl | hp
    · exact isSegment_segmentFrame T key _ _ _ (Nat.zero_le _)
    · obtain ⟨k, hk, rfl⟩ := List.mem_mapIdx.1 hp
      exact isSegment_segmentFrame T key _ _ _ (hne _ (List.getElem_mem hk)).2
  rw [run_frameOps hsegments hclean] at hcalls ⊢
  have hspares : SparesAlways (R.keeping (Sparing R key)) key :=
    sparesAlways_keeping R fun _ _ h => h
  have hkept : handleFrames (R.keeping (Sparing R key)) before.toStreamState
      (restartFrames T key segs hellos c ch) = handleFrames R before.toStreamState
        (restartFrames T key segs hellos c ch) := (handleFrames_agree _ _).eq_of_allowed hcalls
  have hhellos' : ∀ p ∈ hellos, HelloFrame (R.keeping (Sparing R key)) T.config.localIngressId
      generation p.2 := hhellos
  obtain ⟨hsessions, hdedup, hevents⟩ := handleFrames_hellos hhellos' before.toStreamState
  have hwf : before.dedup.Wf kDedupRing := run_wf R (KeyRing.wf_empty _) past
  have hiff := @served_iff_forgotten σ τ (R.keeping (Sparing R key)) T _ _
    (handleFrames (R.keeping (Sparing R key)) before.toStreamState hellos) hspares hne hacquires
    hwindow hanswers (hdedup ▸ hwf) c ch
  rw [← hkept, restartFrames, handleFrames_append]
  simp only [Served, Forgotten, hsessions, hdedup, hevents] at hiff ⊢
  exact hiff

def twiceStarted : Setting Unit :=
  Setting.quiet (StreamConfig.make 0#32 2#16 4#16 true 0#32) .empty
    (ZdsCodec.known [([8#8], { ingressId := 7#32, generation := 8#32 }),
      ([9#8], { ingressId := 7#32, generation := 9#32 })] []) (some 5)

def sampleHello (generation : ZceByte) : List ZceByte :=
  wireFrame (helloHeader 7#32) [generation]

theorem sampleHello_helloFrame : HelloFrame twiceStarted 7#32 9#32 (sampleHello 9#8) :=
  @helloFrame_wireFrame Unit twiceStarted { ingressId := 7#32, generation := 9#32 } [9#8] rfl rfl
    (by decide)

def firstLife (sid : ZceUint32) : List (Op Unit) :=
  frameOps [(1, sampleHello 8#8), (1, synFrame inportSetting (7#32, sid)),
    (2, dataFrame inportSetting (7#32, sid) 0 [1#8])]

def secondLife : List (Op Unit) :=
  frameOps (restartFrames inportSetting sampleKey [[1#8, 2#8], [3#8]] [(3, sampleHello 9#8)] 3
    fun _ => 4)

def twiceServed : Setting OutportService :=
  OutportService.setting sampleSockets { relaySetting with zds := twiceStarted.zds }

def strangerLife : List (Op OutportService) :=
  frameOps [(1, sampleHello 8#8), (1, synFrame inportSetting (7#32, 2#32)),
    (2, dataFrame inportSetting (7#32, 2#32) 0 [0x04#8, 0x01#8])]

def strangerRun : DataStream OutportService :=
  run twiceServed (DataStream.init OutportService.init) strangerLife

def greetingLife : List (Op OutportService) :=
  frameOps (restartFrames inportSetting sampleKey [[0x05#8, 0x01#8], [0x00#8]] [(3, sampleHello 9#8)] 3
    fun _ => 4)

theorem restarted_served_iff_other_session :
    strangerRun.sessions (7#32, 2#32) = none ∧
      Served sampleKey [[0x05#8, 0x01#8], [0x00#8]] strangerRun.toStreamState
        (run twiceServed strangerRun greetingLife).toStreamState := by
  refine ⟨Option.isNone_iff_eq_none.1 (by decide +kernel), ?_⟩
  refine (@restarted_served_iff OutportService Unit twiceServed inportSetting 1#32 9#32
    [[0x05#8, 0x01#8], [0x00#8]] (by decide) (by decide) (fun _ _ => List.length_replicate.ge)
    ⟨_, rfl, fun svc => ⟨(svc.ensureSession sampleKey).2, rfl⟩⟩ OutportService.init strangerLife
    [(3, sampleHello 9#8)] ?_ 3 (fun _ => 4) ?_ (by decide +kernel)).2 ⟨?_, ?_, ?_⟩
  · intro p hp
    rw [List.mem_singleton.1 hp]
    exact sampleHello_helloFrame
  · decide +kernel
  · exact Option.isNone_iff_eq_none.1 (by decide +kernel)
  · decide +kernel
  · decide +kernel

theorem restarted_not_served :
    (run twiceStarted (DataStream.init ()) (firstLife 1#32)).peerGeneration = 8#32 ∧
      (run twiceStarted (run twiceStarted (DataStream.init ()) (firstLife 1#32))
        secondLife).peerGeneration = 9#32 ∧
      ¬ Served sampleKey [[1#8, 2#8], [3#8]]
        (run twiceStarted (DataStream.init ()) (firstLife 1#32)).toStreamState
        (run twiceStarted (run twiceStarted (DataStream.init ()) (firstLife 1#32))
          secondLife).toStreamState := by
  refine ⟨by decide +kernel, by decide +kernel, ?_⟩
  rintro ⟨handler, h⟩
  have hsame : history sampleKey (run twiceStarted (run twiceStarted (DataStream.init ())
      (firstLife 1#32)) secondLife).events =
    history sampleKey (run twiceStarted (DataStream.init ()) (firstLife 1#32)).events ++
      [.data 5 [3#8]] := by decide +kernel
  rw [hsame] at h
  exact absurd (congrArg List.length h) (by simp)

end Libfgw
