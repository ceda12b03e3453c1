import Libfgw.DataStream.Sending

namespace Libfgw

open FgwSegmentHeader Lib

namespace LinkSelector

def places (sel : LinkSelector) (ranked : List Entry) : List Nat :=
  match sel.mode with
  | .best => [0]
  | .all => List.range ranked.length
  | .weighted =>
    sel.primaryIdx ranked :: if 1 < ranked.length then [sel.probeIdx ranked] else []

def StandsAt (sort : StdSort) (pool : List FgwChannel) (k : Nat) (id : ZceUint32) : Prop :=
  ((ranked sort pool)[k]?).map Entry.id = some id

theorem standsAt_iff {sort : StdSort} {pool : List FgwChannel} {k : Nat} {id : ZceUint32} :
    StandsAt sort pool k id ↔ ∃ e, (ranked sort pool)[k]? = some e ∧ e.id = id :=
  Option.map_eq_some_iff

theorem mem_select {sort : StdSort} {sel : LinkSelector} {pool : List FgwChannel} {id : ZceUint32} :
    id ∈ (sel.select sort pool).1 ↔
      ∃ k ∈ sel.places (ranked sort pool), StandsAt sort pool k id := by
  simp only [standsAt_iff]
  unfold select places
  generalize ranked sort pool = r
  cases sel.mode with
  | best => simp [List.head?_eq_getElem?]
  | all =>
    have hmem : ∀ e, e ∈ r ↔ ∃ k < r.length, r[k]? = some e := by
      intro e
      rw [List.mem_iff_getElem?]
      exact exists_congr fun k =>
        ⟨fun hk => ⟨(List.getElem?_eq_some_iff.1 hk).1, hk⟩, fun hk => hk.2⟩
    simp only [List.mem_map, List.mem_range, hmem]
    constructor
    · rintro ⟨e, ⟨k, hlt, hk⟩, hid⟩
      exact ⟨k, hlt, e, hk, hid⟩
    · rintro ⟨k, hlt, e, hk, hid⟩
      exact ⟨e, ⟨k, hlt, hk⟩, hid⟩
  | weighted =>
    dsimp only
    by_cases h : 1 < r.length
    · simp [h]
    · simp [h]

theorem mem_ranked {sort : StdSort} {pool : List FgwChannel} {e : Entry} :
    e ∈ ranked sort pool ↔ ∃ ch ∈ pool, ch.isLive ∧ ⟨ch.channelId, linkWeight ch⟩ = e := by
  rw [ranked, (sort.perm _).mem_iff, List.mem_map]
  simp only [List.mem_filter, and_assoc]

theorem exists_standsAt {sort : StdSort} {pool : List FgwChannel} {id : ZceUint32} :
    (∃ k, StandsAt sort pool k id) ↔ ∃ ch ∈ pool, ch.isLive ∧ ch.channelId = id := by
  simp only [standsAt_iff]
  constructor
  · rintro ⟨k, e, hk, rfl⟩
    obtain ⟨ch, hch, hlive, rfl⟩ := mem_ranked.1 (List.mem_of_getElem? hk)
    exact ⟨ch, hch, hlive, rfl⟩
  · rintro ⟨ch, hch, hlive, rfl⟩
    have hmem : (⟨ch.channelId, linkWeight ch⟩ : Entry) ∈ ranked sort pool :=
      mem_ranked.2 ⟨ch, hch, hlive, rfl⟩
    obtain ⟨k, hk⟩ := List.mem_iff_getElem?.1 hmem
    exact ⟨k, _, hk, rfl⟩

theorem select_mode (sort : StdSort) (sel : LinkSelector) (pool : List FgwChannel) :
    (sel.select sort pool).2.mode = sel.mode := by
  unfold select
  split
  · rfl
  · rfl
  · dsimp only
    split <;> rfl

end LinkSelector

namespace DataStream

variable {σ : Type}

theorem find_liveChannel {m : ChannelManager} {ch : FgwChannel} (hch : ch ∈ m.liveChannels) :
    m.liveChannels.find? (fun c => c.channelId = ch.channelId) = some ch := by
  have hsorted := m.liveChannels_sorted
  generalize m.liveChannels = live at hch hsorted
  induction live with
  | nil => exact absurd hch List.not_mem_nil
  | cons c live ih =>
    obtain ⟨hc, hsorted⟩ := List.pairwise_cons.1 hsorted
    rcases List.mem_cons.1 hch with rfl | hch
    · simp
    · have hne : c.channelId ≠ ch.channelId := by
        have hlt := hc ch hch
        bv_omega
      rw [List.find?_cons_of_neg (by simpa using hne)]
      exact ih hch hsorted

theorem mem_handTo {m : ChannelManager} {ids : List ZceUint32} {frame : List ZceByte}
    {p : FgwChannel × Int} :
    p ∈ handTo m.liveChannels ids frame ↔
      p.1 ∈ m.liveChannels ∧ p.1.channelId ∈ ids ∧ p.2 = p.1.sendBytes frame := by
  simp only [handTo, List.mem_filterMap, Option.map_eq_some_iff]
  constructor
  · rintro ⟨id, hid, ch, hfind, rfl⟩
    have hchid : ch.channelId = id := by simpa using List.find?_some hfind
    exact ⟨List.mem_of_find?_eq_some hfind, by rw [hchid]; exact hid, rfl⟩
  · rintro ⟨hlive, hid, hret⟩
    exact ⟨_, hid, p.1, find_liveChannel hlive, by rw [← hret]⟩

theorem mem_handedTo {S : Setting σ} {time : Nat} {sel : LinkSelector} {frame : List ZceByte}
    {p : FgwChannel × Int} :
    p ∈ handedTo S time sel frame ↔
      p.1 ∈ (S.manager time).liveChannels ∧
        (∃ k ∈ sel.places (LinkSelector.ranked S.sort (S.manager time).liveChannels),
          LinkSelector.StandsAt S.sort (S.manager time).liveChannels k p.1.channelId) ∧
        p.2 = p.1.sendBytes frame := by
  rw [handedTo, mem_handTo, LinkSelector.mem_select]

theorem handedTo_ne_nil {S : Setting σ} {time : Nat} (sel : LinkSelector) (frame : List ZceByte)
    (hlive : (S.manager time).liveChannels ≠ []) : handedTo S time sel frame ≠ [] := by
  have hall : (S.manager time).liveChannels.filter FgwChannel.isLive = (S.manager time).liveChannels :=
    List.filter_eq_self.2 fun _ => ChannelManager.isLive_of_mem
  have hids : (sel.select S.sort (S.manager time).liveChannels).1 ≠ [] :=
    mt (LinkSelector.select_eq_nil S.sort sel _).1 (by rw [hall]; exact hlive)
  obtain ⟨id, hid⟩ := List.exists_mem_of_ne_nil _ hids
  obtain ⟨k, -, hk⟩ := LinkSelector.mem_select.1 hid
  obtain ⟨ch, hch, -, rfl⟩ := LinkSelector.exists_standsAt.1 ⟨k, hk⟩
  exact List.ne_nil_of_mem (mem_handTo.2 ⟨hch, hid, rfl⟩ :
    (ch, ch.sendBytes frame) ∈ handedTo S time sel frame)

variable (S : Setting σ)

def tries : Nat → List (List ZceByte) → List (Nat × List ZceByte)
  | _, [] => []
  | time, p :: ps => (time, p) :: if Sendable S time p.length then tries (time + 1) ps else []

def outgoing (st : StreamState σ) : Call → List (Nat × List ZceByte)
  | .openSession sid _ =>
    if (st.sessions (S.config.localIngressId, sid)).isSome then [] else [(st.clock, [])]
  | .closeSession sid ingressKey =>
    match st.sessions (resolveIngressKey S ingressKey, sid) with
    | none => []
    | some s => if s.closed then [] else [(st.clock, [])]
  | .sendSessionData sid buf ingressKey =>
    match st.sessions (resolveIngressKey S ingressKey, sid) with
    | none => []
    | some s => if s.closed then [] else tries S st.clock (pieces S.config.segmentSize.toNat buf)

theorem sendSegment_mode (wireIngress sid seq : ZceUint32) (flags : ZceByte)
    (payload : Option (List ZceByte)) (st : StreamState σ) :
    (sendSegment S wireIngress sid seq flags payload st).2.selector.mode = st.selector.mode := by
  obtain ⟨a, sel, hout, -, -, ⟨rfl, -⟩ | rfl⟩ := sendSegment_effect S wireIngress sid seq flags payload st
  · rw [hout]
  · rw [hout]
    exact LinkSelector.select_mode _ _ _

structure Logs (mode : ZfgwMultipathMode) (log log' : List Attempt)
    (segs : List (Nat × List ZceByte)) (as : List Attempt) : Prop where
  log_eq : log' = log ++ as
  faithful : ∀ a ∈ as, Faithful S a
  mode_eq : ∀ a ∈ as, a.selector.mode = mode
  segs_eq : as.map (fun a => (a.time, a.payload)) = segs

variable {S}

theorem Logs.nil (mode : ZfgwMultipathMode) (log : List Attempt) : Logs S mode log log [] [] :=
  ⟨(List.append_nil _).symm, by simp, by simp, rfl⟩

theorem Logs.append {mode : ZfgwMultipathMode} {log log' log'' : List Attempt}
    {segs segs' : List (Nat × List ZceByte)} {as as' : List Attempt}
    (h : Logs S mode log log' segs as) (h' : Logs S mode log' log'' segs' as') :
    Logs S mode log log'' (segs ++ segs') (as ++ as') where
  log_eq := by rw [h'.log_eq, h.log_eq, List.append_assoc]
  faithful := List.forall_mem_append.2 ⟨h.faithful, h'.faithful⟩
  mode_eq := List.forall_mem_append.2 ⟨h.mode_eq, h'.mode_eq⟩
  segs_eq := by rw [List.map_append, h.segs_eq, h'.segs_eq]

theorem sendSegment_logs (wireIngress sid seq : ZceUint32) {flags : ZceByte}
    {payload : Option (List ZceByte)} (st : StreamState σ)
    (hlen : (payload.getD []).length ≤ MAX_PAYLOAD) (hflags : flags &&& FLAG_HDR_ROUTE = 0#8) :
    ∃ a, Logs S st.selector.mode st.sent (sendSegment S wireIngress sid seq flags payload st).2.sent
        [(st.clock, payload.getD [])] [a] ∧
      (sendSegment S wireIngress sid seq flags payload st).2.clock = st.clock + 1 ∧
      a.result = (sendSegment S wireIngress sid seq flags payload st).1 := by
  obtain ⟨a, ha⟩ := sendSegment_spec S wireIngress sid seq st hlen hflags
  refine ⟨a, ⟨(congrArg StreamState.sent ha.state_eq).trans rfl, ?_, ?_, ?_⟩,
    (congrArg StreamState.clock ha.state_eq).trans rfl, ha.result_eq⟩
  · simpa using ha.faithful
  · simp [ha.selector_eq]
  · simp [ha.time_eq, ha.payload_eq]

theorem sendChunks_logs {key : SessionKey} {sid : ZceUint32} {buf : List ZceByte} {fuel written : Nat}
    (s : SessionState) (st : StreamState σ) (hfuel : buf.length - written ≤ fuel) :
    ∃ as, Logs S st.selector.mode st.sent (sendChunks S key sid buf fuel written s st).2.sent
      (tries S st.clock (piecesFuel S.config.segmentSize.toNat fuel (buf.drop written))) as := by
  induction fuel generalizing written s st with
  | zero => exact ⟨[], Logs.nil _ _⟩
  | succ fuel ih =>
    by_cases hlt : written < buf.length
    · have hchunk := chunkSize_pos_le S (Nat.sub_pos_of_lt hlt)
      obtain ⟨result, st1, hseg, hout⟩ := sendChunks_succ (S := S) key sid hlt fuel s st
      obtain ⟨a, hlogs, hclock, hresult⟩ := sendSegment_logs (S := S) s.wireIngressId sid
        s.nextSendSeq (st.setSession key { s with nextSendSeq := s.nextSendSeq + 1#32 })
        (length_chunk_le S buf written) (by decide : FLAG_DATA &&& FLAG_HDR_ROUTE = 0#8)
      have hmode := sendSegment_mode S s.wireIngressId sid s.nextSendSeq FLAG_DATA
        (some ((buf.drop written).take (chunkSize S (buf.length - written))))
        (st.setSession key { s with nextSendSeq := s.nextSendSeq + 1#32 })
      rw [hseg] at hlogs hclock hresult hmode
      obtain ⟨htime, hpayload⟩ := Prod.mk.inj (List.singleton_inj.1 hlogs.segs_eq)
      have hok := (hlogs.faithful a (List.mem_singleton_self a)).ok_iff
      rw [htime, hpayload, hresult] at hok
      rw [piecesFuel_drop S hlt, tries]
      rcases hout with ⟨e, rfl, hout⟩ | ⟨n, rfl, hout⟩
      · rw [hout, if_neg (by exact fun h => Bool.false_ne_true (hok.2 h))]
        exact ⟨[a], hlogs⟩
      · rw [hout, if_pos (by exact hok.1 rfl)]
        obtain ⟨as, hlogs'⟩ := @ih (written + chunkSize S (buf.length - written))
          { s with nextSendSeq := s.nextSendSeq + 1#32 } st1 (by omega)
        have hclock1 : st1.clock = st.clock + 1 := hclock
        have hmode1 : st1.selector.mode = st.selector.mode := hmode
        rw [hclock1, hmode1] at hlogs'
        exact ⟨a :: as, hlogs.append hlogs'⟩
    · have hnil : buf.drop written = [] := List.drop_eq_nil_of_le (by omega)
      rw [sendChunks_done hlt, hnil, piecesFuel_nil]
      exact ⟨[], Logs.nil _ _⟩

theorem call_logs (st : StreamState σ) (c : Call) :
    ∃ as, Logs S st.selector.mode st.sent (call S st c).sent (outgoing S st c) as := by
  have hlen : ((none : Option (List ZceByte)).getD []).length ≤ MAX_PAYLOAD := Nat.zero_le _
  cases c with
  | openSession sid handler =>
    simp only [call, openSession, outgoing]
    split
    · exact ⟨[], Logs.nil _ _⟩
    · obtain ⟨a, hlogs, -⟩ := sendSegment_logs (S := S) S.config.localIngressId sid 0#32
        (st.setSession (S.config.localIngressId, sid)
          { sessionId := sid
            wireIngressId := S.config.localIngressId
            handler := handler
            opened := true }) hlen (by decide : FLAG_SYN &&& FLAG_HDR_ROUTE = 0#8)
      exact ⟨[a], hlogs⟩
  | closeSession sid ingressKey =>
    simp only [call, closeSession, outgoing]
    cases hs : st.sessions (resolveIngressKey S ingressKey, sid) with
    | none => exact ⟨[], Logs.nil _ _⟩
    | some s =>
      dsimp only
      cases hclosed : s.closed with
      | true => exact ⟨[], Logs.nil _ _⟩
      | false =>
        obtain ⟨a, hlogs, -⟩ := sendSegment_logs (S := S) s.wireIngressId sid s.nextSendSeq
          (st.setSession (resolveIngressKey S ingressKey, sid)
            { s with nextSendSeq := s.nextSendSeq + 1#32 }) hlen
          (by decide : FLAG_FIN &&& FLAG_HDR_ROUTE = 0#8)
        rw [hclosed] at hlogs
        exact ⟨[a], hlogs⟩
  | sendSessionData sid buf ingressKey =>
    simp only [call, sendSessionData, outgoing]
    cases hs : st.sessions (resolveIngressKey S ingressKey, sid) with
    | none => exact ⟨[], Logs.nil _ _⟩
    | some s =>
      dsimp only
      cases hclosed : s.closed with
      | true => exact ⟨[], Logs.nil _ _⟩
      | false =>
        obtain ⟨as, hlogs⟩ := @sendChunks_logs σ S (resolveIngressKey S ingressKey, sid) sid buf
          buf.length 0 s st (by omega)
        exact ⟨as, hlogs⟩

theorem emitted_logs (st : StreamState σ) (c : Call) :
    Logs S st.selector.mode st.sent (call S st c).sent (outgoing S st c) (emitted S [c] st) := by
  obtain ⟨as, h⟩ := call_logs (S := S) st c
  have has : emitted S [c] st = as := emitted_eq h.log_eq
  rw [has]
  exact h

end DataStream

end Libfgw
