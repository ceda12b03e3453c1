import Libfgw.DataStream.Dedup
import Libfgw.DataStream.Reassembly
import Libfgw.DataStream.SegmentLaws

namespace Libfgw

open FgwSegmentHeader Lib Lib.Reassembly

variable {σ τ : Type}

def dataSeq (key : SessionKey) (f : List ZceByte) : Option Nat :=
  match fgwSegmentPeekHeader f f.length with
  | .header _ hdr =>
    if DataStream.isControl hdr = false ∧ DataStream.frameKey hdr = key ∧
        DataStream.carriesData hdr = true then some hdr.seqNum.toNat
    else none
  | _ => none

namespace DataStream

variable {S : Setting σ} {T : Setting τ} {key : SessionKey} {segs : List (List ZceByte)}
  {base : List (Option (List ZceByte))} {kept : Finset Nat} {st st' : StreamState σ}

theorem Reassembles.of_view (h : Reassembles S key segs base kept st)
    (hview : st'.rxView key = st.rxView key) (hevents : st'.events = st.events) :
    Reassembles S key segs base kept st' where
  kept_lt := h.kept_lt
  absent hnone := h.absent (hview ▸ hnone)
  present v hv := h.present v (hview ▸ hv)
  traffic := hevents ▸ h.traffic

theorem Reassembles.answers (h : Reassembles S key segs base kept st)
    (hnone : st.sessions key = none) : Answers S key :=
  (h.absent (by rw [StreamState.rxView, hnone, Option.map_none])).2

theorem Reassembles.expected (h : Reassembles S key segs base kept st) :
    ((st.sessions key).map SessionState.expectedRxSeq).getD 0#32 = BitVec.ofNat 32 (next kept) := by
  cases hs : st.sessions key with
  | none =>
    obtain ⟨rfl, -⟩ := h.absent (by rw [StreamState.rxView, hs, Option.map_none])
    rw [next_empty]
    rfl
  | some s => exact (h.present s.rxView (by rw [StreamState.rxView, hs, Option.map_some])).2.1

theorem outsideWindow_iff (hlen : segs.length + S.config.recvWindow.toNat < 2 ^ 32)
    (h : Reassembles S key segs base kept st) {k : Nat} (hk : k < segs.length) :
    outsideWindow S key (BitVec.ofNat 32 k) st ↔
      ¬ (next kept ≤ k ∧ k < next kept + S.config.recvWindow.toNat) := by
  have hnext := h.next_le_length
  simp only [outsideWindow, h.expected, BitVec.toNat_sub, BitVec.toNat_ofNat]
  rw [Nat.mod_eq_of_lt (show k < 2 ^ 32 by omega), Nat.mod_eq_of_lt (show next kept < 2 ^ 32 by omega)]
  by_cases hle : next kept ≤ k
  · rw [show 2 ^ 32 - next kept + k = 2 ^ 32 + (k - next kept) by omega, Nat.add_mod_left,
      Nat.mod_eq_of_lt (by omega)]
    omega
  · rw [Nat.mod_eq_of_lt (by omega)]
    omega

theorem carriesData_segmentDecoded {seq : ZceUint32} {flags : ZceByte} {payload : List ZceByte}
    (hlen : payload.length ≤ MAX_PAYLOAD) :
    carriesData (segmentDecoded T key seq flags payload) =
      ((flags &&& FLAG_DATA != 0#8) && decide (payload.length > 0)) := by
  rw [carriesData, isData_segmentDecoded, payloadLen_segmentDecoded T key seq flags payload hlen]

def admitted (ch : ChannelRef) (dk : DedupKey) (st : StreamState σ) : StreamState σ :=
  noteWinner ch { st with dedup := st.dedup.record kDedupRing dk }

@[simp] theorem admitted_sessions (ch : ChannelRef) (dk : DedupKey) (st : StreamState σ) :
    (admitted ch dk st).sessions = st.sessions := (noteWinner_judgesOnly ch _).sessions

@[simp] theorem admitted_events (ch : ChannelRef) (dk : DedupKey) (st : StreamState σ) :
    (admitted ch dk st).events = st.events := (noteWinner_judgesOnly ch _).events

@[simp] theorem admitted_dedup (ch : ChannelRef) (dk : DedupKey) (st : StreamState σ) :
    (admitted ch dk st).dedup = st.dedup.record kDedupRing dk := (noteWinner_judgesOnly ch _).dedup

theorem admitted_passive (ch : ChannelRef) {dk : DedupKey} (h : ∀ seq, dk ≠ dataKey key seq)
    (st : StreamState σ) : Passive key st (admitted ch dk st) :=
  (record_passive h st).trans (noteWinner_judgesOnly ch _).passive

theorem handleFrame_synFrame (ch : ChannelRef) (st : StreamState σ) :
    handleFrame S ch st (synFrame T key) =
      if st.dedup.map (synKey key) then noteLoser ch st
      else onSyn S key (admitted ch (synKey key) st) := by
  have hlen : ([] : List ZceByte).length ≤ MAX_PAYLOAD := Nat.zero_le _
  rw [synFrame, handleFrame_segmentFrame T key 0#32 FLAG_SYN [] S ch st hlen
    (by rw [isControl_segmentDecoded]; decide)]
  simp only [onSessionSegment, acceptSegment, dedupKey_segmentDecoded, frameKey_segmentDecoded,
    carriesData_segmentDecoded hlen, isSyn_segmentDecoded, isFin_segmentDecoded]
  rfl

theorem handleFrame_dataFrame (ch : ChannelRef) (st : StreamState σ) {k : Nat}
    {payload : List ZceByte} (hne : payload ≠ []) (hlen : payload.length ≤ MAX_PAYLOAD) :
    handleFrame S ch st (dataFrame T key k payload) =
      if st.dedup.map (dataKey key (BitVec.ofNat 32 k)) then noteLoser ch st
      else if outsideWindow S key (BitVec.ofNat 32 k) st then st
      else onData S key (BitVec.ofNat 32 k) payload
        (admitted ch (dataKey key (BitVec.ofNat 32 k)) st) := by
  have hpos : payload.length > 0 := List.length_pos_of_ne_nil hne
  have hdata : carriesData (segmentDecoded T key (BitVec.ofNat 32 k) FLAG_DATA payload) = true := by
    rw [carriesData_segmentDecoded hlen, decide_eq_true hpos]
    decide
  have hsyn : isSyn (segmentDecoded T key (BitVec.ofNat 32 k) FLAG_DATA payload) = false := by
    rw [isSyn_segmentDecoded]
    decide
  have hfin : isFin (segmentDecoded T key (BitVec.ofNat 32 k) FLAG_DATA payload) = false := by
    rw [isFin_segmentDecoded]
    decide
  rw [dataFrame, handleFrame_segmentFrame T key _ FLAG_DATA payload S ch st hlen
    (by rw [isControl_segmentDecoded]; decide)]
  simp only [onSessionSegment, acceptSegment, dedupKey_segmentDecoded, frameKey_segmentDecoded,
    hdata, hsyn, hfin, seqNum_segmentDecoded, Bool.false_eq_true, if_false, if_true, true_and]
  rfl

theorem synKey_ne_dataKey (key key' : SessionKey) (seq : ZceUint32) :
    synKey key ≠ dataKey key' seq := by
  simp [synKey, dataKey]

theorem synFrame_passive (hspares : SparesAlways S key) (ch : ChannelRef)
    (hanswers : st.sessions key = none → Answers S key) :
    Passive key st (handleFrame S ch st (synFrame T key)) := by
  rw [handleFrame_synFrame]
  split
  · exact (noteLoser_judgesOnly ch st).passive
  · have hadmit := admitted_passive ch (synKey_ne_dataKey key key) st
    refine hadmit.trans (onSyn_passive hspares fun _ hnone => hanswers ?_)
    rwa [admitted_sessions] at hnone

theorem dataFrame_fresh (hacquires : Acquires S) (hspares : SparesAlways S key)
    (hne : ∀ seg ∈ segs, seg ≠ [] ∧ seg.length ≤ MAX_PAYLOAD)
    (hlen : segs.length + S.config.recvWindow.toNat < 2 ^ 32) (ch : ChannelRef) {k : Nat}
    {payload : List ZceByte} (hseg : segs[k]? = some payload)
    (hfresh : st.dedup.map (dataKey key (BitVec.ofNat 32 k)) = false)
    (h : Reassembles S key segs base kept st) :
    Reassembles S key segs base (receive S.config.recvWindow.toNat kept k)
      (handleFrame S ch st (dataFrame T key k payload)) := by
  have hk : k < segs.length := (List.getElem?_eq_some_iff.1 hseg).1
  obtain ⟨hpne, hplen⟩ := hne payload (List.mem_of_getElem? hseg)
  rw [handleFrame_dataFrame ch st hpne hplen, hfresh, if_neg Bool.false_ne_true]
  split
  · rename_i hout
    rw [receive, if_neg ((outsideWindow_iff hlen h hk).1 hout)]
    exact h
  · rename_i hin
    have hwin := not_not.1 (fun hnot => hin ((outsideWindow_iff hlen h hk).2 hnot))
    rw [receive, if_pos hwin]
    have hst : Reassembles S key segs base kept (admitted ch (dataKey key (BitVec.ofNat 32 k)) st) :=
      h.of_view (by rw [StreamState.rxView, admitted_sessions]; rfl) (admitted_events _ _ _)
    exact onData_reassembles hacquires hspares (fun seg hmem => (hne seg hmem).1) (by omega) hseg
      hwin.1 hst

theorem dataFrame_dup (ch : ChannelRef) {k : Nat} {payload : List ZceByte} (hne : payload ≠ [])
    (hlen : payload.length ≤ MAX_PAYLOAD)
    (hdup : st.dedup.map (dataKey key (BitVec.ofNat 32 k)) = true) :
    handleFrame S ch st (dataFrame T key k payload) = noteLoser ch st := by
  rw [handleFrame_dataFrame ch st hne hlen, if_pos hdup]

theorem hasDedupKey_segmentFrame {seq : ZceUint32} {flags : ZceByte} {payload : List ZceByte}
    (hlen : payload.length ≤ MAX_PAYLOAD) {dk : DedupKey}
    (h : HasDedupKey (segmentFrame T key seq flags payload) dk) :
    dk = ⟨key.1, key.2, seq, if flags &&& FLAG_SYN != 0#8 then .syn
      else if flags &&& FLAG_FIN != 0#8 then .fin else .data⟩ := by
  obtain ⟨hr, hdr, hpeek, -, rfl⟩ := h
  rw [peek_segmentFrame T key seq flags payload hlen] at hpeek
  obtain ⟨-, rfl⟩ := PeekResult.header.inj hpeek
  rw [frameKey_segmentDecoded, dedupKey_segmentDecoded]

theorem hasDedupKey_dataFrame {k : Nat} {payload : List ZceByte}
    (hlen : payload.length ≤ MAX_PAYLOAD) {dk : DedupKey}
    (h : HasDedupKey (dataFrame T key k payload) dk) : dk = dataKey key (BitVec.ofNat 32 k) :=
  hasDedupKey_segmentFrame hlen h

theorem hasDedupKey_synFrame {dk : DedupKey} (h : HasDedupKey (synFrame T key) dk) :
    dk = synKey key := @hasDedupKey_segmentFrame τ T key 0#32 FLAG_SYN [] (Nat.zero_le _) dk h

theorem dataFrame_reassembles (hacquires : Acquires S) (hspares : SparesAlways S key)
    (hne : ∀ seg ∈ segs, seg ≠ [] ∧ seg.length ≤ MAX_PAYLOAD)
    (hlen : segs.length + S.config.recvWindow.toNat < 2 ^ 32) (ch : ChannelRef) {k : Nat}
    {payload : List ZceByte} (hseg : segs[k]? = some payload)
    (h : Reassembles S key segs base kept st) (hrem : Remembers key segs kept st) :
    Reassembles S key segs base (receive S.config.recvWindow.toNat kept k)
        (handleFrame S ch st (dataFrame T key k payload)) ∧
      Remembers key segs (receive S.config.recvWindow.toNat kept k)
        (handleFrame S ch st (dataFrame T key k payload)) := by
  have hk : k < segs.length := (List.getElem?_eq_some_iff.1 hseg).1
  obtain ⟨hpne, hplen⟩ := hne payload (List.mem_of_getElem? hseg)
  cases hmap : st.dedup.map (dataKey key (BitVec.ofNat 32 k)) with
  | true =>
    rw [receive_of_mem (hrem k hk hmap), dataFrame_dup ch hpne hplen hmap]
    exact ⟨h.passive (noteLoser_judgesOnly ch st).passive, hrem.passive (noteLoser_judgesOnly ch st).passive⟩
  | false =>
    refine ⟨dataFrame_fresh hacquires hspares hne hlen ch hseg hmap h, ?_⟩
    by_cases hwin : next kept ≤ k ∧ k < next kept + S.config.recvWindow.toNat
    · rw [receive, if_pos hwin]
      intro j hj hmap'
      rcases map_handleFrame_imp S hmap' with hkey | hold
      · have heq := congrArg DedupKey.seq (hasDedupKey_dataFrame hplen hkey)
        rw [ofNat_inj (by omega) (by omega) heq]
        exact Finset.mem_insert_self k kept
      · exact Finset.mem_insert_of_mem (hrem j hj hold)
    · rw [receive, if_neg hwin, handleFrame_dataFrame ch st hpne hplen, hmap,
        if_neg Bool.false_ne_true, if_pos ((outsideWindow_iff hlen h hk).2 hwin)]
      exact hrem

theorem dataSeq_synFrame (T : Setting τ) (key : SessionKey) : dataSeq key (synFrame T key) = none := by
  have hlen : ([] : List ZceByte).length ≤ MAX_PAYLOAD := Nat.zero_le _
  unfold dataSeq synFrame
  rw [peek_segmentFrame T key 0#32 FLAG_SYN [] hlen]
  dsimp only
  rw [carriesData_segmentDecoded hlen]
  exact if_neg (by simp)

theorem dataSeq_dataFrame {k : Nat} {payload : List ZceByte} (hk : k < 2 ^ 32) (hne : payload ≠ [])
    (hlen : payload.length ≤ MAX_PAYLOAD) : dataSeq key (dataFrame T key k payload) = some k := by
  have hpos : payload.length > 0 := List.length_pos_of_ne_nil hne
  unfold dataSeq dataFrame
  rw [peek_segmentFrame T key _ FLAG_DATA payload hlen]
  dsimp only
  rw [carriesData_segmentDecoded hlen, isControl_segmentDecoded, frameKey_segmentDecoded,
    seqNum_segmentDecoded, BitVec.toNat_ofNat, Nat.mod_eq_of_lt hk, decide_eq_true hpos]
  exact if_pos ⟨by decide, rfl, by decide⟩

theorem dataSeq_foreign {f : List ZceByte} (h : Foreign key f) : dataSeq key f = none := by
  unfold dataSeq
  split
  · rename_i hr hdr hpeek
    rcases h hr hdr hpeek with hctl | hkey
    · simp [hctl]
    · simp [hkey]
  · rfl

/-- What a reference receiver, which sees the session's data frames only, keeps of the frames
that have arrived. -/
def reference (S : Setting σ) (key : SessionKey) (fs : List (List ZceByte)) : Finset Nat :=
  receiveAll S.config.recvWindow.toNat (fs.filterMap (dataSeq key))

theorem reference_append (fs : List (List ZceByte)) (f : List ZceByte) :
    reference S key (fs ++ [f]) = match dataSeq key f with
      | none => reference S key fs
      | some k => receive S.config.recvWindow.toNat (reference S key fs) k := by
  rw [reference, List.filterMap_append, receiveAll, List.foldl_append]
  cases hseq : dataSeq key f with
  | none => simp [hseq, reference, receiveAll]
  | some k => simp [hseq, reference, receiveAll]

def Follows (S : Setting σ) (key : SessionKey) (segs : List (List ZceByte))
    (base : List (Option (List ZceByte))) (tr : List (StreamState σ × List ZceByte))
    (st : StreamState σ) : Prop :=
  Reassembles S key segs base (reference S key (tr.map Prod.snd)) st ∧
    Remembers key segs (reference S key (tr.map Prod.snd)) st

theorem Follows.passive {tr : List (StreamState σ × List ZceByte)}
    (h : Follows S key segs base tr st) (hp : Passive key st st') :
    Follows S key segs base tr st' := ⟨h.1.passive hp, h.2.passive hp⟩

theorem Follows.frame (hacquires : Acquires S) (hspares : SparesAlways S key)
    (hne : ∀ seg ∈ segs, seg ≠ [] ∧ seg.length ≤ MAX_PAYLOAD)
    (hlen : segs.length + S.config.recvWindow.toNat < 2 ^ 32) (ch : ChannelRef) {f : List ZceByte}
    (hf : Foreign key f ∨ IsCopy T key segs f) {tr : List (StreamState σ × List ZceByte)}
    (h : Follows S key segs base tr st) :
    Follows S key segs base (tr ++ [(st, f)]) (handleFrame S ch st f) := by
  rw [Follows, List.map_append, List.map_singleton, reference_append]
  rcases hf with hf | rfl | ⟨k, payload, hseg, rfl⟩
  · rw [dataSeq_foreign hf]
    exact h.passive (handleFrame_passive hspares ch hf st)
  · rw [dataSeq_synFrame]
    exact h.passive (synFrame_passive hspares ch h.1.answers)
  · have hk : k < segs.length := (List.getElem?_eq_some_iff.1 hseg).1
    obtain ⟨hpne, hplen⟩ := hne payload (List.mem_of_getElem? hseg)
    rw [dataSeq_dataFrame (by omega) hpne hplen]
    exact dataFrame_reassembles hacquires hspares hne hlen ch hseg h.1 h.2

/-- The receiver has seen no data of the session, and has or will get a handler for it. -/
structure NewTo (S : Setting σ) (key : SessionKey) (st : StreamState σ) : Prop where
  view : (st.rxView key = none ∧ Answers S key) ∨
    ∃ handler, st.rxView key = some (RxView.fresh (some handler))
  dedup : ∀ seq, st.dedup.map (dataKey key seq) = false

theorem NewTo.passive {S : Setting σ} {key : SessionKey} {st st' : StreamState σ}
    (h : NewTo S key st) (hp : Passive key st st') : NewTo S key st' := by
  refine ⟨?_, ?_⟩
  · rcases hp.view with hsame | ⟨-, hfresh⟩
    · rw [hsame]
      exact h.view
    · exact Or.inr hfresh
  · intro seq
    rw [← Bool.not_eq_true]
    intro hmap
    exact absurd (hp.dedup seq hmap) (by rw [h.dedup seq]; exact Bool.false_ne_true)

theorem reassembles_fresh (segs : List (List ZceByte))
    (h : (st.rxView key = none ∧ Answers S key) ∨
      ∃ handler, st.rxView key = some (RxView.fresh (some handler))) :
    Reassembles S key segs (traffic key st.events) ∅ st where
  kept_lt k hk := absurd hk (Finset.notMem_empty k)
  absent hnone := by
    rcases h with ⟨-, hanswers⟩ | ⟨handler, hfresh⟩
    · exact ⟨rfl, hanswers⟩
    · rw [hfresh] at hnone
      exact absurd hnone (by simp)
  present v hv := by
    rcases h with ⟨hnone, -⟩ | ⟨handler, hfresh⟩
    · rw [hnone] at hv
      exact absurd hv (by simp)
    · rw [hfresh] at hv
      obtain rfl := Option.some.inj hv
      refine ⟨rfl, ?_, buffers_empty _⟩
      rw [next_empty]
      rfl
  traffic := by rw [next_empty, List.take_zero, List.map_nil, List.append_nil]

theorem NewTo.follows (h : NewTo S key st) (segs : List (List ZceByte)) :
    Follows S key segs (traffic key st.events) [] st := by
  refine ⟨reassembles_fresh segs h.view, ?_⟩
  intro k _ hmap
  rw [h.dedup] at hmap
  exact absurd hmap Bool.false_ne_true

end DataStream

end Libfgw
