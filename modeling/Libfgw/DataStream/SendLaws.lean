import Libfgw.DataStream.Run
import Libfgw.Segment.Wire

namespace Libfgw

open FgwSegmentHeader Lib

namespace LinkSelector

@[simp] theorem length_ranked (sort : StdSort) (pool : List FgwChannel) :
    (ranked sort pool).length = (pool.filter FgwChannel.isLive).length := by
  rw [ranked, (sort.perm _).length_eq, List.length_map]

theorem primaryIdx_lt (sel : LinkSelector) {ranked : List Entry} (h : ranked ≠ []) :
    sel.primaryIdx ranked < ranked.length := by
  have hpos := List.length_pos_of_ne_nil h
  unfold primaryIdx
  split
  · cases hf : ranked.findIdx? (fun e => e.id = sel.primaryChannelId) with
    | none => exact hpos
    | some i => exact (List.findIdx?_eq_some_iff_findIdx_eq.1 hf).1
  · exact hpos

theorem select_eq_nil (sort : StdSort) (sel : LinkSelector) (pool : List FgwChannel) :
    (sel.select sort pool).1 = [] ↔ pool.filter FgwChannel.isLive = [] := by
  have hranked : ranked sort pool = [] ↔ pool.filter FgwChannel.isLive = [] := by
    rw [← List.length_eq_zero_iff, length_ranked, List.length_eq_zero_iff]
  rw [← hranked]
  unfold select
  cases sel.mode with
  | best => simp
  | all => simp
  | weighted =>
    by_cases h : ranked sort pool = []
    · simp [h]
    · have hlt := primaryIdx_lt sel h
      simp only [h, iff_false]
      split <;> simp [List.getElem?_eq_getElem hlt]

end LinkSelector

namespace DataStream

variable {σ : Type} (S : Setting σ)

def segmentFrame (key : SessionKey) (seq : ZceUint32) (flags : ZceByte) (payload : List ZceByte) :
    List ZceByte := wireFrame (segmentHeader S key.1 key.2 seq flags payload.length) payload

def segmentSpace (n : Nat) : Nat :=
  (if S.config.routeOutportId ≠ 0#32 then ROUTED_HEADER_SIZE else HEADER_SIZE) + n

/-- At a given time, the block for a segment with `n` bytes of payload is large enough and
some channel is live. -/
def Sendable (time n : Nat) : Prop :=
  segmentSpace S n ≤ (S.mbacquire time (segmentSpace S n)).length ∧
    (S.manager time).liveChannels ≠ []

instance (time n : Nat) : Decidable (Sendable S time n) := instDecidableAnd

def handedTo (time : Nat) (sel : LinkSelector) (frame : List ZceByte) : List (FgwChannel × Int) :=
  handTo (S.manager time).liveChannels (sel.select S.sort (S.manager time).liveChannels).1 frame

theorem wireHeaderSize_segmentHeader (wireIngress sid seq : ZceUint32) {flags : ZceByte} (n : Nat)
    (hflags : flags &&& FLAG_HDR_ROUTE = 0#8) :
    wireHeaderSize (segmentHeader S wireIngress sid seq flags n) + n = segmentSpace S n := by
  simp only [wireHeaderSize, segmentHeader, segmentSpace, isHdrRoute]
  split
  · have hroute : (flags ||| FLAG_HDR_ROUTE) &&& FLAG_HDR_ROUTE != 0#8 := by
      revert flags
      decide
    rw [if_pos hroute]
  · simp [hflags]

structure Faithful (a : Attempt) : Prop where
  ok_iff : a.result.isOk ↔ Sendable S a.time a.payload.length
  frame_eq : a.result.isOk → a.frame = segmentFrame S a.key a.seq a.flags a.payload
  handed_eq : a.handed =
    if a.result.isOk then handedTo S a.time a.selector (segmentFrame S a.key a.seq a.flags a.payload)
    else []

structure SendSpec (key : SessionKey) (seq : ZceUint32) (flags : ZceByte) (payload : List ZceByte)
    (st : StreamState σ) (result : Except ZfgwErrcode Int) (st' : StreamState σ) (a : Attempt) :
    Prop where
  state_eq : st' = { st with
    clock := st.clock + 1
    selector := st'.selector
    sent := st.sent ++ [a] }
  key_eq : a.key = key
  seq_eq : a.seq = seq
  flags_eq : a.flags = flags
  payload_eq : a.payload = payload
  time_eq : a.time = st.clock
  selector_eq : a.selector = st.selector
  result_eq : a.result = result
  faithful : Faithful S a

theorem sendSegment_eq (wireIngress sid seq : ZceUint32) {flags : ZceByte}
    {payload : Option (List ZceByte)} (st : StreamState σ)
    (hlen : (payload.getD []).length ≤ MAX_PAYLOAD) (hflags : flags &&& FLAG_HDR_ROUTE = 0#8)
    (hspace : segmentSpace S (payload.getD []).length ≤
      (S.mbacquire st.clock (segmentSpace S (payload.getD []).length)).length) :
    ∃ buf, fgwSegmentEncode
        (some (S.mbacquire st.clock (segmentSpace S (payload.getD []).length)))
        (segmentHeader S wireIngress sid seq flags (payload.getD []).length) payload
        (payload.getD []).length =
          .ok (segmentSpace S (payload.getD []).length, buf) ∧
      buf.take (segmentSpace S (payload.getD []).length) =
        segmentFrame S (wireIngress, sid) seq flags (payload.getD []) := by
  have hsize := wireHeaderSize_segmentHeader S wireIngress sid seq (payload.getD []).length hflags
  have henc := fgwSegmentEncode_eq _ (segmentHeader S wireIngress sid seq flags
    (payload.getD []).length) (payload.getD []) hlen (by rw [hsize]; exact hspace)
  have hnull : fgwSegmentEncode
      (some (S.mbacquire st.clock (segmentSpace S (payload.getD []).length)))
      (segmentHeader S wireIngress sid seq flags (payload.getD []).length) payload
      (payload.getD []).length = fgwSegmentEncode
      (some (S.mbacquire st.clock (segmentSpace S (payload.getD []).length)))
      (segmentHeader S wireIngress sid seq flags (payload.getD []).length) (some (payload.getD []))
      (payload.getD []).length := by
    cases payload with
    | none => exact fgwSegmentEncode_null _ _
    | some p => rfl
  rw [hnull, henc, hsize]
  exact ⟨_, rfl, List.take_left' (by rw [length_wireFrame, hsize])⟩

theorem sendSegment_spec (wireIngress sid seq : ZceUint32) {flags : ZceByte}
    {payload : Option (List ZceByte)} (st : StreamState σ)
    (hlen : (payload.getD []).length ≤ MAX_PAYLOAD) (hflags : flags &&& FLAG_HDR_ROUTE = 0#8) :
    ∃ a, SendSpec S (wireIngress, sid) seq flags (payload.getD []) st
      (sendSegment S wireIngress sid seq flags payload st).1
      (sendSegment S wireIngress sid seq flags payload st).2 a := by
  have hroom : (if S.config.routeOutportId ≠ 0#32 then ROUTED_HEADER_SIZE else HEADER_SIZE) +
      (payload.getD []).length = segmentSpace S (payload.getD []).length := rfl
  have hnil := LinkSelector.select_eq_nil S.sort st.selector (S.manager st.clock).liveChannels
  have hlive : (S.manager st.clock).liveChannels.filter FgwChannel.isLive =
      (S.manager st.clock).liveChannels := List.filter_eq_self.2 fun _ => ChannelManager.isLive_of_mem
  rw [hlive] at hnil
  simp only [sendSegment, hroom]
  by_cases hspace : (S.mbacquire st.clock (segmentSpace S (payload.getD []).length)).length <
      segmentSpace S (payload.getD []).length
  · rw [if_pos hspace]
    have hno : ¬ Sendable S st.clock (payload.getD []).length := fun h => absurd h.1 (by omega)
    exact ⟨_, rfl, rfl, rfl, rfl, rfl, rfl, rfl, rfl, by simp [hno, Except.isOk, Except.toBool],
      by simp [Except.isOk, Except.toBool], by simp [Except.isOk, Except.toBool]⟩
  · obtain ⟨buf, henc, hframe⟩ := sendSegment_eq S wireIngress sid seq st hlen hflags (by omega)
    rw [if_neg hspace, henc]
    dsimp only
    rw [hframe]
    by_cases hids : (st.selector.select S.sort (S.manager st.clock).liveChannels).1 = []
    · have hno : ¬ Sendable S st.clock (payload.getD []).length := fun h => h.2 (hnil.1 hids)
      rw [if_pos (List.isEmpty_iff.2 hids)]
      exact ⟨_, rfl, rfl, rfl, rfl, rfl, rfl, rfl, rfl, by simp [hno, Except.isOk, Except.toBool],
        by simp [Except.isOk, Except.toBool], by simp [Except.isOk, Except.toBool]⟩
    · have hyes : Sendable S st.clock (payload.getD []).length := ⟨by omega, fun h => hids (hnil.2 h)⟩
      rw [if_neg (fun h => hids (List.isEmpty_iff.1 h))]
      exact ⟨_, rfl, rfl, rfl, rfl, rfl, rfl, rfl, rfl, by simp [hyes, Except.isOk, Except.toBool],
        fun _ => rfl, by simp [Except.isOk, Except.toBool, handedTo]⟩

/-- Any call of `sendSegment` logs one attempt and moves the clock on.  The selector moves on once
links are chosen. -/
theorem sendSegment_effect (wireIngress sid seq : ZceUint32) (flags : ZceByte)
    (payload : Option (List ZceByte)) (st : StreamState σ) :
    ∃ a sel, (sendSegment S wireIngress sid seq flags payload st).2 =
        { st with clock := st.clock + 1, selector := sel, sent := st.sent ++ [a] } ∧
      a.key = (wireIngress, sid) ∧ a.flags = flags ∧
      (sel = st.selector ∧ ¬ (sendSegment S wireIngress sid seq flags payload st).1.isOk ∨
        sel = (st.selector.select S.sort (S.manager st.clock).liveChannels).2) := by
  have hroom : (if S.config.routeOutportId ≠ 0#32 then ROUTED_HEADER_SIZE else HEADER_SIZE) +
      (payload.getD []).length = segmentSpace S (payload.getD []).length := rfl
  simp only [sendSegment, hroom]
  split
  · exact ⟨_, _, rfl, rfl, rfl, Or.inl ⟨rfl, Bool.false_ne_true⟩⟩
  split
  · exact ⟨_, _, rfl, rfl, rfl, Or.inl ⟨rfl, Bool.false_ne_true⟩⟩
  split <;> exact ⟨_, _, rfl, rfl, rfl, Or.inr rfl⟩

variable {S}

theorem sendChunks_succ (key : SessionKey) (sid : ZceUint32) {buf : List ZceByte} {written : Nat}
    (hlt : written < buf.length) (fuel : Nat) (s : SessionState) (st : StreamState σ) :
    ∃ result st₁, sendSegment S s.wireIngressId sid s.nextSendSeq FLAG_DATA
        (some ((buf.drop written).take (chunkSize S (buf.length - written))))
        (st.setSession key { s with nextSendSeq := s.nextSendSeq + 1#32 }) = (result, st₁) ∧
      ((∃ e, result = .error e ∧
          sendChunks S key sid buf (fuel + 1) written s st = (.error e, st₁)) ∨
        ∃ n, result = .ok n ∧
          sendChunks S key sid buf (fuel + 1) written s st =
            sendChunks S key sid buf fuel (written + chunkSize S (buf.length - written))
              { s with nextSendSeq := s.nextSendSeq + 1#32 } st₁) := by
  obtain ⟨result, st₁, hseg⟩ : ∃ result st₁, sendSegment S s.wireIngressId sid s.nextSendSeq FLAG_DATA
      (some ((buf.drop written).take (chunkSize S (buf.length - written))))
      (st.setSession key { s with nextSendSeq := s.nextSendSeq + 1#32 }) = (result, st₁) := ⟨_, _, rfl⟩
  refine ⟨result, st₁, hseg, ?_⟩
  simp only [sendChunks, hlt, if_true, hseg]
  cases result with
  | error e => exact Or.inl ⟨e, rfl, rfl⟩
  | ok n => exact Or.inr ⟨n, rfl, rfl⟩

theorem sendChunks_done {key : SessionKey} {sid : ZceUint32} {buf : List ZceByte} {written : Nat}
    (hle : ¬ written < buf.length) (fuel : Nat) (s : SessionState) (st : StreamState σ) :
    sendChunks S key sid buf (fuel + 1) written s st = (.ok (intCast written), st) := by
  simp only [sendChunks, hle, if_false]

theorem sendChunks_invariant {P : SessionState → StreamState σ → Prop} (key : SessionKey)
    (sid : ZceUint32) (buf : List ZceByte)
    (hstep : ∀ s st payload, P s st → P { s with nextSendSeq := s.nextSendSeq + 1#32 }
      (sendSegment S s.wireIngressId sid s.nextSendSeq FLAG_DATA payload
        (st.setSession key { s with nextSendSeq := s.nextSendSeq + 1#32 })).2)
    (fuel written : Nat) {s : SessionState} {st : StreamState σ} (h : P s st) :
    ∃ s', P s' (sendChunks S key sid buf fuel written s st).2 := by
  induction fuel generalizing written s st with
  | zero => exact ⟨s, h⟩
  | succ fuel ih =>
    by_cases hlt : written < buf.length
    · obtain ⟨result, st₁, hseg, hout⟩ := sendChunks_succ (S := S) key sid hlt fuel s st
      have hone := hstep s st (some ((buf.drop written).take (chunkSize S (buf.length - written)))) h
      rw [hseg] at hone
      rcases hout with ⟨e, -, hout⟩ | ⟨n, -, hout⟩
      · rw [hout]
        exact ⟨_, hone⟩
      · rw [hout]
        exact ih _ hone
    · rw [sendChunks_done hlt]
      exact ⟨s, h⟩

end DataStream

end Libfgw
