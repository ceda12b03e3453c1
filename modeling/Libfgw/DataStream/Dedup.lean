import Libfgw.DataStream.Arrivals

namespace Libfgw

open FgwSegmentHeader Lib

namespace DataStream

variable {σ : Type} (S : Setting σ)

@[simp] theorem onSyn_dedup (key : SessionKey) (st : StreamState σ) :
    (onSyn S key st).dedup = st.dedup := (onSyn_servesOnly S key st).dedup

@[simp] theorem deliverInOrder_dedup (key : SessionKey) (s : SessionState) (st : StreamState σ) :
    (deliverInOrder S key s st).dedup = st.dedup := (deliverInOrder_servesOnly S key s st).dedup

@[simp] theorem onData_dedup (key : SessionKey) (seq : ZceUint32) (payload : List ZceByte)
    (st : StreamState σ) : (onData S key seq payload st).dedup = st.dedup :=
  (onData_servesOnly S key seq payload st).dedup

@[simp] theorem acceptSegment_dedup (key : SessionKey) (hdr : FgwSegmentHeader)
    (payload : List ZceByte) (st : StreamState σ) :
    (acceptSegment S key hdr payload st).dedup = st.dedup :=
  (acceptSegment_servesOnly S key hdr payload st).dedup

theorem onSessionSegment_dedup (ch : ChannelRef) (hdr : FgwSegmentHeader) (payload : List ZceByte)
    (st : StreamState σ) : (onSessionSegment S ch hdr payload st).dedup =
      if st.dedup.map (dedupKey (frameKey hdr).1 hdr) ∨
          (carriesData hdr ∧ outsideWindow S (frameKey hdr) hdr.seqNum st) then st.dedup
      else st.dedup.record kDedupRing (dedupKey (frameKey hdr).1 hdr) := by
  simp only [onSessionSegment]
  split
  · rename_i hdup
    rw [if_pos (Or.inl hdup), (noteLoser_judgesOnly ch st).dedup]
  · rename_i hdup
    split
    · rename_i hout
      rw [if_pos (Or.inr hout)]
    · rename_i hin
      rw [if_neg (not_or.2 ⟨hdup, hin⟩), acceptSegment_dedup,
        (noteWinner_judgesOnly ch _).dedup]

def HasDedupKey (f : List ZceByte) (dk : DedupKey) : Prop :=
  ∃ hr hdr, fgwSegmentPeekHeader f f.length = .header hr hdr ∧ isControl hdr = false ∧
    dk = dedupKey (frameKey hdr).1 hdr

theorem handleFrame_dedup (ch : ChannelRef) (f : List ZceByte) (st : StreamState σ) :
    (handleFrame S ch st f).dedup = st.dedup ∨ ∃ dk, HasDedupKey f dk ∧ st.dedup.map dk = false ∧
      (handleFrame S ch st f).dedup = st.dedup.record kDedupRing dk := by
  rcases handleFrame_cases S ch f st with ⟨-, hjudges⟩ | ⟨hr, hdr, hpeek, hsession, -, heq⟩
  · exact Or.inl hjudges.dedup
  · rw [heq, onSessionSegment_dedup]
    split
    · exact Or.inl rfl
    · rename_i hfresh
      exact Or.inr ⟨_, ⟨hr, hdr, hpeek, hsession, rfl⟩, by simpa using (not_or.1 hfresh).1, rfl⟩

theorem map_handleFrame_imp {ch : ChannelRef} {f : List ZceByte} {st : StreamState σ}
    {dk : DedupKey} (h : (handleFrame S ch st f).dedup.map dk = true) :
    HasDedupKey f dk ∨ st.dedup.map dk = true := by
  rcases handleFrame_dedup S ch f st with heq | ⟨dk', hkey, -, heq⟩
  · exact Or.inr (heq ▸ h)
  · rw [heq] at h
    rcases KeyRing.map_record_imp h with rfl | hold
    · exact Or.inl hkey
    · exact Or.inr hold

theorem handleFrame_wf (ch : ChannelRef) (f : List ZceByte) {st : StreamState σ}
    (h : st.dedup.Wf kDedupRing) : (handleFrame S ch st f).dedup.Wf kDedupRing := by
  rcases handleFrame_dedup S ch f st with heq | ⟨dk, -, hfresh, heq⟩
  · rw [heq]
    exact h
  · rw [heq]
    exact h.record hfresh

theorem step_dedup {op : Op σ} (hother : ∀ ch buf, op ≠ .onChannelBytes ch buf)
    (ds : DataStream σ) : (step S ds op).dedup = ds.dedup := by
  cases op with
  | openSession sid handler => exact (openSession_sendsOnly S sid handler _).dedup
  | closeSession sid ingressKey => exact (closeSession_sendsOnly S sid ingressKey _).dedup
  | sendSessionData sid buf ingressKey =>
    exact (sendSessionData_sendsOnly S sid buf ingressKey _).dedup
  | onChannelBytes ch buf => exact absurd rfl (hother ch buf)
  | emitFeedback => exact (emitFeedback_judgesOnly S _).dedup
  | owner owner => rfl
  | selector selector => rfl

theorem run_wf {ds : DataStream σ} (h : ds.dedup.Wf kDedupRing) (ops : List (Op σ)) :
    (run S ds ops).dedup.Wf kDedupRing :=
  @run_invariant σ S (fun _ st => st.dedup.Wf kDedupRing) (fun _ => True) (fun _ => True)
    (fun _ _ ds _ hother h => (step_dedup S hother ds).symm ▸ h)
    (fun ch f _ _ _ h => handleFrame_wf S ch f h) ops ds [] (fun _ _ => trivial) (fun _ _ => trivial) h

end DataStream

end Libfgw
