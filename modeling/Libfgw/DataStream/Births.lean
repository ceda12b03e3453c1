import Libfgw.DataStream.Absence
import Libfgw.DataStream.Delivery
import Libfgw.DataStream.Views

namespace Libfgw

open FgwSegmentHeader Lib

variable {σ : Type}

def openings (key : SessionKey) (sent : List Attempt) : List Attempt :=
  sent.filter fun a => a.key = key ∧ a.flags = FLAG_SYN

def births (key : SessionKey) (st : StreamState σ) : Nat :=
  (relays key st.events).length + (openings key st.sent).length

theorem births_of_eq {key : SessionKey} {st st' : StreamState σ} (he : st'.events = st.events)
    (hs : st'.sent = st.sent) : births key st' = births key st := by
  rw [births, births, he, hs]

theorem births_logEvent {key : SessionKey} {e : Event} (he : relays key [e] = [])
    (st : StreamState σ) : births key (st.logEvent e) = births key st := by
  rw [births, births, StreamState.logEvent, relays_append, he, List.append_nil]

structure SessionsKept (st st' : StreamState σ) : Prop where
  sessions : st'.sessions = st.sessions
  dedup : st'.dedup = st.dedup
  events : st'.events = st.events
  sent : st'.sent = st.sent

namespace DataStream

variable {S : Setting σ} {key : SessionKey}

theorem JudgesOnly.kept {st st' : StreamState σ} (h : JudgesOnly st st') : SessionsKept st st' :=
  ⟨h.sessions, h.dedup, h.events, h.sent⟩

theorem sendSegment_sent (wireIngress sid seq : ZceUint32) (flags : ZceByte)
    (payload : Option (List ZceByte)) (st : StreamState σ) :
    ∃ a, (sendSegment S wireIngress sid seq flags payload st).2.sent = st.sent ++ [a] ∧
      a.key = (wireIngress, sid) ∧ a.flags = flags := by
  obtain ⟨a, sel, hout, hkey, hflags, -⟩ := sendSegment_effect S wireIngress sid seq flags payload st
  exact ⟨a, by rw [hout], hkey, hflags⟩

theorem births_sendSegment {wireIngress sid seq : ZceUint32} {flags : ZceByte}
    (h : (wireIngress, sid) ≠ key ∨ flags ≠ FLAG_SYN) (payload : Option (List ZceByte))
    (st : StreamState σ) :
    births key (sendSegment S wireIngress sid seq flags payload st).2 = births key st := by
  obtain ⟨a, hsent, hkey, hflags⟩ := sendSegment_sent (S := S) wireIngress sid seq flags payload st
  have hnot : openings key [a] = [] := by
    refine List.filter_eq_nil_iff.2 fun b hb => ?_
    obtain rfl := List.mem_singleton.1 hb
    rw [hkey, hflags, decide_eq_true_eq, not_and_or]
    exact h
  have hevents := (sendSegment_sendsOnly S wireIngress sid seq flags payload st).1.events
  rw [births, births, hevents, hsent, openings, List.filter_append]
  exact congrArg (fun l => _ + List.length l) ((congrArg (_ ++ ·) hnot).trans (List.append_nil _))

theorem births_sendChunks (key' : SessionKey) (sid : ZceUint32) (buf : List ZceByte)
    (fuel written : Nat) (s : SessionState) (st : StreamState σ) :
    births key (sendChunks S key' sid buf fuel written s st).2 = births key st := by
  obtain ⟨s', h⟩ := sendChunks_invariant (S := S) (P := fun _ st' => births key st' = births key st) key'
    sid buf (fun s' st' payload h => (births_sendSegment (Or.inr (by decide)) payload _).trans h) fuel
    written (s := s) rfl
  exact h

theorem call_births (key : SessionKey) (st : StreamState σ) (c : Call) :
    births key (call S st c) = births key st ∨
      ∃ handler, Opens S key handler c ∧ st.rxView key = none ∧
        (call S st c).rxView key = some (RxView.fresh handler) := by
  cases c with
  | openSession sid handler =>
    by_cases hkey : (S.config.localIngressId, sid) = key
    · simp only [call, openSession]
      split
      · exact Or.inl rfl
      · rename_i hnew
        have hnone : st.sessions key = none := hkey ▸ Option.not_isSome_iff_eq_none.1 hnew
        refine Or.inr ⟨handler, ⟨hkey, rfl⟩, by rw [StreamState.rxView, hnone, Option.map_none], ?_⟩
        rw [rxView_sendSegment, rxView_setSession, if_pos hkey.symm]
        rfl
    · refine Or.inl ?_
      simp only [call, openSession]
      split
      · rfl
      · exact births_sendSegment (Or.inl hkey) _ _
  | closeSession sid ingressKey =>
    refine Or.inl ?_
    simp only [call, closeSession]
    split
    · rfl
    · split
      · rfl
      · exact births_sendSegment (Or.inr (by decide)) _ _
  | sendSessionData sid buf ingressKey =>
    refine Or.inl ?_
    simp only [call, sendSessionData]
    split
    · rfl
    split
    · rfl
    · exact births_sendChunks _ _ _ _ _ _ _

theorem createSession_births {key' : SessionKey} (h : key' ≠ key) (st : StreamState σ) :
    births key (createSession S key' st) = births key st := by
  unfold createSession
  split
  · rfl
  · exact births_logEvent (by simp [relays, h]) st

theorem ensureSession_births {key' : SessionKey} (h : key' ≠ key) (st : StreamState σ) :
    births key (ensureSession S key' st) = births key st := by
  unfold ensureSession
  split
  · rfl
  · exact createSession_births h st

end DataStream

end Libfgw
