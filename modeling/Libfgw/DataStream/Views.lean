import Libfgw.DataStream.HandOut

namespace Libfgw

open FgwSegmentHeader Lib

variable {σ : Type}

def Resets (key : SessionKey) (st st' : StreamState σ) : Prop :=
  st'.rxView key = st.rxView key ∨ st'.rxView key = none ∨
    ∃ handler, st'.rxView key = some (RxView.fresh handler)

namespace Resets

variable {key : SessionKey} {st st' st'' : StreamState σ}

theorem refl (key : SessionKey) (st : StreamState σ) : Resets key st st := Or.inl rfl

theorem trans (h : Resets key st st') (h' : Resets key st' st'') : Resets key st st'' := by
  rcases h' with hsame | hgone
  · rw [Resets, hsame]
    exact h
  · exact Or.inr hgone

theorem of_sessions (h : st'.sessions = st.sessions) : Resets key st st' :=
  Or.inl (by rw [StreamState.rxView, StreamState.rxView, h])

end Resets

namespace DataStream

variable {S : Setting σ} {key : SessionKey}

theorem call_views (key : SessionKey) (st : StreamState σ) (c : Call) :
    (call S st c).rxView key = st.rxView key ∨
      (Closes S key c ∧ (call S st c).rxView key = none) ∨
      ∃ handler, Opens S key handler c ∧ st.rxView key = none ∧
        (call S st c).rxView key = some (RxView.fresh handler) := by
  cases c with
  | openSession sid handler =>
    simp only [call, openSession]
    split
    · exact Or.inl rfl
    · rename_i hnew
      rw [rxView_sendSegment, rxView_setSession]
      by_cases hkey : key = (S.config.localIngressId, sid)
      · subst hkey
        have hnone : st.sessions (S.config.localIngressId, sid) = none := by
          rw [← Option.not_isSome_iff_eq_none]
          exact hnew
        refine Or.inr (Or.inr ⟨handler, ⟨rfl, rfl⟩, ?_, if_pos rfl⟩)
        rw [StreamState.rxView, hnone, Option.map_none]
      · exact Or.inl (if_neg hkey)
  | closeSession sid ingressKey =>
    rw [call, rxView_closeSession]
    by_cases hkey : (resolveIngressKey S ingressKey, sid) = key
    · exact Or.inr (Or.inl ⟨hkey, if_pos hkey⟩)
    · exact Or.inl (if_neg hkey)
  | sendSessionData sid buf ingressKey =>
    exact Or.inl (rxView_sendSessionData S sid buf ingressKey st key)

theorem call_resets (key : SessionKey) (st : StreamState σ) (c : Call) :
    Resets key st (call S st c) := by
  rcases call_views key st c with hsame | ⟨-, hgone⟩ | ⟨handler, -, -, hfresh⟩
  · exact Or.inl hsame
  · exact Or.inr (Or.inl hgone)
  · exact Or.inr (Or.inr ⟨handler, hfresh⟩)

theorem calls_reset (key : SessionKey) (cs : List Call) (st : StreamState σ) :
    Resets key st (cs.foldl (call S) st) := by
  induction cs generalizing st with
  | nil => exact Resets.refl key st
  | cons c cs ih => exact (call_resets key st c).trans (ih _)

theorem notify_resets (key : SessionKey) (e : Event) (st : StreamState σ) :
    Resets key st (notify S e st) :=
  (Resets.of_sessions rfl).trans (calls_reset key _ _)

theorem setSession_resets {key key' : SessionKey} (h : key' ≠ key) (st : StreamState σ)
    (s : SessionState) : Resets key st (st.setSession key' s) :=
  Or.inl (by rw [rxView_setSession, if_neg h.symm])

theorem eraseSession_resets (key key' : SessionKey) (st : StreamState σ) :
    Resets key st (st.eraseSession key') := by
  rw [Resets, rxView_eraseSession]
  split
  · exact Or.inr (Or.inl rfl)
  · exact Or.inl rfl

theorem createSession_view (key : SessionKey) (st : StreamState σ) :
    ∃ handler, (createSession S key st).rxView key = some (RxView.fresh handler) := by
  unfold createSession
  split
  · exact ⟨none, by rw [rxView_setSession, if_pos rfl]; rfl⟩
  · exact ⟨_, by rw [rxView_setSession, if_pos rfl]; rfl⟩

theorem createSession_view_of_ne {key key' : SessionKey} (h : key' ≠ key) (st : StreamState σ) :
    (createSession S key' st).rxView key = st.rxView key := by
  unfold createSession
  split
  · rw [rxView_setSession, if_neg h.symm]
  · rw [rxView_setSession, if_neg h.symm]
    rfl

theorem ensureSession_view (key : SessionKey) (st : StreamState σ) :
    ((ensureSession S key st).rxView key = st.rxView key ∧ st.rxView key ≠ none) ∨
      (st.rxView key = none ∧
        ∃ handler, (ensureSession S key st).rxView key = some (RxView.fresh handler)) := by
  unfold ensureSession
  split
  · rename_i hsome
    refine Or.inl ⟨rfl, ?_⟩
    rw [StreamState.rxView, ne_eq, Option.map_eq_none_iff, ← ne_eq, ← Option.isSome_iff_ne_none]
    exact hsome
  · rename_i hnone
    refine Or.inr ⟨?_, createSession_view key st⟩
    rw [StreamState.rxView, Option.map_eq_none_iff, ← Option.not_isSome_iff_eq_none]
    exact hnone

theorem ensureSession_view_of_ne {key key' : SessionKey} (h : key' ≠ key) (st : StreamState σ) :
    (ensureSession S key' st).rxView key = st.rxView key := by
  unfold ensureSession
  split
  · rfl
  · exact createSession_view_of_ne h st

theorem ensureSession_resets (key key' : SessionKey) (st : StreamState σ) :
    Resets key st (ensureSession S key' st) := by
  by_cases hkey : key' = key
  · subst hkey
    rcases ensureSession_view (S := S) key' st with ⟨hsame, -⟩ | ⟨-, hfresh⟩
    · exact Or.inl hsame
    · exact Or.inr (Or.inr hfresh)
  · exact Or.inl (ensureSession_view_of_ne hkey st)

theorem onSyn_resets (key key' : SessionKey) (st : StreamState σ) :
    Resets key st (onSyn S key' st) := by
  refine (ensureSession_resets (S := S) key key' st).trans ?_
  simp only [onSyn]
  split
  · exact Resets.refl key _
  · exact notify_resets key _ _

theorem onFin_resets (key key' : SessionKey) (st : StreamState σ) :
    Resets key st (onFin S key' st) := by
  unfold onFin
  split
  · exact Resets.refl key st
  · split
    · exact eraseSession_resets key key' st
    · exact (notify_resets key _ st).trans (eraseSession_resets key key' _)

theorem handOut_resets (key key' : SessionKey) (handler : Handler) (sid : ZceUint32)
    (blks : List (List ZceByte)) (st : StreamState σ) :
    Resets key st (handOut S key' handler sid blks st) := by
  induction blks generalizing st with
  | nil => exact Resets.refl key st
  | cons blk blks ih =>
    rw [handOut_cons]
    refine Resets.trans ?_ (ih _)
    split
    · exact notify_resets key _ st
    · exact Resets.refl key st

theorem deliverInOrder_resets (key' : SessionKey) {key : SessionKey} {s : SessionState}
    {handler : Handler} (hhandler : s.handler = some handler) (st : StreamState σ) :
    Resets key' (st.setSession key (collectReady s.rxBuffer.size s).2) (deliverInOrder S key s st) := by
  simp only [deliverInOrder, hhandler]
  exact handOut_resets key' key handler s.sessionId _ _

theorem JudgesOnly.resets {key : SessionKey} {st st' : StreamState σ} (h : JudgesOnly st st') :
    Resets key st st' := Resets.of_sessions h.sessions

theorem step_resets (key : SessionKey) {op : Op σ} {ds : DataStream σ}
    (hframes : ∀ ch buf, op ≠ .onChannelBytes ch buf) :
    Resets key ds.toStreamState (step S ds op).toStreamState := by
  cases op with
  | openSession sid handler => exact call_resets key _ (.openSession sid handler)
  | closeSession sid ingressKey => exact call_resets key _ (.closeSession sid ingressKey)
  | sendSessionData sid buf ingressKey =>
    exact call_resets key _ (.sendSessionData sid buf ingressKey)
  | onChannelBytes ch buf => exact absurd rfl (hframes ch buf)
  | emitFeedback => exact (emitFeedback_judgesOnly S _).resets
  | owner owner => exact Resets.of_sessions rfl
  | selector selector => exact Resets.of_sessions rfl

end DataStream

end Libfgw
