import Libfgw.DataStream.SendLaws

namespace Libfgw

open FgwSegmentHeader Lib

variable {σ : Type}

def SendsOnly (st st' : StreamState σ) : Prop :=
  st' = { st with
    sessions := st'.sessions
    clock := st'.clock
    selector := st'.selector
    sent := st'.sent }

namespace SendsOnly

variable {st st' st'' : StreamState σ}

theorem refl (st : StreamState σ) : SendsOnly st st := rfl

theorem trans (h : SendsOnly st st') (h' : SendsOnly st' st'') : SendsOnly st st'' := by
  cases st
  cases st'
  cases st''
  simp only [SendsOnly, StreamState.mk.injEq] at *
  simp_all

theorem dedup (h : SendsOnly st st') : st'.dedup = st.dedup :=
  (congrArg StreamState.dedup h).trans rfl

theorem events (h : SendsOnly st st') : st'.events = st.events :=
  (congrArg StreamState.events h).trans rfl

theorem owner (h : SendsOnly st st') : st'.owner = st.owner :=
  (congrArg StreamState.owner h).trans rfl

end SendsOnly

/-- What the receive path keeps of a session. -/
structure RxView where
  expected : ZceUint32
  buffer : SortedMap ZceUint32 (List ZceByte)
  handler : Option Handler

def SessionState.rxView (s : SessionState) : RxView := ⟨s.expectedRxSeq, s.rxBuffer, s.handler⟩

def StreamState.rxView (st : StreamState σ) (key : SessionKey) : Option RxView :=
  (st.sessions key).map SessionState.rxView

def RxView.fresh (handler : Option Handler) : RxView := ⟨0#32, SortedMap.empty, handler⟩

namespace DataStream

variable (S : Setting σ)

def Closes (key : SessionKey) : Call → Prop
  | .closeSession sid ingressKey => (resolveIngressKey S ingressKey, sid) = key
  | _ => False

def Opens (key : SessionKey) (handler : Option Handler) : Call → Prop
  | .openSession sid handler' => (S.config.localIngressId, sid) = key ∧ handler' = handler
  | _ => False

theorem sendSegment_sendsOnly (wireIngress sid seq : ZceUint32) (flags : ZceByte)
    (payload : Option (List ZceByte)) (st : StreamState σ) :
    SendsOnly st (sendSegment S wireIngress sid seq flags payload st).2 ∧
      (sendSegment S wireIngress sid seq flags payload st).2.sessions = st.sessions := by
  obtain ⟨a, sel, hout, -⟩ := sendSegment_effect S wireIngress sid seq flags payload st
  rw [hout]
  exact ⟨rfl, rfl⟩

theorem setSession_sendsOnly (st : StreamState σ) (key : SessionKey) (s : SessionState) :
    SendsOnly st (st.setSession key s) := rfl

theorem eraseSession_sendsOnly (st : StreamState σ) (key : SessionKey) :
    SendsOnly st (st.eraseSession key) := rfl

theorem openSession_sendsOnly (sid : ZceUint32) (handler : Option Handler) (st : StreamState σ) :
    SendsOnly st (openSession S sid handler st).2 := by
  simp only [openSession]
  split
  · exact SendsOnly.refl st
  · exact (setSession_sendsOnly st _ _).trans (sendSegment_sendsOnly S _ _ _ _ _ _).1

theorem closeSession_sendsOnly (sid ingressKey : ZceUint32) (st : StreamState σ) :
    SendsOnly st (closeSession S sid ingressKey st) := by
  simp only [closeSession]
  split
  · exact SendsOnly.refl st
  · refine SendsOnly.trans ?_ (eraseSession_sendsOnly _ _)
    split
    · exact SendsOnly.refl st
    · exact (setSession_sendsOnly st _ _).trans (sendSegment_sendsOnly S _ _ _ _ _ _).1

theorem sendChunks_sendsOnly (key : SessionKey) (sid : ZceUint32) (buf : List ZceByte)
    (fuel written : Nat) (s : SessionState) (st : StreamState σ) :
    SendsOnly st (sendChunks S key sid buf fuel written s st).2 := by
  obtain ⟨s', h⟩ := sendChunks_invariant (S := S) (P := fun _ st' => SendsOnly st st') key sid buf
    (fun s' st' payload h => (h.trans (setSession_sendsOnly st' key _)).trans
      (sendSegment_sendsOnly S _ _ _ _ payload _).1) fuel written (s := s) (SendsOnly.refl st)
  exact h

theorem sendSessionData_sendsOnly (sid : ZceUint32) (buf : List ZceByte) (ingressKey : ZceUint32)
    (st : StreamState σ) : SendsOnly st (sendSessionData S sid buf ingressKey st).2 := by
  simp only [sendSessionData]
  split
  · exact SendsOnly.refl st
  · split
    · exact SendsOnly.refl st
    · exact sendChunks_sendsOnly S _ _ _ _ _ _ _

theorem call_sendsOnly (st : StreamState σ) (c : Call) : SendsOnly st (call S st c) := by
  cases c with
  | openSession sid handler => exact openSession_sendsOnly S sid handler st
  | closeSession sid ingressKey => exact closeSession_sendsOnly S sid ingressKey st
  | sendSessionData sid buf ingressKey => exact sendSessionData_sendsOnly S sid buf ingressKey st

theorem calls_sendsOnly (cs : List Call) (st : StreamState σ) :
    SendsOnly st (cs.foldl (call S) st) := by
  induction cs generalizing st with
  | nil => exact SendsOnly.refl st
  | cons c cs ih => exact (call_sendsOnly S st c).trans (ih _)

def Grows (key : SessionKey) (st st' : StreamState σ) : Prop :=
  st'.rxView key = st.rxView key ∨
    (st.rxView key = none ∧ ∃ handler, st'.rxView key = some (RxView.fresh (some handler)))

theorem Grows.refl (key : SessionKey) (st : StreamState σ) : Grows key st st := Or.inl rfl

theorem Grows.trans {key : SessionKey} {st st' st'' : StreamState σ} (h : Grows key st st')
    (h' : Grows key st' st'') : Grows key st st'' := by
  rcases h with h | ⟨hnone, handler, h⟩
  · rcases h' with h' | ⟨hnone', handler', h'⟩
    · exact Or.inl (h'.trans h)
    · exact Or.inr ⟨h.symm.trans hnone', handler', h'⟩
  · rcases h' with h' | ⟨hnone', _⟩
    · exact Or.inr ⟨hnone, handler, h'.trans h⟩
    · rw [h] at hnone'
      exact absurd hnone' (by simp)

theorem Grows.present {key : SessionKey} {st st' : StreamState σ} (h : Grows key st st')
    (hview : st.rxView key ≠ none) : st'.rxView key ≠ none := by
  rcases h with hsame | ⟨hnone, -⟩
  · rw [hsame]
    exact hview
  · exact absurd hnone hview

theorem rxView_setSession (st : StreamState σ) (key key' : SessionKey) (s : SessionState) :
    (st.setSession key s).rxView key' = if key' = key then some s.rxView else st.rxView key' := by
  simp only [StreamState.rxView, StreamState.setSession, Function.update_apply]
  split <;> rfl

theorem rxView_eraseSession (st : StreamState σ) (key key' : SessionKey) :
    (st.eraseSession key).rxView key' = if key' = key then none else st.rxView key' := by
  simp only [StreamState.rxView, StreamState.eraseSession, Function.update_apply]
  split <;> rfl

theorem rxView_sendSegment (wireIngress sid seq : ZceUint32) (flags : ZceByte)
    (payload : Option (List ZceByte)) (st : StreamState σ) (key : SessionKey) :
    (sendSegment S wireIngress sid seq flags payload st).2.rxView key = st.rxView key := by
  simp only [StreamState.rxView, (sendSegment_sendsOnly S wireIngress sid seq flags payload st).2]

theorem openSession_grows {key : SessionKey} {sid : ZceUint32} {handler : Option Handler}
    (h : Opens S key none (.openSession sid handler) → False) (st : StreamState σ) :
    Grows key st (openSession S sid handler st).2 := by
  simp only [openSession]
  split
  · exact Grows.refl key st
  · rename_i hnew
    simp only [Grows, rxView_sendSegment, rxView_setSession]
    split
    · rename_i hkey
      refine Or.inr ⟨?_, ?_⟩
      · rw [StreamState.rxView, hkey, Option.map_eq_none_iff, ← Option.not_isSome_iff_eq_none]
        exact hnew
      · cases handler with
        | none => exact absurd ⟨hkey.symm, rfl⟩ h
        | some handler => exact ⟨handler, rfl⟩
    · exact Or.inl rfl

theorem rxView_closeSession (sid ingressKey : ZceUint32) (st : StreamState σ) (key : SessionKey) :
    (closeSession S sid ingressKey st).rxView key =
      if (resolveIngressKey S ingressKey, sid) = key then none else st.rxView key := by
  simp only [closeSession]
  split
  · rename_i hnone
    split
    · rename_i hkey
      rw [StreamState.rxView, ← hkey, hnone]
      rfl
    · rfl
  · rw [rxView_eraseSession]
    by_cases hkey : (resolveIngressKey S ingressKey, sid) = key
    · rw [if_pos hkey.symm, if_pos hkey]
    · rw [if_neg (Ne.symm hkey), if_neg hkey]
      split
      · rfl
      · rw [rxView_sendSegment, rxView_setSession, if_neg (Ne.symm hkey)]

theorem closeSession_grows {key : SessionKey} {sid ingressKey : ZceUint32}
    (h : (resolveIngressKey S ingressKey, sid) ≠ key) (st : StreamState σ) :
    Grows key st (closeSession S sid ingressKey st) := by
  refine Or.inl ?_
  rw [rxView_closeSession, if_neg h]

theorem rxView_sendChunks {key : SessionKey} (sid : ZceUint32) (buf : List ZceByte)
    {fuel written : Nat} {s : SessionState} {st : StreamState σ}
    (hs : (st.sessions key).map SessionState.rxView = some s.rxView) (key' : SessionKey) :
    (sendChunks S key sid buf fuel written s st).2.rxView key' = st.rxView key' := by
  -- the session is put back with its receive side as it was
  have hset : ∀ (s' : SessionState) (st' : StreamState σ), st'.rxView key = some s'.rxView → ∀ k,
      (st'.setSession key { s' with nextSendSeq := s'.nextSendSeq + 1#32 }).rxView k =
        st'.rxView k := by
    intro s' st' h k
    rw [rxView_setSession]
    split
    · rename_i hk
      rw [hk]
      exact h.symm
    · rfl
  obtain ⟨s', -, h⟩ := sendChunks_invariant (S := S)
    (P := fun s' st' => st'.rxView key = some s'.rxView ∧ ∀ k, st'.rxView k = st.rxView k) key sid buf
    (fun s' st' payload h =>
      have hone := fun k => (rxView_sendSegment S s'.wireIngressId sid s'.nextSendSeq FLAG_DATA payload
        _ k).trans (hset s' st' h.1 k)
      ⟨(hone key).trans h.1, fun k => (hone k).trans (h.2 k)⟩) fuel written ⟨hs, fun _ => rfl⟩
  exact h key'

theorem rxView_sendSessionData (sid : ZceUint32) (buf : List ZceByte) (ingressKey : ZceUint32)
    (st : StreamState σ) (key : SessionKey) :
    (sendSessionData S sid buf ingressKey st).2.rxView key = st.rxView key := by
  simp only [sendSessionData]
  split
  · rfl
  · rename_i s hs
    split
    · rfl
    · exact rxView_sendChunks S sid buf (by rw [hs]; rfl) key

def Spares (key : SessionKey) (c : Call) : Prop := ¬ Closes S key c ∧ ¬ Opens S key none c

theorem call_grows {key : SessionKey} {c : Call} (h : Spares S key c) (st : StreamState σ) :
    Grows key st (call S st c) := by
  cases c with
  | openSession sid handler => exact openSession_grows S h.2 st
  | closeSession sid ingressKey => exact closeSession_grows S h.1 st
  | sendSessionData sid buf ingressKey =>
    exact Or.inl (rxView_sendSessionData S sid buf ingressKey st key)

theorem calls_grow {key : SessionKey} {cs : List Call} (h : ∀ c ∈ cs, Spares S key c)
    (st : StreamState σ) : Grows key st (cs.foldl (call S) st) := by
  induction cs generalizing st with
  | nil => exact Grows.refl key st
  | cons c cs ih =>
    obtain ⟨hc, hcs⟩ := List.forall_mem_cons.1 h
    exact (call_grows S hc st).trans (ih hcs _)

end DataStream

end Libfgw
