import Libfgw.DataStream.Arrivals

namespace Libfgw

open FgwSegmentHeader Lib

variable {σ : Type}

def relays (key : SessionKey) (events : List Event) : List (Option Handler) :=
  events.filterMap fun
    | .unknownSession key' handler => if key' = key then some handler else none
    | _ => none

theorem relays_append (key : SessionKey) (es es' : List Event) :
    relays key (es ++ es') = relays key es ++ relays key es' := List.filterMap_append

def Shut (key : SessionKey) (st st' : StreamState σ) : Prop :=
  st.sessions key = none → st'.sessions key = none ∧ relays key st'.events = relays key st.events

namespace Shut

variable {key : SessionKey} {st st' st'' : StreamState σ}

theorem refl (key : SessionKey) (st : StreamState σ) : Shut key st st := fun h => ⟨h, rfl⟩

theorem trans (h : Shut key st st') (h' : Shut key st' st'') : Shut key st st'' := by
  intro hnone
  obtain ⟨hnone', hrelays⟩ := h hnone
  obtain ⟨hnone'', hrelays'⟩ := h' hnone'
  exact ⟨hnone'', hrelays'.trans hrelays⟩

theorem of_eq (hs : st'.sessions = st.sessions) (he : st'.events = st.events) :
    Shut key st st' := by
  intro hnone
  rw [hs, he]
  exact ⟨hnone, rfl⟩

end Shut

theorem rxView_eq_none {st : StreamState σ} {key : SessionKey} :
    st.rxView key = none ↔ st.sessions key = none := Option.map_eq_none_iff

namespace DataStream

variable {S : Setting σ} {key key' : SessionKey} {st : StreamState σ}

def NeverOpens (S : Setting σ) (key : SessionKey) : Prop :=
  ∀ o e, ∀ c ∈ (S.onEvent o e).2, ∀ handler, ¬ Opens S key handler c

theorem setSession_shut (h : key' ≠ key) (st : StreamState σ) (s : SessionState) :
    Shut key st (st.setSession key' s) :=
  fun hnone => ⟨(Function.update_of_ne h.symm _ _).trans hnone, rfl⟩

theorem eraseSession_shut (key key' : SessionKey) (st : StreamState σ) :
    Shut key st (st.eraseSession key') := by
  intro hnone
  refine ⟨?_, rfl⟩
  simp only [StreamState.eraseSession, Function.update_apply, hnone, ite_self]

theorem sendSegment_shut (wireIngress sid seq : ZceUint32) (flags : ZceByte)
    (payload : Option (List ZceByte)) (st : StreamState σ) :
    Shut key st (sendSegment S wireIngress sid seq flags payload st).2 :=
  Shut.of_eq (sendSegment_sendsOnly S wireIngress sid seq flags payload st).2
    (sendSegment_sendsOnly S wireIngress sid seq flags payload st).1.events

theorem openSession_shut {sid : ZceUint32} {handler : Option Handler}
    (h : (S.config.localIngressId, sid) ≠ key) (st : StreamState σ) :
    Shut key st (openSession S sid handler st).2 := by
  simp only [openSession]
  split
  · exact Shut.refl key st
  · exact (setSession_shut h st _).trans (sendSegment_shut _ _ _ _ _ _)

theorem closeSession_shut (sid ingressKey : ZceUint32) (st : StreamState σ) :
    Shut key st (closeSession S sid ingressKey st) := by
  intro hnone
  simp only [closeSession]
  split
  · exact ⟨hnone, rfl⟩
  · rename_i s hs
    have hne : (resolveIngressKey S ingressKey, sid) ≠ key := by
      rintro rfl
      rw [hnone] at hs
      exact absurd hs (by simp)
    refine Shut.trans ?_ (eraseSession_shut key _ _) hnone
    split
    · exact Shut.refl key st
    · exact (setSession_shut hne st _).trans (sendSegment_shut _ _ _ _ _ _)

theorem sendSessionData_shut (sid : ZceUint32) (buf : List ZceByte) (ingressKey : ZceUint32)
    (st : StreamState σ) : Shut key st (sendSessionData S sid buf ingressKey st).2 := by
  intro hnone
  refine ⟨?_, ?_⟩
  · rw [← rxView_eq_none, rxView_sendSessionData, rxView_eq_none]
    exact hnone
  · rw [(sendSessionData_sendsOnly S sid buf ingressKey st).events]

theorem call_shut {c : Call} (h : ∀ handler, ¬ Opens S key handler c) (st : StreamState σ) :
    Shut key st (call S st c) := by
  cases c with
  | openSession sid handler => exact openSession_shut (fun hkey => h handler ⟨hkey, rfl⟩) st
  | closeSession sid ingressKey => exact closeSession_shut sid ingressKey st
  | sendSessionData sid buf ingressKey => exact sendSessionData_shut sid buf ingressKey st

theorem calls_shut {cs : List Call} (h : ∀ c ∈ cs, ∀ handler, ¬ Opens S key handler c)
    (st : StreamState σ) : Shut key st (cs.foldl (call S) st) := by
  induction cs generalizing st with
  | nil => exact Shut.refl key st
  | cons c cs ih =>
    obtain ⟨hc, hcs⟩ := List.forall_mem_cons.1 h
    exact (call_shut hc st).trans (ih hcs _)

theorem notify_shut (hnever : NeverOpens S key) {e : Event} (he : relays key [e] = [])
    (st : StreamState σ) : Shut key st (notify S e st) := by
  refine Shut.trans ?_ (calls_shut (hnever st.owner e) _)
  intro hnone
  refine ⟨hnone, ?_⟩
  exact (relays_append key st.events [e]).trans (by rw [he, List.append_nil])

theorem createSession_shut (h : key' ≠ key) (st : StreamState σ) :
    Shut key st (createSession S key' st) := by
  unfold createSession
  split
  · exact setSession_shut h st _
  · refine Shut.trans ?_ (setSession_shut h _ _)
    intro hnone
    refine ⟨hnone, ?_⟩
    exact (relays_append key st.events _).trans (by simp [relays, h])

theorem ensureSession_shut (h : key' ≠ key) (st : StreamState σ) :
    Shut key st (ensureSession S key' st) := by
  unfold ensureSession
  split
  · exact Shut.refl key st
  · exact createSession_shut h st

theorem onSyn_shut (hnever : NeverOpens S key) (h : key' ≠ key) (st : StreamState σ) :
    Shut key st (onSyn S key' st) := by
  refine (ensureSession_shut (S := S) h st).trans ?_
  simp only [onSyn]
  split
  · exact Shut.refl key _
  · exact notify_shut hnever rfl _

theorem onFin_shut (hnever : NeverOpens S key) (key' : SessionKey) (st : StreamState σ) :
    Shut key st (onFin S key' st) := by
  unfold onFin
  split
  · exact Shut.refl key st
  · split
    · exact eraseSession_shut key key' st
    · exact (notify_shut hnever rfl st).trans (eraseSession_shut key key' _)

theorem deliverInOrder_shut (hnever : NeverOpens S key) (h : key' ≠ key) (s : SessionState)
    (st : StreamState σ) : Shut key st (deliverInOrder S key' s st) := by
  unfold deliverInOrder
  split
  · exact Shut.refl key st
  · refine (setSession_shut h st (collectReady s.rxBuffer.size s).2).trans ?_
    dsimp only
    generalize st.setSession key' (collectReady s.rxBuffer.size s).2 = st'
    generalize (collectReady s.rxBuffer.size s).1 = ready
    induction ready generalizing st' with
    | nil => exact Shut.refl key st'
    | cons blk ready ih =>
      rw [List.foldl_cons]
      refine Shut.trans ?_ (ih _)
      split
      · exact notify_shut hnever rfl _
      · exact Shut.refl key st'

theorem onData_shut (hnever : NeverOpens S key) (h : key' ≠ key) (seq : ZceUint32)
    (payload : List ZceByte) (st : StreamState σ) : Shut key st (onData S key' seq payload st) := by
  refine (ensureSession_shut (S := S) h st).trans ?_
  simp only [onData]
  split
  · exact Shut.refl key _
  · refine Shut.trans ?_ (deliverInOrder_shut hnever h _ _)
    exact Shut.trans (Shut.of_eq rfl rfl) (setSession_shut h _ _)

theorem acceptSegment_shut (hnever : NeverOpens S key) (h : key' ≠ key) (hdr : FgwSegmentHeader)
    (payload : List ZceByte) (st : StreamState σ) :
    Shut key st (acceptSegment S key' hdr payload st) := by
  unfold acceptSegment
  have hsyn : Shut key st (if hdr.isSyn then onSyn S key' st else st) := by
    split
    · exact onSyn_shut hnever h st
    · exact Shut.refl key st
  refine hsyn.trans ?_
  dsimp only
  generalize (if hdr.isSyn then onSyn S key' st else st) = st'
  split
  · exact onFin_shut hnever key' st'
  split
  · exact onData_shut hnever h _ _ _
  · exact Shut.refl key _

theorem onFin_absent (key : SessionKey) (st : StreamState σ) :
    (onFin S key st).sessions key = none := by
  unfold onFin
  split
  · assumption
  · split <;> exact Function.update_self _ _ _

theorem relays_onFin (key key' : SessionKey) (st : StreamState σ) :
    relays key (onFin S key' st).events = relays key st.events := by
  unfold onFin
  split
  · rfl
  · split
    · rfl
    · change relays key (notify S _ st).events = _
      rw [notify_events, relays_append]
      exact List.append_nil _

theorem acceptSegment_fin_shut {hdr : FgwSegmentHeader} (hfin : hdr.isFin = true)
    (hsyn : hdr.isSyn = true → S.unknownCb = none) (payload : List ZceByte) (st : StreamState σ) :
    Shut key st (acceptSegment S key hdr payload st) := by
  intro hnone
  simp only [acceptSegment, hfin, if_true]
  refine ⟨onFin_absent key _, ?_⟩
  rw [relays_onFin]
  split
  · rename_i hs
    simp only [onSyn, ensureSession, hnone, Option.isSome_none, Bool.false_eq_true, if_false,
      createSession, hsyn hs, StreamState.setSession, Function.update_self, Option.bind_some]
  · rfl

theorem JudgesOnly.shut (h : JudgesOnly st st') : Shut key st st' := Shut.of_eq h.sessions h.events

/-- The frame would bring a session that has no entry back: no dedup key stops it, and it is a
SYN, or data near the start that is no FIN. -/
def Revives (S : Setting σ) (key : SessionKey) (st : StreamState σ) (f : List ZceByte) : Prop :=
  ∃ hr hdr, fgwSegmentPeekHeader f f.length = .header hr hdr ∧
    ¬ (S.config.verifyCrc = true ∧ fgwSegmentVerifyCrc f hdr hr = false) ∧
    isControl hdr = false ∧ frameKey hdr = key ∧ st.dedup.map (dedupKey key.1 hdr) = false ∧
    ¬ (carriesData hdr = true ∧ S.config.recvWindow.toNat ≤ hdr.seqNum.toNat) ∧
    (hdr.isSyn = true ∧ (hdr.isFin = true → S.unknownCb.isSome) ∨
      carriesData hdr = true ∧ hdr.isFin = false)

theorem onSessionSegment_shut (hnever : NeverOpens S key) (ch : ChannelRef)
    {hdr : FgwSegmentHeader} {payload : List ZceByte}
    (h : frameKey hdr = key → st.dedup.map (dedupKey key.1 hdr) = false →
      ¬ (carriesData hdr = true ∧ S.config.recvWindow.toNat ≤ hdr.seqNum.toNat) →
      (hdr.isFin = true ∧ (hdr.isSyn = true → S.unknownCb = none)) ∨
        (hdr.isSyn = false ∧ carriesData hdr = false)) :
    Shut key st (onSessionSegment S ch hdr payload st) := by
  intro hnone
  simp only [onSessionSegment]
  split
  · exact (noteLoser_judgesOnly ch st).shut hnone
  rename_i hfresh
  split
  · exact ⟨hnone, rfl⟩
  rename_i hin
  refine Shut.trans (noteWinner_judgesOnly ch { st with
    dedup := st.dedup.record kDedupRing (dedupKey (frameKey hdr).1 hdr) }).shut ?_ hnone
  by_cases hkey : frameKey hdr = key
  · have hin' : ¬ (carriesData hdr = true ∧ S.config.recvWindow.toNat ≤ hdr.seqNum.toNat) := by
      rintro ⟨hdata, hseq⟩
      refine hin ⟨hdata, ?_⟩
      simp only [outsideWindow, hkey, hnone, Option.map_none, Option.getD_none, BitVec.sub_zero]
      exact hseq
    subst hkey
    rcases h rfl (by simpa using hfresh) hin' with ⟨hfin, hsyn⟩ | ⟨hsyn, hdata⟩
    · exact acceptSegment_fin_shut hfin hsyn payload _
    · by_cases hfin : hdr.isFin = true
      · exact acceptSegment_fin_shut hfin (fun hs => absurd hs (by simp [hsyn])) payload _
      · simp only [acceptSegment, hsyn, hdata, hfin, Bool.false_eq_true, if_false]
        exact Shut.refl _ _
  · exact acceptSegment_shut hnever hkey hdr payload _

theorem handleFrame_shut (hnever : NeverOpens S key) (ch : ChannelRef) {f : List ZceByte}
    (hf : ¬ Revives S key st f) : Shut key st (handleFrame S ch st f) := by
  rcases handleFrame_cases S ch f st with ⟨-, hjudges⟩ | ⟨hr, hdr, hpeek, hsession, hcrc, heq⟩
  · exact hjudges.shut
  · rw [heq]
    refine onSessionSegment_shut hnever ch fun hkey hfresh hin => ?_
    by_contra hno
    refine hf ⟨hr, hdr, hpeek, by simpa using hcrc, hsession, hkey, hfresh, hin, ?_⟩
    rcases hfin : hdr.isFin <;> rcases hsyn : hdr.isSyn <;>
      rcases hdata : carriesData hdr <;> rcases hcb : S.unknownCb <;> simp_all

theorem relays_notify {e : Event} (he : relays key [e] = []) (st : StreamState σ) :
    relays key (notify S e st).events = relays key st.events := by
  rw [notify_events, relays_append, he, List.append_nil]

theorem relays_deliverInOrder (key' : SessionKey) (s : SessionState) (st : StreamState σ) :
    relays key (deliverInOrder S key' s st).events = relays key st.events := by
  unfold deliverInOrder
  split
  · rfl
  · dsimp only
    generalize hst' : st.setSession key' (collectReady s.rxBuffer.size s).2 = st'
    have hevents : st'.events = st.events := by rw [← hst']; rfl
    rw [← hevents]
    clear hst' hevents
    induction (collectReady s.rxBuffer.size s).1 generalizing st' with
    | nil => rfl
    | cons blk ready ih =>
      rw [List.foldl_cons, ih]
      split
      · exact relays_notify rfl st'
      · rfl

theorem relays_onData (seq : ZceUint32) (payload : List ZceByte) (st : StreamState σ) :
    relays key (onData S key seq payload st).events =
      relays key (ensureSession S key st).events := by
  simp only [onData]
  split
  · rfl
  · exact relays_deliverInOrder key _ _

theorem relays_onSyn (st : StreamState σ) :
    relays key (onSyn S key st).events = relays key (ensureSession S key st).events := by
  simp only [onSyn]
  split
  · rfl
  · exact relays_notify rfl _

theorem relays_ensureSession {cb : σ → SessionKey → σ × Option Handler} (hcb : S.unknownCb = some cb)
    (hnone : st.sessions key = none) :
    relays key (ensureSession S key st).events = relays key st.events ++ [(cb st.owner key).2] := by
  simp only [ensureSession, hnone, createSession, hcb]
  exact (relays_append key st.events _).trans (by simp [relays])

theorem relays_prefix_ensureSession (st : StreamState σ) :
    relays key st.events <+: relays key (ensureSession S key st).events := by
  unfold ensureSession
  split
  · exact List.prefix_rfl
  · unfold createSession
    split
    · exact List.prefix_rfl
    · exact ⟨_, (relays_append key st.events _).symm⟩

theorem acceptSegment_asks {cb : σ → SessionKey → σ × Option Handler} (hcb : S.unknownCb = some cb)
    {hdr : FgwSegmentHeader} (payload : List ZceByte) (hnone : st.sessions key = none)
    (h : hdr.isSyn = true ∨ carriesData hdr = true ∧ hdr.isFin = false) :
    ∃ handler, relays key st.events ++ [handler] <+:
      relays key (acceptSegment S key hdr payload st).events := by
  refine ⟨(cb st.owner key).2, ?_⟩
  rw [← relays_ensureSession hcb hnone]
  unfold acceptSegment
  dsimp only
  cases hsyn : hdr.isSyn with
  | true =>
    simp only [if_true]
    rw [← relays_onSyn]
    split
    · rw [relays_onFin]
    split
    · rw [relays_onData]
      exact relays_prefix_ensureSession _
    · exact List.prefix_rfl
  | false =>
    obtain ⟨hdata, hfin⟩ := h.resolve_left (by simp [hsyn])
    simp only [hfin, hdata, Bool.false_eq_true, if_false, if_true]
    rw [relays_onData]

theorem onData_isSome {s : SessionState} (hs : (ensureSession S key st).sessions key = some s)
    (hhandler : s.handler = none) (seq : ZceUint32) (payload : List ZceByte) :
    (onData S key seq payload st).sessions key ≠ none := by
  have hdeliver : ∀ (s' : SessionState) (st' : StreamState σ), s'.handler = none →
      (deliverInOrder S key s' (st'.setSession key s')).sessions key ≠ none := by
    intro s' st' hs'
    simp only [deliverInOrder, hs', StreamState.setSession, Function.update_self]
    exact Option.some_ne_none s'
  simp only [onData, hs]
  refine hdeliver _ _ ?_
  split <;> exact hhandler

theorem acceptSegment_recreates (hcb : S.unknownCb = none) {hdr : FgwSegmentHeader}
    (payload : List ZceByte) (hnone : st.sessions key = none)
    (h : hdr.isSyn = true ∨ carriesData hdr = true) (hfin : hdr.isFin = false) :
    (acceptSegment S key hdr payload st).sessions key ≠ none := by
  have hensure : ensureSession S key st =
      st.setSession key { sessionId := key.2, wireIngressId := key.1 } := by
    simp [ensureSession, hnone, createSession, hcb]
  have hentry : (ensureSession S key st).sessions key =
      some { sessionId := key.2, wireIngressId := key.1 } := by
    rw [hensure]
    exact Function.update_self _ _ _
  have hsyn' : onSyn S key st = ensureSession S key st := by
    simp only [onSyn, hentry, Option.bind_some]
  have hagain : ensureSession S key (ensureSession S key st) = ensureSession S key st := by
    conv_lhs => rw [ensureSession]
    rw [if_pos (by rw [hentry]; rfl)]
  unfold acceptSegment
  dsimp only
  rw [hfin, if_neg Bool.false_ne_true]
  cases hsyn : hdr.isSyn with
  | true =>
    rw [if_pos rfl, hsyn']
    split
    · exact onData_isSome (hagain ▸ hentry) rfl _ _
    · rw [hentry]
      exact Option.some_ne_none _
  | false =>
    rw [if_neg Bool.false_ne_true, if_pos (h.resolve_left (by simp [hsyn]))]
    exact onData_isSome hentry rfl _ _

theorem handleFrame_revives (ch : ChannelRef) {f : List ZceByte} (hnone : st.sessions key = none)
    (hf : Revives S key st f) : ¬ ((handleFrame S ch st f).sessions key = none ∧
      relays key (handleFrame S ch st f).events = relays key st.events) := by
  obtain ⟨hr, hdr, hpeek, hcrc, hctl, rfl, hfresh, hin, hrevive⟩ := hf
  have hin' : ¬ (carriesData hdr = true ∧ outsideWindow S (frameKey hdr) hdr.seqNum st) := by
    rintro ⟨hdata, hout⟩
    refine hin ⟨hdata, ?_⟩
    simpa only [outsideWindow, hnone, Option.map_none, Option.getD_none, BitVec.sub_zero] using hout
  generalize hst : noteWinner ch { st with
    dedup := st.dedup.record kDedupRing (dedupKey (frameKey hdr).1 hdr) } = st'
  have hnone' : st'.sessions (frameKey hdr) = none := by
    rw [← hst, (noteWinner_judgesOnly ch _).sessions]
    exact hnone
  have hevents : st'.events = st.events := by
    rw [← hst]
    exact (noteWinner_judgesOnly ch _).events
  have haccept : handleFrame S ch st f = acceptSegment S (frameKey hdr) hdr
      ((f.drop hr).take hdr.payloadLen.toNat) st' := by
    rw [handleFrame_segment ch hpeek hctl (by simpa using hcrc)]
    simp only [onSessionSegment, hfresh, Bool.false_eq_true, if_false, hin', hst]
  rw [haccept, ← hevents]
  rintro ⟨habsent, hsame⟩
  cases hcb : S.unknownCb with
  | some cb =>
    obtain ⟨handler, hprefix⟩ := acceptSegment_asks hcb ((f.drop hr).take hdr.payloadLen.toNat)
      hnone' (hrevive.imp_left And.left)
    have hle := hprefix.length_le
    rw [hsame, List.length_append, List.length_singleton] at hle
    omega
  | none =>
    have hfin : hdr.isFin = false := by
      rcases hrevive with ⟨-, hcb'⟩ | ⟨-, hfin⟩
      · rw [hcb] at hcb'
        simpa using hcb'
      · exact hfin
    exact acceptSegment_recreates hcb _ hnone' (hrevive.imp And.left And.left) hfin habsent

def NotOpening (S : Setting σ) (key : SessionKey) : Op σ → Prop
  | .openSession sid _ => (S.config.localIngressId, sid) ≠ key
  | _ => True

theorem step_shut {op : Op σ} (h : NotOpening S key op)
    (hother : ∀ ch buf, op ≠ .onChannelBytes ch buf) (ds : DataStream σ) :
    Shut key ds.toStreamState (step S ds op).toStreamState := by
  cases op with
  | openSession sid handler => exact openSession_shut h _
  | closeSession sid ingressKey => exact closeSession_shut sid ingressKey _
  | sendSessionData sid buf ingressKey => exact sendSessionData_shut sid buf ingressKey _
  | onChannelBytes ch buf => exact absurd rfl (hother ch buf)
  | emitFeedback => exact (emitFeedback_judgesOnly S _).shut
  | owner owner => exact Shut.of_eq rfl rfl
  | selector selector => exact Shut.of_eq rfl rfl

end DataStream

end Libfgw
