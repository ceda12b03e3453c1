import Libfgw.DataStream.Views

namespace Libfgw

open FgwSegmentHeader Lib

variable {σ : Type}

def Event.callee : Event → Option Handler
  | .unknownSession _ _ => none
  | .sessionOpen _ handler _ => some handler
  | .sessionData _ handler _ _ => some handler
  | .sessionClose _ handler _ => some handler

def Call.Own (key : SessionKey) : Call → Prop
  | .openSession _ _ => False
  | .closeSession sid ingressKey => (ingressKey, sid) = key
  | .sendSessionData sid _ ingressKey => (ingressKey, sid) = key

/-- Every other session has its entry as it was, and no handler of another session has been
called. -/
structure Isolated (key : SessionKey) (st st' : StreamState σ) : Prop where
  entries : ∀ other, other ≠ key → st'.sessions other = st.sessions other
  events : ∃ es, st'.events = st.events ++ es ∧ ∀ e ∈ es, e.key = key ∧
    ∀ handler, e.callee = some handler → ∀ other s, other ≠ key → st.sessions other = some s →
      s.handler ≠ some handler

namespace Isolated

variable {key : SessionKey} {st st' st'' : StreamState σ}

theorem of_entries (h : ∀ other, other ≠ key → st'.sessions other = st.sessions other)
    (hevents : st'.events = st.events) : Isolated key st st' :=
  ⟨h, [], by rw [hevents, List.append_nil], fun _ he => absurd he List.not_mem_nil⟩

theorem trans (h : Isolated key st st') (h' : Isolated key st' st'') : Isolated key st st'' := by
  obtain ⟨es, hes, hown⟩ := h.events
  obtain ⟨es', hes', hown'⟩ := h'.events
  refine ⟨fun other hother => (h'.entries other hother).trans (h.entries other hother), es ++ es',
    by rw [hes', hes, List.append_assoc], ?_⟩
  refine List.forall_mem_append.2 ⟨hown, fun e he => ⟨(hown' e he).1, ?_⟩⟩
  intro handler hcallee other s hother hs
  exact (hown' e he).2 handler hcallee other s hother ((h.entries other hother).trans hs)

end Isolated

/-- The key of the session selects that session, or else none. -/
def Unshadowed (S : Setting σ) (key : SessionKey) (st : StreamState σ) : Prop :=
  DataStream.resolveIngressKey S key.1 = key.1 ∨
    st.sessions (DataStream.resolveIngressKey S key.1, key.2) = none

theorem Unshadowed.isolated {S : Setting σ} {key : SessionKey} {st st' : StreamState σ}
    (h : Unshadowed S key st) (hisolated : Isolated key st st') : Unshadowed S key st' := by
  rcases h with hsame | hnone
  · exact Or.inl hsame
  · by_cases hsame : DataStream.resolveIngressKey S key.1 = key.1
    · exact Or.inl hsame
    · exact Or.inr ((hisolated.entries _ fun heq => hsame (congrArg Prod.fst heq)).trans hnone)

namespace DataStream

variable {S : Setting σ}

section Calls

variable {sid ingressKey : ZceUint32} {st : StreamState σ}

theorem closeSession_absent (h : st.sessions (resolveIngressKey S ingressKey, sid) = none) :
    closeSession S sid ingressKey st = st := by
  simp only [closeSession, h]

theorem sendSessionData_absent (h : st.sessions (resolveIngressKey S ingressKey, sid) = none)
    (buf : List ZceByte) : (sendSessionData S sid buf ingressKey st).2 = st := by
  simp only [sendSessionData, h]

theorem closeSession_sessions_of_ne {key : SessionKey}
    (h : key ≠ (resolveIngressKey S ingressKey, sid)) :
    (closeSession S sid ingressKey st).sessions key = st.sessions key := by
  simp only [closeSession]
  split
  · rfl
  refine (Function.update_of_ne h _ _).trans ?_
  split
  · rfl
  · rw [(sendSegment_sendsOnly S _ _ _ _ _ _).2]
    exact Function.update_of_ne h _ _

theorem sendSessionData_sessions_of_ne {key : SessionKey}
    (h : key ≠ (resolveIngressKey S ingressKey, sid)) (buf : List ZceByte) :
    (sendSessionData S sid buf ingressKey st).2.sessions key = st.sessions key := by
  simp only [sendSessionData]
  split
  · rfl
  split
  · rfl
  rename_i s _ _
  obtain ⟨-, hkept⟩ := sendChunks_invariant (S := S)
    (P := fun _ st' => st'.sessions key = st.sessions key) (resolveIngressKey S ingressKey, sid) sid buf
    (fun s' st' payload hst => by
      rw [(sendSegment_sendsOnly S _ _ _ _ _ _).2]
      exact (Function.update_of_ne h _ _).trans hst) buf.length 0 (s := s) rfl
  exact hkept

end Calls

theorem closeSession_isolated {key : SessionKey} {st : StreamState σ} (h : Unshadowed S key st) :
    Isolated key st (closeSession S key.2 key.1 st) := by
  rcases h with hsame | hnone
  · refine .of_entries (fun other hother => closeSession_sessions_of_ne ?_)
      (closeSession_sendsOnly S _ _ st).events
    rwa [hsame]
  · rw [closeSession_absent hnone]
    exact .of_entries (fun _ _ => rfl) rfl

theorem sendSessionData_isolated {key : SessionKey} {st : StreamState σ} (h : Unshadowed S key st)
    (buf : List ZceByte) : Isolated key st (sendSessionData S key.2 buf key.1 st).2 := by
  rcases h with hsame | hnone
  · refine .of_entries (fun other hother => sendSessionData_sessions_of_ne ?_ buf)
      (sendSessionData_sendsOnly S _ buf _ st).events
    rwa [hsame]
  · rw [sendSessionData_absent hnone]
    exact .of_entries (fun _ _ => rfl) rfl

theorem closeSession_isolated_iff {key : SessionKey} {st : StreamState σ} :
    Isolated key st (closeSession S key.2 key.1 st) ↔ Unshadowed S key st := by
  refine ⟨fun h => ?_, closeSession_isolated⟩
  by_cases hsame : resolveIngressKey S key.1 = key.1
  · exact Or.inl hsame
  · have hgone := rxView_closeSession S key.2 key.1 st (resolveIngressKey S key.1, key.2)
    rw [if_pos rfl, StreamState.rxView, Option.map_eq_none_iff] at hgone
    rw [h.entries _ fun heq => hsame (congrArg Prod.fst heq)] at hgone
    exact Or.inr hgone

/-- Handlers that mind their own sessions: each serves one of them, and calls the stream about
that one only. -/
structure Tended (S : Setting σ) where
  Good : σ → Prop
  Serves : σ → Handler → SessionKey → Prop
  own : ∀ {o handler key other}, Serves o handler key → Serves o handler other → key = other
  unknown : ∀ {cb o}, S.unknownCb = some cb → Good o → ∀ key, Good (cb o key).1 ∧
    (∀ {handler other}, Serves o handler other → Serves (cb o key).1 handler other) ∧
    ∀ handler, (cb o key).2 = some handler → Serves (cb o key).1 handler key
  event : ∀ {o e handler}, Good o → e.callee = some handler → Serves o handler e.key →
    Good (S.onEvent o e).1 ∧
      (∀ {h other}, Serves o h other → Serves (S.onEvent o e).1 h other) ∧
      ∀ c ∈ (S.onEvent o e).2, c.Own e.key

variable (T : Tended S)

structure Served (st : StreamState σ) : Prop where
  good : T.Good st.owner
  serves : ∀ key s handler, st.sessions key = some s → s.handler = some handler →
    T.Serves st.owner handler key

def Tends (key : SessionKey) (st st' : StreamState σ) : Prop :=
  Served T st → Served T st' ∧
    (∀ handler other, T.Serves st.owner handler other → T.Serves st'.owner handler other) ∧
    (Unshadowed S key st → Isolated key st st')

namespace Tends

variable {T} {key : SessionKey} {st st' st'' : StreamState σ}

theorem of_eq (hsessions : st'.sessions = st.sessions) (howner : st'.owner = st.owner)
    (hevents : st'.events = st.events) : Tends T key st st' := by
  intro h
  refine ⟨⟨howner ▸ h.good, ?_⟩, fun handler other hserves => howner ▸ hserves, fun _ =>
    .of_entries (fun other _ => congrFun hsessions other) hevents⟩
  intro other s handler hs hhandler
  rw [howner]
  exact h.serves other s handler (hsessions ▸ hs) hhandler

theorem refl (key : SessionKey) (st : StreamState σ) : Tends T key st st := of_eq rfl rfl rfl

theorem trans (h : Tends T key st st') (h' : Tends T key st' st'') : Tends T key st st'' := by
  intro hserved
  obtain ⟨hserved', hmono, hisolated⟩ := h hserved
  obtain ⟨hserved'', hmono', hisolated'⟩ := h' hserved'
  refine ⟨hserved'', fun handler other hserves => hmono' handler other (hmono handler other hserves),
    fun hclear => ?_⟩
  have hfirst := hisolated hclear
  exact hfirst.trans (hisolated' (hclear.isolated hfirst))

theorem update {entry : Option SessionState}
    (hentry : ∀ s handler, entry = some s → s.handler = some handler →
      T.Serves st.owner handler key) :
    Tends T key st { st with sessions := Function.update st.sessions key entry } := by
  intro h
  refine ⟨⟨h.good, fun other s handler hs hhandler => ?_⟩, fun _ _ hserves => hserves, fun _ =>
    .of_entries (fun other hother => Function.update_of_ne hother _ _) rfl⟩
  dsimp only at hs ⊢
  by_cases hother : other = key
  · rw [hother, Function.update_self] at hs
    rw [hother]
    exact hentry s handler hs hhandler
  · rw [Function.update_of_ne hother] at hs
    exact h.serves other s handler hs hhandler

end Tends

theorem logEvent_tends {e : Event} {handler : Handler} {st : StreamState σ}
    (hcallee : e.callee = some handler) (hserves : T.Serves st.owner handler e.key) :
    Tends T e.key st { st.logEvent e with owner := (S.onEvent st.owner e).1 } := by
  intro h
  obtain ⟨hgood, hmono, -⟩ := T.event h.good hcallee hserves
  refine ⟨⟨hgood, fun key s handler' hs hhandler => hmono (h.serves key s handler' hs hhandler)⟩,
    fun handler' other => hmono, fun _ => ⟨fun _ _ => rfl, [e], rfl, ?_⟩⟩
  refine List.forall_mem_singleton.2 ⟨rfl, fun handler' hcallee' other s hother hs hhandler => ?_⟩
  obtain rfl := Option.some.inj (hcallee.symm.trans hcallee')
  exact hother (T.own (h.serves other s handler hs hhandler) hserves)

theorem call_tends {key : SessionKey} {c : Call} (hc : c.Own key) (st : StreamState σ) :
    Tends T key st (call S st c) := by
  have hsends := call_sendsOnly S st c
  have hhandlers : ∀ other s, (call S st c).sessions other = some s →
      ∃ s', st.sessions other = some s' ∧ s.handler = s'.handler := by
    intro other s hs
    have hview : (call S st c).rxView other = some s.rxView := by
      rw [StreamState.rxView, hs, Option.map_some]
    rcases call_views other st c with hsame | ⟨-, hgone⟩ | ⟨handler, hopens, -, -⟩
    · rw [hsame, StreamState.rxView] at hview
      obtain ⟨s', hs', heq⟩ := Option.map_eq_some_iff.1 hview
      exact ⟨s', hs', (congrArg RxView.handler heq).symm⟩
    · rw [hgone] at hview
      cases hview
    · cases c with
      | openSession _ _ => exact hc.elim
      | closeSession _ _ => exact hopens.elim
      | sendSessionData _ _ _ => exact hopens.elim
  intro h
  refine ⟨⟨by rw [hsends.owner]; exact h.good, ?_⟩, fun _ _ hserves => by rwa [hsends.owner],
    fun hclear => ?_⟩
  · intro other s handler hs hhandler
    obtain ⟨s', hs', heq⟩ := hhandlers other s hs
    rw [hsends.owner]
    exact h.serves other s' handler hs' (heq ▸ hhandler)
  · cases c with
    | openSession _ _ => exact hc.elim
    | closeSession sid ingressKey =>
      subst hc
      exact closeSession_isolated hclear
    | sendSessionData sid buf ingressKey =>
      subst hc
      exact sendSessionData_isolated hclear buf

theorem calls_tend {key : SessionKey} {cs : List Call} (hcs : ∀ c ∈ cs, c.Own key)
    (st : StreamState σ) : Tends T key st (cs.foldl (call S) st) := by
  induction cs generalizing st with
  | nil => exact Tends.refl key st
  | cons c cs ih =>
    obtain ⟨hc, hcs⟩ := List.forall_mem_cons.1 hcs
    exact (call_tends T hc st).trans (ih hcs _)

theorem notify_tends {e : Event} {handler : Handler} {st : StreamState σ}
    (hcallee : e.callee = some handler) (hserves : T.Serves st.owner handler e.key) :
    Tends T e.key st (notify S e st) := by
  intro h
  obtain ⟨-, -, hcalls⟩ := T.event h.good hcallee hserves
  exact ((logEvent_tends T hcallee hserves).trans (calls_tend T hcalls _)) h

theorem createSession_tends (key : SessionKey) (st : StreamState σ) :
    Tends T key st (createSession S key st) := by
  unfold createSession
  split
  · refine Tends.update fun s handler hs hhandler => ?_
    obtain rfl := Option.some.inj hs
    cases hhandler
  · rename_i cb hcb
    intro h
    obtain ⟨hgood, hmono, hnamed⟩ := T.unknown hcb h.good key
    have hnoted : Tends T key st { st.logEvent (.unknownSession key (cb st.owner key).2) with
        owner := (cb st.owner key).1 } := by
      refine fun _ => ⟨⟨hgood, fun other s handler hs hhandler =>
        hmono (h.serves other s handler hs hhandler)⟩, fun _ _ => hmono, fun _ =>
        ⟨fun _ _ => rfl, [_], rfl, List.forall_mem_singleton.2 ⟨rfl, ?_⟩⟩⟩
      intro handler hcallee
      cases hcallee
    refine hnoted.trans (Tends.update fun s handler hs hhandler => ?_) h
    obtain rfl := Option.some.inj hs
    exact hnamed handler hhandler

theorem ensureSession_tends (key : SessionKey) (st : StreamState σ) :
    Tends T key st (ensureSession S key st) := by
  unfold ensureSession
  split
  · exact Tends.refl key st
  · exact createSession_tends T key st

theorem onSyn_tends (key : SessionKey) (st : StreamState σ) : Tends T key st (onSyn S key st) := by
  simp only [onSyn]
  refine (ensureSession_tends T key st).trans ?_
  generalize ensureSession S key st = st'
  split
  · exact Tends.refl key st'
  · rename_i handler hhandler
    obtain ⟨s, hs, hhandler⟩ := Option.bind_eq_some_iff.1 hhandler
    intro h
    have hserves := h.serves key s handler hs hhandler
    exact notify_tends T (e := .sessionOpen key handler key.2) rfl hserves h

theorem onFin_tends (key : SessionKey) (st : StreamState σ) : Tends T key st (onFin S key st) := by
  have herase : ∀ st : StreamState σ, Tends T key st (st.eraseSession key) :=
    fun st => Tends.update fun s handler hs => by cases hs
  unfold onFin
  split
  · exact Tends.refl key st
  · rename_i s hs
    split
    · exact herase st
    · rename_i handler hhandler
      refine Tends.trans (fun h => ?_) (herase _)
      have hserves := h.serves key s handler hs hhandler
      exact notify_tends T (e := .sessionClose key handler key.2) rfl hserves h

theorem handOut_tends {key : SessionKey} {handler : Handler} (sid : ZceUint32)
    (blks : List (List ZceByte)) {st : StreamState σ} (hserves : T.Serves st.owner handler key) :
    Tends T key st (handOut S key handler sid blks st) := by
  induction blks generalizing st with
  | nil => exact Tends.refl key st
  | cons blk blks ih =>
    rw [handOut_cons]
    split
    · intro h
      have hfirst := notify_tends T (e := .sessionData key handler sid blk) rfl hserves
      exact hfirst.trans (ih ((hfirst h).2.1 handler key hserves)) h
    · exact ih hserves

theorem deliverInOrder_tends (key : SessionKey) {s : SessionState} {st : StreamState σ}
    (hs : ∀ handler, s.handler = some handler → T.Serves st.owner handler key) :
    Tends T key st (deliverInOrder S key s st) := by
  unfold deliverInOrder
  split
  · exact Tends.refl key st
  · rename_i handler hhandler
    have hput : Tends T key st (st.setSession key (collectReady s.rxBuffer.size s).2) := by
      refine Tends.update fun s' handler' hs' hhandler' => ?_
      obtain rfl := Option.some.inj hs'
      rw [collectReady_handler] at hhandler'
      exact hs handler' hhandler'
    exact hput.trans (handOut_tends T s.sessionId _ (by exact hs handler hhandler))

theorem onData_tends (key : SessionKey) (seq : ZceUint32) (payload : List ZceByte)
    (st : StreamState σ) : Tends T key st (onData S key seq payload st) := by
  simp only [onData]
  refine (ensureSession_tends T key st).trans ?_
  generalize ensureSession S key st = st'
  split
  · exact Tends.refl key st'
  · rename_i s hs
    intro h
    have hserves : ∀ handler, s.handler = some handler → T.Serves st'.owner handler key :=
      fun handler hhandler => h.serves key s handler hs hhandler
    have hput : ∀ buffered : SessionState, buffered.handler = s.handler →
        Tends T key st' (deliverInOrder S key buffered
          ({ st' with clock := st'.clock + 1 }.setSession key buffered)) := by
      intro buffered hsame
      have hclock : Tends T key st' { st' with clock := st'.clock + 1 } := Tends.of_eq rfl rfl rfl
      refine (hclock.trans (Tends.update fun s' handler hs' hhandler => ?_)).trans
        (deliverInOrder_tends T key fun handler hhandler => ?_)
      · obtain rfl := Option.some.inj hs'
        exact hserves handler (hsame ▸ hhandler)
      · exact hserves handler (hsame ▸ hhandler)
    refine hput _ ?_ h
    split <;> rfl

theorem acceptSegment_tends (key : SessionKey) (hdr : FgwSegmentHeader) (payload : List ZceByte)
    (st : StreamState σ) : Tends T key st (acceptSegment S key hdr payload st) := by
  unfold acceptSegment
  have hsyn : Tends T key st (if hdr.isSyn then onSyn S key st else st) := by
    split
    · exact onSyn_tends T key st
    · exact Tends.refl key st
  refine hsyn.trans ?_
  dsimp only
  generalize (if hdr.isSyn then onSyn S key st else st) = st'
  split
  · exact onFin_tends T key st'
  split
  · exact onData_tends T key _ _ st'
  · exact Tends.refl key st'

theorem JudgesOnly.tends {key : SessionKey} {st st' : StreamState σ} (h : JudgesOnly st st') :
    Tends T key st st' := Tends.of_eq h.sessions h.owner h.events

theorem onSessionSegment_tends (ch : ChannelRef) (hdr : FgwSegmentHeader) (payload : List ZceByte)
    (st : StreamState σ) : Tends T (frameKey hdr) st (onSessionSegment S ch hdr payload st) := by
  simp only [onSessionSegment]
  split
  · exact (noteLoser_judgesOnly ch st).tends T
  split
  · exact Tends.refl _ st
  · have hrecorded : Tends T (frameKey hdr) st { st with
        dedup := st.dedup.record kDedupRing (dedupKey (frameKey hdr).1 hdr) } :=
      Tends.of_eq rfl rfl rfl
    exact (hrecorded.trans ((noteWinner_judgesOnly ch _).tends T)).trans
      (acceptSegment_tends T (frameKey hdr) hdr payload _)

def Concerns (f : List ZceByte) (key : SessionKey) : Prop :=
  ∀ hr hdr, fgwSegmentPeekHeader f f.length = .header hr hdr → isControl hdr = false →
    frameKey hdr = key

theorem handleFrame_tends {f : List ZceByte} {key : SessionKey} (hf : Concerns f key)
    (ch : ChannelRef) (st : StreamState σ) : Tends T key st (handleFrame S ch st f) := by
  rcases handleFrame_cases S ch f st with ⟨-, hjudges⟩ | ⟨hr, hdr, hpeek, hcontrol, -, heq⟩
  · exact hjudges.tends T
  · rw [heq, ← hf hr hdr hpeek hcontrol]
    exact onSessionSegment_tends T ch hdr _ st

end DataStream

end Libfgw
