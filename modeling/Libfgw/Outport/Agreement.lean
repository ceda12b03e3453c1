import Libfgw.DataStream.HandOut
import Libfgw.Outport.Laws

namespace Libfgw

open Lib DataStream

namespace OutportService

structure Wf (svc : OutportService) : Prop where
  registered : ∀ {key handler}, svc.sessions key = some handler →
    ∃ s, svc.relays handler = some s ∧ s.key = key ∧ s.state ≠ .closed
  opened : ∀ {handler s}, svc.relays handler = some s → s.state ≠ .closed →
    svc.sessions s.key = some handler
  made : ∀ {handler s}, svc.relays handler = some s → handler < svc.made

theorem Wf.init : Wf OutportService.init := ⟨nofun, nofun, nofun⟩

theorem ensureSession_registered (key : SessionKey) (svc : OutportService) :
    (svc.ensureSession key).1.sessions key = some (svc.ensureSession key).2 := by
  unfold ensureSession
  split
  · assumption
  · exact Function.update_self _ _ _

theorem ensureSession_sessions {key key' : SessionKey} {svc : OutportService} {handler : Handler}
    (h : svc.sessions key' = some handler) :
    (svc.ensureSession key).1.sessions key' = some handler := by
  unfold ensureSession
  split
  · exact h
  · rename_i hnone
    refine (Function.update_of_ne ?_ _ _).trans h
    rintro rfl
    exact absurd (hnone.symm.trans h) (Option.some_ne_none handler).symm

theorem Wf.ensureSession {svc : OutportService} (h : svc.Wf) (key : SessionKey) :
    (svc.ensureSession key).1.Wf := by
  unfold OutportService.ensureSession
  split
  · exact h
  rename_i hnone
  have hold : ∀ {handler s}, svc.relays handler = some s → handler ≠ svc.made := fun hs heq =>
    absurd (h.made hs) (by rw [heq]; exact Nat.lt_irrefl _)
  refine ⟨fun {key' handler} hreg => ?_, fun {handler s} hs hopen => ?_, fun {handler s} hs => ?_⟩
  · dsimp only at hreg ⊢
    by_cases hkey : key' = key
    · rw [hkey, Function.update_self] at hreg
      obtain rfl := Option.some.inj hreg
      exact ⟨_, Function.update_self _ _ _, hkey.symm, RelayState.noConfusion⟩
    · rw [Function.update_of_ne hkey] at hreg
      obtain ⟨s, hs, hskey, hopen⟩ := h.registered hreg
      exact ⟨s, (Function.update_of_ne (hold hs) _ _).trans hs, hskey, hopen⟩
  · dsimp only at hs ⊢
    by_cases hhandler : handler = svc.made
    · rw [hhandler, Function.update_self] at hs
      obtain rfl := Option.some.inj hs
      rw [hhandler]
      exact Function.update_self _ _ _
    · rw [Function.update_of_ne hhandler] at hs
      have hreg := h.opened hs hopen
      refine (Function.update_of_ne ?_ _ _).trans hreg
      rintro hkey
      rw [hkey, hnone] at hreg
      exact absurd hreg (Option.some_ne_none handler).symm
  · dsimp only at hs ⊢
    by_cases hhandler : handler = svc.made
    · rw [hhandler]
      exact Nat.lt_succ_self _
    · rw [Function.update_of_ne hhandler] at hs
      exact Nat.lt_succ_of_lt (h.made hs)

theorem settle_sessions {svc : OutportService} {handler : Handler} {s s' : FgwRelaySession}
    (key : SessionKey) : (svc.settle handler s s').sessions key =
      if (s.state ≠ .closed ∧ s'.state = .closed) ∧ key = s.key then none else svc.sessions key := by
  unfold settle
  dsimp only
  by_cases hclosed : s.state ≠ .closed ∧ s'.state = .closed
  · rw [if_pos hclosed]
    by_cases hkey : key = s.key
    · rw [if_pos ⟨hclosed, hkey⟩, hkey]
      exact Function.update_self _ _ _
    · rw [if_neg fun h => hkey h.2]
      exact Function.update_of_ne hkey _ _
  · rw [if_neg hclosed, if_neg fun h => hclosed h.1]

theorem settle_relays (svc : OutportService) (handler : Handler) (s s' : FgwRelaySession) :
    (svc.settle handler s s').relays = Function.update svc.relays handler (some s') := by
  unfold settle
  dsimp only
  split <;> rfl

theorem settle_made (svc : OutportService) (handler : Handler) (s s' : FgwRelaySession) :
    (svc.settle handler s s').made = svc.made := by
  unfold settle
  dsimp only
  split <;> rfl

theorem Wf.settle {svc : OutportService} (h : svc.Wf) {handler : Handler} {s s' : FgwRelaySession}
    (hs : svc.relays handler = some s) (hkey : s'.key = s.key)
    (hstay : s.state = .closed → s'.state = .closed) : (svc.settle handler s s').Wf := by
  refine ⟨fun {key handler'} hreg => ?_, fun {handler' t} ht hopen => ?_, fun {handler' t} ht => ?_⟩
  · rw [settle_sessions] at hreg
    split at hreg
    · exact absurd hreg (Option.some_ne_none _).symm
    rename_i hnot
    obtain ⟨t, ht, htkey, hopen⟩ := h.registered hreg
    rw [settle_relays]
    by_cases hhandler : handler' = handler
    · subst hhandler
      obtain rfl := Option.some.inj (ht.symm.trans hs)
      refine ⟨s', Function.update_self _ _ _, hkey.trans htkey, fun hclosed => ?_⟩
      exact hnot ⟨⟨hopen, hclosed⟩, htkey.symm⟩
    · exact ⟨t, (Function.update_of_ne hhandler _ _).trans ht, htkey, hopen⟩
  · rw [settle_relays] at ht
    rw [settle_sessions]
    by_cases hhandler : handler' = handler
    · subst hhandler
      rw [Function.update_self] at ht
      obtain rfl := Option.some.inj ht
      rw [if_neg fun hc => hopen hc.1.2, hkey]
      exact h.opened hs fun hclosed => hopen (hstay hclosed)
    · rw [Function.update_of_ne hhandler] at ht
      rw [if_neg]
      · exact h.opened ht hopen
      · rintro ⟨⟨hsopen, -⟩, hsame⟩
        have hreg := h.opened hs hsopen
        rw [← hsame, h.opened ht hopen] at hreg
        exact hhandler (Option.some.inj hreg)
  · rw [settle_relays] at ht
    rw [settle_made]
    by_cases hhandler : handler' = handler
    · rw [hhandler]
      exact h.made hs
    · rw [Function.update_of_ne hhandler] at ht
      exact h.made ht

end OutportService

def NamesRegistered (P : SessionKey → Prop) (st : StreamState OutportService) : Prop :=
  ∀ key v handler, P key → st.rxView key = some v → v.handler = some handler →
    st.owner.sessions key = some handler

def Reserved (S : Setting OutportService) (ingress : ZceUint32) : Prop :=
  ingress = kFgwWireIngressUseLocal ∧ S.config.localIngressId ≠ kFgwWireIngressUseLocal

theorem resolveIngressKey_of_not_reserved {S : Setting OutportService} {ingress : ZceUint32}
    (h : ¬ Reserved S ingress) : resolveIngressKey S ingress = ingress := by
  unfold resolveIngressKey
  split
  · rename_i huse
    rw [huse]
    by_contra hne
    exact h ⟨huse, hne⟩
  · rfl

section Calls

variable {σ : Type} {S : Setting σ}

theorem rxView_sends {sends : List Call} (h : ∀ c ∈ sends, c.IsSend) (st : StreamState σ)
    (key : SessionKey) : (sends.foldl (call S) st).rxView key = st.rxView key := by
  induction sends generalizing st with
  | nil => rfl
  | cons c sends ih =>
    obtain ⟨hc, hsends⟩ := List.forall_mem_cons.1 h
    rw [List.foldl_cons, ih hsends]
    cases c with
    | sendSessionData sid buf ingressKey => exact rxView_sendSessionData S sid buf ingressKey st key
    | openSession _ _ => exact hc.elim
    | closeSession _ _ => exact hc.elim

end Calls

namespace OutportService

variable {K : Sockets} {S : Setting OutportService} {st : StreamState OutportService}
  {P : SessionKey → Prop}

structure Sound (P : SessionKey → Prop) (st : StreamState OutportService) : Prop where
  wf : st.owner.Wf
  names : NamesRegistered P st

theorem Sound.of_eq {st' : StreamState OutportService} (h : Sound P st)
    (hsessions : st'.sessions = st.sessions) (howner : st'.owner = st.owner) : Sound P st' := by
  refine ⟨by rw [howner]; exact h.wf, ?_⟩
  intro key v handler hP hv hhandler
  rw [howner]
  rw [StreamState.rxView, hsessions] at hv
  exact h.names key v handler hP hv hhandler

theorem Sound.judgesOnly {st' : StreamState OutportService} (h : Sound P st)
    (hjudges : JudgesOnly st st') : Sound P st' := h.of_eq hjudges.sessions hjudges.owner

theorem Sound.drive (h : Sound P st) (f : FgwRelaySession → FgwRelaySession) (handler : Handler)
    (hf : ∀ s, st.owner.relays handler = some s →
      FgwRelaySession.Follows { s with calls := [] } (f { s with calls := [] })) :
    Sound (fun key => P key ∧ ∀ s, st.owner.relays handler = some s → s.key = key →
      s.state ≠ .closed → (f { s with calls := [] }).state = .closed → ¬ Reserved S s.peerIngressId)
      (OutportService.drive K S f handler st) := by
  unfold OutportService.drive runRelay
  cases hs : st.owner.relays handler with
  | none =>
    exact ⟨h.wf, fun key v handler' hP => h.names key v handler' hP.1⟩
  | some s =>
    dsimp only
    obtain ⟨hkey, hcases⟩ := hf s hs
    generalize hnew : f { s with calls := [] } = s' at hkey hcases ⊢
    have howner : ∀ cs : List Call, (cs.foldl (call (setting K S))
        { st with owner := st.owner.settle handler s s' }).owner = st.owner.settle handler s s' :=
      fun cs => (calls_sendsOnly _ cs _).owner
    have hwf : (st.owner.settle handler s s').Wf := by
      refine h.wf.settle hs hkey fun hclosed => ?_
      rcases hcases with ⟨-, hclosed', -⟩ | ⟨hopen, -⟩
      · exact hclosed'
      · exact absurd hclosed hopen
    refine ⟨by rw [howner]; exact hwf, ?_⟩
    rintro key v handler' ⟨hP, hspares⟩ hv hhandler
    rw [howner, settle_sessions]
    rcases hcases with ⟨hclosed, -, hcalls⟩ |
      ⟨hopen, sends, hsends, ⟨hopen', hcalls⟩ | ⟨hclosed', hcalls⟩⟩
    · rw [if_neg fun hc => hc.1.1 hclosed]
      rw [hcalls] at hv
      exact h.names key v handler' hP hv hhandler
    · rw [if_neg fun hc => hopen' hc.1.2]
      rw [hcalls, List.nil_append, rxView_sends hsends] at hv
      exact h.names key v handler' hP hv hhandler
    · rw [hcalls, List.nil_append, List.foldl_append, List.foldl_cons, List.foldl_nil, call,
        rxView_closeSession, rxView_sends hsends] at hv
      split at hv
      · exact absurd hv (Option.some_ne_none v).symm
      rename_i hother
      rw [if_neg]
      · exact h.names key v handler' hP hv hhandler
      · rintro ⟨-, hsame⟩
        refine hother ?_
        have hres := hspares s rfl hsame.symm hopen (by rw [hnew]; exact hclosed')
        rw [show resolveIngressKey (setting K S) s.peerIngressId =
          resolveIngressKey S s.peerIngressId from rfl, resolveIngressKey_of_not_reserved hres]
        exact hsame.symm

abbrev InStep (st : StreamState OutportService) : Prop := Sound (fun _ => True) st

theorem InStep.setSession (h : InStep st) {key : SessionKey} {s : SessionState}
    (hs : ∀ handler, s.handler = some handler → st.owner.sessions key = some handler) :
    InStep (st.setSession key s) := by
  refine ⟨h.wf, fun key' v handler _ hv hhandler => ?_⟩
  rw [rxView_setSession] at hv
  split at hv
  · rename_i hkey
    obtain rfl := Option.some.inj hv
    rw [hkey]
    exact hs handler hhandler
  · exact h.names key' v handler trivial hv hhandler

theorem Sound.eraseSession {key : SessionKey} (h : Sound (fun key' => key' ≠ key) st) :
    InStep (st.eraseSession key) := by
  refine ⟨h.wf, fun key' v handler _ hv hhandler => ?_⟩
  rw [rxView_eraseSession] at hv
  split at hv
  · exact absurd hv (Option.some_ne_none v).symm
  · rename_i hkey
    exact h.names key' v handler hkey hv hhandler

theorem runRelay_relays {f : FgwRelaySession → FgwRelaySession} {handler : Handler}
    {svc : OutportService} {s : FgwRelaySession} (hs : svc.relays handler = some s) :
    (svc.runRelay f handler).1.relays handler = some (f { s with calls := [] }) := by
  unfold runRelay
  rw [hs]
  dsimp only
  rw [settle_relays]
  exact Function.update_self _ _ _

theorem onSessionData_follows (buf : List ZceByte) (s : FgwRelaySession) :
    FgwRelaySession.Follows { s with calls := [] }
      (FgwRelaySession.onSessionData K buf { s with calls := [] }) :=
  FgwRelaySession.Follows.onSessionData K buf _

theorem ownerAfter_closed {key : SessionKey} {handler : Handler} {sid : ZceUint32}
    (blks : List (List ZceByte)) {svc : OutportService} {s : FgwRelaySession}
    (hs : svc.relays handler = some s) (hclosed : s.state = .closed) :
    ∃ s', (ownerAfter (setting K S) key handler sid blks svc).relays handler = some s' ∧
      s'.state = .closed := by
  induction blks generalizing svc s with
  | nil => exact ⟨s, hs, hclosed⟩
  | cons blk blks ih =>
    rw [ownerAfter, List.foldl_cons]
    split
    · refine ih (runRelay_relays hs) ?_
      rcases (onSessionData_follows (K := K) blk s).2 with ⟨-, hclosed', -⟩ | ⟨hopen, -⟩
      · exact hclosed'
      · exact absurd hclosed hopen
    · exact ih hs hclosed

def SparesReserved (K : Sockets) (S : Setting OutportService) (d : Delivery OutportService) : Prop :=
  Reserved S d.key.1 → ∀ s, (ownerAfter (setting K S) d.key d.handler d.sessionId d.blks
    d.state.owner).relays d.handler = some s → s.state ≠ .closed

theorem InStep.handOut (h : InStep st) {key : SessionKey} {handler : Handler} {sid : ZceUint32}
    {blks : List (List ZceByte)} {s : FgwRelaySession} (hs : st.owner.relays handler = some s)
    (hkey : s.key = key)
    (hspares : Reserved S key.1 → ∀ s', (ownerAfter (setting K S) key handler sid blks
      st.owner).relays handler = some s' → s'.state ≠ .closed) :
    InStep (handOut (setting K S) key handler sid blks st) := by
  induction blks generalizing st s with
  | nil => exact h
  | cons blk blks ih =>
    rw [handOut_cons]
    rw [ownerAfter, List.foldl_cons] at hspares
    split
    · rename_i hblk
      rw [if_pos hblk] at hspares
      have hlogged : InStep (st.logEvent (.sessionData key handler sid blk)) := h.of_eq rfl rfl
      have hdrive := hlogged.drive (K := K) (S := S) (FgwRelaySession.onSessionData K blk) handler
        fun s _ => onSessionData_follows (K := K) blk s
      have hrelay : (notify (setting K S) (.sessionData key handler sid blk) st).owner.relays
          handler = some (FgwRelaySession.onSessionData K blk { s with calls := [] }) := by
        rw [notify_owner]
        exact runRelay_relays hs
      have hstep : InStep (notify (setting K S) (.sessionData key handler sid blk) st) := by
        refine ⟨hdrive.wf, fun key' v handler' _ hv hhandler => ?_⟩
        refine hdrive.names key' v handler' ⟨trivial, fun t ht _ _ hclosed hres => ?_⟩ hv hhandler
        obtain rfl := Option.some.inj (ht.symm.trans hs)
        have hres' : Reserved S key.1 := by rw [← hkey]; exact hres
        obtain ⟨t', ht', hclosed'⟩ := ownerAfter_closed (K := K) (S := S)
          blks (runRelay_relays (f := FgwRelaySession.onSessionData K blk) ht) hclosed
        exact hspares hres' t' ht' hclosed'
      refine ih hstep hrelay (((onSessionData_follows (K := K) blk s).1).trans hkey) ?_
      rw [notify_owner]
      exact hspares
    · rename_i hblk
      rw [if_neg hblk] at hspares
      exact ih h hs hkey hspares

theorem InStep.ensureSession (h : InStep st) (key : SessionKey) :
    InStep (DataStream.ensureSession (setting K S) key st) := by
  unfold DataStream.ensureSession
  split
  · exact h
  · have howner : InStep { st.logEvent (.unknownSession key (some (st.owner.ensureSession key).2)) with
        owner := (st.owner.ensureSession key).1 } :=
      ⟨h.wf.ensureSession key, fun key' v handler _ hv hhandler =>
        ensureSession_sessions (h.names key' v handler trivial hv hhandler)⟩
    refine howner.setSession fun handler hhandler => ?_
    rw [← Option.some.inj hhandler]
    exact ensureSession_registered key st.owner

theorem InStep.onSyn (h : InStep st) (key : SessionKey) :
    InStep (DataStream.onSyn (setting K S) key st) := by
  unfold DataStream.onSyn
  dsimp only
  split
  · exact h.ensureSession key
  · exact (h.ensureSession key).of_eq rfl rfl

theorem InStep.onFin (h : InStep st) (key : SessionKey) :
    InStep (DataStream.onFin (setting K S) key st) := by
  unfold DataStream.onFin
  split
  · exact h
  rename_i s hs
  split
  · exact Sound.eraseSession ⟨h.wf, fun key' v handler _ => h.names key' v handler trivial⟩
  · rename_i handler hhandler
    have hview : st.rxView key = some s.rxView := by rw [StreamState.rxView, hs]; rfl
    obtain ⟨r, hr, hkey, -⟩ := h.wf.registered (h.names key s.rxView handler trivial hview hhandler)
    have hlogged : InStep (st.logEvent (.sessionClose key handler key.2)) := h.of_eq rfl rfl
    have hdrive := hlogged.drive (K := K) (S := S) FgwRelaySession.onSessionClose handler
      fun s _ => FgwRelaySession.Follows.close _
    refine Sound.eraseSession ⟨hdrive.wf, fun key' v handler' hne hv hhandler' => ?_⟩
    refine hdrive.names key' v handler' ⟨trivial, fun t ht htkey => ?_⟩ hv hhandler'
    obtain rfl := Option.some.inj (ht.symm.trans hr)
    exact absurd (htkey.symm.trans hkey) hne

theorem InStep.deliverInOrder (h : InStep st) {key : SessionKey} {s : SessionState}
    (hs : ∀ handler, s.handler = some handler → st.owner.sessions key = some handler)
    (hspares : ∀ d, deliveryOf key s st = some d → SparesReserved K S d) :
    InStep (DataStream.deliverInOrder (setting K S) key s st) := by
  have hdelivers := deliverInOrder_delivers (setting K S) key s st
  unfold deliveryOf at hspares hdelivers
  cases hhandler : s.handler with
  | none =>
    have hstay : DataStream.deliverInOrder (setting K S) key s st = st := by
      simp only [DataStream.deliverInOrder, hhandler]
    rw [hstay]
    exact h
  | some handler =>
    rw [hhandler] at hspares hdelivers
    rw [hdelivers.run _ rfl]
    obtain ⟨r, hr, hkey, -⟩ := h.wf.registered (hs handler hhandler)
    have hset : InStep (st.setSession key (collectReady s.rxBuffer.size s).2) :=
      h.setSession fun handler' hh => hs handler' (by rw [← hh, collectReady_handler])
    exact hset.handOut hr hkey (hspares _ rfl)

theorem InStep.onData (h : InStep st) {key : SessionKey} {seq : ZceUint32} {payload : List ZceByte}
    (hspares : ∀ d, deliveryOnData (setting K S) key seq payload st = some d → SparesReserved K S d) :
    InStep (DataStream.onData (setting K S) key seq payload st) := by
  have hensured := h.ensureSession (K := K) (S := S) key
  unfold DataStream.onData
  unfold deliveryOnData at hspares
  dsimp only at hspares ⊢
  cases hs : (DataStream.ensureSession (setting K S) key st).sessions key with
  | none => exact hensured
  | some s =>
    rw [hs, Option.bind_some] at hspares
    have hreg : ∀ handler, s.handler = some handler →
        (DataStream.ensureSession (setting K S) key st).owner.sessions key = some handler := by
      intro handler hhandler
      exact hensured.names key s.rxView handler trivial (by rw [StreamState.rxView, hs]; rfl) hhandler
    have hticked : InStep { DataStream.ensureSession (setting K S) key st with
        clock := (DataStream.ensureSession (setting K S) key st).clock + 1 } := hensured.of_eq rfl rfl
    dsimp only
    refine InStep.deliverInOrder ?_ (fun handler hhandler => hreg handler ?_) hspares
    · refine hticked.setSession fun handler hhandler => hreg handler ?_
      split at hhandler <;> exact hhandler
    · split at hhandler <;> exact hhandler

theorem InStep.onSessionSegment (h : InStep st) {ch : ChannelRef} {hdr : FgwSegmentHeader}
    {payload : List ZceByte}
    (hspares : ∀ d, deliveryOnSegment (setting K S) ch hdr payload st = some d → SparesReserved K S d) :
    InStep (DataStream.onSessionSegment (setting K S) ch hdr payload st) := by
  unfold DataStream.onSessionSegment
  unfold deliveryOnSegment at hspares
  dsimp only at hspares ⊢
  by_cases hdup : st.dedup.map (dedupKey (frameKey hdr).1 hdr) = true
  · rw [if_pos hdup]
    exact h.judgesOnly (noteLoser_judgesOnly ch st)
  rw [if_neg hdup]
  by_cases hout : carriesData hdr = true ∧ outsideWindow (setting K S) (frameKey hdr) hdr.seqNum st
  · rw [if_pos hout]
    exact h
  rw [if_neg hout]
  generalize hst : noteWinner ch { st with
    dedup := st.dedup.record kDedupRing (dedupKey (frameKey hdr).1 hdr) } = st₁ at hspares
  have hwon : InStep st₁ := by
    have hrecorded : InStep { st with
        dedup := st.dedup.record kDedupRing (dedupKey (frameKey hdr).1 hdr) } := h.of_eq rfl rfl
    rw [← hst]
    exact hrecorded.judgesOnly (noteWinner_judgesOnly ch _)
  unfold DataStream.acceptSegment
  dsimp only
  have hsyn : InStep (if hdr.isSyn then DataStream.onSyn (setting K S) (frameKey hdr) st₁ else st₁) := by
    split
    · exact hwon.onSyn _
    · exact hwon
  generalize (if hdr.isSyn then DataStream.onSyn (setting K S) (frameKey hdr) st₁ else st₁) = st₂
    at hsyn hspares ⊢
  by_cases hfin : hdr.isFin = true
  · rw [if_pos hfin]
    exact hsyn.onFin _
  rw [if_neg hfin]
  by_cases hdata : carriesData hdr = true
  · have hin : ¬ outsideWindow (setting K S) (frameKey hdr) hdr.seqNum st := fun ho => hout ⟨hdata, ho⟩
    rw [if_pos hdata]
    rw [if_neg (by simp [hdup, hin, hfin, hdata])] at hspares
    exact hsyn.onData hspares
  · rw [if_neg hdata]
    exact hsyn

theorem InStep.handleFrame (h : InStep st) {ch : ChannelRef} {f : List ZceByte}
    (hspares : ∀ d, delivery (setting K S) ch st f = some d → SparesReserved K S d) :
    InStep (handleFrame (setting K S) ch st f) := by
  rcases handleFrame_cases (setting K S) ch f st with ⟨-, hjudges⟩ | ⟨hr, hdr, hpeek, hsession, hcrc, heq⟩
  · exact h.judgesOnly hjudges
  · rw [delivery_eq ch st hpeek hsession hcrc] at hspares
    rw [heq]
    exact h.onSessionSegment hspares

end OutportService

end Libfgw
