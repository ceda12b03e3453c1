import Libfgw.DataStream.Network
import Libfgw.Inport.Attachment

namespace Libfgw

open Lib DataStream

namespace InportService

open FgwSession

variable {acquires : Nat → Bool} {S : Setting InportService} {st st' : StreamState InportService}
  {handler : Handler} {s s' : FgwSession}

def Known (svc : InportService) (sid : ZceUint32) : Prop :=
  ∃ n < svc.made, sid = BitVec.ofNat 32 (n + 1)

theorem Known.mono {svc svc' : InportService} (hmade : svc.made ≤ svc'.made) {sid : ZceUint32}
    (h : Known svc sid) : Known svc' sid := by
  obtain ⟨n, hlt, hsid⟩ := h
  exact ⟨n, Nat.lt_of_lt_of_le hlt hmade, hsid⟩

theorem Wf.known {svc : InportService} (h : svc.Wf) (hs : svc.clients handler = some s) :
    Known svc s.sessionId := ⟨handler, h.made hs, h.sessionId hs⟩

theorem Wf.known_iff {svc : InportService} (h : svc.Wf) (sid : ZceUint32) :
    Known svc sid ↔ ∃ handler s, svc.clients handler = some s ∧ s.sessionId = sid := by
  constructor
  · rintro ⟨n, hlt, rfl⟩
    obtain ⟨s, hs⟩ := h.all hlt
    exact ⟨n, s, hs, h.sessionId hs⟩
  · rintro ⟨handler, s, hs, rfl⟩
    exact h.known hs

theorem Wf.not_known_next {svc : InportService} (h : svc.Wf) (hmade : svc.made < 2 ^ 32) :
    ¬ Known svc svc.nextSessionId := by
  rw [h.known_iff]
  rintro ⟨handler, s, hs, hsid⟩
  exact h.sessionId_ne_next hmade hs hsid

def Hears (acquires : Nat → Bool) (S : Setting InportService) (st : StreamState InportService) :
    Prop :=
  ∀ handler s, st.owner.clients handler = some s → s.clientTcp = !s.closed ∧
    s.written =
      ((handed (keyOf S s) handler st.events).filter fun blk => acquires blk.length).flatten

namespace Hears

theorem of_eq (h : Hears acquires S st) (hclients : st'.owner.clients = st.owner.clients)
    (hevents : ∀ key handler, handed key handler st'.events = handed key handler st.events) :
    Hears acquires S st' := by
  intro handler s hs
  rw [hclients] at hs
  rw [hevents]
  exact h handler s hs

theorem afterRun (h : Hears acquires S st) (hs : st.owner.clients handler = some s)
    (hsid : s'.sessionId = s.sessionId) (htcp : s.clientTcp = !s.closed → s'.clientTcp = !s'.closed)
    (hwritten : s'.written = s.written) {events : List Event}
    (hevents : ∀ key handler, handed key handler events = handed key handler st.events) :
    Hears acquires S (InportService.afterRun acquires S st handler s s' events) := by
  intro other t ht
  rw [afterRun_owner] at ht
  rw [afterRun_events, hevents]
  rcases settle_client ht with ⟨rfl, rfl⟩ | ⟨-, hold⟩
  · obtain ⟨htcp', hheard⟩ := h other s hs
    exact ⟨htcp htcp', by rw [hwritten, hheard, keyOf, keyOf, hsid]⟩
  · exact h other t hold

theorem drive (h : Hears acquires S st) {f : FgwSession → FgwSession}
    (hf : ∀ s, Acts s (f { s with calls := [] }))
    (hwritten : ∀ s : FgwSession, (f { s with calls := [] }).written = s.written)
    (htcp : ∀ s : FgwSession, s.clientTcp = !s.closed →
      (f { s with calls := [] }).clientTcp = !(f { s with calls := [] }).closed) (handler : Handler) :
    Hears acquires S (InportService.drive acquires S f handler st) := by
  cases hs : st.owner.clients handler with
  | none =>
    rw [drive_of_none hs]
    exact h
  | some s =>
    rw [drive_of_some hs]
    exact h.afterRun hs (hf s).sessionId (htcp s) (hwritten s) fun _ _ => rfl

theorem notify_sessionData (h : Hears acquires S st) (hs : st.owner.clients handler = some s)
    (hopen : s.closed = false) (sid : ZceUint32) (buf : List ZceByte) :
    Hears acquires S
      (notify (setting acquires S) (.sessionData (keyOf S s) handler sid buf) st) := by
  rw [InportService.notify_sessionData (keyOf S s) sid buf hs]
  obtain ⟨htcp, hheard⟩ := h handler s hs
  intro other t ht
  rw [afterRun_owner] at ht
  rw [afterRun_events, handed_append]
  have hnew : ∀ key other, handed key other [.sessionData (keyOf S s) handler sid buf] =
      if keyOf S s = key ∧ handler = other then [buf] else [] := fun key other =>
    handed_sessionData key other (keyOf S s) handler sid [buf]
  rcases settle_client ht with ⟨rfl, rfl⟩ | ⟨hother, hold⟩
  · have hrun : onSessionData acquires buf { s with calls := [] } =
        if acquires buf.length then { s with calls := [], written := s.written ++ buf }
        else { s with calls := [] } := by
      unfold onSessionData
      rw [if_neg (by simp [htcp, hopen]), ite_not]
    rw [hrun]
    split
    · rename_i hacquires
      refine ⟨htcp, ?_⟩
      rw [show keyOf S { s with calls := [], written := s.written ++ buf } = keyOf S s from rfl,
        hnew, if_pos ⟨rfl, rfl⟩, List.filter_append, List.flatten_append, ← hheard]
      simp only [List.filter_cons, hacquires, if_true, List.filter_nil, List.flatten_singleton]
    · rename_i hacquires
      refine ⟨htcp, ?_⟩
      rw [show keyOf S { s with calls := [] } = keyOf S s from rfl, hnew, if_pos ⟨rfl, rfl⟩,
        List.filter_append, List.flatten_append, ← hheard]
      simp only [List.filter_cons, hacquires, Bool.false_eq_true, if_false, List.filter_nil,
        List.flatten_nil, List.append_nil]
  · rw [hnew, if_neg fun hown => hother hown.2.symm, List.append_nil]
    exact h other t hold

end Hears

/-- The inport has sent segments of its clients' sessions only, and has entries for them only among
its own.  As long as the session ids do not repeat, each client's segments are numbered on and tell
what it has brought, and while it is open its entry knows the next number. -/
structure Voiced (S : Setting InportService) (st : StreamState InportService) : Prop where
  entries : ∀ sid, st.sessions (S.config.localIngressId, sid) ≠ none → Known st.owner sid
  sent : ∀ a ∈ st.sent, a.key.1 = S.config.localIngressId ∧ Known st.owner a.key.2
  speaks : st.owner.made ≤ 2 ^ 32 → ∀ handler s, st.owner.clients handler = some s →
    Counted (keyOf S s) s.received st.sent ∧
      (s.closed = false → Speaks (keyOf S s) handler st)

namespace Voiced

theorem of_voice (h : Voiced S st) (hmade : st'.owner.made = st.owner.made)
    (hclients : st'.owner.clients = st.owner.clients) (hsent : st'.sent = st.sent)
    (hvoice : ∀ key, st'.voice key = st.voice key) : Voiced S st' where
  entries sid hsid := by
    rw [Ne, ← StreamState.voice_eq_none, hvoice, StreamState.voice_eq_none] at hsid
    exact (h.entries sid hsid).mono hmade.ge
  sent a ha := by
    rw [hsent] at ha
    exact ⟨(h.sent a ha).1, (h.sent a ha).2.mono hmade.ge⟩
  speaks hle handler s hs := by
    rw [hmade] at hle
    rw [hclients] at hs
    obtain ⟨hcounted, hspeaks⟩ := h.speaks hle handler s hs
    exact ⟨by rwa [hsent], fun hopen => (hspeaks hopen).of_voice (hvoice _) (by rw [hsent])⟩

theorem of_eq (h : Voiced S st) (hsessions : st'.sessions = st.sessions)
    (howner : st'.owner = st.owner) (hsent : st'.sent = st.sent) : Voiced S st' :=
  h.of_voice (by rw [howner]) (by rw [howner]) hsent fun key => by
    rw [StreamState.voice, hsessions]; rfl

theorem afterRun_call (hkeyed : Keyed (setting acquires S) st) (hacts : Acts s s')
    (events : List Event) :
    ∃ as, (InportService.afterRun acquires S st handler s s' events).sent = st.sent ++ as ∧
      (∀ a ∈ as, a.key = keyOf S s) ∧ ∀ key, key ≠ keyOf S s →
        (InportService.afterRun acquires S st handler s s' events).sessions key = st.sessions key := by
  have hkeyed' : Keyed (setting acquires S)
      { st with owner := st.owner.settle handler s s', events := events } := hkeyed.of_eq rfl rfl
  have hres : (resolveIngressKey (setting acquires S) kFgwWireIngressUseLocal, s.sessionId) =
      keyOf S s := congrArg (·, s.sessionId) (resolve_useLocal _)
  refine calls_own hkeyed' fun c hc => ?_
  cases hacts with
  | hears w => cases hc
  | sends buf hopen =>
    rw [List.mem_singleton.1 hc]
    exact hres
  | closes hopen =>
    rw [List.mem_singleton.1 hc]
    exact hres

theorem afterRun (h : Voiced S st) (hwf : st.owner.Wf) (hkeyed : Keyed (setting acquires S) st)
    (hs : st.owner.clients handler = some s) (hacts : Acts s s') (events : List Event) :
    Voiced S (InportService.afterRun acquires S st handler s s' events) := by
  obtain ⟨as, hsent, hown, hothers⟩ := @afterRun_call _ _ _ handler _ _ hkeyed hacts events
  have hmade : (InportService.afterRun acquires S st handler s s' events).owner.made =
      st.owner.made := by rw [afterRun_owner, settle_made]
  constructor
  · intro sid hsid
    refine Known.mono hmade.ge ?_
    by_cases hkey : (S.config.localIngressId, sid) = keyOf S s
    · rw [show sid = s.sessionId from congrArg Prod.snd hkey]
      exact hwf.known hs
    · rw [hothers _ hkey] at hsid
      exact h.entries sid hsid
  · intro a ha
    rw [hsent] at ha
    rcases List.mem_append.1 ha with hold | hnew
    · exact ⟨(h.sent a hold).1, (h.sent a hold).2.mono hmade.ge⟩
    · rw [hown a hnew]
      exact ⟨rfl, (hwf.known hs).mono hmade.ge⟩
  · intro hle other t ht
    rw [hmade] at hle
    rw [afterRun_owner] at ht
    rcases settle_client ht with ⟨rfl, rfl⟩ | ⟨hother, hold⟩
    · obtain ⟨hcounted, hspeaks⟩ := h.speaks hle other s hs
      have hkeyed' : Keyed (setting acquires S)
          { st with owner := st.owner.settle other s t, events := events } := hkeyed.of_eq rfl rfl
      have hres : resolveIngressKey (setting acquires S) kFgwWireIngressUseLocal = (keyOf S s).1 :=
        resolve_useLocal _
      cases hacts with
      | hears w => exact ⟨hcounted, hspeaks⟩
      | sends buf hopen =>
        have hsends := sendSessionData_counted hkeyed' hres (hspeaks hopen) hcounted buf
        exact ⟨hsends.1, fun _ => hsends.2⟩
      | closes hopen =>
        exact ⟨closeSession_counted hkeyed' hres (hspeaks hopen) hcounted, nofun⟩
    · obtain ⟨hcounted, hspeaks⟩ := h.speaks hle other t hold
      have hkey : keyOf S t ≠ keyOf S s := fun hkey =>
        hother (hwf.handler_eq hle hold hs (congrArg Prod.snd hkey))
      have hnone : numbered (keyOf S t) as = [] := numbered_other fun a ha => by
        rw [hown a ha]
        exact hkey.symm
      have hnumbered : numbered (keyOf S t)
          (InportService.afterRun acquires S st handler s s' events).sent =
            numbered (keyOf S t) st.sent := by
        rw [hsent, numbered_append, hnone, List.append_nil]
      refine ⟨hcounted.of_numbered hnumbered, fun hopen => (hspeaks hopen).of_voice ?_ hnumbered⟩
      rw [StreamState.voice, hothers _ hkey]
      rfl

theorem drive (h : Voiced S st) (hwf : st.owner.Wf) (hkeyed : Keyed (setting acquires S) st)
    {f : FgwSession → FgwSession} (hf : ∀ s, Acts s (f { s with calls := [] })) (handler : Handler) :
    Voiced S (InportService.drive acquires S f handler st) := by
  cases hs : st.owner.clients handler with
  | none =>
    rw [drive_of_none hs]
    exact h
  | some s =>
    rw [drive_of_some hs]
    exact h.afterRun hwf hkeyed hs (hf s) st.events

theorem accept (h : Voiced S st) (hwf : st.owner.Wf) (hkeyed : Keyed (setting acquires S) st) :
    Voiced S (InportService.accept acquires S st) := by
  cases hacceptor : st.owner.acceptor with
  | false =>
    rw [InportService.accept, if_neg (by rw [hacceptor]; exact Bool.false_ne_true)]
    exact h
  | true =>
    have howner : (InportService.accept acquires S st).owner = st.owner.attach.2.2 :=
      accept_owner hacceptor
    rw [accept_of_acceptor hacceptor] at howner ⊢
    have hkeyed' : Keyed (setting acquires S) { st with owner := st.owner.attach.2.2 } :=
      hkeyed.of_eq rfl rfl
    have hnext : Known st.owner.attach.2.2 st.owner.nextSessionId :=
      ⟨st.owner.made, Nat.lt_succ_self _, hwf.next⟩
    have hle : st.owner.made ≤ st.owner.attach.2.2.made := Nat.le_succ _
    obtain ⟨as, hspec⟩ := call_spec hkeyed'
      (.openSession st.owner.nextSessionId (some st.owner.made))
    refine ⟨fun sid hsid => ?_, fun b hb => ?_, fun hmade other t ht => ?_⟩
    · rw [howner]
      by_cases hkey : sid = st.owner.nextSessionId
      · rwa [hkey]
      · have hold := hspec.others (S.config.localIngressId, sid) fun heq =>
          hkey (congrArg Prod.snd heq)
        exact (h.entries sid fun hnone => hsid (hold.trans hnone)).mono hle
    · rw [howner]
      rcases List.mem_append.1 (hspec.sent ▸ hb) with hold | hnew
      · exact ⟨(h.sent b hold).1, (h.sent b hold).2.mono hle⟩
      · rw [(hspec.own b hnew).1]
        exact ⟨rfl, hnext⟩
    · rw [howner] at hmade ht
      have hfresh : ∀ sid, Known st.owner sid → sid ≠ st.owner.nextSessionId := by
        rintro sid hsid rfl
        exact hwf.not_known_next (Nat.lt_of_succ_le hmade) hsid
      have hnone : st.sessions (S.config.localIngressId, st.owner.nextSessionId) = none := by
        by_contra hentry
        exact hfresh _ (h.entries _ hentry) rfl
      obtain ⟨a, -, -, hflags, -, -, hsent, hsessions⟩ :=
        @openSession_spec _ (setting acquires S) st.owner.nextSessionId (some st.owner.made)
          { st with owner := st.owner.attach.2.2 } hnone
      rcases attach_client ht with ⟨rfl, rfl⟩ | ⟨-, hold⟩
      · have hnumbered : numbered (S.config.localIngressId, st.owner.nextSessionId)
            (st.sent ++ [a]) = [] := by
          rw [numbered_append, numbered_syn hflags, List.append_nil]
          exact numbered_other fun b hb hkey =>
            hfresh _ (h.sent b hb).2 (congrArg Prod.snd hkey)
        rw [← hsent] at hnumbered
        refine ⟨counted_nil hnumbered, fun _ => ⟨_, (congrFun hsessions _).trans
          (Function.update_self _ _ _), rfl, ?_⟩⟩
        rw [show keyOf S { sessionId := st.owner.nextSessionId } =
          (S.config.localIngressId, st.owner.nextSessionId) from rfl, hnumbered]
        rfl
      · obtain ⟨hcounted, hspeaks⟩ := h.speaks (Nat.le_of_succ_le hmade) other t hold
        have hkey : keyOf S t ≠ (S.config.localIngressId, st.owner.nextSessionId) := fun heq =>
          hfresh _ (hwf.known hold) (congrArg Prod.snd heq)
        have hnumbered : numbered (keyOf S t) (openSession (setting acquires S)
            st.owner.nextSessionId (some st.owner.made)
            { st with owner := st.owner.attach.2.2 }).2.sent = numbered (keyOf S t) st.sent := by
          rw [hsent, numbered_append, numbered_syn hflags, List.append_nil]
        refine ⟨hcounted.of_numbered hnumbered, fun hopen => (hspeaks hopen).of_voice ?_ hnumbered⟩
        rw [StreamState.voice, hsessions]
        exact congrArg _ (Function.update_of_ne hkey _ _)

end Voiced

end InportService

end Libfgw
