import Libfgw.DataStream.Isolation
import Libfgw.Inport.Laws

namespace Libfgw

open Lib DataStream

namespace FgwSession

structure Grows (s s' : FgwSession) : Prop where
  sessionId : s'.sessionId = s.sessionId
  closed : s.closed = true → s'.closed = true
  received : s.received <+: s'.received
  written : s.written <+: s'.written

theorem Grows.refl (s : FgwSession) : Grows s s := ⟨rfl, id, List.prefix_refl _, List.prefix_refl _⟩

theorem Grows.trans {s s' s'' : FgwSession} (h : Grows s s') (h' : Grows s' s'') : Grows s s'' where
  sessionId := h'.sessionId.trans h.sessionId
  closed hclosed := h'.closed (h.closed hclosed)
  received := h.received.trans h'.received
  written := h.written.trans h'.written

theorem Acts.grows {s s' : FgwSession} (h : Acts s s') : Grows s s' where
  sessionId := h.sessionId
  closed := h.closed
  received := by
    cases h with
    | hears w => exact List.prefix_refl _
    | sends buf hopen => exact List.prefix_append _ _
    | closes hopen => exact List.prefix_refl _
  written := by
    cases h with
    | hears w => exact List.prefix_append _ _
    | sends buf hopen => exact List.prefix_refl _
    | closes hopen => exact List.prefix_refl _

end FgwSession

namespace InportService

open FgwSession

variable {acquires : Nat → Bool} {S : Setting InportService} {st st' : StreamState InportService}
  {handler : Handler} {s s' : FgwSession}

def keyOf (S : Setting InportService) (s : FgwSession) : SessionKey :=
  (S.config.localIngressId, s.sessionId)

def afterRun (acquires : Nat → Bool) (S : Setting InportService) (st : StreamState InportService)
    (handler : Handler) (s s' : FgwSession) (events : List Event) : StreamState InportService :=
  s'.calls.foldl (call (setting acquires S))
    { st with owner := st.owner.settle handler s s', events := events }

theorem drive_of_some {f : FgwSession → FgwSession} (hs : st.owner.clients handler = some s) :
    drive acquires S f handler st =
      afterRun acquires S st handler s (f { s with calls := [] }) st.events := by
  unfold drive
  rw [runClient_of_some hs]
  rfl

theorem drive_of_none {f : FgwSession → FgwSession} (hs : st.owner.clients handler = none) :
    drive acquires S f handler st = st := by
  unfold drive
  rw [runClient_of_none hs]
  rfl

theorem notify_sessionData (key : SessionKey) (sid : ZceUint32) (buf : List ZceByte)
    (hs : st.owner.clients handler = some s) :
    notify (setting acquires S) (.sessionData key handler sid buf) st =
      afterRun acquires S st handler s (onSessionData acquires buf { s with calls := [] })
        (st.events ++ [.sessionData key handler sid buf]) := by
  unfold notify setting onEvent
  dsimp only
  rw [runClient_of_some hs]
  rfl

theorem notify_sessionClose (key : SessionKey) (sid : ZceUint32)
    (hs : st.owner.clients handler = some s) :
    notify (setting acquires S) (.sessionClose key handler sid) st =
      afterRun acquires S st handler s (close { s with calls := [] })
        (st.events ++ [.sessionClose key handler sid]) := by
  unfold notify setting onEvent
  dsimp only
  rw [runClient_of_some hs]
  rfl

theorem afterRun_owner (events : List Event) : (afterRun acquires S st handler s s' events).owner =
    st.owner.settle handler s s' := (calls_sendsOnly _ _ _).owner

theorem afterRun_events (events : List Event) :
    (afterRun acquires S st handler s s' events).events = events := (calls_sendsOnly _ _ _).events

theorem resolve_useLocal (S : Setting InportService) :
    resolveIngressKey S kFgwWireIngressUseLocal = S.config.localIngressId := if_pos rfl

theorem afterRun_rxView (hacts : Acts s s') (events : List Event) (key : SessionKey) :
    (afterRun acquires S st handler s s' events).rxView key =
      if (¬ s.closed = true ∧ s'.closed = true) ∧ key = keyOf S s then none else st.rxView key := by
  unfold afterRun
  cases hacts with
  | hears w =>
    rw [if_neg fun h => h.1.1 h.1.2]
    rfl
  | sends buf hopen =>
    rw [if_neg fun h => h.1.1 h.1.2]
    exact rxView_sendSessionData _ _ _ _ _ key
  | closes hopen =>
    have hkey : (resolveIngressKey (setting acquires S) kFgwWireIngressUseLocal, s.sessionId) =
        keyOf S s := congrArg (·, s.sessionId) (resolve_useLocal _)
    rw [List.foldl_cons, List.foldl_nil, call, rxView_closeSession, hkey]
    by_cases h : key = keyOf S s
    · rw [if_pos h.symm, if_pos ⟨⟨by rw [hopen]; exact Bool.false_ne_true, rfl⟩, h⟩]
    · rw [if_neg (Ne.symm h), if_neg fun hc => h hc.2]
      rfl

theorem afterRun_names (hacts : Acts s s') (events : List Event) (key : SessionKey) :
    (afterRun acquires S st handler s s' events).names key =
      if (¬ s.closed = true ∧ s'.closed = true) ∧ key = keyOf S s then none else st.names key := by
  rw [StreamState.names_rxView, afterRun_rxView hacts, StreamState.names_rxView]
  split <;> rfl

/-- The tables of the stream and of the inport are in step: a handler that the stream names is a
client that is there and open, at its own session. -/
structure Sound (S : Setting InportService) (st : StreamState InportService) : Prop where
  wf : st.owner.Wf
  named : ∀ {key handler}, st.names key = some handler →
    ∃ s, st.owner.clients handler = some s ∧ keyOf S s = key ∧ s.closed = false
  heard : ∀ e ∈ st.events, ∀ handler, e.callee = some handler → handler < st.owner.made

def Later (S : Setting InportService) (st st' : StreamState InportService) : Prop :=
  ∀ handler s, st.owner.clients handler = some s →
    ∃ s', st'.owner.clients handler = some s' ∧ Grows s s' ∧
      (s'.closed = false → (st'.names (keyOf S s) = some handler ↔ st.names (keyOf S s) = some handler))

theorem keyOf_eq (h : Grows s s') : keyOf S s' = keyOf S s := congrArg (_, ·) h.sessionId

theorem Later.refl (S : Setting InportService) (st : StreamState InportService) : Later S st st :=
  fun _ s hs => ⟨s, hs, .refl s, fun _ => Iff.rfl⟩

theorem Later.trans {st'' : StreamState InportService} (h : Later S st st') (h' : Later S st' st'') :
    Later S st st'' := by
  intro handler s hs
  obtain ⟨s', hs', hgrows, hnames⟩ := h handler s hs
  obtain ⟨s'', hs'', hgrows', hnames'⟩ := h' handler s' hs'
  rw [keyOf_eq hgrows] at hnames'
  refine ⟨s'', hs'', hgrows.trans hgrows', fun hopen => ?_⟩
  have hopen' : s'.closed = false := Bool.eq_false_of_not_eq_true fun hclosed => by
    rw [hgrows'.closed hclosed] at hopen
    cases hopen
  rw [hnames' hopen, hnames hopen']

def Unnamed (st : StreamState InportService) (handler : Handler) : Prop :=
  ∀ key, st.names key ≠ some handler

structure Advances (S : Setting InportService) (st st' : StreamState InportService) : Prop where
  made : st.owner.made ≤ st'.owner.made
  sound : Sound S st → Sound S st'
  later : Sound S st → st'.owner.made ≤ 2 ^ 32 → Later S st st'
  quiet : ∀ handler, handler < st.owner.made → Unnamed st handler → Unnamed st' handler ∧
    (∀ e ∈ st'.events, e ∈ st.events ∨ e.callee ≠ some handler) ∧
    (st'.owner.clients handler).map FgwSession.written =
      (st.owner.clients handler).map FgwSession.written

theorem Sound.init (S : Setting InportService) (selector : LinkSelector) :
    Sound S (StreamState.init InportService.init selector) :=
  ⟨Wf.init, nofun, nofun⟩

namespace Advances

theorem refl (S : Setting InportService) (st : StreamState InportService) : Advances S st st :=
  ⟨le_rfl, id, fun _ _ => .refl S st, fun _ _ h => ⟨h, fun _ he => Or.inl he, rfl⟩⟩

theorem trans {st'' : StreamState InportService} (h : Advances S st st') (h' : Advances S st' st'') :
    Advances S st st'' where
  made := h.made.trans h'.made
  sound hsound := h'.sound (h.sound hsound)
  later hsound hmade :=
    (h.later hsound (h'.made.trans hmade)).trans (h'.later (h.sound hsound) hmade)
  quiet handler hlt hunnamed := by
    obtain ⟨hunnamed', hevents, hwritten⟩ := h.quiet handler hlt hunnamed
    obtain ⟨hunnamed'', hevents', hwritten'⟩ :=
      h'.quiet handler (Nat.lt_of_lt_of_le hlt h.made) hunnamed'
    exact ⟨hunnamed'', fun e he => (hevents' e he).elim (hevents e) Or.inr, hwritten'.trans hwritten⟩

theorem of_names (hclients : st'.owner.clients = st.owner.clients)
    (hmade : st'.owner.made = st.owner.made)
    (hnext : st'.owner.nextSessionId = st.owner.nextSessionId)
    (hnames : ∀ key, st'.names key = st.names key)
    (hevents : ∀ e ∈ st'.events, e ∈ st.events ∨ ∀ handler, e.callee = some handler →
      ¬ Unnamed st handler) : Advances S st st' where
  made := hmade.ge
  sound h := by
    refine ⟨⟨fun {handler s} hs => ?_, fun {handler} hlt => ?_, fun {handler s} hs => ?_, ?_⟩,
      fun {key handler} hkey => ?_, fun e he handler hcallee => ?_⟩
    · rw [hclients] at hs
      rw [hmade]
      exact h.wf.made hs
    · rw [hmade] at hlt
      rw [hclients]
      exact h.wf.all hlt
    · rw [hclients] at hs
      exact h.wf.sessionId hs
    · rw [hnext, hmade, h.wf.next]
    · rw [hnames] at hkey
      rw [hclients]
      exact h.named hkey
    · rw [hmade]
      rcases hevents e he with hold | hnew
      · exact h.heard e hold handler hcallee
      · obtain ⟨key, hkey⟩ := not_forall_not.1 (hnew handler hcallee)
        obtain ⟨s, hs, -⟩ := h.named hkey
        exact h.wf.made hs
  later _ _ := fun handler s hs =>
    ⟨s, by rw [hclients]; exact hs, .refl s, fun _ => by rw [hnames]⟩
  quiet handler _ hunnamed := by
    refine ⟨fun key => by rw [hnames]; exact hunnamed key, fun e he => ?_, by rw [hclients]⟩
    exact (hevents e he).imp_right fun hcalled hcallee => hcalled handler hcallee hunnamed

theorem of_eq (hsessions : st'.sessions = st.sessions) (howner : st'.owner = st.owner)
    (hevents : st'.events = st.events) : Advances S st st' :=
  of_names (by rw [howner]) (by rw [howner]) (by rw [howner]) (StreamState.names_eq hsessions)
    fun e he => Or.inl (hevents ▸ he)

theorem afterRun (hs : st.owner.clients handler = some s) (hacts : Acts s s') {events : List Event}
    (hevents : ∀ e ∈ events, e ∈ st.events ∨ e.callee = some handler)
    (hcalled : ¬ Unnamed st handler ∨ events = st.events ∧ s'.written = s.written) :
    Advances S st (InportService.afterRun acquires S st handler s s' events) where
  made := by rw [afterRun_owner, settle_made]
  sound h := by
    refine ⟨?_, fun {key other} hkey => ?_, fun e he other hcallee => ?_⟩
    · rw [afterRun_owner]
      exact h.wf.settle hs hacts.sessionId
    · rw [afterRun_names hacts] at hkey
      split at hkey
      · cases hkey
      rename_i hstays
      obtain ⟨t, ht, htkey, hopen⟩ := h.named hkey
      rw [afterRun_owner]
      by_cases hother : other = handler
      · subst hother
        obtain rfl := Option.some.inj (ht.symm.trans hs)
        refine ⟨s', settle_client_self, (keyOf_eq hacts.grows).trans htkey,
          Bool.eq_false_of_not_eq_true fun hclosed => ?_⟩
        exact hstays ⟨⟨by rw [hopen]; exact Bool.false_ne_true, hclosed⟩, htkey.symm⟩
      · exact ⟨t, (settle_client_of_ne hother).trans ht, htkey, hopen⟩
    · rw [afterRun_events] at he
      rw [afterRun_owner, settle_made]
      rcases hevents e he with hold | hnew
      · exact h.heard e hold other hcallee
      · rw [← Option.some.inj (hnew.symm.trans hcallee)]
        exact h.wf.made hs
  later h hmade := by
    intro other t ht
    rw [afterRun_owner, settle_made] at hmade
    rw [afterRun_owner]
    by_cases hother : other = handler
    · subst hother
      obtain rfl := Option.some.inj (ht.symm.trans hs)
      refine ⟨s', settle_client_self, hacts.grows, fun hopen => ?_⟩
      rw [afterRun_names hacts, if_neg fun hc => by rw [hopen] at hc; cases hc.1.2]
    · refine ⟨t, (settle_client_of_ne hother).trans ht, .refl t, fun _ => ?_⟩
      rw [afterRun_names hacts, if_neg]
      rintro ⟨-, hkey⟩
      exact hother (h.wf.handler_eq hmade ht hs (congrArg Prod.snd hkey))
  quiet other _ hunnamed := by
    refine ⟨fun key => ?_, fun e he => ?_, ?_⟩
    · rw [afterRun_names hacts]
      split
      · exact (Option.some_ne_none other).symm
      · exact hunnamed key
    · rw [afterRun_events] at he
      rcases hcalled with hnamed | ⟨rfl, -⟩
      · refine (hevents e he).imp_right fun hcallee hother => hnamed ?_
        rwa [Option.some.inj (hcallee.symm.trans hother)]
      · exact Or.inl he
    · rw [afterRun_owner]
      by_cases hother : other = handler
      · subst hother
        rw [settle_client_self, hs, Option.map_some, Option.map_some,
          (hcalled.resolve_left fun hnamed => hnamed hunnamed).2]
      · rw [settle_client_of_ne hother]

theorem drive {f : FgwSession → FgwSession} (hf : ∀ s, Acts s (f { s with calls := [] }))
    (hwritten : ∀ s : FgwSession, (f { s with calls := [] }).written = s.written)
    (handler : Handler) (st : StreamState InportService) :
    Advances S st (InportService.drive acquires S f handler st) := by
  cases hs : st.owner.clients handler with
  | none =>
    rw [drive_of_none hs]
    exact .refl S st
  | some s =>
    rw [drive_of_some hs]
    exact afterRun hs (hf s) (fun e he => Or.inl he) (Or.inr ⟨rfl, hwritten s⟩)

theorem mem_concat {e : Event} {es : List Event} {a : Event} (h : e ∈ es ++ [a]) : e ∈ es ∨ e = a :=
  (List.mem_append.1 h).imp_right List.mem_singleton.1

theorem notify_sessionData (hs : st.owner.clients handler = some s) (hnamed : ¬ Unnamed st handler)
    (key : SessionKey) (sid : ZceUint32) (buf : List ZceByte) :
    Advances S st (notify (setting acquires S) (.sessionData key handler sid buf) st) := by
  rw [InportService.notify_sessionData key sid buf hs]
  refine afterRun hs (onSessionData_acts acquires buf s) (fun e he => ?_) (Or.inl hnamed)
  exact (mem_concat he).imp_right fun heq => by rw [heq]; rfl

theorem names_notify_sessionData (hs : st.owner.clients handler = some s) (key : SessionKey)
    (sid : ZceUint32) (buf : List ZceByte) (key' : SessionKey) :
    (notify (setting acquires S) (.sessionData key handler sid buf) st).names key' =
      st.names key' := by
  obtain ⟨w, hw⟩ := onSessionData_hears acquires buf s
  rw [InportService.notify_sessionData key sid buf hs,
    afterRun_names (onSessionData_acts acquires buf s), hw, if_neg fun h => h.1.1 h.1.2]

theorem handOut (key : SessionKey) (sid : ZceUint32) (blks : List (List ZceByte))
    (hs : st.owner.clients handler = some s) (hnamed : ¬ Unnamed st handler) :
    Advances S st (DataStream.handOut (setting acquires S) key handler sid blks st) := by
  induction blks generalizing st s with
  | nil => exact .refl S st
  | cons blk blks ih =>
    rw [handOut_cons]
    split
    · have hnext : (notify (setting acquires S) (.sessionData key handler sid blk) st).owner.clients
          handler = some (onSessionData acquires blk { s with calls := [] }) := by
        rw [InportService.notify_sessionData key sid blk hs, afterRun_owner]
        exact settle_client_self
      refine (notify_sessionData hs hnamed key sid blk).trans (ih hnext fun hunnamed => hnamed ?_)
      intro key'
      exact (names_notify_sessionData hs key sid blk key').symm.trans_ne (hunnamed key')
    · exact ih hs hnamed

theorem closed {key : SessionKey} (h : Sound S st) (hkey : st.names key = some handler) :
    Advances S st
      ((notify (setting acquires S) (.sessionClose key handler key.2) st).eraseSession key) := by
  obtain ⟨s, hs, hskey, hopen⟩ := h.named hkey
  rw [notify_sessionClose key key.2 hs]
  have hacts := close_acts s
  have hcloses : Advances S st (InportService.afterRun acquires S st handler s
      (close { s with calls := [] }) (st.events ++ [.sessionClose key handler key.2])) :=
    afterRun hs hacts (fun e he => (mem_concat he).imp_right fun heq => by rw [heq]; rfl)
      (Or.inl fun hunnamed => hunnamed key hkey)
  refine hcloses.trans ?_
  refine of_names rfl rfl rfl (fun key' => ?_) fun e he => Or.inl he
  rw [StreamState.names_eraseSession, afterRun_names hacts]
  split
  · rename_i hkey'
    rw [if_pos ⟨⟨by rw [hopen]; exact Bool.false_ne_true, close_closed s⟩, hkey'.trans hskey.symm⟩]
  · rfl

theorem move {key : SessionKey} {data : ZceUint32 → List ZceByte → Prop} (h : Sound S st)
    (hmove : Move (setting acquires S) key data st st') : Advances S st st' := by
  have hnames : ∀ {s : SessionState}, st.sessions key = some s → st.names key = s.handler :=
    fun hs => by rw [StreamState.names, hs]; rfl
  cases hmove with
  | judged hjudges => exact of_eq hjudges.sessions hjudges.owner hjudges.events
  | recorded dk => exact of_eq rfl rfl rfl
  | created hnone =>
    refine of_names rfl rfl rfl (fun key' => ?_) fun e he => Or.inl he
    refine (StreamState.names_setSession _ _ _ _).trans ?_
    split
    · rename_i hkey
      rw [hkey, StreamState.names, hnone]
      rfl
    · rfl
  | opened hs hhandler =>
    refine of_names rfl rfl rfl (fun _ => rfl) fun e he => (mem_concat he).imp_right ?_
    rintro rfl handler' hcallee hunnamed
    obtain rfl := Option.some.inj hcallee
    exact hunnamed key ((hnames hs).trans hhandler)
  | closed hs hhandler => exact closed h ((hnames hs).trans hhandler)
  | dropped hs hhandler =>
    refine of_names rfl rfl rfl (fun key' => ?_) fun e he => Or.inl he
    rw [StreamState.names_eraseSession]
    split
    · rename_i hkey
      rw [hkey, hnames hs, hhandler]
    · rfl
  | kept hs hbuffer =>
    refine of_names rfl rfl rfl (fun key' => ?_) fun e he => Or.inl he
    rw [StreamState.names_setSession]
    split
    · rename_i hkey
      rw [hkey, hnames hs]
    · rfl
  | @delivered s handler hs hhandler =>
    obtain ⟨c, hc, -⟩ := h.named ((hnames hs).trans hhandler)
    have hset : ∀ key', (st.setSession key (collectReady s.rxBuffer.size s).2).names key' =
        st.names key' := by
      intro key'
      rw [StreamState.names_setSession]
      split
      · rename_i hkey
        rw [hkey, hnames hs, collectReady_handler]
      · rfl
    have hkept : Advances S st (st.setSession key (collectReady s.rxBuffer.size s).2) :=
      of_names rfl rfl rfl hset fun e he => Or.inl he
    have hc' : (st.setSession key (collectReady s.rxBuffer.size s).2).owner.clients handler =
      some c := hc
    refine hkept.trans (handOut key s.sessionId _ hc' fun hunnamed => ?_)
    exact hunnamed key ((hset key).trans ((hnames hs).trans hhandler))

theorem frame (h : Sound S st) (ch : ChannelRef) (f : List ZceByte) :
    Advances S st (handleFrame (setting acquires S) ch st f) := by
  refine (handleFrame_invariant (P := fun st' => Sound S st' ∧ Advances S st st') ch ?_ ?_
    ⟨h, .refl S st⟩).2
  · rintro st₁ st₂ hjudges ⟨hsound, hadvances⟩
    have hstep : Advances S st₁ st₂ := of_eq hjudges.sessions hjudges.owner hjudges.events
    exact ⟨hstep.sound hsound, hadvances.trans hstep⟩
  · rintro hr hdr - st₁ st₂ hmove ⟨hsound, hadvances⟩
    have hstep := move hsound hmove
    exact ⟨hstep.sound hsound, hadvances.trans hstep⟩

theorem frames (h : Sound S st) (ch : ChannelRef) (fs : List (List ZceByte)) :
    Advances S st (fs.foldl (handleFrame (setting acquires S) ch) st) := by
  induction fs generalizing st with
  | nil => exact .refl S st
  | cons f fs ih =>
    have hframe : Advances S st (handleFrame (setting acquires S) ch st f) := frame h ch f
    exact hframe.trans (ih (hframe.sound h))

end Advances

theorem names_openSession (sid : ZceUint32) (handler : Handler) (st : StreamState InportService)
    (key : SessionKey) : (openSession (setting acquires S) sid (some handler) st).2.names key =
      if key = (S.config.localIngressId, sid) ∧ st.sessions key = none then some handler
      else st.names key := by
  cases hentry : st.sessions (S.config.localIngressId, sid) with
  | some s =>
    have hbusy : (openSession (setting acquires S) sid (some handler) st).2 = st := by
      simp [openSession, setting, hentry]
    rw [hbusy, if_neg]
    rintro ⟨rfl, hnone⟩
    rw [hentry] at hnone
    cases hnone
  | none =>
    obtain ⟨a, -, -, -, -, -, -, hsessions⟩ :=
      @openSession_spec _ (setting acquires S) sid (some handler) st hentry
    rw [StreamState.names, StreamState.names, hsessions, Function.update_apply,
      show (setting acquires S).config = S.config from rfl]
    by_cases hkey : key = (S.config.localIngressId, sid)
    · rw [if_pos hkey, if_pos ⟨hkey, hkey ▸ hentry⟩]
      rfl
    · rw [if_neg hkey, if_neg fun h => hkey h.1]

theorem accept_of_acceptor (hacceptor : st.owner.acceptor = true) :
    accept acquires S st = (openSession (setting acquires S) st.owner.nextSessionId
      (some st.owner.made) { st with owner := st.owner.attach.2.2 }).2 := if_pos hacceptor

theorem accept_owner (hacceptor : st.owner.acceptor = true) :
    (accept acquires S st).owner = st.owner.attach.2.2 := by
  rw [accept_of_acceptor hacceptor]
  exact (openSession_sendsOnly _ _ _ _).owner

theorem accept_events (st : StreamState InportService) :
    (accept acquires S st).events = st.events := by
  unfold accept
  split
  · exact (openSession_sendsOnly _ _ _ _).events
  · rfl

theorem accept_names (hacceptor : st.owner.acceptor = true) (key : SessionKey) :
    (accept acquires S st).names key =
      if key = (S.config.localIngressId, st.owner.nextSessionId) ∧ st.sessions key = none then
        some st.owner.made
      else st.names key := by
  rw [accept_of_acceptor hacceptor]
  exact names_openSession _ _ _ key

namespace Advances

theorem accept (st : StreamState InportService) :
    Advances S st (InportService.accept acquires S st) := by
  cases hacceptor : st.owner.acceptor with
  | false =>
    rw [InportService.accept, if_neg (by rw [hacceptor]; exact Bool.false_ne_true)]
    exact .refl S st
  | true =>
    refine ⟨?_, fun h => ⟨?_, fun {key handler} hkey => ?_, fun e he handler hcallee => ?_⟩,
      fun h hmade handler s hs => ?_, fun handler hlt hunnamed =>
        ⟨fun key => ?_, fun e he => Or.inl ?_, ?_⟩⟩
    · rw [accept_owner hacceptor]
      exact Nat.le_succ _
    · rw [accept_owner hacceptor]
      exact h.wf.attach
    · rw [accept_names hacceptor] at hkey
      rw [accept_owner hacceptor]
      split at hkey
      · rename_i hnew
        obtain rfl := Option.some.inj hkey
        exact ⟨_, attach_client_self, hnew.1.symm, rfl⟩
      · obtain ⟨s, hs, hskey, hopen⟩ := h.named hkey
        exact ⟨s, h.wf.attach_client_of_some hs, hskey, hopen⟩
    · rw [accept_events] at he
      rw [accept_owner hacceptor]
      exact Nat.lt_succ_of_lt (h.heard e he handler hcallee)
    · rw [accept_owner hacceptor] at hmade ⊢
      refine ⟨s, h.wf.attach_client_of_some hs, .refl s, fun _ => ?_⟩
      rw [accept_names hacceptor, if_neg]
      rintro ⟨hkey, -⟩
      exact h.wf.sessionId_ne_next (Nat.lt_of_succ_le hmade) hs (congrArg Prod.snd hkey)
    · rw [accept_names hacceptor]
      split
      · exact fun heq => Nat.ne_of_gt hlt (Option.some.inj heq)
      · exact hunnamed key
    · rwa [accept_events] at he
    · rw [accept_owner hacceptor, attach_client_of_ne (Nat.ne_of_lt hlt)]

theorem drives (handlers : List Handler) (st : StreamState InportService) : Advances S st
    (handlers.foldl (fun st handler => InportService.drive acquires S FgwSession.close handler st)
      st) := by
  induction handlers generalizing st with
  | nil => exact .refl S st
  | cons handler handlers ih => exact (drive close_acts close_written handler st).trans (ih _)

theorem stop (st : StreamState InportService) :
    Advances S st (InportService.stop acquires S st) := by
  have hcleared : Advances S st { st with
      owner := { st.owner with acceptor := false, sessions := SortedMap.empty } } :=
    of_names rfl rfl rfl (fun _ => rfl) fun e he => Or.inl he
  refine hcleared.trans ?_
  unfold InportService.stop
  dsimp only
  rw [← List.foldl_map (f := Prod.snd)
    (g := fun st handler => InportService.drive acquires S FgwSession.close handler st)]
  exact drives _ _

theorem step {ds : DataStream InportService} (h : Sound S ds.toStreamState) (op : Op) :
    Advances S ds.toStreamState (InportService.step acquires S ds op).toStreamState := by
  cases op with
  | start listen =>
    obtain ⟨hclients, hmade, hnext⟩ := start_tables listen ds.owner
    exact of_names hclients hmade hnext (fun _ => rfl) fun e he => Or.inl he
  | accept => exact accept _
  | onClientBytes handler buf => exact drive (onClientBytes_acts buf) (onClientBytes_written buf) handler _
  | onClientClose handler => exact drive close_acts close_written handler _
  | onChannelBytes ch buf =>
    rw [show (InportService.step acquires S ds (.onChannelBytes ch buf)).toStreamState = _ from
      onChannelBytes_frames (setting acquires S) ch buf ds]
    exact frames h ch _
  | emitFeedback =>
    have honly := emitFeedback_judgesOnly (setting acquires S) ds.toStreamState
    exact of_eq honly.sessions honly.owner honly.events
  | selector selector => exact of_eq rfl rfl rfl
  | stop => exact stop _

theorem run {ds : DataStream InportService} (h : Sound S ds.toStreamState) (ops : List Op) :
    Advances S ds.toStreamState (InportService.run acquires S ds ops).toStreamState := by
  induction ops generalizing ds with
  | nil => exact .refl S _
  | cons op ops ih =>
    have hstep : Advances S ds.toStreamState (InportService.step acquires S ds op).toStreamState :=
      step h op
    exact hstep.trans (ih (hstep.sound h))

end Advances

end InportService

end Libfgw
