import Libfgw.Inport.Speech

namespace Libfgw

open Lib DataStream

namespace InportService

open FgwSession

variable {acquires : Nat → Bool} {S : Setting InportService} {st st' : StreamState InportService}
  {handler : Handler} {s s' : FgwSession}

theorem runClient_never_opens (S : Setting InportService) {f : FgwSession → FgwSession}
    (hf : ∀ s, Acts s (f { s with calls := [] })) (svc : InportService) (handler : Handler) :
    ∀ c ∈ (svc.runClient f handler).2, ∀ key other, ¬ Opens S key other c := by
  intro c hc key other
  cases hs : svc.clients handler with
  | none =>
    rw [runClient_of_none hs] at hc
    cases hc
  | some s =>
    rw [runClient_of_some hs] at hc
    have hacts := hf s
    generalize f { s with calls := [] } = s' at hacts hc
    cases hacts with
    | hears w => cases hc
    | sends buf hopen =>
      rw [List.mem_singleton.1 hc]
      exact id
    | closes hopen =>
      rw [List.mem_singleton.1 hc]
      exact id

theorem neverOpening (acquires : Nat → Bool) (S : Setting InportService) :
    NeverOpening (setting acquires S) := by
  intro svc e c hc
  cases e with
  | unknownSession key named => cases hc
  | sessionOpen key handler sid => cases hc
  | sessionData key handler sid buf =>
    exact runClient_never_opens _ (onSessionData_acts acquires buf) svc handler c hc
  | sessionClose key handler sid => exact runClient_never_opens _ close_acts svc handler c hc

structure Orderly (acquires : Nat → Bool) (S : Setting InportService)
    (st : StreamState InportService) : Prop where
  sound : Sound S st
  keyed : Keyed (setting acquires S) st
  hears : Hears acquires S st
  voiced : Voiced S st

namespace Orderly

theorem init (acquires : Nat → Bool) (S : Setting InportService) (selector : LinkSelector) :
    Orderly acquires S (StreamState.init InportService.init selector) where
  sound := .init S selector
  keyed := .init _ _ _
  hears := nofun
  voiced := ⟨nofun, nofun, nofun⟩

theorem of_eq (h : Orderly acquires S st) (hsessions : st'.sessions = st.sessions)
    (howner : st'.owner = st.owner) (hsent : st'.sent = st.sent) (hevents : st'.events = st.events) :
    Orderly acquires S st' where
  sound := (Advances.of_eq hsessions howner hevents).sound h.sound
  keyed := h.keyed.of_eq hsessions hsent
  hears := h.hears.of_eq (by rw [howner]) fun _ _ => by rw [hevents]
  voiced := h.voiced.of_eq hsessions howner hsent

theorem judgesOnly (h : Orderly acquires S st) (hjudges : JudgesOnly st st') :
    Orderly acquires S st' :=
  h.of_eq hjudges.sessions hjudges.owner hjudges.sent hjudges.events

theorem notify_sessionData (h : Orderly acquires S st) {key : SessionKey}
    (hkey : st.names key = some handler) (sid : ZceUint32) (buf : List ZceByte) :
    Orderly acquires S (notify (setting acquires S) (.sessionData key handler sid buf) st) := by
  obtain ⟨s, hs, rfl, hopen⟩ := h.sound.named hkey
  refine ⟨(Advances.notify_sessionData hs (fun hunnamed => hunnamed _ hkey) _ sid buf).sound h.sound,
    h.keyed.notify _, h.hears.notify_sessionData hs hopen sid buf, ?_⟩
  rw [InportService.notify_sessionData (keyOf S s) sid buf hs]
  exact h.voiced.afterRun h.sound.wf h.keyed hs (onSessionData_acts acquires buf s) _

theorem handOut (h : Orderly acquires S st) {key : SessionKey} (hkey : st.names key = some handler)
    (sid : ZceUint32) (blks : List (List ZceByte)) :
    Orderly acquires S (DataStream.handOut (setting acquires S) key handler sid blks st) := by
  induction blks generalizing st with
  | nil => exact h
  | cons blk blks ih =>
    rw [handOut_cons]
    split
    · obtain ⟨s, hs, -⟩ := h.sound.named hkey
      refine ih (h.notify_sessionData hkey sid blk) ?_
      rw [Advances.names_notify_sessionData hs]
      exact hkey
    · exact ih h hkey

theorem closed (h : Orderly acquires S st) {key : SessionKey} (hkey : st.names key = some handler) :
    Orderly acquires S ((notify (setting acquires S) (.sessionClose key handler key.2)
      st).eraseSession key) := by
  obtain ⟨s, hs, hskey, hopen⟩ := h.sound.named hkey
  have hacts := close_acts s
  refine ⟨(Advances.closed h.sound hkey).sound h.sound, (h.keyed.notify _).eraseSession key, ?_, ?_⟩
  · rw [notify_sessionClose key key.2 hs]
    refine Hears.of_eq (h.hears.afterRun hs hacts.sessionId close_clientTcp (close_written s)
      fun key' other => ?_) rfl fun _ _ => rfl
    rw [handed_append, handed_of_not_data key' other rfl, List.append_nil]
  · rw [notify_sessionClose key key.2 hs]
    have hvoiced := h.voiced.afterRun h.sound.wf h.keyed hs hacts
      (st.events ++ [.sessionClose key handler key.2])
    have hgone : (afterRun acquires S st handler s (close { s with calls := [] })
        (st.events ++ [.sessionClose key handler key.2])).sessions key = none := by
      refine Option.map_eq_none_iff.1 ((afterRun_rxView hacts _ key).trans ?_)
      rw [if_pos ⟨⟨by rw [hopen]; exact Bool.false_ne_true, close_closed s⟩, hskey.symm⟩]
    refine hvoiced.of_eq ?_ rfl rfl
    rw [StreamState.eraseSession, ← hgone, Function.update_eq_self]

theorem move (h : Orderly acquires S st) {key : SessionKey}
    {data : ZceUint32 → List ZceByte → Prop}
    (hknown : key.1 = S.config.localIngressId → Known st.owner key.2)
    (hmove : Move (setting acquires S) key data st st') : Orderly acquires S st' := by
  have hnames : ∀ {s : SessionState}, st.sessions key = some s → st.names key = s.handler :=
    fun hs => by rw [StreamState.names, hs]; rfl
  have hsound := (Advances.move h.sound hmove).sound h.sound
  have hkeyed := h.keyed.move hmove
  cases hmove with
  | judged hjudges => exact h.judgesOnly hjudges
  | recorded dk => exact h.of_eq rfl rfl rfl rfl
  | created hnone =>
    refine ⟨hsound, hkeyed, h.hears.of_eq rfl fun _ _ => rfl, ?_⟩
    refine ⟨fun sid hsid => ?_, h.voiced.sent, fun hle other t ht => ?_⟩
    · by_cases hkey : (S.config.localIngressId, sid) = key
      · rw [show sid = key.2 from congrArg Prod.snd hkey]
        exact hknown (congrArg Prod.fst hkey).symm
      · exact h.voiced.entries sid fun hold => hsid ((Function.update_of_ne hkey _ _).trans hold)
    · obtain ⟨hcounted, hspeaks⟩ := h.voiced.speaks hle other t ht
      refine ⟨hcounted, fun hopen => (hspeaks hopen).of_voice ?_ rfl⟩
      have hkey : keyOf S t ≠ key := by
        rintro rfl
        obtain ⟨s, hs, -⟩ := hspeaks hopen
        rw [hnone] at hs
        cases hs
      exact congrArg (Option.map SessionState.voice) (Function.update_of_ne hkey _ _)
  | opened hs hhandler =>
    refine ⟨hsound, hkeyed, h.hears.of_eq rfl fun key' other => ?_, h.voiced.of_eq rfl rfl rfl⟩
    exact (handed_append key' other _ _).trans
      (by rw [handed_of_not_data key' other rfl, List.append_nil])
  | closed hs hhandler => exact h.closed ((hnames hs).trans hhandler)
  | @dropped s hs hhandler =>
    refine ⟨hsound, hkeyed, h.hears.of_eq rfl fun _ _ => rfl, ?_⟩
    refine ⟨fun sid hsid => ?_, h.voiced.sent, fun hle other t ht => ?_⟩
    · refine h.voiced.entries sid fun hold => hsid ?_
      rw [StreamState.sessions_eraseSession, hold, ite_self]
    · obtain ⟨hcounted, hspeaks⟩ := h.voiced.speaks hle other t ht
      refine ⟨hcounted, fun hopen => (hspeaks hopen).of_voice ?_ rfl⟩
      have hkey : keyOf S t ≠ key := by
        rintro rfl
        obtain ⟨s', hs', hnamed, -⟩ := hspeaks hopen
        rw [Option.some.inj (hs'.symm.trans hs), hhandler] at hnamed
        cases hnamed
      exact congrArg (Option.map SessionState.voice) (Function.update_of_ne hkey _ _)
  | kept hs hbuffer =>
    refine ⟨hsound, hkeyed, h.hears.of_eq rfl fun _ _ => rfl, h.voiced.of_voice rfl rfl rfl ?_⟩
    exact StreamState.voice_setSession hs rfl
  | @delivered s handler hs hhandler =>
    have hset : ∀ key', (st.setSession key (collectReady s.rxBuffer.size s).2).names key' =
        st.names key' := by
      intro key'
      rw [StreamState.names_setSession]
      split
      · rename_i hkey
        rw [hkey, hnames hs, collectReady_handler]
      · rfl
    have hadvances : Advances S st (st.setSession key (collectReady s.rxBuffer.size s).2) :=
      .of_names rfl rfl rfl hset fun e he => Or.inl he
    have hkept : Orderly acquires S (st.setSession key (collectReady s.rxBuffer.size s).2) :=
      ⟨hadvances.sound h.sound, h.keyed.collected hs _, h.hears.of_eq rfl fun _ _ => rfl,
        h.voiced.of_voice rfl rfl rfl (StreamState.voice_setSession hs (voice_collectReady _ s))⟩
    exact hkept.handOut ((hset key).trans ((hnames hs).trans hhandler)) _ _

theorem drive (h : Orderly acquires S st) {f : FgwSession → FgwSession}
    (hf : ∀ s, Acts s (f { s with calls := [] }))
    (hwritten : ∀ s : FgwSession, (f { s with calls := [] }).written = s.written)
    (htcp : ∀ s : FgwSession, s.clientTcp = !s.closed →
      (f { s with calls := [] }).clientTcp = !(f { s with calls := [] }).closed) (handler : Handler) :
    Orderly acquires S (InportService.drive acquires S f handler st) where
  sound := (Advances.drive hf hwritten handler st).sound h.sound
  keyed := by
    have hkeyed : Keyed (setting acquires S)
        { st with owner := (st.owner.runClient f handler).1 } := h.keyed.of_eq rfl rfl
    exact hkeyed.calls _
  hears := h.hears.drive hf hwritten htcp handler
  voiced := h.voiced.drive h.sound.wf h.keyed hf handler

theorem accept (h : Orderly acquires S st) :
    Orderly acquires S (InportService.accept acquires S st) where
  sound := (Advances.accept st).sound h.sound
  keyed := by
    have hkeyed : Keyed (setting acquires S) { st with owner := st.owner.attach.2.2 } :=
      h.keyed.of_eq rfl rfl
    unfold InportService.accept
    split
    · exact hkeyed.call (.openSession st.owner.nextSessionId (some st.owner.made))
    · exact h.keyed
  hears := by
    intro handler s hs
    rw [accept_events]
    cases hacceptor : st.owner.acceptor with
    | false =>
      rw [InportService.accept, if_neg (by rw [hacceptor]; exact Bool.false_ne_true)] at hs
      exact h.hears handler s hs
    | true =>
      rw [accept_owner hacceptor] at hs
      rcases attach_client hs with ⟨rfl, rfl⟩ | ⟨-, hold⟩
      · refine ⟨rfl, ?_⟩
        rw [handed_of_not_callee fun e he hcallee => Nat.lt_irrefl _ (h.sound.heard e he _ hcallee)]
        rfl
      · exact h.hears handler s hold
  voiced := h.voiced.accept h.sound.wf h.keyed

end Orderly

variable {G : SessionKey → ZceUint32 → List ZceByte → Prop}

theorem fed_drive (h : Fed G st) {f : FgwSession → FgwSession}
    (hf : ∀ s, Acts s (f { s with calls := [] })) (handler : Handler) :
    Fed G (drive acquires S f handler st) := by
  have hfed : Fed G { st with owner := (st.owner.runClient f handler).1 } := h.of_eq rfl rfl
  exact hfed.calls (runClient_never_opens (setting acquires S) hf st.owner handler)

theorem fed_accept (h : Fed G st) (hsound : Sound S st) : Fed G (accept acquires S st) := by
  have hfed : Fed G { st with owner := st.owner.attach.2.2 } := h.of_eq rfl rfl
  unfold accept
  split
  · refine hfed.openSession (handed_of_not_callee fun e he hcallee => ?_)
    exact Nat.lt_irrefl _ (hsound.heard e he _ hcallee)
  · exact h

/-- What an inport keeps to while it runs, `G` saying which payloads are genuine. -/
structure Serves (acquires : Nat → Bool) (S : Setting InportService)
    (G : SessionKey → ZceUint32 → List ZceByte → Prop) (st : StreamState InportService) : Prop
    extends Orderly acquires S st where
  fed : Fed G st

namespace Serves

theorem mono {G' : SessionKey → ZceUint32 → List ZceByte → Prop} (h : Serves acquires S G st)
    (hG : ∀ {key seq p}, G key seq p → G' key seq p) : Serves acquires S G' st :=
  ⟨h.toOrderly, h.fed.mono hG⟩

theorem drive (h : Serves acquires S G st) {f : FgwSession → FgwSession}
    (hf : ∀ s, Acts s (f { s with calls := [] }))
    (hwritten : ∀ s : FgwSession, (f { s with calls := [] }).written = s.written)
    (htcp : ∀ s : FgwSession, s.clientTcp = !s.closed →
      (f { s with calls := [] }).clientTcp = !(f { s with calls := [] }).closed) (handler : Handler) :
    Serves acquires S G (InportService.drive acquires S f handler st) :=
  ⟨h.toOrderly.drive hf hwritten htcp handler, fed_drive h.fed hf handler⟩

theorem close (h : Serves acquires S G st) (handler : Handler) :
    Serves acquires S G (InportService.drive acquires S FgwSession.close handler st) :=
  h.drive close_acts close_written (fun _ => close_clientTcp) handler

theorem stop (h : Serves acquires S G st) :
    Serves acquires S G (InportService.stop acquires S st) := by
  have hdrives : ∀ (es : List (ZceUint32 × Handler)) (st : StreamState InportService),
      Serves acquires S G st → Serves acquires S G
        (es.foldl (fun st e => InportService.drive acquires S FgwSession.close e.2 st) st) := by
    intro es
    induction es with
    | nil => exact fun _ h => h
    | cons e es ih => exact fun st h => ih _ (h.close e.2)
  refine hdrives _ _ ?_
  have hadvances : Advances S st { st with
      owner := { st.owner with acceptor := false, sessions := SortedMap.empty } } :=
    .of_names rfl rfl rfl (fun _ => rfl) fun e he => Or.inl he
  exact ⟨⟨hadvances.sound h.sound, h.keyed.of_eq rfl rfl, h.hears.of_eq rfl fun _ _ => rfl,
    h.voiced.of_voice rfl rfl rfl fun _ => rfl⟩, h.fed.of_eq rfl rfl⟩

theorem frames (h : Serves acquires S G st) (ch : ChannelRef) {fs : List (List ZceByte)}
    (hfs : ∀ f ∈ fs, Brings (setting acquires S)
      (fun key => key.1 = S.config.localIngressId → Known st.owner key.2) G f) :
    Serves acquires S G (fs.foldl (handleFrame (setting acquires S) ch) st) := by
  refine (arrivals_invariant (P := fun st' => Serves acquires S G st' ∧
    st.owner.made ≤ st'.owner.made) ch ?_ ?_ hfs ⟨h, le_rfl⟩).1
  · rintro st₁ st₂ hjudges ⟨hserves, hmade⟩
    exact ⟨⟨hserves.toOrderly.judgesOnly hjudges, hserves.fed.of_eq hjudges.sessions hjudges.events⟩,
      by rwa [hjudges.owner]⟩
  · rintro key data hknown hdata st₁ st₂ hmove ⟨hserves, hmade⟩
    refine ⟨⟨hserves.toOrderly.move (fun hlocal => (hknown hlocal).mono hmade) hmove, ?_⟩,
      hmade.trans (Advances.move hserves.sound hmove).made⟩
    exact hserves.fed.move (neverOpening acquires S) hdata nofun hmove

end Serves

def arriving (ds : DataStream InportService) : Op → List (List ZceByte)
  | .onChannelBytes ch buf => segmentFrames (ds.scratch ch ++ buf)
  | _ => []

theorem Serves.step {ds : DataStream InportService} (h : Serves acquires S G ds.toStreamState)
    {op : Op} (harriving : ∀ f ∈ arriving ds op, Brings (setting acquires S)
      (fun key => key.1 = S.config.localIngressId → Known ds.owner key.2) G f) :
    Serves acquires S G (InportService.step acquires S ds op).toStreamState := by
  cases op with
  | start listen =>
    obtain ⟨hclients, hmade, -⟩ := start_tables listen ds.owner
    have hadvances : Advances S ds.toStreamState
      (InportService.step acquires S ds (.start listen)).toStreamState := .step h.sound _
    exact ⟨⟨hadvances.sound h.sound, h.keyed.of_eq rfl rfl, h.hears.of_eq hclients fun _ _ => rfl,
      h.voiced.of_voice hmade hclients rfl fun _ => rfl⟩, h.fed.of_eq rfl rfl⟩
  | accept => exact ⟨h.toOrderly.accept, fed_accept h.fed h.sound⟩
  | onClientBytes handler buf =>
    exact h.drive (onClientBytes_acts buf) (onClientBytes_written buf)
      (fun _ => onClientBytes_clientTcp buf) handler
  | onClientClose handler => exact h.close handler
  | onChannelBytes ch buf =>
    rw [show (InportService.step acquires S ds (.onChannelBytes ch buf)).toStreamState = _ from
      onChannelBytes_frames (setting acquires S) ch buf ds]
    exact h.frames ch harriving
  | emitFeedback =>
    have honly := emitFeedback_judgesOnly (setting acquires S) ds.toStreamState
    exact ⟨h.toOrderly.judgesOnly honly, h.fed.of_eq honly.sessions honly.events⟩
  | selector selector => exact ⟨h.toOrderly.of_eq rfl rfl rfl rfl, h.fed.of_eq rfl rfl⟩
  | stop => exact h.stop

theorem drive_sent (hkeyed : Keyed (setting acquires S) st) (f : FgwSession → FgwSession)
    (handler : Handler) : st.sent <+: (drive acquires S f handler st).sent := by
  have hkeyed' : Keyed (setting acquires S) { st with owner := (st.owner.runClient f handler).1 } :=
    hkeyed.of_eq rfl rfl
  exact calls_sent hkeyed' _

theorem accept_sent (hkeyed : Keyed (setting acquires S) st) :
    st.sent <+: (accept acquires S st).sent := by
  have hkeyed' : Keyed (setting acquires S) { st with owner := st.owner.attach.2.2 } :=
    hkeyed.of_eq rfl rfl
  unfold accept
  split
  · exact calls_sent hkeyed' [.openSession st.owner.nextSessionId (some st.owner.made)]
  · exact List.prefix_refl _

theorem stop_sent (h : Serves acquires S G st) : st.sent <+: (stop acquires S st).sent := by
  have hdrives : ∀ (es : List (ZceUint32 × Handler)) (st : StreamState InportService),
      Keyed (setting acquires S) st → st.sent <+:
        (es.foldl (fun st e => drive acquires S FgwSession.close e.2 st) st).sent := by
    intro es
    induction es with
    | nil => exact fun _ _ => List.prefix_refl _
    | cons e es ih =>
      intro st hkeyed
      have hkeyed' : Keyed (setting acquires S)
          { st with owner := (st.owner.runClient FgwSession.close e.2).1 } := hkeyed.of_eq rfl rfl
      exact (drive_sent hkeyed _ e.2).trans (ih _ (hkeyed'.calls _))
  have hkeyed' : Keyed (setting acquires S) { st with
      owner := { st.owner with acceptor := false, sessions := SortedMap.empty } } :=
    h.keyed.of_eq rfl rfl
  exact hdrives _ _ hkeyed'

theorem step_sent {ds : DataStream InportService} (h : Serves acquires S G ds.toStreamState) (op : Op) :
    ds.sent <+: (step acquires S ds op).sent := by
  cases op with
  | start listen => exact List.prefix_refl _
  | accept => exact accept_sent h.keyed
  | onClientBytes handler buf => exact drive_sent h.keyed _ handler
  | onClientClose handler => exact drive_sent h.keyed _ handler
  | onChannelBytes ch buf =>
    rw [show (step acquires S ds (.onChannelBytes ch buf)).toStreamState = _ from
      onChannelBytes_frames (setting acquires S) ch buf ds]
    exact frames_sent h.keyed ch _
  | emitFeedback =>
    rw [show (step acquires S ds .emitFeedback).sent = ds.sent from
      (emitFeedback_judgesOnly (setting acquires S) ds.toStreamState).sent]
  | selector selector => exact List.prefix_refl _
  | stop => exact stop_sent h

end InportService

end Libfgw
