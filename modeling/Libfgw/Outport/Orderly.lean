import Libfgw.Outport.Speech

namespace Libfgw

open Lib DataStream

namespace OutportService

open FgwRelaySession

variable {K : Sockets} {S : Setting OutportService} {st st' : StreamState OutportService}
  {handler : Handler} {s s' : FgwRelaySession} {known known' : SessionKey → Prop}
  {brought brought' : Handler → List ZceByte}

theorem runRelay_never_opens (S : Setting OutportService) {f : FgwRelaySession → FgwRelaySession}
    {svc : OutportService} (hf : ∀ s, svc.relays handler = some s →
      Utters { s with calls := [] } (f { s with calls := [] })) :
    ∀ c ∈ (svc.runRelay f handler).2, ∀ key other, ¬ Opens S key other c := by
  intro c hc key other
  cases hs : svc.relays handler with
  | none =>
    rw [runRelay, hs] at hc
    cases hc
  | some s =>
    rw [runRelay_of_some hs] at hc
    rcases (hf s hs).2 with ⟨-, -, hcalls⟩ | ⟨-, bufs, hcalls⟩
    · rw [hcalls] at hc
      cases hc
    · rw [hcalls, List.nil_append] at hc
      rcases List.mem_append.1 hc with hsend | hend
      · obtain ⟨buf, -, rfl⟩ := List.mem_map.1 hsend
        exact id
      · split at hend
        · rw [List.mem_singleton.1 hend]
          exact id
        · cases hend

theorem neverOpening (K : Sockets) (S : Setting OutportService) : NeverOpening (setting K S) := by
  intro svc e c hc
  cases e with
  | unknownSession key named => cases hc
  | sessionOpen key handler sid => cases hc
  | sessionData key handler sid buf =>
    exact runRelay_never_opens _ (fun _ _ => Utters.steady.onSessionData K buf _) c hc
  | sessionClose key handler sid =>
    exact runRelay_never_opens _ (fun _ _ => Utters.close _) c hc

namespace Orderly

theorem mono (h : Orderly K S known brought st) (hknown : ∀ key, known key → known' key)
    (hingress : ∀ key, known' key → key.1 ≠ kFgwWireIngressUseLocal) :
    Orderly K S known' brought st :=
  { h with
    ingress := hingress
    keys := fun handler s hs => hknown _ (h.keys handler s hs) }

theorem judgesOnly (h : Orderly K S known brought st) (hjudges : JudgesOnly st st') :
    Orderly K S known brought st' :=
  h.of_eq hjudges.sessions hjudges.owner hjudges.sent hjudges.events

theorem mem_concat {e : Event} {es : List Event} {a : Event} (h : e ∈ es ++ [a]) : e ∈ es ∨ e = a :=
  (List.mem_append.1 h).imp_right List.mem_singleton.1

theorem notify_sessionData (h : Orderly K S known brought st) (hs : st.owner.relays handler = some s)
    (sid : ZceUint32) (buf : List ZceByte) :
    Orderly K S known brought (notify (setting K S) (.sessionData s.key handler sid buf) st) := by
  have hnew : ∀ key other, handed key other [.sessionData s.key handler sid buf] =
      if s.key = key ∧ handler = other then [buf] else [] := fun key other =>
    handed_sessionData key other s.key handler sid [buf]
  rw [OutportService.notify_sessionData s.key sid buf hs]
  refine h.afterRun hs (Utters.steady.onSessionData K buf _) (fun key other hother => ?_)
    (fun e he => (mem_concat he).imp_right fun heq => by rw [heq]; rfl) (fun _ _ => rfl)
    fun said htalk => ?_
  · rw [handed_append, hnew, if_neg fun hown => hother hown.2.symm, List.append_nil]
  · rw [handed_append, hnew, if_pos ⟨rfl, rfl⟩, List.flatten_append, List.flatten_singleton]
    exact htalk.idle.onSessionData buf

theorem handOut (h : Orderly K S known brought st) (hs : st.owner.relays handler = some s)
    (sid : ZceUint32) (blks : List (List ZceByte)) :
    Orderly K S known brought (DataStream.handOut (setting K S) s.key handler sid blks st) := by
  induction blks generalizing st s with
  | nil => exact h
  | cons blk blks ih =>
    rw [handOut_cons]
    split
    · have hnext : (notify (setting K S) (.sessionData s.key handler sid blk) st).owner.relays
          handler = some (FgwRelaySession.onSessionData K blk { s with calls := [] }) := by
        rw [OutportService.notify_sessionData s.key sid blk hs, afterRun_owner]
        exact settle_relay_self
      have hkey : (FgwRelaySession.onSessionData K blk { s with calls := [] }).key = s.key :=
        (Utters.steady.onSessionData K blk { s with calls := [] }).1
      have hrest := ih (h.notify_sessionData hs sid blk) hnext
      rwa [hkey] at hrest
    · exact ih h hs

theorem closed (h : Orderly K S known brought st) {key : SessionKey} (hkey : st.names key = some handler) :
    Orderly K S known brought
      ((notify (setting K S) (.sessionClose key handler key.2) st).eraseSession key) := by
  obtain ⟨s, hs, rfl, hopen⟩ := h.wf.registered ((h.named key handler).1 hkey)
  have hutters := Utters.close { s with calls := [] }
  have hclosed := close_state { s with calls := [] }
  rw [notify_sessionClose s.key s.key.2 hs]
  have hrun : Orderly K S known brought (OutportService.afterRun K S st handler s
      (close { s with calls := [] }) (st.events ++ [.sessionClose s.key handler s.key.2])) := by
    have hquiet : ∀ key other, handed key other
        (st.events ++ [.sessionClose s.key handler s.key.2]) = handed key other st.events :=
      fun key other => by
        rw [handed_append, handed_of_not_data key other rfl, List.append_nil]
    refine h.afterRun hs hutters (fun key other _ => hquiet key other)
      (fun e he => (mem_concat he).imp_right fun heq => by rw [heq]; rfl) (fun _ _ => rfl)
      fun said htalk => ?_
    rw [hquiet]
    exact htalk.idle.close
  have hgone : (OutportService.afterRun K S st handler s (close { s with calls := [] })
      (st.events ++ [.sessionClose s.key handler s.key.2])).sessions s.key = none := by
    refine Option.map_eq_none_iff.1 ((afterRun_rxView (h.ingress _ (h.keys handler s hs)) hutters _ s.key).trans ?_)
    rw [if_pos ⟨⟨hopen, hclosed⟩, rfl⟩]
  refine hrun.of_eq ?_ rfl rfl rfl
  rw [StreamState.eraseSession, ← hgone, Function.update_eq_self]

theorem dataStreamHook_eq (h : Orderly K S known brought st) {key : SessionKey}
    (hnone : st.sessions key = none) : st.owner.dataStreamHook key =
      ({ sessions := Function.update st.owner.sessions key (some st.owner.made)
         relays := Function.update st.owner.relays st.owner.made
           (some (newRelay st.owner.made key.1 key.2))
         made := st.owner.made + 1 }, some st.owner.made) := by
  have hunregistered : st.owner.sessions key = none := by
    by_contra hne
    obtain ⟨other, hother⟩ := Option.ne_none_iff_exists'.1 hne
    have hnamed := (h.named key other).2 hother
    rw [StreamState.names, hnone] at hnamed
    cases hnamed
  unfold dataStreamHook ensureSession
  rw [hunregistered]
  rfl

theorem created (h : Orderly K S known brought st) {key : SessionKey} (hknown : known key)
    (hnone : st.sessions key = none) :
    Orderly K S known brought (DataStream.createSession (setting K S) key st) := by
  have hunnamed : st.names key = none := by rw [StreamState.names, hnone]; rfl
  have hensure := h.dataStreamHook_eq hnone
  have hcreate : DataStream.createSession (setting K S) key st =
      ({ st.logEvent (.unknownSession key (st.owner.dataStreamHook key).2) with
          owner := (st.owner.dataStreamHook key).1 }).setSession key
        { sessionId := key.2, wireIngressId := key.1, handler := (st.owner.dataStreamHook key).2 } :=
    rfl
  have hwf : (st.owner.dataStreamHook key).1.Wf := h.wf.ensureSession key
  have hkeyed := h.keyed.createSession key
  rw [hcreate] at hkeyed ⊢
  rw [hensure] at hkeyed hwf ⊢
  have hold : ∀ {other : Handler} {t : FgwRelaySession}, st.owner.relays other = some t →
      other ≠ st.owner.made := fun ht => Nat.ne_of_lt (h.wf.made ht)
  have hrelay : ∀ {other : Handler} {t : FgwRelaySession}, Function.update st.owner.relays
      st.owner.made (some (newRelay st.owner.made key.1 key.2)) other = some t →
        (other = st.owner.made ∧ t = newRelay st.owner.made key.1 key.2) ∨
          st.owner.relays other = some t := by
    intro other t ht
    rw [Function.update_apply] at ht
    split at ht
    · rename_i hother
      exact Or.inl ⟨hother, (Option.some.inj ht).symm⟩
    · exact Or.inr ht
  have hquiet : ∀ key' other, handed key' other
      (st.events ++ [.unknownSession key (some st.owner.made)]) = handed key' other st.events :=
    fun key' other => by rw [handed_append, handed_of_not_data key' other rfl, List.append_nil]
  refine ⟨hwf, fun key' other => ?_, h.ingress, fun other t ht => ?_, fun e he other hcallee => ?_,
    fun other hle => ?_, hkeyed, fun a ha => ?_, fun other t ht => ?_⟩
  · rw [StreamState.names_setSession]
    change _ ↔ Function.update st.owner.sessions key (some st.owner.made) key' = some other
    split
    · rename_i hkey
      rw [hkey, Function.update_self]
    · rename_i hkey
      rw [Function.update_of_ne hkey]
      exact h.named key' other
  · rcases hrelay ht with ⟨-, rfl⟩ | hrest
    · exact hknown
    · exact h.keys other t hrest
  · rcases mem_concat he with hrest | rfl
    · exact Nat.lt_succ_of_lt (h.heard e hrest other hcallee)
    · cases hcallee
  · exact h.fresh other (Nat.le_of_succ_le hle)
  · obtain ⟨other, t, ht, htkey⟩ := h.sent a ha
    exact ⟨other, t, (Function.update_of_ne (hold ht) _ _).trans ht, htkey⟩
  · have hsole : Sole (st.owner.dataStreamHook key).1 other t.key → Sole st.owner other t.key := by
      rw [hensure]
      exact fun honly third u hu hukey =>
        honly third u ((Function.update_of_ne (hold hu) _ _).trans hu) hukey
    rw [hensure] at hsole
    rcases hrelay ht with ⟨rfl, rfl⟩ | hrest
    · have hheard : handed key st.owner.made (st.events ++
          [.unknownSession key (some st.owner.made)]) = [] := by
        rw [hquiet]
        exact handed_of_not_callee fun e he hcallee => Nat.lt_irrefl _ (h.heard e he _ hcallee)
      have htalk : Talk K (handed key st.owner.made (st.events ++
          [.unknownSession key (some st.owner.made)])).flatten [] (brought st.owner.made)
          (newRelay st.owner.made key.1 key.2) := by
        rw [hheard, h.fresh _ le_rfl]
        exact Talk.start K rfl rfl rfl rfl
      refine ⟨[], htalk, fun honly => ?_⟩
      have hnumbered : numbered key st.sent = [] := numbered_other fun a ha hkey => by
        obtain ⟨third, u, hu, hukey⟩ := h.sent a ha
        exact hold hu (hsole honly third u hu (hukey.trans hkey))
      exact ⟨counted_nil hnumbered, fun _ => ⟨_, Function.update_self _ _ _, rfl,
        congrArg (fun as => BitVec.ofNat 32 as.length) hnumbered.symm⟩⟩
    · obtain ⟨said, htalk, hcounts⟩ := h.talks other t hrest
      have htalk' : Talk K (handed t.key other (st.events ++
          [.unknownSession key (some st.owner.made)])).flatten said (brought other) t := by
        rwa [hquiet]
      refine ⟨said, htalk', fun honly => ?_⟩
      obtain ⟨hcounted, hspeaks⟩ := hcounts (hsole honly)
      refine ⟨hcounted, fun hopen => (hspeaks hopen).of_voice ?_ rfl⟩
      have hkey : t.key ≠ key := by
        intro heq
        have hnamed := (h.named t.key other).2 (h.wf.opened hrest hopen)
        rw [heq, hunnamed] at hnamed
        cases hnamed
      exact congrArg (Option.map SessionState.voice) (Function.update_of_ne hkey _ _)

theorem move (h : Orderly K S known brought st) {key : SessionKey}
    {data : ZceUint32 → List ZceByte → Prop} (hknown : known key)
    (hmove : Move (setting K S) key data st st') : Orderly K S known brought st' := by
  have hnames : ∀ {s : SessionState}, st.sessions key = some s → st.names key = s.handler :=
    fun hs => by rw [StreamState.names, hs]; rfl
  have hkeyed := h.keyed.move hmove
  cases hmove with
  | judged hjudges => exact h.judgesOnly hjudges
  | recorded dk => exact h.of_eq rfl rfl rfl rfl
  | created hnone => exact h.created hknown hnone
  | @opened s handler hs hhandler =>
    refine h.of_voice rfl hkeyed rfl (fun _ => rfl) (fun key' other => ?_) fun e he other hcallee => ?_
    · exact (handed_append key' other _ _).trans
        (by rw [handed_of_not_data key' other rfl, List.append_nil])
    · rcases mem_concat he with hold | rfl
      · exact h.heard e hold other hcallee
      · obtain rfl := Option.some.inj hcallee
        obtain ⟨t, ht, -⟩ := h.wf.registered ((h.named key handler).1 ((hnames hs).trans hhandler))
        exact h.wf.made ht
  | closed hs hhandler => exact h.closed ((hnames hs).trans hhandler)
  | @dropped s hs hhandler =>
    have hunnamed : st.names key = none := (hnames hs).trans hhandler
    refine ⟨h.wf, fun key' other => ?_, h.ingress, h.keys, h.heard, h.fresh, hkeyed, h.sent, fun other t ht => ?_⟩
    · rw [StreamState.names_eraseSession]
      split
      · rename_i hkey
        rw [hkey, ← hunnamed]
        exact h.named key other
      · exact h.named key' other
    · obtain ⟨said, htalk, hcounts⟩ := h.talks other t ht
      refine ⟨said, htalk, fun honly => ⟨(hcounts honly).1, fun hopen =>
        ((hcounts honly).2 hopen).of_voice ?_ rfl⟩⟩
      have hkey : t.key ≠ key := by
        intro heq
        have hnamed := (h.named t.key other).2 (h.wf.opened ht hopen)
        rw [heq, hunnamed] at hnamed
        cases hnamed
      exact congrArg (Option.map SessionState.voice) (Function.update_of_ne hkey _ _)
  | kept hs hbuffer =>
    exact h.of_voice rfl hkeyed rfl (StreamState.voice_setSession hs rfl) (fun _ _ => rfl) h.heard
  | @delivered s handler hs hhandler =>
    obtain ⟨t, ht, rfl, -⟩ := h.wf.registered ((h.named key handler).1 ((hnames hs).trans hhandler))
    have hkept : Orderly K S known brought (st.setSession t.key (collectReady s.rxBuffer.size s).2) :=
      h.of_voice rfl (h.keyed.collected hs _) rfl (StreamState.voice_setSession hs (voice_collectReady _ s))
        (fun _ _ => rfl) h.heard
    exact hkept.handOut (by exact ht) _ _

theorem drive (h : Orderly K S known brought st) {f : FgwRelaySession → FgwRelaySession}
    (hf : ∀ s, st.owner.relays handler = some s →
      Utters { s with calls := [] } (f { s with calls := [] }))
    (hbrought : ∀ other, other ≠ handler → brought' other = brought other)
    (hnone : st.owner.relays handler = none → brought' = brought)
    (htalks : ∀ s heard said, st.owner.relays handler = some s →
      Talks K heard said (brought handler) { s with calls := [] } →
      Talks K heard said (brought' handler) (f { s with calls := [] })) :
    Orderly K S known brought' (OutportService.drive K S f handler st) := by
  cases hs : st.owner.relays handler with
  | none =>
    rw [hnone hs, OutportService.drive, runRelay, hs]
    exact h
  | some s =>
    rw [drive_of_some hs]
    exact h.afterRun hs (hf s hs) (fun _ _ _ => rfl) (fun e he => Or.inl he) hbrought
      fun said htalk => htalks s _ said hs htalk.idle

end Orderly

variable {G : SessionKey → ZceUint32 → List ZceByte → Prop}

theorem fed_drive (h : Fed G st) {f : FgwRelaySession → FgwRelaySession}
    (hf : ∀ s, st.owner.relays handler = some s →
      Utters { s with calls := [] } (f { s with calls := [] })) :
    Fed G (drive K S f handler st) := by
  have hfed : Fed G { st with owner := (st.owner.runRelay f handler).1 } := h.of_eq rfl rfl
  exact hfed.calls (runRelay_never_opens (setting K S) hf)

/-- What an outport keeps to while it runs, `G` saying which payloads are genuine. -/
structure Serves (K : Sockets) (S : Setting OutportService) (known : SessionKey → Prop)
    (G : SessionKey → ZceUint32 → List ZceByte → Prop) (brought : Handler → List ZceByte)
    (st : StreamState OutportService) : Prop extends Orderly K S known brought st where
  fed : Fed G st

def arriving (ds : DataStream OutportService) : Op → List (List ZceByte)
  | .onChannelBytes ch buf => segmentFrames (ds.scratch ch ++ buf)
  | _ => []

def broughtAfter (ds : DataStream OutportService) (brought : Handler → List ZceByte) :
    Op → Handler → List ZceByte
  | .onRemoteBytes handler buf =>
    if ds.owner.reports (some .relaying) handler then
      Function.update brought handler (brought handler ++ buf)
    else brought
  | _ => brought

theorem reports_some {state : RelayState} {svc : OutportService}
    (h : svc.reports (some state) handler = true) :
    ∃ s, svc.relays handler = some s ∧ s.state = state := by
  unfold reports at h
  split at h
  · cases h
  · rename_i s hs
    rw [Bool.and_eq_true] at h
    exact ⟨s, hs, (beq_iff_eq.1 h.2).symm⟩

namespace Serves

theorem mono {G' : SessionKey → ZceUint32 → List ZceByte → Prop}
    (h : Serves K S known G brought st) (hknown : ∀ key, known key → known' key)
    (hingress : ∀ key, known' key → key.1 ≠ kFgwWireIngressUseLocal)
    (hG : ∀ {key seq p}, G key seq p → G' key seq p) : Serves K S known' G' brought st :=
  ⟨h.toOrderly.mono hknown hingress, h.fed.mono hG⟩

theorem frames (h : Serves K S known G brought st) (ch : ChannelRef) {fs : List (List ZceByte)}
    (hfs : ∀ f ∈ fs, Brings (setting K S) known G f) :
    Serves K S known G brought (fs.foldl (handleFrame (setting K S) ch) st) := by
  refine arrivals_invariant ch (fun hjudges hst => ?_) (fun hknown hdata st₁ st₂ hmove hst => ?_)
    hfs h
  · exact ⟨hst.toOrderly.judgesOnly hjudges, hst.fed.of_eq hjudges.sessions hjudges.events⟩
  · refine ⟨hst.toOrderly.move hknown hmove, hst.fed.move (neverOpening K S) hdata ?_ hmove⟩
    intro hnone cb handler hcb hhandler
    obtain rfl := Option.some.inj hcb
    rw [hst.toOrderly.dataStreamHook_eq hnone] at hhandler
    obtain rfl := Option.some.inj hhandler
    exact handed_of_not_callee fun e he hcallee => Nat.lt_irrefl _ (hst.heard e he _ hcallee)

theorem onRemoteOpen (h : Serves K S known G brought st) (hs : st.owner.relays handler = some s)
    (hstate : s.state = .connecting) :
    Serves K S known G brought (drive K S (onRemoteOpen K) handler st) := by
  have hrun : ∀ t, st.owner.relays handler = some t → t.state = .connecting := fun t ht =>
    Option.some.inj (ht.symm.trans hs) ▸ hstate
  have hutters : ∀ t, st.owner.relays handler = some t →
      Utters { t with calls := [] } (FgwRelaySession.onRemoteOpen K { t with calls := [] }) := by
    intro t ht
    refine Utters.steady.onRemoteOpen K ?_
    change t.state ≠ .closed
    rw [hrun t ht]
    exact nofun
  exact ⟨h.toOrderly.drive hutters (fun _ _ => rfl) (fun _ => rfl)
    fun t heard said ht htalks => htalks.onRemoteOpen (hrun t ht), fed_drive h.fed hutters⟩

theorem onRemoteBytes (h : Serves K S known G brought st) (hs : st.owner.relays handler = some s)
    (hstate : s.state = .relaying) (buf : List ZceByte) :
    Serves K S known G (Function.update brought handler (brought handler ++ buf))
      (drive K S (onRemoteBytes buf) handler st) := by
  have hrun : ∀ t, st.owner.relays handler = some t → t.state = .relaying := fun t ht =>
    Option.some.inj (ht.symm.trans hs) ▸ hstate
  have hutters : ∀ t, st.owner.relays handler = some t →
      Utters { t with calls := [] } (FgwRelaySession.onRemoteBytes buf { t with calls := [] }) := by
    intro t ht
    refine Utters.send ?_ buf
    change t.state ≠ .closed
    rw [hrun t ht]
    exact nofun
  refine ⟨h.toOrderly.drive hutters (fun other hother => Function.update_of_ne hother _ _)
    (fun hnone => ?_) fun t heard said ht htalks => ?_, fed_drive h.fed hutters⟩
  · rw [hs] at hnone
    cases hnone
  · rw [Function.update_self]
    exact htalks.onRemoteBytes (hrun t ht) buf

theorem onRemoteClose (h : Serves K S known G brought st) (handler : Handler) :
    Serves K S known G brought (drive K S onRemoteClose handler st) := by
  have hutters : ∀ t, st.owner.relays handler = some t →
      Utters { t with calls := [] } (FgwRelaySession.onRemoteClose { t with calls := [] }) :=
    fun t _ => Utters.close _
  exact ⟨h.toOrderly.drive hutters (fun _ _ => rfl) (fun _ => rfl)
    fun t heard said ht htalks => htalks.close, fed_drive h.fed hutters⟩

theorem step {ds : DataStream OutportService} (h : Serves K S known G brought ds.toStreamState)
    {op : Op} (harriving : ∀ f ∈ arriving ds op, Brings (setting K S) known G f) :
    Serves K S known G (broughtAfter ds brought op)
      (OutportService.step K S ds op).toStreamState := by
  cases op with
  | onChannelBytes ch buf =>
    rw [show (OutportService.step K S ds (.onChannelBytes ch buf)).toStreamState = _ from
      onChannelBytes_frames (setting K S) ch buf ds]
    exact h.frames ch harriving
  | onRemoteOpen handler =>
    simp only [OutportService.step, broughtAfter]
    split
    · rename_i hreports
      obtain ⟨s, hs, hstate⟩ := reports_some hreports
      exact h.onRemoteOpen hs hstate
    · exact h
  | onRemoteBytes handler buf =>
    simp only [OutportService.step, broughtAfter]
    split
    · rename_i hreports
      obtain ⟨s, hs, hstate⟩ := reports_some hreports
      exact h.onRemoteBytes hs hstate buf
    · exact h
  | onRemoteClose handler =>
    simp only [OutportService.step, broughtAfter]
    split
    · exact h.onRemoteClose handler
    · exact h
  | emitFeedback =>
    have honly := emitFeedback_judgesOnly (setting K S) ds.toStreamState
    exact ⟨h.toOrderly.judgesOnly honly, h.fed.of_eq honly.sessions honly.events⟩
  | selector selector => exact ⟨h.toOrderly.of_eq rfl rfl rfl rfl, h.fed.of_eq rfl rfl⟩

end Serves

theorem drive_sent (hkeyed : Keyed (setting K S) st) (f : FgwRelaySession → FgwRelaySession)
    (handler : Handler) : st.sent <+: (drive K S f handler st).sent := by
  have hkeyed' : Keyed (setting K S) { st with owner := (st.owner.runRelay f handler).1 } :=
    hkeyed.of_eq rfl rfl
  exact calls_sent hkeyed' _

theorem step_sent {ds : DataStream OutportService} (h : Serves K S known G brought ds.toStreamState)
    (op : Op) : ds.sent <+: (step K S ds op).sent := by
  cases op with
  | onChannelBytes ch buf =>
    rw [show (step K S ds (.onChannelBytes ch buf)).toStreamState = _ from
      onChannelBytes_frames (setting K S) ch buf ds]
    exact frames_sent h.keyed ch _
  | onRemoteOpen handler =>
    simp only [step]
    split
    · exact drive_sent h.keyed _ handler
    · exact List.prefix_refl _
  | onRemoteBytes handler buf =>
    simp only [step]
    split
    · exact drive_sent h.keyed _ handler
    · exact List.prefix_refl _
  | onRemoteClose handler =>
    simp only [step]
    split
    · exact drive_sent h.keyed _ handler
    · exact List.prefix_refl _
  | emitFeedback =>
    rw [show (step K S ds .emitFeedback).sent = ds.sent from
      (emitFeedback_judgesOnly (setting K S) ds.toStreamState).sent]
  | selector selector => exact List.prefix_refl _

end OutportService

end Libfgw
