import Libfgw.DataStream.Network
import Libfgw.Outport.Agreement
import Libfgw.Outport.Talk

namespace Libfgw

open Lib DataStream

namespace FgwRelaySession

def Utters (s s' : FgwRelaySession) : Prop :=
  s'.key = s.key ∧
    (s.state = .closed ∧ s'.state = .closed ∧ s'.calls = s.calls ∨
      s.state ≠ .closed ∧ ∃ bufs : List (List ZceByte), s'.calls = s.calls ++ bufs.map s.toPeer ++
        if s'.state = .closed then [.closeSession s.sessionId s.peerIngressId] else [])

namespace Utters

theorem quiet {s s' : FgwRelaySession} (hkey : s'.key = s.key)
    (hstate : s'.state = .closed ↔ s.state = .closed) (hcalls : s'.calls = s.calls) : Utters s s' := by
  refine ⟨hkey, ?_⟩
  by_cases hclosed : s.state = .closed
  · exact Or.inl ⟨hclosed, hstate.2 hclosed, hcalls⟩
  · refine Or.inr ⟨hclosed, [], ?_⟩
    rw [if_neg (mt hstate.1 hclosed), hcalls]
    simp only [List.map_nil, List.append_nil]

theorem trans {s s' s'' : FgwRelaySession} (h : Utters s s') (h' : Utters s' s'') : Utters s s'' := by
  obtain ⟨hkey, h⟩ := h
  obtain ⟨hkey', h'⟩ := h'
  obtain ⟨hingress, hsid⟩ := Prod.mk.inj
    (show (s'.peerIngressId, s'.sessionId) = (s.peerIngressId, s.sessionId) from hkey)
  refine ⟨hkey'.trans hkey, ?_⟩
  rcases h with ⟨hs, hs', hcalls⟩ | ⟨hs, bufs, hcalls⟩
  · rcases h' with ⟨-, hs'', hcalls'⟩ | ⟨hopen, -⟩
    · exact Or.inl ⟨hs, hs'', hcalls'.trans hcalls⟩
    · exact absurd hs' hopen
  · rcases h' with ⟨hclosed, hclosed', hcalls'⟩ | ⟨hopen, bufs', hcalls'⟩
    · refine Or.inr ⟨hs, bufs, hcalls'.trans ?_⟩
      rw [hcalls, if_pos hclosed, if_pos hclosed']
    · refine Or.inr ⟨hs, bufs ++ bufs', hcalls'.trans ?_⟩
      have hpeer : s'.toPeer = s.toPeer := by
        funext buf
        rw [toPeer, toPeer, hingress, hsid]
      rw [hcalls, if_neg hopen, List.append_nil, hpeer, hingress, hsid, List.map_append,
        ← List.append_assoc s.calls]

theorem send {s : FgwRelaySession} (h : s.state ≠ .closed) (buf : List ZceByte) :
    Utters s (s.sendToPeer buf) := by
  refine ⟨rfl, Or.inr ⟨h, [buf], ?_⟩⟩
  rw [if_neg (by exact h), List.append_nil]
  rfl

theorem close (s : FgwRelaySession) : Utters s s.close := by
  unfold FgwRelaySession.close
  split
  · exact quiet rfl Iff.rfl rfl
  · rename_i h
    refine ⟨rfl, Or.inr ⟨h, [], ?_⟩⟩
    rw [List.map_nil, List.append_nil]
    exact (congrArg (s.calls ++ ·) (if_pos rfl)).symm

theorem steady : Steady Utters := ⟨quiet, trans, send, close⟩

theorem stays {s s' : FgwRelaySession} (h : Utters s s') (hclosed : s.state = .closed) :
    s'.state = .closed := by
  rcases h.2 with ⟨-, hs', -⟩ | ⟨hopen, -⟩
  · exact hs'
  · exact absurd hclosed hopen

end Utters

namespace Talk

variable {K : Sockets} {heard said brought : List ZceByte} {s : FgwRelaySession}

theorem idle (h : Talk K heard said brought s) : Talks K heard said brought { s with calls := [] } := by
  rw [Talks, saidBy, List.flatMap_nil, List.append_nil]
  cases h with
  | awaitMethods hstate hheard hsaid hbrought hdials hwritten =>
    exact .awaitMethods hstate hheard hsaid hbrought hdials hwritten
  | awaitRequest hstate hmethods hheard hsaid hbrought hdials hwritten =>
    exact .awaitRequest hstate hmethods hheard hsaid hbrought hdials hwritten
  | connecting hstate hmethods hheard hsaid hbrought hdials hwritten hremote =>
    exact .connecting hstate hmethods hheard hsaid hbrought hdials hwritten hremote
  | relaying hstate hmethods hrequest hheard hsaid hdials hremote =>
    exact .relaying hstate hmethods hrequest hheard hsaid hdials hremote
  | closed hstate hobeys hsaid => exact .closed hstate hobeys hsaid

end Talk

end FgwRelaySession

namespace OutportService

open FgwRelaySession

variable {K : Sockets} {S : Setting OutportService} {st st' : StreamState OutportService}
  {handler : Handler} {s s' : FgwRelaySession} {known known' : SessionKey → Prop}
  {brought brought' : Handler → List ZceByte}

def afterRun (K : Sockets) (S : Setting OutportService) (st : StreamState OutportService)
    (handler : Handler) (s s' : FgwRelaySession) (events : List Event) : StreamState OutportService :=
  s'.calls.foldl (call (setting K S))
    { st with owner := st.owner.settle handler s s', events := events }

theorem runRelay_of_some {f : FgwRelaySession → FgwRelaySession} {svc : OutportService}
    (hs : svc.relays handler = some s) : svc.runRelay f handler =
      (svc.settle handler s (f { s with calls := [] }), (f { s with calls := [] }).calls) := by
  unfold runRelay
  rw [hs]

theorem drive_of_some {f : FgwRelaySession → FgwRelaySession} (hs : st.owner.relays handler = some s) :
    drive K S f handler st = afterRun K S st handler s (f { s with calls := [] }) st.events := by
  unfold drive
  rw [runRelay_of_some hs]
  rfl

theorem notify_sessionData (key : SessionKey) (sid : ZceUint32) (buf : List ZceByte)
    (hs : st.owner.relays handler = some s) :
    notify (setting K S) (.sessionData key handler sid buf) st =
      afterRun K S st handler s (onSessionData K buf { s with calls := [] })
        (st.events ++ [.sessionData key handler sid buf]) := by
  unfold notify setting onEvent
  dsimp only
  rw [runRelay_of_some hs]
  rfl

theorem notify_sessionClose (key : SessionKey) (sid : ZceUint32)
    (hs : st.owner.relays handler = some s) :
    notify (setting K S) (.sessionClose key handler sid) st =
      afterRun K S st handler s (close { s with calls := [] })
        (st.events ++ [.sessionClose key handler sid]) := by
  unfold notify setting onEvent
  dsimp only
  rw [runRelay_of_some hs]
  rfl

theorem afterRun_owner (events : List Event) :
    (afterRun K S st handler s s' events).owner = st.owner.settle handler s s' :=
  (calls_sendsOnly _ _ _).owner

theorem afterRun_events (events : List Event) : (afterRun K S st handler s s' events).events = events :=
  (calls_sendsOnly _ _ _).events

theorem settle_relay {svc : OutportService} {other : Handler} {t : FgwRelaySession}
    (ht : (svc.settle handler s s').relays other = some t) :
    (other = handler ∧ t = s') ∨ (other ≠ handler ∧ svc.relays other = some t) := by
  rw [settle_relays, Function.update_apply] at ht
  split at ht
  · rename_i hother
    exact Or.inl ⟨hother, (Option.some.inj ht).symm⟩
  · rename_i hother
    exact Or.inr ⟨hother, ht⟩

theorem settle_relay_self {svc : OutportService} :
    (svc.settle handler s s').relays handler = some s' := by
  rw [settle_relays, Function.update_self]

theorem settle_relay_of_ne {svc : OutportService} {other : Handler} (hother : other ≠ handler) :
    (svc.settle handler s s').relays other = svc.relays other := by
  rw [settle_relays, Function.update_of_ne hother]

theorem resolve_own (hid : s.key.1 ≠ kFgwWireIngressUseLocal) :
    resolveIngressKey (setting K S) s.peerIngressId = s.key.1 := if_neg hid

theorem afterRun_call (hkeyed : Keyed (setting K S) st) (hid : s.key.1 ≠ kFgwWireIngressUseLocal)
    (hutters : Utters { s with calls := [] } s') (events : List Event) :
    ∃ as, (afterRun K S st handler s s' events).sent = st.sent ++ as ∧ (∀ a ∈ as, a.key = s.key) ∧
      ∀ key, key ≠ s.key → (afterRun K S st handler s s' events).sessions key = st.sessions key := by
  have hkeyed' : Keyed (setting K S)
      { st with owner := st.owner.settle handler s s', events := events } := hkeyed.of_eq rfl rfl
  have hres : (resolveIngressKey (setting K S) s.peerIngressId, s.sessionId) = s.key :=
    congrArg (·, s.sessionId) (resolve_own hid)
  refine calls_own hkeyed' fun c hc => ?_
  rcases hutters.2 with ⟨-, -, hcalls⟩ | ⟨-, bufs, hcalls⟩
  · rw [hcalls] at hc
    cases hc
  · rw [hcalls, List.nil_append] at hc
    rcases List.mem_append.1 hc with hsend | hend
    · obtain ⟨buf, -, rfl⟩ := List.mem_map.1 hsend
      exact hres
    · split at hend
      · rw [List.mem_singleton.1 hend]
        exact hres
      · cases hend

theorem afterRun_rxView (hid : s.key.1 ≠ kFgwWireIngressUseLocal)
    (hutters : Utters { s with calls := [] } s') (events : List Event) (key : SessionKey) :
    (afterRun K S st handler s s' events).rxView key =
      if (s.state ≠ .closed ∧ s'.state = .closed) ∧ key = s.key then none else st.rxView key := by
  unfold afterRun
  rcases hutters.2 with ⟨hclosed, -, hcalls⟩ | ⟨hopen, bufs, hcalls⟩
  · rw [hcalls, if_neg fun h => h.1.1 hclosed]
    rfl
  have hsends : ∀ st : StreamState OutportService,
      ((bufs.map { s with calls := [] }.toPeer).foldl (call (setting K S)) st).rxView key =
        st.rxView key := fun st =>
    rxView_sends (by
      intro c hc
      obtain ⟨buf, -, rfl⟩ := List.mem_map.1 hc
      exact trivial) st key
  have hres : (resolveIngressKey (setting K S) s.peerIngressId, s.sessionId) = s.key :=
    congrArg (·, s.sessionId) (resolve_own hid)
  rw [hcalls, List.nil_append, List.foldl_append]
  by_cases hclosed : s'.state = .closed
  · rw [if_pos hclosed, List.foldl_cons, List.foldl_nil, call, rxView_closeSession, hsends, hres]
    by_cases hkey : key = s.key
    · rw [if_pos hkey.symm, if_pos ⟨⟨hopen, hclosed⟩, hkey⟩]
    · rw [if_neg (Ne.symm hkey), if_neg fun h => hkey h.2]
      rfl
  · rw [if_neg hclosed, List.foldl_nil, hsends, if_neg fun h => hclosed h.1.2]
    rfl

/-- The relay has been the only one of its key. -/
def Sole (svc : OutportService) (handler : Handler) (key : SessionKey) : Prop :=
  ∀ other t, svc.relays other = some t → t.key = key → other = handler

theorem Sole.of_settle {svc : OutportService} {other : Handler} {key : SessionKey}
    (h : Sole (svc.settle handler s s') other key) (hs : svc.relays handler = some s)
    (hkey : s'.key = s.key) : Sole svc other key := by
  intro third t ht htkey
  by_cases hthird : third = handler
  · subst hthird
    obtain rfl := Option.some.inj (ht.symm.trans hs)
    exact h third s' settle_relay_self (hkey.trans htkey)
  · exact h third t ((settle_relay_of_ne hthird).trans ht) htkey

theorem saidBy_dataCalls (sid ingressKey : ZceUint32) (bufs : List (List ZceByte)) :
    saidBy (dataCalls sid ingressKey bufs) = bufs.flatten := by
  rw [saidBy, dataCalls, List.flatMap_map]
  exact List.flatMap_id

theorem speaks_run (hkeyed : Keyed (setting K S) st) (hid : s.key.1 ≠ kFgwWireIngressUseLocal)
    (hutters : Utters { s with calls := [] } s') {said : List ZceByte}
    (hcounted : Counted s.key said st.sent) (hspeaks : s.state ≠ .closed → Speaks s.key handler st) :
    Counted s.key (said ++ saidBy s'.calls) (s'.calls.foldl (call (setting K S)) st).sent ∧
      (s'.state ≠ .closed → Speaks s.key handler (s'.calls.foldl (call (setting K S)) st)) := by
  rcases hutters.2 with ⟨-, hclosed, hcalls⟩ | ⟨hopen, bufs, hcalls⟩
  · rw [hcalls, saidBy, List.flatMap_nil, List.append_nil]
    exact ⟨hcounted, fun hopen => absurd hclosed hopen⟩
  obtain ⟨hcounted', hspeaks'⟩ :=
    dataCalls_counted (resolve_own hid) bufs hkeyed (hspeaks hopen) hcounted
  have hkeyed' : Keyed (setting K S)
    ((dataCalls s.key.2 s.peerIngressId bufs).foldl (call (setting K S)) st) := hkeyed.calls _
  have hcalls : s'.calls = dataCalls s.key.2 s.peerIngressId bufs ++
    if s'.state = .closed then [.closeSession s.sessionId s.peerIngressId] else [] := hcalls
  rw [hcalls, List.foldl_append, saidBy, List.flatMap_append, ← saidBy, saidBy_dataCalls]
  by_cases hclosed : s'.state = .closed
  · rw [if_pos hclosed]
    refine ⟨?_, fun h => absurd hclosed h⟩
    have hend := closeSession_counted hkeyed' (resolve_own hid) hspeaks' hcounted'
    rwa [← List.append_nil bufs.flatten] at hend
  · rw [if_neg hclosed]
    exact ⟨by rwa [List.flatMap_nil, List.append_nil], fun _ => hspeaks'⟩

/-- What an outport's state keeps to, when the sessions that there are `known`, none of them under
the reserved ingress id: `brought` is what the target of each relay has brought. -/
structure Orderly (K : Sockets) (S : Setting OutportService) (known : SessionKey → Prop)
    (brought : Handler → List ZceByte) (st : StreamState OutportService) : Prop where
  wf : st.owner.Wf
  named : ∀ key handler, st.names key = some handler ↔ st.owner.sessions key = some handler
  ingress : ∀ key, known key → key.1 ≠ kFgwWireIngressUseLocal
  keys : ∀ handler s, st.owner.relays handler = some s → known s.key
  heard : ∀ e ∈ st.events, ∀ handler, e.callee = some handler → handler < st.owner.made
  fresh : ∀ handler, st.owner.made ≤ handler → brought handler = []
  keyed : Keyed (setting K S) st
  sent : ∀ a ∈ st.sent, ∃ handler s, st.owner.relays handler = some s ∧ s.key = a.key
  talks : ∀ handler s, st.owner.relays handler = some s → ∃ said,
    Talk K (handed s.key handler st.events).flatten said (brought handler) s ∧
      (Sole st.owner handler s.key → Counted s.key said st.sent ∧
        (s.state ≠ .closed → Speaks s.key handler st))

namespace Orderly

theorem init (K : Sockets) (S : Setting OutportService)
    (hingress : ∀ key, known key → key.1 ≠ kFgwWireIngressUseLocal) (selector : LinkSelector) :
    Orderly K S known (fun _ => []) (StreamState.init OutportService.init selector) where
  wf := .init
  named _ _ := iff_of_false nofun nofun
  ingress := hingress
  keys := nofun
  heard := nofun
  fresh _ _ := rfl
  keyed := .init _ _ _
  sent := nofun
  talks := nofun

theorem of_voice (h : Orderly K S known brought st) (howner : st'.owner = st.owner)
    (hkeyed : Keyed (setting K S) st') (hsent : st'.sent = st.sent)
    (hvoice : ∀ key, st'.voice key = st.voice key)
    (hevents : ∀ key handler, handed key handler st'.events = handed key handler st.events)
    (hheard : ∀ e ∈ st'.events, ∀ handler, e.callee = some handler → handler < st.owner.made) :
    Orderly K S known brought st' := by
  have hnames : ∀ key, st'.names key = st.names key := fun key => by
    rw [StreamState.names_voice, StreamState.names_voice, hvoice]
  refine ⟨by rw [howner]; exact h.wf, fun key handler => ?_, h.ingress, by rw [howner]; exact h.keys,
    by rw [howner]; exact hheard, by rw [howner]; exact h.fresh, hkeyed,
    by rw [howner, hsent]; exact h.sent, fun handler s hs => ?_⟩
  · rw [hnames, howner]
    exact h.named key handler
  · rw [howner] at hs ⊢
    obtain ⟨said, htalk, hsole⟩ := h.talks handler s hs
    refine ⟨said, by rwa [hevents], fun honly => ?_⟩
    obtain ⟨hcounted, hspeaks⟩ := hsole honly
    exact ⟨by rwa [hsent], fun hopen => (hspeaks hopen).of_voice (hvoice _) (by rw [hsent])⟩

theorem of_eq (h : Orderly K S known brought st) (hsessions : st'.sessions = st.sessions)
    (howner : st'.owner = st.owner) (hsent : st'.sent = st.sent) (hevents : st'.events = st.events) :
    Orderly K S known brought st' :=
  h.of_voice howner (h.keyed.of_eq hsessions hsent) hsent
    (fun key => by rw [StreamState.voice, hsessions]; rfl) (fun _ _ => by rw [hevents])
    (by rw [hevents]; exact h.heard)

theorem afterRun (h : Orderly K S known brought st) (hs : st.owner.relays handler = some s)
    (hutters : Utters { s with calls := [] } s') {events : List Event}
    (hevents : ∀ key other, other ≠ handler → handed key other events = handed key other st.events)
    (hcallees : ∀ e ∈ events, e ∈ st.events ∨ e.callee = some handler)
    (hbrought : ∀ other, other ≠ handler → brought' other = brought other)
    (htalks : ∀ said, Talk K (handed s.key handler st.events).flatten said (brought handler) s →
      Talks K (handed s.key handler events).flatten said (brought' handler) s') :
    Orderly K S known brought' (OutportService.afterRun K S st handler s s' events) := by
  have hid := h.ingress _ (h.keys handler s hs)
  have hkey : s'.key = s.key := hutters.1
  have hkeyed' : Keyed (setting K S)
      { st with owner := st.owner.settle handler s s', events := events } := h.keyed.of_eq rfl rfl
  obtain ⟨as, hsent, hown, hothers⟩ := @afterRun_call _ _ _ handler _ _ h.keyed hid hutters events
  refine ⟨?_, fun key other => ?_, h.ingress, fun other t ht => ?_, fun e he other hcallee => ?_,
    fun other hle => ?_, ?_, fun a ha => ?_, fun other t ht => ?_⟩
  · rw [afterRun_owner]
    exact h.wf.settle hs hkey hutters.stays
  · rw [StreamState.names_rxView, afterRun_rxView hid hutters, afterRun_owner, settle_sessions]
    split
    · exact iff_of_false nofun nofun
    · rw [← StreamState.names_rxView]
      exact h.named key other
  · rw [afterRun_owner] at ht
    rcases settle_relay ht with ⟨rfl, rfl⟩ | ⟨-, hold⟩
    · rw [hkey]
      exact h.keys other s hs
    · exact h.keys other t hold
  · rw [afterRun_events] at he
    rw [afterRun_owner, settle_made]
    rcases hcallees e he with hold | hnew
    · exact h.heard e hold other hcallee
    · rw [← Option.some.inj (hnew.symm.trans hcallee)]
      exact h.wf.made hs
  · rw [afterRun_owner, settle_made] at hle
    rw [hbrought other fun heq => absurd (h.wf.made hs) (by rw [← heq]; exact Nat.not_lt.2 hle)]
    exact h.fresh other hle
  · exact hkeyed'.calls _
  · rw [hsent] at ha
    rw [afterRun_owner]
    rcases List.mem_append.1 ha with hold | hnew
    · obtain ⟨other, t, ht, htkey⟩ := h.sent a hold
      by_cases hother : other = handler
      · subst hother
        obtain rfl := Option.some.inj (ht.symm.trans hs)
        exact ⟨other, s', settle_relay_self, hkey.trans htkey⟩
      · exact ⟨other, t, (settle_relay_of_ne hother).trans ht, htkey⟩
    · exact ⟨handler, s', settle_relay_self, hkey.trans (hown a hnew).symm⟩
  rw [afterRun_owner] at ht ⊢
  rw [afterRun_events]
  rcases settle_relay ht with ⟨rfl, rfl⟩ | ⟨hother, hold⟩
  · obtain ⟨said, htalk, hsole⟩ := h.talks other s hs
    rw [hkey]
    refine ⟨said ++ saidBy t.calls, htalks said htalk, fun honly => ?_⟩
    obtain ⟨hcounted, hspeaks⟩ := hsole (honly.of_settle hs hkey)
    exact speaks_run hkeyed' hid hutters hcounted hspeaks
  · obtain ⟨said, htalk, hsole⟩ := h.talks other t hold
    refine ⟨said, by rwa [hevents _ _ hother, hbrought other hother], fun honly => ?_⟩
    have hkey' : t.key ≠ s.key := fun heq =>
      hother (honly handler s' settle_relay_self (hkey.trans heq.symm)).symm
    obtain ⟨hcounted, hspeaks⟩ := hsole (honly.of_settle hs hkey)
    have hnone : numbered t.key as = [] := numbered_other fun a ha => by
      rw [hown a ha]
      exact hkey'.symm
    have hnumbered : numbered t.key (OutportService.afterRun K S st handler s s' events).sent =
        numbered t.key st.sent := by rw [hsent, numbered_append, hnone, List.append_nil]
    refine ⟨hcounted.of_numbered hnumbered, fun hopen => (hspeaks hopen).of_voice ?_ hnumbered⟩
    rw [StreamState.voice, hothers _ hkey']
    rfl

end Orderly

end OutportService

end Libfgw
