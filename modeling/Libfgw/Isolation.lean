import Libfgw.DataStream.Isolation
import Libfgw.RelayTables

namespace Libfgw

open FgwSegmentHeader Lib DataStream

namespace FgwRelaySession

def Minds (s s' : FgwRelaySession) : Prop :=
  s'.key = s.key ∧ ∃ cs, s'.calls = s.calls ++ cs ∧ ∀ c ∈ cs, c.Own s.key

theorem Minds.steady : Steady Minds where
  quiet hkey _ hcalls := ⟨hkey, [], by rw [hcalls, List.append_nil], fun _ hc =>
    absurd hc List.not_mem_nil⟩
  trans := by
    rintro s s' s'' ⟨hkey, cs, hcalls, hown⟩ ⟨hkey', cs', hcalls', hown'⟩
    rw [hkey] at hown'
    exact ⟨hkey'.trans hkey, cs ++ cs', by rw [hcalls', hcalls, List.append_assoc],
      List.forall_mem_append.2 ⟨hown, hown'⟩⟩
  send _ buf := ⟨rfl, [_], rfl, List.forall_mem_singleton.2 rfl⟩
  close s := by
    unfold FgwRelaySession.close
    split
    · exact ⟨rfl, [], (List.append_nil _).symm, fun _ hc => absurd hc List.not_mem_nil⟩
    · exact ⟨rfl, [_], rfl, List.forall_mem_singleton.2 rfl⟩

end FgwRelaySession

namespace OutportService

def RelayOf (svc : OutportService) (handler : Handler) (key : SessionKey) : Prop :=
  ∃ s, svc.relays handler = some s ∧ s.key = key

theorem Wf.ensureSession_relayOf {svc : OutportService} (h : svc.Wf) (key : SessionKey)
    {handler : Handler} {other : SessionKey} (hrelay : svc.RelayOf handler other) :
    (svc.ensureSession key).1.RelayOf handler other := by
  unfold OutportService.ensureSession
  split
  · exact hrelay
  · obtain ⟨s, hs, hkey⟩ := hrelay
    have hne : handler ≠ svc.made := Nat.ne_of_lt (h.made hs)
    exact ⟨s, (Function.update_of_ne hne _ _).trans hs, hkey⟩

theorem Wf.runRelay {svc : OutportService} (h : svc.Wf) {f : FgwRelaySession → FgwRelaySession}
    {handler : Handler} (hfollows : ∀ s, svc.relays handler = some s →
      FgwRelaySession.Follows { s with calls := [] } (f { s with calls := [] }))
    (hminds : ∀ s, svc.relays handler = some s →
      FgwRelaySession.Minds { s with calls := [] } (f { s with calls := [] })) :
    (svc.runRelay f handler).1.Wf ∧
      (∀ other key, svc.RelayOf other key → (svc.runRelay f handler).1.RelayOf other key) ∧
      ∀ key, svc.RelayOf handler key → ∀ c ∈ (svc.runRelay f handler).2, c.Own key := by
  unfold OutportService.runRelay
  cases hs : svc.relays handler with
  | none => exact ⟨h, fun _ _ hrelay => hrelay, fun _ _ c hc => absurd hc List.not_mem_nil⟩
  | some s =>
    dsimp only
    obtain ⟨hkey, hstate⟩ := hfollows s hs
    obtain ⟨-, cs, hcalls, hown⟩ := hminds s hs
    refine ⟨h.settle hs hkey fun hclosed => ?_, fun other key hrelay => ?_, fun key hrelay => ?_⟩
    · rcases hstate with ⟨-, hclosed', -⟩ | ⟨hopen, -⟩
      · exact hclosed'
      · exact absurd hclosed hopen
    · obtain ⟨t, ht, htkey⟩ := hrelay
      rw [RelayOf, settle_relays]
      by_cases hother : other = handler
      · rw [hother, Function.update_self]
        rw [hother] at ht
        obtain rfl := Option.some.inj (ht.symm.trans hs)
        exact ⟨_, rfl, hkey.trans htkey⟩
      · exact ⟨t, (Function.update_of_ne hother _ _).trans ht, htkey⟩
    · obtain ⟨t, ht, htkey⟩ := hrelay
      obtain rfl := Option.some.inj (ht.symm.trans hs)
      rw [hcalls, List.nil_append, ← htkey]
      exact hown

variable (K : Sockets) (S : Setting OutportService)

def tended : Tended (setting K S) where
  Good := Wf
  Serves := RelayOf
  own := by
    rintro svc handler key other ⟨s, hs, hkey⟩ ⟨t, ht, htkey⟩
    obtain rfl := Option.some.inj (hs.symm.trans ht)
    exact hkey.symm.trans htkey
  unknown := by
    intro cb svc hcb hwf key
    obtain rfl : dataStreamHook = cb := Option.some.inj hcb
    refine ⟨hwf.ensureSession key, fun hrelay => hwf.ensureSession_relayOf key hrelay,
      fun handler hhandler => ?_⟩
    obtain rfl : (svc.ensureSession key).2 = handler := Option.some.inj hhandler
    obtain ⟨s, hs, hkey, -⟩ :=
      (hwf.ensureSession key).registered (ensureSession_registered key svc)
    exact ⟨s, hs, hkey⟩
  event := by
    intro svc e handler hwf hcallee hserves
    cases e with
    | unknownSession key named => cases hcallee
    | sessionOpen key handler' sid =>
      exact ⟨hwf, fun hrelay => hrelay, fun c hc => absurd hc List.not_mem_nil⟩
    | sessionData key handler' sid buf =>
      obtain rfl := Option.some.inj hcallee
      obtain ⟨hwf', hmono, hown⟩ := @Wf.runRelay svc hwf (FgwRelaySession.onSessionData K buf) handler'
        (fun s _ => FgwRelaySession.Follows.onSessionData K buf _)
        fun s _ => FgwRelaySession.Minds.steady.onSessionData K buf _
      exact ⟨hwf', fun hrelay => hmono _ _ hrelay, hown key hserves⟩
    | sessionClose key handler' sid =>
      obtain rfl := Option.some.inj hcallee
      obtain ⟨hwf', hmono, hown⟩ := @Wf.runRelay svc hwf FgwRelaySession.onSessionClose handler'
        (fun s _ => FgwRelaySession.Follows.close _)
        fun s _ => FgwRelaySession.Minds.steady.close _
      exact ⟨hwf', fun hrelay => hmono _ _ hrelay, hown key hserves⟩

/-- The states of an outport's stream, between two frames or whatever else happens. -/
inductive Reachable : StreamState OutportService → Prop
  | init (selector : LinkSelector) :
    Reachable (DataStream.init OutportService.init selector).toStreamState
  | frame {st : StreamState OutportService} (ch : ChannelRef) (f : List ZceByte) :
    Reachable st → Reachable (handleFrame (setting K S) ch st f)
  | onRemoteOpen {st : StreamState OutportService} (handler : Handler) :
    Reachable st → st.owner.reports (some .connecting) handler = true →
    Reachable (drive K S (FgwRelaySession.onRemoteOpen K) handler st)
  | onRemoteBytes {st : StreamState OutportService} (handler : Handler) (buf : List ZceByte) :
    Reachable st → st.owner.reports (some .relaying) handler = true →
    Reachable (drive K S (FgwRelaySession.onRemoteBytes buf) handler st)
  | onRemoteClose {st : StreamState OutportService} (handler : Handler) :
    Reachable st → st.owner.reports none handler = true →
    Reachable (drive K S FgwRelaySession.onRemoteClose handler st)
  | emitFeedback {st : StreamState OutportService} :
    Reachable st → Reachable (DataStream.emitFeedback (setting K S) st)
  | selector {st : StreamState OutportService} (selector : LinkSelector) :
    Reachable st → Reachable { st with selector := selector }

namespace Reachable

variable {K S} {st : StreamState OutportService}

theorem frames (h : Reachable K S st) (ch : ChannelRef) (fs : List (List ZceByte)) :
    Reachable K S (fs.foldl (handleFrame (setting K S) ch) st) := by
  induction fs generalizing st with
  | nil => exact h
  | cons f fs ih => exact ih (h.frame ch f)

theorem step {ds : DataStream OutportService} (h : Reachable K S ds.toStreamState) (op : Op) :
    Reachable K S (OutportService.step K S ds op).toStreamState := by
  cases op with
  | onChannelBytes ch buf =>
    change Reachable K S (DataStream.onChannelBytes (setting K S) ch buf ds).toStreamState
    rw [onChannelBytes_frames]
    exact h.frames ch _
  | onRemoteOpen handler =>
    simp only [OutportService.step]
    split
    · exact h.onRemoteOpen handler ‹_›
    · exact h
  | onRemoteBytes handler buf =>
    simp only [OutportService.step]
    split
    · exact h.onRemoteBytes handler buf ‹_›
    · exact h
  | onRemoteClose handler =>
    simp only [OutportService.step]
    split
    · exact h.onRemoteClose handler ‹_›
    · exact h
  | emitFeedback => exact h.emitFeedback
  | selector selector => exact h.selector selector

theorem run (selector : LinkSelector) (ops : List Op) : Reachable K S
    (OutportService.run K S (DataStream.init OutportService.init selector) ops).toStreamState := by
  have hrun : ∀ (ops : List Op) (ds : DataStream OutportService), Reachable K S ds.toStreamState →
      Reachable K S (OutportService.run K S ds ops).toStreamState := by
    intro ops
    induction ops with
    | nil => exact fun _ h => h
    | cons op ops ih => exact fun ds h => ih _ (h.step op)
  exact hrun ops _ (.init selector)

end Reachable

/-- A relay that runs from outside keeps all relays at their sessions. -/
theorem drive_served {st : StreamState OutportService} (h : Served (tended K S) st)
    {f : FgwRelaySession → FgwRelaySession} {handler : Handler}
    (hfollows : ∀ s, st.owner.relays handler = some s →
      FgwRelaySession.Follows { s with calls := [] } (f { s with calls := [] }))
    (hminds : ∀ s, st.owner.relays handler = some s →
      FgwRelaySession.Minds { s with calls := [] } (f { s with calls := [] })) :
    Served (tended K S) (drive K S f handler st) := by
  have hwf : st.owner.Wf := h.good
  obtain ⟨hwf', hmono, hown⟩ := hwf.runRelay hfollows hminds
  have hran : Served (tended K S) { st with owner := (st.owner.runRelay f handler).1 } :=
    ⟨hwf', fun key s handler' hs hhandler => hmono _ _ (h.serves key s handler' hs hhandler)⟩
  unfold drive
  cases hs : st.owner.relays handler with
  | none =>
    have hnothing : st.owner.runRelay f handler = (st.owner, []) := by
      unfold OutportService.runRelay
      rw [hs]
    rw [hnothing]
    exact h
  | some s => exact (calls_tend (tended K S) (hown s.key ⟨s, hs, rfl⟩) _ hran).1

theorem concerns_some (f : List ZceByte) : ∃ key, Concerns f key := by
  by_cases h : ∃ hr hdr, fgwSegmentPeekHeader f f.length = .header hr hdr
  · obtain ⟨hr, hdr, hpeek⟩ := h
    refine ⟨frameKey hdr, fun hr' hdr' hpeek' _ => ?_⟩
    obtain ⟨-, rfl⟩ := PeekResult.header.inj (hpeek.symm.trans hpeek')
    rfl
  · exact ⟨(0#32, 0#32), fun hr hdr hpeek _ => absurd ⟨hr, hdr, hpeek⟩ h⟩

theorem Reachable.served {st : StreamState OutportService} (h : Reachable K S st) :
    Served (tended K S) st := by
  have hopen : ∀ {state : RelayState} {handler : Handler} {svc : OutportService},
      svc.reports (some state) handler = true → state ≠ .closed →
      ∀ s, svc.relays handler = some s → s.state ≠ .closed := by
    intro state handler svc hreports hstate s hs
    obtain ⟨t, ht, -, heq⟩ := reports_relay hreports
    obtain rfl := Option.some.inj (ht.symm.trans hs)
    rw [← heq state rfl]
    exact hstate
  induction h with
  | init selector => exact ⟨Wf.init, fun key s handler hs => by cases hs⟩
  | frame ch f _ ih =>
    obtain ⟨key, hkey⟩ := concerns_some f
    exact (handleFrame_tends (tended K S) hkey ch _ ih).1
  | onRemoteOpen handler _ hreports ih =>
    have hnot := hopen hreports RelayState.noConfusion
    exact drive_served K S ih (fun s hs => FgwRelaySession.Follows.onRemoteOpen K (by exact hnot s hs))
      fun s hs => FgwRelaySession.Minds.steady.onRemoteOpen K (by exact hnot s hs)
  | onRemoteBytes handler buf _ hreports ih =>
    have hnot := hopen hreports RelayState.noConfusion
    exact drive_served K S ih (fun s hs => FgwRelaySession.Follows.sendToPeer (by exact hnot s hs) buf)
      fun s hs => FgwRelaySession.Minds.steady.send (by exact hnot s hs) buf
  | onRemoteClose handler _ _ ih =>
    exact drive_served K S ih (fun s _ => FgwRelaySession.Follows.close _)
      fun s _ => FgwRelaySession.Minds.steady.close _
  | @emitFeedback st _ ih =>
    have htends : Tends (tended K S) (0#32, 0#32) st _ :=
      (emitFeedback_judgesOnly (setting K S) st).tends (tended K S)
    exact (htends ih).1
  | selector selector _ ih => exact ⟨ih.good, ih.serves⟩

end OutportService

/-- The receive path files a frame under the ingress id that its header has been decoded to. -/
def Aligned (hdr : FgwSegmentHeader) : Prop := frameKey hdr = (hdr.ingressId, hdr.sessionId)

/-- What is done for a session leaves all others alone: its frames, as far as their headers have
a certain form, and what its relay sends and closes. -/
structure Isolates {σ : Type} (S : Setting σ) (Form : FgwSegmentHeader → Prop) (key : SessionKey)
    (st : StreamState σ) : Prop where
  frame : ∀ ch f hr hdr, fgwSegmentPeekHeader f f.length = .header hr hdr →
    (hdr.ingressId, hdr.sessionId) = key → Form hdr → Isolated key st (handleFrame S ch st f)
  send : ∀ buf, Isolated key st (sendSessionData S key.2 buf key.1 st).2
  close : Isolated key st (closeSession S key.2 key.1 st)

open OutportService in
/-- In every state of an outport, what is done for a session by frames that are filed under its key
leaves all other sessions alone exactly when its key does not select another one. -/
theorem sessions_isolated_iff (K : Sockets) (S : Setting OutportService)
    {st : StreamState OutportService} (h : Reachable K S st) (key : SessionKey) :
    Isolates (setting K S) Aligned key st ↔ Unshadowed (setting K S) key st := by
  refine ⟨fun hisolates => closeSession_isolated_iff.1 hisolates.close, fun hclear =>
    ⟨fun ch f hr hdr hpeek hkey haligned => ?_, sendSessionData_isolated hclear,
      closeSession_isolated hclear⟩⟩
  refine (handleFrame_tends (tended K S) (fun hr' hdr' hpeek' _ => ?_) ch st h.served).2.2 hclear
  obtain ⟨-, rfl⟩ := PeekResult.header.inj (hpeek.symm.trans hpeek')
  exact haligned.trans hkey

def openingFrame (ingress : ZceUint32) : List ZceByte :=
  wireFrame { flags := FLAG_SYN, sessionId := 1#32, ingressId := ingress } []

def twoInports : StreamState OutportService :=
  (OutportService.run sampleSockets relaySetting (DataStream.init OutportService.init)
    [.onChannelBytes 1 (openingFrame 0#32 ++ openingFrame 5#32)]).toStreamState

theorem sessions_isolated_iff_two : Isolates (OutportService.setting sampleSockets relaySetting) Aligned
    (5#32, 1#32) twoInports :=
  (sessions_isolated_iff sampleSockets relaySetting (.run {} _) (5#32, 1#32)).2
    (Or.inl (by decide))

def bareRoutedFin : List ZceByte :=
  let frame := [0xF6#8, FLAG_FIN ||| FLAG_HDR_ROUTE, 0#8, 0#8, 0#8, 0#8, 0#8, 1#8, 0#8, 0#8, 0#8, 0#8,
    0#8, 0#8, 0#8, 5#8, 0#8, 0#8, 0#8, 0#8, 0#8, 0#8, 0#8, 0#8]
  writeAt frame 20 (packBe32 (fgwCrc32 frame))

theorem bare_route_strays : ¬ ∀ st, OutportService.Reachable sampleSockets relaySetting st → ∀ key,
    Isolates (OutportService.setting sampleSockets relaySetting) (fun _ => True) key st := by
  intro hclaim
  obtain ⟨hdr, hpeek, hkey⟩ : ∃ hdr, fgwSegmentPeekHeader bareRoutedFin bareRoutedFin.length =
      .header 24 hdr ∧ (hdr.ingressId, hdr.sessionId) = (5#32, 1#32) := ⟨_, rfl, by decide +kernel⟩
  have hisolated := (hclaim twoInports (.run {} _) (5#32, 1#32)).frame 1 bareRoutedFin 24 hdr hpeek
    hkey trivial
  have hentry := hisolated.entries (0#32, 1#32) (by decide)
  have hopen : (twoInports.sessions (0#32, 1#32)).isSome = true := by decide +kernel
  rw [← hentry] at hopen
  exact absurd hopen (by decide +kernel)

end Libfgw
