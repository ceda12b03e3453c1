import Libfgw.DataStream.SegmentLaws
import Libfgw.Inport.Attachment

namespace Libfgw

open Lib DataStream

namespace InportService

open FgwSession

variable {acquires : Nat → Bool} {S : Setting InportService} {st st' : StreamState InportService}
  {handler : Handler}

section Owner

variable {P : InportService → Prop}

theorem runClient_preserves (hP : ∀ {svc handler s s'}, P svc → svc.clients handler = some s →
    Acts s s' → P (svc.settle handler s s')) {f : FgwSession → FgwSession}
    (hf : ∀ s, Acts s (f { s with calls := [] })) {svc : InportService} (h : P svc)
    (handler : Handler) : P (svc.runClient f handler).1 := by
  cases hs : svc.clients handler with
  | none =>
    rw [runClient_of_none hs]
    exact h
  | some s =>
    rw [runClient_of_some hs]
    exact hP h hs (hf s)

theorem drive_owner (f : FgwSession → FgwSession) (handler : Handler)
    (st : StreamState InportService) :
    (drive acquires S f handler st).owner = (st.owner.runClient f handler).1 :=
  (calls_sendsOnly _ _ _).owner

theorem onEvent_preserves (hP : ∀ {svc handler s s'}, P svc → svc.clients handler = some s →
    Acts s s' → P (svc.settle handler s s')) {svc : InportService} (h : P svc) (e : Event) :
    P (onEvent acquires svc e).1 := by
  cases e with
  | unknownSession key named => exact h
  | sessionOpen key handler sid => exact h
  | sessionData key handler sid buf =>
    exact runClient_preserves hP (onSessionData_acts acquires buf) h handler
  | sessionClose key handler sid => exact runClient_preserves hP close_acts h handler

theorem frames_preserve (hP : ∀ {svc handler s s'}, P svc → svc.clients handler = some s →
    Acts s s' → P (svc.settle handler s s')) (h : P st.owner) (ch : ChannelRef)
    (fs : List (List ZceByte)) : P (fs.foldl (handleFrame (setting acquires S) ch) st).owner := by
  refine owner_frames (P := P) (fun cb hcb => absurd hcb (Option.some_ne_none cb).symm)
    (fun _ e hsvc => ?_) ch fs h
  exact onEvent_preserves hP hsvc e

end Owner

theorem drives_closed (handlers : List Handler) {st : StreamState InportService} {s' : FgwSession}
    (hs' : (handlers.foldl (fun st handler => drive acquires S FgwSession.close handler st)
      st).owner.clients handler = some s') :
    ∃ s, st.owner.clients handler = some s ∧ s'.sessionId = s.sessionId ∧
      (s.closed = true ∨ handler ∈ handlers → s'.closed = true) := by
  induction handlers generalizing st with
  | nil => exact ⟨s', hs', rfl, fun h => h.resolve_right List.not_mem_nil⟩
  | cons head handlers ih =>
    obtain ⟨t, ht, hsid, hclosed⟩ := ih hs'
    rw [drive_owner] at ht
    cases hhead : st.owner.clients head with
    | none =>
      rw [runClient_of_none hhead] at ht
      refine ⟨t, ht, hsid, fun h => hclosed (h.imp_right fun hmem => ?_)⟩
      refine (List.mem_cons.1 hmem).resolve_left ?_
      rintro rfl
      rw [ht] at hhead
      cases hhead
    | some s =>
      rw [runClient_of_some hhead] at ht
      have hacts := close_acts s
      rcases settle_client ht with ⟨rfl, rfl⟩ | ⟨hother, hold⟩
      · exact ⟨s, hhead, hsid.trans hacts.sessionId, fun _ => hclosed (Or.inl (close_closed s))⟩
      · exact ⟨t, hold, hsid, fun h =>
          hclosed (h.imp_right fun hmem => (List.mem_cons.1 hmem).resolve_left hother)⟩

theorem stop_eq (st : StreamState InportService) : stop acquires S st =
    (st.owner.sessions.entries.map Prod.snd).foldl
      (fun st handler => drive acquires S FgwSession.close handler st)
      { st with owner := { st.owner with acceptor := false, sessions := SortedMap.empty } } := by
  rw [List.foldl_map]
  rfl

theorem stop_closed (h : st.owner.Registers) {s : FgwSession}
    (hs : (stop acquires S st).owner.clients handler = some s) : s.closed = true := by
  rw [stop_eq] at hs
  obtain ⟨t, ht, -, hclosed⟩ := drives_closed _ hs
  refine hclosed ?_
  by_cases hopen : t.closed = true
  · exact Or.inl hopen
  · have hreg := (h t.sessionId handler).2 ⟨t, ht, rfl, Bool.eq_false_of_not_eq_true hopen⟩
    exact Or.inr (List.mem_map.2 ⟨_, SortedMap.find?_eq_some.1 hreg, rfl⟩)

theorem stop_sessions (st : StreamState InportService) (sid : ZceUint32) :
    (stop acquires S st).owner.sessions.find? sid = none := by
  have hdrives : ∀ (handlers : List Handler) (st : StreamState InportService),
      (∀ sid, st.owner.sessions.find? sid = none) → ∀ sid, (handlers.foldl
        (fun st handler => drive acquires S FgwSession.close handler st)
        st).owner.sessions.find? sid = none := by
    intro handlers
    induction handlers with
    | nil => exact fun _ h => h
    | cons head handlers ih =>
      intro st h
      refine ih _ ?_
      rw [drive_owner]
      refine runClient_preserves (P := fun svc => ∀ sid, svc.sessions.find? sid = none)
        (fun hsvc _ _ sid => ?_) close_acts h head
      rw [settle_sessions, hsvc sid, ite_self]
  rw [stop_eq]
  exact hdrives _ _ (fun sid => SortedMap.find?_empty sid) sid

def Registered (svc : InportService) : Prop := svc.made ≤ 2 ^ 32 → svc.Registers

theorem step_registered {ds : DataStream InportService} (h : ds.owner.Registered)
    (hsound : Sound S ds.toStreamState) (op : Op) : (step acquires S ds op).owner.Registered := by
  have hsettle : ∀ {svc : InportService} {handler : Handler} {s s' : FgwSession}, svc.Registered →
      svc.clients handler = some s → Acts s s' → (svc.settle handler s s').Registered := by
    intro svc handler s s' hsvc hs hacts hmade
    rw [settle_made] at hmade
    exact (hsvc hmade).settle hs hacts.sessionId hacts.closed
  have hdrive : ∀ f : FgwSession → FgwSession, (∀ s, Acts s (f { s with calls := [] })) →
      ∀ handler, (drive acquires S f handler ds.toStreamState).owner.Registered := by
    intro f hf handler
    rw [drive_owner]
    exact runClient_preserves hsettle hf h handler
  cases op with
  | start listen =>
    change Registered (ds.owner.start listen).2
    unfold start
    split
    · exact h
    · split
      · exact h
      · exact h
  | accept =>
    change Registered (accept acquires S ds.toStreamState).owner
    cases hacceptor : ds.owner.acceptor with
    | false =>
      rw [accept, if_neg (by rw [hacceptor]; exact Bool.false_ne_true)]
      exact h
    | true =>
      rw [accept_owner hacceptor]
      intro hmade
      exact (h (Nat.le_of_succ_le hmade)).attach hsound.wf (Nat.lt_of_succ_le hmade)
  | onClientBytes handler buf => exact hdrive _ (onClientBytes_acts buf) handler
  | onClientClose handler => exact hdrive _ close_acts handler
  | onChannelBytes ch buf =>
    rw [show (step acquires S ds (.onChannelBytes ch buf)).toStreamState = _ from
      onChannelBytes_frames (setting acquires S) ch buf ds]
    exact frames_preserve hsettle h ch _
  | emitFeedback =>
    change Registered (DataStream.emitFeedback (setting acquires S) ds.toStreamState).owner
    rw [(emitFeedback_judgesOnly (setting acquires S) ds.toStreamState).owner]
    exact h
  | selector selector => exact h
  | stop =>
    intro hmade
    have hadvances : Advances S ds.toStreamState (stop acquires S ds.toStreamState) := .stop _
    have hregisters := h (hadvances.made.trans hmade)
    intro sid handler
    rw [show (step acquires S ds .stop).owner.sessions.find? sid = none from stop_sessions _ sid]
    refine iff_of_false (Option.some_ne_none handler).symm ?_
    rintro ⟨s, hs, -, hopen⟩
    rw [stop_closed hregisters hs] at hopen
    cases hopen

theorem run_registered {ds : DataStream InportService} (h : ds.owner.Registered)
    (hsound : Sound S ds.toStreamState) (ops : List Op) :
    (run acquires S ds ops).owner.Registered := by
  induction ops generalizing ds with
  | nil => exact h
  | cons op ops ih =>
    exact ih (step_registered h hsound op) ((Advances.step hsound op).sound hsound)

def lonelySetting : Setting InportService where
  config := StreamConfig.make 7#32 1200#16 1024#16 true 0#32
  manager _ := .empty
  mbacquire _ n := List.replicate n 0#8
  sort := stableSort
  zds := ZdsCodec.known [] []
  unknownCb := none
  onEvent svc _ := (svc, [])

/-- In every run of an inport, while no more clients have come than there are session ids: those
that are registered are those that are open, each under its own id; and whatever arrives, the stream
names only handlers that are registered, each for its own session. -/
theorem clients_registered (acquires : Nat → Bool) (S : Setting InportService)
    (selector : LinkSelector) (ops : List Op)
    (hmade : (run acquires S (DataStream.init init selector) ops).owner.made ≤ 2 ^ 32) :
    let st := (run acquires S (DataStream.init init selector) ops).toStreamState
    (∀ sid handler, st.owner.sessions.find? sid = some handler ↔
      ∃ s, st.owner.clients handler = some s ∧ s.sessionId = sid ∧ s.closed = false) ∧
    ∀ key handler, st.names key = some handler →
      key.1 = S.config.localIngressId ∧ st.owner.sessions.find? key.2 = some handler := by
  intro st
  have hinit : Sound S (DataStream.init init selector).toStreamState := Sound.init S selector
  have hregisters : st.owner.Registers :=
    run_registered (fun _ => Registers.init) hinit ops hmade
  have hsound : Sound S st := (Advances.run hinit ops).sound hinit
  refine ⟨hregisters, fun key handler hkey => ?_⟩
  obtain ⟨s, hs, rfl, hopen⟩ := hsound.named hkey
  exact ⟨rfl, (hregisters _ handler).2 ⟨s, hs, rfl, hopen⟩⟩

def twoClients : List Op :=
  [.start 0, .accept, .accept, .onClientClose 0, .onClientBytes 1 [1#8]]

theorem clients_registered_two :
    let st := (run (fun _ => true) lonelySetting (DataStream.init init) twoClients).toStreamState
    st.owner.sessions.find? 2#32 = some 1 ∧
      (∃ s, st.owner.clients 1 = some s ∧ s.sessionId = 2#32 ∧ s.closed = false) ∧
      st.owner.sessions.find? 1#32 = none := by
  obtain ⟨hopen, hnamed⟩ := clients_registered (fun _ => true) lonelySetting {} twoClients
    (by decide +kernel)
  have hfound := (hnamed (7#32, 2#32) 1 (by decide +kernel)).2
  exact ⟨hfound, (hopen 2#32 1).1 hfound, by decide +kernel⟩

/-- In every run of an inport: a client's session is attached to its entry for as long as the client
is open, unless the entry was there before the client came.  Then the client hears nothing, ever. -/
theorem attached_iff_no_entry (acquires : Nat → Bool) (S : Setting InportService)
    (selector : LinkSelector) (ops ops' : List Op)
    (hacceptor : (run acquires S (DataStream.init init selector) ops).owner.acceptor = true)
    (hmade : (run acquires S (DataStream.init init selector) (ops ++ .accept :: ops')).owner.made ≤
      2 ^ 32) :
    let st := (run acquires S (DataStream.init init selector) ops).toStreamState
    let st' := (run acquires S (DataStream.init init selector) (ops ++ .accept :: ops')).toStreamState
    let key := (S.config.localIngressId, st.owner.nextSessionId)
    ∃ s, st'.owner.clients st.owner.made = some s ∧ s.sessionId = st.owner.nextSessionId ∧
      (s.closed = false → (st'.names key = some st.owner.made ↔ st.sessions key = none)) ∧
      (st.sessions key ≠ none → s.written = [] ∧
        ∀ e ∈ st'.events, e.callee ≠ some st.owner.made) := by
  intro st st' key
  have hinit : Sound S (DataStream.init init selector).toStreamState := Sound.init S selector
  have hsound : Sound S st := (Advances.run hinit ops).sound hinit
  have hacceptor : st.owner.acceptor = true := hacceptor
  have haccept : Advances S st (accept acquires S st) := .accept st
  have hsound' := haccept.sound hsound
  have hfinal : Advances S (accept acquires S st) st' := by
    have hrun : st' = (run acquires S (step acquires S
        (run acquires S (DataStream.init init selector) ops) .accept) ops').toStreamState := by
      change (run acquires S _ (ops ++ .accept :: ops')).toStreamState = _
      rw [run, List.foldl_append]
      rfl
    have hstep : Sound S (step acquires S
        (run acquires S (DataStream.init init selector) ops) .accept).toStreamState := hsound'
    rw [hrun]
    exact Advances.run hstep ops'
  have hself : (accept acquires S st).owner.clients st.owner.made =
      some { sessionId := st.owner.nextSessionId } := by
    rw [accept_owner hacceptor]
    exact attach_client_self
  have hunnamed : Unnamed st st.owner.made := by
    intro key' hkey'
    obtain ⟨s, hs, -⟩ := hsound.named hkey'
    exact Nat.lt_irrefl _ (hsound.wf.made hs)
  have hnames : (accept acquires S st).names key = some st.owner.made ↔ st.sessions key = none := by
    rw [accept_names hacceptor]
    split
    · rename_i hkey
      exact iff_of_true rfl hkey.2
    · rename_i hkey
      exact iff_of_false (hunnamed key) fun hnone => hkey ⟨rfl, hnone⟩
  obtain ⟨s, hs, hgrows, hattached⟩ := hfinal.later hsound' hmade _ _ hself
  refine ⟨s, hs, hgrows.sessionId, fun hopen => (hattached hopen).trans hnames, fun hentry => ?_⟩
  have hunnamed' : Unnamed (accept acquires S st) st.owner.made := by
    intro key'
    rw [accept_names hacceptor, if_neg]
    · exact hunnamed key'
    · rintro ⟨rfl, hnone⟩
      exact hentry hnone
  have hlt : st.owner.made < (accept acquires S st).owner.made := hsound'.wf.made hself
  obtain ⟨-, hevents, hwritten⟩ := hfinal.quiet _ hlt hunnamed'
  rw [hs, hself, Option.map_some, Option.map_some] at hwritten
  refine ⟨Option.some.inj hwritten, fun e he hcallee => ?_⟩
  rcases hevents e he with hold | hnot
  · rw [accept_events] at hold
    exact Nat.lt_irrefl _ (hsound.heard e hold _ hcallee)
  · exact hnot hcallee

def earlyOps : List Op :=
  [.start 0, .onChannelBytes 1 (dataFrame lonelySetting (7#32, 1#32) 0 [9#8])]

def earlyRun : DataStream InportService :=
  run (fun _ => true) lonelySetting (DataStream.init init)
    (earlyOps ++ .accept :: [.onClientBytes 0 [1#8]])

theorem attached_iff_no_entry_one :
    (∃ s, (run (fun _ => true) lonelySetting (DataStream.init init)
        ([.start 0] ++ .accept :: [.onClientBytes 0 [1#8]])).owner.clients 0 = some s ∧
      s.sessionId = 1#32 ∧ (s.closed = false → (run (fun _ => true) lonelySetting
        (DataStream.init init) ([.start 0] ++ .accept :: [.onClientBytes 0 [1#8]])).names
          (7#32, 1#32) = some 0)) ∧
    ∃ s, earlyRun.owner.clients 0 = some s ∧ s.sessionId = 1#32 ∧ s.written = [] ∧
      ∀ e ∈ earlyRun.events, e.callee ≠ some 0 := by
  constructor
  · obtain ⟨s, hs, hsid, hattached, -⟩ := attached_iff_no_entry (fun _ => true) lonelySetting {}
      [.start 0] [.onClientBytes 0 [1#8]] (by decide +kernel) (by decide +kernel)
    exact ⟨s, hs, hsid, fun hopen => (hattached hopen).2 rfl⟩
  · have hmade : (run (fun _ => true) lonelySetting (DataStream.init init) earlyOps).owner.made =
        (0 : Handler) := by decide +kernel
    have hnext : (run (fun _ => true) lonelySetting (DataStream.init init)
        earlyOps).owner.nextSessionId = 1#32 := by decide +kernel
    have hentry : ((run (fun _ => true) lonelySetting (DataStream.init init)
        earlyOps).sessions (lonelySetting.config.localIngressId, 1#32)).isSome = true := by
      decide +kernel
    obtain ⟨s, hs, hsid, -, hquiet⟩ := attached_iff_no_entry (fun _ => true) lonelySetting {} earlyOps
      [.onClientBytes 0 [1#8]] (by decide +kernel) (by decide +kernel)
    rw [hmade] at hs hquiet
    rw [hnext] at hsid hquiet
    unfold earlyRun
    exact ⟨s, hs, hsid, hquiet (Option.isSome_iff_ne_none.1 hentry)⟩

end InportService

end Libfgw
