import Libfgw.DataStream.HandOut
import Libfgw.ExactlyOnce

namespace Libfgw

open FgwSegmentHeader Lib DataStream

variable {σ : Type}

namespace Delivery

variable (S : Setting σ)

def response (d : Delivery σ) (pre : List (List ZceByte)) (blk : List ZceByte) : List Call :=
  (S.onEvent (ownerAfter S d.key d.handler d.sessionId pre d.state.owner)
    (.sessionData d.key d.handler d.sessionId blk)).2

def before (d : Delivery σ) (pre : List (List ZceByte)) : StreamState σ :=
  handOut S d.key d.handler d.sessionId pre d.state

def Attended (d : Delivery σ) : Prop :=
  ∀ pre blk post, d.blks = pre ++ blk :: post → blk ≠ [] →
    ((d.before S pre).sessions d.key).bind SessionState.handler = some d.handler

def ClosesLast (d : Delivery σ) : Prop :=
  ∀ pre blk post, d.blks = pre ++ blk :: post → blk ≠ [] → (∃ b ∈ post, b ≠ []) →
    ∀ c ∈ d.response S pre blk, ¬ Closes S d.key c

end Delivery

namespace DataStream

variable (S : Setting σ)

/-- No frame that finds this state tells a handler of data after its session has gone. -/
def CallsBackOpen (st : StreamState σ) (f : List ZceByte) : Prop :=
  ∀ ch d, delivery S ch st f = some d → d.Attended S

/-- A handler that a frame tells of data closes its session on the last block only. -/
def ClosesLastOn (st : StreamState σ) (f : List ZceByte) : Prop :=
  ∀ ch d, delivery S ch st f = some d → d.ClosesLast S

/-- A handler that is told of data opens no session. -/
def NeverReopens : Prop :=
  ∀ o e, e.isData = true → ∀ c ∈ (S.onEvent o e).2, ∀ sid handler, c ≠ .openSession sid handler

variable {S}

theorem rxView_bind_handler (st : StreamState σ) (key : SessionKey) :
    (st.sessions key).bind SessionState.handler = (st.rxView key).bind RxView.handler := by
  rw [StreamState.rxView]
  cases st.sessions key <;> rfl

theorem call_rxView {key : SessionKey} {v : RxView} {st : StreamState σ} (h : st.rxView key = some v)
    {c : Call} (hc : ¬ Closes S key c) : (call S st c).rxView key = some v := by
  cases c with
  | openSession sid handler =>
    simp only [call, openSession]
    split
    · exact h
    · rename_i hnew
      rw [rxView_sendSegment, rxView_setSession, if_neg, h]
      rintro rfl
      rw [StreamState.rxView, Option.map_eq_some_iff] at h
      obtain ⟨s, hs, -⟩ := h
      exact hnew (by rw [hs]; rfl)
  | closeSession sid ingressKey =>
    rw [call, rxView_closeSession, if_neg (by exact hc), h]
  | sendSessionData sid buf ingressKey => exact (rxView_sendSessionData S sid buf ingressKey st key).trans h

theorem calls_rxView {key : SessionKey} {v : RxView} {cs : List Call} {st : StreamState σ}
    (h : st.rxView key = some v) (hcs : ∀ c ∈ cs, ¬ Closes S key c) :
    (cs.foldl (call S) st).rxView key = some v := by
  induction cs generalizing st with
  | nil => exact h
  | cons c cs ih =>
    obtain ⟨hc, hcs⟩ := List.forall_mem_cons.1 hcs
    exact ih (call_rxView h hc) hcs

theorem call_rxView_none {key : SessionKey} {st : StreamState σ} {c : Call}
    (h : st.rxView key = none ∨ Closes S key c) (hc : ∀ sid handler, c ≠ .openSession sid handler) :
    (call S st c).rxView key = none := by
  cases c with
  | openSession sid handler => exact absurd rfl (hc sid handler)
  | closeSession sid ingressKey =>
    rw [call, rxView_closeSession]
    split
    · rfl
    · rename_i hkey
      exact h.resolve_right hkey
  | sendSessionData sid buf ingressKey =>
    exact (rxView_sendSessionData S sid buf ingressKey st key).trans (h.resolve_right id)

theorem calls_rxView_none {key : SessionKey} {cs : List Call} {st : StreamState σ}
    (h : st.rxView key = none ∨ ∃ c ∈ cs, Closes S key c)
    (hcs : ∀ c ∈ cs, ∀ sid handler, c ≠ .openSession sid handler) :
    (cs.foldl (call S) st).rxView key = none := by
  induction cs generalizing st with
  | nil => exact h.resolve_right (by rintro ⟨c, hc, -⟩; exact List.not_mem_nil hc)
  | cons c cs ih =>
    obtain ⟨hc, hcs⟩ := List.forall_mem_cons.1 hcs
    rw [List.foldl_cons]
    refine ih ?_ hcs
    rcases h with h | ⟨c', hmem, hcloses⟩
    · exact Or.inl (call_rxView_none (Or.inl h) hc)
    · rcases List.mem_cons.1 hmem with rfl | hmem
      · exact Or.inl (call_rxView_none (Or.inr hcloses) hc)
      · exact Or.inr ⟨c', hmem, hcloses⟩

end DataStream

namespace Delivery

variable {S : Setting σ}

theorem before_append (d : Delivery σ) (pre blks : List (List ZceByte)) :
    d.before S (pre ++ blks) = handOut S d.key d.handler d.sessionId blks (d.before S pre) :=
  handOut_append S _ _ _ _ _ _

theorem before_concat (d : Delivery σ) (pre : List (List ZceByte)) {blk : List ZceByte}
    (hblk : blk ≠ []) :
    ∃ st, st.rxView d.key = (d.before S pre).rxView d.key ∧
      d.before S (pre ++ [blk]) = (d.response S pre blk).foldl (call S) st := by
  have howner : (d.before S pre).owner =
      ownerAfter S d.key d.handler d.sessionId pre d.state.owner := handOut_owner S _ _ _ _ _
  refine ⟨{ (d.before S pre).logEvent (.sessionData d.key d.handler d.sessionId blk) with
    owner := (S.onEvent (d.before S pre).owner (.sessionData d.key d.handler d.sessionId blk)).1 },
    rfl, ?_⟩
  rw [before_append, handOut_cons, if_pos (List.length_pos_iff.2 hblk), response, ← howner]
  rfl

theorem before_empties (d : Delivery σ) (pre : List (List ZceByte)) {blks : List (List ZceByte)}
    (h : ∀ b ∈ blks, b = []) : d.before S (pre ++ blks) = d.before S pre := by
  rw [before_append]
  generalize d.before S pre = st
  induction blks generalizing st with
  | nil => rfl
  | cons b blks ih =>
    obtain ⟨rfl, hblks⟩ := List.forall_mem_cons.1 h
    exact ih hblks st

def Starts (d : Delivery σ) : Prop := (d.state.rxView d.key).bind RxView.handler = some d.handler

theorem attended_of_closesLast {d : Delivery σ} (hstarts : d.Starts) (h : d.ClosesLast S) :
    d.Attended S := by
  have hall : ∀ pre rest, d.blks = pre ++ rest → (∃ b ∈ rest, b ≠ []) →
      ((d.before S pre).rxView d.key).bind RxView.handler = some d.handler := by
    intro pre
    induction pre using List.reverseRecOn with
    | nil => exact fun rest _ _ => hstarts
    | append_singleton pre b ih =>
      intro rest hblks hrest
      rw [List.append_assoc, List.singleton_append] at hblks
      obtain ⟨blk, hmem, hne⟩ := hrest
      have hprev := ih (b :: rest) hblks ⟨blk, List.mem_cons_of_mem b hmem, hne⟩
      by_cases hb : b = []
      · rw [before_empties d pre (List.forall_mem_singleton.2 hb)]
        exact hprev
      · obtain ⟨st, hst, hbefore⟩ := d.before_concat pre hb (S := S)
        obtain ⟨v, hv, hhandler⟩ := Option.bind_eq_some_iff.1 hprev
        rw [hbefore, calls_rxView (hst.trans hv) (h pre b rest hblks hb ⟨blk, hmem, hne⟩)]
        exact hhandler
  intro pre blk post hblks hblk
  rw [rxView_bind_handler]
  exact hall pre (blk :: post) hblks ⟨blk, List.mem_cons_self, hblk⟩

theorem closesLast_of_attended (hnever : NeverReopens S) {d : Delivery σ} (h : d.Attended S) :
    d.ClosesLast S := by
  intro pre blk post hblks hblk hpost c hc hcloses
  -- The next block that is not empty is handed to a handler whose session has gone.
  obtain ⟨empties, b, rest, rfl, hempties, hb⟩ : ∃ empties b rest, post = empties ++ b :: rest ∧
      (∀ e ∈ empties, e = []) ∧ b ≠ [] := by
    obtain ⟨blk', hmem, hne⟩ := hpost
    obtain ⟨b, hfound⟩ := Option.isSome_iff_exists.1
      (List.find?_isSome (p := fun e : List ZceByte => decide (e ≠ []))
        |>.2 ⟨blk', hmem, by simpa using hne⟩)
    obtain ⟨hb, empties, rest, hsplit, hempties⟩ := List.find?_eq_some_iff_append.1 hfound
    exact ⟨empties, b, rest, hsplit, fun e he => by simpa using hempties e he, by simpa using hb⟩
  obtain ⟨st, -, hbefore⟩ := d.before_concat pre hblk (S := S)
  have hgone : (d.before S (pre ++ [blk])).rxView d.key = none := by
    rw [hbefore]
    exact calls_rxView_none (Or.inr ⟨c, hc, hcloses⟩) (hnever _ _ rfl)
  have hnext := h (pre ++ [blk] ++ empties) b rest (by rw [hblks]; simp) hb
  rw [rxView_bind_handler, before_empties d _ hempties, hgone] at hnext
  exact absurd hnext (Option.some_ne_none _).symm

end Delivery

namespace DataStream

variable {S : Setting σ}

theorem delivery_starts {ch : ChannelRef} {st : StreamState σ} {f : List ZceByte} {d : Delivery σ}
    (h : delivery S ch st f = some d) : d.Starts := by
  have hof : ∀ key s st, deliveryOf key s st = some d → d.Starts := by
    intro key s st hd
    obtain ⟨handler, hhandler, rfl⟩ := Option.map_eq_some_iff.1 hd
    rw [Delivery.Starts, ← rxView_bind_handler]
    simp only [StreamState.setSession, Function.update_self, Option.bind_some, collectReady_handler,
      hhandler]
  unfold delivery at h
  split at h
  · split at h
    · exact absurd h (Option.some_ne_none d).symm
    · unfold deliveryOnSegment at h
      dsimp only at h
      split at h
      · exact absurd h (Option.some_ne_none d).symm
      · obtain ⟨s, -, hd⟩ := Option.bind_eq_some_iff.1 h
        exact hof _ _ _ hd
  · exact absurd h (Option.some_ne_none d).symm

theorem callsBackOpen_of_closesLastOn {st : StreamState σ} {f : List ZceByte}
    (h : ClosesLastOn S st f) : CallsBackOpen S st f := fun ch d hd =>
  Delivery.attended_of_closesLast (delivery_starts hd) (h ch d hd)

theorem callsBackOpen_iff (hnever : NeverReopens S) {st : StreamState σ} {f : List ZceByte} :
    CallsBackOpen S st f ↔ ClosesLastOn S st f :=
  ⟨fun h ch d hd => Delivery.closesLast_of_attended hnever (h ch d hd), callsBackOpen_of_closesLastOn⟩

end DataStream

/-- What handlers are told of data, they are told in deliveries.  In every run in which they close
their sessions on the last block that a frame releases, no handler is called back after its session
has gone; and for handlers that open no session this is exact. -/
theorem no_callback_after_close (S : Setting σ) (owner : σ) (selector : LinkSelector)
    (ops : List (Op σ)) :
    (∀ p ∈ trace S (DataStream.init owner selector) ops, ∀ ch,
      Delivers S p.1 (handleFrame S ch p.1 p.2) (delivery S ch p.1 p.2)) ∧
    ((∀ p ∈ trace S (DataStream.init owner selector) ops, ClosesLastOn S p.1 p.2) →
      ∀ p ∈ trace S (DataStream.init owner selector) ops, CallsBackOpen S p.1 p.2) ∧
    (NeverReopens S → ∀ p ∈ trace S (DataStream.init owner selector) ops,
      (CallsBackOpen S p.1 p.2 ↔ ClosesLastOn S p.1 p.2)) :=
  ⟨fun p _ ch => handleFrame_delivers S ch p.1 p.2,
    fun hall p hp => callsBackOpen_of_closesLastOn (hall p hp),
    fun hnever _ _ => callsBackOpen_iff hnever⟩

theorem noteWinner_congr {ch ch' : ChannelRef} {st : StreamState σ} (h : st.peers ch = st.peers ch') :
    noteWinner ch st = noteWinner ch' st := by
  rw [noteWinner, noteWinner, h]

theorem delivery_congr {S : Setting σ} {ch ch' : ChannelRef} {st : StreamState σ}
    (h : st.peers ch = st.peers ch') (f : List ZceByte) : delivery S ch st f = delivery S ch' st f := by
  have hsegment : ∀ hdr payload,
      deliveryOnSegment S ch hdr payload st = deliveryOnSegment S ch' hdr payload st := by
    intro hdr payload
    unfold deliveryOnSegment
    dsimp only
    split
    · rfl
    · rw [noteWinner_congr]
      exact h
  unfold delivery
  simp only [hsegment]

def hastySetting : Setting Unit :=
  { outportSetting with
    onEvent := fun _ e => ((), match e with
      | .sessionData key _ sid _ => [.closeSession sid key.1]
      | _ => []) }

def hastyOps : List (Op Unit) := [.onChannelBytes 1 sampleData1, .onChannelBytes 2 sampleData0]

example : dataEvents (run hastySetting (DataStream.init ()) hastyOps).events =
    [.sessionData sampleKey 5 1#32 [1#8, 2#8], .sessionData sampleKey 5 1#32 [3#8]] := by
  decide +kernel

def patientSetting : Setting Unit :=
  { outportSetting with
    onEvent := fun _ e => ((), match e with
      | .sessionData key _ sid blk => if blk = [3#8] then [.closeSession sid key.1] else []
      | _ => []) }

theorem patient_closesLast {d : Delivery Unit} (h : d.blks <+: [[1#8, 2#8], [3#8]]) :
    d.ClosesLast patientSetting := by
  rintro pre blk post hsplit - ⟨b, hb, -⟩ c hc
  have hlast : blk = [3#8] := by
    by_contra hother
    have hnone : d.response patientSetting pre blk = [] := if_neg hother
    rw [hnone] at hc
    exact List.not_mem_nil hc
  rw [hsplit, hlast] at h
  cases pre with
  | nil => simp at h
  | cons _ pre =>
    cases pre with
    | nil => simp_all
    | cons _ pre => simp at h

def patientState : StreamState Unit :=
  (step patientSetting (DataStream.init ()) (.onChannelBytes 1 sampleData1)).toStreamState

set_option maxRecDepth 20000 in
theorem patientState_peers (ch : ChannelRef) : patientState.peers ch = patientState.peers 0 := rfl

theorem trace_patient : trace patientSetting (DataStream.init ()) hastyOps =
    [(StreamState.init (), sampleData1), (patientState, sampleData0)] := by
  have hframes : segmentFrames sampleData1 = [sampleData1] := by decide +kernel
  have hframes' : segmentFrames ((step patientSetting (DataStream.init ())
      (.onChannelBytes 1 sampleData1)).scratch 2 ++ sampleData0) = [sampleData0] := by decide +kernel
  rw [hastyOps, trace_cons, trace_cons, trace_nil, List.append_nil, traceAt, traceAt, hframes']
  show frameTrace patientSetting 1 (StreamState.init ()) (segmentFrames sampleData1) ++ _ = _
  rw [hframes]
  rfl

theorem no_callback_after_close_two_blocks : CallsBackOpen patientSetting patientState sampleData0 := by
  have hfirst : (delivery patientSetting 0 (StreamState.init ()) sampleData1).map Delivery.blks =
      some [] := by decide +kernel
  have hsecond : (delivery patientSetting 0 patientState sampleData0).map Delivery.blks =
      some [[1#8, 2#8], [3#8]] := by decide +kernel
  have hfirst' : ClosesLastOn patientSetting (StreamState.init ()) sampleData1 := by
    intro ch d hd
    rw [@delivery_congr _ _ ch 0 (StreamState.init ()) rfl] at hd
    rw [hd] at hfirst
    exact patient_closesLast (Option.some.inj hfirst ▸ List.nil_prefix)
  have hsecond' : ClosesLastOn patientSetting patientState sampleData0 := by
    intro ch d hd
    rw [delivery_congr (patientState_peers ch)] at hd
    rw [hd] at hsecond
    exact patient_closesLast (Option.some.inj hsecond ▸ List.prefix_rfl)
  have hlast : ∀ p ∈ trace patientSetting (DataStream.init ()) hastyOps,
      ClosesLastOn patientSetting p.1 p.2 := by
    intro p hp
    rw [trace_patient, List.mem_cons, List.mem_singleton] at hp
    rcases hp with rfl | rfl
    · exact hfirst'
    · dsimp only
      exact hsecond'
  have hmem : (patientState, sampleData0) ∈ trace patientSetting (DataStream.init ()) hastyOps := by
    rw [trace_patient, List.mem_cons, List.mem_singleton]
    exact Or.inr rfl
  have hopen := (no_callback_after_close patientSetting () {} hastyOps).2.1 hlast _ hmem
  dsimp only at hopen
  exact hopen

theorem called_back_after_close :
    ¬ ∀ p ∈ trace hastySetting (DataStream.init ()) hastyOps, CallsBackOpen hastySetting p.1 p.2 := by
  intro hclaim
  have hmem : ((run hastySetting (DataStream.init ()) [.onChannelBytes 1 sampleData1]).toStreamState,
      sampleData0) ∈ trace hastySetting (DataStream.init ()) hastyOps := by
    have hframes : segmentFrames ((step hastySetting (DataStream.init ())
        (.onChannelBytes 1 sampleData1)).scratch 2 ++ sampleData0) = [sampleData0] := by decide +kernel
    rw [hastyOps, trace_cons, trace_cons]
    refine List.mem_append_right _ (List.mem_append_left _ ?_)
    rw [traceAt, hframes]
    exact List.mem_singleton_self _
  have hall : (delivery hastySetting 2 (run hastySetting (DataStream.init ())
      [.onChannelBytes 1 sampleData1]).toStreamState sampleData0).map (fun d =>
        (d.blks, (((d.before hastySetting [[1#8, 2#8]]).sessions d.key).bind
          SessionState.handler).isNone)) = some ([[1#8, 2#8], [3#8]], true) := by decide +kernel
  obtain ⟨d, hd, hvals⟩ := Option.map_eq_some_iff.1 hall
  obtain ⟨hblks, hgone⟩ := Prod.mk.inj hvals
  have hopen := hclaim _ hmem
  dsimp only at hopen
  have hopen := hopen 2 d hd [[1#8, 2#8]] [3#8] [] hblks (List.cons_ne_nil _ _)
  rw [hopen] at hgone
  exact absurd hgone (by simp)

end Libfgw
