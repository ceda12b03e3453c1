import Libfgw.DataStream.Moves
import Libfgw.DataStream.Sending
import Libfgw.Lib.Telling

namespace Libfgw

open FgwSegmentHeader Lib

variable {σ : Type}

def Call.key (S : Setting σ) : Call → SessionKey
  | .openSession sid _ => (S.config.localIngressId, sid)
  | .closeSession sid ingressKey => (DataStream.resolveIngressKey S ingressKey, sid)
  | .sendSessionData sid _ ingressKey => (DataStream.resolveIngressKey S ingressKey, sid)

def StreamState.names (st : StreamState σ) (key : SessionKey) : Option Handler :=
  (st.sessions key).bind SessionState.handler

namespace StreamState

theorem sessions_setSession (st : StreamState σ) (key key' : SessionKey) (s : SessionState) :
    (st.setSession key s).sessions key' = if key' = key then some s else st.sessions key' :=
  Function.update_apply _ _ _ _

theorem sessions_eraseSession (st : StreamState σ) (key key' : SessionKey) :
    (st.eraseSession key).sessions key' = if key' = key then none else st.sessions key' :=
  Function.update_apply _ _ _ _

theorem names_eq {st st' : StreamState σ} (h : st'.sessions = st.sessions) (key : SessionKey) :
    st'.names key = st.names key := by
  rw [names, names, h]

theorem names_rxView (st : StreamState σ) (key : SessionKey) :
    st.names key = (st.rxView key).bind RxView.handler := by
  rw [names, rxView]
  cases st.sessions key <;> rfl

theorem names_setSession (st : StreamState σ) (key key' : SessionKey) (s : SessionState) :
    (st.setSession key s).names key' = if key' = key then s.handler else st.names key' := by
  rw [names, sessions_setSession]
  split
  · rfl
  · rfl

theorem names_eraseSession (st : StreamState σ) (key key' : SessionKey) :
    (st.eraseSession key).names key' = if key' = key then none else st.names key' := by
  rw [names, sessions_eraseSession]
  split
  · rfl
  · rfl

end StreamState

structure Keyed (S : Setting σ) (st : StreamState σ) : Prop where
  entry : ∀ {key s}, st.sessions key = some s → s.wireIngressId = key.1 ∧ s.closed = false
  logged : ∀ {a}, a ∈ st.sent → DataStream.Faithful S a ∧ a.payload.length ≤ FgwSegmentHeader.MAX_PAYLOAD

namespace DataStream

variable {S : Setting σ} {st : StreamState σ}

theorem Consecutive.length_le {key : SessionKey} {flags : ZceByte} {seq : ZceUint32}
    {buf : List ZceByte} {as : List Attempt} {a : Attempt}
    (h : Consecutive S key flags seq (pieces S.config.segmentSize.toNat buf) as) (ha : a ∈ as) :
    a.payload.length ≤ MAX_PAYLOAD := by
  have hmem : a.payload ∈ (pieces S.config.segmentSize.toNat buf).take as.length := by
    rw [← h.payloads_eq]
    exact List.mem_map_of_mem ha
  exact (mem_pieces S.config.segmentSize_pos (List.mem_of_mem_take hmem)).2.trans
    S.config.segmentSize_le

/-- What a call can do: it tries to send segments of its session, and changes no other entry. -/
structure CallSpec (S : Setting σ) (c : Call) (st st' : StreamState σ) (as : List Attempt) : Prop where
  sent : st'.sent = st.sent ++ as
  own : ∀ a ∈ as, a.key = c.key S ∧ Faithful S a ∧ a.payload.length ≤ MAX_PAYLOAD
  others : ∀ key, key ≠ c.key S → st'.sessions key = st.sessions key
  entry : ∀ s, st'.sessions (c.key S) = some s → s.wireIngressId = (c.key S).1 ∧ s.closed = false

theorem CallSpec.idle (h : Keyed S st) (c : Call) : CallSpec S c st st [] where
  sent := (List.append_nil _).symm
  own _ ha := absurd ha List.not_mem_nil
  others _ _ := rfl
  entry _ hs := h.entry hs

theorem call_spec (h : Keyed S st) (c : Call) : ∃ as, CallSpec S c st (call S st c) as := by
  cases c with
  | openSession sid handler =>
    cases hnew : st.sessions (S.config.localIngressId, sid) with
    | some s =>
      have hbusy : call S st (.openSession sid handler) = st := by simp [call, openSession, hnew]
      rw [hbusy]
      exact ⟨[], .idle h _⟩
    | none =>
      obtain ⟨a, hfaithful, hkey, -, -, hload, hsent, hsessions⟩ :=
        @openSession_spec σ S sid handler st hnew
      refine ⟨[a], hsent, fun b hb => ?_, fun key hne => ?_, fun s hs => ?_⟩
      · rw [List.mem_singleton.1 hb]
        exact ⟨hkey, hfaithful, by rw [hload]; exact Nat.zero_le _⟩
      · exact (congrFun hsessions key).trans (Function.update_of_ne hne _ _)
      · rw [show (call S st (.openSession sid handler)).sessions = _ from hsessions, Call.key,
          Function.update_self] at hs
        rw [← Option.some.inj hs]
        exact ⟨rfl, rfl⟩
  | closeSession sid ingressKey =>
    cases hs : st.sessions (resolveIngressKey S ingressKey, sid) with
    | none =>
      have hstay : call S st (.closeSession sid ingressKey) = st := by
        simp only [call, closeSession, hs]
      rw [hstay]
      exact ⟨[], .idle h _⟩
    | some s =>
      obtain ⟨hwire, hopen⟩ := h.entry hs
      obtain ⟨a, hfaithful, hkey, -, -, hload, hsent, hsessions⟩ := closeSession_spec rfl hs hwire hopen
      refine ⟨[a], hsent, fun b hb => ?_, fun key hne => ?_, fun s' hs' => ?_⟩
      · rw [List.mem_singleton.1 hb]
        exact ⟨hkey, hfaithful, by rw [hload]; exact Nat.zero_le _⟩
      · exact (congrFun hsessions key).trans (Function.update_of_ne hne _ _)
      · rw [show (call S st (.closeSession sid ingressKey)).sessions = _ from hsessions, Call.key,
          Function.update_self] at hs'
        cases hs'
  | sendSessionData sid buf ingressKey =>
    cases hs : st.sessions (resolveIngressKey S ingressKey, sid) with
    | none =>
      have hstay : call S st (.sendSessionData sid buf ingressKey) = st := by
        simp only [call, sendSessionData, hs]
      rw [hstay]
      exact ⟨[], .idle h _⟩
    | some s =>
      obtain ⟨hwire, hopen⟩ := h.entry hs
      obtain ⟨as, hcons, hsent, hsessions, -⟩ := sendSessionData_spec rfl buf hs hwire hopen
      refine ⟨as, hsent, fun a ha => ⟨hcons.key_eq a ha, hcons.faithful a ha, hcons.length_le ha⟩,
        fun key hne => ?_, fun s' hs' => ?_⟩
      · exact (congrFun hsessions key).trans (Function.update_of_ne hne _ _)
      · rw [show (call S st (.sendSessionData sid buf ingressKey)).sessions = _ from hsessions,
          Call.key, Function.update_self] at hs'
        rw [← Option.some.inj hs']
        exact ⟨hwire, hopen⟩

theorem collectReady_entry (fuel : Nat) (s : SessionState) :
    ∃ buffer expected, (collectReady fuel s).2 =
      { s with rxBuffer := buffer, expectedRxSeq := expected } := by
  induction fuel generalizing s with
  | zero => exact ⟨s.rxBuffer, s.expectedRxSeq, rfl⟩
  | succ fuel ih =>
    unfold collectReady
    split
    · exact ⟨s.rxBuffer, s.expectedRxSeq, rfl⟩
    · split
      · exact ⟨s.rxBuffer, s.expectedRxSeq, rfl⟩
      · obtain ⟨buffer, expected, heq⟩ := ih { s with
          rxBuffer := s.rxBuffer.eraseBegin
          expectedRxSeq := s.expectedRxSeq + 1#32 }
        exact ⟨buffer, expected, heq⟩

end DataStream

namespace Keyed

open DataStream

variable {S : Setting σ} {st st' : StreamState σ}

theorem init (S : Setting σ) (owner : σ) (selector : LinkSelector) :
    Keyed S (StreamState.init owner selector) where
  entry h := by cases h
  logged h := by cases h

theorem of_eq (h : Keyed S st) (hsessions : st'.sessions = st.sessions) (hsent : st'.sent = st.sent) :
    Keyed S st' where
  entry hs := by
    rw [hsessions] at hs
    exact h.entry hs
  logged ha := by
    rw [hsent] at ha
    exact h.logged ha

theorem call (h : Keyed S st) (c : Call) : Keyed S (DataStream.call S st c) := by
  obtain ⟨as, hspec⟩ := call_spec h c
  refine ⟨fun {key s} hs => ?_, fun {a} ha => ?_⟩
  · by_cases hkey : key = c.key S
    · subst hkey
      exact hspec.entry s hs
    · rw [hspec.others key hkey] at hs
      exact h.entry hs
  · rw [hspec.sent] at ha
    rcases List.mem_append.1 ha with hold | hnew
    · exact h.logged hold
    · exact (hspec.own a hnew).2

theorem calls (h : Keyed S st) (cs : List Call) : Keyed S (cs.foldl (DataStream.call S) st) := by
  induction cs generalizing st with
  | nil => exact h
  | cons c cs ih => exact ih (h.call c)

theorem notify (h : Keyed S st) (e : Event) : Keyed S (DataStream.notify S e st) := by
  have hlogged : Keyed S { st.logEvent e with owner := (S.onEvent st.owner e).1 } := h.of_eq rfl rfl
  exact hlogged.calls _

theorem setSession (h : Keyed S st) {key : SessionKey} {s : SessionState}
    (hs : s.wireIngressId = key.1 ∧ s.closed = false) : Keyed S (st.setSession key s) where
  entry {key' s'} hs' := by
    rw [StreamState.sessions_setSession] at hs'
    split at hs'
    · rename_i hkey
      rw [hkey, ← Option.some.inj hs']
      exact hs
    · exact h.entry hs'
  logged := h.logged

theorem eraseSession (h : Keyed S st) (key : SessionKey) : Keyed S (st.eraseSession key) where
  entry {key' s'} hs' := by
    rw [StreamState.sessions_eraseSession] at hs'
    split at hs'
    · cases hs'
    · exact h.entry hs'
  logged := h.logged

theorem createSession (h : Keyed S st) (key : SessionKey) :
    Keyed S (DataStream.createSession S key st) := by
  unfold DataStream.createSession
  split
  · exact h.setSession ⟨rfl, rfl⟩
  · refine setSession ?_ ⟨rfl, rfl⟩
    exact h.of_eq rfl rfl

theorem handOut (h : Keyed S st) (key : SessionKey) (handler : Handler) (sid : ZceUint32)
    (blks : List (List ZceByte)) : Keyed S (DataStream.handOut S key handler sid blks st) := by
  induction blks generalizing st with
  | nil => exact h
  | cons blk blks ih =>
    rw [handOut_cons]
    split
    · exact ih (h.notify _)
    · exact ih h

theorem collected (h : Keyed S st) {key : SessionKey} {s : SessionState}
    (hs : st.sessions key = some s) (fuel : Nat) :
    Keyed S (st.setSession key (collectReady fuel s).2) := by
  have hentry := h.entry hs
  obtain ⟨buffer, expected, heq⟩ := collectReady_entry fuel s
  refine h.setSession ?_
  rw [heq]
  exact hentry

theorem move {key : SessionKey} {data : ZceUint32 → List ZceByte → Prop} (h : Keyed S st)
    (hmove : Move S key data st st') : Keyed S st' := by
  cases hmove with
  | judged hjudges => exact h.of_eq hjudges.sessions hjudges.sent
  | recorded dk => exact h.of_eq rfl rfl
  | created hnone => exact h.createSession key
  | opened hs hhandler => exact h.notify _
  | closed hs hhandler => exact (h.notify _).eraseSession key
  | dropped hs hhandler => exact h.eraseSession key
  | kept hs hbuffer =>
    obtain ⟨hwire, hopen⟩ := h.entry hs
    refine setSession ?_ ⟨hwire, hopen⟩
    exact h.of_eq rfl rfl
  | delivered hs hhandler => exact handOut (h.collected hs _) _ _ _ _

end Keyed

/-- What a session has tried to send, but for its openings. -/
def numbered (key : SessionKey) (sent : List Attempt) : List Attempt :=
  sent.filter fun a => a.key = key ∧ a.flags ≠ FLAG_SYN

theorem numbered_append (key : SessionKey) (sent as : List Attempt) :
    numbered key (sent ++ as) = numbered key sent ++ numbered key as := List.filter_append _ _

theorem numbered_other {key : SessionKey} {as : List Attempt} (h : ∀ a ∈ as, a.key ≠ key) :
    numbered key as = [] := by
  refine List.filter_eq_nil_iff.2 fun a ha => ?_
  simp only [h a ha, false_and, decide_false, Bool.false_eq_true, not_false_eq_true]

theorem numbered_own {key : SessionKey} {as : List Attempt}
    (h : ∀ a ∈ as, a.key = key ∧ a.flags ≠ FLAG_SYN) : numbered key as = as :=
  List.filter_eq_self.2 fun a ha => decide_eq_true (h a ha)

theorem numbered_syn {key : SessionKey} {a : Attempt} (ha : a.flags = FLAG_SYN) :
    numbered key [a] = [] := by
  refine List.filter_eq_nil_iff.2 fun b hb => ?_
  rw [List.mem_singleton.1 hb, ha]
  simp only [ne_eq, not_true_eq_false, and_false, decide_false, Bool.false_eq_true, not_false_eq_true]

def Attempt.WentOut (a : Attempt) : Prop := a.result.isOk = true

/-- A session has numbered what it has sent from 0 on, and has told `given` with it. -/
structure Counted (key : SessionKey) (given : List ZceByte) (sent : List Attempt) : Prop where
  counts : Counts Attempt.seq (numbered key sent)
  tells : Tells Attempt.WentOut Attempt.payload (numbered key sent) given

theorem Counted.of_numbered {key : SessionKey} {given : List ZceByte} {sent sent' : List Attempt}
    (h : Counted key given sent) (hnumbered : numbered key sent' = numbered key sent) :
    Counted key given sent' :=
  ⟨by rw [hnumbered]; exact h.counts, by rw [hnumbered]; exact h.tells⟩

def Speaks (key : SessionKey) (handler : Handler) (st : StreamState σ) : Prop :=
  ∃ s, st.sessions key = some s ∧ s.handler = some handler ∧
    s.nextSendSeq = BitVec.ofNat 32 (numbered key st.sent).length

def SessionState.voice (s : SessionState) : Option Handler × ZceUint32 := (s.handler, s.nextSendSeq)

def StreamState.voice (st : StreamState σ) (key : SessionKey) : Option (Option Handler × ZceUint32) :=
  (st.sessions key).map SessionState.voice

theorem speaks_iff {key : SessionKey} {handler : Handler} {st : StreamState σ} :
    Speaks key handler st ↔
      st.voice key = some (some handler, BitVec.ofNat 32 (numbered key st.sent).length) := by
  rw [StreamState.voice, Option.map_eq_some_iff]
  refine exists_congr fun s => and_congr_right fun _ => ?_
  rw [SessionState.voice, Prod.mk.injEq]

theorem Speaks.of_voice {key : SessionKey} {handler : Handler} {st st' : StreamState σ}
    (h : Speaks key handler st) (hvoice : st'.voice key = st.voice key)
    (hnumbered : numbered key st'.sent = numbered key st.sent) : Speaks key handler st' := by
  rw [speaks_iff] at h ⊢
  rw [hvoice, hnumbered, h]

theorem StreamState.voice_setSession {st : StreamState σ} {key : SessionKey} {s s' : SessionState}
    (hs : st.sessions key = some s) (hvoice : s'.voice = s.voice) (key' : SessionKey) :
    (st.setSession key s').voice key' = st.voice key' := by
  rw [voice, voice, sessions_setSession]
  split
  · rename_i hkey
    rw [hkey, hs, Option.map_some, Option.map_some, hvoice]
  · rfl

theorem StreamState.names_voice (st : StreamState σ) (key : SessionKey) :
    st.names key = (st.voice key).bind Prod.fst := by
  rw [names, voice]
  cases st.sessions key <;> rfl

theorem StreamState.voice_eq_none {st : StreamState σ} {key : SessionKey} :
    st.voice key = none ↔ st.sessions key = none := Option.map_eq_none_iff

theorem voice_collectReady (fuel : Nat) (s : SessionState) :
    (DataStream.collectReady fuel s).2.voice = s.voice := by
  obtain ⟨buffer, expected, heq⟩ := DataStream.collectReady_entry fuel s
  rw [heq]
  rfl

namespace DataStream

variable {S : Setting σ} {st : StreamState σ} {key : SessionKey} {given : List ZceByte}

theorem Consecutive.tells {flags : ZceByte} {seq : ZceUint32} {payloads : List (List ZceByte)}
    {as : List Attempt} (h : Consecutive S key flags seq payloads as) :
    Tells Attempt.WentOut Attempt.payload as payloads.flatten where
  begins {sent} hsent _ := by
    obtain ⟨rest, rfl⟩ := hsent
    have hpayloads := h.payloads_eq
    rw [List.map_append] at hpayloads
    rw [List.flatMap_def]
    have hprefix : sent.map Attempt.payload <+: payloads :=
      (List.prefix_append _ _).trans (hpayloads ▸ List.take_prefix _ _)
    obtain ⟨more, rfl⟩ := hprefix
    rw [List.flatten_append]
    exact List.prefix_append _ _
  all hout := by
    rw [List.flatMap_def, h.payloads_eq, List.take_of_length_le (h.complete hout).ge]

theorem counted_nil (h : numbered key st.sent = []) : Counted key [] st.sent where
  counts := by rw [h]; rfl
  tells := by rw [h]; exact .nil

theorem sendSessionData_counted {handler : Handler} {ingressKey : ZceUint32} (hkeyed : Keyed S st)
    (hres : resolveIngressKey S ingressKey = key.1) (hspeaks : Speaks key handler st)
    (hcounted : Counted key given st.sent) (buf : List ZceByte) :
    Counted key (given ++ buf) (sendSessionData S key.2 buf ingressKey st).2.sent ∧
      Speaks key handler (sendSessionData S key.2 buf ingressKey st).2 := by
  obtain ⟨s, hs, hhandler, hseq⟩ := hspeaks
  obtain ⟨hwire, hopen⟩ := hkeyed.entry hs
  obtain ⟨as, hcons, hsent, hsessions, -⟩ := sendSessionData_spec hres buf hs hwire hopen
  have hown : numbered key as = as := numbered_own fun a ha =>
    ⟨hcons.key_eq a ha, by rw [hcons.flags_eq a ha]; decide⟩
  have hnumbered : numbered key (sendSessionData S key.2 buf ingressKey st).2.sent =
      numbered key st.sent ++ as := by rw [hsent, numbered_append, hown]
  refine ⟨⟨?_, ?_⟩, ⟨_, (congrFun hsessions key).trans (Function.update_self _ _ _), hhandler, ?_⟩⟩
  · rw [hnumbered]
    refine hcounted.counts.append ?_
    rw [← hseq]
    exact hcons.seqs
  · rw [hnumbered]
    refine hcounted.tells.append ?_
    rw [← flatten_pieces S.config.segmentSize_pos buf]
    exact hcons.tells
  · rw [hnumbered, List.length_append, BitVec.ofNat_add, ← hseq]

theorem closeSession_counted {handler : Handler} {ingressKey : ZceUint32} (hkeyed : Keyed S st)
    (hres : resolveIngressKey S ingressKey = key.1) (hspeaks : Speaks key handler st)
    (hcounted : Counted key given st.sent) :
    Counted key given (closeSession S key.2 ingressKey st).sent := by
  obtain ⟨s, hs, -, hseq⟩ := hspeaks
  obtain ⟨hwire, hopen⟩ := hkeyed.entry hs
  obtain ⟨a, -, hkey, hflags, hnumber, hload, hsent, -⟩ := closeSession_spec hres hs hwire hopen
  have hown : numbered key [a] = [a] := numbered_own fun b hb => by
    rw [List.mem_singleton.1 hb]
    exact ⟨hkey, by rw [hflags]; decide⟩
  have hnumbered : numbered key (closeSession S key.2 ingressKey st).sent =
      numbered key st.sent ++ [a] := by rw [hsent, numbered_append, hown]
  constructor
  · rw [hnumbered]
    refine hcounted.counts.append ?_
    rw [List.map_singleton, List.length_singleton, List.range_one, List.map_singleton, hnumber, hseq]
    exact congrArg (fun n => [n]) (BitVec.add_zero _).symm
  · rw [hnumbered]
    exact hcounted.tells.silent hload

theorem calls_own {cs : List Call} (hkeyed : Keyed S st) (hcs : ∀ c ∈ cs, c.key S = key) :
    ∃ as, (cs.foldl (call S) st).sent = st.sent ++ as ∧ (∀ a ∈ as, a.key = key) ∧
      ∀ key', key' ≠ key → (cs.foldl (call S) st).sessions key' = st.sessions key' := by
  induction cs generalizing st with
  | nil => exact ⟨[], (List.append_nil _).symm, nofun, fun _ _ => rfl⟩
  | cons c cs ih =>
    obtain ⟨hc, hcs⟩ := List.forall_mem_cons.1 hcs
    obtain ⟨as, hspec⟩ := call_spec hkeyed c
    obtain ⟨as', hsent, hown, hothers⟩ := ih (hkeyed.call c) hcs
    refine ⟨as ++ as', ?_, fun a ha => ?_, fun key' hne => (hothers key' hne).trans ?_⟩
    · rw [List.foldl_cons, hsent, hspec.sent, List.append_assoc]
    · rcases List.mem_append.1 ha with hfirst | hrest
      · exact (hspec.own a hfirst).1.trans hc
      · exact hown a hrest
    · exact hspec.others key' (hc ▸ hne)

theorem dataCalls_counted {handler : Handler} {ingressKey : ZceUint32}
    (hres : resolveIngressKey S ingressKey = key.1) (bufs : List (List ZceByte))
    (hkeyed : Keyed S st) (hspeaks : Speaks key handler st) (hcounted : Counted key given st.sent) :
    Counted key (given ++ bufs.flatten) ((dataCalls key.2 ingressKey bufs).foldl (call S) st).sent ∧
      Speaks key handler ((dataCalls key.2 ingressKey bufs).foldl (call S) st) := by
  induction bufs generalizing st given with
  | nil => exact ⟨by rwa [List.flatten_nil, List.append_nil], hspeaks⟩
  | cons buf bufs ih =>
    obtain ⟨hcounted', hspeaks'⟩ := sendSessionData_counted hkeyed hres hspeaks hcounted buf
    have hrest := ih (hkeyed.call (.sendSessionData key.2 buf ingressKey)) hspeaks' hcounted'
    rwa [List.append_assoc] at hrest

end DataStream

end Libfgw
