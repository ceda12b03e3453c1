import Libfgw.DataStream.LinkChoice
import Libfgw.ExactlyOnce

namespace Libfgw

open FgwSegmentHeader Lib DataStream

variable {σ : Type}

namespace DataStream

structure Shot where
  time : Nat
  selector : LinkSelector
  seq : ZceUint32
  payload : List ZceByte

variable (S : Setting σ)

def schedule : Nat → LinkSelector → ZceUint32 → List (List ZceByte) → List Shot
  | _, _, _, [] => []
  | time, sel, seq, p :: ps =>
    ⟨time, sel, seq, p⟩ ::
      schedule (time + 1) (sel.select S.sort (S.manager time).liveChannels).2 (seq + 1#32) ps

def Shot.frame (key : SessionKey) (q : Shot) : List ZceByte :=
  segmentFrame S key q.seq FLAG_DATA q.payload

def Shot.handed (key : SessionKey) (q : Shot) : List (FgwChannel × Int) :=
  handedTo S q.time q.selector (q.frame S key)

def Shot.Sendable (q : Shot) : Prop := DataStream.Sendable S q.time q.payload.length

def TakenWhole (frame : List ZceByte) (handed : List (FgwChannel × Int)) : Prop :=
  ∃ c ∈ handed, c.2 = frame.length

instance (frame : List ZceByte) (handed : List (FgwChannel × Int)) :
    Decidable (TakenWhole frame handed) :=
  inferInstanceAs (Decidable (∃ c ∈ handed, c.2 = (frame.length : Int)))

variable {S}

theorem sendSegment_selector {wireIngress sid seq : ZceUint32} {flags : ZceByte}
    {payload : Option (List ZceByte)} {st : StreamState σ}
    (h : (sendSegment S wireIngress sid seq flags payload st).1.isOk) :
    (sendSegment S wireIngress sid seq flags payload st).2.selector =
      (st.selector.select S.sort (S.manager st.clock).liveChannels).2 := by
  obtain ⟨a, sel, hout, -, -, hsel⟩ := sendSegment_effect S wireIngress sid seq flags payload st
  rw [hout]
  exact hsel.resolve_left fun hfails => hfails.2 h

def logged (a : Attempt) : List ZceByte × List ZceByte × List (FgwChannel × Int) :=
  (a.payload, a.frame, a.handed)

def Shot.logged (S : Setting σ) (key : SessionKey) (q : Shot) :
    List ZceByte × List ZceByte × List (FgwChannel × Int) :=
  (q.payload, q.frame S key, q.handed S key)

theorem sendSegment_shot {wireIngress sid : ZceUint32} {q : Shot} (st : StreamState σ)
    (hlen : q.payload.length ≤ MAX_PAYLOAD) (htime : q.time = st.clock)
    (hsel : q.selector = st.selector) :
    ((sendSegment S wireIngress sid q.seq FLAG_DATA (some q.payload) st).1.isOk ↔ q.Sendable S) ∧
      (q.Sendable S →
        (sendSegment S wireIngress sid q.seq FLAG_DATA (some q.payload) st).2.clock = st.clock + 1 ∧
        ∃ a, (sendSegment S wireIngress sid q.seq FLAG_DATA (some q.payload) st).2.sent =
          st.sent ++ [a] ∧ logged a = q.logged S (wireIngress, sid)) := by
  have hroom : ((some q.payload).getD []).length ≤ MAX_PAYLOAD := hlen
  obtain ⟨a, ha⟩ := sendSegment_spec S wireIngress sid q.seq st hroom
    (by decide : FLAG_DATA &&& FLAG_HDR_ROUTE = 0#8)
  have hok : a.result.isOk ↔ q.Sendable S := by
    rw [ha.faithful.ok_iff, ha.time_eq, ha.payload_eq, Shot.Sendable, htime]
    rfl
  refine ⟨by rw [← ha.result_eq]; exact hok, fun hsend => ⟨?_, a, ?_, ?_⟩⟩
  · exact (congrArg StreamState.clock ha.state_eq).trans rfl
  · exact (congrArg StreamState.sent ha.state_eq).trans rfl
  · have hpayload : a.payload = q.payload := ha.payload_eq
    have hframe : a.frame = q.frame S (wireIngress, sid) := by
      rw [ha.faithful.frame_eq (hok.2 hsend), ha.key_eq, ha.seq_eq, ha.flags_eq, hpayload, Shot.frame]
    have hhanded : a.handed = q.handed S (wireIngress, sid) := by
      rw [ha.faithful.handed_eq, if_pos (hok.2 hsend), ← ha.faithful.frame_eq (hok.2 hsend), hframe,
        ha.time_eq, ha.selector_eq, Shot.handed, htime, hsel]
    rw [logged, Shot.logged, hpayload, hframe, hhanded]

theorem sendChunks_schedule {key : SessionKey} {sid : ZceUint32} {buf : List ZceByte}
    {fuel written : Nat} {s : SessionState} {st : StreamState σ} (hwritten : written ≤ buf.length)
    (hfuel : buf.length - written ≤ fuel) {shots : List Shot}
    (hshots : shots = schedule S st.clock st.selector s.nextSendSeq
      (piecesFuel S.config.segmentSize.toNat fuel (buf.drop written))) :
    ((∀ q ∈ shots, q.Sendable S) →
      (sendChunks S key sid buf fuel written s st).1 = .ok (intCast buf.length) ∧
      ∃ as, (sendChunks S key sid buf fuel written s st).2.sent = st.sent ++ as ∧
        as.map logged = shots.map (Shot.logged S (s.wireIngressId, sid))) ∧
    (¬ (∀ q ∈ shots, q.Sendable S) → ¬ (sendChunks S key sid buf fuel written s st).1.isOk) := by
  induction fuel generalizing written s st shots with
  | zero =>
    obtain rfl : written = buf.length := by omega
    subst hshots
    exact ⟨fun _ => ⟨rfl, [], (List.append_nil _).symm, rfl⟩, fun h => absurd (by simp [schedule, piecesFuel]) h⟩
  | succ fuel ih =>
    by_cases hlt : written < buf.length
    · have hchunk := chunkSize_pos_le S (Nat.sub_pos_of_lt hlt)
      obtain ⟨result, st₁, hseg, hout⟩ := sendChunks_succ (S := S) key sid hlt fuel s st
      obtain ⟨hok, hgone⟩ := @sendSegment_shot σ S s.wireIngressId sid
        ⟨st.clock, st.selector, s.nextSendSeq,
          (buf.drop written).take (chunkSize S (buf.length - written))⟩
        (st.setSession key { s with nextSendSeq := s.nextSendSeq + 1#32 })
        (length_chunk_le S buf written) rfl rfl
      have hselector := @sendSegment_selector σ S s.wireIngressId sid s.nextSendSeq FLAG_DATA
        (some ((buf.drop written).take (chunkSize S (buf.length - written))))
        (st.setSession key { s with nextSendSeq := s.nextSendSeq + 1#32 })
      dsimp only at hok hgone
      rw [hseg] at hok hgone hselector
      rw [piecesFuel_drop S hlt, schedule] at hshots
      subst hshots
      rcases hout with ⟨e, rfl, hout⟩ | ⟨n, rfl, hout⟩
      · rw [hout]
        refine ⟨fun hall => ?_, fun _ => Bool.false_ne_true⟩
        exact absurd (hok.2 (hall _ List.mem_cons_self)) Bool.false_ne_true
      · rw [hout]
        obtain ⟨hclock, a, hsent, hlogged⟩ := hgone (hok.1 rfl)
        have hclock₁ : st₁.clock = st.clock + 1 := hclock
        have hselector₁ : st₁.selector =
            (st.selector.select S.sort (S.manager st.clock).liveChannels).2 := hselector rfl
        obtain ⟨hyes, hno⟩ := @ih (written + chunkSize S (buf.length - written))
          { s with nextSendSeq := s.nextSendSeq + 1#32 } st₁ (by omega) (by omega) _ rfl
        rw [hclock₁, hselector₁] at hyes hno
        refine ⟨fun hall => ?_, fun hsome => hno fun hall => hsome ?_⟩
        · obtain ⟨hresult, as, hsent', hlogged'⟩ := hyes (List.forall_mem_cons.1 hall).2
          refine ⟨hresult, a :: as, ?_, ?_⟩
          · rw [hsent', show st₁.sent = st.sent ++ [a] from hsent, List.append_assoc,
              List.singleton_append]
          · rw [List.map_cons, List.map_cons, hlogged, hlogged']
        · exact List.forall_mem_cons.2 ⟨hok.1 rfl, hall⟩
    · obtain rfl : written = buf.length := by omega
      rw [List.drop_length, piecesFuel_nil] at hshots
      subst hshots
      rw [sendChunks_done hlt]
      exact ⟨fun _ => ⟨rfl, [], (List.append_nil _).symm, rfl⟩,
        fun h => absurd (by simp [schedule]) h⟩

theorem map_payload_schedule (time : Nat) (sel : LinkSelector) (seq : ZceUint32)
    (ps : List (List ZceByte)) : (schedule S time sel seq ps).map Shot.payload = ps := by
  induction ps generalizing time sel seq with
  | nil => rfl
  | cons p ps ih => rw [schedule, List.map_cons, ih]

def sentBy (S : Setting σ) (sid : ZceUint32) (buf : List ZceByte) (ingressKey : ZceUint32)
    (st : StreamState σ) : List Attempt :=
  (sendSessionData S sid buf ingressKey st).2.sent.drop st.sent.length

def AllTaken (S : Setting σ) (sid : ZceUint32) (buf : List ZceByte) (ingressKey : ZceUint32)
    (st : StreamState σ) : Prop :=
  (sentBy S sid buf ingressKey st).map Attempt.payload = pieces S.config.segmentSize.toNat buf ∧
    ∀ a ∈ sentBy S sid buf ingressKey st, TakenWhole a.frame a.handed

/-- A return that is not negative is the length of the buffer and means that all of it was taken;
when some segment was not, the return is negative. -/
def SuccessMeansTaken (S : Setting σ) (sid : ZceUint32) (buf : List ZceByte) (ingressKey : ZceUint32)
    (st : StreamState σ) : Prop :=
  (∀ v, (sendSessionData S sid buf ingressKey st).1 = .ok v → 0 ≤ v →
      v = buf.length ∧ AllTaken S sid buf ingressKey st) ∧
    (¬ AllTaken S sid buf ingressKey st →
      ∀ v, (sendSessionData S sid buf ingressKey st).1 = .ok v → v < 0)

def shotsOf (S : Setting σ) (buf : List ZceByte) (s : SessionState) (st : StreamState σ) : List Shot :=
  schedule S st.clock st.selector s.nextSendSeq (pieces S.config.segmentSize.toNat buf)

theorem allTaken_iff {sid ingressKey : ZceUint32} {buf : List ZceByte} {s : SessionState}
    {st : StreamState σ} {as : List Attempt}
    (hsent : (sendSessionData S sid buf ingressKey st).2.sent = st.sent ++ as)
    (hlogged : as.map logged = (shotsOf S buf s st).map (Shot.logged S (s.wireIngressId, sid))) :
    AllTaken S sid buf ingressKey st ↔ ∀ q ∈ shotsOf S buf s st,
      TakenWhole (q.frame S (s.wireIngressId, sid)) (q.handed S (s.wireIngressId, sid)) := by
  have has : sentBy S sid buf ingressKey st = as := by rw [sentBy, hsent, List.drop_left]
  have hpayloads : as.map Attempt.payload = pieces S.config.segmentSize.toNat buf := by
    have h := congrArg (List.map Prod.fst) hlogged
    rw [List.map_map, List.map_map] at h
    exact h.trans (map_payload_schedule _ _ _ _)
  have htaken := List.forall_mem_map (f := logged) (l := as) (P := fun t => TakenWhole t.2.1 t.2.2)
  rw [hlogged, List.forall_mem_map] at htaken
  rw [AllTaken, has, and_iff_right hpayloads]
  exact htaken.symm

theorem successMeansTaken_of_fails {sid ingressKey : ZceUint32} {buf : List ZceByte}
    {st : StreamState σ}
    (h : ∀ v, (sendSessionData S sid buf ingressKey st).1 = .ok v → v < 0) :
    SuccessMeansTaken S sid buf ingressKey st :=
  ⟨fun v hv hpos => absurd hpos (not_le.2 (h v hv)), fun _ => h⟩

end DataStream

theorem intCast_neg {n : Nat} (hlow : 2 ^ 31 ≤ n) (hhigh : n < 2 ^ 32) : intCast n < 0 := by
  rw [intCast, BitVec.toInt_ofNat', Int.bmod_def]
  omega

/-- Nothing but the session, the length, the blocks and the live links decides what a call returns.
So it means what it says exactly if it fails on one of them, or each segment is taken by one of
the channels picked for it. -/
theorem success_means_taken_iff {S : Setting σ} {sid ingressKey : ZceUint32} {buf : List ZceByte}
    {st : StreamState σ} (hlen : buf.length < 2 ^ 32) :
    SuccessMeansTaken S sid buf ingressKey st ↔
      ∀ s, st.sessions (resolveIngressKey S ingressKey, sid) = some s → s.closed = false →
        buf.length < 2 ^ 31 → (∀ q ∈ shotsOf S buf s st, q.Sendable S) →
        ∀ q ∈ shotsOf S buf s st,
          TakenWhole (q.frame S (s.wireIngressId, sid)) (q.handed S (s.wireIngressId, sid)) := by
  cases hs : st.sessions (resolveIngressKey S ingressKey, sid) with
  | none =>
    have hfail : ∀ v, (sendSessionData S sid buf ingressKey st).1 = .ok v → v < 0 := by
      intro v hv
      simp only [sendSessionData, hs] at hv
      cases hv
    exact iff_of_true (successMeansTaken_of_fails hfail) fun s hsome => by cases hsome
  | some s =>
    have hall : (∀ s', some s = some s' → s'.closed = false → buf.length < 2 ^ 31 →
        (∀ q ∈ shotsOf S buf s' st, q.Sendable S) → ∀ q ∈ shotsOf S buf s' st,
          TakenWhole (q.frame S (s'.wireIngressId, sid)) (q.handed S (s'.wireIngressId, sid))) ↔
        (s.closed = false → buf.length < 2 ^ 31 → (∀ q ∈ shotsOf S buf s st, q.Sendable S) →
          ∀ q ∈ shotsOf S buf s st,
            TakenWhole (q.frame S (s.wireIngressId, sid)) (q.handed S (s.wireIngressId, sid))) :=
      ⟨fun h => h s rfl, fun h s' hs' => Option.some.inj hs' ▸ h⟩
    rw [hall]
    cases hclosed : s.closed with
    | true =>
      refine iff_of_true (successMeansTaken_of_fails fun v hv => ?_) fun hopen => by cases hopen
      simp only [sendSessionData, hs, hclosed, if_true] at hv
      cases hv
    | false =>
      have hsend : sendSessionData S sid buf ingressKey st =
          sendChunks S (resolveIngressKey S ingressKey, sid) sid buf buf.length 0 s st := by
        simp only [sendSessionData, hs, hclosed, Bool.false_eq_true, if_false]
      obtain ⟨hyes, hno⟩ := @sendChunks_schedule σ S (resolveIngressKey S ingressKey, sid) sid buf
        buf.length 0 s st (Nat.zero_le _) (Nat.sub_le _ _) (shotsOf S buf s st) rfl
      rw [← hsend] at hyes hno
      by_cases hsendable : ∀ q ∈ shotsOf S buf s st, q.Sendable S
      · obtain ⟨hresult, as, hsent, hlogged⟩ := hyes hsendable
        have htaken := allTaken_iff hsent hlogged
        by_cases hsmall : buf.length < 2 ^ 31
        · rw [intCast_of_lt hsmall] at hresult
          constructor
          · intro h _ _ _
            exact htaken.1 (h.1 _ hresult (Int.natCast_nonneg _)).2
          · intro h
            have hgone := htaken.2 (h rfl hsmall hsendable)
            refine ⟨fun v hv _ => ⟨?_, hgone⟩, fun hnot => absurd hgone hnot⟩
            rw [hresult] at hv
            exact (Except.ok.inj hv).symm
        · refine iff_of_true (successMeansTaken_of_fails fun v hv => ?_)
            fun _ h => absurd h hsmall
          rw [hresult] at hv
          rw [← Except.ok.inj hv]
          exact intCast_neg (not_lt.1 hsmall) hlen
      · refine iff_of_true (successMeansTaken_of_fails fun v hv => ?_)
          fun _ _ h => absurd h hsendable
        have h := hno hsendable
        rw [hv] at h
        exact absurd rfl h

def brokenSetting : Setting Unit :=
  { inportSetting with
    manager := fun _ => ⟨[{ upChannel 1 1#32 with sendBytes := fun _ => -1 }],
      List.pairwise_singleton _ _⟩ }

def openedSession (S : Setting Unit) : StreamState Unit :=
  (openSession S 1#32 none (StreamState.init ())).2

theorem sent_without_taking :
    (sendSessionData brokenSetting 1#32 [1#8, 2#8] kFgwWireIngressUseLocal
        (openedSession brokenSetting)).1 = .ok 2 ∧
      ¬ SuccessMeansTaken brokenSetting 1#32 [1#8, 2#8] kFgwWireIngressUseLocal
        (openedSession brokenSetting) := by
  have hresult : (sendSessionData brokenSetting 1#32 [1#8, 2#8] kFgwWireIngressUseLocal
      (openedSession brokenSetting)).1 = .ok 2 := by decide +kernel
  have hnone : ¬ ∀ a ∈ sentBy brokenSetting 1#32 [1#8, 2#8] kFgwWireIngressUseLocal
      (openedSession brokenSetting), TakenWhole a.frame a.handed := by decide +kernel
  exact ⟨hresult, fun h => hnone (h.1 2 hresult (by decide)).2.2⟩

theorem success_means_taken_up :
    SuccessMeansTaken inportSetting 1#32 [1#8, 2#8, 3#8] kFgwWireIngressUseLocal
      (openedSession inportSetting) := by
  refine (success_means_taken_iff (by decide)).2 fun s _ _ _ _ q _ => ?_
  have hlive : (inportSetting.manager q.time).liveChannels = [upChannel 1 1#32] := rfl
  have hne : (inportSetting.manager q.time).liveChannels ≠ [] := by rw [hlive]; simp
  obtain ⟨c, hc⟩ := List.exists_mem_of_ne_nil _
    (handedTo_ne_nil q.selector (q.frame inportSetting (s.wireIngressId, 1#32)) hne)
  obtain ⟨hmem, -, hanswer⟩ := mem_handedTo.1 hc
  rw [hlive, List.mem_singleton] at hmem
  rw [hmem] at hanswer
  exact ⟨c, hc, hanswer⟩

end Libfgw
