import Libfgw.DataStream.Sending

namespace Libfgw

open FgwSegmentHeader Lib DataStream

variable {σ : Type}

def note (key : SessionKey) (as : List Attempt) (a : Attempt) : List Attempt :=
  if a.key = key then if a.flags = FLAG_SYN then [] else as ++ [a] else as

def incarnation (key : SessionKey) (sent : List Attempt) : List Attempt := sent.foldl (note key) []

theorem incarnation_append (key : SessionKey) (sent as : List Attempt) :
    incarnation key (sent ++ as) = as.foldl (note key) (incarnation key sent) := List.foldl_append

theorem foldl_note_other {key : SessionKey} {as : List Attempt} (h : ∀ a ∈ as, a.key ≠ key)
    (acc : List Attempt) : as.foldl (note key) acc = acc := by
  induction as generalizing acc with
  | nil => rfl
  | cons a as ih =>
    obtain ⟨ha, has⟩ := List.forall_mem_cons.1 h
    rw [List.foldl_cons, note, if_neg ha]
    exact ih has acc

theorem foldl_note_own {key : SessionKey} {as : List Attempt}
    (h : ∀ a ∈ as, a.key = key ∧ a.flags ≠ FLAG_SYN) (acc : List Attempt) :
    as.foldl (note key) acc = acc ++ as := by
  induction as generalizing acc with
  | nil => exact (List.append_nil acc).symm
  | cons a as ih =>
    obtain ⟨⟨hkey, hflags⟩, has⟩ := List.forall_mem_cons.1 h
    rw [List.foldl_cons, note, if_pos hkey, if_neg hflags, ih has, List.append_assoc,
      List.singleton_append]

def CountsUp (as : List Attempt) : Prop :=
  as.map Attempt.seq = (List.range as.length).map (BitVec.ofNat 32)

/-- A session's segments count up from 0, sent or not, and the session knows the next number. -/
structure Numbered (S : Setting σ) (key : SessionKey) (st : StreamState σ) : Prop where
  countsUp : CountsUp (incarnation key st.sent)
  faithful : ∀ a ∈ incarnation key st.sent, Faithful S a
  session : ∀ s, st.sessions key = some s → s.wireIngressId = key.1 ∧ s.closed = false ∧
    s.nextSendSeq = BitVec.ofNat 32 (incarnation key st.sent).length

section Steps

variable {S : Setting σ} {key : SessionKey} {st st' : StreamState σ}

theorem numbered_init (S : Setting σ) (key : SessionKey) (owner : σ) (selector : LinkSelector) :
    Numbered S key (StreamState.init owner selector) :=
  ⟨rfl, fun _ ha => absurd ha List.not_mem_nil, fun _ hs => absurd hs (by simp [StreamState.init])⟩

theorem Numbered.other {as : List Attempt} (h : Numbered S key st)
    (hsent : st'.sent = st.sent ++ as) (hother : ∀ a ∈ as, a.key ≠ key)
    (hsession : st'.sessions key = st.sessions key) : Numbered S key st' := by
  have hinc : incarnation key st'.sent = incarnation key st.sent := by
    rw [hsent, incarnation_append, foldl_note_other hother]
  refine ⟨?_, ?_, ?_⟩
  · rw [hinc]
    exact h.countsUp
  · rw [hinc]
    exact h.faithful
  · rw [hinc, hsession]
    exact h.session

theorem Numbered.opened {a : Attempt} {s : SessionState} (hsent : st'.sent = st.sent ++ [a])
    (hkey : a.key = key) (hflags : a.flags = FLAG_SYN) (hs : st'.sessions key = some s)
    (hwire : s.wireIngressId = key.1) (hopen : s.closed = false) (hseq : s.nextSendSeq = 0#32) :
    Numbered S key st' := by
  have hinc : incarnation key st'.sent = [] := by
    rw [hsent, incarnation_append, List.foldl_cons, List.foldl_nil, note, if_pos hkey,
      if_pos hflags]
  refine ⟨?_, ?_, ?_⟩
  · rw [hinc]
    rfl
  · rw [hinc]
    exact fun _ ha => absurd ha List.not_mem_nil
  · intro s' hs'
    rw [hs] at hs'
    obtain rfl := Option.some.inj hs'
    rw [hinc]
    exact ⟨hwire, hopen, hseq⟩

theorem Numbered.extend {s : SessionState} {as : List Attempt} {flags : ZceByte}
    {payloads : List (List ZceByte)} (h : Numbered S key st) (hs : st.sessions key = some s)
    (hcons : Consecutive S key flags s.nextSendSeq payloads as) (hflags : flags ≠ FLAG_SYN)
    (hsent : st'.sent = st.sent ++ as)
    (hsession : ∀ s', st'.sessions key = some s' →
      s' = { s with nextSendSeq := s.nextSendSeq + BitVec.ofNat 32 as.length }) :
    Numbered S key st' := by
  obtain ⟨hwire, hopen, hseq⟩ := h.session s hs
  have hinc : incarnation key st'.sent = incarnation key st.sent ++ as := by
    rw [hsent, incarnation_append, foldl_note_own]
    intro a ha
    exact ⟨hcons.key_eq a ha, by rw [hcons.flags_eq a ha]; exact hflags⟩
  refine ⟨?_, ?_, ?_⟩
  · rw [CountsUp, hinc, List.map_append, h.countsUp, hcons.seqs, List.length_append,
      List.range_add, List.map_append, List.map_map, hseq]
    congr 1
    apply List.map_congr_left
    intro j _
    exact (BitVec.ofNat_add _ _).symm
  · rw [hinc]
    exact List.forall_mem_append.2 ⟨h.faithful, hcons.faithful⟩
  · intro s' hs'
    rw [hsession s' hs', hinc, List.length_append, BitVec.ofNat_add, ← hseq]
    exact ⟨hwire, hopen, rfl⟩

theorem openSession_numbered (h : Numbered S key st) (sid : ZceUint32) (handler : Option Handler) :
    Numbered S key (openSession S sid handler st).2 := by
  cases hnew : st.sessions (S.config.localIngressId, sid) with
  | some s =>
    have hbusy : (openSession S sid handler st).2 = st := by simp [openSession, hnew]
    rw [hbusy]
    exact h
  | none =>
    obtain ⟨a, -, hkey, hflags, -, -, hsent, hsessions⟩ := @openSession_spec σ S sid handler st hnew
    by_cases hown : (S.config.localIngressId, sid) = key
    · subst hown
      exact Numbered.opened hsent hkey hflags
        ((congrFun hsessions _).trans (Function.update_self _ _ _)) rfl rfl rfl
    · refine h.other hsent ?_ ((congrFun hsessions key).trans (Function.update_of_ne (Ne.symm hown) _ _))
      intro b hb
      rw [List.mem_singleton.1 hb, hkey]
      exact hown

theorem closeSession_numbered (h : ∀ key, Numbered S key st) (sid ingressKey : ZceUint32) :
    Numbered S key (closeSession S sid ingressKey st) := by
  cases hs : st.sessions (resolveIngressKey S ingressKey, sid) with
  | none =>
    have hstay : closeSession S sid ingressKey st = st := by simp only [closeSession, hs]
    rw [hstay]
    exact h key
  | some s =>
    obtain ⟨hwire, hopen, -⟩ := (h _).session s hs
    obtain ⟨a, ha, hkey, hflags, hseq, hpayload, hsent, hsessions⟩ :=
      closeSession_spec rfl hs hwire hopen
    by_cases hown : (resolveIngressKey S ingressKey, sid) = key
    · subst hown
      refine (h _).extend hs (Consecutive.single ha hkey hflags hseq hpayload fun _ => rfl)
        (by decide) hsent fun s' hs' => ?_
      rw [hsessions, Function.update_self] at hs'
      exact absurd hs' (by simp)
    · refine (h key).other hsent ?_
        ((congrFun hsessions key).trans (Function.update_of_ne (Ne.symm hown) _ _))
      intro b hb
      rw [List.mem_singleton.1 hb, hkey]
      exact hown

theorem sendSessionData_numbered (h : ∀ key, Numbered S key st) (sid : ZceUint32)
    (buf : List ZceByte) (ingressKey : ZceUint32) :
    Numbered S key (sendSessionData S sid buf ingressKey st).2 := by
  cases hs : st.sessions (resolveIngressKey S ingressKey, sid) with
  | none =>
    have hstay : (sendSessionData S sid buf ingressKey st).2 = st := by
      simp only [sendSessionData, hs]
    rw [hstay]
    exact h key
  | some s =>
    obtain ⟨hwire, hopen, -⟩ := (h _).session s hs
    obtain ⟨as, hcons, hsent, hsessions, -⟩ :=
      sendSessionData_spec rfl buf hs hwire hopen
    by_cases hown : (resolveIngressKey S ingressKey, sid) = key
    · subst hown
      refine (h _).extend hs hcons (by decide) hsent fun s' hs' => ?_
      rw [hsessions, Function.update_self] at hs'
      exact (Option.some.inj hs').symm
    · refine (h key).other hsent ?_
        ((congrFun hsessions key).trans (Function.update_of_ne (Ne.symm hown) _ _))
      intro b hb
      rw [hcons.key_eq b hb]
      exact hown

theorem call_numbered (h : ∀ key, Numbered S key st) (c : Call) : Numbered S key (call S st c) := by
  cases c with
  | openSession sid handler => exact openSession_numbered (h key) sid handler
  | closeSession sid ingressKey => exact closeSession_numbered h sid ingressKey
  | sendSessionData sid buf ingressKey => exact sendSessionData_numbered h sid buf ingressKey

theorem calls_numbered (h : ∀ key, Numbered S key st) (cs : List Call) :
    Numbered S key (cs.foldl (call S) st) := by
  induction cs generalizing st with
  | nil => exact h key
  | cons c cs ih => exact ih fun key => call_numbered h c

end Steps

def goneOut (as : List Attempt) : List Attempt := as.filter fun a => a.result.isOk

def failed (as : List Attempt) : List Attempt := as.filter fun a => !a.result.isOk

theorem length_goneOut_add_failed (as : List Attempt) :
    as.length = (goneOut as).length + (failed as).length := List.length_eq_length_filter_add _

theorem ofNat_add_eq_iff (a b : Nat) :
    BitVec.ofNat 32 (a + b) = BitVec.ofNat 32 a ↔ 2 ^ 32 ∣ b := by
  rw [← BitVec.toNat_inj, BitVec.toNat_ofNat, BitVec.toNat_ofNat]
  omega

theorem CountsUp.concat {as : List Attempt} {a : Attempt} (h : CountsUp (as ++ [a])) :
    CountsUp as ∧ a.seq = BitVec.ofNat 32 as.length := by
  rw [CountsUp, List.map_append, List.length_append, List.length_singleton, List.range_succ,
    List.map_append] at h
  obtain ⟨has, ha⟩ := List.append_inj' h rfl
  exact ⟨has, List.singleton_inj.1 ha⟩

theorem countsUp_concat_iff {as : List Attempt} {a : Attempt} :
    CountsUp (as ++ [a]) ↔ CountsUp as ∧ a.seq = BitVec.ofNat 32 as.length := by
  refine ⟨CountsUp.concat, ?_⟩
  rintro ⟨has, ha⟩
  rw [CountsUp, List.map_append, List.length_append, List.length_singleton, List.range_succ,
    List.map_append, has, List.map_singleton, List.map_singleton, ha]

theorem countsUp_goneOut_iff {as : List Attempt} (h : CountsUp as) :
    CountsUp (goneOut as) ↔ ∀ pre a post, as = pre ++ a :: post → a.result.isOk →
      2 ^ 32 ∣ (failed pre).length := by
  induction as using List.reverseRecOn with
  | nil => exact iff_of_true rfl fun pre a post heq => absurd heq (by simp)
  | append_singleton as a ih =>
    obtain ⟨has, hseq⟩ := h.concat
    have hsplit : (∀ pre b post, as ++ [a] = pre ++ b :: post → b.result.isOk →
        2 ^ 32 ∣ (failed pre).length) ↔
      (∀ pre b post, as = pre ++ b :: post → b.result.isOk → 2 ^ 32 ∣ (failed pre).length) ∧
        (a.result.isOk → 2 ^ 32 ∣ (failed as).length) := by
      constructor
      · intro hall
        exact ⟨fun pre b post heq => hall pre b (post ++ [a]) (by simp [heq]), hall as a [] rfl⟩
      · rintro ⟨hold, hlast⟩ pre b post heq
        rcases List.eq_nil_or_concat post with rfl | ⟨post', c, rfl⟩
        · obtain ⟨rfl, hb⟩ := List.append_inj' heq rfl
          rw [← List.singleton_inj.1 hb]
          exact hlast
        · rw [List.concat_eq_append, ← List.cons_append, ← List.append_assoc] at heq
          exact hold pre b post' (List.append_inj' heq rfl).1
    rw [hsplit, ← ih has]
    cases hok : a.result.isOk with
    | false =>
      have hgone : goneOut (as ++ [a]) = goneOut as := by simp [goneOut, hok]
      rw [hgone]
      simp
    | true =>
      have hgone : goneOut (as ++ [a]) = goneOut as ++ [a] := by simp [goneOut, hok]
      rw [hgone, countsUp_concat_iff, hseq, length_goneOut_add_failed, ofNat_add_eq_iff]
      simp

/-- In every run of calls, whatever the links do: the segments of a session that went out
count up from 0 exactly as long as none that can be sent follows one that cannot. -/
theorem goneOut_countsUp_iff (S : Setting σ) (cs : List Call) (owner : σ) (selector : LinkSelector)
    (key : SessionKey) :
    let as := incarnation key (cs.foldl (call S) (StreamState.init owner selector)).sent
    CountsUp (goneOut as) ↔ ∀ pre a post, as = pre ++ a :: post →
      Sendable S a.time a.payload.length →
      2 ^ 32 ∣ (pre.filter fun b => ¬ Sendable S b.time b.payload.length).length := by
  intro as
  have hnum : Numbered S key (cs.foldl (call S) (StreamState.init owner selector)) :=
    calls_numbered (fun key => numbered_init S key owner selector) cs
  rw [countsUp_goneOut_iff hnum.countsUp]
  refine forall_congr' fun pre => forall_congr' fun a => forall_congr' fun post =>
    forall_congr' fun heq => ?_
  have hfaithful : ∀ b ∈ pre ++ a :: post, Faithful S b := heq ▸ hnum.faithful
  have hfailed : failed pre = pre.filter fun b => ¬ Sendable S b.time b.payload.length := by
    refine List.filter_congr fun b hb => ?_
    rw [decide_not]
    refine congrArg not (Bool.eq_iff_iff.2 ?_)
    rw [decide_eq_true_iff]
    exact (hfaithful b (List.mem_append_left _ hb)).ok_iff
  rw [(hfaithful a (by simp)).ok_iff, hfailed]

def flakySetting : Setting Unit :=
  { Setting.quiet (StreamConfig.make 7#32 2#16 4#16 true 0#32) .empty
      (ZdsCodec.known [] []) with
    manager := fun time =>
      ⟨[{ ref := 1, channelId := 1#32, connected := decide (time ≠ 1), sendBytes := fun f => f.length }],
        List.pairwise_singleton _ _⟩ }

theorem goneOut_skips_number :
    ¬ ∀ (S : Setting Unit) (cs : List Call) (key : SessionKey),
      CountsUp (goneOut (incarnation key (cs.foldl (call S) (StreamState.init ())).sent)) := by
  intro hclaim
  have h := hclaim flakySetting
    [.openSession 1#32 none, .sendSessionData 1#32 [1#8] kFgwWireIngressUseLocal,
      .sendSessionData 1#32 [2#8] kFgwWireIngressUseLocal] (7#32, 1#32)
  revert h
  unfold CountsUp
  decide +kernel

end Libfgw
