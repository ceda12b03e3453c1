import Libfgw.DataStream.Counted
import Libfgw.DataStream.Genuine
import Libfgw.Inport.Service

namespace Libfgw

open Lib DataStream

namespace FgwSession

/-- What becomes of a session that runs: it hears something, or it is open and sends, or it is open
and closes itself. -/
inductive Acts (s : FgwSession) : FgwSession → Prop
  | hears (w : List ZceByte) : Acts s { s with calls := [], written := s.written ++ w }
  | sends (buf : List ZceByte) (hopen : s.closed = false) :
    Acts s { s with
      calls := [.sendSessionData s.sessionId buf kFgwWireIngressUseLocal]
      received := s.received ++ buf }
  | closes (hopen : s.closed = false) :
    Acts s { s with
      calls := [.closeSession s.sessionId kFgwWireIngressUseLocal]
      closed := true
      clientTcp := false }

theorem Acts.idle (s : FgwSession) : Acts s { s with calls := [] } := by
  have h : Acts s { s with calls := [], written := s.written ++ [] } := .hears []
  rwa [List.append_nil] at h

theorem onClientBytes_acts (buf : List ZceByte) (s : FgwSession) :
    Acts s (onClientBytes buf { s with calls := [] }) := by
  unfold onClientBytes
  split
  · exact .idle s
  · rename_i hopen
    exact .sends buf (Bool.eq_false_of_not_eq_true hopen)

theorem close_acts (s : FgwSession) : Acts s (close { s with calls := [] }) := by
  unfold close
  split
  · exact .idle s
  · rename_i hopen
    exact .closes (Bool.eq_false_of_not_eq_true hopen)

theorem onClientBytes_written (buf : List ZceByte) (s : FgwSession) :
    (onClientBytes buf { s with calls := [] }).written = s.written := by
  unfold onClientBytes
  split <;> rfl

theorem close_written (s : FgwSession) : (close { s with calls := [] }).written = s.written := by
  unfold close
  split <;> rfl

theorem onClientBytes_clientTcp (buf : List ZceByte) {s : FgwSession}
    (h : s.clientTcp = !s.closed) : (onClientBytes buf { s with calls := [] }).clientTcp =
      !(onClientBytes buf { s with calls := [] }).closed := by
  unfold onClientBytes
  split
  · exact h
  · exact h

theorem close_clientTcp {s : FgwSession} (h : s.clientTcp = !s.closed) :
    (close { s with calls := [] }).clientTcp = !(close { s with calls := [] }).closed := by
  unfold close
  split
  · exact h
  · rfl

theorem close_closed (s : FgwSession) : (close { s with calls := [] }).closed = true := by
  unfold close
  split
  · assumption
  · rfl

theorem onSessionData_hears (acquires : Nat → Bool) (buf : List ZceByte) (s : FgwSession) :
    ∃ w, onSessionData acquires buf { s with calls := [] } =
      { s with calls := [], written := s.written ++ w } := by
  unfold onSessionData
  split
  · exact ⟨[], by rw [List.append_nil]⟩
  · split
    · exact ⟨[], by rw [List.append_nil]⟩
    · exact ⟨buf, rfl⟩

theorem onSessionData_acts (acquires : Nat → Bool) (buf : List ZceByte) (s : FgwSession) :
    Acts s (onSessionData acquires buf { s with calls := [] }) := by
  obtain ⟨w, hw⟩ := onSessionData_hears acquires buf s
  rw [hw]
  exact .hears w

theorem Acts.sessionId {s s' : FgwSession} (h : Acts s s') : s'.sessionId = s.sessionId := by
  cases h <;> rfl

theorem Acts.closed {s s' : FgwSession} (h : Acts s s') (hclosed : s.closed = true) :
    s'.closed = true := by
  cases h with
  | hears w => exact hclosed
  | sends buf hopen => exact hclosed
  | closes hopen => rfl

end FgwSession

namespace InportService

structure Wf (svc : InportService) : Prop where
  made : ∀ {handler s}, svc.clients handler = some s → handler < svc.made
  all : ∀ {handler}, handler < svc.made → ∃ s, svc.clients handler = some s
  sessionId : ∀ {handler s}, svc.clients handler = some s →
    s.sessionId = BitVec.ofNat 32 (handler + 1)
  next : svc.nextSessionId = BitVec.ofNat 32 (svc.made + 1)

def Registers (svc : InportService) : Prop :=
  ∀ sid handler, svc.sessions.find? sid = some handler ↔
    ∃ s, svc.clients handler = some s ∧ s.sessionId = sid ∧ s.closed = false

variable {svc : InportService} {handler : Handler} {s s' : FgwSession}

theorem Wf.init : Wf InportService.init := ⟨nofun, nofun, nofun, rfl⟩

theorem Registers.init : Registers InportService.init := by
  intro sid handler
  constructor
  · intro h
    cases h
  · rintro ⟨s, hs, -⟩
    cases hs

theorem start_tables (listen : Int) (svc : InportService) :
    (svc.start listen).2.clients = svc.clients ∧ (svc.start listen).2.made = svc.made ∧
      (svc.start listen).2.nextSessionId = svc.nextSessionId := by
  unfold start
  split
  · exact ⟨rfl, rfl, rfl⟩
  · split <;> exact ⟨rfl, rfl, rfl⟩

theorem settle_clients (svc : InportService) (handler : Handler) (s s' : FgwSession) :
    (svc.settle handler s s').clients = Function.update svc.clients handler (some s') := by
  unfold settle
  dsimp only
  split <;> rfl

theorem settle_made (svc : InportService) (handler : Handler) (s s' : FgwSession) :
    (svc.settle handler s s').made = svc.made := by
  unfold settle
  dsimp only
  split <;> rfl

theorem settle_nextSessionId (svc : InportService) (handler : Handler) (s s' : FgwSession) :
    (svc.settle handler s s').nextSessionId = svc.nextSessionId := by
  unfold settle
  dsimp only
  split <;> rfl

theorem settle_sessions (svc : InportService) (handler : Handler) (s s' : FgwSession)
    (sid : ZceUint32) : (svc.settle handler s s').sessions.find? sid =
      if (¬ s.closed = true ∧ s'.closed = true) ∧ sid = s.sessionId then none
      else svc.sessions.find? sid := by
  unfold settle
  dsimp only
  by_cases hcloses : ¬ s.closed = true ∧ s'.closed = true
  · rw [if_pos hcloses, removeSession, SortedMap.find?_erase]
    by_cases hsid : sid = s.sessionId
    · rw [if_pos hsid, if_pos ⟨hcloses, hsid⟩]
    · rw [if_neg hsid, if_neg fun h => hsid h.2]
  · rw [if_neg hcloses, if_neg fun h => hcloses h.1]

theorem settle_client {other : Handler} {t : FgwSession}
    (ht : (svc.settle handler s s').clients other = some t) :
    (other = handler ∧ t = s') ∨ (other ≠ handler ∧ svc.clients other = some t) := by
  rw [settle_clients, Function.update_apply] at ht
  split at ht
  · rename_i hother
    exact Or.inl ⟨hother, (Option.some.inj ht).symm⟩
  · rename_i hother
    exact Or.inr ⟨hother, ht⟩

theorem settle_client_of_ne {other : Handler} (hother : other ≠ handler) :
    (svc.settle handler s s').clients other = svc.clients other := by
  rw [settle_clients, Function.update_of_ne hother]

theorem settle_client_self : (svc.settle handler s s').clients handler = some s' := by
  rw [settle_clients, Function.update_self]

theorem Wf.settle (h : svc.Wf) (hs : svc.clients handler = some s)
    (hsid : s'.sessionId = s.sessionId) : (svc.settle handler s s').Wf where
  made {other t} ht := by
    rw [settle_made]
    rcases settle_client ht with ⟨rfl, -⟩ | ⟨-, hold⟩
    · exact h.made hs
    · exact h.made hold
  all {other} hlt := by
    rw [settle_made] at hlt
    by_cases hother : other = handler
    · exact ⟨s', by rw [hother, settle_client_self]⟩
    · rw [settle_client_of_ne hother]
      exact h.all hlt
  sessionId {other t} ht := by
    rcases settle_client ht with ⟨rfl, rfl⟩ | ⟨-, hold⟩
    · exact hsid.trans (h.sessionId hs)
    · exact h.sessionId hold
  next := by rw [settle_nextSessionId, settle_made, h.next]

theorem Registers.settle (h : svc.Registers) (hs : svc.clients handler = some s)
    (hsid : s'.sessionId = s.sessionId) (hstay : s.closed = true → s'.closed = true) :
    (svc.settle handler s s').Registers := by
  intro sid other
  rw [settle_sessions]
  constructor
  · intro hfind
    split at hfind
    · cases hfind
    rename_i hstays
    obtain ⟨t, ht, htsid, hopen⟩ := (h sid other).1 hfind
    by_cases hother : other = handler
    · subst hother
      obtain rfl := Option.some.inj (ht.symm.trans hs)
      refine ⟨s', settle_client_self, hsid.trans htsid, Bool.eq_false_of_not_eq_true fun hclosed => ?_⟩
      exact hstays ⟨⟨Bool.not_eq_true _ ▸ hopen, hclosed⟩, htsid.symm⟩
    · exact ⟨t, (settle_client_of_ne hother).trans ht, htsid, hopen⟩
  · rintro ⟨t, ht, htsid, hopen⟩
    rcases settle_client ht with ⟨rfl, rfl⟩ | ⟨hother, hold⟩
    · have hsopen : s.closed = false := Bool.eq_false_of_not_eq_true fun hclosed => by
        rw [hstay hclosed] at hopen
        cases hopen
      rw [if_neg fun hcloses => by rw [hopen] at hcloses; cases hcloses.1.2]
      exact (h sid other).2 ⟨s, hs, hsid.symm.trans htsid, hsopen⟩
    · have hfind := (h sid other).2 ⟨t, hold, htsid, hopen⟩
      rw [if_neg]
      · exact hfind
      · rintro ⟨⟨hsopen, -⟩, rfl⟩
        have hown := (h _ handler).2 ⟨s, hs, rfl, Bool.eq_false_of_not_eq_true hsopen⟩
        exact hother (Option.some.inj (hfind.symm.trans hown))

theorem Wf.handler_eq (h : svc.Wf) (hmade : svc.made ≤ 2 ^ 32) {other : Handler} {t : FgwSession}
    (hs : svc.clients handler = some s) (ht : svc.clients other = some t)
    (hsid : s.sessionId = t.sessionId) : handler = other := by
  have hlt := Nat.succ_le_of_lt (h.made hs)
  have hlt' := Nat.succ_le_of_lt (h.made ht)
  rw [h.sessionId hs, h.sessionId ht, ← BitVec.toNat_inj, BitVec.toNat_ofNat, BitVec.toNat_ofNat] at hsid
  exact Nat.succ.inj (by omega)

theorem attach_client {other : Handler} {t : FgwSession}
    (ht : svc.attach.2.2.clients other = some t) :
    (other = svc.made ∧ t = { sessionId := svc.nextSessionId }) ∨
      (other ≠ svc.made ∧ svc.clients other = some t) := by
  unfold attach allocateSessionId at ht
  dsimp only at ht
  rw [Function.update_apply] at ht
  split at ht
  · rename_i hother
    exact Or.inl ⟨hother, (Option.some.inj ht).symm⟩
  · rename_i hother
    exact Or.inr ⟨hother, ht⟩

theorem attach_client_of_ne {other : Handler} (hother : other ≠ svc.made) :
    svc.attach.2.2.clients other = svc.clients other := Function.update_of_ne hother _ _

theorem attach_client_self :
    svc.attach.2.2.clients svc.made = some { sessionId := svc.nextSessionId } :=
  Function.update_self _ _ _

theorem Wf.attach_client_of_some (h : svc.Wf) (hs : svc.clients handler = some s) :
    svc.attach.2.2.clients handler = some s :=
  (attach_client_of_ne (Nat.ne_of_lt (h.made hs))).trans hs

theorem Wf.attach (h : svc.Wf) : svc.attach.2.2.Wf where
  made {other t} ht := by
    rcases attach_client ht with ⟨rfl, -⟩ | ⟨-, hold⟩
    · exact Nat.lt_succ_self _
    · exact Nat.lt_succ_of_lt (h.made hold)
  all {other} hlt := by
    rcases Nat.lt_succ_iff_lt_or_eq.1 hlt with hold | rfl
    · obtain ⟨t, ht⟩ := h.all hold
      exact ⟨t, h.attach_client_of_some ht⟩
    · exact ⟨_, attach_client_self⟩
  sessionId {other t} ht := by
    rcases attach_client ht with ⟨rfl, rfl⟩ | ⟨-, hold⟩
    · exact h.next
    · exact h.sessionId hold
  next := by
    unfold InportService.attach allocateSessionId
    dsimp only
    rw [h.next]
    exact (BitVec.ofNat_add _ _).symm

theorem Wf.sessionId_ne_next (h : svc.Wf) (hmade : svc.made < 2 ^ 32)
    (hs : svc.clients handler = some s) : s.sessionId ≠ svc.nextSessionId := by
  have hlt := Nat.succ_le_of_lt (h.made hs)
  rw [h.sessionId hs, h.next, Ne, ← BitVec.toNat_inj, BitVec.toNat_ofNat, BitVec.toNat_ofNat]
  omega

theorem Registers.attach (h : svc.Registers) (hwf : svc.Wf) (hmade : svc.made < 2 ^ 32) :
    svc.attach.2.2.Registers := by
  intro sid other
  have hfind : svc.attach.2.2.sessions.find? sid =
      if sid = svc.nextSessionId then some svc.made else svc.sessions.find? sid :=
    SortedMap.find?_insert _ _ _ _
  rw [hfind]
  constructor
  · intro hreg
    split at hreg
    · rename_i hsid
      obtain rfl := Option.some.inj hreg
      exact ⟨_, attach_client_self, hsid.symm, rfl⟩
    · obtain ⟨t, ht, htsid, hopen⟩ := (h sid other).1 hreg
      exact ⟨t, hwf.attach_client_of_some ht, htsid, hopen⟩
  · rintro ⟨t, ht, htsid, hopen⟩
    rcases attach_client ht with ⟨rfl, rfl⟩ | ⟨-, hold⟩
    · exact if_pos htsid.symm
    · rw [if_neg fun hsid => hwf.sessionId_ne_next hmade hold (htsid.trans hsid)]
      exact (h sid other).2 ⟨t, hold, htsid, hopen⟩

theorem runClient_of_some {f : FgwSession → FgwSession} (hs : svc.clients handler = some s) :
    svc.runClient f handler =
      (svc.settle handler s (f { s with calls := [] }), (f { s with calls := [] }).calls) := by
  unfold runClient
  rw [hs]

theorem runClient_of_none {f : FgwSession → FgwSession} (hs : svc.clients handler = none) :
    svc.runClient f handler = (svc, []) := by
  unfold runClient
  rw [hs]

end InportService

end Libfgw
