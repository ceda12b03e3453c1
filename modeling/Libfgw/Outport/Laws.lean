import Libfgw.Outport.Chunks
import Libfgw.Outport.Service
import Libfgw.DataStream.SessionLaws

namespace Libfgw

open Lib

def Call.IsSend : Call → Prop
  | .sendSessionData _ _ _ => True
  | _ => False

namespace FgwRelaySession

/-- A relation between a relay and what becomes of it: it holds of a relay that sends, of one that
closes itself, and of what neither calls the stream nor closes the relay. -/
structure Steady (R : FgwRelaySession → FgwRelaySession → Prop) : Prop where
  quiet : ∀ {s s'}, s'.key = s.key → (s'.state = .closed ↔ s.state = .closed) → s'.calls = s.calls →
    R s s'
  trans : ∀ {s s' s''}, R s s' → R s' s'' → R s s''
  send : ∀ {s}, s.state ≠ .closed → ∀ buf, R s (s.sendToPeer buf)
  close : ∀ s, R s s.close

namespace Steady

variable {R : FgwRelaySession → FgwRelaySession → Prop} (hR : Steady R) (K : Sockets)
include hR

theorem refl (s : FgwRelaySession) : R s s := hR.quiet rfl Iff.rfl rfl

theorem startConnect (host : ZceAstring) (port : ZceUint16) {s : FgwRelaySession}
    (h : s.state ≠ .closed) : R s (startConnect K host port s) := by
  unfold FgwRelaySession.startConnect
  dsimp only
  split
  · refine hR.trans (hR.trans ?_ (hR.send ?_ _)) (hR.close _)
    · exact hR.quiet rfl Iff.rfl rfl
    · exact h
  · exact hR.quiet rfl Iff.rfl rfl

theorem tryParseMethods {s : FgwRelaySession} (h : s.state ≠ .closed) : R s (tryParseMethods s).2 := by
  unfold FgwRelaySession.tryParseMethods
  split
  · exact hR.refl s
  split
  · exact hR.close s
  dsimp only
  split
  · exact hR.refl s
  · have hread : R s { s with rxBuffer := s.rxBuffer.drop (2 + (byteAt s.rxBuffer 1).toNat) } :=
      hR.quiet rfl Iff.rfl rfl
    refine hR.trans hread (hR.trans (hR.send (by exact h) [SOCKS5_VER, 0x00#8]) ?_)
    exact hR.quiet rfl (iff_of_false RelayState.noConfusion (by exact h)) rfl

theorem takeRequest (need : Nat) (host : ZceAstring) (port : ZceUint16) {s : FgwRelaySession}
    (h : s.state ≠ .closed) : R s (takeRequest K need host port s).2 := by
  unfold FgwRelaySession.takeRequest
  split
  · exact hR.refl s
  dsimp only
  split
  · refine hR.trans (hR.trans ?_ (hR.send ?_ _)) (hR.close _)
    · exact hR.quiet rfl Iff.rfl rfl
    · exact h
  · have hconnecting : R s ({ s with rxBuffer := s.rxBuffer.drop need }.setState .connecting) :=
      hR.quiet rfl (iff_of_false RelayState.noConfusion h) rfl
    exact hR.trans hconnecting (hR.startConnect K host port RelayState.noConfusion)

theorem tryParseRequest {s : FgwRelaySession} (h : s.state ≠ .closed) :
    R s (tryParseRequest K s).2 := by
  unfold FgwRelaySession.tryParseRequest
  dsimp only
  split
  · exact hR.refl s
  split
  · exact hR.close s
  split
  · exact hR.takeRequest K _ _ _ h
  split
  · exact hR.takeRequest K _ _ _ h
  split
  · exact hR.takeRequest K _ _ _ h
  · exact hR.trans (hR.send h _) (hR.close _)

theorem flush (s : FgwRelaySession) : R s (flush K s) := by
  unfold FgwRelaySession.flush
  dsimp only
  split <;> exact hR.quiet rfl Iff.rfl rfl

theorem feedLoop (fuel : Nat) (s : FgwRelaySession) : R s (feedLoop K fuel s) := by
  induction fuel generalizing s with
  | zero => exact hR.refl s
  | succ fuel ih =>
    cases hs : s.state with
    | awaitMethods =>
      have hopen : s.state ≠ .closed := by rw [hs]; exact nofun
      rw [feedLoop_methods K hs]
      split
      · exact hR.tryParseMethods hopen
      · exact hR.trans (hR.tryParseMethods hopen) (ih _)
    | awaitRequest =>
      rw [feedLoop_request K hs]
      exact hR.tryParseRequest K (by rw [hs]; exact nofun)
    | connecting =>
      rw [feedLoop_idle K (Or.inl hs)]
      exact hR.refl s
    | relaying =>
      rw [feedLoop_relaying K hs]
      exact hR.flush K s
    | closed =>
      rw [feedLoop_idle K (Or.inr hs)]
      exact hR.refl s

theorem onSessionData (buf : List ZceByte) (s : FgwRelaySession) : R s (onSessionData K buf s) := by
  have hmore : R s (s.more buf) := hR.quiet rfl Iff.rfl rfl
  exact hR.trans hmore (hR.feedLoop K 3 (s.more buf))

theorem onRemoteOpen {s : FgwRelaySession} (h : s.state ≠ .closed) : R s (onRemoteOpen K s) := by
  have hrelaying : R s ((s.writeReply SOCKS5_REP_OK).setState .relaying) :=
    hR.trans (hR.send h _) (hR.quiet rfl (iff_of_false RelayState.noConfusion (by exact h)) rfl)
  exact hR.trans hrelaying (hR.flush K _)

end Steady

def Follows (s s' : FgwRelaySession) : Prop :=
  s'.key = s.key ∧
    (s.state = .closed ∧ s'.state = .closed ∧ s'.calls = s.calls ∨
      s.state ≠ .closed ∧ ∃ sends : List Call, (∀ c ∈ sends, c.IsSend) ∧
        (s'.state ≠ .closed ∧ s'.calls = s.calls ++ sends ∨
          s'.state = .closed ∧
            s'.calls = s.calls ++ sends ++ [.closeSession s.sessionId s.peerIngressId]))

namespace Follows

theorem refl (s : FgwRelaySession) : Follows s s := by
  by_cases h : s.state = .closed
  · exact ⟨rfl, Or.inl ⟨h, h, rfl⟩⟩
  · exact ⟨rfl, Or.inr ⟨h, [], nofun, Or.inl ⟨h, (List.append_nil _).symm⟩⟩⟩

theorem trans {s s' s'' : FgwRelaySession} (h : Follows s s') (h' : Follows s' s'') :
    Follows s s'' := by
  obtain ⟨hkey, h⟩ := h
  obtain ⟨hkey', h'⟩ := h'
  have hids := Prod.mk.inj (show (s'.peerIngressId, s'.sessionId) = (s.peerIngressId, s.sessionId) from hkey)
  refine ⟨hkey'.trans hkey, ?_⟩
  rcases h with ⟨hs, hs', hcalls⟩ | ⟨hs, sends, hsends, ⟨hs', hcalls⟩ | ⟨hs', hcalls⟩⟩
  · rcases h' with ⟨-, hs'', hcalls'⟩ | ⟨hopen, -⟩
    · exact Or.inl ⟨hs, hs'', hcalls'.trans hcalls⟩
    · exact absurd hs' hopen
  · rcases h' with ⟨hclosed, -⟩ | ⟨-, sends', hsends', hend⟩
    · exact absurd hclosed hs'
    · refine Or.inr ⟨hs, sends ++ sends', List.forall_mem_append.2 ⟨hsends, hsends'⟩, ?_⟩
      rw [hcalls, hids.1, hids.2] at hend
      simpa only [List.append_assoc] using hend
  · rcases h' with ⟨-, hs'', hcalls'⟩ | ⟨hopen, -⟩
    · exact Or.inr ⟨hs, sends, hsends, Or.inr ⟨hs'', hcalls'.trans hcalls⟩⟩
    · exact absurd hs' hopen

theorem of_calls {s s' : FgwRelaySession} (hkey : s'.key = s.key)
    (hstate : s'.state = .closed ↔ s.state = .closed) (hcalls : s'.calls = s.calls) : Follows s s' := by
  by_cases hopen : s.state = .closed
  · exact ⟨hkey, Or.inl ⟨hopen, hstate.2 hopen, hcalls⟩⟩
  · exact ⟨hkey, Or.inr ⟨hopen, [], nofun, Or.inl ⟨mt hstate.1 hopen, by rw [hcalls, List.append_nil]⟩⟩⟩

theorem sendToPeer {s : FgwRelaySession} (h : s.state ≠ .closed) (buf : List ZceByte) :
    Follows s (s.sendToPeer buf) :=
  ⟨rfl, Or.inr ⟨h, [s.toPeer buf], List.forall_mem_singleton.2 trivial, Or.inl ⟨h, rfl⟩⟩⟩

theorem close (s : FgwRelaySession) : Follows s s.close := by
  unfold FgwRelaySession.close
  split
  · exact refl s
  · rename_i h
    exact ⟨rfl, Or.inr ⟨h, [], nofun, Or.inr ⟨rfl, by rw [List.append_nil]; rfl⟩⟩⟩

theorem steady : Steady Follows := ⟨of_calls, trans, sendToPeer, close⟩

theorem onSessionData (K : Sockets) (buf : List ZceByte) (s : FgwRelaySession) :
    Follows s (onSessionData K buf s) := steady.onSessionData K buf s

theorem onRemoteOpen (K : Sockets) {s : FgwRelaySession} (h : s.state ≠ .closed) :
    Follows s (onRemoteOpen K s) := steady.onRemoteOpen K h

end Follows

end FgwRelaySession

end Libfgw
