import Libfgw.Outport.Speech

namespace Libfgw

open Lib DataStream

namespace FgwRelaySession

variable {K : Sockets}

def Drained (s : FgwRelaySession) : Prop := s.state = .relaying → s.rxBuffer = []

theorem Drained.of_state {s : FgwRelaySession} {state : RelayState} (hs : s.state = state)
    (hstate : state ≠ .relaying) : s.Drained :=
  fun hrelays => absurd (hs.symm.trans hrelays) hstate

theorem Drained.close {s : FgwRelaySession} : s.close.Drained :=
  .of_state (close_state s) (by decide)

theorem flush_rxBuffer (s : FgwRelaySession) : (flush K s).rxBuffer = [] := by
  unfold flush
  dsimp only
  split <;> rfl

theorem feedLoop_drained (s : FgwRelaySession) : (feedLoop K 3 s).Drained := by
  have hrequest : ∀ {t : FgwRelaySession} (n : Nat), t.state = .awaitRequest →
      (feedLoop K (n + 1) t).Drained := by
    intro t n ht
    rw [feedLoop_request K ht]
    rcases tryParseRequest_settles K t with hwait | ⟨⟨-, hclosed⟩ | ⟨-, hnext | hclosed⟩, -⟩
    · exact .of_state ((congrArg (fun r => r.2.state) hwait).trans ht) (by decide)
    · exact .of_state hclosed (by decide)
    · exact .of_state hnext (by decide)
    · exact .of_state hclosed (by decide)
  cases hs : s.state with
  | awaitMethods =>
    rw [feedLoop_methods K hs]
    rcases tryParseMethods_settles s with hwait | ⟨⟨hneg, hclosed⟩ | ⟨hpos, hnext | hclosed⟩, -⟩
    · rw [hwait, if_pos (le_refl 0)]
      exact .of_state hs (by decide)
    · rw [if_pos hneg.le]
      exact .of_state hclosed (by decide)
    · rw [if_neg (not_le.2 hpos)]
      exact hrequest 1 hnext
    · rw [if_neg (not_le.2 hpos), feedLoop_idle K (Or.inr hclosed)]
      exact .of_state hclosed (by decide)
  | awaitRequest => exact hrequest 2 hs
  | connecting =>
    rw [feedLoop_idle K (Or.inl hs)]
    exact .of_state hs (by decide)
  | relaying =>
    rw [feedLoop_relaying K hs]
    exact fun _ => flush_rxBuffer s
  | closed =>
    rw [feedLoop_idle K (Or.inr hs)]
    exact .of_state hs (by decide)

end FgwRelaySession

namespace OutportService

open FgwRelaySession

variable {K : Sockets} {S : Setting OutportService} {svc : OutportService} {handler : Handler}

def Drained (svc : OutportService) : Prop :=
  ∀ handler s, svc.relays handler = some s → s.Drained

theorem Drained.ensureSession (h : svc.Drained) (key : SessionKey) :
    (svc.ensureSession key).1.Drained := by
  unfold OutportService.ensureSession
  split
  · exact h
  · intro handler s hs
    dsimp only at hs
    rw [Function.update_apply] at hs
    split at hs
    · obtain rfl := Option.some.inj hs
      exact fun _ => rfl
    · exact h handler s hs

theorem Drained.runRelay (h : svc.Drained) {f : FgwRelaySession → FgwRelaySession}
    (hf : ∀ s : FgwRelaySession, s.Drained → (f s).Drained) (handler : Handler) :
    (svc.runRelay f handler).1.Drained := by
  cases hs : svc.relays handler with
  | none =>
    unfold OutportService.runRelay
    rw [hs]
    exact h
  | some s =>
    rw [runRelay_of_some hs]
    intro other t ht
    rcases settle_relay ht with ⟨-, rfl⟩ | ⟨-, hold⟩
    · exact hf _ (h handler s hs)
    · exact h other t hold

theorem Drained.onEvent (h : svc.Drained) (e : Event) : (onEvent K svc e).1.Drained := by
  cases e with
  | unknownSession key named => exact h
  | sessionOpen key handler sid => exact h
  | sessionData key handler sid buf => exact h.runRelay (fun _ _ => feedLoop_drained _) handler
  | sessionClose key handler sid => exact h.runRelay (fun _ _ => .close) handler

theorem Drained.step {ds : DataStream OutportService} (h : ds.owner.Drained) (op : Op) :
    (step K S ds op).owner.Drained := by
  have hdrive : ∀ {f : FgwRelaySession → FgwRelaySession} (handler : Handler),
      (∀ s : FgwRelaySession, s.Drained → (f s).Drained) →
        (OutportService.drive K S f handler ds.toStreamState).owner.Drained := by
    intro f handler hf
    unfold OutportService.drive
    rw [(calls_sendsOnly _ _ _).owner]
    exact h.runRelay hf handler
  cases op with
  | onChannelBytes ch buf =>
    rw [show (OutportService.step K S ds (.onChannelBytes ch buf)).owner = _ from
      congrArg StreamState.owner (onChannelBytes_frames (setting K S) ch buf ds)]
    refine owner_frames (P := Drained) ?_ (fun _ e hsvc => hsvc.onEvent e) ch _ h
    intro cb hcb svc key hsvc
    obtain rfl := Option.some.inj hcb
    exact hsvc.ensureSession key
  | onRemoteOpen handler =>
    simp only [OutportService.step]
    split
    · exact hdrive handler fun s _ _ => flush_rxBuffer _
    · exact h
  | onRemoteBytes handler buf =>
    simp only [OutportService.step]
    split
    · exact hdrive handler fun s hs hrelays => hs hrelays
    · exact h
  | onRemoteClose handler =>
    simp only [OutportService.step]
    split
    · exact hdrive handler fun _ _ => .close
    · exact h
  | emitFeedback =>
    rw [show (OutportService.step K S ds .emitFeedback).owner = ds.owner from
      (emitFeedback_judgesOnly (setting K S) ds.toStreamState).owner]
    exact h
  | selector selector => exact h

end OutportService

end Libfgw
