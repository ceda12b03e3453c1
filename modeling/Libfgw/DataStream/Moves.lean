import Mathlib.Logic.Relation
import Libfgw.DataStream.HandOut

namespace Libfgw

open FgwSegmentHeader Lib

namespace DataStream

variable {σ : Type} (S : Setting σ)

/-- One thing that handling a segment of a session does, where `data` are the numbered payloads that
the segment brings. -/
inductive Move (key : SessionKey) (data : ZceUint32 → List ZceByte → Prop) :
    StreamState σ → StreamState σ → Prop
  | judged {st st' : StreamState σ} (h : JudgesOnly st st') : Move key data st st'
  | recorded {st : StreamState σ} (dk : DedupKey) :
    Move key data st { st with dedup := st.dedup.record kDedupRing dk }
  | created {st : StreamState σ} (hnone : st.sessions key = none) :
    Move key data st (createSession S key st)
  | opened {st : StreamState σ} {s : SessionState} {handler : Handler}
    (hs : st.sessions key = some s) (hhandler : s.handler = some handler) :
    Move key data st (notify S (.sessionOpen key handler key.2) st)
  | closed {st : StreamState σ} {s : SessionState} {handler : Handler}
    (hs : st.sessions key = some s) (hhandler : s.handler = some handler) :
    Move key data st ((notify S (.sessionClose key handler key.2) st).eraseSession key)
  | dropped {st : StreamState σ} {s : SessionState}
    (hs : st.sessions key = some s) (hhandler : s.handler = none) :
    Move key data st (st.eraseSession key)
  | kept {st : StreamState σ} {s : SessionState} {buffer : SortedMap ZceUint32 (List ZceByte)}
    (hs : st.sessions key = some s)
    (hbuffer : ∀ seq p, buffer.find? seq = some p → s.rxBuffer.find? seq = some p ∨ data seq p) :
    Move key data st
      ({ st with clock := st.clock + 1 }.setSession key { s with rxBuffer := buffer })
  | delivered {st : StreamState σ} {s : SessionState} {handler : Handler}
    (hs : st.sessions key = some s) (hhandler : s.handler = some handler) :
    Move key data st (handOut S key handler s.sessionId (collectReady s.rxBuffer.size s).1
      (st.setSession key (collectReady s.rxBuffer.size s).2))

abbrev Moves (key : SessionKey) (data : ZceUint32 → List ZceByte → Prop) :
    StreamState σ → StreamState σ → Prop := Relation.ReflTransGen (Move S key data)

variable {S} {key : SessionKey} {data : ZceUint32 → List ZceByte → Prop}

theorem ensureSession_moves (st : StreamState σ) : Moves S key data st (ensureSession S key st) := by
  unfold ensureSession
  split
  · exact .refl
  · rename_i hnone
    exact .single (.created (Option.not_isSome_iff_eq_none.1 hnone))

theorem onSyn_moves (st : StreamState σ) : Moves S key data st (onSyn S key st) := by
  have hensured : Moves S key data st (ensureSession S key st) := ensureSession_moves st
  unfold onSyn
  dsimp only
  split
  · exact hensured
  · rename_i handler hbind
    obtain ⟨s, hs, hhandler⟩ := Option.bind_eq_some_iff.1 hbind
    exact hensured.tail (.opened hs hhandler)

theorem onFin_moves (st : StreamState σ) : Moves S key data st (onFin S key st) := by
  unfold onFin
  split
  · exact .refl
  · rename_i s hs
    split
    · rename_i hnone
      exact .single (.dropped hs hnone)
    · rename_i handler hhandler
      exact .single (.closed hs hhandler)

theorem deliverInOrder_moves {s : SessionState} {st : StreamState σ} (hs : st.sessions key = some s) :
    Moves S key data st (deliverInOrder S key s st) := by
  unfold deliverInOrder
  split
  · exact .refl
  · rename_i handler hhandler
    exact .single (.delivered hs hhandler)

theorem onData_moves {seq : ZceUint32} {payload : List ZceByte} (hdata : data seq payload)
    (st : StreamState σ) : Moves S key data st (onData S key seq payload st) := by
  have hensured : Moves S key data st (ensureSession S key st) := ensureSession_moves st
  unfold onData
  dsimp only
  split
  · exact hensured
  rename_i s hs
  have hkept : ∀ buffer : SortedMap ZceUint32 (List ZceByte),
      (∀ k p, buffer.find? k = some p → s.rxBuffer.find? k = some p ∨ data k p) →
      Moves S key data st (deliverInOrder S key { s with rxBuffer := buffer }
        ({ ensureSession S key st with clock := (ensureSession S key st).clock + 1 }.setSession key
          { s with rxBuffer := buffer })) := fun buffer hbuffer =>
    (hensured.tail (.kept hs hbuffer)).trans (deliverInOrder_moves (Function.update_self _ _ _))
  split
  · refine hkept _ fun k p hp => ?_
    rw [SortedMap.find?_emplace] at hp
    split at hp
    · rename_i hk
      rw [hk]
      cases hold : s.rxBuffer.find? seq with
      | none =>
        rw [hold, Option.getD_none] at hp
        exact Or.inr (Option.some.inj hp ▸ hdata)
      | some q =>
        rw [hold, Option.getD_some] at hp
        exact Or.inl hp
    · exact Or.inl hp
  · exact hkept _ fun k p hp => Or.inl hp

def Carried (hdr : FgwSegmentHeader) (payload : List ZceByte) (seq : ZceUint32) (p : List ZceByte) :
    Prop := carriesData hdr = true ∧ hdr.isFin = false ∧ seq = hdr.seqNum ∧ p = payload

theorem onSessionSegment_moves (ch : ChannelRef) (hdr : FgwSegmentHeader) (payload : List ZceByte)
    (st : StreamState σ) :
    Moves S (frameKey hdr) (Carried hdr payload) st (onSessionSegment S ch hdr payload st) := by
  unfold onSessionSegment
  dsimp only
  split
  · exact .single (.judged (noteLoser_judgesOnly ch st))
  split
  · exact .refl
  have hadmitted : Moves S (frameKey hdr) (Carried hdr payload) st (noteWinner ch { st with
      dedup := st.dedup.record kDedupRing (dedupKey (frameKey hdr).1 hdr) }) :=
    .tail (.single (.recorded (dedupKey (frameKey hdr).1 hdr)))
      (.judged (noteWinner_judgesOnly ch _))
  refine hadmitted.trans ?_
  generalize noteWinner ch { st with
    dedup := st.dedup.record kDedupRing (dedupKey (frameKey hdr).1 hdr) } = st₁
  unfold acceptSegment
  dsimp only
  have hsyn : Moves S (frameKey hdr) (Carried hdr payload) st₁
      (if hdr.isSyn then onSyn S (frameKey hdr) st₁ else st₁) := by
    split
    · exact onSyn_moves st₁
    · exact .refl
  split
  · exact hsyn.trans (onFin_moves _)
  rename_i hfin
  split
  · rename_i hcarries
    exact hsyn.trans (onData_moves ⟨hcarries, Bool.not_eq_true _ ▸ hfin, rfl, rfl⟩ _)
  · exact hsyn

structure Segment (S : Setting σ) (f : List ZceByte) (hr : Nat) (hdr : FgwSegmentHeader) : Prop where
  peek : fgwSegmentPeekHeader f f.length = .header hr hdr
  session : isControl hdr = false
  crc : S.config.verifyCrc = true → fgwSegmentVerifyCrc f hdr hr = true

/-- What each move that a frame can bring about preserves, the frame preserves. -/
theorem handleFrame_invariant {P : StreamState σ → Prop} {f : List ZceByte} (ch : ChannelRef)
    (hjudges : ∀ {st st'}, JudgesOnly st st' → P st → P st')
    (hmove : ∀ {hr hdr}, Segment S f hr hdr → ∀ {st st'}, Move S (frameKey hdr)
      (Carried hdr ((f.drop hr).take hdr.payloadLen.toNat)) st st' → P st → P st')
    {st : StreamState σ} (h : P st) : P (handleFrame S ch st f) := by
  rcases handleFrame_cases S ch f st with ⟨-, honly⟩ | ⟨hr, hdr, hpeek, hsession, hcrc, heq⟩
  · exact hjudges honly h
  rw [heq]
  refine Relation.ReflTransGen.head_induction_on
    (motive := fun st₁ _ => P st₁ → P (onSessionSegment S ch hdr _ st))
    (onSessionSegment_moves ch hdr _ st) id (fun hstep _ ih hst => ih ?_) h
  exact hmove ⟨hpeek, hsession, hcrc⟩ hstep hst

theorem owner_frames {P : σ → Prop}
    (hunknown : ∀ cb, S.unknownCb = some cb → ∀ o key, P o → P (cb o key).1)
    (hevent : ∀ o e, P o → P (S.onEvent o e).1) (ch : ChannelRef) (fs : List (List ZceByte))
    {st : StreamState σ} (h : P st.owner) : P (fs.foldl (handleFrame S ch) st).owner := by
  have hnotify : ∀ (st : StreamState σ) (e : Event), P st.owner → P (notify S e st).owner := by
    intro st e hst
    rw [notify_owner]
    exact hevent _ e hst
  induction fs generalizing st with
  | nil => exact h
  | cons f fs ih =>
    refine ih (handleFrame_invariant (P := fun st => P st.owner) ch (fun hjudges hst => ?_) ?_ h)
    · rw [hjudges.owner]
      exact hst
    intro hr hdr _ st₁ st₂ hmove hst
    cases hmove with
    | judged hjudges =>
      rw [hjudges.owner]
      exact hst
    | recorded dk => exact hst
    | created hnone =>
      unfold createSession
      split
      · exact hst
      · rename_i cb hcb
        exact hunknown cb hcb _ _ hst
    | opened hs hhandler => exact hnotify _ _ hst
    | closed hs hhandler => exact hnotify _ _ hst
    | dropped hs hhandler => exact hst
    | kept hs hbuffer => exact hst
    | delivered hs hhandler =>
      rw [handOut_owner]
      refine List.foldlRecOn _ _ hst fun o ho blk _ => ?_
      split
      · exact hevent _ _ ho
      · exact ho

end DataStream

end Libfgw
