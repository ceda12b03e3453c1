import Libfgw.DataStream.Dedup
import Libfgw.DataStream.Views

namespace Libfgw

open FgwSegmentHeader Lib

/-- What the receive loop decides about a frame before any session hears of it. -/
inductive Verdict
  | passedOver
  | duplicate
  | outside
  | accepted (dk : DedupKey)

namespace Verdict

def recorded : Verdict → Option DedupKey
  | .accepted dk => some dk
  | _ => none

end Verdict

namespace DataStream

variable {σ : Type} (S : Setting σ)

def verdict (st : StreamState σ) (f : List ZceByte) : Verdict :=
  match fgwSegmentPeekHeader f f.length with
  | .header hr hdr =>
    if (S.config.verifyCrc ∧ ¬ fgwSegmentVerifyCrc f hdr hr) ∨ isControl hdr then .passedOver
    else if st.dedup.map (dedupKey (frameKey hdr).1 hdr) then .duplicate
    else if carriesData hdr ∧ outsideWindow S (frameKey hdr) hdr.seqNum st then .outside
    else .accepted (dedupKey (frameKey hdr).1 hdr)
  | _ => .passedOver

def acceptedKey (st : StreamState σ) (f : List ZceByte) : Option DedupKey := (verdict S st f).recorded

def acceptances (ds : DataStream σ) (ops : List (Op σ)) : List DedupKey :=
  (trace S ds ops).filterMap fun p => acceptedKey S p.1 p.2

theorem handleFrame_verdict (ch : ChannelRef) (st : StreamState σ) (f : List ZceByte) :
    (verdict S st f = .passedOver ∧ JudgesOnly st (handleFrame S ch st f)) ∨ ∃ hr hdr,
      fgwSegmentPeekHeader f f.length = .header hr hdr ∧ isControl hdr = false ∧
      handleFrame S ch st f =
        onSessionSegment S ch hdr ((f.drop hr).take hdr.payloadLen.toNat) st ∧
      verdict S st f =
        if st.dedup.map (dedupKey (frameKey hdr).1 hdr) then .duplicate
        else if carriesData hdr ∧ outsideWindow S (frameKey hdr) hdr.seqNum st then .outside
        else .accepted (dedupKey (frameKey hdr).1 hdr) := by
  rcases handleFrame_cases S ch f st with ⟨hpass, hjudges⟩ | ⟨hr, hdr, hpeek, hsession, hcrc, heq⟩
  · refine Or.inl ⟨?_, hjudges⟩
    unfold verdict
    split
    · rename_i hr hdr hpeek
      exact if_pos (hpass hr hdr hpeek)
    · rfl
  · have hsound : ¬ ((S.config.verifyCrc = true ∧ ¬ fgwSegmentVerifyCrc f hdr hr = true) ∨
        isControl hdr = true) := by
      rintro (⟨hverify, hbad⟩ | hcontrol)
      · exact hbad (hcrc hverify)
      · exact absurd (hsession.symm.trans hcontrol) Bool.false_ne_true
    refine Or.inr ⟨hr, hdr, hpeek, hsession, heq, ?_⟩
    unfold verdict
    rw [hpeek]
    exact if_neg hsound

theorem passedOver_of {st : StreamState σ} {f : List ZceByte} (h : verdict S st f = .passedOver) {hr : Nat}
    {hdr : FgwSegmentHeader} (hpeek : fgwSegmentPeekHeader f f.length = .header hr hdr) :
    (S.config.verifyCrc ∧ ¬ fgwSegmentVerifyCrc f hdr hr) ∨ isControl hdr = true := by
  by_contra hpass
  unfold verdict at h
  rw [hpeek] at h
  dsimp only at h
  rw [if_neg hpass] at h
  split at h
  · cases h
  · split at h <;> cases h

theorem handleFrame_records (ch : ChannelRef) (st : StreamState σ) (f : List ZceByte) :
    (handleFrame S ch st f).dedup =
      (acceptedKey S st f).elim st.dedup (st.dedup.record kDedupRing) := by
  rw [acceptedKey]
  rcases handleFrame_verdict S ch st f with ⟨hpass, hjudges⟩ | ⟨hr, hdr, -, -, hsegment, hverdict⟩
  · rw [hpass, hjudges.dedup]
    rfl
  · rw [hsegment, onSessionSegment_dedup, hverdict]
    split
    · rename_i hskip
      split
      · rfl
      · rename_i hfresh
        rw [if_pos (hskip.resolve_left hfresh)]
        rfl
    · rename_i htaken
      obtain ⟨hfresh, hinside⟩ := not_or.1 htaken
      rw [if_neg hfresh, if_neg hinside]
      rfl

theorem acceptedKey_fresh {st : StreamState σ} {f : List ZceByte} {dk : DedupKey}
    (h : acceptedKey S st f = some dk) : st.dedup.map dk = false := by
  rw [acceptedKey] at h
  rcases handleFrame_verdict S 0 st f with ⟨hpass, -⟩ | ⟨hr, hdr, -, -, -, hverdict⟩
  · rw [hpass] at h
    cases h
  · rw [hverdict] at h
    split at h
    · cases h
    · rename_i hfresh
      split at h
      · cases h
      · obtain rfl := Option.some.inj h
        exact Bool.eq_false_iff.2 hfresh

end DataStream

end Libfgw
