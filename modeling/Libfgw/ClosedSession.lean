import Libfgw.DataStream.Absence
import Libfgw.ExactlyOnce

namespace Libfgw

open FgwSegmentHeader Lib DataStream

variable {σ : Type}

theorem openSession_of_absent {S : Setting σ} {sid : ZceUint32} {st : StreamState σ}
    (h : st.sessions (S.config.localIngressId, sid) = none) (handler : Option Handler) :
    (openSession S sid handler st).1 = .ok 0 := by
  simp [openSession, h]

theorem openSession_of_present {S : Setting σ} {sid : ZceUint32} {st : StreamState σ}
    (h : (st.sessions (S.config.localIngressId, sid)).isSome) (handler : Option Handler) :
    (openSession S sid handler st).1 = .error .busy := by
  simp [openSession, h]

/-- A session without an entry, closed or never opened, gets none as long as no arriving frame
revives it; and a frame that does leaves an entry or makes the owner name a handler. -/
theorem closed_session_stays_closed (S : Setting σ) {key : SessionKey} (hnever : NeverOpens S key) :
    (∀ ch f (st : StreamState σ), st.sessions key = none →
      ((handleFrame S ch st f).sessions key = none ∧
          relays key (handleFrame S ch st f).events = relays key st.events ↔
        ¬ Revives S key st f)) ∧
    ∀ (ds : DataStream σ) (ops : List (Op σ)), ds.sessions key = none →
      (∀ op ∈ ops, NotOpening S key op) → (∀ p ∈ trace S ds ops, ¬ Revives S key p.1 p.2) →
      (∀ p ∈ trace S ds ops, p.1.sessions key = none) ∧
      (run S ds ops).sessions key = none ∧
      relays key (run S ds ops).events = relays key ds.events ∧
      ∀ sid handler, (S.config.localIngressId, sid) = key →
        (openSession S sid handler (run S ds ops).toStreamState).1 = .ok 0 := by
  refine ⟨?_, ?_⟩
  · intro ch f st hnone
    constructor
    · intro hshut hrevives
      exact handleFrame_revives ch hnone hrevives hshut
    · intro hnot
      exact handleFrame_shut hnever ch hnot hnone
  · intro ds ops hnone hops hcalm
    obtain ⟨hpast, habsent, hrelays⟩ := run_invariant
      (P := fun tr st => (∀ p ∈ tr, p.1.sessions key = none) ∧ st.sessions key = none ∧
        relays key st.events = relays key ds.events)
      (fun op tr ds' hop hother h => by
        obtain ⟨hnone', hrelays'⟩ := step_shut hop hother ds' h.2.1
        exact ⟨h.1, hnone', hrelays'.trans h.2.2⟩)
      (fun ch f tr st hf h => by
        obtain ⟨hnone', hrelays'⟩ := handleFrame_shut hnever ch hf h.2.1
        exact ⟨List.forall_mem_append.2 ⟨h.1, by simpa using h.2.1⟩, hnone',
          hrelays'.trans h.2.2⟩)
      hops hcalm ⟨fun p hp => absurd hp List.not_mem_nil, hnone, rfl⟩
    refine ⟨hpast, habsent, hrelays, ?_⟩
    rintro sid handler rfl
    exact openSession_of_absent habsent handler

def sampleFin : List ZceByte := finFrame inportSetting sampleKey 2

def closedStream : DataStream Unit :=
  run outportSetting (DataStream.init ()) [.onChannelBytes 1 sampleSyn, .onChannelBytes 2 sampleFin]

theorem closedStream_absent : closedStream.sessions sampleKey = none :=
  Option.isNone_iff_eq_none.1 (by decide +kernel)

theorem closed_session_stays_closed_late_syn :
    (run outportSetting closedStream [.onChannelBytes 2 sampleSyn]).sessions sampleKey = none := by
  refine ((closed_session_stays_closed outportSetting
    (fun _ _ _ hc => absurd hc List.not_mem_nil)).2 closedStream [.onChannelBytes 2 sampleSyn]
    closedStream_absent (by simp [NotOpening]) ?_).2.1
  have htrace : trace outportSetting closedStream [.onChannelBytes 2 sampleSyn] =
      [(closedStream.toStreamState, sampleSyn)] := by
    have hframes : segmentFrames (closedStream.scratch 2 ++ sampleSyn) = [sampleSyn] := by
      decide +kernel
    simp only [trace, traceAt, hframes, frameTrace, List.append_nil]
  rw [htrace]
  intro p hp
  rw [List.mem_singleton.1 hp]
  rintro ⟨hr, hdr, hpeek, -, hctl, hkey, hfresh, -⟩
  have hdk := hasDedupKey_synFrame (T := inportSetting)
    ⟨hr, hdr, hpeek, hctl, rfl⟩
  rw [hkey] at hdk
  rw [hdk] at hfresh
  exact absurd hfresh (by decide +kernel)

theorem late_data_reopens :
    closedStream.sessions sampleKey = none ∧
      (run outportSetting closedStream [.onChannelBytes 1 sampleData0]).sessions sampleKey ≠ none ∧
      inportSetting.unknownCb = none ∧
      (openSession inportSetting 1#32 none (run inportSetting (DataStream.init ())
        [.onChannelBytes 1 sampleData0]).toStreamState).1 = .error .busy := by
  refine ⟨closedStream_absent, ?_, rfl, ?_⟩
  · rw [← Option.isSome_iff_ne_none]
    decide +kernel
  · exact openSession_of_present (by decide +kernel) none

end Libfgw
