import Libfgw.DataStream.Preference
import Libfgw.DataStream.Control

namespace Libfgw

open FgwSegmentHeader Lib DataStream

variable {σ : Type}

def Unraced (id : ZceUint32) (log : List RaceEvent) : Prop :=
  ∀ e ∈ log, ∀ m ∈ e.mark id, m.isRace = false

theorem Unraced.racesOf {id : ZceUint32} {log : List RaceEvent} (h : Unraced id log) :
    (Tally.of log).racesOf id = 0#32 := by
  induction log using List.reverseRecOn with
  | nil => rfl
  | append_singleton log e ih =>
    obtain ⟨hlog, hlast⟩ := List.forall_mem_append.1 h
    rw [Tally.of_concat, ((Tally.covered_of log).counters_step e id).2, ih hlog]
    cases hmark : e.mark id with
    | none => rfl
    | some m =>
      have hidle := hlast e List.mem_cons_self m hmark
      cases m with
      | won => exact absurd hidle Bool.noConfusion
      | lost => exact absurd hidle Bool.noConfusion
      | halve => rfl
      | clear => rfl

theorem raceEvent_unraced {S : Setting σ} {ch : ChannelRef} {st : StreamState σ} {f : List ZceByte}
    {e : RaceEvent} (h : raceEvent S ch st f = some e) : ∀ m ∈ e.mark 0#32, m.isRace = false := by
  have hnamed : ∀ peer : ZceUint32, peer ≠ 0#32 → ∀ race : Mark,
      ∀ m ∈ (if peer = 0#32 then some race else none), m.isRace = false := by
    intro peer hpeer race m hm
    rw [if_neg hpeer] at hm
    cases hm
  unfold raceEvent at h
  split at h
  · split at h
    · obtain rfl := Option.some.inj h
      exact fun m hm => by rw [← Option.some.inj hm]; rfl
    · cases h
  · split at h
    · rename_i hpeer
      obtain rfl := Option.some.inj h
      exact hnamed _ hpeer .lost
    · cases h
  · cases h
  · split at h
    · rename_i hpeer
      obtain rfl := Option.some.inj h
      exact hnamed _ hpeer .won
    · cases h

theorem racesAt_unraced (S : Setting σ) (ds : DataStream σ) (op : Op σ) :
    Unraced 0#32 (racesAt S ds op) := by
  cases op with
  | onChannelBytes ch buf =>
    intro e he
    obtain ⟨p, -, hp⟩ := List.mem_filterMap.1 he
    exact raceEvent_unraced hp
  | emitFeedback =>
    intro e he m hm
    obtain rfl := List.mem_singleton.1 he
    obtain rfl := Option.some.inj hm
    rfl
  | _ => exact fun e he => absurd he List.not_mem_nil

theorem raceHistory_unraced (S : Setting σ) (ds : DataStream σ) (ops : List (Op σ)) :
    Unraced 0#32 (raceHistory S ds ops) := by
  induction ops generalizing ds with
  | nil => exact fun e he => absurd he List.not_mem_nil
  | cons op ops ih => exact List.forall_mem_append.2 ⟨racesAt_unraced S ds op, ih _⟩

theorem frameTrace_tally (S : Setting σ) (ch : ChannelRef) (fs : List (List ZceByte))
    (st : StreamState σ) : ∀ p ∈ frameTrace S ch st fs, ∃ log,
      log <+: (frameTrace S ch st fs).filterMap (fun p => raceEvent S ch p.1 p.2) ∧
        p.1.tally = log.foldl Tally.step st.tally := by
  induction fs generalizing st with
  | nil => exact fun p hp => absurd hp List.not_mem_nil
  | cons f fs ih =>
    rw [frameTrace, List.filterMap_cons]
    refine List.forall_mem_cons.2 ⟨⟨[], List.nil_prefix, rfl⟩, fun p hp => ?_⟩
    obtain ⟨log, hlog, htally⟩ := ih _ p hp
    rw [handleFrame_tally] at htally
    cases hrace : raceEvent S ch st f with
    | none =>
      rw [hrace] at htally
      exact ⟨log, hlog, htally⟩
    | some e =>
      rw [hrace] at htally
      exact ⟨e :: log, List.cons_prefix_cons.2 ⟨rfl, hlog⟩, htally⟩

theorem trace_tally (S : Setting σ) (ds : DataStream σ) (ops : List (Op σ)) :
    ∀ p ∈ trace S ds ops, ∃ log, log <+: raceHistory S ds ops ∧
      p.1.tally = log.foldl Tally.step ds.toStreamState.tally := by
  induction ops generalizing ds with
  | nil => exact fun p hp => absurd hp List.not_mem_nil
  | cons op ops ih =>
    rw [trace_cons, raceHistory]
    refine List.forall_mem_append.2 ⟨fun p hp => ?_, fun p hp => ?_⟩
    · cases op with
      | onChannelBytes ch buf =>
        obtain ⟨log, hlog, htally⟩ := frameTrace_tally S ch _ _ p hp
        exact ⟨log, hlog.trans (List.prefix_append _ _), htally⟩
      | _ => exact absurd hp List.not_mem_nil
    · obtain ⟨log, hlog, htally⟩ := ih _ p hp
      refine ⟨racesAt S ds op ++ log, (List.prefix_append_right_inj _).2 hlog, ?_⟩
      rw [htally, List.foldl_append, step_tally]

/-- The counters make sense, and the channel that they recommend is the best link: by the rates as
doubles, and by the exact ones while the counts are small. -/
structure WellJudged (st : StreamState σ) : Prop where
  wins_le : ∀ id, st.tally.winsOf id ≤ st.tally.racesOf id
  covered : ∀ id, (st.peerWinCount.find? id).isSome → (st.peerPartCount.find? id).isSome
  silent : recommendedPrimary st = 0#32 ↔ ¬ ∃ id, 0#32 < st.tally.racesOf id
  best : recommendedPrimary st ≠ 0#32 → st.tally.BestLink st.tally.winRate (recommendedPrimary st)
  exact : (∀ id, (st.tally.racesOf id).toNat < 2 ^ 26) → recommendedPrimary st ≠ 0#32 →
    st.tally.BestLink st.tally.exactRate (recommendedPrimary st)

theorem wellJudged_of_paced {log : List RaceEvent} (hunraced : Unraced 0#32 log)
    (hpaced : ∀ id, Score.Paced (2 ^ 31) (marks id log)) {st : StreamState σ}
    (htally : st.tally = Tally.of log) : WellJudged st := by
  have hreal : st.tally.racesOf 0#32 = 0#32 := by
    rw [htally]
    exact hunraced.racesOf
  obtain ⟨hsilent, hbest⟩ := recommendedPrimary_bestLink hreal
  have hwins : ∀ id, st.tally.winsOf id ≤ st.tally.racesOf id := by
    intro id
    have hscore := Tally.score_of_paced (hpaced id)
    have hle := Score.wins_le_races (marks id log)
    rw [← hscore] at hle
    rw [htally]
    exact hle
  refine ⟨hwins, ?_, ?_, hbest, fun hsmall hpick => (hbest hpick).exact hwins hsmall⟩
  · have hcovered := Tally.covered_of log
    rw [← htally] at hcovered
    exact hcovered
  · rw [hsilent, not_exists]
    exact forall_congr' fun id => by rw [BitVec.pos_iff_ne_zero, not_not]

/-- As long as no channel has `2 ^ 31` races between two ticks, the counters of a stream make sense
in every state of a run, and it recommends the best link. -/
theorem recommendedPrimary_wellJudged (S : Setting σ) (owner : σ) (selector : LinkSelector)
    (ops : List (Op σ)) (hpaced : ∀ id,
      Score.Paced (2 ^ 31) (marks id (raceHistory S (DataStream.init owner selector) ops))) :
    (∀ p ∈ trace S (DataStream.init owner selector) ops, WellJudged p.1) ∧
      WellJudged (run S (DataStream.init owner selector) ops).toStreamState := by
  have hunraced := raceHistory_unraced S (DataStream.init owner selector) ops
  refine ⟨fun p hp => ?_, wellJudged_of_paced hunraced hpaced (run_tally S _ ops)⟩
  obtain ⟨log, ⟨rest, hrest⟩, htally⟩ := trace_tally S _ ops p hp
  rw [← hrest] at hunraced hpaced
  refine wellJudged_of_paced (List.forall_mem_append.1 hunraced).1 (fun id => ?_) htally
  have hlonger := hpaced id
  rw [marks, List.filterMap_append] at hlonger
  exact hlonger.left

def channelHello (n : Nat) : List ZceByte := [BitVec.ofNat 8 n]

def racingStream : Setting Unit :=
  Setting.quiet (StreamConfig.make 7#32 1200#16 1024#16 true 0#32) .empty
    (ZdsCodec.flat [(channelHello 1, { channelId := 1#32, generation := 1#32 }),
      (channelHello 2, { channelId := 2#32, generation := 1#32 })])

def racingHello (n : Nat) : Op Unit :=
  .onChannelBytes n (wireFrame (helloHeader 0#32) (channelHello n))

def racingCopy (ch : ChannelRef) (seq : ZceUint32) : Op Unit :=
  .onChannelBytes ch (wireFrame { flags := FLAG_DATA, sessionId := 1#32, seqNum := seq } [0#8])

def fadingRun : List (Op Unit) :=
  [racingHello 1, racingHello 2, racingCopy 2 0#32, racingCopy 1 0#32, racingCopy 1 1#32,
    racingCopy 1 2#32, racingCopy 2 3#32, .emitFeedback]

theorem fadingRun_history : raceHistory racingStream (DataStream.init ()) fadingRun =
    [.cleared, .won 2#32, .lost 1#32, .won 1#32, .won 1#32, .won 2#32, .tick] := by decide +kernel

theorem recommendedPrimary_wellJudged_fading :
    WellJudged (run racingStream (DataStream.init ()) fadingRun).toStreamState := by
  refine (recommendedPrimary_wellJudged racingStream () {} fadingRun fun id => ?_).2
  refine Score.Paced.of_length_lt (lt_of_le_of_lt (List.length_filterMap_le _ _) ?_)
  rw [fadingRun_history]
  decide

end Libfgw
