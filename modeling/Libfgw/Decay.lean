import Libfgw.Recommendation

namespace Libfgw

open Lib DataStream

variable {σ : Type}

/-- A channel that has lost no race since the counters were last cleared, and whose races have not
all faded, keeps every channel that has lost one from being recommended. -/
def PrefersFlawless (log : List RaceEvent) (st : StreamState σ) : Prop :=
  ∀ a b, Score.blemished (marks b log) = false → 0#32 < st.tally.racesOf b →
    Score.blemished (marks a log) = true → recommendedPrimary st ≠ a

namespace Tally

def Spotless (t : Tally) (id : ZceUint32) : Prop := 0#32 < t.racesOf id ∧ t.racesOf id ≤ t.winsOf id

def Outranks (t : Tally) (c a : ZceUint32) : Prop :=
  t.winRate a < t.winRate c ∨ t.winRate a = t.winRate c ∧
    (t.racesOf a < t.racesOf c ∨ t.racesOf a = t.racesOf c ∧ c < a)

/-- A race turns no counter over, and a tick finds no channel with an even count of wins that has
raced just once more. -/
def KeepsLosses (t : Tally) : RaceEvent → Prop
  | .won peer => (t.racesOf peer).toNat + 1 < 2 ^ 32
  | .lost peer => (t.racesOf peer).toNat + 1 < 2 ^ 32
  | .cleared => True
  | .tick => ∀ kv ∈ t.races.entries, ¬ (t.score kv.1).Hides

instance (t : Tally) : (e : RaceEvent) → Decidable (t.KeepsLosses e)
  | .won _ => inferInstanceAs (Decidable (_ < _))
  | .lost _ => inferInstanceAs (Decidable (_ < _))
  | .cleared => isTrue trivial
  | .tick =>
    List.decidableBAll (fun kv : ZceUint32 × ZceUint32 => ¬ (t.score kv.1).Hides) t.races.entries

theorem spotless_iff {t : Tally} {id : ZceUint32} (hraced : 0#32 < t.racesOf id) :
    t.Spotless id ↔ 1 ≤ t.winRate id := by
  have hsmall : (t.racesOf id).toNat < 2 ^ 52 := (t.racesOf id).isLt.trans (by norm_num)
  have hone : 1 ≤ t.winRate id ↔ (t.racesOf id).toNat ≤ (t.winsOf id).toNat :=
    Rounding.one_le_round_div_iff hraced hsmall
  rw [Spotless, and_iff_right hraced, hone]
  exact BitVec.le_def

theorem winsOf_of_flawless {log : List RaceEvent} {id : ZceUint32}
    (h : Score.blemished (marks id log) = false) : (of log).winsOf id = (of log).racesOf id := by
  induction log using List.reverseRecOn with
  | nil => rfl
  | append_singleton log e ih =>
    obtain ⟨hwins, hraces⟩ := (covered_of log).counters_step e id
    rw [of_concat, hwins, hraces]
    rw [marks_concat] at h
    cases hmark : e.mark id with
    | none =>
      rw [hmark, Option.toList_none, List.append_nil] at h
      exact ih h
    | some m =>
      rw [hmark, Option.toList_some, Score.blemished_concat] at h
      cases m with
      | won => rw [afterMark, ih (by simpa using h)]
      | lost => simp at h
      | halve => rw [afterMark, ih (by simpa using h)]
      | clear => rfl

theorem KeepsLosses.room {t : Tally} {e : RaceEvent} (h : t.KeepsLosses e) (id : ZceUint32) :
    (t.score id).races + 1 < 2 ^ 32 ∨ ∀ m ∈ e.mark id, m.isRace = false := by
  have hrace : ∀ peer : ZceUint32, (t.racesOf peer).toNat + 1 < 2 ^ 32 → ∀ race : Mark,
      (t.score id).races + 1 < 2 ^ 32 ∨
        ∀ m ∈ (if peer = id then some race else none), m.isRace = false := by
    intro peer hroom race
    by_cases hpeer : peer = id
    · exact Or.inl (hpeer ▸ hroom)
    · refine Or.inr fun m hm => ?_
      rw [if_neg hpeer] at hm
      cases hm
  cases e with
  | won peer => exact hrace peer h .won
  | lost peer => exact hrace peer h .lost
  | cleared => exact Or.inr fun m hm => by rw [← Option.some.inj hm]; rfl
  | tick => exact Or.inr fun m hm => by rw [← Option.some.inj hm]; rfl

theorem KeepsLosses.not_hides {t : Tally} {e : RaceEvent} {id : ZceUint32} (h : t.KeepsLosses e)
    (hmark : e.mark id = some .halve) : ¬ (t.score id).Hides := by
  intro hhides
  cases e with
  | won peer => rw [RaceEvent.mark] at hmark; split at hmark <;> cases hmark
  | lost peer => rw [RaceEvent.mark] at hmark; split at hmark <;> cases hmark
  | cleared => cases hmark
  | tick =>
    cases hfound : t.races.find? id with
    | none =>
      have hzero : t.racesOf id = 0#32 := by rw [racesOf, hfound, Option.getD_none]
      have hmore := hhides.1
      rw [score, hzero] at hmore
      exact absurd hmore (Nat.succ_ne_zero _).symm
    | some n => exact h (id, n) (SortedMap.find?_eq_some.1 hfound) hhides

theorem keeps_losses {log : List RaceEvent} (h : EachAfter (fun pre e => (of pre).KeepsLosses e) log)
    (id : ZceUint32) :
    (of log).score id = Score.of (marks id log) ∧ Score.NeverHides (marks id log) := by
  induction log using List.reverseRecOn with
  | nil => exact ⟨rfl, EachAfter.nil⟩
  | append_singleton log e ih =>
    obtain ⟨hscore, hnever⟩ := ih h.left
    have hlast := h.last
    refine ⟨score_concat hscore (hlast.room id), ?_⟩
    rw [marks_concat]
    cases hmark : e.mark id with
    | none => rwa [Option.toList_none, List.append_nil]
    | some m =>
      refine EachAfter.concat hnever fun hhalve => ?_
      rw [← hscore]
      exact hlast.not_hides (hhalve ▸ hmark)

theorem not_spotless {log : List RaceEvent} (h : EachAfter (fun pre e => (of pre).KeepsLosses e) log)
    {id : ZceUint32} (hlost : Score.blemished (marks id log) = true) : ¬ (of log).Spotless id := by
  obtain ⟨hscore, hnever⟩ := keeps_losses h id
  have hshows := hnever.wins_lt hlost
  rw [← hscore] at hshows
  exact fun hspotless => absurd (BitVec.le_def.1 hspotless.2) (Nat.not_le.2 hshows)

end Tally

theorem prefersFlawless_iff {log : List RaceEvent} (hunraced : Unraced 0#32 log) {st : StreamState σ}
    (htally : st.tally = Tally.of log) : PrefersFlawless log st ↔
      ∀ a b, Score.blemished (marks b log) = false → 0#32 < st.tally.racesOf b →
        Score.blemished (marks a log) = true → st.tally.Spotless a →
          ∃ c, 0#32 < st.tally.racesOf c ∧ st.tally.Outranks c a := by
  have hreal : st.tally.racesOf 0#32 = 0#32 := by
    rw [htally]
    exact hunraced.racesOf
  obtain ⟨hsilent, hbest⟩ := recommendedPrimary_bestLink hreal
  have hlink : ∀ b, 0#32 < st.tally.racesOf b → st.tally.BestLink st.tally.winRate (recommendedPrimary st) :=
    fun b hb => hbest fun h => (BitVec.pos_iff_ne_zero _).1 hb (hsilent.1 h b)
  constructor
  · intro hprefers a b hflawless hb hlost hspotless
    have hpick := hlink b hb
    refine ⟨recommendedPrimary st, hpick.raced, ?_⟩
    have hne := hprefers a b hflawless hb hlost
    rcases (hpick.rate a hspotless.1).lt_or_eq with hrate | hrate
    · exact Or.inl hrate
    rcases (hpick.sample a hspotless.1 hrate).lt_or_eq with hsample | hsample
    · exact Or.inr ⟨hrate, Or.inl hsample⟩
    · exact Or.inr ⟨hrate, Or.inr ⟨hsample,
        lt_of_le_of_ne (hpick.smallest a hspotless.1 hrate hsample) hne⟩⟩
  · intro hlead a b hflawless hb hlost hpicked
    have hpick := hlink b hb
    rw [hpicked] at hpick
    have hspotless : st.tally.Spotless a := by
      refine (Tally.spotless_iff hpick.raced).2 (le_trans ?_ (hpick.rate b hb))
      refine (Tally.spotless_iff hb).1 ⟨hb, ?_⟩
      rw [htally, Tally.winsOf_of_flawless hflawless]
    obtain ⟨c, hc, hrate | ⟨hrate, hsample | ⟨hsample, hid⟩⟩⟩ := hlead a b hflawless hb hlost hspotless
    · exact absurd (hpick.rate c hc) (not_le.2 hrate)
    · exact absurd (hpick.sample c hc hrate.symm) (not_le.2 hsample)
    · exact absurd (hpick.smallest c hc hrate.symm hsample.symm) (not_le.2 hid)

/-- A channel that always wins is preferred to one that sometimes loses in every run whose ticks let
no loss fade away and whose counters do not turn over.  In any state it is preferred exactly when
each losing channel whose counters show no loss is outranked. -/
theorem prefersFlawless_run (S : Setting σ) (owner : σ) (selector : LinkSelector) (ops : List (Op σ)) :
    let log := raceHistory S (DataStream.init owner selector) ops
    let st := (run S (DataStream.init owner selector) ops).toStreamState
    (EachAfter (fun pre e => (Tally.of pre).KeepsLosses e) log → PrefersFlawless log st) ∧
      (PrefersFlawless log st ↔
        ∀ a b, Score.blemished (marks b log) = false → 0#32 < st.tally.racesOf b →
          Score.blemished (marks a log) = true → st.tally.Spotless a →
            ∃ c, 0#32 < st.tally.racesOf c ∧ st.tally.Outranks c a) := by
  intro log st
  have htally : st.tally = Tally.of log := run_tally S _ ops
  have hiff := prefersFlawless_iff (raceHistory_unraced S (DataStream.init owner selector) ops) htally
  refine ⟨fun hkeeps => hiff.2 fun a b _ _ hlost hspotless => ?_, hiff⟩
  rw [htally] at hspotless
  exact absurd hspotless (Tally.not_spotless hkeeps hlost)

def steadyRun : List (Op Unit) :=
  [racingHello 1, racingHello 2, racingCopy 2 0#32, racingCopy 1 0#32, racingCopy 2 1#32,
    racingCopy 1 1#32, .emitFeedback]

theorem steadyRun_history : raceHistory racingStream (DataStream.init ()) steadyRun =
    [.cleared, .won 2#32, .lost 1#32, .won 2#32, .lost 1#32, .tick] := by decide +kernel

theorem prefersFlawless_run_steady :
    PrefersFlawless (raceHistory racingStream (DataStream.init ()) steadyRun)
      (run racingStream (DataStream.init ()) steadyRun).toStreamState := by
  refine (prefersFlawless_run racingStream () {} steadyRun).1 ?_
  rw [steadyRun_history]
  change EachAfter _ (((((([] ++ [_]) ++ [_]) ++ [_]) ++ [_]) ++ [_]) ++ [_])
  refine (((((EachAfter.nil.concat ?_).concat ?_).concat ?_).concat ?_).concat ?_).concat ?_ <;>
    decide +kernel

theorem fading_loser_preferred : ¬ ∀ ops : List (Op Unit),
    PrefersFlawless (raceHistory racingStream (DataStream.init ()) ops)
      (run racingStream (DataStream.init ()) ops).toStreamState := by
  intro hclaim
  have hprefers := hclaim fadingRun
  rw [fadingRun_history] at hprefers
  refine hprefers 1#32 2#32 (by decide) ?_ (by decide) (by decide +kernel)
  decide +kernel

end Libfgw
