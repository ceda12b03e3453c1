import Libfgw.DataStream.Tally
import Mathlib.Data.List.MinMax
import Mathlib.Data.Prod.Lex
import Mathlib.Tactic.Positivity

namespace Libfgw

open Lib

variable {σ : Type}

namespace Tally

def exactRate (t : Tally) (id : ZceUint32) : ℚ := (t.winsOf id).toNat / (t.racesOf id).toNat

def winRate (t : Tally) (id : ZceUint32) : ℚ := DataStream.double (t.exactRate id)

def racers (t : Tally) : List (ZceUint32 × ZceUint32) :=
  t.races.entries.filter fun kv => !decide (kv.2 = 0#32)

def worth (t : Tally) (kv : ZceUint32 × ZceUint32) : Lex (ℚ × ZceUint32) :=
  toLex (DataStream.double ((t.winsOf kv.1).toNat / kv.2.toNat), kv.2)

theorem mem_racers {t : Tally} {kv : ZceUint32 × ZceUint32} :
    kv ∈ t.racers ↔ kv.2 = t.racesOf kv.1 ∧ 0#32 < t.racesOf kv.1 := by
  obtain ⟨id, races⟩ := kv
  rw [racers, List.mem_filter, ← SortedMap.find?_eq_some, racesOf]
  cases t.races.find? id with
  | none => simp
  | some n =>
    simp only [Option.some.injEq, Option.getD_some, Bool.not_eq_eq_eq_not, Bool.not_true,
      decide_eq_false_iff_not]
    constructor
    · rintro ⟨rfl, hpos⟩
      exact ⟨rfl, (BitVec.pos_iff_ne_zero _).2 hpos⟩
    · rintro ⟨rfl, hpos⟩
      exact ⟨rfl, (BitVec.pos_iff_ne_zero _).1 hpos⟩

/-- The channel has raced, no rate is better than its, no sample of a channel with its rate is
larger, and it has the smallest id among those that are left. -/
structure BestLink (t : Tally) (rateOf : ZceUint32 → ℚ) (id : ZceUint32) : Prop where
  raced : 0#32 < t.racesOf id
  rate : ∀ c, 0#32 < t.racesOf c → rateOf c ≤ rateOf id
  sample : ∀ c, 0#32 < t.racesOf c → rateOf c = rateOf id → t.racesOf c ≤ t.racesOf id
  smallest : ∀ c, 0#32 < t.racesOf c → rateOf c = rateOf id → t.racesOf c = t.racesOf id → id ≤ c

theorem winRate_lt_winRate {t : Tally} (hwins : ∀ id, t.winsOf id ≤ t.racesOf id)
    (hsmall : ∀ id, (t.racesOf id).toNat < 2 ^ 26) {c d : ZceUint32} (hc : 0#32 < t.racesOf c)
    (hd : 0#32 < t.racesOf d) (h : t.exactRate c < t.exactRate d) : t.winRate c < t.winRate d := by
  have hproduct : (t.racesOf c).toNat * (t.racesOf d).toNat < 2 ^ 52 :=
    calc _ < 2 ^ 26 * 2 ^ 26 := Nat.mul_lt_mul'' (hsmall c) (hsmall d)
      _ = 2 ^ 52 := by norm_num
  exact Rounding.round_div_lt_round_div hc hd (hwins d) hproduct h

theorem BestLink.exact {t : Tally} {id : ZceUint32} (h : t.BestLink t.winRate id)
    (hwins : ∀ id, t.winsOf id ≤ t.racesOf id) (hsmall : ∀ id, (t.racesOf id).toNat < 2 ^ 26) :
    t.BestLink t.exactRate id where
  raced := h.raced
  rate c hc := by
    by_contra hlt
    have hdouble := winRate_lt_winRate hwins hsmall h.raced hc (not_le.1 hlt)
    exact absurd (h.rate c hc) (not_le.2 hdouble)
  sample c hc hrate := h.sample c hc (congrArg DataStream.double hrate)
  smallest c hc hrate := h.smallest c hc (congrArg DataStream.double hrate)

theorem bestLink_of_mem_argmax {t : Tally} {kv : ZceUint32 × ZceUint32}
    (h : kv ∈ t.racers.argmax t.worth) : t.BestLink t.winRate kv.1 := by
  obtain ⟨hmem, hmax, hfirst⟩ := List.mem_argmax_iff.1 h
  obtain ⟨hcount, hraced⟩ := mem_racers.1 hmem
  have hworth : t.worth kv = toLex (t.winRate kv.1, t.racesOf kv.1) := by
    rw [worth, winRate, exactRate, ← hcount]
  have hother : ∀ c, 0#32 < t.racesOf c → (c, t.racesOf c) ∈ t.racers :=
    fun c hc => mem_racers.2 ⟨rfl, hc⟩
  have hle : ∀ c, 0#32 < t.racesOf c → t.winRate c < t.winRate kv.1 ∨
      t.winRate c = t.winRate kv.1 ∧ t.racesOf c ≤ t.racesOf kv.1 := by
    intro c hc
    have := hmax _ (hother c hc)
    rwa [hworth, worth, Prod.Lex.toLex_le_toLex] at this
  refine ⟨hraced, fun c hc => ?_, fun c hc hrate => ?_, fun c hc hrate hsample => ?_⟩
  · rcases hle c hc with hlt | ⟨heq, -⟩
    · exact hlt.le
    · exact heq.le
  · rcases hle c hc with hlt | ⟨-, hsample⟩
    · exact absurd hrate hlt.ne
    · exact hsample
  · by_contra hlt
    have hsame : t.worth kv ≤ t.worth (c, t.racesOf c) := by
      rw [hworth, ← hrate, ← hsample]
      exact le_rfl
    have hbefore := hfirst _ (hother c hc) hsame
    exact absurd (idxOf_lt_of_key_lt (t.races.sorted.filter _) (hother c hc) hmem (not_le.1 hlt))
      (Nat.not_lt.2 hbefore)

end Tally

namespace DataStream

def Pick.of (t : Tally) : Option (ZceUint32 × ZceUint32) → Pick
  | none => {}
  | some kv => ⟨kv.1, kv.2, double ((t.winsOf kv.1).toNat / kv.2.toNat)⟩

/-- The loop looks for the first racer of the highest worth. -/
theorem pickPrimaryLocked_eq_argmax (st : StreamState σ) : pickPrimaryLocked st =
    (Pick.of st.tally (st.tally.racers.argmax st.tally.worth)).bestId := by
  unfold pickPrimaryLocked List.argmax Tally.racers
  rw [List.foldl_filter]
  refine congrArg Pick.bestId ?_
  refine @List.foldl_hom _ _ _ (Pick.of st.tally) _ _ _ none fun best kv => ?_
  by_cases hzero : kv.2 = 0#32
  · simp [hzero]
  · have hrate : 0 ≤ double ((st.tally.winsOf kv.1).toNat / kv.2.toNat) :=
      Rounding.round_nonneg (by positivity)
    rw [if_neg hzero, decide_eq_false hzero]
    cases best with
    | none => exact if_pos (Or.inl (lt_of_lt_of_le (by norm_num [Pick.of]) hrate))
    | some e =>
      simp only [List.argAux, Bool.not_false, if_true]
      have hlt : st.tally.worth e < st.tally.worth kv ↔
          double ((st.tally.winsOf kv.1).toNat / kv.2.toNat) > (Pick.of st.tally (some e)).bestRate ∨
            double ((st.tally.winsOf kv.1).toNat / kv.2.toNat) = (Pick.of st.tally (some e)).bestRate ∧
              kv.2 > (Pick.of st.tally (some e)).bestPart := by
        rw [Tally.worth, Tally.worth, Prod.Lex.toLex_lt_toLex]
        exact or_congr_right (and_congr_left' eq_comm)
      by_cases hbetter : st.tally.worth e < st.tally.worth kv
      · rw [if_pos hbetter]
        exact if_pos (hlt.1 hbetter)
      · rw [if_neg hbetter]
        exact if_neg (mt hlt.2 hbetter)

theorem recommendedPrimary_bestLink {st : StreamState σ} (hreal : st.tally.racesOf 0#32 = 0#32) :
    (recommendedPrimary st = 0#32 ↔ ∀ id, st.tally.racesOf id = 0#32) ∧
      (recommendedPrimary st ≠ 0#32 → st.tally.BestLink st.tally.winRate (recommendedPrimary st)) := by
  rw [recommendedPrimary, pickPrimaryLocked_eq_argmax]
  cases hbest : st.tally.racers.argmax st.tally.worth with
  | none =>
    refine ⟨iff_of_true rfl fun id => ?_, fun h => absurd rfl h⟩
    by_contra hraced
    have hmem := @Tally.mem_racers st.tally (id, st.tally.racesOf id)
    rw [List.argmax_eq_none.1 hbest] at hmem
    exact absurd (hmem.2 ⟨rfl, (BitVec.pos_iff_ne_zero _).2 hraced⟩) List.not_mem_nil
  | some kv =>
    have hlink := Tally.bestLink_of_mem_argmax hbest
    have hraced := (BitVec.pos_iff_ne_zero _).1 hlink.raced
    refine ⟨iff_of_false (fun h => ?_) fun h => hraced (h kv.1), fun _ => hlink⟩
    rw [Pick.of] at h
    exact hraced (h ▸ hreal)

end DataStream

end Libfgw
