import Mathlib.Algebra.Order.Field.Power
import Mathlib.Algebra.Order.Floor.Ring
import Mathlib.Data.Int.Log
import Mathlib.Data.Rat.Floor
import Mathlib.Tactic.Linarith
import Mathlib.Tactic.NormNum
import Mathlib.Tactic.Positivity

/-! Rounding of nonnegative rationals to binary significands of a given length: to the nearest one,
and to the even one of two.  Exponents are not bounded, so nothing overflows and nothing is
subnormal. -/

namespace Libfgw.Lib.Rounding

def nearestEven (x : ℚ) : ℤ :=
  if x - ⌊x⌋ < 1 / 2 ∨ (x - ⌊x⌋ = 1 / 2 ∧ ⌊x⌋ % 2 = 0) then ⌊x⌋ else ⌊x⌋ + 1

theorem nearestEven_intCast (k : ℤ) : nearestEven k = k := by
  rw [nearestEven, Int.floor_intCast, sub_self]
  exact if_pos (Or.inl (by norm_num))

theorem floor_le_nearestEven (x : ℚ) : ⌊x⌋ ≤ nearestEven x := by
  rw [nearestEven]
  split
  · exact le_rfl
  · exact Int.le_add_one le_rfl

theorem nearestEven_le_floor_add_one (x : ℚ) : nearestEven x ≤ ⌊x⌋ + 1 := by
  rw [nearestEven]
  split
  · exact Int.le_add_one le_rfl
  · exact le_rfl

theorem abs_nearestEven_sub_le (x : ℚ) : |nearestEven x - x| ≤ 1 / 2 := by
  have hfloor := Int.floor_le x
  have hnext := Int.lt_floor_add_one x
  rw [nearestEven, abs_le]
  split
  · rename_i hdown
    have hhalf : x - ⌊x⌋ ≤ 1 / 2 := by
      rcases hdown with hlt | ⟨heq, -⟩
      · exact hlt.le
      · exact heq.le
    constructor <;> linarith
  · rename_i hup
    have hhalf : 1 / 2 ≤ x - ⌊x⌋ := not_lt.1 (not_or.1 hup).1
    push_cast
    constructor <;> linarith

theorem nearestEven_mono {x y : ℚ} (hxy : x ≤ y) : nearestEven x ≤ nearestEven y := by
  rcases (Int.floor_le_floor hxy).lt_or_eq with hlt | heq
  · exact (nearestEven_le_floor_add_one x).trans (hlt.trans_le (floor_le_nearestEven y))
  · by_cases hup : y - ⌊y⌋ < 1 / 2 ∨ (y - ⌊y⌋ = 1 / 2 ∧ ⌊y⌋ % 2 = 0)
    · -- `y` is rounded down, so `x` is, which is no farther from the same integer
      have hdown : x - ⌊x⌋ < 1 / 2 ∨ (x - ⌊x⌋ = 1 / 2 ∧ ⌊x⌋ % 2 = 0) := by
        rw [heq]
        rcases hup with hlt | ⟨hhalf, heven⟩
        · exact Or.inl (by linarith)
        · rcases hxy.lt_or_eq with hlt | rfl
          · exact Or.inl (by linarith)
          · exact Or.inr ⟨hhalf, heven⟩
      rw [nearestEven, nearestEven, if_pos hup, if_pos hdown, heq]
    · rw [nearestEven, nearestEven, if_neg hup, heq]
      split
      · exact Int.le_add_one le_rfl
      · exact le_rfl

variable (bits : ℕ)

def ulp (x : ℚ) : ℚ := 2 ^ (Int.log 2 x + 1 - bits)

def round (x : ℚ) : ℚ := nearestEven (x / ulp bits x) * ulp bits x

variable {bits} {x y : ℚ}

theorem ulp_pos (bits : ℕ) (x : ℚ) : 0 < ulp bits x := zpow_pos (by norm_num) _

theorem ulp_mono (bits : ℕ) (hx : 0 < x) (hxy : x ≤ y) : ulp bits x ≤ ulp bits y := by
  have hlog := Int.log_mono_right (b := 2) hx hxy
  exact zpow_le_zpow_right₀ (by norm_num) (by omega)

theorem abs_round_sub_le (bits : ℕ) (x : ℚ) : |round bits x - x| ≤ ulp bits x / 2 := by
  have hulp := ulp_pos bits x
  have hscaled : round bits x - x = (nearestEven (x / ulp bits x) - x / ulp bits x) * ulp bits x := by
    rw [round, sub_mul, div_mul_cancel₀ _ hulp.ne']
  rw [hscaled, abs_mul, abs_of_pos hulp]
  calc |nearestEven (x / ulp bits x) - x / ulp bits x| * ulp bits x
      ≤ 1 / 2 * ulp bits x := mul_le_mul_of_nonneg_right (abs_nearestEven_sub_le _) hulp.le
    _ = ulp bits x / 2 := by ring

theorem round_eq_self {k : ℕ} {e : ℤ} (hk : k < 2 ^ bits) : round bits (k * 2 ^ e) = k * 2 ^ e := by
  rcases Nat.eq_zero_or_pos k with rfl | hpos
  · simp [round, nearestEven]
  have hpow : (0 : ℚ) < 2 ^ e := zpow_pos (by norm_num) e
  have hx : (0 : ℚ) < k * 2 ^ e := mul_pos (Nat.cast_pos.2 hpos) hpow
  have hlt : (k : ℚ) * 2 ^ e < (2 : ℕ) ^ (bits + e) := by
    rw [Nat.cast_ofNat, zpow_add₀ (by norm_num), zpow_natCast]
    exact mul_lt_mul_of_pos_right (by exact_mod_cast hk) hpow
  have hlog := (Int.lt_zpow_iff_log_lt (by norm_num) hx).1 hlt
  obtain ⟨d, hd⟩ := Int.eq_ofNat_of_zero_le
    (show 0 ≤ e - (Int.log 2 ((k : ℚ) * 2 ^ e) + 1 - bits) by omega)
  have hdiv : (k : ℚ) * 2 ^ e / ulp bits (k * 2 ^ e) = ((k * 2 ^ d : ℕ) : ℤ) := by
    rw [ulp, mul_div_assoc, ← zpow_sub₀ (by norm_num), hd]
    push_cast
    rw [zpow_natCast]
  rw [round, hdiv, nearestEven_intCast, ← hdiv, div_mul_cancel₀ _ (ulp_pos _ _).ne']

theorem round_zero : round bits 0 = 0 := by
  have hself := @round_eq_self bits 0 0 (Nat.two_pow_pos bits)
  rwa [Nat.cast_zero, zero_mul] at hself

theorem round_nonneg (hx : 0 ≤ x) : 0 ≤ round bits x := by
  have hscaled := nearestEven_mono (div_nonneg hx (ulp_pos bits x).le)
  rw [← Int.cast_zero, nearestEven_intCast] at hscaled
  exact mul_nonneg (Int.cast_nonneg hscaled) (ulp_pos _ _).le

theorem round_le_zpow (x : ℚ) : round bits x ≤ 2 ^ (Int.log 2 x + 1) := by
  have htop : (2 : ℚ) ^ (Int.log 2 x + 1) = ((2 ^ bits : ℕ) : ℤ) * ulp bits x := by
    push_cast
    rw [ulp, ← zpow_natCast, ← zpow_add₀ (by norm_num)]
    congr 1
    omega
  have hlt : x < 2 ^ (Int.log 2 x + 1) := Int.lt_zpow_succ_log_self (b := 2) (by norm_num) x
  rw [htop] at hlt ⊢
  have hscaled := nearestEven_mono ((div_le_iff₀ (ulp_pos _ _)).2 hlt.le)
  rw [nearestEven_intCast] at hscaled
  exact mul_le_mul_of_nonneg_right (Int.cast_le.2 hscaled) (ulp_pos _ _).le

theorem zpow_le_round (hbits : 0 < bits) (hx : 0 < x) : 2 ^ Int.log 2 x ≤ round bits x := by
  obtain ⟨n, rfl⟩ := Nat.exists_eq_succ_of_ne_zero hbits.ne'
  have hbottom : (2 : ℚ) ^ Int.log 2 x = ((2 ^ n : ℕ) : ℤ) * ulp (n + 1) x := by
    push_cast
    rw [ulp, ← zpow_natCast, ← zpow_add₀ (by norm_num)]
    congr 1
    push_cast
    omega
  have hle : 2 ^ Int.log 2 x ≤ x := Int.zpow_log_le_self (b := 2) (by norm_num) hx
  rw [hbottom] at hle ⊢
  have hscaled := nearestEven_mono ((le_div_iff₀ (ulp_pos _ _)).2 hle)
  rw [nearestEven_intCast] at hscaled
  exact mul_le_mul_of_nonneg_right (Int.cast_le.2 hscaled) (ulp_pos _ _).le

theorem round_mono (hbits : 0 < bits) (hx : 0 ≤ x) (hxy : x ≤ y) : round bits x ≤ round bits y := by
  rcases hx.eq_or_lt with rfl | hpos
  · rw [round_zero]
    exact round_nonneg hxy
  rcases (Int.log_mono_right (b := 2) hpos hxy).eq_or_lt with hsame | hless
  · have hulp : ulp bits x = ulp bits y := by rw [ulp, ulp, hsame]
    rw [round, round, hulp]
    exact mul_le_mul_of_nonneg_right
      (Int.cast_le.2 (nearestEven_mono ((div_le_div_iff_of_pos_right (ulp_pos _ _)).2 hxy))) (ulp_pos _ _).le
  · calc round bits x ≤ 2 ^ (Int.log 2 x + 1) := round_le_zpow x
      _ ≤ 2 ^ Int.log 2 y := zpow_le_zpow_right₀ (by norm_num) hless
      _ ≤ round bits y := zpow_le_round hbits (hpos.trans_le hxy)

theorem round_pos (hbits : 0 < bits) (hx : 0 < x) : 0 < round bits x :=
  lt_of_lt_of_le (zpow_pos (by norm_num) _) (zpow_le_round hbits hx)

theorem round_lt_round (hx : 0 < x) (hxy : x ≤ y) (hgap : ulp bits y < y - x) :
    round bits x < round bits y := by
  have hbelow := (abs_le.1 (abs_round_sub_le bits x)).2
  have habove := (abs_le.1 (abs_round_sub_le bits y)).1
  have hulp := ulp_mono bits hx hxy
  linarith

/-- Fractions up to one are told apart when their denominators are small. -/
theorem round_div_lt_round_div {a b c d : ℕ} (hb : 0 < b) (hd : 0 < d) (hcd : c ≤ d)
    (hsmall : b * d < 2 ^ bits) (h : (a : ℚ) / b < c / d) :
    round (bits + 1) (a / b) < round (bits + 1) (c / d) := by
  have hb' : (0 : ℚ) < b := Nat.cast_pos.2 hb
  have hd' : (0 : ℚ) < d := Nat.cast_pos.2 hd
  have hy : (0 : ℚ) < c / d := lt_of_le_of_lt (div_nonneg (Nat.cast_nonneg a) hb'.le) h
  rcases Nat.eq_zero_or_pos a with rfl | ha
  · rw [Nat.cast_zero, zero_div, round_zero]
    exact round_pos (Nat.succ_pos _) hy
  refine round_lt_round (div_pos (Nat.cast_pos.2 ha) hb') h.le ?_
  have hone : (c : ℚ) / d ≤ 1 := (div_le_one hd').2 (Nat.cast_le.2 hcd)
  have hlog : Int.log 2 ((c : ℚ) / d) ≤ 0 := by
    have := Int.log_mono_right (b := 2) hy hone
    rwa [Int.log_one_right] at this
  have hulp : ulp (bits + 1) ((c : ℚ) / d) ≤ 1 / 2 ^ bits := by
    rw [ulp, one_div, ← zpow_natCast, ← zpow_neg]
    refine zpow_le_zpow_right₀ (by norm_num) ?_
    push_cast
    omega
  have hcross : a * d + 1 ≤ c * b := by
    rw [div_lt_div_iff₀ hb' hd'] at h
    exact_mod_cast h
  have hgap : 1 / ((b : ℚ) * d) ≤ c / d - a / b := by
    rw [div_sub_div _ _ hd'.ne' hb'.ne', mul_comm (b : ℚ) d]
    refine div_le_div_of_nonneg_right ?_ (mul_pos hd' hb').le
    have : ((a * d + 1 : ℕ) : ℚ) ≤ ((c * b : ℕ) : ℚ) := Nat.cast_le.2 hcross
    push_cast at this
    linarith
  have hfine : 1 / (2 : ℚ) ^ bits < 1 / ((b : ℚ) * d) :=
    one_div_lt_one_div_of_lt (mul_pos hb' hd') (by exact_mod_cast hsmall)
  exact lt_of_le_of_lt hulp (lt_of_lt_of_le hfine hgap)

theorem round_one : round (bits + 1) 1 = 1 := by
  have hself := @round_eq_self (bits + 1) 1 0 (Nat.one_lt_two_pow (Nat.succ_ne_zero bits))
  rwa [Nat.cast_one, one_mul, zpow_zero] at hself

theorem one_le_round_div_iff {a b : ℕ} (hb : 0 < b) (hsmall : b < 2 ^ bits) :
    1 ≤ round (bits + 1) (a / b) ↔ b ≤ a := by
  have hb' : (0 : ℚ) < b := Nat.cast_pos.2 hb
  constructor
  · intro hone
    by_contra hlt
    have hfraction : (a : ℚ) / b < (1 : ℕ) / (1 : ℕ) := by
      rw [Nat.cast_one, div_one, div_lt_one hb']
      exact Nat.cast_lt.2 (not_le.1 hlt)
    have hbelow := round_div_lt_round_div hb Nat.one_pos (Nat.le_refl 1) (by rwa [Nat.mul_one])
      hfraction
    rw [Nat.cast_one, div_one, round_one] at hbelow
    exact absurd hone (not_le.2 hbelow)
  · intro hle
    have hone : (1 : ℚ) ≤ a / b := (one_le_div hb').2 (Nat.cast_le.2 hle)
    have hrounded := round_mono (Nat.succ_pos bits) zero_le_one hone
    rwa [round_one] at hrounded

end Libfgw.Lib.Rounding
