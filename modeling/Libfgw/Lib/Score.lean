import Libfgw.Lib.EachAfter
import Mathlib.Data.List.Infix

/-! Win counts that fade.  A contestant takes part in races and wins some of them; from time to time
both counts are halved, and now and then both are cleared.  Halving rounds down, so the count of
races that were lost can fade to nothing although there are wins left. -/

namespace Libfgw.Lib

inductive Mark
  | won
  | lost
  | halve
  | clear
  deriving DecidableEq

namespace Mark

def isRace : Mark → Bool
  | .won => true
  | .lost => true
  | _ => false

end Mark

structure Score where
  wins : Nat
  races : Nat
  deriving DecidableEq

namespace Score

def zero : Score := ⟨0, 0⟩

def step (s : Score) : Mark → Score
  | .won => ⟨s.wins + 1, s.races + 1⟩
  | .lost => ⟨s.wins, s.races + 1⟩
  | .halve => ⟨s.wins / 2, s.races / 2⟩
  | .clear => zero

def of (ms : List Mark) : Score := ms.foldl step zero

@[simp] theorem of_concat (ms : List Mark) (m : Mark) : of (ms ++ [m]) = (of ms).step m := by
  rw [of, of, List.foldl_append, List.foldl_cons, List.foldl_nil]

theorem foldl_step_won (n : Nat) (s : Score) :
    (List.replicate n .won).foldl step s = ⟨s.wins + n, s.races + n⟩ := by
  induction n generalizing s with
  | zero => rfl
  | succ n ih =>
    rw [List.replicate_succ, List.foldl_cons, ih]
    simp only [step, Nat.add_assoc, Nat.add_comm 1 n]

theorem wins_le_races (ms : List Mark) : (of ms).wins ≤ (of ms).races := by
  induction ms using List.reverseRecOn with
  | nil => exact Nat.le_refl 0
  | append_singleton ms m ih =>
    rw [of_concat]
    cases m with
    | won => exact Nat.succ_le_succ ih
    | lost => exact Nat.le_succ_of_le ih
    | halve => exact Nat.div_le_div_right ih
    | clear => exact Nat.le_refl 0

/-- Fewer than `n` races lie between two halvings. -/
def Paced (n : Nat) (ms : List Mark) : Prop :=
  ∀ seg, seg <:+: ms → .halve ∉ seg → seg.countP Mark.isRace < n

theorem Paced.left {n : Nat} {ms ms' : List Mark} (h : Paced n (ms ++ ms')) : Paced n ms :=
  fun seg hseg => h seg (hseg.trans (List.prefix_append ms ms').isInfix)

theorem Paced.of_length_lt {n : Nat} {ms : List Mark} (h : ms.length < n) : Paced n ms := by
  intro seg hseg _
  calc seg.countP Mark.isRace ≤ seg.length := List.countP_le_length
    _ ≤ ms.length := hseg.length_le
    _ < n := h

theorem Paced.races_lt {n : Nat} {ms : List Mark} (h : Paced n ms) : (of ms).races + 1 < 2 * n := by
  have hrecent : ∃ seg, seg <:+ ms ∧ .halve ∉ seg ∧ (of ms).races + 1 ≤ n + seg.countP Mark.isRace := by
    induction ms using List.reverseRecOn with
    | nil => exact ⟨[], List.suffix_refl [], List.not_mem_nil, h [] (List.infix_refl []) List.not_mem_nil⟩
    | append_singleton ms m ih =>
      obtain ⟨seg, hseg, hno, hle⟩ := ih h.left
      have hlt := h.left seg hseg.isInfix hno
      have hlonger : seg ++ [m] <:+ ms ++ [m] := by
        obtain ⟨pre, rfl⟩ := hseg
        exact ⟨pre, (List.append_assoc pre seg [m]).symm⟩
      rw [of_concat]
      cases m with
      | won =>
        refine ⟨seg ++ [.won], hlonger, by simp [hno], ?_⟩
        simp only [step, List.countP_append, List.countP_singleton, Mark.isRace, if_true]
        omega
      | lost =>
        refine ⟨seg ++ [.lost], hlonger, by simp [hno], ?_⟩
        simp only [step, List.countP_append, List.countP_singleton, Mark.isRace, if_true]
        omega
      | halve =>
        refine ⟨[], List.nil_suffix, List.not_mem_nil, ?_⟩
        simp only [step, List.countP_nil]
        omega
      | clear =>
        refine ⟨[], List.nil_suffix, List.not_mem_nil, ?_⟩
        simp only [step, zero, List.countP_nil]
        omega
  obtain ⟨seg, hseg, hno, hle⟩ := hrecent
  have hlt := h seg hseg.isInfix hno
  omega

def blemished (ms : List Mark) : Bool :=
  ms.foldl (fun lost m => match m with
    | .lost => true
    | .clear => false
    | _ => lost) false

theorem blemished_concat (ms : List Mark) (m : Mark) :
    blemished (ms ++ [m]) = (decide (m = .lost) || (decide (m ≠ .clear) && blemished ms)) := by
  rw [blemished, List.foldl_append, List.foldl_cons, List.foldl_nil, ← blemished]
  cases m <;> simp

def Hides (s : Score) : Prop := s.races = s.wins + 1 ∧ s.wins % 2 = 0

instance (s : Score) : Decidable s.Hides := inferInstanceAs (Decidable (_ ∧ _))

def NeverHides (ms : List Mark) : Prop := EachAfter (fun pre m => m = .halve → ¬ (of pre).Hides) ms

/-- As long as no halving hides it, a loss shows. -/
theorem NeverHides.wins_lt {ms : List Mark} (h : NeverHides ms) (hlost : blemished ms = true) :
    (of ms).wins < (of ms).races := by
  induction ms using List.reverseRecOn with
  | nil => cases hlost
  | append_singleton ms m ih =>
    have hold := ih (EachAfter.left h)
    have hle := wins_le_races ms
    rw [blemished_concat] at hlost
    rw [of_concat]
    cases m with
    | won => exact Nat.succ_lt_succ (hold (by simpa using hlost))
    | lost => exact Nat.lt_succ_of_le hle
    | halve =>
      have hshows := hold (by simpa using hlost)
      have hkept := EachAfter.last h rfl
      simp only [Hides, step] at hkept ⊢
      omega
    | clear => simp at hlost

end Score

end Libfgw.Lib
