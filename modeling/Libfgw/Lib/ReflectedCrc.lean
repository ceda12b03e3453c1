import Mathlib.Data.BitVec
import Mathlib.Logic.Function.Iterate

/-! Cyclic redundancy checks that shift to the right.  A round takes one bit out of the state, and
eight of them take in a byte.  When the top bit of the polynomial is set a round can be undone, so
that a check of `w` bits tells apart any two byte strings that differ only within `w` consecutive
bits. -/

namespace Libfgw.Lib.ReflectedCrc

variable {w : Nat} (poly : BitVec w)

def round (c : BitVec w) : BitVec w := if c.getLsbD 0 then poly ^^^ (c >>> 1) else c >>> 1

def feed (c : BitVec w) (b : BitVec 8) : BitVec w := (round poly)^[8] (c ^^^ b.setWidth w)

theorem xor_xor_cancel (p a b : BitVec w) : (p ^^^ a) ^^^ (p ^^^ b) = a ^^^ b := by
  rw [BitVec.xor_comm p a, BitVec.xor_assoc, ← BitVec.xor_assoc p, BitVec.xor_self, BitVec.zero_xor]

theorem round_xor (a b : BitVec w) : round poly (a ^^^ b) = round poly a ^^^ round poly b := by
  simp only [round, BitVec.getLsbD_xor, BitVec.ushiftRight_xor_distrib]
  cases a.getLsbD 0 with
  | false =>
    cases b.getLsbD 0 with
    | false => simp
    | true =>
      simp only [Bool.false_xor, if_true, Bool.false_eq_true, if_false]
      rw [← BitVec.xor_assoc, BitVec.xor_comm poly, BitVec.xor_assoc]
  | true =>
    cases b.getLsbD 0 with
    | false =>
      simp only [Bool.xor_false, if_true, Bool.false_eq_true, if_false]
      rw [BitVec.xor_assoc]
    | true =>
      simp only [Bool.xor_self, if_true, Bool.false_eq_true, if_false]
      rw [xor_xor_cancel]

theorem iterate_round_xor (n : Nat) (a b : BitVec w) :
    (round poly)^[n] (a ^^^ b) = (round poly)^[n] a ^^^ (round poly)^[n] b := by
  induction n generalizing a b with
  | zero => rfl
  | succ n ih => simp only [Function.iterate_succ_apply, round_xor, ih]

theorem iterate_round_of_low_clear {n : Nat} {c : BitVec w} (h : ∀ i < n, c.getLsbD i = false) :
    (round poly)^[n] c = c >>> n := by
  induction n generalizing c with
  | zero => simp
  | succ n ih =>
    have hround : round poly c = c >>> 1 := by simp [round, h 0 (Nat.succ_pos n)]
    rw [Function.iterate_succ_apply, hround, ih, ← BitVec.shiftRight_add, Nat.add_comm]
    intro i hi
    rw [BitVec.getLsbD_ushiftRight, Nat.add_comm]
    exact h (i + 1) (Nat.succ_lt_succ hi)

theorem iterate_round_shiftLeft {n : Nat} {c : BitVec w}
    (h : ∀ i, w ≤ i + n → c.getLsbD i = false) : (round poly)^[n] (c <<< n) = c := by
  rw [iterate_round_of_low_clear]
  · apply BitVec.eq_of_getLsbD_eq
    intro i hi
    rw [BitVec.getLsbD_ushiftRight, BitVec.getLsbD_shiftLeft]
    by_cases hin : n + i < w
    · simp [hin]
    · simp [hin, h i (by omega)]
  · intro i hi
    simp [BitVec.getLsbD_shiftLeft, hi]

theorem feed_eq (c : BitVec w) (b : BitVec 8) :
    feed poly c b = (round poly)^[8] ((c ^^^ b.setWidth w) &&& 255#w) ^^^ (c >>> 8) := by
  have hlow : ∀ i, (255#w).getLsbD i = (decide (i < w) && decide (i < 8)) := by
    intro i
    rw [BitVec.getLsbD_ofNat, show (255 : Nat) = 2 ^ 8 - 1 from rfl, Nat.testBit_two_pow_sub_one]
  have hsplit : c ^^^ b.setWidth w =
      ((c ^^^ b.setWidth w) &&& 255#w) ^^^ ((c ^^^ b.setWidth w) &&& ~~~255#w) := by
    apply BitVec.eq_of_getLsbD_eq
    intro i hi
    simp only [BitVec.getLsbD_xor, BitVec.getLsbD_and, BitVec.getLsbD_not, hlow, hi]
    cases decide (i < 8) <;> simp
  have hhigh : ((c ^^^ b.setWidth w) &&& ~~~255#w) >>> 8 = c >>> 8 := by
    apply BitVec.eq_of_getLsbD_eq
    intro i hi
    simp only [BitVec.getLsbD_xor, BitVec.getLsbD_and, BitVec.getLsbD_not, hlow,
      BitVec.getLsbD_ushiftRight, BitVec.getLsbD_setWidth, BitVec.getLsbD_of_ge b (8 + i) (by omega)]
    by_cases hin : 8 + i < w
    · simp [hin]
    · simp [hin, BitVec.getLsbD_of_ge c (8 + i) (by omega)]
  rw [feed]
  conv_lhs => rw [hsplit]
  rw [iterate_round_xor, iterate_round_of_low_clear (n := 8) (c := (c ^^^ b.setWidth w) &&& ~~~255#w),
    hhigh]
  intro i hi
  by_cases hin : i < w
  · simp [hlow, hi]
  · exact BitVec.getLsbD_of_ge _ i (by omega)

def feedBit (c : BitVec w) (bit : Bool) : BitVec w :=
  if c.getLsbD 0 ^^ bit then poly ^^^ (c >>> 1) else c >>> 1

def bits (b : BitVec 8) : List Bool := (List.range 8).map b.getLsbD

theorem round_xor_eq (c x : BitVec w) :
    round poly (c ^^^ x) = feedBit poly c (x.getLsbD 0) ^^^ (x >>> 1) := by
  simp only [round, feedBit, BitVec.getLsbD_xor, BitVec.ushiftRight_xor_distrib]
  split
  · rw [BitVec.xor_assoc]
  · rfl

theorem foldl_feedBit_range {n : Nat} {x : BitVec w} (hx : x >>> n = 0#w) (c : BitVec w) :
    ((List.range n).map x.getLsbD).foldl (feedBit poly) c = (round poly)^[n] (c ^^^ x) := by
  induction n generalizing c x with
  | zero =>
    rw [BitVec.ushiftRight_zero] at hx
    rw [hx, BitVec.xor_zero]
    rfl
  | succ n ih =>
    have hrest : (x >>> 1) >>> n = 0#w := by rwa [← BitVec.shiftRight_add, Nat.add_comm]
    have hbits : (List.range n).map (fun i => x.getLsbD (i + 1)) =
        (List.range n).map (x >>> 1).getLsbD := by
      apply List.map_congr_left
      intro i _
      rw [BitVec.getLsbD_ushiftRight, Nat.add_comm]
    rw [List.range_succ_eq_map, List.map_cons, List.map_map, List.foldl_cons,
      Function.iterate_succ_apply, round_xor_eq, ← ih hrest]
    exact congrArg (List.foldl (feedBit poly) _) hbits

theorem foldl_feedBit_bits (hw : 8 ≤ w) (c : BitVec w) (b : BitVec 8) :
    (bits b).foldl (feedBit poly) c = feed poly c b := by
  have hclear : b.setWidth w >>> 8 = 0#w := by
    apply BitVec.eq_of_getLsbD_eq
    intro i _
    rw [BitVec.getLsbD_ushiftRight, BitVec.getLsbD_setWidth, BitVec.getLsbD_of_ge b _ (Nat.le_add_right 8 i),
      Bool.and_false, BitVec.getLsbD_zero]
  have hbits : bits b = (List.range 8).map (b.setWidth w).getLsbD := by
    apply List.map_congr_left
    intro i hi
    rw [BitVec.getLsbD_setWidth, decide_eq_true (lt_of_lt_of_le (List.mem_range.1 hi) hw), Bool.true_and]
  rw [hbits, foldl_feedBit_range poly hclear, feed]

theorem foldl_feedBit (hw : 8 ≤ w) (c : BitVec w) (bs : List (BitVec 8)) :
    (bs.flatMap bits).foldl (feedBit poly) c = bs.foldl (feed poly) c := by
  induction bs generalizing c with
  | nil => rfl
  | cons b bs ih => rw [List.flatMap_cons, List.foldl_append, foldl_feedBit_bits poly hw, ih, List.foldl_cons]

def word : List (BitVec 8) → BitVec w
  | [] => 0#w
  | b :: bs => b.setWidth w ^^^ (word bs <<< 8)

theorem getLsbD_word {bs : List (BitVec 8)} {i : Nat} (h : 8 * bs.length ≤ i) :
    (word bs : BitVec w).getLsbD i = false := by
  induction bs generalizing i with
  | nil => simp [word]
  | cons b bs ih =>
    rw [List.length_cons] at h
    simp only [word, BitVec.getLsbD_xor, BitVec.getLsbD_setWidth, BitVec.getLsbD_shiftLeft,
      BitVec.getLsbD_of_ge b i (by omega), ih (i := i - 8) (by omega), Bool.and_false, Bool.false_xor]

/-- Bytes that fit into the state can be taken in at once. -/
theorem foldl_feed {bs : List (BitVec 8)} (h : 8 * bs.length ≤ w) (c : BitVec w) :
    bs.foldl (feed poly) c = (round poly)^[8 * bs.length] (c ^^^ word bs) := by
  induction bs generalizing c with
  | nil => simp [word]
  | cons b bs ih =>
    rw [List.length_cons] at h
    have hword : (round poly)^[8] (word bs <<< 8) = word bs := by
      apply iterate_round_shiftLeft
      intro i hi
      exact getLsbD_word (by omega)
    calc (b :: bs).foldl (feed poly) c
        = (round poly)^[8 * bs.length] ((round poly)^[8] (c ^^^ b.setWidth w) ^^^ word bs) :=
          ih (by omega) _
      _ = (round poly)^[8 * bs.length] ((round poly)^[8] (c ^^^ b.setWidth w ^^^ (word bs <<< 8))) := by
          rw [iterate_round_xor poly 8 (c ^^^ b.setWidth w), hword]
      _ = (round poly)^[8 * (b :: bs).length] (c ^^^ word (b :: bs)) := by
          rw [← Function.iterate_add_apply, word, BitVec.xor_assoc, List.length_cons, Nat.mul_succ]

theorem word_injective {bs bs' : List (BitVec 8)} (hlen : bs.length = bs'.length)
    (hw : 8 * bs.length ≤ w) (h : (word bs : BitVec w) = word bs') : bs = bs' := by
  induction bs generalizing bs' with
  | nil => exact (List.length_eq_zero_iff.1 hlen.symm).symm
  | cons b bs ih =>
    cases bs' with
    | nil => cases hlen
    | cons b' bs' =>
      rw [List.length_cons] at hw
      have hbit : ∀ i, (word (b :: bs) : BitVec w).getLsbD i = (word (b' :: bs')).getLsbD i :=
        fun i => by rw [h]
      simp only [word, BitVec.getLsbD_xor, BitVec.getLsbD_setWidth, BitVec.getLsbD_shiftLeft] at hbit
      have hhead : b = b' := by
        apply BitVec.eq_of_getLsbD_eq
        intro i hi
        simpa [hi, show i < w by omega] using hbit i
      have htail : (word bs : BitVec w) = word bs' := by
        apply BitVec.eq_of_getLsbD_eq
        intro i hi
        by_cases hin : i + 8 < w
        · simpa [hhead, hin, Nat.not_lt.2 (Nat.le_add_left 8 i)] using hbit (i + 8)
        · rw [getLsbD_word (by omega),
            getLsbD_word (by rw [← Nat.succ.inj hlen]; omega)]
      rw [hhead, ih (Nat.succ.inj hlen) (by omega) htail]

variable {poly}

theorem round_injective (hpoly : poly.msb = true) : Function.Injective (round poly) := by
  intro c d h
  have hp : poly.getLsbD (w - 1) = true := by rw [← BitVec.msb_eq_getLsbD_last, hpoly]
  have hpos : 0 < w := Nat.lt_of_le_of_lt (Nat.zero_le _) (BitVec.lt_of_getLsbD hp)
  have htop : ∀ x : BitVec w, (round poly x).getLsbD (w - 1) = x.getLsbD 0 := by
    intro x
    have hshift : (x >>> 1).getLsbD (w - 1) = false := by
      rw [BitVec.getLsbD_ushiftRight]
      exact BitVec.getLsbD_of_ge x _ (by omega)
    cases hx : x.getLsbD 0 <;> simp [round, hx, hshift, hp]
  have hlow : c.getLsbD 0 = d.getLsbD 0 := by rw [← htop c, h, htop d]
  have hhigh : c >>> 1 = d >>> 1 := by
    simp only [round, hlow] at h
    split at h
    · exact (BitVec.xor_right_inj poly).1 h
    · exact h
  apply BitVec.eq_of_getLsbD_eq
  intro i hi
  cases i with
  | zero => exact hlow
  | succ i =>
    have hbit := congrArg (fun x : BitVec w => x.getLsbD i) hhigh
    simpa only [BitVec.getLsbD_ushiftRight, Nat.add_comm 1] using hbit

theorem feed_injective (hpoly : poly.msb = true) (b : BitVec 8) :
    Function.Injective (fun c => feed poly c b) := by
  intro c d h
  have hxor := (round_injective hpoly).iterate 8 h
  exact (BitVec.xor_left_inj (b.setWidth w)).1 hxor

theorem foldl_feed_injective (hpoly : poly.msb = true) (bs : List (BitVec 8)) :
    Function.Injective (fun c => bs.foldl (feed poly) c) := by
  induction bs with
  | nil => exact Function.injective_id
  | cons b bs ih => exact ih.comp (feed_injective hpoly b)

/-- Two byte strings of one length that differ, and only within a stretch of `n` bytes. -/
def Burst (n : Nat) (bs bs' : List (BitVec 8)) : Prop :=
  ∃ pre mid mid' post, bs = pre ++ mid ++ post ∧ bs' = pre ++ mid' ++ post ∧
    mid.length = mid'.length ∧ mid.length ≤ n ∧ mid ≠ mid'

namespace Burst

variable {n : Nat} {bs bs' : List (BitVec 8)}

theorem append (h : Burst n bs bs') (xs ys : List (BitVec 8)) :
    Burst n (xs ++ bs ++ ys) (xs ++ bs' ++ ys) := by
  obtain ⟨pre, mid, mid', post, rfl, rfl, hmid⟩ := h
  refine ⟨xs ++ pre, mid, mid', post ++ ys, ?_, ?_, hmid⟩ <;> simp only [List.append_assoc]

theorem foldl_feed_ne (h : Burst n bs bs') (hpoly : poly.msb = true) (hw : 8 * n ≤ w)
    (c : BitVec w) : bs.foldl (feed poly) c ≠ bs'.foldl (feed poly) c := by
  obtain ⟨pre, mid, mid', post, rfl, rfl, hlen, hle, hne⟩ := h
  intro h
  simp only [List.foldl_append] at h
  have hmid := foldl_feed_injective hpoly post h
  generalize pre.foldl (feed poly) c = d at hmid
  have hin : 8 * mid.length ≤ w := Nat.le_trans (Nat.mul_le_mul_left 8 hle) hw
  have hin' : 8 * mid'.length ≤ w := hlen ▸ hin
  rw [foldl_feed poly hin, foldl_feed poly hin', ← hlen] at hmid
  have hxor := (round_injective hpoly).iterate _ hmid
  exact hne (word_injective hlen hin ((BitVec.xor_right_inj _).1 hxor))

end Burst

end Libfgw.Lib.ReflectedCrc
