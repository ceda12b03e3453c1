import Mathlib.Data.List.Nodup
import Mathlib.Data.List.Perm.Subperm
import Mathlib.Data.Nat.ModEq

/-! Turns that a counter deals out: it is reduced modulo the number of places, one of which is left
out.  A round of turns falls to each other place once. -/

universe u

namespace Libfgw.Lib.RoundRobin

def turn (n p c : Nat) : Nat := if c % n < p then c % n else c % n + 1

theorem nodup_mod (n c : Nat) : ((List.range n).map fun i => (c + i) % n).Nodup := by
  refine List.Nodup.map_on ?_ List.nodup_range
  intro i hi j hj hmod
  rw [List.mem_range] at hi hj
  have hij : i % n = j % n := Nat.ModEq.add_left_cancel' c hmod
  rwa [Nat.mod_eq_of_lt hi, Nat.mod_eq_of_lt hj] at hij

theorem map_mod_perm (n c : Nat) :
    ((List.range n).map fun i => (c + i) % n).Perm (List.range n) := by
  refine (List.subperm_of_subset (nodup_mod n c) ?_).perm_of_length_le (by simp)
  intro k hk
  obtain ⟨i, hi, rfl⟩ := List.mem_map.1 hk
  exact List.mem_range.2 (Nat.mod_lt _ (Nat.zero_lt_of_lt (List.mem_range.1 hi)))

theorem map_turn_perm {n p : Nat} (hp : p ≤ n) (c : Nat) :
    ((List.range n).map fun i => turn n p (c + i)).Perm
      ((List.range (n + 1)).filter (· ≠ p)) := by
  have hround : ((List.range n).map fun i => turn n p (c + i)).Perm
      ((List.range n).map fun r => if r < p then r else r + 1) := by
    have h := (map_mod_perm n c).map fun r => if r < p then r else r + 1
    rwa [List.map_map] at h
  refine hround.trans ((List.perm_ext_iff_of_nodup ?_ (List.nodup_range.filter _)).2 fun k => ?_)
  · refine List.Nodup.map_on (fun r _ r' _ h => ?_) List.nodup_range
    split at h <;> split at h <;> omega
  · simp only [List.mem_map, List.mem_range, List.mem_filter, decide_eq_true_eq]
    constructor
    · rintro ⟨r, hr, rfl⟩
      split <;> omega
    · rintro ⟨hk, hne⟩
      by_cases hlt : k < p
      · exact ⟨k, by omega, if_pos hlt⟩
      · exact ⟨k - 1, by omega, by rw [if_neg (by omega)]; omega⟩

theorem map_getElem?_perm {α : Type u} [DecidableEq α] {l : List α} (hl : l.Nodup) {p : Nat} {a : α}
    (h : l[p]? = some a) :
    (((List.range l.length).filter (· ≠ p)).map fun k => l[k]?).Perm ((l.erase a).map some) := by
  refine (List.perm_ext_iff_of_nodup ?_ ((hl.erase a).map (Option.some_injective α))).2 fun x => ?_
  · refine List.Nodup.map_on (fun k hk k' _ heq => ?_) (List.nodup_range.filter _)
    exact (List.getElem?_inj (List.mem_range.1 (List.mem_of_mem_filter hk)) hl).1 heq
  · simp only [List.mem_map, List.mem_range, List.mem_filter, decide_eq_true_eq, hl.mem_erase_iff]
    constructor
    · rintro ⟨k, ⟨hk, hne⟩, rfl⟩
      refine ⟨l[k], ⟨?_, List.getElem_mem hk⟩, (List.getElem?_eq_getElem hk).symm⟩
      rintro rfl
      exact hne ((List.getElem?_inj hk hl).1 ((List.getElem?_eq_getElem hk).trans h.symm))
    · rintro ⟨b, ⟨hne, hb⟩, rfl⟩
      obtain ⟨k, hk⟩ := List.mem_iff_getElem?.1 hb
      refine ⟨k, ⟨(List.getElem?_eq_some_iff.1 hk).1, ?_⟩, hk⟩
      rintro rfl
      exact hne (Option.some.inj (hk.symm.trans h))

end Libfgw.Lib.RoundRobin
