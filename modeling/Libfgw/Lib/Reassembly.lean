import Mathlib.Data.Finset.Insert
import Mathlib.Data.Fintype.EquivFin

/-! Putting numbered pieces back in order.  A receiver keeps the pieces that arrive
inside a window above the first one it lacks, and hands on the run that starts at
piece 0. -/

namespace Libfgw.Lib.Reassembly

def next (kept : Finset Nat) : Nat := Nat.find (Infinite.exists_notMem_finset kept)

theorem next_notMem (kept : Finset Nat) : next kept ∉ kept :=
  Nat.find_spec (Infinite.exists_notMem_finset kept)

theorem mem_of_lt_next {kept : Finset Nat} {k : Nat} (h : k < next kept) : k ∈ kept :=
  not_not.1 (Nat.find_min (Infinite.exists_notMem_finset kept) h)

theorem next_le {kept : Finset Nat} {k : Nat} (h : k ∉ kept) : next kept ≤ k :=
  Nat.find_min' (Infinite.exists_notMem_finset kept) h

theorem le_next {kept : Finset Nat} {m : Nat} (h : ∀ k < m, k ∈ kept) : m ≤ next kept := by
  by_contra hlt
  exact next_notMem kept (h _ (not_le.1 hlt))

theorem next_eq {kept : Finset Nat} {m : Nat} (h : ∀ k < m, k ∈ kept) (hm : m ∉ kept) :
    next kept = m := le_antisymm (next_le hm) (le_next h)

@[simp] theorem next_empty : next ∅ = 0 := next_eq (by simp) (by simp)

theorem next_mono {kept kept' : Finset Nat} (h : kept ⊆ kept') : next kept ≤ next kept' :=
  le_next fun _ hk => h (mem_of_lt_next hk)

def receive (window : Nat) (kept : Finset Nat) (k : Nat) : Finset Nat :=
  if next kept ≤ k ∧ k < next kept + window then insert k kept else kept

theorem receive_of_mem {window : Nat} {kept : Finset Nat} {k : Nat} (h : k ∈ kept) :
    receive window kept k = kept := by
  unfold receive
  split
  · exact Finset.insert_eq_of_mem h
  · rfl

theorem subset_receive (window : Nat) (kept : Finset Nat) (k : Nat) :
    kept ⊆ receive window kept k := by
  unfold receive
  split
  · exact Finset.subset_insert k kept
  · exact Finset.Subset.refl kept

theorem mem_receive_imp {window : Nat} {kept : Finset Nat} {k j : Nat}
    (h : j ∈ receive window kept k) : j = k ∨ j ∈ kept := by
  unfold receive at h
  split at h
  · exact Finset.mem_insert.1 h
  · exact Or.inr h

theorem mem_receive_self {window : Nat} {kept : Finset Nat} {k : Nat} (hk : k < window) :
    k ∈ receive window kept k := by
  unfold receive
  split
  · exact Finset.mem_insert_self k kept
  · rename_i hout
    by_contra hnot
    exact hout ⟨next_le hnot, Nat.lt_of_lt_of_le hk (Nat.le_add_left _ _)⟩

def receiveAll (window : Nat) (arrivals : List Nat) : Finset Nat :=
  arrivals.foldl (receive window) ∅

@[simp] theorem receiveAll_concat (window : Nat) (arrivals : List Nat) (k : Nat) :
    receiveAll window (arrivals ++ [k]) = receive window (receiveAll window arrivals) k := by
  rw [receiveAll, List.foldl_append]
  rfl

theorem mem_receiveAll {window : Nat} {arrivals : List Nat} (h : ∀ k ∈ arrivals, k < window)
    {j : Nat} : j ∈ receiveAll window arrivals ↔ j ∈ arrivals := by
  induction arrivals using List.reverseRecOn with
  | nil => simp [receiveAll]
  | append_singleton arrivals k ih =>
    obtain ⟨harrivals, hk⟩ := List.forall_mem_append.1 h
    rw [receiveAll_concat, List.mem_append, List.mem_singleton, ← ih harrivals]
    constructor
    · intro hj
      exact (mem_receive_imp hj).symm
    · rintro (hj | rfl)
      · exact subset_receive window _ k hj
      · exact mem_receive_self (hk j (List.mem_singleton_self j))

end Libfgw.Lib.Reassembly
