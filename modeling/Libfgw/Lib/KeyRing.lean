import Mathlib.Data.List.Induction
import Mathlib.Data.List.Nodup
import Mathlib.Logic.Function.Basic

/-! A bounded memory of recent keys: a queue in order of arrival, and the set of
its elements.  Recording a key beyond the capacity forgets the oldest one. -/

universe u

namespace Libfgw.Lib

structure KeyRing (K : Type u) where
  queue : List K
  map : K → Bool

namespace KeyRing

variable {K : Type u}

def empty : KeyRing K := ⟨[], fun _ => false⟩

structure Wf (cap : Nat) (r : KeyRing K) : Prop where
  nodup : r.queue.Nodup
  bounded : r.queue.length ≤ cap
  mem : ∀ k, r.map k = true ↔ k ∈ r.queue

theorem wf_empty (cap : Nat) : Wf cap (empty : KeyRing K) where
  nodup := List.nodup_nil
  bounded := Nat.zero_le _
  mem _ := by simp [empty]

theorem Wf.map_eq_false {cap : Nat} {r : KeyRing K} (hr : r.Wf cap) {k : K} :
    r.map k = false ↔ k ∉ r.queue := by
  rw [← hr.mem, Bool.not_eq_true]

variable [DecidableEq K]

def evict (r : KeyRing K) : KeyRing K :=
  match r.queue with
  | [] => r
  | k :: ks => ⟨ks, Function.update r.map k false⟩

def record (cap : Nat) (r : KeyRing K) (k : K) : KeyRing K :=
  let r : KeyRing K := ⟨r.queue ++ [k], Function.update r.map k true⟩
  if cap < r.queue.length then r.evict else r

theorem map_evict_imp {r : KeyRing K} {k : K} (h : r.evict.map k = true) : r.map k = true := by
  obtain ⟨queue, map⟩ := r
  cases queue with
  | nil => exact h
  | cons x xs =>
    simp only [evict, Function.update_apply] at h
    split at h
    · exact absurd h Bool.false_ne_true
    · exact h

theorem map_record_imp {cap : Nat} {r : KeyRing K} {k k' : K}
    (h : (r.record cap k).map k' = true) : k' = k ∨ r.map k' = true := by
  have hadd : Function.update r.map k true k' = true := by
    simp only [record] at h
    split at h
    · exact map_evict_imp h
    · exact h
  rw [Function.update_apply] at hadd
  split at hadd
  · exact Or.inl ‹_›
  · exact Or.inr hadd

theorem queue_record {cap : Nat} {r : KeyRing K} (hb : r.queue.length ≤ cap) (k : K) :
    (r.record cap k).queue = (r.queue ++ [k]).drop (r.queue.length + 1 - cap) := by
  have hlen : (r.queue ++ [k]).length = r.queue.length + 1 := by simp
  simp only [record, hlen]
  split
  · rename_i h
    rw [show r.queue.length + 1 - cap = 1 by omega]
    cases hq : r.queue ++ [k] with
    | nil => simp at hq
    | cons x xs => rfl
  · rename_i h
    rw [show r.queue.length + 1 - cap = 0 by omega, List.drop_zero]

theorem queue_foldl_record {cap : Nat} {r : KeyRing K} (hb : r.queue.length ≤ cap) (ks : List K) :
    (ks.foldl (KeyRing.record cap) r).queue =
      (r.queue ++ ks).drop (r.queue.length + ks.length - cap) := by
  induction ks using List.reverseRecOn with
  | nil => simp [Nat.sub_eq_zero_of_le hb]
  | append_singleton ks k ih =>
    have hlen : (ks.foldl (KeyRing.record cap) r).queue.length ≤ cap := by
      rw [ih, List.length_drop, List.length_append]
      omega
    rw [List.foldl_append, List.foldl_cons, List.foldl_nil, queue_record hlen, ih,
      List.length_drop, List.length_append, ← List.drop_append_of_le_length (by
        rw [List.length_append]
        omega), List.drop_drop, List.append_assoc, List.length_append, List.length_singleton]
    congr 1
    omega

theorem Wf.record {cap : Nat} {r : KeyRing K} (hr : r.Wf cap) {k : K} (hk : r.map k = false) :
    (r.record cap k).Wf cap := by
  have hnodup : (r.queue ++ [k]).Nodup := by
    rw [List.nodup_append]
    refine ⟨hr.nodup, List.nodup_singleton k, ?_⟩
    intro a ha b hb heq
    rw [List.mem_singleton.1 hb] at heq
    exact hr.map_eq_false.1 hk (heq ▸ ha)
  have hmem : ∀ k', Function.update r.map k true k' = true ↔ k' ∈ r.queue ++ [k] := by
    intro k'
    rw [Function.update_apply, List.mem_append, List.mem_singleton, ← hr.mem]
    split
    · simp [*]
    · simp [*]
  refine ⟨?_, ?_, ?_⟩
  · rw [queue_record hr.bounded]
    exact hnodup.sublist (List.drop_sublist _ _)
  · rw [queue_record hr.bounded, List.length_drop, List.length_append, List.length_singleton]
    omega
  · intro k'
    simp only [KeyRing.record]
    split
    · cases hq : r.queue ++ [k] with
      | nil => simp at hq
      | cons x xs =>
        rw [hq] at hnodup
        simp only [evict, Function.update_apply (f := Function.update r.map k true)]
        split
        · rename_i hx
          exact iff_of_false Bool.false_ne_true (hx ▸ (List.nodup_cons.1 hnodup).1)
        · rename_i hx
          rw [hmem, hq, List.mem_cons]
          exact or_iff_right hx
    · exact hmem k'

def Fresh (cap : Nat) : KeyRing K → List K → Prop
  | _, [] => True
  | r, k :: ks => r.map k = false ∧ Fresh cap (r.record cap k) ks

theorem fresh_append {cap : Nat} {r : KeyRing K} {ks ks' : List K} :
    Fresh cap r (ks ++ ks') ↔ Fresh cap r ks ∧ Fresh cap (ks.foldl (KeyRing.record cap) r) ks' := by
  induction ks generalizing r with
  | nil => simp [Fresh]
  | cons k ks ih => simp only [List.cons_append, Fresh, List.foldl_cons, ih, and_assoc]

theorem Wf.foldl_record {cap : Nat} {r : KeyRing K} (hr : r.Wf cap) {ks : List K}
    (h : Fresh cap r ks) : (ks.foldl (KeyRing.record cap) r).Wf cap := by
  induction ks generalizing r with
  | nil => exact hr
  | cons k ks ih => exact ih (hr.record h.1) h.2

theorem Fresh.nodup {cap : Nat} {r : KeyRing K} (hr : r.Wf cap) {ks : List K} (h : Fresh cap r ks)
    (hlen : ks.length ≤ cap + 1) : ks.Nodup := by
  induction ks using List.reverseRecOn with
  | nil => exact List.nodup_nil
  | append_singleton ks k ih =>
    obtain ⟨hks, hk, -⟩ := fresh_append.1 h
    rw [List.length_append, List.length_singleton] at hlen
    have hkept : ∀ k' ∈ ks, k' ∈ (ks.foldl (KeyRing.record cap) r).queue := by
      intro k' hk'
      rw [queue_foldl_record hr.bounded, List.drop_append_of_le_length (by omega)]
      exact List.mem_append_right _ hk'
    have hnew : k ∉ ks := fun hmem => (hr.foldl_record hks).map_eq_false.1 hk (hkept k hmem)
    exact List.nodup_append.2 ⟨ih hks (by omega), List.nodup_singleton k, fun a ha b hb heq =>
      hnew (by rwa [← List.mem_singleton.1 hb, ← heq])⟩

/-- Between two occurrences of a key there are at least `cap` other ones, all different. -/
def Apart (cap : Nat) (ks : List K) : Prop :=
  ∀ pre k mid post, ks = pre ++ k :: (mid ++ k :: post) →
    ∃ others : List K, others.Sublist mid ∧ others.Nodup ∧ k ∉ others ∧ cap ≤ others.length

/-- A key comes again only when the ring has been filled with others. -/
theorem Fresh.apart {cap : Nat} {r : KeyRing K} (hr : r.Wf cap) {ks : List K} (h : Fresh cap r ks) :
    Apart cap ks := by
  rintro pre k mid post rfl
  obtain ⟨hpre, hrest⟩ := fresh_append.1 h
  have hwf := hr.foldl_record hpre
  have hround : Fresh cap (pre.foldl (KeyRing.record cap) r) ((k :: mid) ++ [k]) := by
    rw [show k :: (mid ++ k :: post) = ((k :: mid) ++ [k]) ++ post by simp] at hrest
    exact (fresh_append.1 hrest).1
  have hlong : cap ≤ mid.length := by
    by_contra hshort
    have hlen : ((k :: mid) ++ [k]).length ≤ cap + 1 := by
      rw [List.length_append, List.length_cons, List.length_singleton]
      omega
    have hnodup := hround.nodup hwf hlen
    exact (List.nodup_cons.1 hnodup).1 (List.mem_append_right _ (List.mem_singleton_self k))
  have hfirst : Fresh cap (pre.foldl (KeyRing.record cap) r) (k :: mid.take cap) := by
    rw [← List.take_append_drop cap mid, ← List.cons_append, List.append_assoc] at hround
    exact (fresh_append.1 hround).1
  have hlen : (k :: mid.take cap).length ≤ cap + 1 := by
    rw [List.length_cons, List.length_take]
    omega
  obtain ⟨hnot, hnodup⟩ := List.nodup_cons.1 (hfirst.nodup hwf hlen)
  refine ⟨mid.take cap, List.take_sublist cap mid, hnodup, hnot, ?_⟩
  rw [List.length_take]
  omega

end KeyRing

end Libfgw.Lib
