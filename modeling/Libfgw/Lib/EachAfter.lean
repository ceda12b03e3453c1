import Mathlib.Data.List.Induction

/-! What holds of each entry of a log, given the entries before it. -/

universe u v

namespace Libfgw.Lib

variable {α : Type u} {β : Type v} {P Q R : List α → α → Prop}

def EachAfter (P : List α → α → Prop) (l : List α) : Prop :=
  ∀ pre a post, l = pre ++ a :: post → P pre a

namespace EachAfter

@[simp] theorem nil : EachAfter P [] := fun _ _ _ h => absurd h (by simp)

theorem left {l l' : List α} (h : EachAfter P (l ++ l')) : EachAfter P l := by
  intro pre a post hsplit
  refine h pre a (post ++ l') ?_
  rw [hsplit, List.append_assoc, List.cons_append]

theorem last {l : List α} {a : α} (h : EachAfter P (l ++ [a])) : P l a := h l a [] rfl

theorem concat {l : List α} {a : α} (h : EachAfter P l) (ha : P l a) : EachAfter P (l ++ [a]) := by
  intro pre b post hsplit
  rcases List.eq_nil_or_concat post with rfl | ⟨post, c, rfl⟩
  · obtain ⟨rfl, hlast⟩ := List.append_inj' hsplit rfl
    obtain rfl := List.singleton_inj.1 hlast
    exact ha
  · rw [List.concat_eq_append, ← List.cons_append, ← List.append_assoc] at hsplit
    exact h pre b post (List.append_inj' hsplit rfl).1

theorem concat_iff {l : List α} {a : α} : EachAfter P (l ++ [a]) ↔ EachAfter P l ∧ P l a :=
  ⟨fun h => ⟨h.left, h.last⟩, fun h => h.1.concat h.2⟩

theorem congr {l : List α} (hR : EachAfter R l)
    (h : ∀ pre a, EachAfter R pre → EachAfter P pre → EachAfter Q pre → R pre a →
      (P pre a ↔ Q pre a)) :
    EachAfter P l ↔ EachAfter Q l := by
  induction l using List.reverseRecOn with
  | nil => exact iff_of_true nil nil
  | append_singleton l a ih =>
    rw [concat_iff, concat_iff, ih hR.left]
    refine and_congr_right fun hQ => ?_
    exact h l a hR.left ((ih hR.left).2 hQ) hQ hR.last

theorem map_iff {P : List β → β → Prop} {f : α → β} {l : List α} :
    EachAfter P (l.map f) ↔ EachAfter (fun pre a => P (pre.map f) (f a)) l := by
  induction l using List.reverseRecOn with
  | nil => exact iff_of_true nil nil
  | append_singleton l a ih => rw [List.map_append, List.map_singleton, concat_iff, concat_iff, ih]

end EachAfter

end Libfgw.Lib
