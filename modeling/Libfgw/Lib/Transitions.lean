import Mathlib.Tactic.TypeStar

/-! Systems that take the steps that are enabled, and what a system shows of another. -/

namespace Libfgw.Lib

structure Transitions (σ ι : Type*) where
  init : σ
  Enabled : σ → ι → Prop
  step : σ → ι → σ

namespace Transitions

variable {σ τ ι κ : Type*} {M : Transitions σ ι} {N : Transitions τ κ}

inductive Reachable (M : Transitions σ ι) : σ → Prop
  | init : Reachable M M.init
  | step {s : σ} (h : Reachable M s) {op : ι} (henabled : M.Enabled s op) : Reachable M (M.step s op)

theorem Reachable.invariant {P : σ → Prop} {s : σ} (h : Reachable M s) (hinit : P M.init)
    (hstep : ∀ {s op}, P s → M.Enabled s op → P (M.step s op)) : P s := by
  induction h with
  | init => exact hinit
  | step h henabled ih => exact hstep ih henabled

/-- What `view` shows of a step of `M` is a step of `N`, or nothing. -/
structure Refines (M : Transitions σ ι) (N : Transitions τ κ) (view : σ → τ) (Inv : σ → Prop) :
    Prop where
  init : view M.init = N.init
  inv : Inv M.init
  step : ∀ {s op}, Reachable N (view s) → Inv s → M.Enabled s op → Inv (M.step s op) ∧
    (view (M.step s op) = view s ∨
      ∃ op', N.Enabled (view s) op' ∧ view (M.step s op) = N.step (view s) op')

theorem Refines.reachable {view : σ → τ} {Inv : σ → Prop} (h : Refines M N view Inv) {s : σ}
    (hs : Reachable M s) : Reachable N (view s) ∧ Inv s := by
  have hinit : Reachable N (view M.init) ∧ Inv M.init := ⟨h.init ▸ .init, h.inv⟩
  refine hs.invariant (P := fun s => Reachable N (view s) ∧ Inv s) hinit ?_
  rintro s op ⟨hview, hinv⟩ henabled
  obtain ⟨hinv', hstep⟩ := h.step hview hinv henabled
  refine ⟨?_, hinv'⟩
  rcases hstep with hsame | ⟨op', henabled', hnext⟩
  · rwa [hsame]
  · rw [hnext]
    exact hview.step henabled'

end Transitions

end Libfgw.Lib
