import Libfgw.DataStream.Verdict

namespace Libfgw

open Lib DataStream

variable {σ : Type}

def keysOf (S : Setting σ) (tr : List (StreamState σ × List ZceByte)) : List DedupKey :=
  tr.filterMap fun p => acceptedKey S p.1 p.2

/-- The dedup table is what the frames so far have put into it, each key when it was new. -/
structure Tracks (S : Setting σ) (tr : List (StreamState σ × List ZceByte)) (st : StreamState σ) :
    Prop where
  fresh : KeyRing.Fresh kDedupRing KeyRing.empty (keysOf S tr)
  dedup : st.dedup = (keysOf S tr).foldl (KeyRing.record kDedupRing) KeyRing.empty
  found : ∀ p ∈ tr, p.1.dedup.Wf kDedupRing

namespace Tracks

variable {S : Setting σ} {tr : List (StreamState σ × List ZceByte)} {st : StreamState σ}

theorem init (owner : σ) (selector : LinkSelector) :
    Tracks S [] (DataStream.init owner selector).toStreamState :=
  ⟨trivial, rfl, fun _ hp => absurd hp List.not_mem_nil⟩

theorem wf (h : Tracks S tr st) : st.dedup.Wf kDedupRing := by
  rw [h.dedup]
  exact (KeyRing.wf_empty kDedupRing).foldl_record h.fresh

theorem of_dedup (h : Tracks S tr st) {st' : StreamState σ} (hdedup : st'.dedup = st.dedup) :
    Tracks S tr st' := ⟨h.fresh, hdedup.trans h.dedup, h.found⟩

theorem frame (h : Tracks S tr st) (ch : ChannelRef) (f : List ZceByte) :
    Tracks S (tr ++ [(st, f)]) (handleFrame S ch st f) := by
  have hfound : ∀ p ∈ tr ++ [(st, f)], p.1.dedup.Wf kDedupRing :=
    List.forall_mem_append.2 ⟨h.found, List.forall_mem_singleton.2 h.wf⟩
  have hdedup := handleFrame_records S ch st f
  cases hkey : acceptedKey S st f with
  | none =>
    have hkeys : keysOf S (tr ++ [(st, f)]) = keysOf S tr := by
      simp [keysOf, hkey]
    rw [hkey] at hdedup
    exact ⟨hkeys ▸ h.fresh, by rw [hkeys, hdedup]; exact h.dedup, hfound⟩
  | some dk =>
    have hkeys : keysOf S (tr ++ [(st, f)]) = keysOf S tr ++ [dk] := by
      simp [keysOf, hkey]
    have hnew : st.dedup.map dk = false := acceptedKey_fresh S hkey
    rw [hkey] at hdedup
    refine ⟨?_, ?_, hfound⟩
    · rw [hkeys, KeyRing.fresh_append, ← h.dedup]
      exact ⟨h.fresh, hnew, trivial⟩
    · rw [hkeys, List.foldl_append, ← h.dedup]
      exact hdedup

theorem run (owner : σ) (selector : LinkSelector) (ops : List (Op σ)) :
    Tracks S (trace S (DataStream.init owner selector) ops)
      (DataStream.run S (DataStream.init owner selector) ops).toStreamState :=
  @run_invariant σ S (Tracks S) (fun _ => True) (fun _ => True)
    (fun _ _ ds _ hother h => h.of_dedup (step_dedup S hother ds))
    (fun ch f _ _ _ h => h.frame ch f) ops (DataStream.init owner selector) [] (fun _ _ => trivial)
    (fun _ _ => trivial) (init owner selector)

end Tracks

/-- Whatever arrives, the queue and the map of the dedup table agree, and a key is accepted again
only after as many other ones as the table holds. -/
theorem dedup_separates (S : Setting σ) (owner : σ) (selector : LinkSelector) (ops : List (Op σ)) :
    let ds := DataStream.init owner selector
    (∀ p ∈ trace S ds ops, p.1.dedup.Wf kDedupRing) ∧ (run S ds ops).dedup.Wf kDedupRing ∧
      KeyRing.Apart kDedupRing (acceptances S ds ops) := by
  intro ds
  have h := Tracks.run (S := S) owner selector ops
  exact ⟨h.found, h.wf, h.fresh.apart (KeyRing.wf_empty kDedupRing)⟩

end Libfgw
