import Libfgw.Callbacks
import Libfgw.DataStream.Absence
import Libfgw.DataStream.Views

namespace Libfgw

open FgwSegmentHeader Lib DataStream

variable {σ : Type}

def RxView.Within (window : Nat) (v : RxView) : Prop :=
  ∀ k p, v.buffer.find? k = some p → (k - v.expected).toNat < window

namespace RxView

variable {window : Nat} {v : RxView}

theorem within_fresh (window : Nat) (handler : Option Handler) :
    (RxView.fresh handler).Within window := fun k p h => by simp [RxView.fresh] at h

theorem Within.size_le (h : v.Within window) : v.buffer.size ≤ window := by
  let ahead := v.buffer.entries.map fun e => (e.1 - v.expected).toNat
  have hnodup : ahead.Nodup := by
    refine List.Pairwise.map _ ?_ v.buffer.sorted
    intro a b hlt heq
    have hkey : a.1 = b.1 := by
      have hsub := BitVec.eq_of_toNat_eq heq
      bv_omega
    exact absurd hkey (ne_of_lt hlt)
  have hsub : ahead ⊆ List.range window := by
    intro x hx
    obtain ⟨e, he, rfl⟩ := List.mem_map.1 hx
    exact List.mem_range.2 (h e.1 e.2 (SortedMap.find?_eq_some.2 he))
  have hle := (hnodup.subperm hsub).length_le
  rwa [List.length_map, List.length_range] at hle

end RxView

namespace DataStream

variable {S : Setting σ} {key : SessionKey} {st st' : StreamState σ}

/-- A handler that is told of an open session does not close it. -/
def OpenKeeps (S : Setting σ) : Prop :=
  ∀ o key handler sid, ∀ c ∈ (S.onEvent o (.sessionOpen key handler sid)).2, ¬ Closes S key c

def InWindow (S : Setting σ) (key : SessionKey) (st : StreamState σ) : Prop :=
  ∀ v, st.rxView key = some v → v.Within S.config.recvWindow.toNat

theorem InWindow.resets (h : InWindow S key st) (hr : Resets key st st') : InWindow S key st' := by
  intro v hv
  rcases hr with hsame | hgone | ⟨handler, hfresh⟩
  · exact h v (hsame ▸ hv)
  · rw [hgone] at hv
    cases hv
  · rw [hfresh] at hv
    cases hv
    exact RxView.within_fresh _ handler

theorem collectReady_within {window : Nat} (fuel : Nat) {s : SessionState}
    (h : s.rxView.Within window) : (collectReady fuel s).2.rxView.Within window := by
  induction fuel generalizing s with
  | zero => exact h
  | succ fuel ih =>
    simp only [collectReady]
    split
    · exact h
    · rename_i seq blk hbegin
      split
      · exact h
      · rename_i hseq
        refine ih fun k p hk => ?_
        have hk' : s.rxBuffer.eraseBegin.find? k = some p := hk
        rw [SortedMap.find?_eraseBegin hbegin] at hk'
        split at hk'
        · cases hk'
        · rename_i hne
          have hin : (k - s.expectedRxSeq).toNat < window := h k p hk'
          show (k - (s.expectedRxSeq + 1#32)).toNat < window
          bv_omega

theorem onData_inWindow {seq : ZceUint32} {payload : List ZceByte}
    (hseq : ¬ outsideWindow S key seq st) (h : InWindow S key st) :
    InWindow S key (onData S key seq payload st) := by
  have hens : InWindow S key (ensureSession S key st) := h.resets (ensureSession_resets key key st)
  have hexpected : ∀ s, (ensureSession S key st).sessions key = some s →
      (seq - s.expectedRxSeq).toNat < S.config.recvWindow.toNat := by
    intro s hs
    have hview : (ensureSession S key st).rxView key = some s.rxView := by
      rw [StreamState.rxView, hs, Option.map_some]
    have hin : (seq - ((st.sessions key).map SessionState.expectedRxSeq).getD 0#32).toNat <
        S.config.recvWindow.toNat := Nat.lt_of_not_le hseq
    rcases ensureSession_view (S := S) key st with ⟨hsame, -⟩ | ⟨hnone, handler, hfresh⟩
    · rw [hsame, StreamState.rxView] at hview
      obtain ⟨s', hs', heq⟩ := Option.map_eq_some_iff.1 hview
      rw [hs', Option.map_some, Option.getD_some] at hin
      rwa [show s.expectedRxSeq = s'.expectedRxSeq from (congrArg RxView.expected heq).symm]
    · rw [rxView_eq_none.1 hnone] at hin
      rw [hfresh] at hview
      rwa [show s.expectedRxSeq = 0#32 from
        (congrArg RxView.expected (Option.some.inj hview)).symm]
  simp only [onData]
  split
  · exact hens
  · rename_i s hs
    set s' : SessionState :=
      if (S.mbacquire (ensureSession S key st).clock payload.length).length ≥ payload.length then
        { s with rxBuffer := s.rxBuffer.emplace seq payload } else s with hs'
    have hin : s'.rxView.Within S.config.recvWindow.toNat := by
      have hold : s.rxView.Within S.config.recvWindow.toNat :=
        hens s.rxView (by rw [StreamState.rxView, hs, Option.map_some])
      rw [hs']
      split
      · intro k p hk
        have hk' : (s.rxBuffer.emplace seq payload).find? k = some p := hk
        rw [SortedMap.find?_emplace] at hk'
        split at hk'
        · rename_i hkey
          rw [hkey]
          exact hexpected s hs
        · exact hold k p hk'
      · exact hold
    have hset : ∀ (st' : StreamState σ) (s'' : SessionState),
        s''.rxView.Within S.config.recvWindow.toNat → InWindow S key (st'.setSession key s'') := by
      intro st' s'' hs'' v hv
      rw [rxView_setSession, if_pos rfl] at hv
      cases hv
      exact hs''
    cases hhandler : s'.handler with
    | none =>
      simp only [deliverInOrder, hhandler]
      exact hset _ s' hin
    | some handler =>
      exact (hset _ _ (collectReady_within _ hin)).resets (deliverInOrder_resets key hhandler _)

theorem outsideWindow_iff_rxView (seq : ZceUint32) (st : StreamState σ) :
    outsideWindow S key seq st ↔
      (seq - ((st.rxView key).map RxView.expected).getD 0#32).toNat ≥ S.config.recvWindow.toNat := by
  rw [outsideWindow, StreamState.rxView, Option.map_map]
  rfl

theorem onSyn_view (hopen : OpenKeeps S) (st : StreamState σ) :
    (onSyn S key st).rxView key = (ensureSession S key st).rxView key := by
  simp only [onSyn]
  split
  · rfl
  · rename_i handler hhandler
    rw [rxView_bind_handler] at hhandler
    obtain ⟨v, hv, -⟩ := Option.bind_eq_some_iff.1 hhandler
    rw [hv]
    exact calls_rxView hv (hopen _ key handler key.2)

theorem onSyn_outsideWindow (hopen : OpenKeeps S) (seq : ZceUint32) (st : StreamState σ) :
    outsideWindow S key seq (onSyn S key st) ↔ outsideWindow S key seq st := by
  have hens : (((ensureSession S key st).rxView key).map RxView.expected).getD 0#32 =
      ((st.rxView key).map RxView.expected).getD 0#32 := by
    rcases ensureSession_view (S := S) key st with ⟨hsame, -⟩ | ⟨hnone, handler, hfresh⟩
    · rw [hsame]
    · rw [hnone, hfresh]
      rfl
  rw [outsideWindow_iff_rxView, outsideWindow_iff_rxView, onSyn_view hopen, hens]

theorem acceptSegment_inWindow (hopen : OpenKeeps S) {hdr : FgwSegmentHeader}
    (hin : carriesData hdr = true → ¬ outsideWindow S key hdr.seqNum st) (payload : List ZceByte)
    (h : InWindow S key st) : InWindow S key (acceptSegment S key hdr payload st) := by
  have hsyn : InWindow S key (if hdr.isSyn then onSyn S key st else st) ∧ (carriesData hdr = true →
      ¬ outsideWindow S key hdr.seqNum (if hdr.isSyn then onSyn S key st else st)) := by
    split
    · rw [onSyn_outsideWindow hopen]
      exact ⟨h.resets (onSyn_resets key key st), hin⟩
    · exact ⟨h, hin⟩
  unfold acceptSegment
  dsimp only
  generalize (if hdr.isSyn then onSyn S key st else st) = st₁ at hsyn ⊢
  obtain ⟨hst, hseq⟩ := hsyn
  split
  · exact hst.resets (onFin_resets key key st₁)
  split
  · rename_i hdata
    exact onData_inWindow (hseq hdata) hst
  · exact hst

theorem onData_resets {key' : SessionKey} (hkey : key' ≠ key) (seq : ZceUint32) (payload : List ZceByte)
    (st : StreamState σ) : Resets key st (onData S key' seq payload st) := by
  refine (ensureSession_resets (S := S) key key' st).trans ?_
  simp only [onData]
  split
  · exact Resets.refl key _
  · rename_i s hs
    generalize (if (S.mbacquire (ensureSession S key' st).clock payload.length).length ≥
      payload.length then { s with rxBuffer := s.rxBuffer.emplace seq payload } else s) = s'
    refine ((Resets.of_sessions rfl).trans (setSession_resets hkey _ s')).trans ?_
    cases hhandler : s'.handler with
    | none =>
      simp only [deliverInOrder, hhandler]
      exact Resets.refl key _
    | some handler =>
      exact (setSession_resets hkey _ _).trans (deliverInOrder_resets key hhandler _)

theorem acceptSegment_resets {key' : SessionKey} (hkey : key' ≠ key) (hdr : FgwSegmentHeader)
    (payload : List ZceByte) (st : StreamState σ) :
    Resets key st (acceptSegment S key' hdr payload st) := by
  have hsyn : Resets key st (if hdr.isSyn then onSyn S key' st else st) := by
    split
    · exact onSyn_resets key key' st
    · exact Resets.refl key st
  refine hsyn.trans ?_
  unfold acceptSegment
  dsimp only
  generalize (if hdr.isSyn then onSyn S key' st else st) = st₁
  split
  · exact onFin_resets key key' st₁
  split
  · exact onData_resets hkey _ _ st₁
  · exact Resets.refl key st₁

theorem handleFrame_inWindow (hopen : OpenKeeps S) (key : SessionKey) (ch : ChannelRef)
    (f : List ZceByte) {st : StreamState σ} (h : InWindow S key st) :
    InWindow S key (handleFrame S ch st f) := by
  rcases handleFrame_cases S ch f st with ⟨-, hjudges⟩ | ⟨hr, hdr, -, -, -, heq⟩
  · exact h.resets hjudges.resets
  rw [heq, onSessionSegment]
  split
  · exact h.resets (noteLoser_judgesOnly ch st).resets
  split
  · exact h
  · rename_i hout
    have hadmit : Resets key st (admitted ch (dedupKey (frameKey hdr).1 hdr) st) :=
      Resets.of_sessions (admitted_sessions ch _ st)
    by_cases hkey : frameKey hdr = key
    · subst hkey
      have hsame : outsideWindow S (frameKey hdr) hdr.seqNum
          (admitted ch (dedupKey (frameKey hdr).1 hdr) st) ↔
            outsideWindow S (frameKey hdr) hdr.seqNum st := by
        rw [outsideWindow, outsideWindow, admitted_sessions]
      exact acceptSegment_inWindow hopen (fun hdata hbad => hout ⟨hdata, hsame.1 hbad⟩) _
        (h.resets hadmit)
    · exact (h.resets hadmit).resets (acceptSegment_resets hkey hdr _ _)

/-- No session buffers a segment outside its window, and so none buffers more than that many. -/
def RxBounded (S : Setting σ) (st : StreamState σ) : Prop :=
  ∀ key s, st.sessions key = some s →
    (∀ k p, s.rxBuffer.find? k = some p →
      (k - s.expectedRxSeq).toNat < S.config.recvWindow.toNat) ∧
    s.rxBuffer.size ≤ S.config.recvWindow.toNat

theorem rxBounded_of_inWindow (h : ∀ key, InWindow S key st) : RxBounded S st := by
  intro key s hs
  have hin := h key s.rxView (by rw [StreamState.rxView, hs, Option.map_some])
  exact ⟨hin, hin.size_le⟩

end DataStream

/-- Whatever arrives and whatever the owner calls, each frame finds, and leaves, no buffer that
reaches beyond its window. -/
theorem rx_buffer_bounded {S : Setting σ} (hopen : OpenKeeps S) (owner : σ)
    (selector : LinkSelector) (ops : List (Op σ)) :
    (∀ p ∈ trace S (DataStream.init owner selector) ops, RxBounded S p.1) ∧
      RxBounded S (run S (DataStream.init owner selector) ops).toStreamState := by
  have h := @run_invariant σ S
    (fun tr st => (∀ p ∈ tr, ∀ key, InWindow S key p.1) ∧ ∀ key, InWindow S key st)
    (fun _ => True) (fun _ => True)
    (fun op tr ds _ hother h => ⟨h.1, fun key => (h.2 key).resets (step_resets key hother)⟩)
    (fun ch f tr st _ h => ⟨List.forall_mem_append.2 ⟨h.1, List.forall_mem_singleton.2 h.2⟩,
      fun key => handleFrame_inWindow hopen key ch f (h.2 key)⟩)
    ops (DataStream.init owner selector) [] (fun _ _ => trivial) (fun _ _ => trivial)
    ⟨fun _ hp => absurd hp List.not_mem_nil, fun key v hv => by cases hv⟩
  rw [List.nil_append] at h
  exact ⟨fun p hp => rxBounded_of_inWindow (h.1 p hp), rxBounded_of_inWindow h.2⟩

def aheadOps : List (Op Unit) :=
  [.onChannelBytes 1 (dataFrame inportSetting sampleKey 3 [4#8]),
    .onChannelBytes 2 (dataFrame inportSetting sampleKey 4 [5#8])]

example : ((run hastySetting (DataStream.init ()) aheadOps).sessions sampleKey).map
    (fun s => s.rxBuffer.entries.map Prod.fst) = some [3#32] := by decide +kernel

theorem rx_buffer_bounded_hasty :
    RxBounded hastySetting (run hastySetting (DataStream.init ()) aheadOps).toStreamState := by
  have hopen : OpenKeeps hastySetting := fun _ _ _ _ _ hc => absurd hc List.not_mem_nil
  exact (rx_buffer_bounded hopen () {} aheadOps).2

end Libfgw
