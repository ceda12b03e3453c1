import Libfgw.DataStream.ReceiveLaws
import Libfgw.Lib.Reassembly

namespace Libfgw

open FgwSegmentHeader Lib Lib.Reassembly

variable {σ : Type}

namespace DataStream

variable {S : Setting σ} {key : SessionKey} {segs : List (List ZceByte)}
  {base : List (Option (List ZceByte))} {kept : Finset Nat} {st st' : StreamState σ}

/-- The buffer holds the kept segments from `m` on. -/
def Buffers (segs : List (List ZceByte)) (kept : Finset Nat) (m : Nat)
    (buffer : SortedMap ZceUint32 (List ZceByte)) : Prop :=
  ∀ x p, buffer.find? x = some p ↔
    ∃ k ∈ kept, m ≤ k ∧ x = BitVec.ofNat 32 k ∧ segs[k]? = some p

/-- The receive side of a session that has kept a set of its segments: the ones before the
first it lacks have been handed on, the others wait in the buffer. -/
structure Reassembles (S : Setting σ) (key : SessionKey) (segs : List (List ZceByte))
    (base : List (Option (List ZceByte))) (kept : Finset Nat) (st : StreamState σ) : Prop where
  kept_lt : ∀ k ∈ kept, k < segs.length
  absent : st.rxView key = none → kept = ∅ ∧ Answers S key
  present : ∀ v, st.rxView key = some v → v.handler.isSome ∧
    v.expected = BitVec.ofNat 32 (next kept) ∧ Buffers segs kept (next kept) v.buffer
  traffic : traffic key st.events = base ++ (segs.take (next kept)).map some

def Remembers (key : SessionKey) (segs : List (List ZceByte)) (kept : Finset Nat)
    (st : StreamState σ) : Prop :=
  ∀ k < segs.length, st.dedup.map (dataKey key (BitVec.ofNat 32 k)) = true → k ∈ kept

theorem buffers_empty (m : Nat) : Buffers segs ∅ m SortedMap.empty := by
  intro x p
  simp

theorem Reassembles.passive (h : Reassembles S key segs base kept st)
    (hp : Passive key st st') : Reassembles S key segs base kept st' := by
  refine ⟨h.kept_lt, ?_, ?_, by rw [hp.traffic, h.traffic]⟩
  · intro hnone
    rcases hp.view with hsame | ⟨-, handler, hfresh⟩
    · exact h.absent (hsame ▸ hnone)
    · rw [hfresh] at hnone
      exact absurd hnone (by simp)
  · intro v hv
    rcases hp.view with hsame | ⟨hnone, handler, hfresh⟩
    · exact h.present v (hsame ▸ hv)
    · obtain ⟨rfl, -⟩ := h.absent hnone
      rw [hfresh] at hv
      obtain rfl := Option.some.inj hv
      exact ⟨rfl, by rw [next_empty]; rfl, buffers_empty _⟩

theorem Remembers.passive (h : Remembers key segs kept st) (hp : Passive key st st') :
    Remembers key segs kept st' := fun k hk hmap => h k hk (hp.dedup _ hmap)

theorem Reassembles.next_le_length (h : Reassembles S key segs base kept st) :
    next kept ≤ segs.length := next_le fun hmem => absurd (h.kept_lt _ hmem) (lt_irrefl _)

theorem ofNat_inj {j k : Nat} (hj : j < 2 ^ 32) (hk : k < 2 ^ 32)
    (h : BitVec.ofNat 32 j = BitVec.ofNat 32 k) : j = k := by
  have := congrArg BitVec.toNat h
  rwa [BitVec.toNat_ofNat, BitVec.toNat_ofNat, Nat.mod_eq_of_lt hj, Nat.mod_eq_of_lt hk] at this

theorem Buffers.emplace {m k : Nat} {buffer : SortedMap ZceUint32 (List ZceByte)}
    {p : List ZceByte} (h : Buffers segs kept m buffer) (hm : m ≤ k) (hk : segs[k]? = some p)
    (hlen : segs.length < 2 ^ 32) :
    Buffers segs (insert k kept) m (buffer.emplace (BitVec.ofNat 32 k) p) := by
  have hlt : ∀ {j q}, segs[j]? = some q → j < 2 ^ 32 := fun hj =>
    (List.getElem?_eq_some_iff.1 hj).1.trans hlen
  have hholds : buffer.Holds (BitVec.ofNat 32) (segs[·]?) fun j => j ∈ kept ∧ m ≤ j := fun x q => by
    rw [h x q]
    simp only [and_assoc]
  intro x q
  refine (hholds.emplace (fun hj hi => ofNat_inj (hlt hj) (hlt hi)) hk x q).trans
    (exists_congr fun j => ?_)
  have hwanted : (j ∈ kept ∧ m ≤ j) ∨ j = k ↔ j ∈ insert k kept ∧ m ≤ j := by
    rw [Finset.mem_insert]
    grind
  exact (and_congr_left' hwanted).trans and_assoc

theorem Buffers.eraseBegin {m : Nat} {buffer : SortedMap ZceUint32 (List ZceByte)}
    {p : List ZceByte} (h : Buffers segs kept m buffer) (hlen : segs.length < 2 ^ 32)
    (hbegin : buffer.begin? = some (BitVec.ofNat 32 m, p)) (hm : m < 2 ^ 32) :
    Buffers segs kept (m + 1) buffer.eraseBegin := by
  intro x q
  rw [SortedMap.find?_eraseBegin hbegin]
  constructor
  · intro hfind
    split at hfind
    · exact absurd hfind (by simp)
    · rename_i hx
      obtain ⟨j, hj, hmj, rfl, hpj⟩ := (h _ _).1 hfind
      refine ⟨j, hj, Nat.lt_of_le_of_ne hmj ?_, rfl, hpj⟩
      rintro rfl
      exact hx rfl
  · rintro ⟨j, hj, hmj, rfl, hpj⟩
    have hjlt : j < 2 ^ 32 := (List.getElem?_eq_some_iff.1 hpj).1.trans hlen
    rw [if_neg fun hx => by have := ofNat_inj hjlt hm hx; omega]
    exact (h _ _).2 ⟨j, hj, by omega, rfl, hpj⟩

theorem Buffers.begin_eq {m : Nat} {buffer : SortedMap ZceUint32 (List ZceByte)}
    (h : Buffers segs kept m buffer) (hlen : segs.length < 2 ^ 32)
    (hkept : ∀ k ∈ kept, k < segs.length) (hm : m ∈ kept) :
    ∃ p, segs[m]? = some p ∧ buffer.begin? = some (BitVec.ofNat 32 m, p) := by
  have hseg := List.getElem?_eq_getElem (hkept m hm)
  have hfind := (h _ _).2 ⟨m, hm, le_refl m, rfl, hseg⟩
  cases hbegin : buffer.begin? with
  | none => rw [SortedMap.begin?_eq_none.1 hbegin] at hfind; exact absurd hfind (by simp)
  | some e =>
    obtain ⟨x, p⟩ := e
    obtain ⟨j, hj, hmj, rfl, hpj⟩ := (h _ _).1 (SortedMap.find?_begin hbegin)
    have hle := SortedMap.begin?_le hbegin hfind
    have hjm : j ≤ m := by
      have hjlt : j < 2 ^ 32 := (hkept j hj).trans hlen
      have hmlt : m < 2 ^ 32 := (hkept m hm).trans hlen
      have := BitVec.le_def.1 hle
      rwa [BitVec.toNat_ofNat, BitVec.toNat_ofNat, Nat.mod_eq_of_lt hjlt, Nat.mod_eq_of_lt hmlt] at this
    obtain rfl := le_antisymm hjm hmj
    exact ⟨p, hpj, rfl⟩

def Collected (segs : List (List ZceByte)) (kept : Finset Nat) (m : Nat) (s : SessionState)
    (out : List (List ZceByte) × SessionState) : Prop :=
  out.1 = (segs.take (next kept)).drop m ∧
    ∃ buffer, out.2 = { s with
        expectedRxSeq := BitVec.ofNat 32 (next kept)
        rxBuffer := buffer } ∧
      Buffers segs kept (next kept) buffer

theorem collected_stop {m : Nat} {s : SessionState} (hm : m ≤ next kept) (hnot : m ∉ kept)
    (hexp : s.expectedRxSeq = BitVec.ofNat 32 m) (hbuf : Buffers segs kept m s.rxBuffer) :
    Collected segs kept m s ([], s) := by
  have hnext : next kept = m := le_antisymm (next_le hnot) hm
  rw [Collected, hnext]
  refine ⟨(List.drop_eq_nil_of_le ?_).symm, s.rxBuffer, ?_, hbuf⟩
  · rw [List.length_take]
    exact Nat.min_le_left m segs.length
  · rw [← hexp]

theorem collectReady_collected (hlen : segs.length < 2 ^ 32) (hkept : ∀ k ∈ kept, k < segs.length)
    {fuel m : Nat} {s : SessionState} (hfuel : s.rxBuffer.size ≤ fuel) (hm : m ≤ next kept)
    (hexp : s.expectedRxSeq = BitVec.ofNat 32 m) (hbuf : Buffers segs kept m s.rxBuffer) :
    Collected segs kept m s (collectReady fuel s) := by
  induction fuel generalizing m s with
  | zero =>
    refine collected_stop hm (fun hmem => ?_) hexp hbuf
    obtain ⟨p, -, hbegin⟩ := hbuf.begin_eq hlen hkept hmem
    have := SortedMap.size_eraseBegin hbegin
    omega
  | succ fuel ih =>
    by_cases hmem : m ∈ kept
    · obtain ⟨p, hseg, hbegin⟩ := hbuf.begin_eq hlen hkept hmem
      have hmlt : m < 2 ^ 32 := (hkept m hmem).trans hlen
      have hsize := SortedMap.size_eraseBegin hbegin
      have hnext : m < next kept := Nat.lt_of_le_of_ne hm fun heq => next_notMem kept (heq ▸ hmem)
      obtain ⟨hready, buffer, hs, hbuf'⟩ := @ih (m + 1)
        { s with rxBuffer := s.rxBuffer.eraseBegin, expectedRxSeq := s.expectedRxSeq + 1#32 }
        (by dsimp only; omega) hnext (by rw [hexp, BitVec.ofNat_add])
        (hbuf.eraseBegin hlen hbegin hmlt)
      simp only [collectReady, hbegin, hexp, ne_eq, not_true_eq_false, if_false]
      rw [hexp] at hready hs
      refine ⟨?_, buffer, hs, hbuf'⟩
      have hseg' : (segs.take (next kept))[m]? = some p := by
        rw [List.getElem?_take_of_lt hnext, hseg]
      obtain ⟨hlt, hget⟩ := List.getElem?_eq_some_iff.1 hseg'
      rw [hready, List.drop_eq_getElem_cons hlt, hget]
    · have hcollect : collectReady (fuel + 1) s = ([], s) := by
        simp only [collectReady]
        cases hbegin : s.rxBuffer.begin? with
        | none => rfl
        | some e =>
          obtain ⟨x, p⟩ := e
          obtain ⟨j, hj, hmj, rfl, hpj⟩ := (hbuf _ _).1 (SortedMap.find?_begin hbegin)
          refine if_pos fun hx => ?_
          rw [hexp] at hx
          have hjlt : j < 2 ^ 32 := (hkept j hj).trans hlen
          have hmj' : m < 2 ^ 32 := Nat.lt_of_le_of_lt hmj hjlt
          exact hmem (ofNat_inj hjlt hmj' hx ▸ hj)
      rw [hcollect]
      exact collected_stop hm hmem hexp hbuf

theorem foldl_notify_passive (hspares : SparesAlways S key) (handler : Handler) (sid : ZceUint32)
    (ready : List (List ZceByte)) (hne : ∀ blk ∈ ready, blk ≠ []) (st : StreamState σ) :
    let st' := ready.foldl
      (fun ds blk =>
        if blk.length > 0 then notify S (.sessionData key handler sid blk) ds else ds) st
    Grows key st st' ∧
      Libfgw.traffic key st'.events = Libfgw.traffic key st.events ++ ready.map some := by
  induction ready generalizing st with
  | nil => exact ⟨Grows.refl key st, (List.append_nil _).symm⟩
  | cons blk ready ih =>
    obtain ⟨hblk, hready⟩ := List.forall_mem_cons.1 hne
    have hpos : blk.length > 0 := List.length_pos_of_ne_nil hblk
    obtain ⟨hgrows, htraffic⟩ := ih hready (notify S (.sessionData key handler sid blk) st)
    intro st'
    have hst' : st' = ready.foldl
        (fun ds blk =>
          if blk.length > 0 then notify S (.sessionData key handler sid blk) ds else ds)
        (notify S (.sessionData key handler sid blk) st) := by
      simp only [st', List.foldl_cons, if_pos hpos]
    rw [hst']
    refine ⟨(notify_grows S (hspares _ _ id)).trans hgrows, ?_⟩
    rw [htraffic, notify_events, traffic_append, List.map_cons, List.append_assoc]
    congr 1
    simp [Libfgw.traffic]

theorem deliverInOrder_reassembles (hspares : SparesAlways S key) (hne : ∀ seg ∈ segs, seg ≠ [])
    (hlen : segs.length < 2 ^ 32) (hkept : ∀ k ∈ kept, k < segs.length) {m : Nat}
    {s : SessionState} {handler : Handler} (hhandler : s.handler = some handler)
    (hm : m ≤ next kept) (hexp : s.expectedRxSeq = BitVec.ofNat 32 m)
    (hbuf : Buffers segs kept m s.rxBuffer)
    (htraffic : Libfgw.traffic key st.events = base ++ (segs.take m).map some) :
    Reassembles S key segs base kept (deliverInOrder S key s st) := by
  obtain ⟨hready, buffer, hs, hbuf'⟩ :=
    collectReady_collected hlen hkept (le_refl s.rxBuffer.size) hm hexp hbuf
  have hblks : ∀ blk ∈ (collectReady s.rxBuffer.size s).1, blk ≠ [] := by
    intro blk hblk
    rw [hready] at hblk
    exact hne blk (List.mem_of_mem_take (List.mem_of_mem_drop hblk))
  obtain ⟨hgrows, hevents⟩ := foldl_notify_passive hspares handler s.sessionId
    (collectReady s.rxBuffer.size s).1 hblks (st.setSession key (collectReady s.rxBuffer.size s).2)
  have hview : (deliverInOrder S key s st).rxView key =
      some ⟨BitVec.ofNat 32 (next kept), buffer, some handler⟩ := by
    simp only [deliverInOrder, hhandler]
    rcases hgrows with hsame | ⟨hnone, -⟩
    · rw [hsame, rxView_setSession, if_pos rfl, hs, ← hhandler]
      rfl
    · rw [rxView_setSession, if_pos rfl] at hnone
      exact absurd hnone (by simp)
  refine ⟨hkept, ?_, ?_, ?_⟩
  · intro hnone
    rw [hview] at hnone
    exact absurd hnone (by simp)
  · intro v hv
    rw [hview] at hv
    obtain rfl := Option.some.inj hv
    exact ⟨rfl, rfl, hbuf'⟩
  · simp only [deliverInOrder, hhandler]
    have hrun : segs.take m ++ (segs.take (next kept)).drop m = segs.take (next kept) := by
      conv_rhs => rw [← List.take_append_drop m (segs.take (next kept))]
      rw [List.take_take, Nat.min_eq_left hm]
    rw [hevents, hready]
    change Libfgw.traffic key st.events ++ _ = _
    rw [htraffic, List.append_assoc, ← List.map_append, hrun]

theorem ensureSession_isSome (S : Setting σ) (key : SessionKey) (st : StreamState σ) :
    ((ensureSession S key st).sessions key).isSome := by
  unfold ensureSession
  split
  · assumption
  · unfold createSession
    split <;> simp [StreamState.setSession]

/-- Blocks are as large as they are asked to be. -/
def Acquires (S : Setting σ) : Prop := ∀ time n, n ≤ (S.mbacquire time n).length

theorem onData_reassembles (hacquires : Acquires S) (hspares : SparesAlways S key)
    (hne : ∀ seg ∈ segs, seg ≠ []) (hlen : segs.length < 2 ^ 32) {k : Nat}
    {payload : List ZceByte} (hseg : segs[k]? = some payload) (hk : next kept ≤ k)
    (h : Reassembles S key segs base kept st) :
    Reassembles S key segs base (insert k kept) (onData S key (BitVec.ofNat 32 k) payload st) := by
  have hmono : next kept ≤ next (insert k kept) := next_mono (Finset.subset_insert k kept)
  have hkept : ∀ j ∈ insert k kept, j < segs.length := by
    intro j hj
    rcases Finset.mem_insert.1 hj with rfl | hj
    · exact (List.getElem?_eq_some_iff.1 hseg).1
    · exact h.kept_lt j hj
  have hens : Passive key st (ensureSession S key st) :=
    ensureSession_passive S fun _ hnone => (h.absent (by rw [StreamState.rxView, hnone]; rfl)).2
  have h' := h.passive hens
  obtain ⟨s, hs⟩ := Option.isSome_iff_exists.1 (ensureSession_isSome S key st)
  obtain ⟨hhandler, hexp, hbuf⟩ := h'.present s.rxView (by rw [StreamState.rxView, hs]; rfl)
  obtain ⟨handler, hhandler⟩ := Option.isSome_iff_exists.1 hhandler
  have hacq := hacquires (ensureSession S key st).clock payload.length
  simp only [onData, hs, ge_iff_le, hacq, if_true]
  exact deliverInOrder_reassembles hspares hne hlen hkept hhandler hmono hexp
    (hbuf.emplace hk hseg hlen) h'.traffic

end DataStream

end Libfgw
