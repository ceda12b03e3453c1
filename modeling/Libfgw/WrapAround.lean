import Libfgw.DataStream.Delivery
import Libfgw.DataStream.Keeping
import Libfgw.Lib.EachAfter
import Libfgw.Window

namespace Libfgw

open FgwSegmentHeader Lib DataStream

variable {σ τ : Type}

namespace DataStream

variable {S : Setting σ} {key : SessionKey}

theorem collectReady_stop {s : SessionState}
    (h : ∀ p, s.rxBuffer.begin? ≠ some (s.expectedRxSeq, p)) (fuel : Nat) :
    collectReady fuel s = ([], s) := by
  cases fuel with
  | zero => rfl
  | succ fuel =>
    simp only [collectReady]
    split
    · rfl
    · rename_i seq blk hbegin
      refine if_pos ?_
      rintro rfl
      exact h blk hbegin

theorem collectReady_stuck {s : SessionState} {k : ZceUint32} {p : List ZceByte}
    (hk : s.rxBuffer.find? k = some p) (hlt : k < s.expectedRxSeq) (fuel : Nat) :
    collectReady fuel s = ([], s) := by
  refine collectReady_stop (fun q hbegin => ?_) fuel
  exact absurd (SortedMap.begin?_le hbegin hk) (not_le.2 hlt)

structure Takes (s : SessionState) (n : Nat) (out : List (List ZceByte) × SessionState) : Prop where
  length : out.1.length = n
  blks : ∀ i < n, s.rxBuffer.find? (s.expectedRxSeq + BitVec.ofNat 32 i) = out.1[i]?
  bound : s.expectedRxSeq.toNat + n ≤ 2 ^ 32
  state : out.2 = { s with
    expectedRxSeq := s.expectedRxSeq + BitVec.ofNat 32 n
    rxBuffer := out.2.rxBuffer }
  missing : out.2.rxBuffer.find? (s.expectedRxSeq + BitVec.ofNat 32 n) = none
  rest : ∀ k, out.2.rxBuffer.find? k =
    if ∃ i < n, k = s.expectedRxSeq + BitVec.ofNat 32 i then none else s.rxBuffer.find? k

theorem takes_none {s : SessionState} (h : s.rxBuffer.find? s.expectedRxSeq = none) :
    Takes s 0 ([], s) where
  length := rfl
  blks i hi := absurd hi (Nat.not_lt_zero i)
  bound := s.expectedRxSeq.isLt.le
  state := by rw [BitVec.add_zero]
  missing := by rw [BitVec.add_zero, h]
  rest k := by rw [if_neg (by simp)]

theorem add_succ (e : ZceUint32) (n : Nat) :
    e + BitVec.ofNat 32 (n + 1) = e + 1#32 + BitVec.ofNat 32 n := by
  rw [Nat.add_comm, BitVec.ofNat_add, BitVec.add_assoc]

theorem takes_succ {s : SessionState} {blk : List ZceByte} {n : Nat}
    {out : List (List ZceByte) × SessionState}
    (hbegin : s.rxBuffer.begin? = some (s.expectedRxSeq, blk))
    (hbelow : ∀ k p, s.rxBuffer.find? k = some p → s.expectedRxSeq ≤ k)
    (h : Takes { s with
      rxBuffer := s.rxBuffer.eraseBegin, expectedRxSeq := s.expectedRxSeq + 1#32 } n out) :
    Takes s (n + 1) (blk :: out.1, out.2) := by
  have herase := SortedMap.find?_eraseBegin hbegin
  have hblks : ∀ i < n, s.rxBuffer.find? (s.expectedRxSeq + 1#32 + BitVec.ofNat 32 i) = out.1[i]? := by
    intro i hi
    have hi' := h.blks i hi
    dsimp only at hi'
    rw [herase] at hi'
    split at hi'
    · rw [List.getElem?_eq_getElem (by rw [h.length]; exact hi)] at hi'
      cases hi'
    · exact hi'
  refine ⟨by rw [List.length_cons, h.length], ?_, ?_, ?_, ?_, ?_⟩
  · intro i hi
    cases i with
    | zero =>
      rw [BitVec.add_zero, SortedMap.find?_begin hbegin]
      rfl
    | succ i =>
      rw [add_succ, List.getElem?_cons_succ]
      exact hblks i (Nat.lt_of_succ_lt_succ hi)
  · cases n with
    | zero => exact s.expectedRxSeq.isLt
    | succ n =>
      -- The next number is buffered too, so that the expected one is not the last of all.
      have hbound := h.bound
      have hnext := hblks 0 (Nat.succ_pos n)
      rw [List.getElem?_eq_getElem (by rw [h.length]; exact Nat.succ_pos n)] at hnext
      have hle := hbelow _ _ hnext
      dsimp only at hbound
      bv_omega
  · rw [add_succ]
    exact h.state
  · rw [add_succ]
    exact h.missing
  · intro k
    have hk := h.rest k
    dsimp only at hk
    have hiff : (∃ i < n + 1, k = s.expectedRxSeq + BitVec.ofNat 32 i) ↔
        (∃ i < n, k = s.expectedRxSeq + 1#32 + BitVec.ofNat 32 i) ∨ k = s.expectedRxSeq := by
      constructor
      · rintro ⟨i, hi, rfl⟩
        cases i with
        | zero => exact Or.inr (BitVec.add_zero _)
        | succ i => exact Or.inl ⟨i, Nat.lt_of_succ_lt_succ hi, add_succ _ i⟩
      · rintro (⟨i, hi, rfl⟩ | rfl)
        · exact ⟨i + 1, Nat.succ_lt_succ hi, (add_succ _ i).symm⟩
        · exact ⟨0, Nat.succ_pos n, (BitVec.add_zero _).symm⟩
    rw [hk, herase]
    simp only [hiff]
    by_cases hrun : ∃ i < n, k = s.expectedRxSeq + 1#32 + BitVec.ofNat 32 i
    · rw [if_pos hrun, if_pos (Or.inl hrun)]
    · by_cases hexp : k = s.expectedRxSeq
      · rw [if_neg hrun, if_pos hexp, if_pos (Or.inr hexp)]
      · rw [if_neg hrun, if_neg hexp, if_neg (not_or.2 ⟨hrun, hexp⟩)]

theorem collectReady_takes {fuel : Nat} {s : SessionState} (hfuel : s.rxBuffer.size ≤ fuel)
    (hbelow : ∀ k p, s.rxBuffer.find? k = some p → s.expectedRxSeq ≤ k) :
    ∃ n, Takes s n (collectReady fuel s) := by
  induction fuel generalizing s with
  | zero =>
    refine ⟨0, takes_none ?_⟩
    cases hbegin : s.rxBuffer.begin? with
    | none => exact SortedMap.begin?_eq_none.1 hbegin _
    | some e =>
      have := SortedMap.size_eraseBegin hbegin
      omega
  | succ fuel ih =>
    cases hfind : s.rxBuffer.find? s.expectedRxSeq with
    | none =>
      rw [collectReady_stop (fun p hbegin => by
        rw [SortedMap.find?_begin hbegin] at hfind; cases hfind)]
      exact ⟨0, takes_none hfind⟩
    | some blk =>
      have hbegin : s.rxBuffer.begin? = some (s.expectedRxSeq, blk) := by
        cases hb : s.rxBuffer.begin? with
        | none => rw [SortedMap.begin?_eq_none.1 hb] at hfind; cases hfind
        | some e =>
          obtain ⟨k, p⟩ := e
          have hk := SortedMap.find?_begin hb
          obtain rfl := le_antisymm (SortedMap.begin?_le hb hfind) (hbelow k p hk)
          rw [hk] at hfind
          rw [Option.some.inj hfind]
      have hsize := SortedMap.size_eraseBegin hbegin
      obtain ⟨n, hn⟩ := @ih
        { s with rxBuffer := s.rxBuffer.eraseBegin, expectedRxSeq := s.expectedRxSeq + 1#32 }
        (by dsimp only; omega) (by
          intro k p hk
          dsimp only at hk ⊢
          rw [SortedMap.find?_eraseBegin hbegin] at hk
          split at hk
          · cases hk
          · have := hbelow k p hk
            bv_omega)
      refine ⟨n + 1, ?_⟩
      simp only [collectReady, hbegin, ne_eq, not_true_eq_false, if_false]
      exact takes_succ hbegin hbelow hn

theorem Takes.missing_before {window : ZceUint16} {s : SessionState} {n : Nat}
    {out : List (List ZceByte) × SessionState} (h : Takes s n out)
    (hwindow : s.rxView.Within window.toNat) :
    s.rxBuffer.find? (s.expectedRxSeq + BitVec.ofNat 32 n) = none := by
  have hbound := h.bound
  have hrest := h.rest (s.expectedRxSeq + BitVec.ofNat 32 n)
  rw [h.missing] at hrest
  split at hrest
  · rename_i hround
    obtain ⟨i, hi, heq⟩ := hround
    have hlast := h.blks (n - 1) (by omega)
    rw [List.getElem?_eq_getElem (by rw [h.length]; omega)] at hlast
    have hfar : (s.expectedRxSeq + BitVec.ofNat 32 (n - 1) - s.expectedRxSeq).toNat < window.toNat :=
      hwindow _ _ hlast
    have := window.isLt
    bv_omega
  · exact hrest.symm

/-- The run of buffered segments that starts at the expected one is handed to the session's handler
in order, and the next expected segment is not in the buffer. -/
def WholeRun (key : SessionKey) (s : SessionState) (handler : Handler) (st st' : StreamState σ) : Prop :=
  ∃ blks : List (List ZceByte),
    (∀ i < blks.length, s.rxBuffer.find? (s.expectedRxSeq + BitVec.ofNat 32 i) = blks[i]?) ∧
    s.rxBuffer.find? (s.expectedRxSeq + BitVec.ofNat 32 blks.length) = none ∧
    dataEvents st'.events = dataEvents st.events ++
      (blks.filter (fun blk => blk.length > 0)).map (.sessionData key handler s.sessionId) ∧
    ∀ s', st'.sessions key = some s' → s'.rxBuffer.find? s'.expectedRxSeq = none

theorem deliverInOrder_wholeRun_iff {s : SessionState} {handler : Handler}
    (hhandler : s.handler = some handler)
    (hwindow : s.rxView.Within S.config.recvWindow.toNat) (st : StreamState σ) :
    WholeRun key s handler st (deliverInOrder S key s st) ↔
      (s.rxBuffer.find? s.expectedRxSeq = none ∨
        ∀ k p, s.rxBuffer.find? k = some p → s.expectedRxSeq ≤ k) := by
  have htold := (deliverInOrder_delivers S key s st).told
  simp only [deliveryOf, hhandler, Option.map_some, Option.elim_some, Delivery.told] at htold
  constructor
  · rintro ⟨blks, hblks, -, -, hafter⟩
    by_contra hcond
    obtain ⟨hfind, hbelow⟩ := not_or.1 hcond
    simp only [not_forall] at hbelow
    obtain ⟨k, p, hk, hlt⟩ := hbelow
    have hstuck := collectReady_stuck hk (not_le.1 hlt) s.rxBuffer.size
    refine hfind (hafter s ?_)
    simp only [deliverInOrder, hhandler, hstuck]
    exact Function.update_self key (some s) st.sessions
  · intro hcond
    have htakes : ∃ n, Takes s n (collectReady s.rxBuffer.size s) := by
      rcases hcond with hnone | hbelow
      · refine ⟨0, ?_⟩
        rw [collectReady_stop (fun p hbegin => by
          rw [SortedMap.find?_begin hbegin] at hnone; cases hnone)]
        exact takes_none hnone
      · exact collectReady_takes (Nat.le_refl _) hbelow
    obtain ⟨n, hn⟩ := htakes
    refine ⟨(collectReady s.rxBuffer.size s).1, ?_, ?_, htold, ?_⟩
    · rw [hn.length]
      exact hn.blks
    · rw [hn.length]
      exact hn.missing_before hwindow
    · intro s' hs'
      have hview : (deliverInOrder S key s st).rxView key = some s'.rxView := by
        rw [StreamState.rxView, hs', Option.map_some]
      have hexpected : (collectReady s.rxBuffer.size s).2.expectedRxSeq =
          s.expectedRxSeq + BitVec.ofNat 32 n := by rw [hn.state]
      rcases deliverInOrder_resets key hhandler st (S := S) with hsame | hgone | ⟨handler', hfresh⟩
      · rw [rxView_setSession, if_pos rfl, hview] at hsame
        have hsame := Option.some.inj hsame
        rw [show s'.rxBuffer = (collectReady s.rxBuffer.size s).2.rxBuffer from
            congrArg RxView.buffer hsame,
          show s'.expectedRxSeq = (collectReady s.rxBuffer.size s).2.expectedRxSeq from
            congrArg RxView.expected hsame, hexpected]
        exact hn.missing
      · rw [hview] at hgone
        cases hgone
      · rw [hview] at hfresh
        have hfresh := Option.some.inj hfresh
        rw [show s'.rxBuffer = SortedMap.empty from congrArg RxView.buffer hfresh]
        rfl

section Arrivals

variable {T : Setting τ} {e : ZceUint32} {segs : List (List ZceByte)}
  {base : List (Option (List ZceByte))} {handler : Handler}
  {kept : List Nat} {m j : Nat} {st : StreamState σ}

def Waiting (e : ZceUint32) (segs : List (List ZceByte)) (kept : List Nat) (m : Nat)
    (buffer : SortedMap ZceUint32 (List ZceByte)) : Prop :=
  ∀ x p, buffer.find? x = some p ↔
    ∃ j ∈ kept, m ≤ j ∧ x = e + BitVec.ofNat 32 j ∧ segs[j]? = some p

structure Arrived (key : SessionKey) (e : ZceUint32) (segs : List (List ZceByte)) (handler : Handler)
    (base : List (Option (List ZceByte))) (kept : List Nat) (m : Nat) (st : StreamState σ) : Prop where
  view : ∃ buffer, st.rxView key = some ⟨e + BitVec.ofNat 32 m, buffer, some handler⟩ ∧
    Waiting e segs kept m buffer
  run : ∀ j < m, j ∈ kept
  kept_lt : ∀ j ∈ kept, j < segs.length
  traffic : traffic key st.events = base ++ (segs.take m).map some
  fresh : ∀ j < segs.length, j ∉ kept →
    st.dedup.map (dataKey key (e + BitVec.ofNat 32 j)) = false

theorem add_ofNat_inj {i j : Nat} (hi : i < 2 ^ 32) (hj : j < 2 ^ 32)
    (h : e + BitVec.ofNat 32 i = e + BitVec.ofNat 32 j) : i = j := by
  bv_omega

theorem waiting_emplace {buffer : SortedMap ZceUint32 (List ZceByte)} {p : List ZceByte}
    (h : Waiting e segs kept m buffer) (hlen : segs.length < 2 ^ 16) (hj : m ≤ j)
    (hseg : segs[j]? = some p) :
    Waiting e segs (kept ++ [j]) m (buffer.emplace (e + BitVec.ofNat 32 j) p) := by
  have hlt : ∀ {i q}, segs[i]? = some q → i < 2 ^ 32 := fun hi =>
    ((List.getElem?_eq_some_iff.1 hi).1.trans hlen).trans (by decide)
  have hholds : buffer.Holds (fun i => e + BitVec.ofNat 32 i) (segs[·]?)
      fun i => i ∈ kept ∧ m ≤ i := fun x q => by
    rw [h x q]
    simp only [and_assoc]
  intro x q
  refine (hholds.emplace (fun hi hj => add_ofNat_inj (hlt hi) (hlt hj)) hseg x q).trans
    (exists_congr fun i => ?_)
  have hwanted : (i ∈ kept ∧ m ≤ i) ∨ i = j ↔ i ∈ kept ++ [j] ∧ m ≤ i := by
    rw [List.mem_append, List.mem_singleton]
    grind
  exact (and_congr_left' hwanted).trans and_assoc

def Blocks (e : ZceUint32) (kept : List Nat) (m : Nat) : Prop :=
  ∃ w ∈ kept, m ≤ w ∧ e + BitVec.ofNat 32 w < e + BitVec.ofNat 32 m

theorem collectReady_arrived (hlen : segs.length < 2 ^ 16) {s : SessionState}
    (hexp : s.expectedRxSeq = e + BitVec.ofNat 32 m) (hbuf : Waiting e segs kept m s.rxBuffer)
    (hrun : ∀ j < m, j ∈ kept) (hkept : ∀ j ∈ kept, j < segs.length) :
    ∃ m' buffer, m ≤ m' ∧ (Blocks e kept m → m' = m) ∧ (¬ Blocks e kept m → m' ∉ kept) ∧
      (∀ j < m', j ∈ kept) ∧ Waiting e segs kept m' buffer ∧
      collectReady s.rxBuffer.size s = ((segs.take m').drop m,
        { s with expectedRxSeq := e + BitVec.ofNat 32 m', rxBuffer := buffer }) := by
  have hseg : ∀ j ∈ kept, ∃ p, segs[j]? = some p := fun j hj =>
    ⟨_, List.getElem?_eq_getElem (hkept j hj)⟩
  by_cases hblocks : Blocks e kept m
  · obtain ⟨w, hw, hmw, hlt⟩ := hblocks
    obtain ⟨p, hp⟩ := hseg w hw
    refine ⟨m, s.rxBuffer, Nat.le_refl m, fun _ => rfl, fun h => absurd ⟨w, hw, hmw, hlt⟩ h, hrun,
      hbuf, ?_⟩
    rw [collectReady_stuck ((hbuf _ _).2 ⟨w, hw, hmw, rfl, hp⟩) (hexp ▸ hlt), ← hexp,
      List.drop_eq_nil_of_le (List.length_take_le m segs)]
  · have hbelow : ∀ k p, s.rxBuffer.find? k = some p → s.expectedRxSeq ≤ k := by
      intro k p hk
      obtain ⟨w, hw, hmw, rfl, -⟩ := (hbuf _ _).1 hk
      rw [hexp]
      exact not_lt.1 fun hlt => hblocks ⟨w, hw, hmw, hlt⟩
    obtain ⟨n, hn⟩ := collectReady_takes (Nat.le_refl s.rxBuffer.size) hbelow
    have hadd : ∀ i, s.expectedRxSeq + BitVec.ofNat 32 i = e + BitVec.ofNat 32 (m + i) := by
      intro i
      rw [hexp, BitVec.add_assoc, ← BitVec.ofNat_add]
    have hbound := hn.bound
    have htaken : ∀ i < n, m + i ∈ kept ∧ (collectReady s.rxBuffer.size s).1[i]? = segs[m + i]? := by
      intro i hi
      have hblk := hn.blks i hi
      rw [← hblk]
      rw [List.getElem?_eq_getElem (by rw [hn.length]; exact hi), hadd] at hblk
      obtain ⟨w, hw, hmw, heq, hp⟩ := (hbuf _ _).1 hblk
      have hwlt := hkept w hw
      obtain rfl : m + i = w := by bv_omega
      exact ⟨hw, by rw [hadd, hblk, hp]⟩
    have hrun' : ∀ j < m + n, j ∈ kept := by
      intro j hj
      by_cases hjm : j < m
      · exact hrun j hjm
      · obtain ⟨i, rfl⟩ := Nat.exists_eq_add_of_le (Nat.not_lt.1 hjm)
        exact (htaken i (by omega)).1
    refine ⟨m + n, (collectReady s.rxBuffer.size s).2.rxBuffer, Nat.le_add_right m n,
      fun h => absurd h hblocks, fun _ hmem => ?_, hrun', ?_, Prod.ext ?_ ?_⟩
    · have hlt := hkept _ hmem
      obtain ⟨p, hp⟩ := hseg _ hmem
      have hmissing := hn.missing
      rw [hn.rest, if_neg (by rintro ⟨i, hi, heq⟩; bv_omega), hadd,
        (hbuf _ _).2 ⟨_, hmem, Nat.le_add_right m n, rfl, hp⟩] at hmissing
      cases hmissing
    · intro x p
      rw [hn.rest]
      constructor
      · intro hfind
        split at hfind
        · cases hfind
        · rename_i hout
          obtain ⟨w, hw, hmw, rfl, hp⟩ := (hbuf _ _).1 hfind
          refine ⟨w, hw, Nat.not_lt.1 fun hlt => hout ⟨w - m, by omega, ?_⟩, rfl, hp⟩
          rw [hadd, Nat.add_sub_cancel' hmw]
      · rintro ⟨w, hw, hmw, rfl, hp⟩
        have hwlt := hkept w hw
        rw [if_neg, (hbuf _ _).2 ⟨w, hw, Nat.le_trans (Nat.le_add_right m n) hmw, rfl, hp⟩]
        rintro ⟨i, hi, heq⟩
        have hilt := hkept _ (htaken i hi).1
        rw [hadd] at heq
        have := add_ofNat_inj (by omega) (by omega) heq
        omega
    · apply List.ext_getElem?
      intro i
      rw [List.getElem?_drop]
      by_cases hi : i < n
      · rw [(htaken i hi).2, List.getElem?_take_of_lt (by omega)]
      · rw [List.getElem?_eq_none (by rw [hn.length]; omega),
          List.getElem?_eq_none (by rw [List.length_take]; omega)]
    · rw [hn.state, hadd]

theorem deliverInOrder_arrived (hspares : SparesAlways S key) (hne : ∀ seg ∈ segs, seg ≠ [])
    (hlen : segs.length < 2 ^ 16) {s : SessionState} (hhandler : s.handler = some handler)
    (hexp : s.expectedRxSeq = e + BitVec.ofNat 32 m) (hbuf : Waiting e segs kept m s.rxBuffer)
    (hrun : ∀ j < m, j ∈ kept) (hkept : ∀ j ∈ kept, j < segs.length)
    (htraffic : traffic key st.events = base ++ (segs.take m).map some)
    (hfresh : ∀ j < segs.length, j ∉ kept →
      st.dedup.map (dataKey key (e + BitVec.ofNat 32 j)) = false) :
    ∃ m', m ≤ m' ∧ (Blocks e kept m → m' = m) ∧ (¬ Blocks e kept m → m' ∉ kept) ∧
      Arrived key e segs handler base kept m' (deliverInOrder S key s st) := by
  obtain ⟨m', buffer, hmm', hstuck, hflow, hrun', hbuf', hcollect⟩ :=
    collectReady_arrived hlen hexp hbuf hrun hkept
  refine ⟨m', hmm', hstuck, hflow, ?_⟩
  have hblks : ∀ blk ∈ (segs.take m').drop m, blk ≠ [] := fun blk hblk =>
    hne blk (List.mem_of_mem_take (List.mem_of_mem_drop hblk))
  obtain ⟨hgrows, hevents⟩ := foldl_notify_passive hspares handler s.sessionId _ hblks
    (st.setSession key { s with expectedRxSeq := e + BitVec.ofNat 32 m', rxBuffer := buffer })
  have heq : deliverInOrder S key s st = ((segs.take m').drop m).foldl
      (fun ds blk =>
        if blk.length > 0 then notify S (.sessionData key handler s.sessionId blk) ds else ds)
      (st.setSession key { s with expectedRxSeq := e + BitVec.ofNat 32 m', rxBuffer := buffer }) := by
    simp only [deliverInOrder, hhandler, hcollect]
  refine ⟨⟨buffer, ?_, hbuf'⟩, hrun', hkept, ?_, ?_⟩
  · rw [heq]
    rcases hgrows with hsame | ⟨hnone, -⟩
    · rw [hsame, rxView_setSession, if_pos rfl, ← hhandler]
      rfl
    · rw [rxView_setSession, if_pos rfl] at hnone
      cases hnone
  · have htake : segs.take m ++ (segs.take m').drop m = segs.take m' := by
      conv_rhs => rw [← List.take_append_drop m (segs.take m')]
      rw [List.take_take, Nat.min_eq_left hmm']
    rw [heq, hevents]
    change traffic key st.events ++ _ = _
    rw [htraffic, List.append_assoc, ← List.map_append, htake]
  · intro j hj hnot
    rw [deliverInOrder_dedup]
    exact hfresh j hj hnot

theorem ofNat_add_toNat (j : Nat) : BitVec.ofNat 32 (e.toNat + j) = e + BitVec.ofNat 32 j := by
  rw [BitVec.ofNat_add, BitVec.ofNat_toNat, BitVec.setWidth_eq]

theorem Arrived.frame (hacquires : Acquires S) (hspares : SparesAlways S key)
    (hne : ∀ seg ∈ segs, seg ≠ [] ∧ seg.length ≤ MAX_PAYLOAD)
    (hcount : segs.length ≤ S.config.recvWindow.toNat) (ch : ChannelRef) {p : List ZceByte}
    (hseg : segs[j]? = some p) (hnew : j ∉ kept) (h : Arrived key e segs handler base kept m st) :
    ∃ m', m ≤ m' ∧ (Blocks e (kept ++ [j]) m → m' = m) ∧
      (¬ Blocks e (kept ++ [j]) m → m' ∉ kept ++ [j]) ∧
      Arrived key e segs handler base (kept ++ [j]) m'
        (handleFrame S ch st (dataFrame T key (e.toNat + j) p)) := by
  obtain ⟨buffer, hview, hbuf⟩ := h.view
  obtain ⟨s, hs, hsview⟩ := Option.map_eq_some_iff.1 hview
  have hexp : s.expectedRxSeq = e + BitVec.ofNat 32 m := congrArg RxView.expected hsview
  have hbuffer : s.rxBuffer = buffer := congrArg RxView.buffer hsview
  have hhandler : s.handler = some handler := congrArg RxView.handler hsview
  have hj : j < segs.length := (List.getElem?_eq_some_iff.1 hseg).1
  have hmj : m ≤ j := Nat.not_lt.1 fun hlt => hnew (h.run j hlt)
  have hlen : segs.length < 2 ^ 16 := Nat.lt_of_le_of_lt hcount S.config.recvWindow.isLt
  obtain ⟨hpne, hplen⟩ := hne p (List.mem_of_getElem? hseg)
  set dk := dataKey key (e + BitVec.ofNat 32 j) with hdk
  have hin : ¬ outsideWindow S key (e + BitVec.ofNat 32 j) st := by
    rw [outsideWindow_iff_rxView, hview]
    simp only [Option.map_some, Option.getD_some]
    bv_omega
  have hens : ensureSession S key (admitted ch dk st) = admitted ch dk st :=
    if_pos (by rw [admitted_sessions, hs]; rfl)
  rw [handleFrame_dataFrame ch st hpne hplen, ofNat_add_toNat, h.fresh j hj hnew, if_neg Bool.false_ne_true,
    if_neg hin]
  have hacq := hacquires (admitted ch dk st).clock p.length
  simp only [onData, ← hdk, hens, admitted_sessions, hs, ge_iff_le, hacq, if_true]
  refine deliverInOrder_arrived hspares (fun seg hmem => (hne seg hmem).1) hlen hhandler hexp ?_
    (fun i hi => List.mem_append_left _ (h.run i hi)) ?_ ?_ ?_
  · rw [hbuffer]
    exact waiting_emplace hbuf hlen hmj hseg
  · exact List.forall_mem_append.2 ⟨h.kept_lt, List.forall_mem_singleton.2 hj⟩
  · exact (congrArg (Libfgw.traffic key) (admitted_events ch dk st)).trans h.traffic
  · intro i hi hnot
    rw [List.mem_append, List.mem_singleton, not_or] at hnot
    change (admitted ch dk st).dedup.map _ = false
    rw [admitted_dedup, ← Bool.not_eq_true]
    intro hmap
    rcases KeyRing.map_record_imp hmap with heq | hold
    · have hseq := congrArg DedupKey.seq heq
      exact hnot.2 (add_ofNat_inj (by omega) (by omega) hseq)
    · rw [h.fresh i hi hnot.1] at hold
      cases hold

def numberedFrame (T : Setting τ) (key : SessionKey) (e : ZceUint32) (segs : List (List ZceByte))
    (j : Nat) : List ZceByte := dataFrame T key (e.toNat + j) (segs.getD j [])

def arrive (S : Setting σ) (T : Setting τ) (key : SessionKey) (e : ZceUint32)
    (segs : List (List ZceByte)) (arrivals : List (ChannelRef × Nat)) (st : StreamState σ) :
    StreamState σ :=
  arrivals.foldl (fun st a => handleFrame S a.1 st (numberedFrame T key e segs a.2)) st

theorem arrive_agrees {Allowed : Event → Call → Prop} (T : Setting τ) (key : SessionKey)
    (e : ZceUint32) (segs : List (List ZceByte)) (arrivals : List (ChannelRef × Nat))
    (st : StreamState σ) :
    Concurs S Allowed st (arrive S T key e segs arrivals st)
      (arrive (S.keeping Allowed) T key e segs arrivals st) := by
  unfold arrive
  refine Concurs.foldl (fun st a => ?_) arrivals st
  exact handleFrame_agrees a.1 st _

/-- No number from behind the wrap-around comes before all the numbers from before it. -/
def InTurn (e : ZceUint32) (count : Nat) (order : List Nat) : Prop :=
  EachAfter (fun pre j => 2 ^ 32 ≤ e.toNat + j → ∀ i < count, e.toNat + i < 2 ^ 32 → i ∈ pre) order

section Order

variable (hacquires : Acquires S) (hspares : SparesAlways S key)
  (hne : ∀ seg ∈ segs, seg ≠ [] ∧ seg.length ≤ MAX_PAYLOAD)
  (hcount : segs.length ≤ S.config.recvWindow.toNat)
include hacquires hspares hne hcount

theorem Arrived.next {arrivals : List (ChannelRef × Nat)} {a : ChannelRef × Nat}
    (hnodup : ((arrivals ++ [a]).map Prod.snd).Nodup)
    (hlt : ∀ j ∈ (arrivals ++ [a]).map Prod.snd, j < segs.length)
    (h : Arrived key e segs handler base (arrivals.map Prod.snd) m (arrive S T key e segs arrivals st)) :
    ∃ m', m ≤ m' ∧ (Blocks e ((arrivals ++ [a]).map Prod.snd) m → m' = m) ∧
      (¬ Blocks e ((arrivals ++ [a]).map Prod.snd) m → m' ∉ (arrivals ++ [a]).map Prod.snd) ∧
      Arrived key e segs handler base ((arrivals ++ [a]).map Prod.snd) m'
        (arrive S T key e segs (arrivals ++ [a]) st) := by
  rw [List.map_append, List.map_singleton] at hnodup hlt ⊢
  have hj : a.2 < segs.length := hlt a.2 (List.mem_append_right _ (List.mem_singleton_self _))
  have hnew : a.2 ∉ arrivals.map Prod.snd := fun hmem =>
    (List.nodup_append.1 hnodup).2.2 _ hmem _ (List.mem_singleton_self _) rfl
  have hseg : segs[a.2]? = some (segs.getD a.2 []) := by
    rw [List.getD_eq_getElem?_getD, List.getElem?_eq_getElem hj, Option.getD_some]
  rw [arrive, List.foldl_append]
  exact Arrived.frame hacquires hspares hne hcount a.1 hseg hnew h

theorem arrive_inTurn (hstart : Arrived key e segs handler base [] 0 st)
    {arrivals : List (ChannelRef × Nat)} (hnodup : (arrivals.map Prod.snd).Nodup)
    (hlt : ∀ j ∈ arrivals.map Prod.snd, j < segs.length)
    (hturn : InTurn e segs.length (arrivals.map Prod.snd)) :
    ∃ m, m ∉ arrivals.map Prod.snd ∧ Arrived key e segs handler base (arrivals.map Prod.snd) m
      (arrive S T key e segs arrivals st) := by
  induction arrivals using List.reverseRecOn with
  | nil => exact ⟨0, List.not_mem_nil, hstart⟩
  | append_singleton arrivals a ih =>
    have hmap : (arrivals ++ [a]).map Prod.snd = arrivals.map Prod.snd ++ [a.2] := by
      rw [List.map_append, List.map_singleton]
    have hturn' := hturn
    rw [hmap, InTurn, EachAfter.concat_iff] at hturn'
    have hnodup' := hnodup
    rw [hmap] at hnodup'
    have hlt' := hlt
    rw [hmap] at hlt'
    obtain ⟨m, hm, h⟩ := ih (List.nodup_append.1 hnodup').1
      (fun j hj => hlt' j (List.mem_append_left _ hj)) hturn'.1
    obtain ⟨m', -, -, hflow, h'⟩ := h.next hacquires hspares hne hcount hnodup hlt
    refine ⟨m', hflow ?_, h'⟩
    rintro ⟨w, hw, hmw, hless⟩
    have hwlt := hlt w hw
    have hlen := S.config.recvWindow.isLt
    have hwrap : 2 ^ 32 ≤ e.toNat + w ∧ e.toNat + m < 2 ^ 32 := by bv_omega
    rw [hmap] at hw
    rcases List.mem_append.1 hw with hw | hw
    · obtain ⟨before, after, hsplit⟩ := List.append_of_mem hw
      have hmem := hturn'.1 before w after hsplit hwrap.1 m (Nat.lt_of_le_of_lt hmw hwlt) hwrap.2
      exact hm (hsplit ▸ List.mem_append_left _ hmem)
    · obtain rfl := List.mem_singleton.1 hw
      exact hm (hturn'.2 hwrap.1 m (Nat.lt_of_le_of_lt hmw hwlt) hwrap.2)

theorem arrive_outOfTurn (hstart : Arrived key e segs handler base [] 0 st)
    {arrivals : List (ChannelRef × Nat)} (hnodup : (arrivals.map Prod.snd).Nodup)
    (hlt : ∀ j ∈ arrivals.map Prod.snd, j < segs.length)
    (hturn : ¬ InTurn e segs.length (arrivals.map Prod.snd)) :
    ∃ m < segs.length, Blocks e (arrivals.map Prod.snd) m ∧
      Arrived key e segs handler base (arrivals.map Prod.snd) m
        (arrive S T key e segs arrivals st) := by
  induction arrivals using List.reverseRecOn with
  | nil => exact absurd EachAfter.nil hturn
  | append_singleton arrivals a ih =>
    have hmap : (arrivals ++ [a]).map Prod.snd = arrivals.map Prod.snd ++ [a.2] := by
      rw [List.map_append, List.map_singleton]
    have hnodup' := hnodup
    have hlt' := hlt
    rw [hmap] at hnodup' hlt'
    have hbefore : ∀ j ∈ arrivals.map Prod.snd, j < segs.length :=
      fun j hj => hlt' j (List.mem_append_left _ hj)
    have hblocked : ∃ m < segs.length, Blocks e ((arrivals ++ [a]).map Prod.snd) m ∧
        Arrived key e segs handler base (arrivals.map Prod.snd) m
          (arrive S T key e segs arrivals st) := by
      by_cases hturn' : InTurn e segs.length (arrivals.map Prod.snd)
      · obtain ⟨m, hm, h⟩ := arrive_inTurn hacquires hspares hne hcount hstart
          (List.nodup_append.1 hnodup').1 hbefore hturn'
        -- The number that has just arrived is wrapped, and one before the wrap-around is missing.
        have hlast : ¬ (2 ^ 32 ≤ e.toNat + a.2 → ∀ i < segs.length, e.toNat + i < 2 ^ 32 →
            i ∈ arrivals.map Prod.snd) := by
          intro hlast
          rw [hmap, InTurn, EachAfter.concat_iff] at hturn
          exact hturn ⟨hturn', hlast⟩
        simp only [not_forall] at hlast
        obtain ⟨hwrapped, i, hi, hplain, hmissing⟩ := hlast
        have hmi : m ≤ i := Nat.not_lt.1 fun hlt => hmissing (h.run i hlt)
        have ha := hlt' a.2 (List.mem_append_right _ (List.mem_singleton_self _))
        have hlen := S.config.recvWindow.isLt
        refine ⟨m, Nat.lt_of_le_of_lt hmi hi, ⟨a.2, ?_, by omega, by bv_omega⟩, h⟩
        rw [hmap]
        exact List.mem_append_right _ (List.mem_singleton_self _)
      · obtain ⟨m, hm, ⟨w, hw, hmw, hless⟩, h⟩ := ih (List.nodup_append.1 hnodup').1 hbefore hturn'
        refine ⟨m, hm, ⟨w, ?_, hmw, hless⟩, h⟩
        rw [hmap]
        exact List.mem_append_left _ hw
    obtain ⟨m, hm, hblocks, h⟩ := hblocked
    obtain ⟨m', -, hstuck, -, h'⟩ := h.next hacquires hspares hne hcount hnodup hlt
    rw [hstuck hblocks] at h'
    exact ⟨m, hm, hblocks, h'⟩

/-- All the segments are handed on, in order, exactly if their numbers come in turn. -/
theorem arrive_all_iff (hstart : Arrived key e segs handler base [] 0 st)
    {arrivals : List (ChannelRef × Nat)}
    (hperm : (arrivals.map Prod.snd).Perm (List.range segs.length)) :
    Libfgw.traffic key (arrive S T key e segs arrivals st).events = base ++ segs.map some ↔
      InTurn e segs.length (arrivals.map Prod.snd) := by
  have hnodup : (arrivals.map Prod.snd).Nodup := hperm.nodup_iff.2 List.nodup_range
  have hmem : ∀ j, j ∈ arrivals.map Prod.snd ↔ j < segs.length := by
    intro j
    rw [hperm.mem_iff, List.mem_range]
  have hlt : ∀ j ∈ arrivals.map Prod.snd, j < segs.length := fun j => (hmem j).1
  constructor
  · intro hall
    by_contra hturn
    obtain ⟨m, hm, -, h⟩ := arrive_outOfTurn hacquires hspares hne hcount hstart hnodup hlt hturn
      (T := T)
    rw [h.traffic] at hall
    have hlen := congrArg List.length (List.append_cancel_left hall)
    simp only [List.length_map, List.length_take] at hlen
    omega
  · intro hturn
    obtain ⟨m, hm, h⟩ := arrive_inTurn hacquires hspares hne hcount hstart hnodup hlt hturn (T := T)
    have hend : segs.length ≤ m := Nat.not_lt.1 fun hlt => hm ((hmem m).2 hlt)
    rw [h.traffic, List.take_of_length_le hend]

end Order

theorem arrived_start (h : st.rxView key = some ⟨e, SortedMap.empty, some handler⟩)
    (hfresh : ∀ j < segs.length, st.dedup.map (dataKey key (e + BitVec.ofNat 32 j)) = false) :
    Arrived key e segs handler (Libfgw.traffic key st.events) [] 0 st where
  view := ⟨SortedMap.empty, by rw [BitVec.add_zero, h], fun x p => by simp⟩
  run j hj := absurd hj (Nat.not_lt_zero j)
  kept_lt j hj := absurd hj List.not_mem_nil
  traffic := by rw [List.take_zero, List.map_nil, List.append_nil]
  fresh j hj _ := hfresh j hj

end Arrivals

end DataStream

/-- The buffer is ordered by the plain value of its numbers.  So a run is handed out whole exactly
if it is empty or nothing is buffered from behind the wrap-around, and segments that arrive in any
order, while the owner leaves the session open, are all handed out exactly if those from behind it
come after all the others. -/
theorem delivery_across_wrap_iff {S : Setting σ} (T : Setting τ) (key : SessionKey) :
    (∀ (s : SessionState) (handler : Handler) (st : StreamState σ), s.handler = some handler →
      (∀ k p, s.rxBuffer.find? k = some p →
        (k - s.expectedRxSeq).toNat < S.config.recvWindow.toNat) →
      (WholeRun key s handler st (deliverInOrder S key s st) ↔
        (s.rxBuffer.find? s.expectedRxSeq = none ∨
          ∀ k p, s.rxBuffer.find? k = some p → s.expectedRxSeq ≤ k))) ∧
    (∀ (e : ZceUint32) (segs : List (List ZceByte)) (handler : Handler) (st : StreamState σ)
      (arrivals : List (ChannelRef × Nat)),
      Acquires S → (∀ seg ∈ segs, seg ≠ [] ∧ seg.length ≤ MAX_PAYLOAD) →
      segs.length ≤ S.config.recvWindow.toNat →
      st.rxView key = some ⟨e, SortedMap.empty, some handler⟩ →
      (∀ j < segs.length, st.dedup.map (dataKey key (e + BitVec.ofNat 32 j)) = false) →
      (arrivals.map Prod.snd).Perm (List.range segs.length) →
      CallsAllowed S (Sparing S key) st (arrive S T key e segs arrivals st) →
      (traffic key (arrive S T key e segs arrivals st).events =
          traffic key st.events ++ segs.map some ↔
        InTurn e segs.length (arrivals.map Prod.snd))) := by
  refine ⟨fun s handler st hhandler hwindow => deliverInOrder_wholeRun_iff hhandler hwindow st, ?_⟩
  intro e segs handler st arrivals hacquires hne hcount hview hfresh hperm hcalls
  have hspares : SparesAlways (S.keeping (Sparing S key)) key :=
    sparesAlways_keeping S fun _ _ h => h
  have hacquires' : Acquires (S.keeping (Sparing S key)) := hacquires
  rw [← (arrive_agrees T key e segs arrivals st).eq_of_allowed hcalls]
  exact arrive_all_iff hacquires' hspares hne hcount (arrived_start hview hfresh) hperm

def atWrap (buffer : SortedMap ZceUint32 (List ZceByte)) : SessionState :=
  { sessionId := 1#32, expectedRxSeq := 0xFFFFFFFF#32, rxBuffer := buffer, handler := some 5 }

theorem run_blocked_at_wrap :
    let s := atWrap ((SortedMap.empty.insert 0xFFFFFFFF#32 [1#8]).insert 0#32 [2#8])
    (∀ k p, s.rxBuffer.find? k = some p →
      (k - s.expectedRxSeq).toNat < outportSetting.config.recvWindow.toNat) ∧
    ¬ WholeRun sampleKey s 5 (StreamState.init ())
      (deliverInOrder outportSetting sampleKey s (StreamState.init ())) := by
  intro s
  refine ⟨?_, ?_⟩
  · intro k p hk
    have hmem : (k, p) ∈ [(0#32, [2#8]), (0xFFFFFFFF#32, [1#8])] := SortedMap.find?_eq_some.1 hk
    revert hmem
    simp only [List.mem_cons, Prod.mk.injEq, List.not_mem_nil, or_false]
    rintro (⟨rfl, -⟩ | ⟨rfl, -⟩) <;> decide
  · rintro ⟨-, -, -, -, hafter⟩
    have hstuck : ((deliverInOrder outportSetting sampleKey s (StreamState.init ())).sessions
        sampleKey).map (fun s' => s'.rxBuffer.find? s'.expectedRxSeq) = some (some [1#8]) := by
      decide +kernel
    obtain ⟨s', hs', hfind⟩ := Option.map_eq_some_iff.1 hstuck
    rw [hafter s' hs'] at hfind
    cases hfind

theorem delivery_across_wrap_in_turn :
    let st := (StreamState.init ()).setSession sampleKey (atWrap SortedMap.empty)
    WholeRun sampleKey (atWrap (SortedMap.empty.insert 0xFFFFFFFF#32 [1#8])) 5 st
      (deliverInOrder outportSetting sampleKey (atWrap (SortedMap.empty.insert 0xFFFFFFFF#32 [1#8]))
        st) ∧
    traffic sampleKey (arrive outportSetting inportSetting sampleKey 0xFFFFFFFF#32 [[1#8], [2#8]]
      [(1, 0), (2, 1)] st).events = [some [1#8], some [2#8]] := by
  intro st
  obtain ⟨hrun, harrive⟩ := delivery_across_wrap_iff (S := outportSetting) inportSetting sampleKey
  constructor
  · have hmem : ∀ k p, (atWrap (SortedMap.empty.insert 0xFFFFFFFF#32 [1#8])).rxBuffer.find? k = some p →
        k = 0xFFFFFFFF#32 := by
      intro k p hk
      have h : (k, p) ∈ [(0xFFFFFFFF#32, [1#8])] := SortedMap.find?_eq_some.1 hk
      exact congrArg Prod.fst (List.mem_singleton.1 h)
    refine (hrun _ 5 st rfl fun k p hk => ?_).2 (Or.inr fun k p hk => ?_)
    · rw [hmem k p hk]
      decide
    · rw [hmem k p hk]
      exact le_refl _
  · refine (harrive 0xFFFFFFFF#32 [[1#8], [2#8]] 5 st [(1, 0), (2, 1)] (acquires_quiet _ _ _ _)
      (by decide) (by decide) ?_ (fun _ _ => rfl) (by decide) (by decide +kernel)).2 ?_
    · rw [rxView_setSession, if_pos rfl]
      rfl
    · intro pre j post hsplit hwrap i hi hplain
      have he : (0xFFFFFFFF#32).toNat = 2 ^ 32 - 1 := rfl
      obtain rfl : i = 0 := by omega
      cases pre with
      | nil =>
        obtain rfl : 0 = j := (List.cons.inj hsplit).1
        omega
      | cons x pre =>
        rw [← (List.cons.inj hsplit).1]
        exact List.mem_cons_self

end Libfgw
