import Libfgw.DataStream.Absence
import Libfgw.DataStream.Delivery

namespace Libfgw

open FgwSegmentHeader Lib Lib.Reassembly

variable {σ τ : Type}

def finKey (key : SessionKey) (n : Nat) : DedupKey := ⟨key.1, key.2, BitVec.ofNat 32 n, .fin⟩

namespace DataStream

section Frames

variable {S : Setting σ} {T : Setting τ} {key : SessionKey} {n : Nat} {st : StreamState σ}

theorem handleFrame_finFrame (ch : ChannelRef) (st : StreamState σ) :
    handleFrame S ch st (finFrame T key n) =
      if st.dedup.map (finKey key n) then noteLoser ch st
      else onFin S key (admitted ch (finKey key n) st) := by
  have hlen : ([] : List ZceByte).length ≤ MAX_PAYLOAD := Nat.zero_le _
  rw [finFrame, handleFrame_segmentFrame T key _ FLAG_FIN [] S ch st hlen
    (by rw [isControl_segmentDecoded]; decide)]
  simp only [onSessionSegment, acceptSegment, dedupKey_segmentDecoded, frameKey_segmentDecoded,
    carriesData_segmentDecoded hlen, isSyn_segmentDecoded, isFin_segmentDecoded]
  rfl

theorem dataSeq_finFrame (T : Setting τ) (key : SessionKey) (n : Nat) :
    dataSeq key (finFrame T key n) = none := by
  have hlen : ([] : List ZceByte).length ≤ MAX_PAYLOAD := Nat.zero_le _
  unfold dataSeq finFrame
  rw [peek_segmentFrame T key _ FLAG_FIN [] hlen]
  dsimp only
  rw [carriesData_segmentDecoded hlen]
  exact if_neg (by simp)

theorem finFrame_passive (ch : ChannelRef)
    (h : st.dedup.map (finKey key n) = false → st.sessions key = none) :
    Passive key st (handleFrame S ch st (finFrame T key n)) ∧
      ((handleFrame S ch st (finFrame T key n)).sessions = st.sessions) := by
  rw [handleFrame_finFrame]
  cases hmap : st.dedup.map (finKey key n) with
  | true =>
    exact ⟨(noteLoser_judgesOnly ch st).passive, (noteLoser_judgesOnly ch st).sessions⟩
  | false =>
    have hstay : onFin S key (admitted ch (finKey key n) st) = admitted ch (finKey key n) st := by
      simp only [onFin, admitted_sessions, h hmap]
    rw [if_neg Bool.false_ne_true, hstay]
    exact ⟨admitted_passive ch (by simp [finKey, dataKey]) st, admitted_sessions _ _ _⟩

theorem finFrame_closes (ch : ChannelRef) {v : RxView} (hfresh : st.dedup.map (finKey key n) = false)
    (hview : st.rxView key = some v) (hhandler : v.handler.isSome) :
    traffic key (handleFrame S ch st (finFrame T key n)).events =
        traffic key st.events ++ [none] ∧
      (handleFrame S ch st (finFrame T key n)).sessions key = none := by
  rw [handleFrame_finFrame, hfresh, if_neg Bool.false_ne_true]
  refine ⟨?_, onFin_absent key _⟩
  obtain ⟨s, hs, rfl⟩ := Option.map_eq_some_iff.1 hview
  obtain ⟨handler, hhandler⟩ := Option.isSome_iff_exists.1 hhandler
  have hhandler' : s.handler = some handler := hhandler
  simp only [onFin, admitted_sessions, hs, hhandler']
  change traffic key (notify S _ _).events = _
  rw [notify_events, admitted_events, traffic_append]
  simp [traffic]

theorem synFrame_dup (ch : ChannelRef) (hdup : st.dedup.map (synKey key) = true) :
    handleFrame S ch st (synFrame T key) = noteLoser ch st := by
  rw [handleFrame_synFrame, if_pos hdup]

theorem synFrame_present (hspares : SparesAlways S key) (ch : ChannelRef)
    (hfresh : st.dedup.map (synKey key) = false) :
    (handleFrame S ch st (synFrame T key)).rxView key ≠ none := by
  rw [handleFrame_synFrame, hfresh, if_neg Bool.false_ne_true]
  have hensure : (ensureSession S key (admitted ch (synKey key) st)).rxView key ≠ none := by
    rw [ne_eq, rxView_eq_none, ← ne_eq, ← Option.isSome_iff_ne_none]
    exact ensureSession_isSome S key _
  simp only [onSyn]
  split
  · exact hensure
  · exact Grows.present (notify_grows S (hspares _ _ id)) hensure

theorem foreign_shut (hnever : NeverOpens S key) (ch : ChannelRef) {f : List ZceByte}
    (hf : Foreign key f) : Shut key st (handleFrame S ch st f) := by
  refine handleFrame_shut hnever ch ?_
  rintro ⟨hr, hdr, hpeek, -, hctl, hkey, -⟩
  rcases hf hr hdr hpeek with hctl' | hkey'
  · rw [hctl] at hctl'
    exact absurd hctl' Bool.false_ne_true
  · exact hkey' hkey

end Frames

def Closing (T : Setting τ) (key : SessionKey) (n : Nat) (p : StreamState σ × List ZceByte) : Prop :=
  p.2 = finFrame T key n ∧ p.1.dedup.map (finKey key n) = false ∧ p.1.sessions key ≠ none

def Reopening (T : Setting τ) (key : SessionKey) (segs : List (List ZceByte))
    (p : StreamState σ × List ZceByte) : Prop :=
  (p.2 = synFrame T key ∧ p.1.dedup.map (synKey key) = false) ∨
    ∃ k payload, segs[k]? = some payload ∧ p.2 = dataFrame T key k payload ∧
      p.1.dedup.map (dataKey key (BitVec.ofNat 32 k)) = false

/-- A closing takes effect, and all openings and data segments that arrive after the first such
one are remembered. -/
def ClosedLast (T : Setting τ) (key : SessionKey) (segs : List (List ZceByte))
    (tr : List (StreamState σ × List ZceByte)) : Prop :=
  ∃ pre p post, tr = pre ++ p :: post ∧ Closing T key segs.length p ∧
    (∀ q ∈ pre, ¬ Closing T key segs.length q) ∧ ∀ q ∈ post, ¬ Reopening T key segs q

/-- The handler has received exactly these bytes and then one close, and the entry is gone. -/
def HandedOver (key : SessionKey) (bytes : List ZceByte) (base : List (Option (List ZceByte)))
    (st : StreamState σ) : Prop :=
  (∃ blks : List (List ZceByte), traffic key st.events = base ++ (blks.map some ++ [none]) ∧
    blks.flatten = bytes) ∧
    st.sessions key = none

def Holds (T : Setting τ) (key : SessionKey) (segs : List (List ZceByte))
    (tr : List (StreamState σ × List ZceByte)) (kept : Finset Nat) : Prop :=
  ∀ q ∈ tr, ∀ k payload, segs[k]? = some payload → q.2 = dataFrame T key k payload → k ∈ kept

/-- How far a session has come: no closing has taken effect yet; or one has and nothing has
reopened the session since; or something has. -/
inductive Phase (T : Setting τ) (S : Setting σ) (key : SessionKey) (segs : List (List ZceByte))
    (base : List (Option (List ZceByte))) (tr : List (StreamState σ × List ZceByte))
    (st : StreamState σ) : Prop
  | opened (hnone : ∀ q ∈ tr, ¬ Closing T key segs.length q) (hfollows : Follows S key segs base tr st)
    (hholds : Holds T key segs tr (reference S key (tr.map Prod.snd)))
  | closed (pre : List (StreamState σ × List ZceByte)) (p : StreamState σ × List ZceByte)
    (post : List (StreamState σ × List ZceByte)) (kept : Finset Nat) (htr : tr = pre ++ p :: post)
    (hp : Closing T key segs.length p) (hpre : ∀ q ∈ pre, ¬ Closing T key segs.length q)
    (hpost : ∀ q ∈ post, ¬ Reopening T key segs q) (hkept : ∀ k ∈ kept, k < segs.length)
    (htraffic : traffic key st.events = base ++ ((segs.take (next kept)).map some ++ [none]))
    (habsent : st.sessions key = none) (hrem : Remembers key segs kept st)
    (hholds : Holds T key segs tr kept)
  | reopened (pre : List (StreamState σ × List ZceByte)) (p : StreamState σ × List ZceByte)
    (post : List (StreamState σ × List ZceByte)) (q : StreamState σ × List ZceByte)
    (t : List (Option (List ZceByte))) (kept : Finset Nat) (htr : tr = pre ++ p :: post)
    (hp : Closing T key segs.length p) (hpre : ∀ q ∈ pre, ¬ Closing T key segs.length q)
    (hq : q ∈ post) (hreopening : Reopening T key segs q)
    (hre : Reassembles S key segs (base ++ t) kept st) (hcount : 1 ≤ t.count none)
    (hagain : 2 ≤ t.count none ∨ st.rxView key ≠ none)

section Steps

variable {T : Setting τ} {S : Setting σ} {key : SessionKey} {segs : List (List ZceByte)}
  {base : List (Option (List ZceByte))} {tr : List (StreamState σ × List ZceByte)}
  {kept : Finset Nat} {st st' : StreamState σ} {f : List ZceByte}

theorem Phase.calm (h : Phase T S key segs base tr st) (hp : Passive key st st')
    (hs : Shut key st st') : Phase T S key segs base tr st' := by
  cases h with
  | opened hnone hfollows hholds => exact .opened hnone (hfollows.passive hp) hholds
  | closed pre p post kept htr hclosing hpre hpost hkept htraffic habsent hrem hholds =>
    exact .closed pre p post kept htr hclosing hpre hpost hkept (hp.traffic.trans htraffic)
      (hs habsent).1 (hrem.passive hp) hholds
  | reopened pre p post q t kept htr hclosing hpre hq hreopening hre hcount hagain =>
    exact .reopened pre p post q t kept htr hclosing hpre hq hreopening (hre.passive hp) hcount
      (hagain.imp_right hp.view.present)

theorem Remembers.frame (h : Remembers key segs kept st) (ch : ChannelRef)
    (hf : ∀ seq, ¬ HasDedupKey f (dataKey key seq)) :
    Remembers key segs kept (handleFrame S ch st f) := by
  intro k hk hmap
  rcases map_handleFrame_imp S hmap with hkey | hold
  · exact absurd hkey (hf _)
  · exact h k hk hold

theorem not_hasDedupKey_finFrame (n : Nat) (seq : ZceUint32) :
    ¬ HasDedupKey (finFrame T key n) (dataKey key seq) := by
  intro h
  have := congrArg DedupKey.kind
    (@hasDedupKey_segmentFrame τ T key (BitVec.ofNat 32 n) FLAG_FIN [] (Nat.zero_le _) _ h)
  exact absurd this (by simp [dataKey, FLAG_FIN, FLAG_SYN])

theorem finFrame_ne_dataFrame {n k : Nat} {payload : List ZceByte} (hk : k < 2 ^ 32)
    (hne : payload ≠ []) (hlen : payload.length ≤ MAX_PAYLOAD) :
    finFrame T key n ≠ dataFrame T key k payload := by
  intro h
  have hseq := dataSeq_finFrame T key n
  rw [h, dataSeq_dataFrame hk hne hlen] at hseq
  exact absurd hseq (by simp)

theorem dataFrame_present (hacquires : Acquires S) (hspares : SparesAlways S key)
    (hne : ∀ seg ∈ segs, seg ≠ [] ∧ seg.length ≤ MAX_PAYLOAD)
    (hlen : segs.length + S.config.recvWindow.toNat < 2 ^ 32) (ch : ChannelRef) {k : Nat}
    {payload : List ZceByte} (hseg : segs[k]? = some payload)
    (hfresh : st.dedup.map (dataKey key (BitVec.ofNat 32 k)) = false)
    (h : Reassembles S key segs base kept st) (hview : st.rxView key ≠ none) :
    (handleFrame S ch st (dataFrame T key k payload)).rxView key ≠ none := by
  intro hview'
  have hk := (List.getElem?_eq_some_iff.1 hseg).1
  obtain ⟨hpne, hplen⟩ := hne payload (List.mem_of_getElem? hseg)
  have hempty := ((dataFrame_fresh (T := T) hacquires hspares hne hlen ch hseg hfresh h).absent
    hview').1
  by_cases hwin : next kept ≤ k ∧ k < next kept + S.config.recvWindow.toNat
  · rw [receive, if_pos hwin] at hempty
    exact absurd hempty (Finset.insert_ne_empty k kept)
  · rw [handleFrame_dataFrame ch st hpne hplen, hfresh, if_neg Bool.false_ne_true,
      if_pos ((outsideWindow_iff hlen h hk).2 hwin)] at hview'
    exact hview hview'

theorem Holds.concat (h : Holds T key segs tr kept) {p : StreamState σ × List ZceByte}
    (hp : ∀ k payload, segs[k]? = some payload → p.2 = dataFrame T key k payload → k ∈ kept) :
    Holds T key segs (tr ++ [p]) kept := by
  intro q hq
  rcases List.mem_append.1 hq with hq | hq
  · exact h q hq
  · rw [List.mem_singleton.1 hq]
    exact hp

theorem Holds.mono {kept' : Finset Nat} (h : Holds T key segs tr kept) (hsub : kept ⊆ kept') :
    Holds T key segs tr kept' := fun q hq k payload hseg hf => hsub (h q hq k payload hseg hf)

variable (hacquires : Acquires S) (hspares : SparesAlways S key) (hnever : NeverOpens S key)
  (hanswers : Answers S key) (hne : ∀ seg ∈ segs, seg ≠ [] ∧ seg.length ≤ MAX_PAYLOAD)
  (hwindow : segs.length ≤ S.config.recvWindow.toNat)

include hne hwindow in
theorem Holds.frame (h : Holds T key segs tr (reference S key (tr.map Prod.snd))) :
    Holds T key segs (tr ++ [(st, f)]) (reference S key ((tr ++ [(st, f)]).map Prod.snd)) := by
  have hW := S.config.recvWindow.isLt
  rw [List.map_append, List.map_singleton, reference_append]
  refine Holds.concat (h.mono ?_) ?_
  · cases dataSeq key f with
    | none => exact Finset.Subset.refl _
    | some k => exact subset_receive _ _ k
  · rintro k payload hseg rfl
    have hk := (List.getElem?_eq_some_iff.1 hseg).1
    obtain ⟨hpne, hplen⟩ := hne payload (List.mem_of_getElem? hseg)
    rw [dataSeq_dataFrame (by omega) hpne hplen]
    exact mem_receive_self (by omega)

theorem reassembles_closed (hanswers : Answers S key) (habsent : st.sessions key = none)
    (htraffic : traffic key st.events = base) : Reassembles S key segs base ∅ st :=
  htraffic ▸ reassembles_fresh segs (Or.inl ⟨rxView_eq_none.2 habsent, hanswers⟩)

include hacquires hspares hne hwindow in
theorem opened_frame (ch : ChannelRef)
    (hf : Foreign key f ∨ IsCopy T key segs f ∨ f = finFrame T key segs.length)
    (hnone : ∀ q ∈ tr, ¬ Closing T key segs.length q) (hfollows : Follows S key segs base tr st)
    (hholds : Holds T key segs tr (reference S key (tr.map Prod.snd))) :
    Phase T S key segs base (tr ++ [(st, f)]) (handleFrame S ch st f) := by
  have hW := S.config.recvWindow.isLt
  have hlen : segs.length + S.config.recvWindow.toNat < 2 ^ 32 := by omega
  by_cases hclosing : Closing T key segs.length (st, f)
  · obtain ⟨hfin, hfresh, hpresent⟩ := id hclosing
    have hview : st.rxView key ≠ none := fun h => hpresent (rxView_eq_none.1 h)
    obtain ⟨v, hv⟩ := Option.ne_none_iff_exists'.1 hview
    obtain ⟨htraffic, habsent⟩ :=
      finFrame_closes (S := S) (T := T) ch hfresh hv (hfollows.1.present v hv).1
    have hfin' : f = finFrame T key segs.length := hfin
    subst hfin'
    refine .closed tr _ [] _ rfl hclosing hnone (fun q hq => absurd hq List.not_mem_nil)
      hfollows.1.kept_lt ?_ habsent
      (hfollows.2.frame ch (not_hasDedupKey_finFrame _)) (hholds.concat ?_)
    · rw [htraffic, hfollows.1.traffic, List.append_assoc]
    · intro k payload hseg hdata
      obtain ⟨hpne, hplen⟩ := hne payload (List.mem_of_getElem? hseg)
      have hk := (List.getElem?_eq_some_iff.1 hseg).1
      exact absurd hdata (finFrame_ne_dataFrame (by omega) hpne hplen)
  · refine .opened ?_ ?_ (Holds.frame hne hwindow hholds)
    · intro q hq
      rcases List.mem_append.1 hq with hq | hq
      · exact hnone q hq
      · rw [List.mem_singleton.1 hq]
        exact hclosing
    · rcases hf with hf | hf | rfl
      · exact hfollows.frame (T := T) hacquires hspares hne hlen ch (Or.inl hf)
      · exact hfollows.frame hacquires hspares hne hlen ch (Or.inr hf)
      · have hp := (finFrame_passive (S := S) (T := T) (n := segs.length) ch fun hfresh =>
          not_not.1 fun hpresent => hclosing ⟨rfl, hfresh, hpresent⟩).1
        rw [Follows, List.map_append, List.map_singleton, reference_append, dataSeq_finFrame]
        exact hfollows.passive hp

include hacquires hspares hanswers hne hwindow in
theorem reassembles_reopening (ch : ChannelRef) (habsent : st.sessions key = none)
    (htraffic : traffic key st.events = base) (hreopening : Reopening T key segs (st, f)) :
    ∃ kept, Reassembles S key segs base kept (handleFrame S ch st f) ∧
      (handleFrame S ch st f).rxView key ≠ none := by
  have hW := S.config.recvWindow.isLt
  have hlen : segs.length + S.config.recvWindow.toNat < 2 ^ 32 := by omega
  have hre : Reassembles S key segs base ∅ st := reassembles_closed hanswers habsent htraffic
  obtain ⟨hsyn, hfresh⟩ | ⟨k, payload, hseg, hdata, hfresh⟩ := hreopening
  · have hsyn' : f = synFrame T key := hsyn
    subst hsyn'
    exact ⟨∅, hre.passive (synFrame_passive hspares ch hre.answers),
      synFrame_present hspares ch hfresh⟩
  · have hdata' : f = dataFrame T key k payload := hdata
    subst hdata'
    have hre' := dataFrame_fresh (T := T) hacquires hspares hne hlen ch hseg hfresh hre
    refine ⟨_, hre', fun hview => ?_⟩
    have hk := (List.getElem?_eq_some_iff.1 hseg).1
    have hmem : k ∈ receive S.config.recvWindow.toNat ∅ k := mem_receive_self (by omega)
    rw [(hre'.absent hview).1] at hmem
    exact absurd hmem (Finset.notMem_empty k)

include hspares hnever hne in
theorem closed_stays (ch : ChannelRef)
    (hf : Foreign key f ∨ IsCopy T key segs f ∨ f = finFrame T key segs.length)
    (habsent : st.sessions key = none) (hreopening : ¬ Reopening T key segs (st, f)) :
    Passive key st (handleFrame S ch st f) ∧ (handleFrame S ch st f).sessions key = none := by
  rcases hf with hf | (rfl | ⟨k, payload, hseg, rfl⟩) | rfl
  · exact ⟨handleFrame_passive hspares ch hf st, (foreign_shut hnever ch hf habsent).1⟩
  · have hdup : st.dedup.map (synKey key) = true := by
      rw [← Bool.not_eq_false]
      exact fun h => hreopening (Or.inl ⟨rfl, h⟩)
    rw [synFrame_dup ch hdup, (noteLoser_judgesOnly ch st).sessions]
    exact ⟨(noteLoser_judgesOnly ch st).passive, habsent⟩
  · obtain ⟨hpne, hplen⟩ := hne payload (List.mem_of_getElem? hseg)
    have hdup : st.dedup.map (dataKey key (BitVec.ofNat 32 k)) = true := by
      rw [← Bool.not_eq_false]
      exact fun h => hreopening (Or.inr ⟨k, payload, hseg, rfl, h⟩)
    rw [dataFrame_dup ch hpne hplen hdup, (noteLoser_judgesOnly ch st).sessions]
    exact ⟨(noteLoser_judgesOnly ch st).passive, habsent⟩
  · obtain ⟨hp, hs⟩ := finFrame_passive (S := S) (T := T) (n := segs.length) ch (fun _ => habsent)
    exact ⟨hp, (congrFun hs key).trans habsent⟩

include hacquires hspares hnever hanswers hne hwindow in
theorem Phase.frame (ch : ChannelRef)
    (hf : Foreign key f ∨ IsCopy T key segs f ∨ f = finFrame T key segs.length)
    (h : Phase T S key segs base tr st) :
    Phase T S key segs base (tr ++ [(st, f)]) (handleFrame S ch st f) := by
  have hW := S.config.recvWindow.isLt
  have hlen : segs.length + S.config.recvWindow.toNat < 2 ^ 32 := by omega
  cases h with
  | opened hnone hfollows hholds =>
    exact opened_frame hacquires hspares hne hwindow ch hf hnone hfollows hholds
  | closed pre p post kept htr hclosing hpre hpost hkept htraffic habsent hrem hholds =>
    subst htr
    by_cases hreopening : Reopening T key segs (st, f)
    · obtain ⟨kept', hre, hview⟩ := reassembles_reopening hacquires hspares hanswers hne hwindow ch
        habsent htraffic hreopening
      rw [List.append_assoc, List.cons_append]
      exact .reopened pre p _ _ _ kept' rfl hclosing hpre (by simp) hreopening hre (by simp)
        (Or.inr hview)
    · obtain ⟨hp, habsent'⟩ := closed_stays hspares hnever hne ch hf habsent hreopening
      refine .closed pre p (post ++ [(st, f)]) kept (by simp) hclosing hpre ?_ hkept
        (hp.traffic.trans htraffic) habsent' (hrem.passive hp) (hholds.concat ?_)
      · intro q hq
        rcases List.mem_append.1 hq with hq | hq
        · exact hpost q hq
        · rw [List.mem_singleton.1 hq]
          exact hreopening
      · intro k payload hseg hdata
        refine hrem k (List.getElem?_eq_some_iff.1 hseg).1 ?_
        rw [← Bool.not_eq_false]
        exact fun h => hreopening (Or.inr ⟨k, payload, hseg, hdata, h⟩)
  | reopened pre p post q t kept htr hclosing hpre hq hreopening hre hcount hagain =>
    subst htr
    have hq' : q ∈ post ++ [(st, f)] := List.mem_append_left _ hq
    rw [List.append_assoc, List.cons_append]
    have hpassive : Passive key st (handleFrame S ch st f) →
        Phase T S key segs base (pre ++ p :: (post ++ [(st, f)])) (handleFrame S ch st f) :=
      fun hp => .reopened pre p _ q t kept rfl hclosing hpre hq' hreopening (hre.passive hp) hcount
        (hagain.imp_right hp.view.present)
    rcases hf with hf | (rfl | ⟨k, payload, hseg, rfl⟩) | rfl
    · exact hpassive (handleFrame_passive hspares ch hf st)
    · exact hpassive (synFrame_passive hspares ch hre.answers)
    · obtain ⟨hpne, hplen⟩ := hne payload (List.mem_of_getElem? hseg)
      cases hmap : st.dedup.map (dataKey key (BitVec.ofNat 32 k)) with
      | true =>
        refine hpassive ?_
        rw [dataFrame_dup ch hpne hplen hmap]
        exact (noteLoser_judgesOnly ch st).passive
      | false =>
        have hre' := dataFrame_fresh (T := T) hacquires hspares hne hlen ch hseg hmap hre
        exact .reopened pre p _ q t _ rfl hclosing hpre hq' hreopening hre' hcount
          (hagain.imp_right (dataFrame_present hacquires hspares hne hlen ch hseg hmap hre))
    · by_cases hpresent : st.dedup.map (finKey key segs.length) = false → st.sessions key = none
      · exact hpassive (finFrame_passive ch hpresent).1
      · obtain ⟨hfresh, hpresent⟩ := Classical.not_imp.1 hpresent
        have hview : st.rxView key ≠ none := fun h => hpresent (rxView_eq_none.1 h)
        obtain ⟨v, hv⟩ := Option.ne_none_iff_exists'.1 hview
        obtain ⟨htraffic, habsent⟩ := finFrame_closes (S := S) (T := T) ch hfresh hv
          (hre.present v hv).1
        refine .reopened pre p _ q (t ++ ((segs.take (next kept)).map some ++ [none])) ∅ rfl hclosing
          hpre hq' hreopening (reassembles_closed hanswers habsent ?_) ?_ (Or.inl ?_)
        · rw [htraffic, hre.traffic]
          simp only [List.append_assoc]
        · rw [List.count_append]
          omega
        · rw [List.count_append, List.count_append, List.count_singleton_self]
          omega

theorem append_cons_inj_of_first {α : Type} {P : α → Prop} {pre pre' post post' : List α}
    {p p' : α} (h : pre ++ p :: post = pre' ++ p' :: post') (hp : P p) (hpre : ∀ q ∈ pre, ¬ P q)
    (hp' : P p') (hpre' : ∀ q ∈ pre', ¬ P q) : pre = pre' ∧ p = p' ∧ post = post' := by
  induction pre generalizing pre' with
  | nil =>
    cases pre' with
    | nil => simpa using h
    | cons q pre' =>
      obtain ⟨rfl, -⟩ := List.cons.inj h
      exact absurd hp (hpre' p List.mem_cons_self)
  | cons q pre ih =>
    cases pre' with
    | nil =>
      obtain ⟨rfl, -⟩ := List.cons.inj h
      exact absurd hp' (hpre q List.mem_cons_self)
    | cons q' pre' =>
      obtain ⟨rfl, htail⟩ := List.cons.inj h
      obtain ⟨rfl, rfl, rfl⟩ := ih htail (fun q hq => hpre q (List.mem_cons_of_mem _ hq))
        (fun q hq => hpre' q (List.mem_cons_of_mem _ hq))
      exact ⟨rfl, rfl, rfl⟩

/-- When all data segments have arrived, everything has been handed over if and only if the
closing came last. -/
theorem Phase.handedOver_iff (h : Phase T S key segs base tr st)
    (hall : ∀ k payload, segs[k]? = some payload → ∃ q ∈ tr, q.2 = dataFrame T key k payload) :
    HandedOver key segs.flatten base st ↔ ClosedLast T key segs tr := by
  cases h with
  | opened hnone hfollows hholds =>
    refine iff_of_false ?_ ?_
    · rintro ⟨⟨blks, htraffic, -⟩, -⟩
      rw [hfollows.1.traffic, List.append_cancel_left_eq] at htraffic
      have hsome : (none : Option (List ZceByte)) ∈
          (segs.take (next (reference S key (tr.map Prod.snd)))).map some := by
        rw [htraffic]
        exact List.mem_append_right _ (List.mem_singleton_self none)
      obtain ⟨seg, -, hseg⟩ := List.mem_map.1 hsome
      exact absurd hseg (Option.some_ne_none seg)
    · rintro ⟨pre, p, post, rfl, hp, -⟩
      exact hnone p (by simp) hp
  | closed pre p post kept htr hclosing hpre hpost hkept htraffic habsent hrem hholds =>
    refine iff_of_true ⟨⟨segs, ?_, rfl⟩, habsent⟩ ⟨pre, p, post, htr, hclosing, hpre, hpost⟩
    have hnext : segs.length ≤ next kept := by
      refine le_next fun k hk => ?_
      obtain ⟨q, hq, hf⟩ := hall k segs[k] (List.getElem?_eq_getElem hk)
      exact hholds q hq k segs[k] (List.getElem?_eq_getElem hk) hf
    rw [htraffic, List.take_of_length_le hnext]
  | reopened pre p post q t kept htr hclosing hpre hq hreopening hre hcount hagain =>
    refine iff_of_false ?_ ?_
    · rintro ⟨⟨blks, htraffic, -⟩, habsent⟩
      rw [hre.traffic, List.append_assoc, List.append_cancel_left_eq] at htraffic
      have hone := congrArg (List.count none) htraffic
      rw [List.count_append, List.count_append, List.count_singleton_self] at hone
      have hsome : ∀ l : List (List ZceByte), (l.map some).count none = 0 := fun l =>
        List.count_eq_zero.2 (by simp)
      rw [hsome, hsome] at hone
      rcases hagain with htwo | hview
      · omega
      · exact hview (rxView_eq_none.2 habsent)
    · rintro ⟨pre', p', post', htr', hclosing', hpre', hpost'⟩
      obtain ⟨-, -, rfl⟩ :=
        append_cons_inj_of_first (htr.symm.trans htr') hclosing hpre hclosing' hpre'
      exact hpost' q hq hreopening

end Steps

end DataStream

end Libfgw
