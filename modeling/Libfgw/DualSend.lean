import Libfgw.DataStream.LinkChoice
import Libfgw.ExactlyOnce
import Libfgw.Lib.RoundRobin

namespace Libfgw

open Lib

def liveIds (pool : List FgwChannel) : List ZceUint32 :=
  (pool.filter FgwChannel.isLive).map FgwChannel.channelId

def Heaviest (pool : List FgwChannel) (id : ZceUint32) : Prop :=
  ∃ ch ∈ pool, ch.isLive ∧ ch.channelId = id ∧
    ∀ ch' ∈ pool, ch'.isLive → linkWeight ch' ≤ linkWeight ch

theorem nodup_liveIds {pool : List FgwChannel} (h : (pool.map FgwChannel.channelId).Nodup) :
    (liveIds pool).Nodup := h.sublist (List.filter_sublist.map _)

namespace LinkSelector

def fedBack (sel : LinkSelector) : Option ZceUint32 :=
  if sel.primaryChannelId = 0#32 then none else some sel.primaryChannelId

/-- The link that goes first: the fed-back primary if it is live, else a link of maximal weight. -/
def Leads (sel : LinkSelector) (pool : List FgwChannel) (id : ZceUint32) : Prop :=
  (sel.fedBack = some id ∧ id ∈ liveIds pool) ∨
    ((∀ primary, sel.fedBack = some primary → primary ∉ liveIds pool) ∧ Heaviest pool id)

def selects (sort : StdSort) (pool : List FgwChannel) : Nat → LinkSelector → List (List ZceUint32)
  | 0, _ => []
  | n + 1, sel => (sel.select sort pool).1 :: selects sort pool n (sel.select sort pool).2

variable {sort : StdSort} {pool : List FgwChannel} {sel : LinkSelector}

def rankedIds (sort : StdSort) (pool : List FgwChannel) : List ZceUint32 :=
  (ranked sort pool).map Entry.id

theorem rankedIds_perm (sort : StdSort) (pool : List FgwChannel) :
    (rankedIds sort pool).Perm (liveIds pool) := by
  have h := (sort.perm ((pool.filter FgwChannel.isLive).map
    (fun ch => (⟨ch.channelId, linkWeight ch⟩ : Entry)))).map Entry.id
  rwa [List.map_map] at h

theorem length_rankedIds (sort : StdSort) (pool : List FgwChannel) :
    (rankedIds sort pool).length = (ranked sort pool).length := List.length_map _

theorem heaviest_head {id : ZceUint32} (h : (rankedIds sort pool)[0]? = some id) :
    Heaviest pool id := by
  have hmem : ∀ e, e ∈ ranked sort pool ↔
      ∃ ch ∈ pool, ch.isLive ∧ ⟨ch.channelId, linkWeight ch⟩ = e := fun e => mem_ranked
  have hordered : (ranked sort pool).Pairwise (fun a b => ¬ b.weight > a.weight) := sort.ordered _
  rw [rankedIds, List.getElem?_map] at h
  obtain ⟨e, he, rfl⟩ := Option.map_eq_some_iff.1 h
  cases hr : ranked sort pool with
  | nil =>
    rw [hr] at he
    cases he
  | cons e' es =>
    rw [hr] at he hmem hordered
    obtain rfl : e' = e := Option.some.inj he
    obtain ⟨ch, hch, hlive, rfl⟩ := (hmem e').1 List.mem_cons_self
    refine ⟨ch, hch, hlive, rfl, fun ch' hch' hlive' => ?_⟩
    rcases List.mem_cons.1 ((hmem _).2 ⟨ch', hch', hlive', rfl⟩) with heq | htail
    · exact (congrArg Entry.weight heq).le
    · exact not_lt.1 ((List.pairwise_cons.1 hordered).1 _ htail)

theorem leads_primary {id : ZceUint32}
    (h : (rankedIds sort pool)[sel.primaryIdx (ranked sort pool)]? = some id) :
    sel.Leads pool id := by
  have hlive : ∀ {x}, x ∈ liveIds pool ↔ ∃ e ∈ ranked sort pool, e.id = x := by
    intro x
    rw [← (rankedIds_perm sort pool).mem_iff, rankedIds, List.mem_map]
  unfold primaryIdx at h
  by_cases hzero : sel.primaryChannelId = 0#32
  · rw [if_neg (not_not.2 hzero)] at h
    refine Or.inr ⟨fun primary hfed => ?_, heaviest_head h⟩
    rw [fedBack, if_pos hzero] at hfed
    cases hfed
  · rw [if_pos hzero] at h
    cases hfind : (ranked sort pool).findIdx? (fun e => e.id = sel.primaryChannelId) with
    | none =>
      rw [hfind] at h
      refine Or.inr ⟨fun primary hfed hmem => ?_, heaviest_head h⟩
      rw [fedBack, if_neg hzero] at hfed
      obtain rfl := Option.some.inj hfed
      obtain ⟨e, he, hid⟩ := hlive.1 hmem
      have hnot := List.findIdx?_eq_none_iff.1 hfind e he
      simp [hid] at hnot
    | some i =>
      rw [hfind, Option.getD_some, rankedIds, List.getElem?_map] at h
      obtain ⟨e, he, rfl⟩ := Option.map_eq_some_iff.1 h
      obtain ⟨hi, hid, -⟩ := List.findIdx?_eq_some_iff_getElem.1 hfind
      have heq : (ranked sort pool)[i] = e := (List.getElem?_eq_some_iff.1 he).2
      rw [heq, decide_eq_true_eq] at hid
      refine Or.inl ⟨?_, hlive.2 ⟨e, List.mem_of_getElem? he, rfl⟩⟩
      rw [fedBack, if_neg hzero, hid]

theorem select_pair (hmode : sel.mode = .weighted) (hlen : 1 < (ranked sort pool).length) :
    ∃ first probe, (rankedIds sort pool)[sel.primaryIdx (ranked sort pool)]? = some first ∧
      (rankedIds sort pool)[sel.probeIdx (ranked sort pool)]? = some probe ∧
      (sel.select sort pool).1 = [first, probe] := by
  have hprimary := primaryIdx_lt sel (List.ne_nil_of_length_pos (Nat.zero_lt_of_lt hlen))
  have hprobe : sel.probeIdx (ranked sort pool) < (ranked sort pool).length := by
    have hmod := Nat.mod_lt sel.probeRotation.toNat (Nat.sub_pos_of_lt hlen)
    unfold probeIdx
    dsimp only
    split <;> omega
  refine ⟨_, _, by rw [rankedIds, List.getElem?_map, List.getElem?_eq_getElem hprimary]; rfl,
    by rw [rankedIds, List.getElem?_map, List.getElem?_eq_getElem hprobe]; rfl, ?_⟩
  unfold select
  rw [hmode]
  dsimp only
  rw [if_pos hlen, List.getElem?_eq_getElem hprimary, List.getElem?_eq_getElem hprobe]
  rfl

theorem select_single (hmode : sel.mode = .weighted) (hlen : (ranked sort pool).length = 1) :
    ∃ first, (rankedIds sort pool)[sel.primaryIdx (ranked sort pool)]? = some first ∧
      (sel.select sort pool).1 = [first] := by
  have hprimary := primaryIdx_lt sel (List.ne_nil_of_length_pos (hlen ▸ Nat.zero_lt_one))
  refine ⟨_, by rw [rankedIds, List.getElem?_map, List.getElem?_eq_getElem hprimary]; rfl, ?_⟩
  unfold select
  rw [hmode]
  dsimp only
  rw [if_neg (by omega), List.getElem?_eq_getElem hprimary]
  rfl

theorem probeIdx_ne_primaryIdx (sel : LinkSelector) (ranked : List Entry) :
    sel.probeIdx ranked ≠ sel.primaryIdx ranked := by
  unfold probeIdx
  dsimp only
  split <;> omega

theorem select_weighted (hids : (pool.map FgwChannel.channelId).Nodup) (hmode : sel.mode = .weighted) :
    (sel.select sort pool).1.length = min 2 (liveIds pool).length ∧
      (sel.select sort pool).1.Nodup ∧ (sel.select sort pool).1 ⊆ liveIds pool ∧
      ∀ first ∈ (sel.select sort pool).1.head?, sel.Leads pool first := by
  have hperm := rankedIds_perm sort pool
  have hnodup : (rankedIds sort pool).Nodup := hperm.nodup_iff.2 (nodup_liveIds hids)
  have hcount : (liveIds pool).length = (ranked sort pool).length := by
    rw [← hperm.length_eq, length_rankedIds]
  rw [hcount]
  rcases Nat.lt_trichotomy (ranked sort pool).length 1 with hnone | hone | hmany
  · have hlive : (pool.filter FgwChannel.isLive) = [] := by
      rw [← List.length_eq_zero_iff, ← length_ranked sort]
      omega
    have hnil := (select_eq_nil sort sel pool).2 hlive
    rw [hnil]
    exact ⟨by rw [List.length_nil]; omega, List.nodup_nil, List.nil_subset _, by simp⟩
  · obtain ⟨first, hfirst, hout⟩ := @select_single sort pool sel hmode hone
    have hmem := hperm.mem_iff.1 (List.mem_of_getElem? hfirst)
    rw [hout]
    refine ⟨by rw [List.length_singleton]; omega, List.nodup_singleton _, ?_, ?_⟩
    · exact List.cons_subset.2 ⟨hmem, List.nil_subset _⟩
    · rintro _ ⟨rfl⟩
      exact leads_primary hfirst
  · obtain ⟨first, probe, hfirst, hprobe, hout⟩ := @select_pair sort pool sel hmode hmany
    have hne : first ≠ probe := by
      rintro rfl
      refine probeIdx_ne_primaryIdx sel (ranked sort pool) ?_
      exact (List.getElem?_inj (List.getElem?_eq_some_iff.1 hprobe).1 hnodup).1 (hprobe.trans hfirst.symm)
    rw [hout]
    refine ⟨?_, by simpa using hne, ?_, ?_⟩
    · change 2 = _
      omega
    · intro id hid
      rcases List.mem_pair.1 hid with rfl | rfl
      · exact hperm.mem_iff.1 (List.mem_of_getElem? hfirst)
      · exact hperm.mem_iff.1 (List.mem_of_getElem? hprobe)
    · rintro _ ⟨rfl⟩
      exact leads_primary hfirst

def rotated (sel : LinkSelector) (i : Nat) : LinkSelector :=
  { sel with probeRotation := sel.probeRotation + BitVec.ofNat 64 i }

theorem rotated_zero (sel : LinkSelector) : sel.rotated 0 = sel := by
  rw [rotated, BitVec.add_zero]

theorem select_rotates (hmode : sel.mode = .weighted) (hlen : 1 < (ranked sort pool).length) :
    (sel.select sort pool).2 = sel.rotated 1 := by
  unfold select rotated
  rw [hmode]
  dsimp only
  rw [if_pos hlen]
  rfl

theorem selects_eq_map (hmode : sel.mode = .weighted) (hlen : 1 < (ranked sort pool).length) (n : Nat) :
    selects sort pool n sel = (List.range n).map fun i => ((sel.rotated i).select sort pool).1 := by
  induction n generalizing sel with
  | zero => rfl
  | succ n ih =>
    have hnext : ∀ i, (sel.rotated 1).rotated i = sel.rotated (i + 1) := by
      intro i
      simp only [rotated, Nat.add_comm i 1, BitVec.ofNat_add, BitVec.add_assoc]
    rw [selects, select_rotates hmode hlen, @ih (sel.rotated 1) hmode, List.range_succ_eq_map, List.map_cons,
      List.map_map, rotated_zero]
    exact congrArg _ (List.map_congr_left fun i _ => by rw [Function.comp_apply, hnext])

theorem selects_probe_each (hids : (pool.map FgwChannel.channelId).Nodup)
    (hmode : sel.mode = .weighted) (hlen : 2 ≤ (liveIds pool).length)
    (hwrap : sel.probeRotation.toNat + ((liveIds pool).length - 1) ≤ 2 ^ 64) {first : ZceUint32}
    (hfirst : (sel.select sort pool).1.head? = some first) :
    (∀ out ∈ selects sort pool ((liveIds pool).length - 1) sel, out.head? = some first) ∧
      ((selects sort pool ((liveIds pool).length - 1) sel).map fun out => out[1]?).Perm
        (((liveIds pool).erase first).map some) := by
  have hperm := rankedIds_perm sort pool
  have hnodup : (rankedIds sort pool).Nodup := hperm.nodup_iff.2 (nodup_liveIds hids)
  have hcount : (liveIds pool).length = (ranked sort pool).length := by
    rw [← hperm.length_eq, length_rankedIds]
  rw [hcount] at hlen hwrap ⊢
  obtain ⟨first', probe', hprimary, -, hout⟩ := @select_pair sort pool sel hmode hlen
  rw [hout] at hfirst
  obtain rfl : first' = first := Option.some.inj hfirst
  have hcall : ∀ i < (ranked sort pool).length - 1, ∃ probe,
      (rankedIds sort pool)[RoundRobin.turn ((ranked sort pool).length - 1)
        (sel.primaryIdx (ranked sort pool)) (sel.probeRotation.toNat + i)]? = some probe ∧
      ((sel.rotated i).select sort pool).1 = [first', probe] := by
    intro i hi
    obtain ⟨first, probe, hsame, hprobe, hboth⟩ := @select_pair sort pool (sel.rotated i) hmode hlen
    have hcounter : (sel.rotated i).probeRotation.toNat = sel.probeRotation.toNat + i := by
      simp only [rotated, BitVec.toNat_add, BitVec.toNat_ofNat]
      omega
    obtain rfl : first' = first := Option.some.inj (hprimary.symm.trans hsame)
    rw [← hcounter]
    exact ⟨probe, hprobe, hboth⟩
  rw [selects_eq_map hmode hlen]
  constructor
  · intro out hmem
    obtain ⟨i, hi, rfl⟩ := List.mem_map.1 hmem
    obtain ⟨probe, -, hboth⟩ := hcall i (List.mem_range.1 hi)
    rw [hboth]
    rfl
  · have hprobes : ((List.range ((ranked sort pool).length - 1)).map fun i =>
        ((sel.rotated i).select sort pool).1).map (fun out => out[1]?) =
          ((List.range ((ranked sort pool).length - 1)).map fun i =>
            RoundRobin.turn ((ranked sort pool).length - 1) (sel.primaryIdx (ranked sort pool))
              (sel.probeRotation.toNat + i)).map fun k => (rankedIds sort pool)[k]? := by
      rw [List.map_map, List.map_map]
      refine List.map_congr_left fun i hi => ?_
      obtain ⟨probe, hprobe, hboth⟩ := hcall i (List.mem_range.1 hi)
      simp only [Function.comp_apply, hboth, hprobe]
      rfl
    have hturns := RoundRobin.map_turn_perm (n := (ranked sort pool).length - 1)
      (Nat.le_sub_one_of_lt (primaryIdx_lt sel (List.ne_nil_of_length_pos (by omega))))
      sel.probeRotation.toNat
    have hothers := RoundRobin.map_getElem?_perm hnodup hprimary
    rw [length_rankedIds] at hothers
    rw [Nat.sub_add_cancel (by omega)] at hturns
    rw [hprobes]
    exact (hturns.map _).trans (hothers.trans ((hperm.erase first').map some))

theorem select_best (hmode : sel.mode = .best) :
    (sel.select sort pool).1 = (rankedIds sort pool).head?.toList := by
  unfold select rankedIds
  rw [hmode]
  dsimp only
  rw [List.head?_map]
  cases (ranked sort pool).head? <;> rfl

theorem select_all (hmode : sel.mode = .all) : (sel.select sort pool).1 = rankedIds sort pool := by
  unfold select
  rw [hmode]
  rfl

end LinkSelector

open LinkSelector in
/-- Two different live links carry a segment, the fed-back primary or the best link first, and the
second copies of a round of calls go down each other live link once. -/
theorem dual_send (sort : StdSort) {pool : List FgwChannel}
    (hids : (pool.map FgwChannel.channelId).Nodup) (sel : LinkSelector) :
    (sel.mode = .weighted →
      (sel.select sort pool).1.length = min 2 (liveIds pool).length ∧
      (sel.select sort pool).1.Nodup ∧ (sel.select sort pool).1 ⊆ liveIds pool ∧
      (∀ first ∈ (sel.select sort pool).1.head?, sel.Leads pool first) ∧
      (2 ≤ (liveIds pool).length →
        sel.probeRotation.toNat + ((liveIds pool).length - 1) ≤ 2 ^ 64 →
        ∀ first ∈ (sel.select sort pool).1.head?,
          (∀ out ∈ selects sort pool ((liveIds pool).length - 1) sel, out.head? = some first) ∧
          ((selects sort pool ((liveIds pool).length - 1) sel).map fun out => out[1]?).Perm
            (((liveIds pool).erase first).map some))) ∧
    (sel.mode = .best → liveIds pool ≠ [] →
      ∃ id, (sel.select sort pool).1 = [id] ∧ Heaviest pool id) ∧
    (sel.mode = .all → (sel.select sort pool).1.Perm (liveIds pool) ∧ (liveIds pool).Nodup) := by
  refine ⟨fun hmode => ?_, fun hmode hlive => ?_, fun hmode => ?_⟩
  · obtain ⟨hlength, hnodup, hsubset, hleads⟩ := @select_weighted sort pool sel hids hmode
    exact ⟨hlength, hnodup, hsubset, hleads,
      fun hlen hwrap first hfirst => selects_probe_each hids hmode hlen hwrap hfirst⟩
  · have hne : rankedIds sort pool ≠ [] := fun hnil =>
      hlive (List.perm_nil.1 (hnil ▸ (rankedIds_perm sort pool).symm))
    obtain ⟨id, ids, hids⟩ := List.exists_cons_of_ne_nil hne
    refine ⟨id, by rw [select_best hmode, hids]; rfl, @heaviest_head sort pool id (by rw [hids]; rfl)⟩
  · rw [select_all hmode]
    exact ⟨rankedIds_perm sort pool, nodup_liveIds hids⟩

def samplePool : List FgwChannel :=
  [upChannel 1 1#32, upChannel 2 2#32, { upChannel 3 3#32 with stalled := true }, upChannel 4 4#32]

theorem dual_send_samplePool :
    let sel : LinkSelector := { primaryChannelId := 2#32, probeRotation := 5#64 }
    ((sel.selects stableSort samplePool 2).map fun out => out[1]?).Perm [some 1#32, some 4#32] := by
  intro sel
  have hids : (samplePool.map FgwChannel.channelId).Nodup := by decide
  have h := (dual_send stableSort hids sel).1 rfl
  exact (h.2.2.2.2 (by decide) (by decide) 2#32 (by decide +kernel)).2

end Libfgw
