import Mathlib.Data.BitVec
import Mathlib.Data.List.Basic

/-! A stream that is cut into numbered items.  Some items never leave their sender; copies of the
others reach a receiver in any order and number, and it takes each as the one that is next. -/

universe u v

namespace Libfgw.Lib

variable {α : Type u} {β : Type v} {out : α → Prop} {load : α → List β}

/-- As long as none is left out, the items tell the beginning of a stream, and in the end all of
it. -/
structure Tells (out : α → Prop) (load : α → List β) (items : List α) (given : List β) : Prop where
  begins : ∀ {sent}, sent <+: items → (∀ a ∈ sent, out a) → sent.flatMap load <+: given
  all : (∀ a ∈ items, out a) → items.flatMap load = given

namespace Tells

theorem nil : Tells out load [] [] where
  begins hsent _ := by rw [List.prefix_nil.1 hsent, List.flatMap_nil]
  all _ := rfl

theorem single {a : α} {given : List β} (h : load a = given) : Tells out load [a] given where
  begins {sent} hsent _ := by
    rcases List.prefix_concat_iff.1 (show sent <+: [] ++ [a] from hsent) with rfl | hnil
    · rw [List.nil_append, List.flatMap_singleton, h]
    · rw [List.prefix_nil.1 hnil]
      exact List.nil_prefix
  all _ := by rw [List.flatMap_singleton, h]

theorem append {items items' : List α} {given given' : List β} (h : Tells out load items given)
    (h' : Tells out load items' given') : Tells out load (items ++ items') (given ++ given') where
  begins {sent} hsent hout := by
    rcases List.prefix_or_prefix_of_prefix hsent (List.prefix_append items items') with
      hshort | ⟨more, rfl⟩
    · exact (h.begins hshort hout).trans (List.prefix_append given given')
    · obtain ⟨hitems, hmore⟩ := List.forall_mem_append.1 hout
      rw [List.flatMap_append, h.all hitems, List.prefix_append_right_inj]
      exact h'.begins ((List.prefix_append_right_inj items).1 hsent) hmore
  all hout := by
    obtain ⟨hitems, hitems'⟩ := List.forall_mem_append.1 hout
    rw [List.flatMap_append, h.all hitems, h'.all hitems']

theorem silent {items : List α} {given : List β} (h : Tells out load items given) {a : α}
    (ha : load a = []) : Tells out load (items ++ [a]) given := by
  rw [← List.append_nil given]
  exact h.append (single ha)

end Tells

variable {w : Nat} {number : α → BitVec w}

def Counts (number : α → BitVec w) (items : List α) : Prop :=
  items.map number = (List.range items.length).map (BitVec.ofNat w)

def Takes (out : α → Prop) (load : α → List β) (number : α → BitVec w) (items : List α)
    (taken : List (List β)) : Prop :=
  ∀ k p, taken[k]? = some p → ∃ a ∈ items, out a ∧ number a = BitVec.ofNat w k ∧ load a = p

theorem Counts.number_eq {items : List α} (h : Counts number items) {j : Nat} {a : α}
    (ha : items[j]? = some a) : number a = BitVec.ofNat w j := by
  have hnumbers := congrArg (fun l => l[j]?) h
  simp only [List.getElem?_map, ha, Option.map_some,
    List.getElem?_range (List.getElem?_eq_some_iff.1 ha).1] at hnumbers
  exact Option.some.inj hnumbers

theorem Counts.append {items items' : List α} (h : Counts number items)
    (h' : items'.map number = (List.range items'.length).map fun j =>
      BitVec.ofNat w items.length + BitVec.ofNat w j) : Counts number (items ++ items') := by
  rw [Counts, List.map_append, h, h', List.length_append, List.range_add, List.map_append,
    List.map_map]
  congr 1
  exact List.map_congr_left fun j _ => (BitVec.ofNat_add _ _).symm

variable {items : List α} {taken : List (List β)} {given : List β}

theorem Takes.mono {items' : List α} (h : Takes out load number items taken)
    (hsub : ∀ a ∈ items, a ∈ items') : Takes out load number items' taken := by
  intro k p hk
  obtain ⟨a, ha, hrest⟩ := h k p hk
  exact ⟨a, hsub a ha, hrest⟩

theorem Takes.concat (h : Takes out load number items taken) {p : List β} {a : α} (ha : a ∈ items)
    (hout : out a) (hnumber : number a = BitVec.ofNat w taken.length) (hload : load a = p) :
    Takes out load number items (taken ++ [p]) := by
  intro k q hk
  rcases lt_trichotomy k taken.length with hlt | rfl | hgt
  · rw [List.getElem?_append_left hlt] at hk
    exact h k q hk
  · rw [List.getElem?_concat_length, Option.some_inj] at hk
    exact ⟨a, ha, hout, hnumber, hload.trans hk⟩
  · rw [List.getElem?_eq_none (by rw [List.length_append, List.length_singleton]; omega)] at hk
    exact absurd hk (Option.some_ne_none q).symm

theorem Takes.getElem? (h : Takes out load number items taken) (hcounts : Counts number items)
    (hlen : items.length < 2 ^ w) {k : Nat} {p : List β} (hk : taken[k]? = some p) (hle : k ≤ items.length) :
    ∃ a, items[k]? = some a ∧ out a ∧ load a = p := by
  obtain ⟨a, ha, hout, hnumber, hload⟩ := h k p hk
  obtain ⟨j, hj⟩ := List.getElem?_of_mem ha
  have hjlt := (List.getElem?_eq_some_iff.1 hj).1
  rw [hcounts.number_eq hj, ← BitVec.toNat_inj, BitVec.toNat_ofNat, BitVec.toNat_ofNat,
    Nat.mod_eq_of_lt (by omega), Nat.mod_eq_of_lt (by omega)] at hnumber
  exact ⟨a, hnumber ▸ hj, hout, hload⟩

theorem Takes.length_le (h : Takes out load number items taken) (hcounts : Counts number items)
    (hlen : items.length < 2 ^ w) : taken.length ≤ items.length := by
  by_contra hlt
  obtain ⟨a, ha, -⟩ := h.getElem? hcounts hlen
    (List.getElem?_eq_getElem (l := taken) (i := items.length) (by omega)) le_rfl
  exact absurd (List.getElem?_eq_some_iff.1 ha).1 (lt_irrefl _)

theorem Takes.eq_take (h : Takes out load number items taken) (hcounts : Counts number items)
    (hlen : items.length < 2 ^ w) :
    taken = (items.take taken.length).map load ∧ ∀ a ∈ items.take taken.length, out a := by
  have hle := h.length_le hcounts hlen
  constructor
  · refine List.ext_getElem? fun k => ?_
    rw [List.getElem?_map]
    by_cases hk : k < taken.length
    · obtain ⟨a, ha, -, hload⟩ := h.getElem? hcounts hlen (List.getElem?_eq_getElem hk) (by omega)
      rw [List.getElem?_eq_getElem hk, List.getElem?_take_of_lt hk, ha, Option.map_some, hload]
    · rw [List.getElem?_eq_none (by omega), List.getElem?_eq_none, Option.map_none]
      rw [List.length_take]
      omega
  · intro a ha
    obtain ⟨k, hk⟩ := List.getElem?_of_mem ha
    have hlt := (List.getElem?_eq_some_iff.1 hk).1
    rw [List.length_take] at hlt
    rw [List.getElem?_take_of_lt (by omega)] at hk
    obtain ⟨b, hb, hout, -⟩ := h.getElem? hcounts hlen
      (List.getElem?_eq_getElem (l := taken) (i := k) (by omega)) (by omega)
    rwa [Option.some.inj (hk.symm.trans hb)]

/-- A receiver that has taken as many as there are has all that there was to tell. -/
theorem Takes.flatten_eq (h : Takes out load number items taken) (hcounts : Counts number items)
    (hlen : items.length < 2 ^ w) (htells : Tells out load items given)
    (hall : taken.length = items.length) : taken.flatten = given := by
  obtain ⟨htaken, hout⟩ := h.eq_take hcounts hlen
  rw [hall, List.take_length] at htaken hout
  rw [htaken, ← List.flatMap_def]
  exact htells.all hout

end Libfgw.Lib
