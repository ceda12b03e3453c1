import Mathlib.Data.List.Basic
import Mathlib.Order.Lattice
import Mathlib.Data.List.Pairwise
import Mathlib.Tactic.Tauto

/-! Finite maps kept in key order, with the operations of an ordered associative
container.  The order of the keys is a field, so iteration from the front meets
each key once and in order. -/

universe u v

namespace Libfgw.Lib

theorem idxOf_lt_of_key_lt {α : Type u} {K : Type v} [DecidableEq α] [LinearOrder K] {l : List α}
    {key : α → K} (hsorted : l.Pairwise fun a b => key a < key b) {x y : α} (hx : x ∈ l) (hy : y ∈ l)
    (hlt : key x < key y) : l.idxOf x < l.idxOf y := by
  by_contra hge
  rcases Nat.eq_or_lt_of_le (Nat.le_of_not_lt hge) with heq | hback
  · have hsame : y = x := (List.idxOf_inj hy).1 heq
    exact lt_irrefl _ (hsame ▸ hlt)
  · have hkeys := List.pairwise_iff_getElem.1 hsorted _ _ (List.idxOf_lt_length_of_mem hy)
      (List.idxOf_lt_length_of_mem hx) hback
    rw [List.getElem_idxOf, List.getElem_idxOf] at hkeys
    exact lt_asymm hlt hkeys

structure SortedMap (K : Type u) (V : Type v) [LinearOrder K] where
  entries : List (K × V)
  sorted : entries.Pairwise (fun a b => a.1 < b.1)

namespace SortedMap

variable {K : Type u} {V : Type v} [LinearOrder K]

def assign (k : K) (v : V) : List (K × V) → List (K × V)
  | [] => [(k, v)]
  | e :: es =>
    if k < e.1 then (k, v) :: e :: es
    else if k = e.1 then (k, v) :: es
    else e :: assign k v es

theorem mem_assign_imp {k : K} {v : V} {es : List (K × V)} {x : K × V}
    (h : x ∈ assign k v es) : x = (k, v) ∨ x ∈ es := by
  induction es with
  | nil => simpa [assign] using h
  | cons e es ih =>
    simp only [assign] at h
    split at h
    · simpa using h
    split at h
    · rcases List.mem_cons.1 h with h | h
      · exact Or.inl h
      · exact Or.inr (List.mem_cons_of_mem _ h)
    · rcases List.mem_cons.1 h with h | h
      · exact Or.inr (h ▸ List.mem_cons_self)
      · exact (ih h).imp_right (List.mem_cons_of_mem _)

theorem sorted_assign (k : K) (v : V) {es : List (K × V)}
    (h : es.Pairwise (fun a b => a.1 < b.1)) :
    (assign k v es).Pairwise (fun a b => a.1 < b.1) := by
  induction es with
  | nil => simp [assign]
  | cons e es ih =>
    obtain ⟨hhead, htail⟩ := List.pairwise_cons.1 h
    simp only [assign]
    split
    · rename_i hlt
      refine List.pairwise_cons.2 ⟨?_, h⟩
      intro x hx
      rcases List.mem_cons.1 hx with rfl | hx
      · exact hlt
      · exact hlt.trans (hhead x hx)
    split
    · rename_i heq
      exact List.pairwise_cons.2 ⟨fun x hx => heq ▸ hhead x hx, htail⟩
    · rename_i hge hne
      refine List.pairwise_cons.2 ⟨?_, ih htail⟩
      intro x hx
      rcases mem_assign_imp hx with rfl | hx
      · exact lt_of_le_of_ne (not_lt.1 hge) (Ne.symm hne)
      · exact hhead x hx

def empty : SortedMap K V := ⟨[], List.Pairwise.nil⟩

def find? (m : SortedMap K V) (k : K) : Option V :=
  (m.entries.find? (fun e => e.1 = k)).map Prod.snd

def insert (m : SortedMap K V) (k : K) (v : V) : SortedMap K V :=
  ⟨assign k v m.entries, sorted_assign k v m.sorted⟩

def emplace (m : SortedMap K V) (k : K) (v : V) : SortedMap K V :=
  match m.find? k with
  | some _ => m
  | none => m.insert k v

def filter (m : SortedMap K V) (p : K × V → Bool) : SortedMap K V :=
  ⟨m.entries.filter p, m.sorted.filter p⟩

def erase (m : SortedMap K V) (k : K) : SortedMap K V := m.filter (fun e => e.1 ≠ k)

def map (m : SortedMap K V) (f : V → V) : SortedMap K V :=
  ⟨m.entries.map (fun e => (e.1, f e.2)), by simpa [List.pairwise_map] using m.sorted⟩

def begin? (m : SortedMap K V) : Option (K × V) := m.entries.head?

def eraseBegin (m : SortedMap K V) : SortedMap K V := ⟨m.entries.tail, m.sorted.tail⟩

def size (m : SortedMap K V) : Nat := m.entries.length

theorem eq_of_mem {m : SortedMap K V} {k : K} {v w : V} (hv : (k, v) ∈ m.entries)
    (hw : (k, w) ∈ m.entries) : v = w := by
  by_contra hne
  have hab : (k, v) ≠ (k, w) := fun h => hne (congrArg Prod.snd h)
  have : Std.Symm (fun a b : K × V => a.1 ≠ b.1) := ⟨fun _ _ h => h.symm⟩
  have hkeys := m.sorted.imp (S := fun a b : K × V => a.1 ≠ b.1) (fun h => ne_of_lt h)
  exact hkeys.forall hv hw hab rfl

theorem find?_eq_some {m : SortedMap K V} {k : K} {v : V} :
    m.find? k = some v ↔ (k, v) ∈ m.entries := by
  constructor
  · intro h
    obtain ⟨e, he, rfl⟩ := Option.map_eq_some_iff.1 h
    have hk : e.1 = k := by simpa using List.find?_some he
    exact hk ▸ List.mem_of_find?_eq_some he
  · intro h
    cases hf : m.entries.find? (fun e => e.1 = k) with
    | none => simpa using List.find?_eq_none.1 hf _ h
    | some e =>
      have hk : e.1 = k := by simpa using List.find?_some hf
      have hv : e.2 = v := eq_of_mem (m := m) (hk ▸ List.mem_of_find?_eq_some hf) h
      simp [find?, hf, hv]

theorem find?_eq_none {m : SortedMap K V} {k : K} :
    m.find? k = none ↔ ∀ v, (k, v) ∉ m.entries := by
  rw [Option.eq_none_iff_forall_ne_some]
  exact forall_congr' fun v => not_congr find?_eq_some

theorem ext_find? {m n : SortedMap K V} (h : ∀ k, m.find? k = n.find? k) : m = n := by
  have hmem : ∀ x, x ∈ m.entries ↔ x ∈ n.entries := by
    rintro ⟨k, v⟩
    rw [← find?_eq_some, ← find?_eq_some, h]
  obtain ⟨es, hes⟩ := m
  obtain ⟨fs, hfs⟩ := n
  congr
  have hirr : ∀ l : List (K × V), l.Pairwise (fun a b => a.1 < b.1) → l.Nodup := fun l hl =>
    hl.imp fun hab heq => absurd (congrArg Prod.fst heq) (ne_of_lt hab)
  exact ((List.perm_ext_iff_of_nodup (hirr _ hes) (hirr _ hfs)).2 hmem).eq_of_pairwise
    (fun a b _ _ hab hba => absurd hba (not_lt.2 hab.le)) hes hfs

@[simp] theorem find?_empty (k : K) : (empty : SortedMap K V).find? k = none := rfl

theorem mem_assign {m : SortedMap K V} {k : K} {v : V} {x : K × V} :
    x ∈ assign k v m.entries ↔ x = (k, v) ∨ (x.1 ≠ k ∧ x ∈ m.entries) := by
  obtain ⟨es, hes⟩ := m
  induction es with
  | nil => simp [assign]
  | cons e es ih =>
    obtain ⟨hhead, htail⟩ := List.pairwise_cons.1 hes
    have hlt : ∀ y ∈ es, e.1 < y.1 := hhead
    simp only [assign]
    split
    · rename_i hk
      have hne : ∀ y ∈ e :: es, y.1 ≠ k := by
        intro y hy
        rcases List.mem_cons.1 hy with rfl | hy
        · exact (ne_of_lt hk).symm
        · exact (ne_of_lt (hk.trans (hlt y hy))).symm
      rw [List.mem_cons]
      exact or_congr_right ⟨fun h => ⟨hne x h, h⟩, fun h => h.2⟩
    split
    · rename_i _ hk
      subst hk
      rw [List.mem_cons, List.mem_cons]
      constructor
      · rintro (h | h)
        · exact Or.inl h
        · exact Or.inr ⟨(ne_of_lt (hlt x h)).symm, Or.inr h⟩
      · rintro (h | ⟨hne, rfl | h⟩)
        · exact Or.inl h
        · exact absurd rfl hne
        · exact Or.inr h
    · rename_i _ hk
      rw [List.mem_cons, List.mem_cons, ih htail]
      constructor
      · rintro (rfl | h | h)
        · exact Or.inr ⟨Ne.symm hk, Or.inl rfl⟩
        · exact Or.inl h
        · exact Or.inr ⟨h.1, Or.inr h.2⟩
      · rintro (h | ⟨hne, h | h⟩)
        · exact Or.inr (Or.inl h)
        · exact Or.inl h
        · exact Or.inr (Or.inr ⟨hne, h⟩)

theorem find?_insert (m : SortedMap K V) (k : K) (v : V) (k' : K) :
    (m.insert k v).find? k' = if k' = k then some v else m.find? k' := by
  ext w
  rw [find?_eq_some, insert, mem_assign]
  split
  · rename_i hk
    subst hk
    simp [eq_comm]
  · rename_i hk
    simp [hk, find?_eq_some]

theorem insert_insert (m : SortedMap K V) (k : K) (v w : V) :
    (m.insert k v).insert k w = m.insert k w := by
  apply ext_find?
  intro k'
  rw [find?_insert, find?_insert, find?_insert]
  split <;> rfl

theorem insert_find? {m : SortedMap K V} {k : K} {v : V} (h : m.find? k = some v) :
    m.insert k v = m := by
  apply ext_find?
  intro k'
  rw [find?_insert]
  split
  · rename_i hk
    rw [hk, h]
  · rfl

theorem find?_emplace (m : SortedMap K V) (k : K) (v : V) (k' : K) :
    (m.emplace k v).find? k' = if k' = k then some ((m.find? k).getD v) else m.find? k' := by
  cases h : m.find? k with
  | none =>
    simp only [emplace, h]
    exact find?_insert m k v k'
  | some w =>
    simp only [emplace, h]
    split
    · rename_i hk
      rw [hk, h]
      rfl
    · rfl

def Holds {ι : Type*} (m : SortedMap K V) (key : ι → K) (piece : ι → Option V) (P : ι → Prop) : Prop :=
  ∀ x v, m.find? x = some v ↔ ∃ i, P i ∧ x = key i ∧ piece i = some v

theorem Holds.emplace {ι : Type*} {m : SortedMap K V} {key : ι → K} {piece : ι → Option V}
    {P : ι → Prop} (h : m.Holds key piece P)
    (hinj : ∀ {i j v w}, piece i = some v → piece j = some w → key i = key j → i = j) {i : ι} {v : V}
    (hv : piece i = some v) : (m.emplace (key i) v).Holds key piece fun j => P j ∨ j = i := by
  have hold : (m.find? (key i)).getD v = v := by
    cases hfind : m.find? (key i) with
    | none => rfl
    | some w =>
      obtain ⟨j, -, hj, hw⟩ := (h _ _).1 hfind
      obtain rfl := hinj hv hw hj
      exact Option.some.inj (hw.symm.trans hv)
  intro x w
  rw [find?_emplace, hold]
  constructor
  · intro hfind
    split at hfind
    · rename_i hx
      obtain rfl := Option.some.inj hfind
      exact ⟨i, Or.inr rfl, hx, hv⟩
    · obtain ⟨j, hj, hx, hw⟩ := (h _ _).1 hfind
      exact ⟨j, Or.inl hj, hx, hw⟩
  · rintro ⟨j, hj, rfl, hw⟩
    split
    · rename_i hx
      obtain rfl := hinj hw hv hx
      exact hv.symm.trans hw
    · rename_i hx
      exact (h _ _).2 ⟨j, hj.resolve_right fun hsame => hx (congrArg key hsame), rfl, hw⟩

theorem find?_filter {m : SortedMap K V} {p : K × V → Bool} {k : K} {v : V} :
    (m.filter p).find? k = some v ↔ m.find? k = some v ∧ p (k, v) = true := by
  rw [find?_eq_some, find?_eq_some]
  exact List.mem_filter

theorem find?_erase (m : SortedMap K V) (k k' : K) :
    (m.erase k).find? k' = if k' = k then none else m.find? k' := by
  ext v
  rw [erase, find?_filter]
  split
  · rename_i hk
    simp [hk]
  · rename_i hk
    simp [hk]

theorem find?_map (m : SortedMap K V) (f : V → V) (k : K) :
    (m.map f).find? k = (m.find? k).map f := by
  ext v
  rw [find?_eq_some, Option.map_eq_some_iff, map, List.mem_map]
  constructor
  · rintro ⟨e, he, heq⟩
    obtain ⟨rfl, rfl⟩ := Prod.mk.inj heq
    exact ⟨e.2, find?_eq_some.2 he, rfl⟩
  · rintro ⟨w, hw, rfl⟩
    exact ⟨(k, w), find?_eq_some.1 hw, rfl⟩

theorem find?_begin {m : SortedMap K V} {k : K} {v : V} (h : m.begin? = some (k, v)) :
    m.find? k = some v := find?_eq_some.2 (List.mem_of_mem_head? h)

theorem begin?_le {m : SortedMap K V} {k k' : K} {v v' : V} (h : m.begin? = some (k, v))
    (h' : m.find? k' = some v') : k ≤ k' := by
  obtain ⟨es, hes⟩ := m
  cases es with
  | nil => exact absurd h (by simp [begin?])
  | cons e es =>
    have he : e = (k, v) := by simpa [begin?] using h
    subst he
    rcases List.mem_cons.1 (find?_eq_some.1 h') with heq | hmem
    · exact le_of_eq (congrArg Prod.fst heq).symm
    · exact ((List.pairwise_cons.1 hes).1 _ hmem).le

theorem begin?_eq_none {m : SortedMap K V} : m.begin? = none ↔ ∀ k, m.find? k = none := by
  constructor
  · intro h k
    rw [find?_eq_none]
    intro v hv
    rw [begin?, List.head?_eq_none_iff] at h
    exact absurd hv (h ▸ List.not_mem_nil)
  · intro h
    cases hb : m.begin? with
    | none => rfl
    | some e => exact absurd (find?_begin (v := e.2) hb) (by simp [h])

theorem find?_eraseBegin {m : SortedMap K V} {k : K} {v : V} (h : m.begin? = some (k, v))
    (k' : K) : m.eraseBegin.find? k' = if k' = k then none else m.find? k' := by
  obtain ⟨es, hes⟩ := m
  cases es with
  | nil => exact absurd h (by simp [begin?])
  | cons e es =>
    have he : e = (k, v) := by simpa [begin?] using h
    subst he
    have hlt := (List.pairwise_cons.1 hes).1
    ext w
    rw [find?_eq_some]
    split
    · rename_i hk
      subst hk
      exact iff_of_false (fun hmem => absurd (hlt _ hmem) (lt_irrefl _)) (by simp)
    · rename_i hk
      rw [find?_eq_some]
      simp [eraseBegin, hk]

theorem size_eraseBegin {m : SortedMap K V} {e : K × V} (h : m.begin? = some e) :
    m.eraseBegin.size + 1 = m.size := by
  obtain ⟨es, hes⟩ := m
  cases es with
  | nil => exact absurd h (by simp [begin?])
  | cons e es => rfl

end SortedMap

end Libfgw.Lib
