import Mathlib.Data.BitVec

/-! Records that are packed as a header, which says by a bit for each member whether it is there, and
the members that are.  A reader skips what lies behind the members that it knows. -/

namespace Libfgw.Lib

theorem bind_eq_ok {ε α β : Type} {x : Except ε α} {f : α → Except ε β} {b : β} :
    (x >>= f) = .ok b ↔ ∃ a, x = .ok a ∧ f a = .ok b := by
  cases x with
  | error e => exact iff_of_false nofun fun ⟨_, h, _⟩ => nomatch h
  | ok a => exact ⟨fun h => ⟨a, rfl, h⟩, fun ⟨_, ha, h⟩ => Except.ok.inj ha ▸ h⟩

/-- How the values of a type are packed, if there is enough room or it is not asked for, and unpacked
over a value from the front of what is there, with the number of items taken. -/
structure Packing (β α : Type) where
  pack : Option Int → α → Except Int (List β)
  unpack : α → List β → Except Int (α × Nat)

structure Packing.Lawful {β α : Type} (c : Packing β α) : Prop where
  fits : ∀ {room : Int} {a bs},
    c.pack (some room) a = .ok bs ↔ c.pack none a = .ok bs ∧ (bs.length : Int) ≤ room
  reads : ∀ {a bs}, c.pack none a = .ok bs →
    ∀ old rest, c.unpack old (bs ++ rest) = .ok (a, bs.length)

namespace Packing

variable {β α : Type}

def packItems (c : Packing β α) : Option Int → List α → Except Int (List β)
  | _, [] => .ok []
  | room, a :: as => do
    let bs ← c.pack room a
    let more ← c.packItems (room.map (· - bs.length)) as
    .ok (bs ++ more)

def unpackItems [Inhabited α] (c : Packing β α) : Nat → List β → Except Int (List α × Nat)
  | 0, _ => .ok ([], 0)
  | count + 1, bs => do
    let (a, n) ← c.unpack default bs
    let (as, k) ← c.unpackItems count (bs.drop n)
    .ok (a :: as, n + k)

def array [Inhabited α] (count : Packing β Nat) (c : Packing β α) : Packing β (List α) where
  pack room as := do
    let head ← count.pack room as.length
    let body ← c.packItems (room.map (· - head.length)) as
    .ok (head ++ body)
  unpack _ bs := do
    let (count, n) ← count.unpack 0 bs
    let (as, k) ← c.unpackItems count (bs.drop n)
    .ok (as, n + k)

variable {c : Packing β α} {as : List α}

theorem Lawful.packItems_fits (hc : c.Lawful) {room : Int} {bs : List β} (hroom : 0 ≤ room) :
    c.packItems (some room) as = .ok bs ↔
      c.packItems none as = .ok bs ∧ (bs.length : Int) ≤ room := by
  induction as generalizing room bs with
  | nil =>
    refine ⟨fun h => ⟨h, ?_⟩, And.left⟩
    obtain rfl := Except.ok.inj h
    exact hroom
  | cons a as ih =>
    simp only [packItems, bind_eq_ok, Option.map_some, Option.map_none]
    constructor
    · rintro ⟨front, hfront, back, hback, hbs⟩
      obtain ⟨hfront, hlen⟩ := hc.fits.1 hfront
      obtain ⟨hback, hlen'⟩ := (ih (by omega)).1 hback
      refine ⟨⟨front, hfront, back, hback, hbs⟩, ?_⟩
      rw [← Except.ok.inj hbs, List.length_append]
      omega
    · rintro ⟨⟨front, hfront, back, hback, hbs⟩, hlen⟩
      rw [← Except.ok.inj hbs, List.length_append] at hlen
      exact ⟨front, hc.fits.2 ⟨hfront, by omega⟩, back, (ih (by omega)).2 ⟨hback, by omega⟩, hbs⟩

theorem Lawful.unpackItems_pack [Inhabited α] (hc : c.Lawful) {bs : List β}
    (h : c.packItems none as = .ok bs) (rest : List β) :
    c.unpackItems as.length (bs ++ rest) = .ok (as, bs.length) := by
  induction as generalizing bs with
  | nil =>
    obtain rfl := Except.ok.inj h
    rfl
  | cons a as ih =>
    obtain ⟨b, hb, h⟩ := bind_eq_ok.1 h
    obtain ⟨bs', hbs', h⟩ := bind_eq_ok.1 h
    obtain rfl := Except.ok.inj h
    refine bind_eq_ok.2 ⟨(a, b.length), by rw [List.append_assoc]; exact hc.reads hb _ _, ?_⟩
    have hdrop : (b ++ bs' ++ rest).drop b.length = bs' ++ rest := by
      rw [List.append_assoc, List.drop_left]
    refine bind_eq_ok.2 ⟨(as, bs'.length), by rw [hdrop]; exact ih hbs', ?_⟩
    rw [List.length_append]

theorem array_lawful [Inhabited α] {count : Packing β Nat} (hcount : count.Lawful) (hc : c.Lawful) :
    (array count c).Lawful where
  fits {room as bs} := by
    simp only [array, bind_eq_ok, Option.map_some, Option.map_none]
    constructor
    · rintro ⟨head, hhead, body, hbody, hbs⟩
      obtain ⟨hhead, hfits⟩ := hcount.fits.1 hhead
      obtain ⟨hbody, hrest⟩ := (hc.packItems_fits (by omega)).1 hbody
      refine ⟨⟨head, hhead, body, hbody, hbs⟩, ?_⟩
      rw [← Except.ok.inj hbs, List.length_append]
      omega
    · rintro ⟨⟨head, hhead, body, hbody, hbs⟩, hfits⟩
      rw [← Except.ok.inj hbs, List.length_append] at hfits
      exact ⟨head, hcount.fits.2 ⟨hhead, by omega⟩, body,
        (hc.packItems_fits (by omega)).2 ⟨hbody, by omega⟩, hbs⟩
  reads {as bs} h old rest := by
    obtain ⟨head, hhead, h⟩ := bind_eq_ok.1 h
    obtain ⟨body, hbody, h⟩ := bind_eq_ok.1 h
    obtain rfl := Except.ok.inj h
    have hdrop : (head ++ body ++ rest).drop head.length = body ++ rest := by
      rw [List.append_assoc, List.drop_left]
    refine bind_eq_ok.2 ⟨(as.length, head.length), ?_, ?_⟩
    · rw [List.append_assoc]
      exact hcount.reads hhead _ _
    refine bind_eq_ok.2 ⟨(as, body.length), ?_, ?_⟩
    · rw [hdrop]
      exact hc.unpackItems_pack hbody rest
    · rw [List.length_append]

end Packing

/-- A member of a record.  One that is empty is not packed. -/
structure Member (β τ : Type) where
  {α : Type}
  get : τ → α
  set : α → τ → τ
  packing : Packing β α
  isEmpty : α → Bool
  empty : α

namespace Member

variable {β τ ε : Type}

structure Lawful (m : Member β τ) : Prop where
  packing : m.packing.Lawful
  empty : ∀ {a}, m.isEmpty a = true → a = m.empty

def clear (m : Member β τ) (t : τ) : τ := m.set m.empty t

def copy (m : Member β τ) (t acc : τ) : τ := m.set (m.get t) acc

def fst (m : Member β τ) : Member β (τ × ε) where
  get t := m.get t.1
  set a t := (m.set a t.1, t.2)
  packing := m.packing
  isEmpty := m.isEmpty
  empty := m.empty

def snd (m : Member β ε) : Member β (τ × ε) where
  get t := m.get t.2
  set a t := (t.1, m.set a t.2)
  packing := m.packing
  isEmpty := m.isEmpty
  empty := m.empty

def extend (ms : List (Member β τ)) (es : List (Member β ε)) : List (Member β (τ × ε)) :=
  ms.map fst ++ es.map snd

end Member

/-- How the header of a record is packed and unpacked, and how a member is skipped. -/
structure RecordFormat (β : Type) (w : Nat) where
  packHeader : Option Int → BitVec w → Except Int (List β)
  unpackHeader : List β → Except Int (BitVec w × Nat)
  skip : List β → Except Int Nat

namespace RecordFormat

open Member

variable {β τ ε : Type} {w : Nat}

structure Lawful (F : RecordFormat β w) : Prop where
  fits : ∀ {room : Int} {p bs},
    F.packHeader (some room) p = .ok bs ↔ F.packHeader none p = .ok bs ∧ (bs.length : Int) ≤ room
  reads : ∀ {p bs}, F.packHeader none p = .ok bs →
    ∀ rest, F.unpackHeader (bs ++ rest) = .ok (p, bs.length)

def presence (w : Nat) : List (Member β τ) → Nat → τ → BitVec w
  | [], _, _ => 0#w
  | m :: ms, i, t => (if m.isEmpty (m.get t) then 0#w else 1#w <<< i) ||| presence w ms (i + 1) t

def packMembers (p : BitVec w) : List (Member β τ) → Nat → Option Int → τ → Except Int (List β)
  | [], _, _, _ => .ok []
  | m :: ms, i, room, t =>
    if p &&& (1#w <<< i) ≠ 0#w then do
      let bs ← m.packing.pack room (m.get t)
      let more ← packMembers p ms (i + 1) (room.map (· - bs.length)) t
      .ok (bs ++ more)
    else packMembers p ms (i + 1) room t

def unpackMembers (p : BitVec w) : List (Member β τ) → Nat → τ → List β → Except Int (τ × Nat)
  | [], _, t, _ => .ok (t, 0)
  | m :: ms, i, t, bs =>
    if p &&& (1#w <<< i) ≠ 0#w then do
      let (a, n) ← m.packing.unpack (m.get t) bs
      let (t, k) ← unpackMembers p ms (i + 1) (m.set a t) (bs.drop n)
      .ok (t, n + k)
    else unpackMembers p ms (i + 1) (m.clear t) bs

variable (F : RecordFormat β w)

def skipMembers : Nat → BitVec w → List β → Except Int Nat
  | 0, _, _ => .ok 0
  | fuel + 1, p, bs =>
    if p = 0#w then .ok 0
    else if p &&& 1#w ≠ 0#w then do
      let n ← F.skip bs
      let k ← skipMembers fuel (p >>> 1) (bs.drop n)
      .ok (n + k)
    else skipMembers fuel (p >>> 1) bs

def packing (ms : List (Member β τ)) : Packing β τ where
  pack room t := do
    let p := presence w ms 0 t
    let head ← F.packHeader room p
    let body ← packMembers p ms 0 (room.map (· - head.length)) t
    .ok (head ++ body)
  unpack t bs := do
    let (p, n) ← F.unpackHeader bs
    let (t, k) ← unpackMembers p ms 0 t (bs.drop n)
    let l ← F.skipMembers w (p >>> ms.length) (bs.drop (n + k))
    .ok (t, n + k + l)

section Bits

variable {m : Member β τ} {ms : List (Member β τ)} {i k : Nat} {t : τ} {p : BitVec w}

theorem and_bit_ne_zero (p : BitVec w) (i : Nat) :
    p &&& (1#w <<< i) ≠ 0#w ↔ p.getLsbD i = true := by
  change p &&& BitVec.twoPow w i ≠ 0#w ↔ _
  rw [BitVec.and_twoPow]
  split
  · rename_i hbit
    refine iff_of_true (fun hzero => ?_) hbit
    have hself := congrArg (fun q => BitVec.getLsbD q i) hzero
    simp [BitVec.lt_of_getLsbD hbit] at hself
  · rename_i hbit
    exact iff_of_false (not_not.2 rfl) hbit

theorem presence_below (hk : k < i) : (presence w ms i t).getLsbD k = false := by
  induction ms generalizing i with
  | nil => exact BitVec.getLsbD_zero
  | cons m ms ih =>
    rw [presence, BitVec.getLsbD_or, ih (Nat.lt_succ_of_lt hk), Bool.or_false]
    split
    · exact BitVec.getLsbD_zero
    · rw [BitVec.getLsbD_shiftLeft, decide_eq_true hk]
      simp

theorem presence_above (hk : i + ms.length ≤ k) : (presence w ms i t).getLsbD k = false := by
  induction ms generalizing i with
  | nil => exact BitVec.getLsbD_zero
  | cons m ms ih =>
    rw [List.length_cons] at hk
    rw [presence, BitVec.getLsbD_or, ih (by omega), Bool.or_false]
    split
    · exact BitVec.getLsbD_zero
    · rw [BitVec.getLsbD_shiftLeft, BitVec.getLsbD_one, decide_eq_false (by omega : ¬ k - i = 0),
        Bool.and_false, Bool.and_false]

def Agrees (p : BitVec w) (ms : List (Member β τ)) (i : Nat) (t : τ) (n : Nat) : Prop :=
  ∀ k, i ≤ k → k < n → p.getLsbD k = (presence w ms i t).getLsbD k

variable {n : Nat}

theorem Agrees.tail (h : Agrees p (m :: ms) i t n) : Agrees p ms (i + 1) t n := by
  intro k hk hn
  rw [h k (Nat.le_of_succ_le hk) hn, presence, BitVec.getLsbD_or]
  split
  · rw [BitVec.getLsbD_zero, Bool.false_or]
  · rw [BitVec.getLsbD_shiftLeft, BitVec.getLsbD_one, decide_eq_false (by omega : ¬ k - i = 0),
      Bool.and_false, Bool.and_false, Bool.false_or]

theorem Agrees.head (h : Agrees p (m :: ms) i t n) (hi : i < n) (hw : i < w) :
    p &&& (1#w <<< i) ≠ 0#w ↔ m.isEmpty (m.get t) = false := by
  rw [and_bit_ne_zero, h i le_rfl hi, presence, BitVec.getLsbD_or,
    presence_below (Nat.lt_succ_self i), Bool.or_false]
  cases m.isEmpty (m.get t) with
  | true => simp
  | false => simp [hw]

theorem Agrees.shift (h : Agrees p ([] : List (Member β τ)) i t w) : p >>> i = 0#w := by
  refine BitVec.eq_of_getLsbD_eq fun k hk => ?_
  rw [BitVec.getLsbD_ushiftRight, BitVec.getLsbD_zero]
  by_cases hw : i + k < w
  · rw [h (i + k) (Nat.le_add_right i k) hw, presence, BitVec.getLsbD_zero]
  · exact BitVec.getLsbD_of_ge p (i + k) (Nat.le_of_not_lt hw)

end Bits

section Members

variable {ms ls : List (Member β τ)} {es : List (Member β ε)} {i : Nat} {t : τ} {p : BitVec w}

def Complete (ms : List (Member β τ)) : Prop :=
  ∀ t acc, ms.foldl (fun acc m => m.copy t acc) acc = t

theorem packMembers_fits (hms : ∀ m ∈ ms, m.Lawful) {room : Int} {bs : List β} (hroom : 0 ≤ room) :
    packMembers p ms i (some room) t = .ok bs ↔
      packMembers p ms i none t = .ok bs ∧ (bs.length : Int) ≤ room := by
  induction ms generalizing i room bs with
  | nil =>
    refine ⟨fun h => ⟨h, ?_⟩, And.left⟩
    obtain rfl := Except.ok.inj h
    exact hroom
  | cons m ms ih =>
    obtain ⟨hm, hms⟩ := List.forall_mem_cons.1 hms
    rw [packMembers, packMembers]
    split
    · simp only [bind_eq_ok, Option.map_some, Option.map_none]
      constructor
      · rintro ⟨front, hfront, back, hback, hbs⟩
        obtain ⟨hfront, hlen⟩ := hm.packing.fits.1 hfront
        obtain ⟨hback, hlen'⟩ := (ih hms (by omega)).1 hback
        refine ⟨⟨front, hfront, back, hback, hbs⟩, ?_⟩
        rw [← Except.ok.inj hbs, List.length_append]
        omega
      · rintro ⟨⟨front, hfront, back, hback, hbs⟩, hlen⟩
        rw [← Except.ok.inj hbs, List.length_append] at hlen
        exact ⟨front, hm.packing.fits.2 ⟨hfront, by omega⟩, back,
          (ih hms (by omega)).2 ⟨hback, by omega⟩, hbs⟩
    · exact ih hms hroom

theorem packMembers_append {bs : List β} (h : packMembers p (ms ++ ls) i none t = .ok bs) :
    ∃ front back, packMembers p ms i none t = .ok front ∧
      packMembers p ls (i + ms.length) none t = .ok back ∧ bs = front ++ back := by
  induction ms generalizing i bs with
  | nil => exact ⟨[], bs, rfl, h, rfl⟩
  | cons m ms ih =>
    rw [List.cons_append, packMembers] at h
    rw [List.length_cons, Nat.add_comm ms.length, ← Nat.add_assoc]
    split at h
    · rename_i hbit
      obtain ⟨b, hb, h⟩ := bind_eq_ok.1 h
      obtain ⟨bs', hbs', h⟩ := bind_eq_ok.1 h
      obtain rfl := Except.ok.inj h
      obtain ⟨front, back, hfront, hback, rfl⟩ := ih hbs'
      refine ⟨b ++ front, back, ?_, hback, (List.append_assoc _ _ _).symm⟩
      rw [packMembers, if_pos hbit]
      exact bind_eq_ok.2 ⟨b, hb, bind_eq_ok.2 ⟨front, hfront, rfl⟩⟩
    · rename_i hbit
      obtain ⟨front, back, hfront, hback, rfl⟩ := ih h
      exact ⟨front, back, by rw [packMembers, if_neg hbit, hfront], hback, rfl⟩

theorem presence_append : presence w (ms ++ ls) i t =
    presence w ms i t ||| presence w ls (i + ms.length) t := by
  induction ms generalizing i with
  | nil => rw [List.nil_append, presence, BitVec.zero_or, List.length_nil, Nat.add_zero]
  | cons m ms ih =>
    rw [List.cons_append, presence, presence, ih, BitVec.or_assoc, List.length_cons,
      Nat.add_comm ms.length, ← Nat.add_assoc]

theorem presence_fst (e : ε) : presence w (ms.map Member.fst) i (t, e) = presence w ms i t := by
  induction ms generalizing i with
  | nil => rfl
  | cons m ms ih =>
    rw [List.map_cons, presence, presence, ih]
    rfl

theorem presence_snd {e : ε} : presence w (es.map Member.snd) i (t, e) = presence w es i e := by
  induction es generalizing i with
  | nil => rfl
  | cons m es ih =>
    rw [List.map_cons, presence, presence, ih]
    rfl

theorem packMembers_fst (e : ε) (room : Option Int) :
    packMembers p (ms.map Member.fst) i room (t, e) = packMembers p ms i room t := by
  induction ms generalizing i room with
  | nil => rfl
  | cons m ms ih =>
    simp only [List.map_cons, packMembers, ih]
    rfl

theorem packMembers_snd {e : ε} (room : Option Int) :
    packMembers p (es.map Member.snd) i room (t, e) = packMembers p es i room e := by
  induction es generalizing i room with
  | nil => rfl
  | cons m es ih =>
    simp only [List.map_cons, packMembers, ih]
    rfl

theorem packMembers_mem {m : Member β τ} (hm : m ∈ ms) (hfull : m.isEmpty (m.get t) = false)
    (hlen : i + ms.length ≤ w) (hbits : Agrees p ms i t (i + ms.length)) {bs : List β}
    (h : packMembers p ms i none t = .ok bs) :
    ∃ b, m.packing.pack none (m.get t) = .ok b ∧ b.length ≤ bs.length := by
  induction ms generalizing i bs with
  | nil => exact absurd hm List.not_mem_nil
  | cons m' ms ih =>
    rw [List.length_cons] at hlen hbits
    have hhead := hbits.head (by omega) (by omega)
    have htail : Agrees p ms (i + 1) t (i + 1 + ms.length) := fun k hk hn => hbits.tail k hk (by omega)
    rw [packMembers] at h
    split at h
    · obtain ⟨front, hfront, h⟩ := bind_eq_ok.1 h
      obtain ⟨back, hback, h⟩ := bind_eq_ok.1 h
      rw [← Except.ok.inj h, List.length_append]
      rcases List.mem_cons.1 hm with rfl | hmem
      · exact ⟨front, hfront, Nat.le_add_right _ _⟩
      · obtain ⟨b, hb, hle⟩ := ih hmem (by omega) htail hback
        exact ⟨b, hb, by omega⟩
    · rename_i hbit
      rcases List.mem_cons.1 hm with rfl | hmem
      · exact absurd (hhead.2 hfull) hbit
      · exact ih hmem (by omega) htail h

theorem unpackMembers_pack (hms : ∀ m ∈ ms, m.Lawful) (hlen : i + ms.length ≤ w)
    (hbits : Agrees p ms i t (i + ms.length)) {bs : List β}
    (h : packMembers p ms i none t = .ok bs) (acc : τ) (rest : List β) :
    unpackMembers p ms i acc (bs ++ rest) =
      .ok (ms.foldl (fun acc m => m.copy t acc) acc, bs.length) := by
  induction ms generalizing i bs acc with
  | nil =>
    obtain rfl := Except.ok.inj h
    rfl
  | cons m ms ih =>
    obtain ⟨hm, hms⟩ := List.forall_mem_cons.1 hms
    rw [List.length_cons] at hlen hbits
    have hhead := hbits.head (by omega) (by omega)
    have htail : Agrees p ms (i + 1) t (i + 1 + ms.length) := fun k hk hn => hbits.tail k hk (by omega)
    rw [packMembers] at h
    rw [unpackMembers, List.foldl_cons]
    by_cases hbit : p &&& (1#w <<< i) ≠ 0#w
    · rw [if_pos hbit] at h ⊢
      obtain ⟨b, hb, h⟩ := bind_eq_ok.1 h
      obtain ⟨bs', hbs', h⟩ := bind_eq_ok.1 h
      obtain rfl := Except.ok.inj h
      refine bind_eq_ok.2 ⟨(m.get t, b.length), ?_, ?_⟩
      · rw [List.append_assoc]
        exact hm.packing.reads hb _ _
      have hdrop : (b ++ bs' ++ rest).drop b.length = bs' ++ rest := by
        rw [List.append_assoc, List.drop_left]
      dsimp only
      rw [hdrop]
      refine bind_eq_ok.2 ⟨_, ih hms (by omega) htail hbs' (m.set (m.get t) acc), ?_⟩
      rw [List.length_append]
      rfl
    · rw [if_neg hbit] at h ⊢
      have hempty : m.isEmpty (m.get t) = true := by
        rw [hhead, Bool.not_eq_false] at hbit
        exact hbit
      have hclear : m.clear acc = m.copy t acc := by rw [Member.clear, Member.copy, hm.empty hempty]
      rw [hclear]
      exact ih hms (by omega) htail h (m.copy t acc)

theorem skipMembers_zero (F : RecordFormat β w) (fuel : Nat) (bs : List β) :
    F.skipMembers fuel 0#w bs = .ok 0 := by
  cases fuel with
  | zero => rfl
  | succ fuel => rw [skipMembers, if_pos rfl]

theorem skipMembers_pack (F : RecordFormat β w)
    (hskip : ∀ m ∈ ms, ∀ {a bs}, m.packing.pack none a = .ok bs →
      ∀ rest, F.skip (bs ++ rest) = .ok bs.length)
    (hlen : i + ms.length ≤ w) (hbits : Agrees p ms i t w) {bs : List β}
    (h : packMembers p ms i none t = .ok bs) {fuel : Nat} (hfuel : ms.length ≤ fuel) (rest : List β) :
    F.skipMembers fuel (p >>> i) (bs ++ rest) = .ok bs.length := by
  induction ms generalizing i bs fuel with
  | nil =>
    obtain rfl := Except.ok.inj h
    rw [hbits.shift, skipMembers_zero]
    rfl
  | cons m ms ih =>
    obtain ⟨hm, hskip⟩ := List.forall_mem_cons.1 hskip
    rw [List.length_cons] at hlen hfuel
    obtain ⟨fuel, rfl⟩ := Nat.exists_eq_add_one_of_ne_zero (by omega : fuel ≠ 0)
    have hbit : p >>> i &&& 1#w ≠ 0#w ↔ p &&& (1#w <<< i) ≠ 0#w := by
      rw [and_bit_ne_zero, ← BitVec.shiftLeft_zero (1#w), and_bit_ne_zero,
        BitVec.getLsbD_ushiftRight, Nat.add_zero]
    have hnext : p >>> i >>> 1 = p >>> (i + 1) := (BitVec.shiftRight_add p i 1).symm
    rw [packMembers] at h
    rw [skipMembers, hnext]
    by_cases hset : p &&& (1#w <<< i) ≠ 0#w
    · rw [if_pos hset] at h
      obtain ⟨b, hb, h⟩ := bind_eq_ok.1 h
      obtain ⟨bs', hbs', h⟩ := bind_eq_ok.1 h
      obtain rfl := Except.ok.inj h
      have hne : p >>> i ≠ 0#w := by
        intro hzero
        rw [hzero, BitVec.zero_and] at hbit
        exact hbit.2 hset rfl
      rw [if_neg hne, if_pos (hbit.2 hset)]
      refine bind_eq_ok.2 ⟨b.length, by rw [List.append_assoc]; exact hm hb _, ?_⟩
      have hdrop : (b ++ bs' ++ rest).drop b.length = bs' ++ rest := by
        rw [List.append_assoc, List.drop_left]
      rw [hdrop]
      refine bind_eq_ok.2 ⟨bs'.length, ih hskip (by omega) hbits.tail hbs' (by omega), ?_⟩
      rw [List.length_append]
    · rw [if_neg hset] at h
      have hrest := ih hskip (by omega) hbits.tail h (by omega : ms.length ≤ fuel)
      split
      · rename_i hzero
        rw [← hnext, hzero, BitVec.zero_ushiftRight, skipMembers_zero] at hrest
        exact hrest
      · rw [if_neg (hbit.not.2 hset)]
        exact hrest

theorem unpackMembers_absent (hbits : ∀ k, i ≤ k → p.getLsbD k = false) (acc : τ) (bs : List β) :
    unpackMembers p ms i acc bs = .ok (ms.foldl (fun acc m => m.clear acc) acc, 0) := by
  induction ms generalizing i acc with
  | nil => rfl
  | cons m ms ih =>
    rw [unpackMembers, if_neg, List.foldl_cons]
    · exact ih (fun k hk => hbits k (Nat.le_of_succ_le hk)) (m.clear acc)
    · rw [and_bit_ne_zero, hbits i le_rfl]
      exact Bool.false_ne_true

theorem unpackMembers_last_absent {m : Member β τ} (hbit : p.getLsbD (i + ms.length) = false)
    {acc t : τ} {bs : List β} {n : Nat} (h : unpackMembers p (ms ++ [m]) i acc bs = .ok (t, n)) :
    ∃ t', t = m.clear t' := by
  induction ms generalizing i acc bs n with
  | nil =>
    rw [List.nil_append, unpackMembers, if_neg] at h
    · obtain ⟨rfl, -⟩ := Prod.mk.inj (Except.ok.inj h)
      exact ⟨acc, rfl⟩
    · rw [and_bit_ne_zero]
      exact (Bool.eq_false_iff.1 hbit)
  | cons m' ms ih =>
    rw [List.length_cons, Nat.add_comm ms.length, ← Nat.add_assoc] at hbit
    rw [List.cons_append, unpackMembers] at h
    split at h
    · obtain ⟨⟨a, j⟩, -, h⟩ := bind_eq_ok.1 h
      obtain ⟨⟨t₁, l⟩, ht₁, h⟩ := bind_eq_ok.1 h
      obtain ⟨rfl, -⟩ := Prod.mk.inj (Except.ok.inj h)
      exact ih hbit ht₁
    · exact ih hbit h

theorem unpackMembers_append {acc acc' acc'' : τ} {bs : List β} {n k : Nat}
    (h : unpackMembers p ms i acc bs = .ok (acc', n))
    (h' : unpackMembers p ls (i + ms.length) acc' (bs.drop n) = .ok (acc'', k)) :
    unpackMembers p (ms ++ ls) i acc bs = .ok (acc'', n + k) := by
  induction ms generalizing i acc bs n with
  | nil =>
    obtain ⟨rfl, rfl⟩ := Prod.mk.inj (Except.ok.inj h)
    rw [List.nil_append, Nat.zero_add]
    exact h'
  | cons m ms ih =>
    rw [List.length_cons, Nat.add_comm ms.length, ← Nat.add_assoc] at h'
    rw [unpackMembers] at h
    rw [List.cons_append, unpackMembers]
    split
    · rename_i hbit
      rw [if_pos hbit] at h
      obtain ⟨⟨a, j⟩, ha, h⟩ := bind_eq_ok.1 h
      obtain ⟨⟨t, l⟩, ht, h⟩ := bind_eq_ok.1 h
      obtain ⟨rfl, rfl⟩ := Prod.mk.inj (Except.ok.inj h)
      rw [← List.drop_drop] at h'
      refine bind_eq_ok.2 ⟨(a, j), ha, bind_eq_ok.2 ⟨(acc'', l + k), ih ht h', ?_⟩⟩
      rw [Nat.add_assoc]
    · rename_i hbit
      rw [if_neg hbit] at h
      exact ih h h'

theorem foldl_copy_fst (t old : τ) (e₀ e : ε) :
    (ms.map Member.fst).foldl (fun acc m => m.copy (t, e₀) acc) (old, e) =
      (ms.foldl (fun acc m => m.copy t acc) old, e) := by
  induction ms generalizing old with
  | nil => rfl
  | cons m ms ih => exact ih (m.copy t old)

theorem foldl_clear_snd (t : τ) (e : ε) :
    (es.map Member.snd).foldl (fun acc m => m.clear acc) (t, e) =
      (t, es.foldl (fun e m => m.clear e) e) := by
  induction es generalizing e with
  | nil => rfl
  | cons m es ih => exact ih (m.clear e)

end Members

section Versions

variable {F : RecordFormat β w} {ms : List (Member β τ)} {es : List (Member β ε)}

/-- Members that the reader of a record skips. -/
def Skips (F : RecordFormat β w) (es : List (Member β ε)) : Prop :=
  ∀ m ∈ es, ∀ {a bs}, m.packing.pack none a = .ok bs → ∀ rest, F.skip (bs ++ rest) = .ok bs.length

theorem packing_reads_newer (hF : F.Lawful) (hms : ∀ m ∈ ms, m.Lawful) (hcomplete : Complete ms)
    (hskip : F.Skips es) (hlen : ms.length + es.length ≤ w) {t : τ} {e : ε} {bs : List β}
    (h : (F.packing (extend ms es)).pack none (t, e) = .ok bs) (old : τ) (rest : List β) :
    (F.packing ms).unpack old (bs ++ rest) = .ok (t, bs.length) := by
  obtain ⟨head, hhead, h⟩ := bind_eq_ok.1 h
  obtain ⟨body, hbody, h⟩ := bind_eq_ok.1 h
  obtain rfl := Except.ok.inj h
  rw [extend, presence_append, presence_fst, presence_snd, List.length_map, Nat.zero_add]
    at hhead hbody
  obtain ⟨front, back, hfront, hback, rfl⟩ := packMembers_append hbody
  rw [packMembers_fst] at hfront
  rw [packMembers_snd, List.length_map, Nat.zero_add] at hback
  generalize hp : presence w ms 0 t ||| presence w es ms.length e = p at *
  have hknown : Agrees p ms 0 t (0 + ms.length) := by
    intro k _ hk
    have hlow : (presence w es ms.length e).getLsbD k = false := presence_below (by omega)
    rw [← hp, BitVec.getLsbD_or, hlow, Bool.or_false]
  have hnew : Agrees p es ms.length e w := by
    intro k hk _
    have hhigh : (presence w ms 0 t).getLsbD k = false := presence_above (by omega)
    rw [← hp, BitVec.getLsbD_or, hhigh, Bool.false_or]
  have hbody : (head ++ (front ++ back) ++ rest).drop head.length = front ++ (back ++ rest) := by
    rw [List.append_assoc, List.drop_left, List.append_assoc]
  have hdrop : (head ++ (front ++ back) ++ rest).drop (head.length + front.length) = back ++ rest := by
    rw [← List.drop_drop, hbody, List.drop_left]
  have hread := unpackMembers_pack hms (by omega) hknown hfront old (back ++ rest)
  rw [hcomplete] at hread
  refine bind_eq_ok.2 ⟨(p, head.length), by rw [List.append_assoc]; exact hF.reads hhead _, ?_⟩
  refine bind_eq_ok.2 ⟨(t, front.length), by rw [hbody]; exact hread, ?_⟩
  refine bind_eq_ok.2 ⟨back.length, ?_, ?_⟩
  · rw [hdrop]
    exact skipMembers_pack F hskip hlen hnew hback (by omega) rest
  · rw [List.length_append, List.length_append, Nat.add_assoc]

theorem packing_reads_front (hF : F.Lawful) (hms : ∀ m ∈ ms, m.Lawful) (hlen : ms.length ≤ w)
    {t : τ} {bs : List β} (h : (F.packing ms).pack none t = .ok bs) (ls : List (Member β τ)) (old : τ)
    (rest : List β) : (F.packing (ms ++ ls)).unpack old (bs ++ rest) =
      .ok (ls.foldl (fun acc m => m.clear acc) (ms.foldl (fun acc m => m.copy t acc) old),
        bs.length) := by
  obtain ⟨head, hhead, h⟩ := bind_eq_ok.1 h
  obtain ⟨body, hbody, h⟩ := bind_eq_ok.1 h
  obtain rfl := Except.ok.inj h
  generalize hp : presence w ms 0 t = p at *
  have hknown : Agrees p ms 0 t (0 + ms.length) := fun k _ _ => by rw [hp]
  have habsent : ∀ k, ms.length ≤ k → p.getLsbD k = false := by
    intro k hk
    rw [← hp, presence_above (by omega)]
  have hdrop : (head ++ body ++ rest).drop head.length = body ++ rest := by
    rw [List.append_assoc, List.drop_left]
  have hmembers : unpackMembers p (ms ++ ls) 0 old (body ++ rest) =
      .ok (ls.foldl (fun acc m => m.clear acc) (ms.foldl (fun acc m => m.copy t acc) old),
        body.length + 0) :=
    unpackMembers_append (unpackMembers_pack hms (by omega) hknown hbody old rest)
      (unpackMembers_absent (fun k hk => habsent k (by omega)) _ _)
  have hshift : p >>> (ms ++ ls).length = 0#w := by
    refine BitVec.eq_of_getLsbD_eq fun k _ => ?_
    rw [BitVec.getLsbD_ushiftRight, BitVec.getLsbD_zero, habsent]
    rw [List.length_append]
    omega
  refine bind_eq_ok.2 ⟨(p, head.length), by rw [List.append_assoc]; exact hF.reads hhead _, ?_⟩
  refine bind_eq_ok.2 ⟨_, by rw [hdrop]; exact hmembers, ?_⟩
  refine bind_eq_ok.2 ⟨0, by rw [hshift]; exact skipMembers_zero F w _, ?_⟩
  rw [List.length_append, Nat.add_zero, Nat.add_zero]

theorem pack_extend_nil (room : Option Int) (t : τ) :
    (F.packing (extend ms ([] : List (Member β ε)))).pack room (t, e) = (F.packing ms).pack room t := by
  simp only [packing, extend, List.map_nil, List.append_nil, presence_fst, packMembers_fst]

theorem packing_reads_older (hF : F.Lawful) (hms : ∀ m ∈ ms, m.Lawful) (hcomplete : Complete ms)
    (hlen : ms.length ≤ w) {t : τ} {bs : List β} (h : (F.packing ms).pack none t = .ok bs) (old : τ)
    (e : ε) (rest : List β) : (F.packing (extend ms es)).unpack (old, e) (bs ++ rest) =
      .ok ((t, es.foldl (fun e m => m.clear e) e), bs.length) := by
  have hpack : (F.packing (ms.map Member.fst)).pack none (t, e) = .ok bs := by
    simp only [packing, presence_fst, packMembers_fst]
    exact h
  have hlawful : ∀ m ∈ ms.map (Member.fst : _ → Member β (τ × ε)), m.Lawful := by
    intro m' hm'
    obtain ⟨m, hm, rfl⟩ := List.mem_map.1 hm'
    exact ⟨(hms m hm).packing, (hms m hm).empty⟩
  rw [extend, packing_reads_front hF hlawful (by rwa [List.length_map]) hpack, foldl_copy_fst,
    hcomplete, foldl_clear_snd]

theorem unpack_without_last {m : Member β τ} {old t : τ} {bs : List β} {p : BitVec w} {n k : Nat}
    (hhead : F.unpackHeader bs = .ok (p, n)) (hbit : p.getLsbD ms.length = false)
    (h : (F.packing (ms ++ [m])).unpack old bs = .ok (t, k)) : ∃ t', t = m.clear t' := by
  obtain ⟨⟨p', n'⟩, hhead', h⟩ := bind_eq_ok.1 h
  obtain ⟨⟨t₁, l⟩, hmembers, h⟩ := bind_eq_ok.1 h
  obtain ⟨_, -, h⟩ := bind_eq_ok.1 h
  obtain ⟨rfl, -⟩ := Prod.mk.inj (Except.ok.inj h)
  rw [hhead] at hhead'
  obtain ⟨rfl, rfl⟩ := Prod.mk.inj (Except.ok.inj hhead')
  exact unpackMembers_last_absent (by rwa [Nat.zero_add]) hmembers

theorem pack_mem {m : Member β τ} (hm : m ∈ ms) (hlen : ms.length ≤ w) {t : τ}
    (hfull : m.isEmpty (m.get t) = false) {bs : List β} (h : (F.packing ms).pack none t = .ok bs) :
    ∃ b, m.packing.pack none (m.get t) = .ok b ∧ b.length ≤ bs.length := by
  obtain ⟨head, -, h⟩ := bind_eq_ok.1 h
  obtain ⟨body, hbody, h⟩ := bind_eq_ok.1 h
  obtain ⟨b, hb, hle⟩ := packMembers_mem hm hfull (by omega) (fun k _ _ => rfl) hbody
  refine ⟨b, hb, ?_⟩
  rw [← Except.ok.inj h, List.length_append]
  omega

theorem packing_lawful (hF : F.Lawful) (hms : ∀ m ∈ ms, m.Lawful) (hcomplete : Complete ms)
    (hlen : ms.length ≤ w) : (F.packing ms).Lawful where
  fits {room t bs} := by
    simp only [packing, bind_eq_ok, Option.map_some, Option.map_none]
    constructor
    · rintro ⟨head, hhead, body, hbody, hbs⟩
      obtain ⟨hhead, hfits⟩ := hF.fits.1 hhead
      obtain ⟨hbody, hrest⟩ := (packMembers_fits hms (by omega)).1 hbody
      refine ⟨⟨head, hhead, body, hbody, hbs⟩, ?_⟩
      rw [← Except.ok.inj hbs, List.length_append]
      omega
    · rintro ⟨⟨head, hhead, body, hbody, hbs⟩, hfits⟩
      rw [← Except.ok.inj hbs, List.length_append] at hfits
      exact ⟨head, hF.fits.2 ⟨hhead, by omega⟩, body,
        (packMembers_fits hms (by omega)).2 ⟨hbody, by omega⟩, hbs⟩
  reads {t bs} h old rest := by
    have hnone : (F.packing (extend ms ([] : List (Member β Unit)))).pack none (t, ()) = .ok bs := by
      rw [pack_extend_nil]
      exact h
    exact packing_reads_newer hF hms hcomplete (fun _ hm => absurd hm List.not_mem_nil) hlen hnone old
      rest

end Versions

end RecordFormat

end Libfgw.Lib
