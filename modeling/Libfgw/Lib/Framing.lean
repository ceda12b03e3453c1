import Mathlib.Data.List.Basic
import Mathlib.Logic.Function.Basic

/-! Cutting byte streams into frames.  A cutter looks at the front of a buffer and
says whether a whole frame stands there; its laws say that more input never
changes what it has decided.  The frames of a stream are then independent of how
the stream arrives. -/

universe u v w

namespace Libfgw.Lib

inductive Cut (H : Type v)
  | wait
  | bad
  | frame (size : Nat) (hdr : H)

structure Cutter (α : Type u) (H : Type v) where
  cut : List α → Cut H
  frame_size : ∀ {b n h}, cut b = .frame n h → 0 < n ∧ n ≤ b.length
  frame_append : ∀ {b n h} (r), cut b = .frame n h → cut (b ++ r) = .frame n h
  frame_take : ∀ {b n h}, cut b = .frame n h → cut (b.take n) = .frame n h
  bad_append : ∀ {b} (r), cut b = .bad → cut (b ++ r) = .bad

namespace Cutter

variable {α : Type u} {H : Type v} (c : Cutter α H)

def splitFuel : Nat → List α → List (List α) × List α
  | 0, b => ([], b)
  | fuel + 1, b =>
    match c.cut b with
    | .wait => ([], b)
    | .bad => ([], [])
    | .frame n _ => (b.take n :: (splitFuel fuel (b.drop n)).1, (splitFuel fuel (b.drop n)).2)

def split (b : List α) : List (List α) × List α := c.splitFuel (b.length + 1) b

def IsFrame (f : List α) : Prop := ∃ h, c.cut f = .frame f.length h

def IsPartial (q : List α) : Prop := ∃ r, r ≠ [] ∧ c.IsFrame (q ++ r)

variable {c}

theorem splitFuel_eq {fuel fuel' : Nat} {b : List α} (h : b.length < fuel)
    (h' : b.length < fuel') : c.splitFuel fuel b = c.splitFuel fuel' b := by
  induction fuel generalizing fuel' b with
  | zero => exact absurd h (Nat.not_lt_zero _)
  | succ fuel ih =>
    cases fuel' with
    | zero => exact absurd h' (Nat.not_lt_zero _)
    | succ fuel' =>
      simp only [splitFuel]
      cases hc : c.cut b with
      | wait => rfl
      | bad => rfl
      | frame n hdr =>
        obtain ⟨hpos, hle⟩ := c.frame_size hc
        have hlen : (b.drop n).length = b.length - n := List.length_drop
        dsimp only
        rw [@ih fuel' (b.drop n) (by omega) (by omega)]

theorem split_wait {b : List α} (h : c.cut b = .wait) : c.split b = ([], b) := by
  simp only [split, splitFuel, h]

theorem split_bad {b : List α} (h : c.cut b = .bad) : c.split b = ([], []) := by
  simp only [split, splitFuel, h]

theorem split_frame {b : List α} {n : Nat} {hdr : H} (h : c.cut b = .frame n hdr) :
    c.split b = (b.take n :: (c.split (b.drop n)).1, (c.split (b.drop n)).2) := by
  obtain ⟨hpos, hle⟩ := c.frame_size h
  have hlen : (b.drop n).length = b.length - n := List.length_drop
  have hfuel : c.splitFuel b.length (b.drop n) = c.split (b.drop n) :=
    splitFuel_eq (by omega) (by omega)
  rw [← hfuel]
  simp only [split, splitFuel, h]

theorem IsFrame.ne_nil {f : List α} (hf : c.IsFrame f) : f ≠ [] := by
  obtain ⟨h, hf⟩ := hf
  exact List.ne_nil_of_length_pos (c.frame_size hf).1

theorem cut_isFrame {f : List α} (hf : c.IsFrame f) (r : List α) :
    ∃ h, c.cut (f ++ r) = .frame f.length h := by
  obtain ⟨h, hf⟩ := hf
  exact ⟨h, c.frame_append r hf⟩

theorem cut_isPartial {q : List α} (hq : c.IsPartial q) : c.cut q = .wait := by
  obtain ⟨r, hr, h, hf⟩ := hq
  cases hc : c.cut q with
  | wait => rfl
  | bad =>
    rw [c.bad_append r hc] at hf
    exact absurd hf (by simp)
  | frame n h' =>
    have hsize := (c.frame_size hc).2
    rw [c.frame_append r hc] at hf
    injection hf with hn
    have hpos := List.length_pos_of_ne_nil hr
    rw [List.length_append] at hn
    omega

theorem split_isFrame_append {f : List α} (hf : c.IsFrame f) (r : List α) :
    c.split (f ++ r) = (f :: (c.split r).1, (c.split r).2) := by
  obtain ⟨h, hc⟩ := cut_isFrame hf r
  rw [split_frame hc, List.take_left, List.drop_left]

theorem split_flatten_append {fs : List (List α)} (hfs : ∀ f ∈ fs, c.IsFrame f) (r : List α) :
    c.split (fs.flatten ++ r) = (fs ++ (c.split r).1, (c.split r).2) := by
  induction fs with
  | nil => rfl
  | cons f fs ih =>
    obtain ⟨hf, hfs⟩ := List.forall_mem_cons.1 hfs
    rw [List.flatten_cons, List.append_assoc, split_isFrame_append hf, ih hfs]
    rfl

theorem split_stream {fs : List (List α)} {q : List α} (hfs : ∀ f ∈ fs, c.IsFrame f)
    (hq : c.IsPartial q) : c.split (fs.flatten ++ q) = (fs, q) := by
  rw [split_flatten_append hfs, split_wait (cut_isPartial hq), List.append_nil]

theorem IsPartial.of_append {p r : List α} (h : c.IsPartial (p ++ r)) : c.IsPartial p := by
  obtain ⟨s, hs, hf⟩ := h
  refine ⟨r ++ s, List.append_ne_nil_of_right_ne_nil r hs, ?_⟩
  rwa [← List.append_assoc]

/-- A prefix of a stream is a stream: some of the frames, and a partial one that the
rest completes. -/
theorem prefix_stream {fs : List (List α)} {p r q : List α} (hfs : ∀ f ∈ fs, c.IsFrame f)
    (hq : c.IsPartial q) (h : p ++ r = fs.flatten ++ q) :
    ∃ done todo q', fs = done ++ todo ∧ p = done.flatten ++ q' ∧ q' ++ r = todo.flatten ++ q ∧
      c.IsPartial q' := by
  induction fs generalizing p with
  | nil =>
    have hp : p ++ r = q := by simpa using h
    exact ⟨[], [], p, rfl, by simp, by simpa using hp, (hp ▸ hq).of_append⟩
  | cons f fs ih =>
    obtain ⟨hf, hfs⟩ := List.forall_mem_cons.1 hfs
    rw [List.flatten_cons, List.append_assoc] at h
    rcases List.append_eq_append_iff.1 h with ⟨s, hfeq, hr⟩ | ⟨s, hpeq, hrest⟩
    · by_cases hs : s = []
      · subst hs
        rw [List.append_nil] at hfeq
        refine ⟨[f], fs, [], rfl, by simp [hfeq], by simpa using hr, f, hf.ne_nil, hf⟩
      · refine ⟨[], f :: fs, p, rfl, by simp, ?_, s, hs, hfeq ▸ hf⟩
        rw [List.flatten_cons, List.append_assoc, h]
    · obtain ⟨done, todo, q', rfl, rfl, hq', hpart⟩ := ih hfs hrest.symm
      exact ⟨f :: done, todo, q', rfl, by simp [hpeq], hq', hpart⟩

variable {σ : Type w}

def feed (c : Cutter α H) (step : σ → List α → σ) (s : σ × List α) (chunk : List α) :
    σ × List α :=
  ((c.split (s.2 ++ chunk)).1.foldl step s.1, (c.split (s.2 ++ chunk)).2)

theorem foldl_feed_stream (step : σ → List α → σ) {chunks fs : List (List α)} {q r : List α}
    (s : σ) (hfs : ∀ f ∈ fs, c.IsFrame f) (hq : c.IsPartial q)
    (h : r ++ chunks.flatten = fs.flatten ++ q) (hr : c.IsPartial r) :
    chunks.foldl (feed c step) (s, r) = (fs.foldl step s, q) := by
  induction chunks generalizing fs r s with
  | nil =>
    have hrs : c.split r = (fs, q) := by
      rw [List.flatten_nil, List.append_nil] at h
      rw [h, split_stream hfs hq]
    rw [split_wait (cut_isPartial hr)] at hrs
    obtain ⟨rfl, rfl⟩ := Prod.mk.inj hrs
    rfl
  | cons chunk chunks ih =>
    rw [List.flatten_cons, ← List.append_assoc] at h
    obtain ⟨done, todo, q', rfl, hp, hrest, hpart⟩ := prefix_stream hfs hq h
    obtain ⟨hdone, htodo⟩ := List.forall_mem_append.1 hfs
    rw [List.foldl_cons, feed, hp, split_stream hdone hpart, List.foldl_append]
    exact ih _ htodo hrest hpart

end Cutter

end Libfgw.Lib
