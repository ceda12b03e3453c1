import Libfgw.DataStream.Arbiter
import Libfgw.Lib.EachAfter

namespace Libfgw

open FgwSegmentHeader Lib DataStream

variable {σ P : Type}

abbrev Incarnation (P : Type) := P × Nat

/-- A history of restarts: each incarnation has a generation of its own. -/
structure Restarts (P : Type) where
  incarnations : Set (Incarnation P)
  generation : Incarnation P → ZceUint32
  nonzero : ∀ k ∈ incarnations, generation k ≠ 0#32
  own : Set.InjOn generation incarnations

inductive Signal (P : Type)
  | hello (k : Incarnation P)
  | feedback (k : Incarnation P) (fb : FgwLinkFeedback)
  | other

def Carries (S : Setting σ) (H : Restarts P) : Signal P → List ZceByte → Prop
  | .hello k, f => k ∈ H.incarnations ∧ ∃ ingress, HelloFrame S ingress (H.generation k) f
  | .feedback _ fb, f => FeedbackFrame S fb f
  | .other, f => IsPlain f

/-- Feedback is meant for the newest incarnation of each peer, and each incarnation's epochs grow. -/
structure IdealArbiter (P : Type) where
  announced : List (Incarnation P)
  accepted : List (Incarnation P × ZceUint32)

def Newest (announced : List (Incarnation P)) (k : Incarnation P) : Prop :=
  k ∈ announced ∧ ∀ j ∈ announced, j.1 = k.1 → j.2 ≤ k.2

instance [DecidableEq P] (announced : List (Incarnation P)) (k : Incarnation P) :
    Decidable (Newest announced k) := inferInstanceAs (Decidable (_ ∧ _))

namespace IdealArbiter

def Fresh (a : IdealArbiter P) (k : Incarnation P) (epoch : ZceUint32) : Prop :=
  Newest a.announced k ∧ ∀ x ∈ a.accepted, x.1 = k → x.2 < epoch

instance [DecidableEq P] (a : IdealArbiter P) (k : Incarnation P) (epoch : ZceUint32) :
    Decidable (a.Fresh k epoch) := inferInstanceAs (Decidable (_ ∧ _))

variable [DecidableEq P]

def step (a : IdealArbiter P) : Signal P → IdealArbiter P
  | .hello k => { a with announced := a.announced ++ [k] }
  | .feedback k fb =>
    if fb.recommendedPrimary ≠ 0#32 ∧ a.Fresh k fb.decisionEpoch then
      { a with accepted := a.accepted ++ [(k, fb.decisionEpoch)] }
    else a
  | .other => a

def run (signals : List (Signal P)) : IdealArbiter P := signals.foldl step ⟨[], []⟩

theorem run_concat (signals : List (Signal P)) (s : Signal P) :
    run (signals ++ [s]) = (run signals).step s := by
  rw [run, run, List.foldl_append, List.foldl_cons, List.foldl_nil]

end IdealArbiter

/-- The incarnation that was the last to say hello, and the epochs that have arrived since it
took over from another one. -/
structure Stretch (P : Type) where
  latest : Option (Incarnation P)
  epochs : List ZceUint32

namespace Stretch

variable [DecidableEq P]

def step (s : Stretch P) : Signal P → Stretch P
  | .hello k => if s.latest = some k then s else ⟨some k, []⟩
  | .feedback _ fb => { s with epochs := s.epochs ++ [fb.decisionEpoch] }
  | .other => s

def run (signals : List (Signal P)) : Stretch P := signals.foldl step ⟨none, []⟩

theorem run_concat (signals : List (Signal P)) (s : Signal P) :
    run (signals ++ [s]) = (run signals).step s := by
  rw [run, run, List.foldl_append, List.foldl_cons, List.foldl_nil]

def Tops (s : Stretch P) (epoch : ZceUint32) : Prop := 0#32 < epoch ∧ ∀ e ∈ s.epochs, e < epoch

end Stretch

structure InStretch (H : Restarts P) (s : Stretch P) (st : StreamState σ) : Prop where
  generation : st.heard.2 = (s.latest.map H.generation).getD 0#32
  known : ∀ k ∈ s.latest, k ∈ H.incarnations
  applied : ∀ epoch, st.heard.1 < epoch ↔ 0#32 < epoch ∧ ∀ e ∈ s.epochs, e < epoch

namespace InStretch

variable {H : Restarts P} {S : Setting σ} {s : Stretch P} {st : StreamState σ}

theorem init (owner : σ) (selector : LinkSelector) :
    InStretch H ⟨none, []⟩ (DataStream.init owner selector).toStreamState :=
  ⟨rfl, nofun, fun _ => ⟨fun h => ⟨h, nofun⟩, fun h => h.1⟩⟩

theorem of_heard (h : InStretch H s st) {st' : StreamState σ} (hheard : st'.heard = st.heard) :
    InStretch H s st' :=
  ⟨hheard ▸ h.generation, h.known, hheard ▸ h.applied⟩

theorem generation_eq_iff (h : InStretch H s st) {k : Incarnation P} (hk : k ∈ H.incarnations) :
    H.generation k = st.heard.2 ↔ s.latest = some k := by
  rw [h.generation]
  cases hlatest : s.latest with
  | none => exact iff_of_false (H.nonzero k hk) (Option.some_ne_none k).symm
  | some j =>
    rw [Option.map_some, Option.getD_some, Option.some.injEq]
    exact ⟨fun heq => (H.own hk (h.known j hlatest) heq).symm, fun heq => by rw [heq]⟩

variable [DecidableEq P]

theorem frame (h : InStretch H s st) {signal : Signal P} {f : List ZceByte}
    (hf : Carries S H signal f) (ch : ChannelRef) :
    InStretch H (s.step signal) (handleFrame S ch st f) := by
  cases signal with
  | hello k =>
    obtain ⟨hk, ingress, hf⟩ := hf
    have hgeneration := h.generation_eq_iff hk
    have harbiter := handleFrame_hello_arbiter hf ch st
    rw [Stretch.step]
    split
    · rename_i hlatest
      refine h.of_heard ?_
      rw [StreamState.heard, harbiter, Arbiter.hello,
        if_neg fun hnew => hnew.2 (hgeneration.2 hlatest)]
      rfl
    · rename_i hlatest
      have hheard : (handleFrame S ch st f).heard = (0#32, H.generation k) := by
        rw [StreamState.heard, harbiter, Arbiter.hello,
          if_pos ⟨H.nonzero k hk, fun heq => hlatest (hgeneration.1 heq)⟩]
        rfl
      refine ⟨by rw [hheard]; rfl, fun j hj => by rwa [← Option.some.inj hj], fun epoch => ?_⟩
      rw [hheard]
      exact ⟨fun hpos => ⟨hpos, fun e he => absurd he List.not_mem_nil⟩, fun hpos => hpos.1⟩
  | feedback k fb =>
    have harbiter := handleFrame_feedback_arbiter hf ch st
    have hgeneration : (handleFrame S ch st f).heard.2 = st.heard.2 := by
      rw [StreamState.heard, harbiter, Arbiter.adopt]
      split <;> rfl
    refine ⟨hgeneration.trans h.generation, h.known, fun epoch => ?_⟩
    have hold := h.applied epoch
    have happlied : (handleFrame S ch st f).heard.1 < epoch ↔
        st.heard.1 < epoch ∧ fb.decisionEpoch < epoch := by
      rw [StreamState.heard, harbiter, Arbiter.adopt]
      split
      · rename_i hnew
        exact ⟨fun hlt => ⟨lt_trans hnew hlt, hlt⟩, fun hlt => hlt.2⟩
      · rename_i hstale
        exact ⟨fun hlt => ⟨hlt, lt_of_le_of_lt (not_lt.1 hstale) hlt⟩, fun hlt => hlt.1⟩
    rw [happlied, hold, Stretch.step]
    simp only [List.mem_append, List.mem_singleton, or_imp, forall_and, forall_eq]
    tauto
  | other =>
    refine h.of_heard ?_
    rw [StreamState.heard, handleFrame_plain_arbiter hf]
    rfl

end InStretch

abbrev Reception (P σ : Type) := Signal P × StreamState σ × List ZceByte

def signals (log : List (Reception P σ)) : List (Signal P) := log.map Prod.fst

def announced (signals : List (Signal P)) : List (Incarnation P) :=
  signals.filterMap fun s => match s with
    | .hello k => some k
    | _ => none

def Applied (S : Setting σ) (x : Reception P σ) (fb : FgwLinkFeedback) : Prop :=
  ∀ ch, SetsPrimary S ch x.2.1 x.2.2 fb.recommendedPrimary

/-- A feedback is applied when it recommends a link, comes from the newest incarnation of its peer
that has been announced, and has a larger epoch than all that have been applied from there. -/
def AppliesFresh (S : Setting σ) (past : List (Reception P σ)) (x : Reception P σ) : Prop :=
  ∀ k fb, x.1 = .feedback k fb →
    (Applied S x fb ↔ fb.recommendedPrimary ≠ 0#32 ∧ Newest (announced (signals past)) k ∧
      ∀ y ∈ past, ∀ fb', y.1 = .feedback k fb' → Applied S y fb' →
        fb'.decisionEpoch < fb.decisionEpoch)

/-- A feedback is fresh when its epoch is above all that have arrived, from wherever, since the
latest incarnation took over. -/
def FreshOnTop [DecidableEq P] (past : List (Signal P)) (s : Signal P) : Prop :=
  ∀ k fb, s = .feedback k fb → fb.recommendedPrimary ≠ 0#32 →
    ((IdealArbiter.run past).Fresh k fb.decisionEpoch ↔ (Stretch.run past).Tops fb.decisionEpoch)

section Log

variable [DecidableEq P] {S : Setting σ} {H : Restarts P}

def Explained (S : Setting σ) (H : Restarts P) (past : List (Reception P σ)) (x : Reception P σ) : Prop :=
  Carries S H x.1 x.2.2 ∧ InStretch H (Stretch.run (signals past)) x.2.1

theorem Explained.applied_iff {past : List (Reception P σ)} {x : Reception P σ} (h : Explained S H past x)
    {k : Incarnation P} {fb : FgwLinkFeedback} (hx : x.1 = .feedback k fb) :
    Applied S x fb ↔ (Stretch.run (signals past)).Tops fb.decisionEpoch ∧
      fb.recommendedPrimary ≠ 0#32 := by
  obtain ⟨hcarries, hstretch⟩ := h
  rw [hx] at hcarries
  have hsets := fun ch => setsPrimary_iff hcarries ch x.2.1
  have happlied := hstretch.applied fb.decisionEpoch
  constructor
  · intro h
    obtain ⟨hlt, hrec⟩ := (hsets 0).1 (h 0)
    exact ⟨happlied.1 hlt, hrec⟩
  · rintro ⟨htops, hrec⟩ ch
    exact (hsets ch).2 ⟨happlied.2 htops, hrec⟩

theorem run_announced (signals : List (Signal P)) :
    (IdealArbiter.run signals).announced = announced signals := by
  induction signals using List.reverseRecOn with
  | nil => rfl
  | append_singleton signals s ih =>
    rw [IdealArbiter.run_concat, announced, List.filterMap_append, ← announced, ← ih]
    cases s with
    | hello k => rfl
    | feedback k fb =>
      rw [IdealArbiter.step]
      split <;> exact (List.append_nil _).symm
    | other => exact (List.append_nil _).symm

theorem mem_accepted {log : List (Reception P σ)} (hexplained : EachAfter (Explained S H) log)
    (hfresh : EachAfter (fun past x => FreshOnTop (signals past) x.1) log) (k : Incarnation P)
    (epoch : ZceUint32) : (k, epoch) ∈ (IdealArbiter.run (signals log)).accepted ↔
      ∃ y ∈ log, ∃ fb, y.1 = .feedback k fb ∧ fb.decisionEpoch = epoch ∧ Applied S y fb := by
  induction log using List.reverseRecOn with
  | nil =>
    refine iff_of_false List.not_mem_nil ?_
    rintro ⟨y, hy, -⟩
    exact List.not_mem_nil hy
  | append_singleton log x ih =>
    have hold := ih hexplained.left hfresh.left
    have hrun : IdealArbiter.run (signals (log ++ [x])) =
        (IdealArbiter.run (signals log)).step x.1 := by
      rw [signals, List.map_append, List.map_singleton, IdealArbiter.run_concat, signals]
    rw [hrun]
    simp only [List.mem_append, List.mem_singleton, or_and_right, exists_or, exists_eq_left]
    rw [← hold]
    cases hx : x.1 with
    | hello j => exact (or_iff_left fun ⟨fb, heq, _⟩ => nomatch heq).symm
    | other => exact (or_iff_left fun ⟨fb, heq, _⟩ => nomatch heq).symm
    | feedback j fb =>
      have happlied := hexplained.last.applied_iff hx
      have htops := hfresh.last j fb hx
      rw [IdealArbiter.step]
      split
      · rename_i haccept
        obtain ⟨hrec, hnew⟩ := haccept
        have hsets : Applied S x fb := happlied.2 ⟨(htops hrec).1 hnew, hrec⟩
        simp only [List.mem_append, List.mem_singleton, Prod.mk.injEq, Signal.feedback.injEq]
        refine or_congr_right ⟨?_, ?_⟩
        · rintro ⟨rfl, rfl⟩
          exact ⟨fb, ⟨rfl, rfl⟩, rfl, hsets⟩
        · rintro ⟨fb', ⟨rfl, rfl⟩, rfl, -⟩
          exact ⟨rfl, rfl⟩
      · rename_i hreject
        refine (or_iff_left ?_).symm
        rintro ⟨fb', heq, -, hsets⟩
        obtain ⟨rfl, rfl⟩ := Signal.feedback.inj heq
        obtain ⟨hontop, hrec⟩ := happlied.1 hsets
        exact hreject ⟨hrec, (htops hrec).2 hontop⟩

theorem appliesFresh_iff {past : List (Reception P σ)} {x : Reception P σ}
    (hpast : EachAfter (Explained S H) past)
    (hfresh : EachAfter (fun past x => FreshOnTop (signals past) x.1) past)
    (hx : Explained S H past x) : AppliesFresh S past x ↔ FreshOnTop (signals past) x.1 := by
  have hideal : ∀ k epoch, (IdealArbiter.run (signals past)).Fresh k epoch ↔
      Newest (announced (signals past)) k ∧ ∀ y ∈ past, ∀ fb', y.1 = .feedback k fb' →
        Applied S y fb' → fb'.decisionEpoch < epoch := by
    intro k epoch
    rw [IdealArbiter.Fresh, run_announced]
    refine and_congr_right fun _ => ⟨fun h y hy fb' heq hsets => ?_, fun h z hz hzk => ?_⟩
    · exact h (k, fb'.decisionEpoch) ((mem_accepted hpast hfresh _ _).2 ⟨y, hy, fb', heq, rfl, hsets⟩) rfl
    · obtain ⟨j, epoch'⟩ := z
      obtain ⟨y, hy, fb', heq, rfl, hsets⟩ := (mem_accepted hpast hfresh j epoch').1 hz
      obtain rfl : j = k := hzk
      exact h y hy fb' heq hsets
  refine forall_congr' fun k => forall_congr' fun fb => forall_congr' fun heq => ?_
  rw [hx.applied_iff heq, ← hideal]
  tauto

theorem explained_run {owner : σ} {selector : LinkSelector} {ops : List (Op σ)}
    {log : List (Reception P σ)} (hlog : log.map Prod.snd = trace S (DataStream.init owner selector) ops)
    (hcarries : ∀ x ∈ log, Carries S H x.1 x.2.2) : EachAfter (Explained S H) log := by
  have hrun := @run_invariant σ S
    (fun tr st => ∀ log : List (Reception P σ), log.map Prod.snd = tr →
      (∀ x ∈ log, Carries S H x.1 x.2.2) →
        InStretch H (Stretch.run (signals log)) st ∧ EachAfter (Explained S H) log)
    (fun _ => True) (fun _ => True) ?_ ?_ ops (DataStream.init owner selector) [] (fun _ _ => trivial)
    (fun _ _ => trivial) ?_
  · exact (hrun log hlog hcarries).2
  · intro op tr ds _ hother h log hlog hcarries
    obtain ⟨hstretch, hexplained⟩ := h log hlog hcarries
    exact ⟨hstretch.of_heard (step_heard S ds hother), hexplained⟩
  · intro ch f tr st _ h log hlog hcarries
    rcases List.eq_nil_or_concat log with rfl | ⟨past, x, rfl⟩
    · exact absurd hlog (by simp)
    rw [List.concat_eq_append] at hlog hcarries ⊢
    rw [List.map_append, List.map_singleton] at hlog
    obtain ⟨hpast, hx⟩ := List.append_inj' hlog rfl
    have hx : x.2 = (st, f) := List.singleton_inj.1 hx
    obtain ⟨hpastCarries, hlast⟩ := List.forall_mem_append.1 hcarries
    obtain ⟨hstretch, hexplained⟩ := h past hpast hpastCarries
    have hxCarries : Carries S H x.1 f := by
      have hcarried := hlast x (List.mem_singleton_self x)
      rwa [hx] at hcarried
    constructor
    · rw [signals, List.map_append, List.map_singleton, Stretch.run_concat, ← signals]
      exact hstretch.frame hxCarries ch
    · refine hexplained.concat ⟨by rwa [hx], ?_⟩
      rwa [hx]
  · intro log hlog _
    obtain rfl := List.map_eq_nil_iff.1 hlog
    exact ⟨InStretch.init owner selector, EachAfter.nil⟩

end Log

section Orderly

structure Agrees (a : IdealArbiter P) (s : Stretch P) : Prop where
  newest : ∀ k ∈ s.latest, Newest a.announced k
  known : ∀ x ∈ a.accepted, x.1 ∈ a.announced
  tops : ∀ k ∈ s.latest, ∀ epoch, s.Tops epoch ↔
    0#32 < epoch ∧ ∀ x ∈ a.accepted, x.1 = k → x.2 < epoch

theorem Agrees.fresh_iff {a : IdealArbiter P} {s : Stretch P} (h : Agrees a s) {k : Incarnation P}
    (hlatest : s.latest = some k) {epoch : ZceUint32} (hpos : 0#32 < epoch) :
    a.Fresh k epoch ↔ s.Tops epoch := by
  rw [h.tops k hlatest, IdealArbiter.Fresh]
  exact ⟨fun hfresh => ⟨hpos, hfresh.2⟩, fun htops => ⟨h.newest k hlatest, htops.2⟩⟩

variable [DecidableEq P]

/-- An incarnation that says hello is the latest one or newer than all of its peer, and feedback, with
a positive epoch and a recommendation, comes from the latest one. -/
def Orderly (past : List (Signal P)) : Signal P → Prop
  | .hello k => (Stretch.run past).latest = some k ∨ ∀ j ∈ announced past, j.1 = k.1 → j.2 < k.2
  | .feedback k fb => (Stretch.run past).latest = some k ∧ 0#32 < fb.decisionEpoch ∧
      fb.recommendedPrimary ≠ 0#32
  | .other => True

theorem Agrees.hello {a : IdealArbiter P} {s : Stretch P} (h : Agrees a s) {k : Incarnation P}
    (hk : s.latest = some k ∨ ∀ j ∈ a.announced, j.1 = k.1 → j.2 < k.2) :
    Agrees (a.step (.hello k)) (s.step (.hello k)) := by
  have hknown : ∀ x ∈ a.accepted, x.1 ∈ a.announced ++ [k] := fun x hx =>
    List.mem_append_left _ (h.known x hx)
  rw [IdealArbiter.step, Stretch.step]
  split
  · rename_i hlatest
    refine ⟨fun j hj => ?_, hknown, h.tops⟩
    obtain rfl : k = j := Option.some.inj (hlatest.symm.trans hj)
    obtain ⟨hmem, hnewest⟩ := h.newest k hlatest
    refine ⟨List.mem_append_left _ hmem, fun i hi hpeer => ?_⟩
    rcases List.mem_append.1 hi with hi | hi
    · exact hnewest i hi hpeer
    · rw [List.mem_singleton.1 hi]
  · rename_i hother
    have hnewer := hk.resolve_left hother
    refine ⟨fun j hj => ?_, hknown, fun j hj epoch => ?_⟩
    · obtain rfl : k = j := Option.some.inj hj
      refine ⟨List.mem_append_right _ (List.mem_singleton_self k), fun i hi hpeer => ?_⟩
      rcases List.mem_append.1 hi with hi | hi
      · exact (hnewer i hi hpeer).le
      · rw [List.mem_singleton.1 hi]
    · obtain rfl : k = j := Option.some.inj hj
      -- a newer incarnation has not been heard of
      refine and_congr_right fun _ => iff_of_true nofun fun x hx hxk => ?_
      have hmem := h.known x hx
      rw [hxk] at hmem
      exact absurd (hnewer k hmem rfl) (lt_irrefl _)

theorem Agrees.feedback {a : IdealArbiter P} {s : Stretch P} (h : Agrees a s) {k : Incarnation P}
    {fb : FgwLinkFeedback} (hlatest : s.latest = some k) (hpos : 0#32 < fb.decisionEpoch)
    (hrec : fb.recommendedPrimary ≠ 0#32) :
    Agrees (a.step (.feedback k fb)) (s.step (.feedback k fb)) := by
  have hfresh := h.fresh_iff hlatest hpos
  have hold := h.tops k hlatest
  have htops : ∀ epoch, (s.step (.feedback k fb)).Tops epoch ↔
      s.Tops epoch ∧ fb.decisionEpoch < epoch := by
    intro epoch
    rw [Stretch.step, Stretch.Tops, Stretch.Tops]
    simp only [List.mem_append, List.mem_singleton, or_imp, forall_and, forall_eq]
    tauto
  rw [IdealArbiter.step]
  split
  · refine ⟨h.newest, fun x hx => ?_, fun j hj epoch => ?_⟩
    · rcases List.mem_append.1 hx with hx | hx
      · exact h.known x hx
      · rw [List.mem_singleton.1 hx]
        exact (h.newest k hlatest).1
    · obtain rfl : k = j := Option.some.inj (hlatest.symm.trans hj)
      rw [htops, hold]
      simp only [List.mem_append, List.mem_singleton, or_imp, forall_and, forall_eq, forall_const]
      tauto
  · rename_i hreject
    refine ⟨h.newest, h.known, fun j hj epoch => ?_⟩
    obtain rfl : k = j := Option.some.inj (hlatest.symm.trans hj)
    rw [htops, ← hold, and_iff_left_iff_imp]
    -- it is not above an epoch of the stretch
    intro htop
    by_contra hlow
    refine hreject ⟨hrec, hfresh.2 ⟨hpos, fun e he => ?_⟩⟩
    exact lt_of_lt_of_le (htop.2 e he) (not_lt.1 hlow)

theorem agrees_run {signals : List (Signal P)} (h : EachAfter Orderly signals) :
    Agrees (IdealArbiter.run signals) (Stretch.run signals) := by
  induction signals using List.reverseRecOn with
  | nil => exact ⟨nofun, nofun, nofun⟩
  | append_singleton signals s ih =>
    have hagrees := ih h.left
    have horderly := h.last
    rw [IdealArbiter.run_concat, Stretch.run_concat]
    cases s with
    | hello k =>
      refine hagrees.hello ?_
      rw [run_announced]
      exact horderly
    | feedback k fb => exact hagrees.feedback horderly.1 horderly.2.1 horderly.2.2
    | other => exact hagrees

/-- Peers that take turns are served well, each newer incarnation in its time. -/
theorem freshOnTop_of_orderly {signals : List (Signal P)} (h : EachAfter Orderly signals) :
    EachAfter FreshOnTop signals := by
  intro past s post hsplit k fb hs _
  subst hs
  obtain ⟨hlatest, hpos, -⟩ := h past _ post hsplit
  rw [hsplit] at h
  exact (agrees_run h.left).fresh_iff hlatest hpos

end Orderly

/-- As long as newer incarnations take over from older ones, and feedback comes from the one that
has taken over last, feedback is applied exactly when it is fresh.  Whatever hellos and feedback
arrive, this is so as long as what is fresh, and nothing else, is above all epochs that have arrived
since then. -/
theorem racing_feedback_iff [DecidableEq P] (S : Setting σ) (H : Restarts P) (owner : σ)
    (selector : LinkSelector) (ops : List (Op σ)) (log : List (Reception P σ))
    (hlog : log.map Prod.snd = trace S (DataStream.init owner selector) ops)
    (hcarries : ∀ x ∈ log, Carries S H x.1 x.2.2) :
    (EachAfter Orderly (signals log) → EachAfter (AppliesFresh S) log) ∧
      (EachAfter (AppliesFresh S) log ↔ EachAfter FreshOnTop (signals log)) := by
  have hiff : EachAfter (AppliesFresh S) log ↔ EachAfter FreshOnTop (signals log) := by
    rw [signals, EachAfter.map_iff]
    refine EachAfter.congr (explained_run hlog hcarries) ?_
    intro past x hpast _ hfresh hx
    exact appliesFresh_iff hpast hfresh hx
  exact ⟨fun horderly => hiff.2 (freshOnTop_of_orderly horderly), hiff⟩

def twoStarts : Restarts Unit where
  incarnations := {((), 0), ((), 1)}
  generation k := BitVec.ofNat 32 (k.2 + 1)
  nonzero := by
    rintro k (rfl | rfl) <;> decide
  own := by
    rintro k (rfl | rfl) j (rfl | rfl) heq <;> first | rfl | exact absurd heq (by decide)

def startHello (n : Nat) : List ZceByte := [BitVec.ofNat 8 n]

def racedStream : Setting Unit :=
  Setting.quiet (StreamConfig.make 7#32 1200#16 1024#16 true 0#32) .empty
    (ZdsCodec.flat [(startHello 0, { generation := 1#32 }), (startHello 1, { generation := 2#32 })])

def startFrame (n : Nat) : List ZceByte := wireFrame (helloHeader 0#32) (startHello n)

def raceFeedback (epoch : ZceUint32) : FgwLinkFeedback :=
  { decisionEpoch := epoch, recommendedPrimary := 9#32 }

def raceFrame (epoch : ZceUint32) : List ZceByte :=
  wireFrame { flags := FLAG_ACK } (flatFeedback (raceFeedback epoch))

theorem startFrame_carries {n : Nat} (hn : n = 0 ∨ n = 1) :
    Carries racedStream twoStarts (.hello ((), n)) (startFrame n) := by
  obtain rfl | rfl := hn
  · exact ⟨Or.inl rfl, 0#32, @helloFrame_wireFrame _ racedStream { generation := 1#32 } (startHello 0)
      (by decide) rfl (by decide)⟩
  · exact ⟨Or.inr rfl, 0#32, @helloFrame_wireFrame _ racedStream { generation := 2#32 } (startHello 1)
      (by decide) rfl (by decide)⟩

theorem raceFrame_carries (k : Incarnation Unit) (epoch : ZceUint32) :
    Carries racedStream twoStarts (.feedback k (raceFeedback epoch)) (raceFrame epoch) := by
  have hlen : (flatFeedback (raceFeedback epoch)).length ≤ MAX_PAYLOAD := by
    have h : (flatFeedback (raceFeedback epoch)).length = 16 := rfl
    rw [h]
    decide
  exact feedbackFrame_wireFrame (ZdsCodec.flat_unpackFeedback _ _) hlen rfl

def raceLog (race : List (Signal Unit × List ZceByte)) : List (Reception Unit Unit) :=
  (race.map Prod.fst).zip
    (trace racedStream (DataStream.init ()) (race.map fun p => .onChannelBytes 1 p.2))

theorem raceLog_spec {race : List (Signal Unit × List ZceByte)}
    (harrived : arrived racedStream (DataStream.init ()) (race.map fun p => .onChannelBytes 1 p.2) =
      race.map Prod.snd) (hcarries : ∀ p ∈ race, Carries racedStream twoStarts p.1 p.2) :
    (raceLog race).map Prod.snd =
        trace racedStream (DataStream.init ()) (race.map fun p => .onChannelBytes 1 p.2) ∧
      signals (raceLog race) = race.map Prod.fst ∧
      ∀ x ∈ raceLog race, Carries racedStream twoStarts x.1 x.2.2 := by
  have hlen := congrArg List.length harrived
  rw [arrived, List.length_map, List.length_map] at hlen
  refine ⟨List.map_snd_zip (by rw [List.length_map, hlen]),
    List.map_fst_zip (by rw [List.length_map, hlen]), fun x hx => hcarries (x.1, x.2.2) ?_⟩
  have hmem : (x.1, x.2.2) ∈ (race.map Prod.fst).zip (race.map Prod.snd) := by
    rw [← harrived, arrived, List.zip_map_right]
    exact List.mem_map_of_mem (f := Prod.map id Prod.snd) hx
  rwa [← List.zip_of_prod rfl rfl] at hmem

def restartRace : List (Signal Unit × List ZceByte) :=
  [(.hello ((), 0), startFrame 0), (.feedback ((), 0) (raceFeedback 1#32), raceFrame 1#32),
    (.hello ((), 1), startFrame 1), (.feedback ((), 1) (raceFeedback 1#32), raceFrame 1#32)]

theorem restartRace_orderly : EachAfter Orderly (restartRace.map Prod.fst) := by
  change EachAfter Orderly (((([] ++ [_]) ++ [_]) ++ [_]) ++ [_])
  refine (((EachAfter.nil.concat ?_).concat ?_).concat ?_).concat ?_
  · exact Or.inr nofun
  · exact ⟨rfl, by decide, by decide⟩
  · exact Or.inr (by decide)
  · exact ⟨rfl, by decide, by decide⟩

theorem racing_feedback_iff_restart : EachAfter (AppliesFresh racedStream) (raceLog restartRace) := by
  obtain ⟨hlog, hsignals, hcarries⟩ := @raceLog_spec restartRace (by decide +kernel) (by
    simp only [restartRace, List.forall_mem_cons]
    exact ⟨startFrame_carries (Or.inl rfl), raceFrame_carries _ _, startFrame_carries (Or.inr rfl),
      raceFrame_carries _ _, nofun⟩)
  refine (racing_feedback_iff racedStream twoStarts () {} _ _ hlog hcarries).1 ?_
  rw [hsignals]
  exact restartRace_orderly

def lateRace : List (Signal Unit × List ZceByte) :=
  [(.hello ((), 0), startFrame 0), (.hello ((), 1), startFrame 1),
    (.feedback ((), 0) (raceFeedback 1#32), raceFrame 1#32)]

theorem stale_feedback_applied :
    ¬ ∀ (ops : List (Op Unit)) (log : List (Reception Unit Unit)),
      log.map Prod.snd = trace racedStream (DataStream.init ()) ops →
      (∀ x ∈ log, Carries racedStream twoStarts x.1 x.2.2) →
        EachAfter (AppliesFresh racedStream) log := by
  intro hclaim
  obtain ⟨hlog, hsignals, hcarries⟩ := @raceLog_spec lateRace (by decide +kernel) (by
    simp only [lateRace, List.forall_mem_cons]
    exact ⟨startFrame_carries (Or.inl rfl), startFrame_carries (Or.inr rfl), raceFrame_carries _ _,
      nofun⟩)
  have hexplained := explained_run hlog hcarries
  have happlies := hclaim _ _ hlog hcarries
  obtain ⟨past, x, hsplit⟩ : ∃ past x, raceLog lateRace = past ++ [x] := by
    rcases List.eq_nil_or_concat (raceLog lateRace) with hnil | ⟨past, x, hsplit⟩
    · rw [hnil] at hsignals
      exact absurd hsignals (by simp [signals, lateRace])
    · exact ⟨past, x, hsplit.trans List.concat_eq_append⟩
  rw [hsplit] at hexplained happlies hsignals
  obtain ⟨hpast, hx⟩ : signals past = [.hello ((), 0), .hello ((), 1)] ∧
      x.1 = .feedback ((), 0) (raceFeedback 1#32) := by
    rw [signals, List.map_append] at hsignals
    change _ = [Signal.hello ((), 0), Signal.hello ((), 1)] ++ [Signal.feedback _ _] at hsignals
    obtain ⟨hpast, hx⟩ := List.append_inj' hsignals rfl
    exact ⟨hpast, List.singleton_inj.1 hx⟩
  have hsets : Applied racedStream x (raceFeedback 1#32) := by
    refine (hexplained.last.applied_iff hx).2 ⟨?_, by decide⟩
    rw [hpast]
    exact ⟨by decide, nofun⟩
  have hnewest := ((happlies.last _ _ hx).1 hsets).2.1
  rw [hpast] at hnewest
  exact absurd hnewest (by decide)

end Libfgw
