import Libfgw.Machine.Ledger

namespace Libfgw

open Lib DataStream ZfgwMachine

variable {σ τ : Type}

def Emission.generation (E : Env σ) (e : Emission) : ZceUint32 := fgwProcessGeneration (E.host e.bringup)

/-- Every feedback has a larger epoch than those that went out before under the same generation. -/
def FreshEpochs (E : Env σ) (es : List Emission) : Prop :=
  es.Pairwise fun e e' => e.generation E = e'.generation E →
    e.fb.decisionEpoch < e'.fb.decisionEpoch

/-- The states of a peer that has met a generation and has heard some feedback since, in order and
maybe in copies, among anything else that it does. -/
inductive Hears (R : Setting τ) (generation : ZceUint32) : List Emission → StreamState τ → Prop
  | meets {st ch ingress f} : st.peerGeneration ≠ generation → HelloFrame R ingress generation f →
      Hears R generation [] (handleFrame R ch st f)
  | hello {es st ch ingress f} : Hears R generation es st → HelloFrame R ingress generation f →
      Hears R generation es (handleFrame R ch st f)
  | feedback {es st ch} (e : Emission) : Hears R generation es st →
      Hears R generation (es ++ [e]) (handleFrame R ch st e.frame)
  | copy {es st ch e} : Hears R generation es st → e ∈ es →
      Hears R generation es (handleFrame R ch st e.frame)
  | plain {es st ch f} : Hears R generation es st → IsPlain f →
      Hears R generation es (handleFrame R ch st f)
  | other {es} {ds : DataStream τ} {op : DataStream.Op τ} : Hears R generation es ds.toStreamState →
      (∀ ch buf, op ≠ .onChannelBytes ch buf) →
      Hears R generation es (DataStream.step R ds op).toStreamState

/-- A peer that hears everything in order makes the first feedback of each bring-up its choice. -/
def FirstsApplied (E : Env σ) (R : Setting τ) : List Emission → Prop :=
  EachAfter fun pre e => (∀ a ∈ pre, a.bringup ≠ e.bringup) →
    ∀ st, Hears R (e.generation E) pre st → ∀ ch,
      SetsPrimary R ch st e.frame e.fb.recommendedPrimary

def FeedsAlone (m : ZfgwMachine σ) : Prop :=
  (∀ e ∈ m.emitted, e.bringup = m.bringups) ∧ m.emitted.length + 1 < 2 ^ 32

def AllFeedAlone (E : Env σ) : ZfgwMachine σ → List (ZfgwMachine.Op σ) → Prop
  | _, [] => True
  | m, op :: ops => (Feeds m op → FeedsAlone m) ∧ AllFeedAlone E (step E m op) ops

def Uniform (es : List Emission) : Prop :=
  (∀ e ∈ es, ∀ e' ∈ es, e.bringup = e'.bringup) ∧ es.length < 2 ^ 32

section Lists

variable {es : List Emission} {e : Emission}

theorem emissionsOf_eq_length (h : ∀ a ∈ es, a.bringup = e.bringup) :
    emissionsOf e.bringup es = es.length :=
  List.countP_eq_length.2 fun a ha => decide_eq_true (h a ha)

theorem uniform_concat : Uniform (es ++ [e]) ↔
    (∀ a ∈ es, a.bringup = e.bringup) ∧ es.length + 1 < 2 ^ 32 := by
  constructor
  · rintro ⟨hsame, hlen⟩
    refine ⟨fun a ha => hsame a (List.mem_append_left _ ha) e (by simp), ?_⟩
    rwa [List.length_append, List.length_singleton] at hlen
  · rintro ⟨hsame, hlen⟩
    have hall : ∀ a ∈ es ++ [e], a.bringup = e.bringup := by
      intro a ha
      rcases List.mem_append.1 ha with ha | ha
      · exact hsame a ha
      · rw [List.mem_singleton.1 ha]
    refine ⟨fun a ha b hb => (hall a ha).trans (hall b hb).symm, ?_⟩
    rwa [List.length_append, List.length_singleton]

theorem CountFromOne.first (h : CountFromOne (e :: es)) : e.fb.decisionEpoch = 1#32 :=
  h [] e es rfl

/-- Epochs that only grow come from one bring-up: another one starts from one again. -/
theorem uniform_of_pairwise (h : CountFromOne es)
    (hpairs : es.Pairwise fun e e' => e.fb.decisionEpoch < e'.fb.decisionEpoch) : Uniform es := by
  induction es using List.reverseRecOn with
  | nil => exact ⟨nofun, by decide⟩
  | append_singleton es e ih =>
    obtain ⟨hold, -, hcross⟩ := List.pairwise_append.1 hpairs
    obtain ⟨hsame, hlen⟩ := ih (EachAfter.left h) hold
    rw [uniform_concat]
    cases es with
    | nil => exact ⟨nofun, by decide⟩
    | cons first es =>
      have hone : first.fb.decisionEpoch = 1#32 := CountFromOne.first (EachAfter.left h)
      have hlt : 1#32 < e.fb.decisionEpoch := by
        rw [← hone]
        exact hcross first List.mem_cons_self e (List.mem_singleton_self e)
      rw [EachAfter.last h] at hlt
      have hown : first.bringup = e.bringup := by
        by_contra hother
        have hnone : emissionsOf e.bringup (first :: es) = 0 := by
          refine List.countP_eq_zero.2 fun a ha => ?_
          rw [decide_eq_true_iff, hsame a ha first List.mem_cons_self]
          exact hother
        rw [hnone] at hlt
        exact absurd hlt (by decide)
      have hall : ∀ a ∈ first :: es, a.bringup = e.bringup := fun a ha =>
        (hsame a ha first List.mem_cons_self).trans hown
      refine ⟨hall, ?_⟩
      rw [emissionsOf_eq_length hall] at hlt
      by_contra hfull
      have hwrap : (first :: es).length + 1 = 2 ^ 32 := by omega
      rw [hwrap] at hlt
      exact absurd hlt (by decide)

theorem pairwise_of_uniform (h : CountFromOne es) (huniform : Uniform es) :
    es.Pairwise fun e e' => e.fb.decisionEpoch < e'.fb.decisionEpoch := by
  induction es using List.reverseRecOn with
  | nil => exact List.Pairwise.nil
  | append_singleton es e ih =>
    obtain ⟨hsame, hlen⟩ := uniform_concat.1 huniform
    refine List.pairwise_append.2 ⟨ih (EachAfter.left h) ?_, List.pairwise_singleton _ _, ?_⟩
    · exact ⟨fun a ha b hb => (hsame a ha).trans (hsame b hb).symm, by omega⟩
    intro a ha b hb
    obtain rfl := List.mem_singleton.1 hb
    obtain ⟨pre, post, rfl⟩ := List.append_of_mem ha
    rw [EachAfter.left h pre a post rfl, EachAfter.last h, emissionsOf_eq_length hsame]
    have hcount : emissionsOf a.bringup pre ≤ pre.length := List.countP_le_length
    rw [List.length_append, List.length_cons] at hlen ⊢
    rw [BitVec.lt_def, BitVec.toNat_ofNat, BitVec.toNat_ofNat]
    omega

end Lists

theorem freshEpochs_iff (E : Env σ) (es : List Emission) : FreshEpochs E es ↔
    es.Pairwise fun e e' => e.fb.decisionEpoch < e'.fb.decisionEpoch := by
  have hgeneration : ∀ e : Emission, e.generation E = fgwProcessGeneration (E.host 0) := by
    intro e
    rw [Emission.generation, fgwProcessGeneration, fgwProcessGeneration, E.one_process]
  unfold FreshEpochs
  constructor
  · intro h
    exact h.imp fun {e e'} hlt => hlt ((hgeneration e).trans (hgeneration e').symm)
  · intro h
    refine List.Pairwise.imp ?_ h
    intro e e' hlt _
    exact hlt

theorem freshEpochs_uniform {E : Env σ} {es : List Emission} (h : CountFromOne es) :
    FreshEpochs E es ↔ Uniform es :=
  (freshEpochs_iff E es).trans ⟨uniform_of_pairwise h, pairwise_of_uniform h⟩

theorem fgwProcessGeneration_ne_zero (H : Host) : fgwProcessGeneration H ≠ 0#32 := by
  unfold fgwProcessGeneration
  split
  · decide
  · assumption

theorem Hears.applied {R : Setting τ} {generation : ZceUint32} (hne : generation ≠ 0#32)
    {es : List Emission} {st : StreamState τ} (h : Hears R generation es st) (hnil : es = []) :
    st.heard = (0#32, generation) := by
  induction h with
  | meets hother hf =>
    rw [StreamState.heard, handleFrame_hello_arbiter hf, Arbiter.hello, if_pos ⟨hne, hother.symm⟩]
    rfl
  | hello _ hf ih =>
    have hheard := ih hnil
    have hsame : _ = generation := congrArg Prod.snd hheard
    rw [StreamState.heard, handleFrame_hello_arbiter hf, Arbiter.hello,
      if_neg fun hnew => hnew.2 hsame.symm]
    exact hheard
  | feedback e _ _ => exact absurd hnil (by simp)
  | copy _ hmem _ =>
    rw [hnil] at hmem
    exact absurd hmem List.not_mem_nil
  | plain _ hf ih =>
    rw [StreamState.heard, handleFrame_plain_arbiter hf]
    exact ih hnil
  | other _ hother ih =>
    rw [step_heard R _ hother]
    exact ih hnil

def Readable (R : Setting τ) (es : List Emission) : Prop :=
  ∀ e ∈ es, FeedbackFrame R e.fb e.frame ∧ e.fb.recommendedPrimary ≠ 0#32

theorem firstsApplied_of_uniform {E : Env σ} {R : Setting τ} {es : List Emission}
    (h : CountFromOne es) (hreadable : Readable R es) (huniform : Uniform es) :
    FirstsApplied E R es := by
  rintro pre e post rfl hfirst st hhears ch
  have hpre : pre = [] := List.eq_nil_iff_forall_not_mem.2 fun a ha =>
    hfirst a ha (huniform.1 a (List.mem_append_left _ ha) e (by simp))
  subst hpre
  obtain ⟨hframe, hrecommends⟩ := hreadable e List.mem_cons_self
  have happlied : st.arbiter.appliedEpoch = 0#32 :=
    congrArg Prod.fst (hhears.applied (fgwProcessGeneration_ne_zero _) rfl)
  refine (setsPrimary_iff hframe ch st).2 ⟨?_, hrecommends⟩
  rw [happlied, h.first]
  decide

section Runs

variable {E : Env σ} {R : Setting τ} {es : List Emission} {m : ZfgwMachine σ}

theorem run_ledger (hpacks : ∀ n fb, ∃ p, (E.setting n).zds.packFeedback 64 fb = some p)
    (h : Ledger es m) (hwhole : m.Whole) (ops : List (ZfgwMachine.Op σ)) :
    ∃ more, Ledger (es ++ more) (ZfgwMachine.run E m ops) := by
  induction ops generalizing es m with
  | nil => exact ⟨[], by rwa [List.append_nil]⟩
  | cons op ops ih =>
    by_cases hfeeds : Feeds m op
    · obtain ⟨e, -, -, -, -, -, -, -, hstep⟩ := h.step_feeds hfeeds hpacks
      obtain ⟨more, hmore⟩ := ih hstep (hwhole.step op)
      exact ⟨e :: more, by rwa [List.append_assoc, List.singleton_append] at hmore⟩
    · exact ih (h.step hwhole hfeeds) (hwhole.step op)

theorem uniform_iff (hpacks : ∀ n fb, ∃ p, (E.setting n).zds.packFeedback 64 fb = some p)
    (h : Ledger es m) (hwhole : m.Whole) (huniform : Uniform es) (ops : List (ZfgwMachine.Op σ)) :
    Uniform (ZfgwMachine.run E m ops).emitted ↔ AllFeedAlone E m ops := by
  induction ops generalizing es m with
  | nil => exact iff_of_true (h.emitted ▸ huniform) trivial
  | cons op ops ih =>
    rw [ZfgwMachine.run_cons, AllFeedAlone]
    by_cases hfeeds : Feeds m op
    · obtain ⟨e, -, -, hown, -, -, -, -, hstep⟩ := h.step_feeds hfeeds hpacks
      have hone : Uniform (es ++ [e]) ↔ FeedsAlone m := by
        rw [uniform_concat, FeedsAlone, h.emitted, hown]
      by_cases halone : FeedsAlone m
      · rw [ih hstep (hwhole.step op) (hone.2 halone)]
        exact ⟨fun hall => ⟨fun _ => halone, hall⟩, fun hall => hall.2⟩
      · refine iff_of_false (fun hend => halone (hone.1 ?_)) fun hall => halone (hall.1 hfeeds)
        -- what has been fed back twice stays in the books
        obtain ⟨more, hmore⟩ := run_ledger hpacks hstep (hwhole.step op) ops
        rw [hmore.emitted] at hend
        refine ⟨fun a ha b hb => hend.1 a (List.mem_append_left _ ha) b (List.mem_append_left _ hb), ?_⟩
        have hlen := hend.2
        rw [List.length_append] at hlen
        omega
    · rw [ih (h.step hwhole hfeeds) (hwhole.step op) huniform]
      exact ⟨fun hall => ⟨fun hf => absurd hf hfeeds, hall⟩, fun hall => hall.2⟩

theorem run_readable (hpacks : ∀ n fb, ∃ p, (E.setting n).zds.packFeedback 64 fb = some p)
    (hunpacks : ∀ n fb p, (E.setting n).zds.packFeedback 64 fb = some p →
      R.zds.unpackFeedback p = some fb)
    (h : Ledger es m) (hwhole : m.Whole) (hreadable : Readable R es)
    (ops : List (ZfgwMachine.Op σ)) : Readable R (ZfgwMachine.run E m ops).emitted := by
  induction ops generalizing es m with
  | nil => exact h.emitted ▸ hreadable
  | cons op ops ih =>
    by_cases hfeeds : Feeds m op
    · obtain ⟨e, hdr, payload, -, hrec, hframe, hflags, hpack, hstep⟩ := h.step_feeds hfeeds hpacks
      refine ih hstep (hwhole.step op) ?_
      intro a ha
      rcases List.mem_append.1 ha with ha | ha
      · exact hreadable a ha
      · obtain rfl := List.mem_singleton.1 ha
        have hlen : payload.length ≤ FgwSegmentHeader.MAX_PAYLOAD :=
          (ZdsCodec.packFeedback_length _ hpack).trans (by decide)
        rw [hframe]
        exact ⟨feedbackFrame_wireFrame (hunpacks _ _ _ hpack) hlen hflags, hrec⟩
    · exact ih (h.step hwhole hfeeds) (hwhole.step op) hreadable

end Runs

/-- The epochs of a process stay fresh, and the first feedback of each bring-up is applied, as long
as one bring-up sends all feedback and has epochs left. -/
theorem epochs_fresh_iff (E : Env σ) (R : Setting τ)
    (hpacks : ∀ n fb, ∃ p, (E.setting n).zds.packFeedback 64 fb = some p)
    (hunpacks : ∀ n fb p, (E.setting n).zds.packFeedback 64 fb = some p →
      R.zds.unpackFeedback p = some fb) (ops : List (ZfgwMachine.Op σ)) :
    (FreshEpochs E (ZfgwMachine.run E ZfgwMachine.init ops).emitted ∧
      FirstsApplied E R (ZfgwMachine.run E ZfgwMachine.init ops).emitted) ↔
        AllFeedAlone E ZfgwMachine.init ops := by
  have hinit : (ZfgwMachine.init : ZfgwMachine σ).Whole := Or.inr init_down
  obtain ⟨es, hes⟩ := run_ledger hpacks Ledger.init hinit ops
  have hcounts : CountFromOne (ZfgwMachine.run E ZfgwMachine.init ops).emitted :=
    hes.emitted ▸ hes.counts
  rw [← uniform_iff hpacks Ledger.init hinit ⟨nofun, by decide⟩, freshEpochs_uniform hcounts]
  refine and_iff_left_of_imp fun huniform => ?_
  exact firstsApplied_of_uniform hcounts
    (run_readable hpacks hunpacks Ledger.init hinit nofun ops) huniform

def peerHello : List ZceByte := [0x01#8]

def flatZds : ZdsCodec := ZdsCodec.flat [(peerHello, { channelId := 9#32, generation := 5#32 })]

def quietStream : Setting Unit :=
  Setting.quiet (FgwConfig.streamConfig {}) .empty flatZds

def quietEnv : Env Unit where
  host _ := Host.reusing fun _ => 0
  setting _ := quietStream
  owner _ := ()
  one_process _ := rfl

def linkedInport : FgwConfig :=
  { ingressId := 7#32
    channels := [{ channelId := 7#32 }]
    configVersion := kFgwConfigVersion }

def linkBeat : List (ZfgwMachine.Op Unit) :=
  [.link (.manager (.connected 7#32)),
    .link (.bytes 7#32 (wireFrame { flags := FgwSegmentHeader.FLAG_HELLO } peerHello ++
      wireFrame { flags := FgwSegmentHeader.FLAG_SYN, sessionId := 1#32 } [])),
    .link .heartbeat]

def oneBringup : List (ZfgwMachine.Op Unit) := [.mlfSetConfig linkedInport, .mlfStart 0#8 {}] ++ linkBeat

def twoBringups : List (ZfgwMachine.Op Unit) := oneBringup ++ [.mlfStart 1#8 {}] ++ linkBeat

example : (ZfgwMachine.run quietEnv .init twoBringups).emitted.map
    (fun e => (e.bringup, e.fb.decisionEpoch, e.fb.recommendedPrimary)) =
      [(1, 1#32, 9#32), (2, 1#32, 9#32)] := by decide +kernel

theorem quietEnv_packs (n : Nat) (fb : FgwLinkFeedback) :
    ∃ p, (quietEnv.setting n).zds.packFeedback 64 fb = some p := ⟨flatFeedback fb, rfl⟩

theorem quietEnv_unpacks (n : Nat) (fb : FgwLinkFeedback) (p : List ZceByte)
    (h : (quietEnv.setting n).zds.packFeedback 64 fb = some p) :
    quietStream.zds.unpackFeedback p = some fb := by
  obtain rfl := Option.some.inj h
  exact ZdsCodec.flat_unpackFeedback _ fb

def silentBringup : List (ZfgwMachine.Op Unit) :=
  [.mlfSetConfig linkedInport, .mlfStart 0#8 {}, .link (.manager (.connected 7#32)), .link .heartbeat,
    .mlfStart 1#8 {}] ++ linkBeat ++
  [.link (.manager (.closed 7#32)),
    .link (.manager (.timer (.reconnect { channelId := 7#32 } 60 0))),
    .link (.manager (.connected 7#32)), .link .heartbeat] ++ linkBeat.tail

example : (ZfgwMachine.run quietEnv .init silentBringup).emitted.map
    (fun e => (e.bringup, e.fb.decisionEpoch, e.fb.recommendedPrimary)) =
      [(2, 1#32, 9#32), (2, 2#32, 9#32)] := by decide +kernel

instance (m : ZfgwMachine σ) : Decidable (FeedsAlone m) := inferInstanceAs (Decidable (_ ∧ _))

theorem epochs_fresh_iff_silent_bringup :
    FreshEpochs quietEnv (ZfgwMachine.run quietEnv .init silentBringup).emitted ∧
      FirstsApplied quietEnv quietStream (ZfgwMachine.run quietEnv .init silentBringup).emitted := by
  refine (epochs_fresh_iff quietEnv quietStream quietEnv_packs quietEnv_unpacks silentBringup).2 ?_
  have halone : ∀ n ∈ [3, 7, 11, 13],
      FeedsAlone (ZfgwMachine.run quietEnv .init (silentBringup.take n)) := by decide +kernel
  exact ⟨nofun, nofun, nofun, fun _ => halone 3 (by decide), nofun, nofun, nofun,
    fun _ => halone 7 (by decide), nofun, nofun, nofun, fun _ => halone 11 (by decide), nofun,
    fun _ => halone 13 (by decide), trivial⟩

theorem epochs_not_fresh :
    ¬ ∀ ops : List (ZfgwMachine.Op Unit),
      FreshEpochs quietEnv (ZfgwMachine.run quietEnv .init ops).emitted ∧
        FirstsApplied quietEnv quietStream (ZfgwMachine.run quietEnv .init ops).emitted := by
  intro hclaim
  have hepochs : (ZfgwMachine.run quietEnv .init twoBringups).emitted.map
      (fun e => e.fb.decisionEpoch) = [1#32, 1#32] := by decide +kernel
  have hpairs := List.pairwise_map.2 ((freshEpochs_iff _ _).1 (hclaim twoBringups).1)
  rw [hepochs] at hpairs
  exact absurd hpairs (by decide)

end Libfgw
