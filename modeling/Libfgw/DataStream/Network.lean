import Libfgw.DataStream.Counted
import Libfgw.DataStream.Genuine
import Libfgw.DataStream.Isolation
import Libfgw.DataStream.SegmentLaws

namespace Libfgw

open FgwSegmentHeader Lib

variable {σ τ : Type}

def Emitted (sent : List Attempt) (f : List ZceByte) : Prop :=
  ∃ a ∈ sent, a.WentOut ∧ a.frame = f

def SentOut (sent : List Attempt) (key : SessionKey) (seq : ZceUint32) (p : List ZceByte) : Prop :=
  ∃ a ∈ numbered key sent, a.WentOut ∧ a.seq = seq ∧ a.payload = p

theorem mem_numbered {key : SessionKey} {sent : List Attempt} {a : Attempt} :
    a ∈ numbered key sent ↔ a ∈ sent ∧ a.key = key ∧ a.flags ≠ FLAG_SYN := by
  simp only [numbered, List.mem_filter, decide_eq_true_eq]

theorem SentOut.mono {sent sent' : List Attempt} (hsub : ∀ a ∈ sent, a ∈ sent') {key : SessionKey}
    {seq : ZceUint32} {p : List ZceByte} (h : SentOut sent key seq p) : SentOut sent' key seq p := by
  obtain ⟨a, ha, hrest⟩ := h
  obtain ⟨hmem, hown⟩ := mem_numbered.1 ha
  exact ⟨a, mem_numbered.2 ⟨hsub a hmem, hown⟩, hrest⟩

theorem handed_of_not_callee {key : SessionKey} {handler : Handler} {events : List Event}
    (h : ∀ e ∈ events, e.callee ≠ some handler) : handed key handler events = [] := by
  refine List.filterMap_eq_nil_iff.2 fun e he => ?_
  cases e with
  | sessionData key' handler' sid buf =>
    exact if_neg fun hown => h _ he (congrArg some hown.2)
  | _ => rfl

namespace DataStream

variable {S : Setting σ} {T : Setting τ} {known known' : SessionKey → Prop}
  {G G' : SessionKey → ZceUint32 → List ZceByte → Prop} {f : List ZceByte}

structure Brings (S : Setting σ) (known : SessionKey → Prop)
    (G : SessionKey → ZceUint32 → List ZceByte → Prop) (f : List ZceByte) : Prop where
  key : ∀ {hr hdr}, Segment S f hr hdr → known (frameKey hdr)
  data : ∀ {hr hdr}, Segment S f hr hdr → ∀ seq p,
    Carried hdr ((f.drop hr).take hdr.payloadLen.toNat) seq p → G (frameKey hdr) seq p ∧ p ≠ []

theorem Brings.of_passesOver (h : PassesOver S f) : Brings S known G f := by
  have hnot : ∀ {hr hdr}, ¬ Segment S f hr hdr := by
    intro hr hdr hsegment
    rcases h hr hdr hsegment.peek with ⟨hverify, hbad⟩ | hcontrol
    · exact hbad (hsegment.crc hverify)
    · rw [hsegment.session] at hcontrol
      cases hcontrol
  exact ⟨fun hsegment => (hnot hsegment).elim, fun hsegment => (hnot hsegment).elim⟩

theorem Segment.of_attempt {a : Attempt} {hr : Nat} {hdr : FgwSegmentHeader}
    (h : Segment S a.frame hr hdr) (hout : a.WentOut) (hfaithful : Faithful T a)
    (hlen : a.payload.length ≤ MAX_PAYLOAD) :
    hdr = segmentDecoded T a.key a.seq a.flags a.payload ∧
      (a.frame.drop hr).take hdr.payloadLen.toNat = a.payload := by
  have hframe := hfaithful.frame_eq hout
  have hpeek := h.peek
  rw [hframe, peek_segmentFrame T a.key a.seq a.flags a.payload hlen] at hpeek
  obtain ⟨rfl, rfl⟩ := PeekResult.header.inj hpeek
  have hpay := wireFrame_drop_header
    (segmentHeader T a.key.1 a.key.2 a.seq a.flags a.payload.length) a.payload []
  rw [List.append_nil] at hpay
  exact ⟨rfl, by rw [hframe, payloadLen_segmentDecoded T a.key a.seq a.flags a.payload hlen,
    segmentFrame, hpay]⟩

theorem Brings.of_emitted {sent : List Attempt}
    (hlogged : ∀ {a}, a ∈ sent → Faithful T a ∧ a.payload.length ≤ MAX_PAYLOAD)
    (h : Emitted sent f) : Brings S (fun key => ∃ a ∈ sent, a.key = key) (SentOut sent) f := by
  obtain ⟨a, ha, hout, rfl⟩ := h
  obtain ⟨hfaithful, hlen⟩ := hlogged ha
  constructor
  · intro hr hdr hsegment
    obtain ⟨rfl, -⟩ := hsegment.of_attempt hout hfaithful hlen
    rw [frameKey_segmentDecoded]
    exact ⟨a, ha, rfl⟩
  · rintro hr hdr hsegment seq p ⟨hcarries, -, rfl, rfl⟩
    obtain ⟨rfl, hpay⟩ := hsegment.of_attempt hout hfaithful hlen
    rw [carriesData, Bool.and_eq_true, isData_segmentDecoded, decide_eq_true_eq,
      payloadLen_segmentDecoded T a.key a.seq a.flags a.payload hlen] at hcarries
    rw [hpay, frameKey_segmentDecoded, seqNum_segmentDecoded]
    refine ⟨⟨a, mem_numbered.2 ⟨ha, rfl, fun hsyn => ?_⟩, hout, rfl, rfl⟩,
      List.length_pos_iff.1 hcarries.2⟩
    rw [hsyn] at hcarries
    exact absurd hcarries.1 (by decide)

theorem Brings.mono (h : Brings S known G f) (hknown : ∀ key, known key → known' key)
    (hG : ∀ {key seq p}, G key seq p → G' key seq p) : Brings S known' G' f where
  key hsegment := hknown _ (h.key hsegment)
  data hsegment seq p hcarried := (h.data hsegment seq p hcarried).imp_left hG

theorem arrivals_invariant {P : StreamState σ → Prop} (ch : ChannelRef)
    (hjudges : ∀ {st st'}, JudgesOnly st st' → P st → P st')
    (hmove : ∀ {key data}, known key → (∀ seq p, data seq p → G key seq p ∧ p ≠ []) →
      ∀ {st st'}, Move S key data st st' → P st → P st')
    {fs : List (List ZceByte)} (hfs : ∀ f ∈ fs, Brings S known G f) {st : StreamState σ} (h : P st) :
    P (fs.foldl (handleFrame S ch) st) := by
  induction fs generalizing st with
  | nil => exact h
  | cons f fs ih =>
    obtain ⟨hf, hfs⟩ := List.forall_mem_cons.1 hfs
    exact ih hfs (handleFrame_invariant ch hjudges
      (fun hsegment _ _ hstep hst => hmove (hf.key hsegment) (hf.data hsegment) hstep hst) h)

section Log

variable {st st' : StreamState σ}

theorem calls_sent (hkeyed : Keyed S st) (cs : List Call) : st.sent <+: (cs.foldl (call S) st).sent := by
  induction cs generalizing st with
  | nil => exact List.prefix_refl _
  | cons c cs ih =>
    obtain ⟨as, hspec⟩ := call_spec hkeyed c
    exact (hspec.sent ▸ List.prefix_append _ _).trans (ih (hkeyed.call c))

theorem notify_sent (hkeyed : Keyed S st) (e : Event) : st.sent <+: (notify S e st).sent := by
  have hkeyed' : Keyed S { st.logEvent e with owner := (S.onEvent st.owner e).1 } :=
    hkeyed.of_eq rfl rfl
  exact calls_sent hkeyed' (S.onEvent st.owner e).2

theorem handOut_sent (hkeyed : Keyed S st) (key : SessionKey) (handler : Handler) (sid : ZceUint32)
    (blks : List (List ZceByte)) : st.sent <+: (handOut S key handler sid blks st).sent := by
  induction blks generalizing st with
  | nil => exact List.prefix_refl _
  | cons blk blks ih =>
    rw [handOut_cons]
    split
    · exact (notify_sent hkeyed _).trans (ih (hkeyed.notify _))
    · exact ih hkeyed

theorem move_sent {key : SessionKey} {data : ZceUint32 → List ZceByte → Prop} (hkeyed : Keyed S st)
    (hmove : Move S key data st st') : st.sent <+: st'.sent := by
  cases hmove with
  | judged hjudges => rw [hjudges.sent]
  | recorded dk => exact List.prefix_refl _
  | created hnone =>
    unfold createSession
    split <;> exact List.prefix_refl _
  | opened hs hhandler => exact notify_sent hkeyed _
  | closed hs hhandler => exact notify_sent hkeyed _
  | dropped hs hhandler => exact List.prefix_refl _
  | kept hs hbuffer => exact List.prefix_refl _
  | delivered hs hhandler => exact handOut_sent (hkeyed.collected hs _) _ _ _ _

theorem frames_sent (hkeyed : Keyed S st) (ch : ChannelRef) (fs : List (List ZceByte)) :
    st.sent <+: (fs.foldl (handleFrame S ch) st).sent := by
  induction fs generalizing st with
  | nil => exact List.prefix_refl _
  | cons f fs ih =>
    obtain ⟨hkeyed', hsent⟩ := handleFrame_invariant
      (P := fun st' => Keyed S st' ∧ st.sent <+: st'.sent) ch
      (fun hjudges hst => ⟨hst.1.of_eq hjudges.sessions hjudges.sent, by rw [hjudges.sent]; exact hst.2⟩)
      (fun _ _ _ hmove hst => ⟨hst.1.move hmove, hst.2.trans (move_sent hst.1 hmove)⟩)
      (f := f) ⟨hkeyed, List.prefix_refl _⟩
    exact hsent.trans (ih hkeyed')

end Log

end DataStream

end Libfgw
