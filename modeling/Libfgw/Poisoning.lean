import Libfgw.Callbacks
import Libfgw.DataStream.Births
import Libfgw.WrapAround

namespace Libfgw

open FgwSegmentHeader Lib DataStream

variable {σ : Type}

def Delivery.HandsOn (d : Delivery σ) (n : ZceUint32) : Prop :=
  ∃ v i, d.state.rxView d.key = some v ∧ 0 < i ∧ i ≤ d.blks.length ∧
    n + BitVec.ofNat 32 i = v.expected

namespace DataStream

variable {S : Setting σ} {key : SessionKey} {n : ZceUint32} {M : ZceUint32 → Prop}
  {tr tr' : List (StreamState σ × List ZceByte)} {st st' st'' : StreamState σ}

def Attends (S : Setting σ) (key : SessionKey) (st : StreamState σ) : Prop :=
  match st.sessions key with
  | some s => s.handler.isSome = true
  | none => ∃ cb, S.unknownCb = some cb ∧ (cb st.owner key).2.isSome = true

def Kept (S : Setting σ) (key : SessionKey) (n : ZceUint32) (tr : List (StreamState σ × List ZceByte))
    (st : StreamState σ) : Prop :=
  (∃ v p, st.rxView key = some v ∧ v.buffer.find? n = some p) ∨
    ∃ p ∈ tr, ∃ ch d, delivery S ch p.1 p.2 = some d ∧ d.key = key ∧ d.HandsOn n ∧
      births key d.state = births key st

def Accounted (S : Setting σ) (key : SessionKey) (M : ZceUint32 → Prop)
    (tr : List (StreamState σ × List ZceByte)) (st : StreamState σ) : Prop :=
  ∀ n, M n → ∀ v, st.rxView key = some v → v.handler.isSome = true → Kept S key n tr st

/-- Whatever data segment the dedup table remembers of a session with a handler has been kept. -/
def Unpoisoned (S : Setting σ) (tr : List (StreamState σ × List ZceByte)) (st : StreamState σ) : Prop :=
  ∀ key, Accounted S key (fun n => st.dedup.map (dataKey key n) = true) tr st

def Keeps (M : ZceUint32 → Prop) (key : SessionKey) (st st' : StreamState σ) : Prop :=
  (st'.rxView key = st.rxView key ∧ births key st' = births key st) ∨
    ((∃ n, M n) → ∀ v, st'.rxView key = some v → v.handler = none)

theorem Keeps.refl (M : ZceUint32 → Prop) (key : SessionKey) (st : StreamState σ) :
    Keeps M key st st := Or.inl ⟨rfl, rfl⟩

theorem Keeps.trans (h : Keeps M key st st') (h' : Keeps M key st' st'') : Keeps M key st st'' := by
  rcases h' with ⟨hview', hbirths'⟩ | hvoid'
  · rcases h with ⟨hview, hbirths⟩ | hvoid
    · exact Or.inl ⟨hview'.trans hview, hbirths'.trans hbirths⟩
    · exact Or.inr fun hM v hv => hvoid hM v (hview' ▸ hv)
  · exact Or.inr hvoid'

theorem Keeps.gone (h : st'.rxView key = none) : Keeps M key st st' :=
  Or.inr fun _ v hv => by rw [h] at hv; cases hv

theorem Kept.of_same (hview : st'.rxView key = st.rxView key)
    (hbirths : births key st' = births key st) (h : Kept S key n tr st) : Kept S key n tr st' := by
  rcases h with ⟨v, p, hv, hp⟩ | ⟨p, hp, ch, d, hd, hkey, hon, hb⟩
  · exact Or.inl ⟨v, p, hview.trans hv, hp⟩
  · exact Or.inr ⟨p, hp, ch, d, hd, hkey, hon, hb.trans hbirths.symm⟩

theorem Kept.append (h : Kept S key n tr st) (tr' : List (StreamState σ × List ZceByte)) :
    Kept S key n (tr ++ tr') st := by
  rcases h with hbuf | ⟨p, hp, hrest⟩
  · exact Or.inl hbuf
  · exact Or.inr ⟨p, List.mem_append_left _ hp, hrest⟩

theorem Accounted.keeps (h : Accounted S key M tr st) (hk : Keeps M key st st') :
    Accounted S key M tr st' := by
  intro n hn v hv hhandler
  rcases hk with ⟨hview, hbirths⟩ | hvoid
  · exact (h n hn v (hview ▸ hv) hhandler).of_same hview hbirths
  · rw [hvoid ⟨n, hn⟩ v hv] at hhandler
    cases hhandler

theorem Accounted.append (h : Accounted S key M tr st) (tr' : List (StreamState σ × List ZceByte)) :
    Accounted S key M (tr ++ tr') st :=
  fun n hn v hv hhandler => (h n hn v hv hhandler).append tr'

def Guarded (S : Setting σ) (key : SessionKey) (M : ZceUint32 → Prop) (e : Event) : Prop :=
  ∀ o, ∀ c ∈ (S.onEvent o e).2, ∀ handler, Opens S key (some handler) c → ∀ n, ¬ M n

theorem keeps_fresh {handler : Option Handler}
    (hview : st'.rxView key = some (RxView.fresh handler))
    (h : handler.isSome = true → ∀ n, ¬ M n) : Keeps M key st st' := by
  refine Or.inr fun ⟨n, hn⟩ v hv => ?_
  rw [hview] at hv
  cases hv
  cases handler with
  | none => rfl
  | some handler => exact absurd hn (h rfl n)

theorem call_keeps {c : Call}
    (h : st.rxView key = none → ∀ handler, Opens S key (some handler) c → ∀ n, ¬ M n) :
    Keeps M key st (call S st c) := by
  have hopen : st.rxView key = none → ∀ handler, Opens S key handler c → handler.isSome = true →
      ∀ n, ¬ M n := by
    intro hnone handler hopens hsome
    obtain ⟨x, rfl⟩ := Option.isSome_iff_exists.1 hsome
    exact h hnone x hopens
  rcases call_views key st c with hsame | ⟨-, hgone⟩ | ⟨handler, hopens, hnone, hfresh⟩
  · rcases call_births (S := S) key st c with hbirths | ⟨handler, hopens, hnone, hfresh⟩
    · exact Or.inl ⟨hsame, hbirths⟩
    · exact keeps_fresh hfresh (hopen hnone handler hopens)
  · exact Keeps.gone hgone
  · exact keeps_fresh hfresh (hopen hnone handler hopens)

theorem calls_keep {cs : List Call}
    (h : ∀ c ∈ cs, ∀ handler, Opens S key (some handler) c → ∀ n, ¬ M n) (st : StreamState σ) :
    Keeps M key st (cs.foldl (call S) st) := by
  induction cs generalizing st with
  | nil => exact Keeps.refl M key st
  | cons c cs ih =>
    obtain ⟨hc, hcs⟩ := List.forall_mem_cons.1 h
    exact (call_keeps fun _ => hc).trans (ih hcs _)

theorem notify_keeps {e : Event} (h : Guarded S key M e) (he : relays key [e] = [])
    (st : StreamState σ) : Keeps M key st (notify S e st) := by
  refine Keeps.trans (Or.inl ⟨?_, ?_⟩) (calls_keep (h st.owner) _)
  · rfl
  · exact births_logEvent he st

theorem handOut_keeps {key' : SessionKey} {handler : Handler} {sid : ZceUint32}
    (h : ∀ blk, Guarded S key M (.sessionData key' handler sid blk)) (blks : List (List ZceByte))
    (st : StreamState σ) : Keeps M key st (handOut S key' handler sid blks st) := by
  induction blks generalizing st with
  | nil => exact Keeps.refl M key st
  | cons blk blks ih =>
    rw [handOut_cons]
    refine Keeps.trans ?_ (ih _)
    split
    · exact notify_keeps (h blk) rfl st
    · exact Keeps.refl M key st

def GuardedFor (S : Setting σ) (key key' : SessionKey) (M : ZceUint32 → Prop) : Prop :=
  ∀ e : Event, e.key = key' → Guarded S key M e

theorem setSession_keeps {key' : SessionKey} (h : key' ≠ key) (st : StreamState σ) (s : SessionState) :
    Keeps M key st (st.setSession key' s) :=
  Or.inl ⟨by rw [rxView_setSession, if_neg h.symm], rfl⟩

theorem eraseSession_keeps (key' : SessionKey) (st : StreamState σ) :
    Keeps M key st (st.eraseSession key') := by
  by_cases h : key = key'
  · exact Keeps.gone (by rw [rxView_eraseSession, if_pos h])
  · exact Or.inl ⟨by rw [rxView_eraseSession, if_neg h], rfl⟩

theorem onSyn_keeps {key' : SessionKey} (hguard : GuardedFor S key key' M) {st : StreamState σ}
    (hens : Keeps M key st (ensureSession S key' st)) : Keeps M key st (onSyn S key' st) := by
  refine hens.trans ?_
  simp only [onSyn]
  split
  · exact Keeps.refl M key _
  · exact notify_keeps (hguard _ rfl) rfl _

theorem onFin_keeps {key' : SessionKey} (hguard : GuardedFor S key key' M) (st : StreamState σ) :
    Keeps M key st (onFin S key' st) := by
  unfold onFin
  split
  · exact Keeps.refl M key st
  · split
    · exact eraseSession_keeps key' st
    · exact (notify_keeps (hguard _ rfl) rfl st).trans (eraseSession_keeps key' _)

theorem ensureSession_keeps {key' : SessionKey} (h : key' ≠ key) (st : StreamState σ) :
    Keeps M key st (ensureSession S key' st) :=
  Or.inl ⟨ensureSession_view_of_ne h st, ensureSession_births h st⟩

theorem deliverInOrder_keeps {key' : SessionKey} (hguard : GuardedFor S key key' M) {s : SessionState}
    {handler : Handler} (hhandler : s.handler = some handler) (st : StreamState σ) :
    Keeps M key (st.setSession key' (collectReady s.rxBuffer.size s).2)
      (deliverInOrder S key' s st) := by
  simp only [deliverInOrder, hhandler]
  exact handOut_keeps (fun blk => hguard _ rfl) _ _

theorem onData_keeps {key' : SessionKey} (hkey : key' ≠ key) (hguard : GuardedFor S key key' M)
    (seq : ZceUint32) (payload : List ZceByte) (st : StreamState σ) :
    Keeps M key st (onData S key' seq payload st) := by
  refine (ensureSession_keeps (S := S) hkey st).trans ?_
  simp only [onData]
  split
  · exact Keeps.refl M key _
  · rename_i s hs
    generalize (if (S.mbacquire (ensureSession S key' st).clock payload.length).length ≥
      payload.length then { s with rxBuffer := s.rxBuffer.emplace seq payload } else s) = s'
    have hset : Keeps M key (ensureSession S key' st)
        ({ ensureSession S key' st with clock := (ensureSession S key' st).clock + 1 }.setSession key'
          s') := Keeps.trans (Or.inl ⟨rfl, rfl⟩) (setSession_keeps hkey _ s')
    refine hset.trans ?_
    cases hhandler : s'.handler with
    | none =>
      simp only [deliverInOrder, hhandler]
      exact Keeps.refl M key _
    | some handler =>
      exact (setSession_keeps hkey _ _).trans (deliverInOrder_keeps hguard hhandler _)

theorem acceptSegment_keeps {key' : SessionKey} (hkey : key' ≠ key) (hguard : GuardedFor S key key' M)
    (hdr : FgwSegmentHeader) (payload : List ZceByte) (st : StreamState σ) :
    Keeps M key st (acceptSegment S key' hdr payload st) := by
  have hsyn : Keeps M key st (if hdr.isSyn then onSyn S key' st else st) := by
    split
    · exact onSyn_keeps hguard (ensureSession_keeps hkey st)
    · exact Keeps.refl M key st
  refine hsyn.trans ?_
  unfold acceptSegment
  dsimp only
  generalize (if hdr.isSyn then onSyn S key' st else st) = st₁
  split
  · exact onFin_keeps hguard st₁
  split
  · exact onData_keeps hkey hguard _ _ st₁
  · exact Keeps.refl M key st₁

theorem collectReady_expected (fuel : Nat) (s : SessionState) :
    (collectReady fuel s).2.expectedRxSeq =
      s.expectedRxSeq + BitVec.ofNat 32 (collectReady fuel s).1.length := by
  induction fuel generalizing s with
  | zero => exact (BitVec.add_zero _).symm
  | succ fuel ih =>
    simp only [collectReady]
    split
    · exact (BitVec.add_zero _).symm
    · split
      · exact (BitVec.add_zero _).symm
      · exact (ih _).trans (add_succ s.expectedRxSeq _).symm

theorem collectReady_taken {fuel : Nat} {s : SessionState} {x : ZceUint32} {p : List ZceByte}
    (h : s.rxBuffer.find? x = some p) :
    (collectReady fuel s).2.rxBuffer.find? x = some p ∨
      ∃ i, 0 < i ∧ i ≤ (collectReady fuel s).1.length ∧
        x + BitVec.ofNat 32 i = (collectReady fuel s).2.expectedRxSeq := by
  induction fuel generalizing s with
  | zero => exact Or.inl h
  | succ fuel ih =>
    simp only [collectReady]
    split
    · exact Or.inl h
    · rename_i seq blk hbegin
      split
      · exact Or.inl h
      · rename_i hseq
        by_cases hx : x = seq
        · refine Or.inr ⟨_, Nat.succ_pos _, Nat.le_refl _, ?_⟩
          rw [collectReady_expected, Nat.succ_eq_add_one, add_succ, hx, not_not.1 hseq]
        · have herased : s.rxBuffer.eraseBegin.find? x = some p := by
            rw [SortedMap.find?_eraseBegin hbegin, if_neg hx, h]
          rcases @ih { s with
            rxBuffer := s.rxBuffer.eraseBegin, expectedRxSeq := s.expectedRxSeq + 1#32 } herased with
            hleft | ⟨i, hpos, hle, heq⟩
          · exact Or.inl hleft
          · exact Or.inr ⟨i, hpos, Nat.le_succ_of_le hle, heq⟩

theorem attends_of_ensureSession {s : SessionState}
    (hs : (ensureSession S key st).sessions key = some s) (hhandler : s.handler.isSome = true) :
    Attends S key st := by
  unfold Attends
  cases hold : st.sessions key with
  | some s' =>
    have hens : ensureSession S key st = st := if_pos (by rw [hold]; rfl)
    rw [hens, hold] at hs
    exact Option.some.inj hs ▸ hhandler
  | none =>
    have hens : ensureSession S key st = createSession S key st := if_neg (by rw [hold]; simp)
    rw [hens] at hs
    unfold createSession at hs
    cases hcb : S.unknownCb with
    | none =>
      simp only [hcb, StreamState.setSession, Function.update_self] at hs
      rw [← Option.some.inj hs] at hhandler
      cases hhandler
    | some cb =>
      simp only [hcb, StreamState.setSession, Function.update_self] at hs
      rw [← Option.some.inj hs] at hhandler
      exact ⟨cb, rfl, hhandler⟩

theorem ensureSession_keeps_self
    (hcreate : st.sessions key = none → Attends S key st → ∀ n, ¬ M n) :
    Keeps M key st (ensureSession S key st) := by
  by_cases hold : (st.sessions key).isSome
  · have hens : ensureSession S key st = st := if_pos hold
    rw [hens]
    exact Keeps.refl M key st
  · have hnone : st.sessions key = none := Option.not_isSome_iff_eq_none.1 hold
    obtain ⟨s, hs⟩ := Option.isSome_iff_exists.1 (ensureSession_isSome S key st)
    refine Or.inr fun ⟨n, hn⟩ v hv => ?_
    rw [StreamState.rxView, hs] at hv
    obtain rfl := Option.some.inj hv
    by_contra hhandler
    exact hcreate hnone (attends_of_ensureSession hs (Option.isSome_iff_ne_none.2 hhandler)) n hn

@[simp] theorem ensureSession_clock (key : SessionKey) (st : StreamState σ) :
    (ensureSession S key st).clock = st.clock := by
  unfold ensureSession createSession
  split
  · rfl
  · split <;> rfl

theorem onData_accounted {M' : ZceUint32 → Prop} {seq : ZceUint32} {payload : List ZceByte}
    {p : StreamState σ × List ZceByte} (ch : ChannelRef)
    (hguard : GuardedFor S key key M') (h : Accounted S key M tr st)
    (hcreate : st.sessions key = none → Attends S key st → ∀ n, ¬ M n)
    (hM : ∀ m, M' m → M m ∨ (m = seq ∧
      (Attends S key st → payload.length ≤ (S.mbacquire st.clock payload.length).length)))
    (hdel : delivery S ch p.1 p.2 = deliveryOnData S key seq payload st) :
    Accounted S key M' (tr ++ [p]) (onData S key seq payload st) := by
  have hens := h.keeps (ensureSession_keeps_self hcreate)
  obtain ⟨s, hs⟩ := Option.isSome_iff_exists.1 (ensureSession_isSome S key st)
  simp only [deliveryOnData, hs, Option.bind_some] at hdel
  simp only [onData, hs]
  set s' : SessionState :=
    if (S.mbacquire (ensureSession S key st).clock payload.length).length ≥ payload.length then
      { s with rxBuffer := s.rxBuffer.emplace seq payload } else s with hs'
  have hsame : s'.handler = s.handler := by
    rw [hs']
    split <;> rfl
  generalize hX : ({ ensureSession S key st with
    clock := (ensureSession S key st).clock + 1 } : StreamState σ).setSession key s' = X at hdel ⊢
  have hXbirths : births key X = births key (ensureSession S key st) := by
    rw [← hX]
    rfl
  cases hhandler : s.handler with
  | none =>
    have hview : X.rxView key = some s'.rxView := by rw [← hX, rxView_setSession, if_pos rfl]
    simp only [deliverInOrder, hsame, hhandler]
    intro n _ v hv hsome
    rw [hview] at hv
    obtain rfl := Option.some.inj hv
    rw [show s'.rxView.handler = none from hsame.trans hhandler] at hsome
    cases hsome
  | some handler =>
    have hhandler' : s'.handler = some handler := hsame.trans hhandler
    have hattends : Attends S key st := attends_of_ensureSession hs (by rw [hhandler]; rfl)
    refine Accounted.keeps ?_ (deliverInOrder_keeps hguard hhandler' X)
    intro m hm v hv _
    rw [rxView_setSession, if_pos rfl] at hv
    have hbuffered : (∃ q, s'.rxBuffer.find? m = some q) ∨ ∃ p ∈ tr, ∃ ch d,
        delivery S ch p.1 p.2 = some d ∧ d.key = key ∧ d.HandsOn m ∧
          births key d.state = births key (ensureSession S key st) := by
      rcases hM m hm with hold | ⟨rfl, hacq⟩
      · have hview : (ensureSession S key st).rxView key = some s.rxView := by
          rw [StreamState.rxView, hs, Option.map_some]
        rcases hens m hold s.rxView hview (by rw [SessionState.rxView, hhandler]; rfl) with
          ⟨v', q, hv', hq⟩ | hon
        · rw [hview] at hv'
          obtain rfl := Option.some.inj hv'
          refine Or.inl ?_
          rw [hs']
          split
          · rw [SortedMap.find?_emplace]
            split
            · exact ⟨_, rfl⟩
            · exact ⟨q, hq⟩
          · exact ⟨q, hq⟩
        · exact Or.inr hon
      · refine Or.inl ?_
        rw [hs', ensureSession_clock, if_pos (hacq hattends), SortedMap.find?_emplace, if_pos rfl]
        exact ⟨_, rfl⟩
    rcases hbuffered with ⟨q, hq⟩ | ⟨p', hp', ch', d, hd, hkey, hon, hb⟩
    · let d : Delivery σ :=
        { key := key
          handler := handler
          sessionId := s'.sessionId
          blks := (collectReady s'.rxBuffer.size s').1
          state := X.setSession key (collectReady s'.rxBuffer.size s').2 }
      have hd : delivery S ch p.1 p.2 = some d := by
        rw [hdel, deliveryOf, hhandler', Option.map_some]
      have hdview : d.state.rxView key = some (collectReady s'.rxBuffer.size s').2.rxView := by
        rw [rxView_setSession, if_pos rfl]
      rcases @collectReady_taken s'.rxBuffer.size s' m q hq with hleft | ⟨i, hpos, hle, heq⟩
      · exact Or.inl ⟨_, q, hdview, hleft⟩
      · exact Or.inr ⟨p, List.mem_append_right _ (List.mem_singleton_self p), ch, d, hd, rfl,
          ⟨_, i, hdview, hpos, hle, heq⟩, rfl⟩
    · exact Or.inr ⟨p', List.mem_append_left _ hp', ch', d, hd, hkey, hon, hb.trans hXbirths.symm⟩

/-- A segment whose key goes into the dedup table does no harm.  Of a session with a handler, a data
key is recorded for data that is kept; an entry with a handler is created only when the table
remembers no data of the session; and no callback opens a session that the table remembers. -/
structure HarmlessSegment (S : Setting σ) (hdr : FgwSegmentHeader) (payload : List ZceByte)
    (st : StreamState σ) : Prop where
  carries : hdr.isSyn = false → hdr.isFin = false → carriesData hdr = false →
    ∀ s, st.sessions (frameKey hdr) = some s → s.handler = none
  acquires : hdr.isSyn = false → hdr.isFin = false → carriesData hdr = true →
    Attends S (frameKey hdr) st →
    payload.length ≤ (S.mbacquire st.clock payload.length).length
  creates : hdr.isFin = false → hdr.isSyn = true ∨ carriesData hdr = true →
    st.sessions (frameKey hdr) = none → Attends S (frameKey hdr) st →
    ∀ n, st.dedup.map (dataKey (frameKey hdr) n) = false
  opens : ∀ o e, e.key = frameKey hdr → ∀ c ∈ (S.onEvent o e).2, ∀ key handler,
    Opens S key (some handler) c →
    ∀ n, (st.dedup.record kDedupRing (dedupKey (frameKey hdr).1 hdr)).map (dataKey key n) = false

theorem dedupKey_eq_dataKey {hdr : FgwSegmentHeader}
    (h : dataKey key n = dedupKey (frameKey hdr).1 hdr) :
    key = frameKey hdr ∧ n = hdr.seqNum ∧ hdr.isSyn = false ∧ hdr.isFin = false := by
  have hkind : SegmentKind.data = if hdr.isSyn then .syn else if hdr.isFin then .fin else .data :=
    congrArg DedupKey.kind h
  refine ⟨Prod.ext (congrArg DedupKey.ingress h) (congrArg DedupKey.session h),
    congrArg DedupKey.seq h, ?_⟩
  cases hsyn : hdr.isSyn with
  | true => rw [hsyn, if_pos rfl] at hkind; cases hkind
  | false =>
    cases hfin : hdr.isFin with
    | true => rw [hsyn, hfin, if_neg Bool.false_ne_true, if_pos rfl] at hkind; cases hkind
    | false => exact ⟨rfl, rfl⟩

@[simp] theorem admitted_owner (ch : ChannelRef) (dk : DedupKey) (st : StreamState σ) :
    (admitted ch dk st).owner = st.owner := (noteWinner_judgesOnly ch _).owner

@[simp] theorem admitted_clock (ch : ChannelRef) (dk : DedupKey) (st : StreamState σ) :
    (admitted ch dk st).clock = st.clock := by
  unfold admitted noteWinner
  split <;> rfl

theorem admitted_sent (ch : ChannelRef) (dk : DedupKey) (st : StreamState σ) :
    (admitted ch dk st).sent = st.sent := (noteWinner_judgesOnly ch _).sent

theorem admitted_attends (ch : ChannelRef) (dk : DedupKey) (st : StreamState σ) :
    Attends S key (admitted ch dk st) ↔ Attends S key st := by
  simp only [Attends, admitted_sessions, admitted_owner]

def Recorded (key : SessionKey) (hdr : FgwSegmentHeader) (st : StreamState σ) (n : ZceUint32) : Prop :=
  (st.dedup.record kDedupRing (dedupKey (frameKey hdr).1 hdr)).map (dataKey key n) = true

theorem recorded_imp {hdr : FgwSegmentHeader} (h : Recorded key hdr st n) :
    st.dedup.map (dataKey key n) = true ∨
      (key = frameKey hdr ∧ n = hdr.seqNum ∧ hdr.isSyn = false ∧ hdr.isFin = false) := by
  rcases KeyRing.map_record_imp h with hown | hold
  · exact Or.inr (dedupKey_eq_dataKey hown)
  · exact Or.inl hold

theorem HarmlessSegment.guarded {hdr : FgwSegmentHeader} {payload : List ZceByte}
    (h : HarmlessSegment S hdr payload st) (key : SessionKey) :
    GuardedFor S key (frameKey hdr) (Recorded key hdr st) := by
  intro e he o c hc handler hopens n hn
  rw [Recorded, h.opens o e he c hc key handler hopens n] at hn
  cases hn

theorem recorded_of_isSyn {hdr : FgwSegmentHeader} (hsyn : hdr.isSyn = true)
    (h : Recorded key hdr st n) : st.dedup.map (dataKey key n) = true := by
  rcases recorded_imp h with hold | ⟨-, -, hnot, -⟩
  · exact hold
  · rw [hsyn] at hnot
    cases hnot

theorem onSyn_accounted {hdr : FgwSegmentHeader} {payload : List ZceByte}
    (hharmless : HarmlessSegment S hdr payload st) (hfin : hdr.isFin = false)
    (hsyn : hdr.isSyn = true) {st₁ : StreamState σ}
    (hnone : st₁.sessions (frameKey hdr) = none ↔ st.sessions (frameKey hdr) = none)
    (hattends : Attends S (frameKey hdr) st₁ ↔ Attends S (frameKey hdr) st)
    (h : Accounted S (frameKey hdr) (fun n => st.dedup.map (dataKey (frameKey hdr) n) = true) tr st₁) :
    Accounted S (frameKey hdr) (Recorded (frameKey hdr) hdr st) tr (onSyn S (frameKey hdr) st₁) := by
  have hens : Keeps (Recorded (frameKey hdr) hdr st) (frameKey hdr) st₁
      (ensureSession S (frameKey hdr) st₁) := by
    refine ensureSession_keeps_self fun hno hatt n hn => ?_
    have hmap := recorded_of_isSyn hsyn hn
    rw [hharmless.creates hfin (Or.inl hsyn) (hnone.1 hno) (hattends.1 hatt) n] at hmap
    cases hmap
  exact Accounted.keeps (fun n hn => h n (recorded_of_isSyn hsyn hn))
    (onSyn_keeps (hharmless.guarded _) hens)

theorem onSyn_present (hopen : OpenKeeps S) (st : StreamState σ) :
    (onSyn S key st).sessions key ≠ none := by
  intro hgone
  obtain ⟨s, hs⟩ := Option.isSome_iff_exists.1 (ensureSession_isSome S key st)
  have hview : (onSyn S key st).rxView key = (ensureSession S key st).rxView key := onSyn_view hopen st
  rw [rxView_eq_none.2 hgone, StreamState.rxView, hs] at hview
  cases hview

theorem acceptSegment_accounted (hopen : OpenKeeps S) {hdr : FgwSegmentHeader}
    {payload : List ZceByte} (hharmless : HarmlessSegment S hdr payload st) {ch : ChannelRef}
    {f : List ZceByte}
    (hdel : hdr.isFin = false → carriesData hdr = true → delivery S ch st f =
      deliveryOnData S (frameKey hdr) hdr.seqNum payload
        (if hdr.isSyn then onSyn S (frameKey hdr) (admitted ch (dedupKey (frameKey hdr).1 hdr) st)
          else admitted ch (dedupKey (frameKey hdr).1 hdr) st))
    (h : Accounted S (frameKey hdr) (fun n => st.dedup.map (dataKey (frameKey hdr) n) = true) tr
      (admitted ch (dedupKey (frameKey hdr).1 hdr) st)) :
    Accounted S (frameKey hdr) (Recorded (frameKey hdr) hdr st) (tr ++ [(st, f)])
      (acceptSegment S (frameKey hdr) hdr payload (admitted ch (dedupKey (frameKey hdr).1 hdr) st)) := by
  set key := frameKey hdr with hkey
  set st₁ := admitted ch (dedupKey key.1 hdr) st with hst₁
  have hguard := hharmless.guarded key
  have hnone : st₁.sessions key = none ↔ st.sessions key = none := by rw [hst₁, admitted_sessions]
  unfold acceptSegment
  dsimp only
  cases hfin : hdr.isFin with
  | true =>
    rw [if_pos rfl]
    intro n _ v hv
    rw [StreamState.rxView, onFin_absent] at hv
    cases hv
  | false =>
    rw [if_neg Bool.false_ne_true]
    cases hsyn : hdr.isSyn with
    | true =>
      have hst₂ : Accounted S key (Recorded key hdr st) tr (onSyn S key st₁) :=
        onSyn_accounted hharmless hfin hsyn hnone (admitted_attends ch _ st) h
      rw [if_pos rfl]
      cases hdata : carriesData hdr with
      | true =>
        rw [if_pos rfl]
        refine onData_accounted ch hguard hst₂ (fun hgone => absurd hgone (onSyn_present hopen st₁))
          (fun _ => Or.inl) ?_
        rw [hdel hfin hdata, hsyn, if_pos rfl]
      | false =>
        rw [if_neg Bool.false_ne_true]
        exact hst₂.append _
    | false =>
      rw [if_neg Bool.false_ne_true]
      cases hdata : carriesData hdr with
      | true =>
        rw [if_pos rfl]
        refine onData_accounted ch hguard h (fun hno hattends n hn => ?_) (fun n hn => ?_) ?_
        · rw [hharmless.creates hfin (Or.inr hdata) (hnone.1 hno)
            ((admitted_attends ch _ st).1 hattends) n] at hn
          cases hn
        · rcases recorded_imp hn with hold | ⟨-, rfl, -, -⟩
          · exact Or.inl hold
          · refine Or.inr ⟨rfl, fun hattends => ?_⟩
            rw [hst₁, admitted_clock]
            exact hharmless.acquires hsyn hfin hdata ((admitted_attends ch _ st).1 hattends)
        · rw [hdel hfin hdata, hsyn, if_neg Bool.false_ne_true]
      | false =>
        rw [if_neg Bool.false_ne_true]
        intro n _ v hv hsome
        rw [StreamState.rxView, hst₁, admitted_sessions] at hv
        obtain ⟨s, hs, rfl⟩ := Option.map_eq_some_iff.1 hv
        rw [show s.rxView.handler = none from hharmless.carries hsyn hfin hdata s hs] at hsome
        cases hsome

def Harmless (S : Setting σ) (p : StreamState σ × List ZceByte) : Prop :=
  ∀ hr hdr, fgwSegmentPeekHeader p.2 p.2.length = .header hr hdr → isControl hdr = false →
    (S.config.verifyCrc = true → fgwSegmentVerifyCrc p.2 hdr hr = true) →
    p.1.dedup.map (dedupKey (frameKey hdr).1 hdr) = false →
    ¬ (carriesData hdr = true ∧ outsideWindow S (frameKey hdr) hdr.seqNum p.1) →
    HarmlessSegment S hdr ((p.2.drop hr).take hdr.payloadLen.toNat) p.1

theorem Unpoisoned.of_kept (h : Unpoisoned S tr st) (hkept : SessionsKept st st')
    (tr' : List (StreamState σ × List ZceByte)) : Unpoisoned S (tr ++ tr') st' := by
  intro key n hn v hv hsome
  have hview : st'.rxView key = st.rxView key := by
    rw [StreamState.rxView, hkept.sessions, StreamState.rxView]
  rw [hkept.dedup] at hn
  exact ((h key n hn v (hview ▸ hv) hsome).of_same hview
    (births_of_eq hkept.events hkept.sent)).append tr'

theorem handleFrame_unpoisoned (hopen : OpenKeeps S) (ch : ChannelRef) {f : List ZceByte}
    (hharmless : Harmless S (st, f)) (h : Unpoisoned S tr st) :
    Unpoisoned S (tr ++ [(st, f)]) (handleFrame S ch st f) := by
  rcases handleFrame_cases S ch f st with ⟨-, hjudges⟩ | ⟨hr, hdr, hpeek, hctl, hcrc, heq⟩
  · exact h.of_kept hjudges.kept _
  rw [heq]
  simp only [onSessionSegment]
  split
  · exact h.of_kept (noteLoser_judgesOnly ch st).kept _
  rename_i hdup
  split
  · exact h.of_kept ⟨rfl, rfl, rfl, rfl⟩ _
  rename_i hout
  have hseg := hharmless hr hdr hpeek hctl hcrc (Bool.eq_false_iff.2 hdup) hout
  have hdel := delivery_eq (S := S) ch st hpeek hctl hcrc
  generalize (f.drop hr).take hdr.payloadLen.toNat = payload at hseg hdel ⊢
  change Unpoisoned S (tr ++ [(st, f)]) (acceptSegment S (frameKey hdr) hdr payload
    (admitted ch (dedupKey (frameKey hdr).1 hdr) st))
  have hadmitted : ∀ key M, Accounted S key M tr st →
      Accounted S key M tr (admitted ch (dedupKey (frameKey hdr).1 hdr) st) := fun key M hst =>
    hst.keeps (Or.inl ⟨by rw [StreamState.rxView, admitted_sessions, StreamState.rxView],
      births_of_eq (admitted_events ch _ st) (admitted_sent ch _ st)⟩)
  intro key
  rw [show (fun n => (acceptSegment S (frameKey hdr) hdr payload
      (admitted ch (dedupKey (frameKey hdr).1 hdr) st)).dedup.map (dataKey key n) = true) =
        Recorded key hdr st by
    funext n
    rw [acceptSegment_dedup, admitted_dedup, Recorded]]
  by_cases hkey : frameKey hdr = key
  · subst hkey
    refine acceptSegment_accounted hopen hseg (fun hfin hdata => ?_) (hadmitted _ _ (h _))
    rw [hdel]
    unfold deliveryOnSegment
    dsimp only
    rw [if_neg]
    · rfl
    · rintro (hbad | hbad | hbad | hbad)
      · exact hdup hbad
      · exact hout ⟨hdata, hbad⟩
      · rw [hfin] at hbad
        cases hbad
      · exact hbad hdata
  · refine (Accounted.keeps (fun n hn => ?_)
      (acceptSegment_keeps hkey (hseg.guarded key) hdr payload _)).append _
    rcases recorded_imp hn with hold | ⟨hsame, -⟩
    · exact hadmitted _ _ (h key) n hold
    · exact absurd hsame.symm hkey

/-- A handler is not given to a session that is not there while the table remembers data of it. -/
def HarmlessOp (S : Setting σ) (st : StreamState σ) : Op σ → Prop
  | .openSession sid (some _) =>
    st.sessions (S.config.localIngressId, sid) = none →
      ∀ n, st.dedup.map (dataKey (S.config.localIngressId, sid) n) = false
  | _ => True

theorem call_unpoisoned {c : Call}
    (h : ∀ key, st.rxView key = none → ∀ handler, Opens S key (some handler) c →
      ∀ n, st.dedup.map (dataKey key n) = false)
    (hst : Unpoisoned S tr st) : Unpoisoned S tr (call S st c) := by
  intro key
  rw [(call_sendsOnly S st c).dedup]
  refine (hst key).keeps (call_keeps fun hnone handler hopens n hn => ?_)
  rw [h key hnone handler hopens n] at hn
  cases hn

theorem step_unpoisoned {op : Op σ} {ds : DataStream σ} (hop : HarmlessOp S ds.toStreamState op)
    (hframes : ∀ ch buf, op ≠ .onChannelBytes ch buf) (h : Unpoisoned S tr ds.toStreamState) :
    Unpoisoned S tr (step S ds op).toStreamState := by
  have hkept : ∀ {st'}, SessionsKept ds.toStreamState st' → Unpoisoned S tr st' := fun hc =>
    List.append_nil tr ▸ h.of_kept hc []
  cases op with
  | openSession sid handler =>
    refine call_unpoisoned (c := .openSession sid handler) ?_ h
    rintro key hnone handler' ⟨rfl, rfl⟩
    exact hop (rxView_eq_none.1 hnone)
  | closeSession sid ingressKey =>
    exact call_unpoisoned (c := .closeSession sid ingressKey) (fun _ _ _ hopens => hopens.elim) h
  | sendSessionData sid buf ingressKey =>
    exact call_unpoisoned (c := .sendSessionData sid buf ingressKey)
      (fun _ _ _ hopens => hopens.elim) h
  | onChannelBytes ch buf => exact absurd rfl (hframes ch buf)
  | emitFeedback => exact hkept (emitFeedback_judgesOnly S _).kept
  | owner owner => exact hkept ⟨rfl, rfl, rfl, rfl⟩
  | selector selector => exact hkept ⟨rfl, rfl, rfl, rfl⟩

/-- A copy of a data segment that a session with a handler waits for, inside its window, is
accepted unless the segment has been kept. -/
def Admits (S : Setting σ) (tr : List (StreamState σ × List ZceByte))
    (p : StreamState σ × List ZceByte) : Prop :=
  ∀ ch hr hdr v, fgwSegmentPeekHeader p.2 p.2.length = .header hr hdr → isControl hdr = false →
    (S.config.verifyCrc = true → fgwSegmentVerifyCrc p.2 hdr hr = true) →
    hdr.isSyn = false → hdr.isFin = false → carriesData hdr = true →
    p.1.rxView (frameKey hdr) = some v → v.handler.isSome = true →
    ¬ outsideWindow S (frameKey hdr) hdr.seqNum p.1 →
    ¬ Kept S (frameKey hdr) hdr.seqNum tr p.1 →
    handleFrame S ch p.1 p.2 = acceptSegment S (frameKey hdr) hdr
      ((p.2.drop hr).take hdr.payloadLen.toNat) (admitted ch (dedupKey (frameKey hdr).1 hdr) p.1)

theorem Unpoisoned.admits {f : List ZceByte} (h : Unpoisoned S tr st) : Admits S tr (st, f) := by
  intro ch hr hdr v hpeek hctl hcrc hsyn hfin hdata hv hhandler hin hkept
  have hdk : dedupKey (frameKey hdr).1 hdr = dataKey (frameKey hdr) hdr.seqNum := by
    simp [dedupKey, dataKey, frameKey, hsyn, hfin]
  have hfresh : ¬ st.dedup.map (dedupKey (frameKey hdr).1 hdr) = true := by
    intro hdup
    rw [hdk] at hdup
    exact hkept (h (frameKey hdr) hdr.seqNum hdup v hv hhandler)
  rw [handleFrame_segment ch hpeek hctl hcrc]
  simp only [onSessionSegment]
  rw [if_neg hfresh, if_neg fun hout => hin hout.2]
  rfl

theorem unpoisoned_init (owner : σ) (selector : LinkSelector) :
    Unpoisoned S [] (DataStream.init owner selector).toStreamState := fun key n _ v hv => by cases hv

end DataStream

/-- While no frame and no opening does harm, every frame finds, and leaves, a table that remembers
only what has been kept, and nothing else is turned away as a duplicate. -/
theorem dedup_not_poisoned {S : Setting σ} (hopen : OpenKeeps S) (owner : σ) (selector : LinkSelector)
    {ops : List (Op σ)}
    (hops : ∀ p ∈ opTrace S (DataStream.init owner selector) ops, HarmlessOp S p.1.toStreamState p.2)
    (htrace : ∀ p ∈ trace S (DataStream.init owner selector) ops, Harmless S p) :
    EachAfter (fun pre p => Unpoisoned S pre p.1 ∧ Admits S pre p)
        (trace S (DataStream.init owner selector) ops) ∧
      Unpoisoned S (trace S (DataStream.init owner selector) ops)
        (run S (DataStream.init owner selector) ops).toStreamState := by
  have h := @run_invariant_opTrace σ S
    (fun tr st => EachAfter (fun pre p => Unpoisoned S pre p.1 ∧ Admits S pre p) tr ∧
      Unpoisoned S tr st)
    (Harmless S) (fun ds op => HarmlessOp S ds.toStreamState op)
    (fun op tr ds hop hother h => ⟨h.1, step_unpoisoned hop hother h.2⟩)
    (fun ch f tr st hf h => ⟨h.1.concat ⟨h.2, h.2.admits⟩, handleFrame_unpoisoned hopen ch hf h.2⟩)
    ops (DataStream.init owner selector) [] hops htrace
    ⟨EachAfter.nil, unpoisoned_init owner selector⟩
  rwa [List.nil_append] at h

def emptyData0 : List ZceByte := segmentFrame inportSetting sampleKey 0#32 FLAG_DATA []

def poisoningOps : List (Op Unit) := [.onChannelBytes 1 (sampleSyn ++ emptyData0)]

def headerPasses (test : FgwSegmentHeader → Bool) (f : List ZceByte) : Bool :=
  match fgwSegmentPeekHeader f f.length with
  | .header _ hdr => test hdr
  | _ => true

theorem headerPasses_header {test : FgwSegmentHeader → Bool} {f : List ZceByte} {hr : Nat}
    {hdr : FgwSegmentHeader} (h : headerPasses test f = true)
    (hpeek : fgwSegmentPeekHeader f f.length = .header hr hdr) : test hdr = true := by
  unfold headerPasses at h
  rw [hpeek] at h
  exact h

theorem delivery_of_nothing {S : Setting σ} {ch : ChannelRef} {st : StreamState σ} {f : List ZceByte}
    (h : headerPasses (fun hdr => !carriesData hdr) f = true) : delivery S ch st f = none := by
  unfold delivery
  split
  · rename_i hr hdr hpeek
    have hnot : carriesData hdr = false := by simpa using headerPasses_header h hpeek
    split
    · rfl
    · rw [deliveryOnSegment, if_pos (Or.inr (Or.inr (Or.inr (by simp [hnot]))))]
  · rfl

theorem poisoned_by_empty_data :
    ¬ Unpoisoned outportSetting (trace outportSetting (DataStream.init ()) poisoningOps)
        (run outportSetting (DataStream.init ()) poisoningOps).toStreamState ∧
      delivered sampleKey (run outportSetting (DataStream.init ())
        (poisoningOps ++ [.onChannelBytes 2 sampleData0])).events = [] := by
  refine ⟨fun h => ?_, by decide +kernel⟩
  have hnothing : ∀ f ∈ arrived outportSetting (DataStream.init ()) poisoningOps,
      headerPasses (fun hdr => !carriesData hdr) f := by decide +kernel
  have hdup : (run outportSetting (DataStream.init ()) poisoningOps).dedup.map
      (dataKey sampleKey 0#32) = true := by decide +kernel
  have hview : ((run outportSetting (DataStream.init ()) poisoningOps).rxView sampleKey).map
      (fun v => (v.buffer.entries, v.handler)) = some ([], some 5) := by decide +kernel
  rw [arrived] at hnothing
  generalize trace outportSetting (DataStream.init ()) poisoningOps = tr at h hnothing
  generalize (run outportSetting (DataStream.init ()) poisoningOps).toStreamState = st at *
  obtain ⟨v, hv, hbuffer⟩ := Option.map_eq_some_iff.1 hview
  have hempty : v.buffer.entries = [] := congrArg Prod.fst hbuffer
  have hhandler : v.handler = some 5 := congrArg Prod.snd hbuffer
  rcases h sampleKey 0#32 hdup v hv (by rw [hhandler]; rfl) with
    ⟨v', q, hv', hq⟩ | ⟨p, hp, ch, d, hd, -⟩
  · rw [hv] at hv'
    obtain rfl := Option.some.inj hv'
    have hmem := SortedMap.find?_eq_some.1 hq
    rw [hempty] at hmem
    cases hmem
  · rw [delivery_of_nothing (hnothing p.2 (List.mem_map_of_mem hp))] at hd
    cases hd

def harmlessOps : List (Op Unit) := [.onChannelBytes 1 (sampleSyn ++ sampleData0)]

theorem harmlessOps_trace : trace outportSetting (DataStream.init ()) harmlessOps =
    [(StreamState.init (), sampleSyn),
      (handleFrame outportSetting 1 (StreamState.init ()) sampleSyn, sampleData0)] := by
  have hframes : segmentFrames ([] ++ (sampleSyn ++ sampleData0)) = [sampleSyn, sampleData0] := by
    decide +kernel
  change frameTrace outportSetting 1 (StreamState.init ())
    (segmentFrames ([] ++ (sampleSyn ++ sampleData0))) ++ [] = _
  rw [hframes]
  rfl

theorem dedup_not_poisoned_opened :
    Unpoisoned outportSetting (trace outportSetting (DataStream.init ()) harmlessOps)
      (run outportSetting (DataStream.init ()) harmlessOps).toStreamState := by
  have hopen : OpenKeeps outportSetting := fun _ _ _ _ _ hc => absurd hc List.not_mem_nil
  refine (dedup_not_poisoned hopen () {} (List.forall_mem_singleton.2 trivial) ?_).2
  have hkinds : ∀ f ∈ [sampleSyn, sampleData0], headerPasses (fun hdr =>
      frameKey hdr = sampleKey ∧ (hdr.isSyn = true ∨ carriesData hdr = true)) f := by
    decide +kernel
  intro p hp hr hdr hpeek hctl hcrc hfresh hin
  have hmem : p.2 ∈ [sampleSyn, sampleData0] := by
    have h := List.mem_map_of_mem (f := Prod.snd) hp
    rwa [harmlessOps_trace] at h
  obtain ⟨hkey, hkind⟩ := of_decide_eq_true (headerPasses_header (hkinds p.2 hmem) hpeek)
  have hknown : (p.1.sessions sampleKey).isSome = true ∨ p.1 = StreamState.init () := by
    rw [harmlessOps_trace] at hp
    rcases List.mem_cons.1 hp with rfl | hp
    · exact Or.inr rfl
    · obtain rfl := List.mem_singleton.1 hp
      exact Or.inl (by decide +kernel)
  exact {
    carries := fun hsyn hfin hnot => by simp [hsyn, hnot] at hkind
    acquires := fun _ _ _ _ => acquires_quiet _ _ _ _ _ _
    creates := fun _ _ hno _ n => by
      rcases hknown with hsome | hinit
      · rw [hkey] at hno
        rw [hno] at hsome
        cases hsome
      · rw [hinit]
        rfl
    opens := fun _ _ _ _ hc => absurd hc List.not_mem_nil }

end Libfgw
