import Libfgw.DataStream.Delivery
import Libfgw.Recommendation

namespace Libfgw

open FgwSegmentHeader Lib DataStream

variable {σ τ : Type}

theorem verdict_synFrame (S : Setting σ) (T : Setting τ) (key : SessionKey) (st : StreamState σ) :
    verdict S st (synFrame T key) =
      if st.dedup.map (synKey key) then .duplicate else .accepted (synKey key) := by
  have hlen : ([] : List ZceByte).length ≤ MAX_PAYLOAD := Nat.zero_le _
  unfold verdict synFrame
  rw [peek_segmentFrame T key 0#32 FLAG_SYN [] hlen]
  dsimp only
  rw [verifyCrc_segmentFrame T key 0#32 FLAG_SYN [] hlen, isControl_segmentDecoded,
    frameKey_segmentDecoded, dedupKey_segmentDecoded, carriesData_segmentDecoded hlen]
  have hsound : ¬ ((S.config.verifyCrc = true ∧ ¬ true = true) ∨
      ((FLAG_SYN &&& FLAG_HELLO != 0#8) || (FLAG_SYN &&& FLAG_HEARTBEAT != 0#8) ||
        (FLAG_SYN &&& FLAG_ACK != 0#8)) = true) := by
    rintro (⟨-, hbad⟩ | hcontrol)
    · exact hbad rfl
    · exact absurd hcontrol (by decide)
  exact if_neg hsound

theorem raceEvent_synFrame (S : Setting σ) (T : Setting τ) (ch : ChannelRef) {key : SessionKey}
    {st : StreamState σ} (hnew : st.dedup.map (synKey key) = false) :
    raceEvent S ch st (synFrame T key) =
      if (st.peers ch).channel ≠ 0#32 then some (.won (st.peers ch).channel) else none := by
  have hverdict : verdict S st (synFrame T key) = .accepted (synKey key) := by
    rw [verdict_synFrame, hnew, if_neg Bool.false_ne_true]
  unfold raceEvent
  rw [hverdict]

theorem handleFrame_synFrame_peers (S : Setting σ) (T : Setting τ) (ch : ChannelRef)
    (key : SessionKey) (st : StreamState σ) :
    (handleFrame S ch st (synFrame T key)).peers = st.peers := by
  have hloser : (noteLoser ch st).peers = st.peers := by
    unfold noteLoser
    split <;> rfl
  have hwinner : (admitted ch (synKey key) st).peers = st.peers := by
    unfold admitted noteWinner
    split <;> rfl
  rw [handleFrame_synFrame]
  split
  · exact hloser
  · exact ((congrArg StreamState.peers (onSyn_servesOnly S key _)).trans rfl).trans hwinner

theorem raceHistory_append (S : Setting σ) (ds : DataStream σ) (ops ops' : List (Op σ)) :
    raceHistory S ds (ops ++ ops') = raceHistory S ds ops ++ raceHistory S (run S ds ops) ops' := by
  induction ops generalizing ds with
  | nil => rfl
  | cons op ops ih => rw [List.cons_append, raceHistory, ih, raceHistory, run_cons, List.append_assoc]

def openingCopy (ch : ChannelRef) (k : Nat) : Op Unit :=
  .onChannelBytes ch (synFrame racingStream (1#32, BitVec.ofNat 32 k))

structure Awaits (k : Nat) (ds : DataStream Unit) : Prop where
  named : ∀ ch, ch = 1 ∨ ch = 2 → (ds.peers ch).channel = BitVec.ofNat 32 ch
  clean : ∀ ch, ch = 1 ∨ ch = 2 → ds.scratch ch = []
  unseen : ∀ j, k ≤ j → j < 2 ^ 32 → ds.dedup.map (synKey (1#32, BitVec.ofNat 32 j)) = false

theorem awaits_step {k : Nat} {ds : DataStream Unit} (h : Awaits k ds) {ch : ChannelRef}
    (hch : ch = 1 ∨ ch = 2) (hk : k < 2 ^ 32) :
    racesAt racingStream ds (openingCopy ch k) = [.won (BitVec.ofNat 32 ch)] ∧
      Awaits (k + 1) (step racingStream ds (openingCopy ch k)) := by
  have hsegment : IsSegment (synFrame racingStream (1#32, BitVec.ofNat 32 k)) :=
    isSegment_segmentFrame _ _ _ _ _ (Nat.zero_le _)
  have hnew := h.unseen k le_rfl hk
  have hchannel : BitVec.ofNat 32 ch ≠ 0#32 := by
    rcases hch with rfl | rfl <;> decide
  have hstep : step racingStream ds (openingCopy ch k) = { ds with
      toStreamState := handleFrame racingStream ch ds.toStreamState
        (synFrame racingStream (1#32, BitVec.ofNat 32 k)) } :=
    onChannelBytes_segment hsegment (h.clean ch hch)
  refine ⟨?_, ?_, ?_, ?_⟩
  · have hframes : segmentFrames (ds.scratch ch ++ synFrame racingStream (1#32, BitVec.ofNat 32 k)) =
        [synFrame racingStream (1#32, BitVec.ofNat 32 k)] := by
      rw [h.clean ch hch, List.nil_append, segmentFrames_isSegment hsegment]
    have hrace := raceEvent_synFrame racingStream racingStream ch hnew
    rw [h.named ch hch, if_pos hchannel] at hrace
    rw [openingCopy, racesAt, hframes, frameTrace, List.filterMap_cons, hrace]
    rfl
  · intro c hc
    rw [hstep, handleFrame_synFrame_peers]
    exact h.named c hc
  · intro c hc
    rw [hstep]
    exact h.clean c hc
  · intro j hj hlt
    rw [hstep, ← Bool.not_eq_true]
    intro hseen
    rcases map_handleFrame_imp racingStream hseen with hkey | hold
    · have hsame := congrArg DedupKey.session (hasDedupKey_synFrame hkey)
      have := congrArg BitVec.toNat hsame
      simp only [synKey, BitVec.toNat_ofNat] at this
      omega
    · rw [h.unseen j (by omega) hlt] at hold
      exact Bool.false_ne_true hold

theorem awaits_run {k n : Nat} {ds : DataStream Unit} (h : Awaits k ds) {ch : ChannelRef}
    (hch : ch = 1 ∨ ch = 2) (hn : k + n ≤ 2 ^ 32) :
    raceHistory racingStream ds ((List.range' k n).map (openingCopy ch)) =
        List.replicate n (.won (BitVec.ofNat 32 ch)) ∧
      Awaits (k + n) (run racingStream ds ((List.range' k n).map (openingCopy ch))) := by
  induction n generalizing k ds with
  | zero => exact ⟨rfl, h⟩
  | succ n ih =>
    obtain ⟨hrace, hnext⟩ := awaits_step h hch (by omega)
    obtain ⟨hraces, hlast⟩ := ih hnext (by omega)
    rw [List.range'_succ, List.map_cons, raceHistory, run_cons, hrace, hraces]
    rw [Nat.add_assoc, Nat.add_comm 1 n] at hlast
    exact ⟨rfl, hlast⟩

def unevenStart : List (Op Unit) :=
  [racingHello 1, racingHello 2, openingCopy 1 0, openingCopy 2 0, openingCopy 2 1, openingCopy 1 1,
    openingCopy 2 2, openingCopy 1 2]

theorem unevenStart_history : raceHistory racingStream (DataStream.init ()) unevenStart =
    [.cleared, .won 1#32, .lost 2#32, .won 2#32, .lost 1#32, .won 2#32, .lost 1#32] := by
  decide +kernel

theorem unevenStart_awaits : Awaits 3 (run racingStream (DataStream.init ()) unevenStart) where
  named := by
    rintro ch (rfl | rfl) <;> decide +kernel
  clean := by
    rintro ch (rfl | rfl) <;> decide +kernel
  unseen j hj hlt := by
    have hqueue : (run racingStream (DataStream.init ()) unevenStart).dedup.queue =
        [synKey (1#32, 0#32), synKey (1#32, 1#32), synKey (1#32, 2#32)] := by decide +kernel
    have hwf := @run_wf Unit racingStream (DataStream.init ()) (KeyRing.wf_empty kDedupRing) unevenStart
    rw [hwf.map_eq_false, hqueue]
    intro hmem
    simp only [List.mem_cons, synKey, DedupKey.mk.injEq, List.not_mem_nil, or_false, true_and,
      and_true] at hmem
    rcases hmem with h | h | h <;>
    · have := congrArg BitVec.toNat h
      simp only [BitVec.toNat_ofNat] at this
      omega

def closeRun (a b : Nat) : List (Op Unit) :=
  unevenStart ++ ((List.range' 3 a).map (openingCopy 2) ++ (List.range' (3 + a) b).map (openingCopy 1))

def closeRaces (a b : Nat) : List RaceEvent :=
  [.cleared, .won 1#32, .lost 2#32, .won 2#32, .lost 1#32, .won 2#32, .lost 1#32] ++
    (List.replicate a (.won 2#32) ++ List.replicate b (.won 1#32))

theorem closeRun_history {a b : Nat} (h : 3 + a + b ≤ 2 ^ 32) :
    raceHistory racingStream (DataStream.init ()) (closeRun a b) = closeRaces a b := by
  obtain ⟨hfirst, hmid⟩ := awaits_run unevenStart_awaits (Or.inr rfl) (show 3 + a ≤ 2 ^ 32 by omega)
  obtain ⟨hlast, -⟩ := awaits_run hmid (Or.inl rfl) h
  rw [closeRun, raceHistory_append, raceHistory_append, unevenStart_history, hfirst, hlast, closeRaces]

theorem length_closeRaces (a b : Nat) : (closeRaces a b).length = 7 + (a + b) := by
  simp only [closeRaces, List.length_append, List.length_cons, List.length_nil, List.length_replicate]

theorem score_closeRaces {a b : Nat} (h : 7 + (a + b) < 2 ^ 31) (id : ZceUint32) :
    (Tally.of (closeRaces a b)).score id =
      if id = 1#32 then ⟨1 + b, 3 + b⟩ else if id = 2#32 then ⟨2 + a, 3 + a⟩ else Score.zero := by
  rw [← length_closeRaces] at h
  have hpaced : Score.Paced (2 ^ 31) (marks id (closeRaces a b)) :=
    Score.Paced.of_length_lt (lt_of_le_of_lt (List.length_filterMap_le _ _) h)
  rw [Tally.score_of_paced hpaced, marks, closeRaces, List.filterMap_append, List.filterMap_append,
    List.filterMap_replicate, List.filterMap_replicate, Score.of, List.foldl_append, List.foldl_append]
  simp only [RaceEvent.mark]
  by_cases hone : id = 1#32
  · subst hone
    exact Score.foldl_step_won b ⟨1, 3⟩
  · rw [if_neg (Ne.symm hone), if_neg hone]
    by_cases htwo : id = 2#32
    · subst htwo
      exact Score.foldl_step_won a ⟨2, 3⟩
    · simp [RaceEvent.mark, Ne.symm hone, Ne.symm htwo, htwo, Score.step]

theorem double_close : double (((2 ^ 28 - 3 : Nat) : ℚ) / (2 ^ 28 - 1 : Nat)) =
    double (((2 ^ 27 - 1 : Nat) : ℚ) / (2 ^ 27 : Nat)) := by
  decide +kernel

theorem Tally.BestLink.not_exact {t : Tally} (hone : t.score 1#32 = ⟨2 ^ 28 - 3, 2 ^ 28 - 1⟩)
    (htwo : t.score 2#32 = ⟨2 ^ 27 - 1, 2 ^ 27⟩)
    (hothers : ∀ id, id ≠ 1#32 → id ≠ 2#32 → t.score id = Score.zero) {id : ZceUint32}
    (h : t.BestLink t.winRate id) : ¬ t.BestLink t.exactRate id := by
  obtain ⟨hwins, hraces⟩ := Score.mk.inj hone
  obtain ⟨hwins', hraces'⟩ := Score.mk.inj htwo
  have hraced : 0#32 < t.racesOf 1#32 ∧ 0#32 < t.racesOf 2#32 := by
    rw [BitVec.lt_def, BitVec.lt_def, hraces, hraces']
    decide
  have htie : t.winRate 1#32 = t.winRate 2#32 := by
    rw [Tally.winRate, Tally.exactRate, hwins, hraces, Tally.winRate, Tally.exactRate, hwins', hraces']
    exact double_close
  have hbetter : t.exactRate 1#32 < t.exactRate 2#32 := by
    rw [Tally.exactRate, hwins, hraces, Tally.exactRate, hwins', hraces']
    norm_num
  intro hexact
  by_cases hid : id = 1#32
  · rw [hid] at hexact
    exact absurd (hexact.rate 2#32 hraced.2) (not_le.2 hbetter)
  by_cases hid' : id = 2#32
  · rw [hid'] at h
    have hsample := h.sample 1#32 hraced.1 htie
    rw [BitVec.le_def, hraces, hraces'] at hsample
    exact absurd hsample (by decide)
  · have hidle : (t.racesOf id).toNat = 0 := congrArg Score.races (hothers id hid hid')
    have hpos := h.raced
    rw [BitVec.lt_def, hidle] at hpos
    exact absurd hpos (Nat.not_lt_zero _)

theorem close_rates_tie : ¬ ∀ ops : List (Op Unit),
    (raceHistory racingStream (DataStream.init ()) ops).length < 2 ^ 31 →
      let st := (run racingStream (DataStream.init ()) ops).toStreamState
      recommendedPrimary st ≠ 0#32 →
        st.tally.BestLink st.tally.exactRate (recommendedPrimary st) := by
  intro hclaim
  have hhistory := closeRun_history (show 3 + (2 ^ 27 - 3) + (2 ^ 28 - 4) ≤ 2 ^ 32 by norm_num)
  have hsmall : 7 + ((2 ^ 27 - 3) + (2 ^ 28 - 4)) < 2 ^ 31 := by norm_num
  have hexact := hclaim (closeRun (2 ^ 27 - 3) (2 ^ 28 - 4))
    (by rwa [hhistory, length_closeRaces])
  have htally := run_tally racingStream (DataStream.init ()) (closeRun (2 ^ 27 - 3) (2 ^ 28 - 4))
  have hunraced := raceHistory_unraced racingStream (DataStream.init ())
    (closeRun (2 ^ 27 - 3) (2 ^ 28 - 4))
  rw [hhistory] at htally hunraced
  generalize (run racingStream (DataStream.init ()) (closeRun (2 ^ 27 - 3) (2 ^ 28 - 4))).toStreamState =
    st at hexact htally
  have hscore := score_closeRaces hsmall
  have hreal := hunraced.racesOf
  change st.tally = Tally.of _ at htally
  rw [← htally] at hscore hreal
  have hone : st.tally.score 1#32 = ⟨2 ^ 28 - 3, 2 ^ 28 - 1⟩ := by
    rw [hscore, if_pos rfl]
    norm_num
  have htwo : st.tally.score 2#32 = ⟨2 ^ 27 - 1, 2 ^ 27⟩ := by
    rw [hscore, if_neg (by decide), if_pos rfl]
    norm_num
  have hothers : ∀ id, id ≠ 1#32 → id ≠ 2#32 → st.tally.score id = Score.zero := by
    intro id hid hid'
    rw [hscore, if_neg hid, if_neg hid']
  obtain ⟨hsilent, hbest⟩ := recommendedPrimary_bestLink hreal
  have hpick : recommendedPrimary st ≠ 0#32 := by
    rw [Ne, hsilent]
    intro hidle
    obtain ⟨-, hraces⟩ := Score.mk.inj htwo
    rw [hidle] at hraces
    exact absurd hraces (by decide)
  exact (hbest hpick).not_exact hone htwo hothers (hexact hpick)

end Libfgw
