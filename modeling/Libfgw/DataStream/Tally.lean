import Libfgw.DataStream.Arbiter
import Libfgw.DataStream.Verdict
import Libfgw.Lib.Score

namespace Libfgw

open FgwSegmentHeader Lib

variable {σ : Type}

/-- The race counters of the arbiter, by peer channel. -/
structure Tally where
  wins : SortedMap ZceUint32 ZceUint32
  races : SortedMap ZceUint32 ZceUint32

def StreamState.tally (st : StreamState σ) : Tally := ⟨st.peerWinCount, st.peerPartCount⟩

inductive RaceEvent
  | won (peer : ZceUint32)
  | lost (peer : ZceUint32)
  | cleared
  | tick
  deriving DecidableEq

def RaceEvent.mark (id : ZceUint32) : RaceEvent → Option Mark
  | .won peer => if peer = id then some .won else none
  | .lost peer => if peer = id then some .lost else none
  | .cleared => some .clear
  | .tick => some .halve

def marks (id : ZceUint32) (log : List RaceEvent) : List Mark := log.filterMap (RaceEvent.mark id)

theorem marks_concat (id : ZceUint32) (log : List RaceEvent) (e : RaceEvent) :
    marks id (log ++ [e]) = marks id log ++ (e.mark id).toList := by
  rw [marks, marks, List.filterMap_append]
  cases h : e.mark id <;> simp [h]

namespace Tally

def empty : Tally := ⟨SortedMap.empty, SortedMap.empty⟩

def step (t : Tally) : RaceEvent → Tally
  | .won peer => ⟨DataStream.increment t.wins peer, DataStream.increment t.races peer⟩
  | .lost peer => ⟨t.wins, DataStream.increment t.races peer⟩
  | .cleared => empty
  | .tick => if t.races.entries.isEmpty then t else ⟨t.wins.map (· >>> 1), t.races.map (· >>> 1)⟩

def of (log : List RaceEvent) : Tally := log.foldl step empty

@[simp] theorem of_concat (log : List RaceEvent) (e : RaceEvent) :
    of (log ++ [e]) = (of log).step e := by
  rw [of, of, List.foldl_append, List.foldl_cons, List.foldl_nil]

def winsOf (t : Tally) (id : ZceUint32) : ZceUint32 := (t.wins.find? id).getD 0#32

def racesOf (t : Tally) (id : ZceUint32) : ZceUint32 := (t.races.find? id).getD 0#32

def score (t : Tally) (id : ZceUint32) : Score := ⟨(t.winsOf id).toNat, (t.racesOf id).toNat⟩

theorem getD_increment (m : SortedMap ZceUint32 ZceUint32) (peer id : ZceUint32) :
    ((DataStream.increment m peer).find? id).getD 0#32 =
      if peer = id then (m.find? id).getD 0#32 + 1#32 else (m.find? id).getD 0#32 := by
  rw [DataStream.increment, SortedMap.find?_insert]
  by_cases h : peer = id
  · rw [if_pos h.symm, if_pos h, Option.getD_some, h]
  · rw [if_neg (Ne.symm h), if_neg h]

def Covered (t : Tally) : Prop := ∀ id, (t.wins.find? id).isSome → (t.races.find? id).isSome

theorem covered_of (log : List RaceEvent) : (of log).Covered := by
  induction log using List.reverseRecOn with
  | nil => exact fun id h => h
  | append_singleton log e ih =>
    intro id hwon
    have hold := ih id
    rw [of_concat] at hwon ⊢
    cases e with
    | won peer =>
      simp only [step, DataStream.increment, SortedMap.find?_insert] at hwon ⊢
      split
      · rfl
      · rename_i hother
        rw [if_neg hother] at hwon
        exact hold hwon
    | lost peer =>
      simp only [step, DataStream.increment, SortedMap.find?_insert] at hwon ⊢
      split
      · rfl
      · exact hold hwon
    | cleared => exact hwon
    | tick =>
      simp only [step] at hwon ⊢
      split at hwon
      · rename_i hempty
        rw [if_pos hempty]
        exact hold hwon
      · rename_i hraced
        rw [if_neg hraced]
        simp only [SortedMap.find?_map, Option.isSome_map] at hwon ⊢
        exact hold hwon

theorem racesOf_tick (t : Tally) (id : ZceUint32) : (t.step .tick).racesOf id = t.racesOf id >>> 1 := by
  unfold step racesOf
  dsimp only
  split
  · rename_i hempty
    simp [SortedMap.find?, List.isEmpty_iff.1 hempty]
  · rw [SortedMap.find?_map]
    cases t.races.find? id <;> rfl

theorem Covered.winsOf_tick {t : Tally} (h : t.Covered) (id : ZceUint32) :
    (t.step .tick).winsOf id = t.winsOf id >>> 1 := by
  unfold step winsOf
  dsimp only
  split
  · rename_i hempty
    have hnone : t.wins.find? id = none := by
      rw [← Option.not_isSome_iff_eq_none]
      intro hwon
      have hraced := h id hwon
      rw [SortedMap.find?, List.isEmpty_iff.1 hempty] at hraced
      exact absurd hraced Bool.false_ne_true
    rw [hnone]
    rfl
  · rw [SortedMap.find?_map]
    cases t.wins.find? id <;> rfl

def afterMark (wins races : ZceUint32) : Option Mark → ZceUint32 × ZceUint32
  | none => (wins, races)
  | some .won => (wins + 1#32, races + 1#32)
  | some .lost => (wins, races + 1#32)
  | some .halve => (wins >>> 1, races >>> 1)
  | some .clear => (0#32, 0#32)

theorem Covered.counters_step {t : Tally} (h : t.Covered) (e : RaceEvent) (id : ZceUint32) :
    (t.step e).winsOf id = (afterMark (t.winsOf id) (t.racesOf id) (e.mark id)).1 ∧
      (t.step e).racesOf id = (afterMark (t.winsOf id) (t.racesOf id) (e.mark id)).2 := by
  cases e with
  | won peer =>
    simp only [RaceEvent.mark, winsOf, racesOf, step, getD_increment]
    by_cases hpeer : peer = id
    · simp only [if_pos hpeer]
      exact ⟨rfl, rfl⟩
    · simp only [if_neg hpeer]
      exact ⟨rfl, rfl⟩
  | lost peer =>
    simp only [RaceEvent.mark, winsOf, racesOf, step, getD_increment]
    by_cases hpeer : peer = id
    · simp only [if_pos hpeer]
      exact ⟨rfl, rfl⟩
    · simp only [if_neg hpeer]
      exact ⟨rfl, rfl⟩
  | cleared => exact ⟨rfl, rfl⟩
  | tick => exact ⟨h.winsOf_tick id, racesOf_tick t id⟩

theorem toNat_succ {x : ZceUint32} (h : x.toNat + 1 < 2 ^ 32) : (x + 1#32).toNat = x.toNat + 1 := by
  rw [BitVec.toNat_add]
  exact Nat.mod_eq_of_lt h

theorem toNat_half (x : ZceUint32) : (x >>> 1).toNat = x.toNat / 2 := by
  rw [BitVec.toNat_ushiftRight, Nat.shiftRight_eq_div_pow, Nat.pow_one]

theorem score_concat {log : List RaceEvent} {e : RaceEvent} {id : ZceUint32}
    (h : (of log).score id = Score.of (marks id log))
    (hroom : ((of log).score id).races + 1 < 2 ^ 32 ∨ ∀ m ∈ e.mark id, m.isRace = false) :
    (of (log ++ [e])).score id = Score.of (marks id (log ++ [e])) := by
  have hle : ((of log).winsOf id).toNat ≤ ((of log).racesOf id).toNat := by
    have := Score.wins_le_races (marks id log)
    rwa [← h] at this
  obtain ⟨hwins, hraces⟩ := (covered_of log).counters_step e id
  rw [of_concat, marks_concat, score, hwins, hraces]
  cases hmark : e.mark id with
  | none =>
    rw [Option.toList_none, List.append_nil, ← h]
    rfl
  | some m =>
    rw [Option.toList_some, Score.of_concat, ← h]
    have hfits : m.isRace = true → ((of log).racesOf id).toNat + 1 < 2 ^ 32 := fun hrace =>
      hroom.resolve_right fun hidle =>
        absurd (hrace.symm.trans (hidle m hmark)) Bool.noConfusion
    cases m with
    | won =>
      have hfits := hfits rfl
      rw [afterMark, toNat_succ (Nat.lt_of_le_of_lt (Nat.succ_le_succ hle) hfits),
        toNat_succ hfits]
      rfl
    | lost =>
      rw [afterMark, toNat_succ (hfits rfl)]
      rfl
    | halve =>
      rw [afterMark, toNat_half, toNat_half]
      rfl
    | clear => rfl

theorem score_of_paced {log : List RaceEvent} {id : ZceUint32}
    (h : Score.Paced (2 ^ 31) (marks id log)) : (of log).score id = Score.of (marks id log) := by
  induction log using List.reverseRecOn with
  | nil => rfl
  | append_singleton log e ih =>
    rw [marks_concat] at h
    have hold := ih h.left
    refine score_concat hold (Or.inl ?_)
    rw [hold]
    exact h.left.races_lt

end Tally

namespace DataStream

variable (S : Setting σ)

def renews (st : StreamState σ) (f : List ZceByte) : Bool :=
  match fgwSegmentPeekHeader f f.length with
  | .header hr hdr =>
    (!S.config.verifyCrc || fgwSegmentVerifyCrc f hdr hr) && hdr.isHello &&
      (S.zds.unpackHello ((f.drop hr).take hdr.payloadLen.toNat)).any fun hello =>
        hello.protoVersion = kFgwProtoVersion ∧ hello.generation ≠ 0#32 ∧
          hello.generation ≠ st.peerGeneration
  | _ => false

def raceEvent (ch : ChannelRef) (st : StreamState σ) (f : List ZceByte) : Option RaceEvent :=
  match verdict S st f with
  | .passedOver => if renews S st f then some .cleared else none
  | .duplicate =>
    if (st.peers ch).channel ≠ 0#32 then some (.lost (st.peers ch).channel) else none
  | .outside => none
  | .accepted _ =>
    if (st.peers ch).channel ≠ 0#32 then some (.won (st.peers ch).channel) else none

def racesAt (ds : DataStream σ) : Op σ → List RaceEvent
  | .onChannelBytes ch buf =>
    (frameTrace S ch ds.toStreamState (segmentFrames (ds.scratch ch ++ buf))).filterMap fun p =>
      raceEvent S ch p.1 p.2
  | .emitFeedback => [.tick]
  | _ => []

def raceHistory : DataStream σ → List (Op σ) → List RaceEvent
  | _, [] => []
  | ds, op :: ops => racesAt S ds op ++ raceHistory (step S ds op) ops

theorem ServesOnly.tally {st st' : StreamState σ} (h : ServesOnly st st') : st'.tally = st.tally :=
  (congrArg StreamState.tally h).trans rfl

theorem noteLoser_tally (ch : ChannelRef) (st : StreamState σ) : (noteLoser ch st).tally =
    if (st.peers ch).channel ≠ 0#32 then st.tally.step (.lost (st.peers ch).channel)
    else st.tally := by
  unfold noteLoser
  split <;> rfl

theorem noteWinner_tally (ch : ChannelRef) (st : StreamState σ) : (noteWinner ch st).tally =
    if (st.peers ch).channel ≠ 0#32 then st.tally.step (.won (st.peers ch).channel)
    else st.tally := by
  unfold noteWinner
  split <;> rfl

theorem onAck_tally (payload : List ZceByte) (st : StreamState σ) :
    (onAck S payload st).tally = st.tally := by
  unfold onAck
  split
  · rfl
  · split
    · dsimp only
      split <;> rfl
    · rfl

theorem onHello_tally (ch : ChannelRef) (payload : List ZceByte) (st : StreamState σ) :
    (onHello S ch payload st).tally =
      if (S.zds.unpackHello payload).any (fun hello => hello.protoVersion = kFgwProtoVersion ∧
        hello.generation ≠ 0#32 ∧ hello.generation ≠ st.peerGeneration) then Tally.empty
      else st.tally := by
  unfold onHello
  cases S.zds.unpackHello payload with
  | none => rfl
  | some hello =>
    simp only [Option.any_some, decide_eq_true_eq]
    by_cases hversion : hello.protoVersion = kFgwProtoVersion
    · rw [if_neg (not_not.2 hversion)]
      by_cases hnew : hello.generation ≠ 0#32 ∧ hello.generation ≠ st.peerGeneration
      · rw [if_pos hnew, if_pos ⟨hversion, hnew⟩]
        rfl
      · rw [if_neg hnew, if_neg fun h => hnew h.2]
        rfl
    · rw [if_pos hversion, if_neg fun h => hversion h.1]

theorem renews_header {st : StreamState σ} {f : List ZceByte} {hr : Nat} {hdr : FgwSegmentHeader}
    (hpeek : fgwSegmentPeekHeader f f.length = .header hr hdr) : renews S st f =
      ((!S.config.verifyCrc || fgwSegmentVerifyCrc f hdr hr) && hdr.isHello &&
        (S.zds.unpackHello ((f.drop hr).take hdr.payloadLen.toNat)).any fun hello =>
          hello.protoVersion = kFgwProtoVersion ∧ hello.generation ≠ 0#32 ∧
            hello.generation ≠ st.peerGeneration) := by
  unfold renews
  rw [hpeek]

theorem handleFrame_tally_passedOver {ch : ChannelRef} {st : StreamState σ} {f : List ZceByte}
    (hpass : verdict S st f = .passedOver) : (handleFrame S ch st f).tally =
      if renews S st f then Tally.empty else st.tally := by
  unfold handleFrame segmentHandle
  split
  · rename_i hr hdr hpeek
    rw [renews_header S hpeek]
    simp only [onFrame]
    by_cases hcrc : S.config.verifyCrc ∧ ¬ fgwSegmentVerifyCrc f hdr hr
    · have hbad : (!S.config.verifyCrc || fgwSegmentVerifyCrc f hdr hr) = false := by
        simpa using hcrc
      rw [if_pos hcrc, hbad, Bool.false_and, Bool.false_and, if_neg Bool.false_ne_true]
    have hgood : (!S.config.verifyCrc || fgwSegmentVerifyCrc f hdr hr) = true := by
      rw [← Bool.not_eq_false]
      simpa using hcrc
    rw [if_neg hcrc, hgood, Bool.true_and]
    cases hhello : hdr.isHello with
    | true => rw [if_pos rfl, Bool.true_and, onHello_tally]
    | false =>
      rw [if_neg Bool.false_ne_true, Bool.false_and, if_neg Bool.false_ne_true]
      split
      · rfl
      split
      · exact onAck_tally S _ st
      · rename_i hbeat hack
        rcases passedOver_of S hpass hpeek with hbad | hcontrol
        · exact absurd hbad hcrc
        · simp [isControl, hhello, hbeat, hack] at hcontrol
  · rename_i hpeek
    unfold renews
    split
    · rename_i hr hdr hheader
      exact absurd hheader (hpeek hr hdr)
    · rfl

theorem handleFrame_tally (ch : ChannelRef) (st : StreamState σ) (f : List ZceByte) :
    (handleFrame S ch st f).tally = (raceEvent S ch st f).elim st.tally st.tally.step := by
  unfold raceEvent
  rcases handleFrame_verdict S ch st f with ⟨hpass, -⟩ | ⟨hr, hdr, -, -, hsegment, hverdict⟩
  · rw [hpass, handleFrame_tally_passedOver S hpass]
    dsimp only
    split <;> rfl
  · rw [hsegment, hverdict, onSessionSegment]
    split
    · rw [noteLoser_tally]
      split <;> rfl
    · split
      · rfl
      · rw [(acceptSegment_servesOnly S _ hdr _ _).tally, noteWinner_tally]
        split <;> rfl

theorem emitFeedback_tally (st : StreamState σ) :
    (emitFeedback S st).tally = st.tally.step .tick := by
  unfold emitFeedback
  rw [Tally.step]
  split
  · rename_i hempty
    exact (if_pos hempty).symm
  · rename_i hraces
    refine Eq.trans ?_ (if_neg hraces).symm
    dsimp only
    split
    · rfl
    split
    · rfl
    · split <;> rfl

theorem frames_tally (ch : ChannelRef) (fs : List (List ZceByte)) (st : StreamState σ) :
    (fs.foldl (handleFrame S ch) st).tally =
      ((frameTrace S ch st fs).filterMap fun p => raceEvent S ch p.1 p.2).foldl Tally.step st.tally := by
  induction fs generalizing st with
  | nil => rfl
  | cons f fs ih =>
    rw [List.foldl_cons, ih, handleFrame_tally, frameTrace, List.filterMap_cons]
    cases raceEvent S ch st f <;> rfl

theorem step_tally (ds : DataStream σ) (op : Op σ) :
    (step S ds op).toStreamState.tally = (racesAt S ds op).foldl Tally.step ds.toStreamState.tally := by
  cases op with
  | openSession sid handler =>
    exact (ServesOnly.of_sendsOnly (openSession_sendsOnly S sid handler _)).tally
  | closeSession sid ingressKey =>
    exact (ServesOnly.of_sendsOnly (closeSession_sendsOnly S sid ingressKey _)).tally
  | sendSessionData sid buf ingressKey =>
    exact (ServesOnly.of_sendsOnly (sendSessionData_sendsOnly S sid buf ingressKey _)).tally
  | onChannelBytes ch buf =>
    change (onChannelBytes S ch buf ds).toStreamState.tally = _
    rw [onChannelBytes_frames]
    exact frames_tally S ch _ _
  | emitFeedback => exact emitFeedback_tally S _
  | owner owner => rfl
  | selector selector => rfl

theorem run_tally (ds : DataStream σ) (ops : List (Op σ)) :
    (run S ds ops).toStreamState.tally = (raceHistory S ds ops).foldl Tally.step ds.toStreamState.tally := by
  induction ops generalizing ds with
  | nil => rfl
  | cons op ops ih => rw [run_cons, ih, step_tally, raceHistory, List.foldl_append]

end DataStream

end Libfgw
