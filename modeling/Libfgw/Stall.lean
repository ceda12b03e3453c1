import Libfgw.Channel
import Libfgw.Lib.EachAfter

namespace Libfgw

open Lib

/-- A link channel with the receive side of its quality. -/
structure WatchedChannel extends FgwChannel where
  bytesRecv : BitVec 64 := 0#64
  lastRxTick : ZceUint32 := 0#32

def zceTick (now : Nat) : ZceUint32 := BitVec.ofNat 32 now

def fgwLinkStalled (nowTick lastRxTick timeoutMs : ZceUint32) : Bool :=
  decide (nowTick - lastRxTick > timeoutMs)

def linkTimeoutMs (linkTimeout : ZceUint16) : ZceUint32 :=
  (if linkTimeout > 0#16 then linkTimeout.setWidth 32 else 15#32) * 1000#32

inductive LinkEvent
  | connect
  | receive (n : ZceUint32)
  | heartbeat

namespace WatchedChannel

def markConnected (v : Bool) (now : Nat) (ch : WatchedChannel) : WatchedChannel :=
  let ch := { ch with connected := v }
  if v then { ch with lastRxTick := zceTick now } else ch

def addRecvBytes (n : ZceUint32) (now : Nat) (ch : WatchedChannel) : WatchedChannel :=
  { ch with
    bytesRecv := ch.bytesRecv + n.setWidth 64
    lastRxTick := zceTick now
    stalled := false }

def evaluateStall (timeoutMs : ZceUint32) (now : Nat) (ch : WatchedChannel) : WatchedChannel :=
  { ch with stalled := fgwLinkStalled (zceTick now) ch.lastRxTick timeoutMs }

/-- Each event happens at a real time. -/
def step (timeoutMs : ZceUint32) (ch : WatchedChannel) : Nat × LinkEvent → WatchedChannel
  | (now, .connect) => ch.markConnected true now
  | (now, .receive n) => ch.addRecvBytes n now
  | (now, .heartbeat) => ch.evaluateStall timeoutMs now

def run (timeoutMs : ZceUint32) (start : Nat) (ch : WatchedChannel) (es : List (Nat × LinkEvent)) :
    WatchedChannel := es.foldl (step timeoutMs) (ch.markConnected true start)

theorem run_concat (timeoutMs : ZceUint32) (start : Nat) (ch : WatchedChannel)
    (es : List (Nat × LinkEvent)) (e : Nat × LinkEvent) :
    run timeoutMs start ch (es ++ [e]) = (run timeoutMs start ch es).step timeoutMs e := by
  rw [run, run, List.foldl_append, List.foldl_cons, List.foldl_nil]

end WatchedChannel

def lastContact (start : Nat) (es : List (Nat × LinkEvent)) : Nat :=
  es.foldl (fun last e => match e.2 with
    | .heartbeat => last
    | _ => e.1) start

theorem lastContact_concat (start : Nat) (es : List (Nat × LinkEvent)) (e : Nat × LinkEvent) :
    lastContact start (es ++ [e]) = match e.2 with
      | .heartbeat => lastContact start es
      | _ => e.1 := by
  rw [lastContact, lastContact, List.foldl_append, List.foldl_cons, List.foldl_nil]

theorem lastContact_heartbeats (start : Nat) (es : List (Nat × LinkEvent)) {beats : List (Nat × LinkEvent)}
    (hbeats : ∀ e ∈ beats, e.2 = .heartbeat) :
    lastContact start (es ++ beats) = lastContact start es := by
  induction beats using List.reverseRecOn with
  | nil => rw [List.append_nil]
  | append_singleton beats e ih =>
    obtain ⟨hbeats, hlast⟩ := List.forall_mem_append.1 hbeats
    rw [← List.append_assoc, lastContact_concat, hlast e List.mem_cons_self]
    exact ih hbeats

def Timely (start : Nat) (es : List (Nat × LinkEvent)) : Prop :=
  (start :: es.map Prod.fst).Pairwise (· ≤ ·)

instance (start : Nat) (es : List (Nat × LinkEvent)) : Decidable (Timely start es) :=
  inferInstanceAs (Decidable (List.Pairwise _ _))

theorem lastContact_mem (start : Nat) (es : List (Nat × LinkEvent)) :
    lastContact start es ∈ start :: es.map Prod.fst := by
  induction es using List.reverseRecOn with
  | nil => exact List.mem_cons_self
  | append_singleton es e ih =>
    rw [lastContact_concat, List.map_append, ← List.cons_append, List.mem_append]
    split
    · exact Or.inl ih
    · exact Or.inr List.mem_cons_self

theorem Timely.le {start : Nat} {pre post : List (Nat × LinkEvent)} (h : Timely start (pre ++ post)) :
    ∀ e ∈ post, lastContact start pre ≤ e.1 := by
  intro e he
  rw [Timely, List.map_append, ← List.cons_append, List.pairwise_append] at h
  exact h.2.2 _ (lastContact_mem start pre) _ (List.mem_map_of_mem he)

theorem fgwLinkStalled_iff {last now : Nat} (hle : last ≤ now) (timeoutMs : ZceUint32) :
    fgwLinkStalled (zceTick now) (zceTick last) timeoutMs = true ↔
      timeoutMs.toNat < (now - last) % 2 ^ 32 := by
  have helapsed : (zceTick now - zceTick last).toNat = (now - last) % 2 ^ 32 := by
    simp only [zceTick, BitVec.toNat_sub, BitVec.toNat_ofNat]
    omega
  rw [fgwLinkStalled, decide_eq_true_eq, gt_iff_lt, BitVec.lt_def, helapsed]

namespace WatchedChannel

variable (timeoutMs : ZceUint32) (start : Nat) (ch : WatchedChannel)

theorem run_lastRxTick (es : List (Nat × LinkEvent)) :
    (run timeoutMs start ch es).lastRxTick = zceTick (lastContact start es) := by
  induction es using List.reverseRecOn with
  | nil => rfl
  | append_singleton es e ih =>
    obtain ⟨now, e⟩ := e
    rw [run_concat, lastContact_concat]
    cases e with
    | connect => rfl
    | receive n => rfl
    | heartbeat => exact ih

theorem run_heartbeat (es : List (Nat × LinkEvent)) (now : Nat) :
    (run timeoutMs start ch (es ++ [(now, .heartbeat)])).stalled =
      fgwLinkStalled (zceTick now) (zceTick (lastContact start es)) timeoutMs := by
  rw [run_concat, ← run_lastRxTick timeoutMs start ch]
  rfl

theorem not_mem_liveChannels {ch : WatchedChannel} (h : ch.stalled = true) (m : ChannelManager) :
    ch.toFgwChannel ∉ m.liveChannels := by
  intro hlive
  have := ChannelManager.isLive_of_mem hlive
  rw [FgwChannel.isLive, h, Bool.not_true, Bool.and_false] at this
  exact absurd this Bool.false_ne_true

end WatchedChannel

/-- The stall status follows the silence of the link: a heartbeat finds it stalled when nothing has
come for longer than the timeout, bytes end a stall, and a silent link that has been found stalled
stays out of the selection. -/
structure FollowsSilence (timeoutMs : ZceUint32) (start : Nat) (ch : WatchedChannel)
    (es : List (Nat × LinkEvent)) : Prop where
  heartbeat : ∀ pre now post, es = pre ++ (now, .heartbeat) :: post →
    ((ch.run timeoutMs start (pre ++ [(now, .heartbeat)])).stalled = true ↔
      timeoutMs.toNat < now - lastContact start pre)
  receive : ∀ pre now n post, es = pre ++ (now, .receive n) :: post →
    (ch.run timeoutMs start (pre ++ [(now, .receive n)])).stalled = false
  silent : ∀ pre now beats post, es = pre ++ (now, .heartbeat) :: (beats ++ post) →
    (∀ e ∈ beats, e.2 = .heartbeat) →
    (ch.run timeoutMs start (pre ++ [(now, .heartbeat)])).stalled = true →
    ∀ m : ChannelManager,
      (ch.run timeoutMs start (pre ++ (now, .heartbeat) :: beats)).toFgwChannel ∉ m.liveChannels

/-- At each heartbeat a silence beyond the timeout is still beyond it when whole turns of the clock
are left out. -/
def Perceptible (timeoutMs : ZceUint32) (start : Nat) (es : List (Nat × LinkEvent)) : Prop :=
  ∀ pre now post, es = pre ++ (now, .heartbeat) :: post →
    now - lastContact start pre ≤ timeoutMs.toNat ∨
      timeoutMs.toNat < (now - lastContact start pre) % 2 ^ 32

theorem stalled_of_heartbeats {timeoutMs : ZceUint32} {start : Nat} {ch : WatchedChannel}
    {es : List (Nat × LinkEvent)} (htimes : Timely start es)
    (hbeat : ∀ pre now post, es = pre ++ (now, .heartbeat) :: post →
      ((ch.run timeoutMs start (pre ++ [(now, .heartbeat)])).stalled = true ↔
        timeoutMs.toNat < now - lastContact start pre))
    {pre beats post : List (Nat × LinkEvent)} {now : Nat}
    (hsplit : es = pre ++ (now, .heartbeat) :: (beats ++ post)) (hbeats : ∀ e ∈ beats, e.2 = .heartbeat)
    (hstalled : (ch.run timeoutMs start (pre ++ [(now, .heartbeat)])).stalled = true) :
    (ch.run timeoutMs start (pre ++ (now, .heartbeat) :: beats)).stalled = true := by
  rcases List.eq_nil_or_concat beats with rfl | ⟨beats, e, rfl⟩
  · exact hstalled
  rw [List.concat_eq_append] at hsplit hbeats ⊢
  obtain ⟨hbefore, hlast⟩ := List.forall_mem_append.1 hbeats
  obtain ⟨later, kind⟩ := e
  obtain rfl : kind = .heartbeat := hlast (later, kind) List.mem_cons_self
  have hsilent : lastContact start (pre ++ (now, .heartbeat) :: beats) = lastContact start pre :=
    lastContact_heartbeats start pre (List.forall_mem_cons.2 ⟨rfl, hbefore⟩)
  have hthen := (hbeat pre now _ hsplit).1 hstalled
  have hnow : now ≤ later := by
    rw [hsplit, Timely, List.map_append, ← List.cons_append, List.pairwise_append] at htimes
    refine (List.pairwise_cons.1 htimes.2.1).1 later ?_
    simp
  have hsplit' : es = (pre ++ (now, .heartbeat) :: beats) ++ (later, .heartbeat) :: post := by
    rw [hsplit]
    simp
  have hlater := (hbeat _ later post hsplit').2 (by rw [hsilent]; omega)
  rwa [List.append_assoc, List.cons_append] at hlater

/-- The stall status follows the silence of the link exactly as long as no heartbeat comes within
the timeout after a whole turn of the clock without contact. -/
theorem followsSilence_iff (timeoutMs : ZceUint32) (start : Nat) (ch : WatchedChannel)
    (es : List (Nat × LinkEvent)) (htimes : Timely start es) :
    FollowsSilence timeoutMs start ch es ↔ Perceptible timeoutMs start es := by
  have hseen : ∀ pre now post, es = pre ++ (now, .heartbeat) :: post →
      ((ch.run timeoutMs start (pre ++ [(now, .heartbeat)])).stalled = true ↔
        timeoutMs.toNat < (now - lastContact start pre) % 2 ^ 32) := by
    intro pre now post hsplit
    rw [hsplit] at htimes
    rw [WatchedChannel.run_heartbeat]
    exact fgwLinkStalled_iff (htimes.le (now, .heartbeat) List.mem_cons_self) timeoutMs
  constructor
  · intro h pre now post hsplit
    have hexact := (hseen pre now post hsplit).symm.trans (h.heartbeat pre now post hsplit)
    rcases Nat.lt_or_ge timeoutMs.toNat (now - lastContact start pre) with hlong | hshort
    · exact Or.inr (hexact.2 hlong)
    · exact Or.inl hshort
  · intro h
    have hbeat : ∀ pre now post, es = pre ++ (now, .heartbeat) :: post →
        ((ch.run timeoutMs start (pre ++ [(now, .heartbeat)])).stalled = true ↔
          timeoutMs.toNat < now - lastContact start pre) := by
      intro pre now post hsplit
      have hmod := Nat.mod_le (now - lastContact start pre) (2 ^ 32)
      rw [hseen pre now post hsplit]
      rcases h pre now post hsplit with hshort | hlong
      · exact iff_of_false (by omega) (by omega)
      · exact iff_of_true hlong (by omega)
    refine ⟨hbeat, fun pre now n post _ => ?_, fun pre now beats post hsplit hbeats hstalled =>
      WatchedChannel.not_mem_liveChannels (stalled_of_heartbeats htimes hbeat hsplit hbeats hstalled)⟩
    rw [WatchedChannel.run_concat]
    rfl

def watchedLink : WatchedChannel := { ref := 1, channelId := 7#32, sendBytes := fun buf => buf.length }

theorem followsSilence_iff_recovered : FollowsSilence (linkTimeoutMs 0#16) 1000 watchedLink
    [(10000, .heartbeat), (20000, .heartbeat), (21000, .receive 1#32), (25000, .heartbeat)] := by
  refine (followsSilence_iff (linkTimeoutMs 0#16) 1000 watchedLink _ (by decide)).2 ?_
  intro pre now post hsplit
  have hlate : now ≤ 25000 := by
    have hmem : (now, LinkEvent.heartbeat) ∈ pre ++ (now, .heartbeat) :: post := by simp
    rw [← hsplit] at hmem
    simp at hmem
    omega
  rw [Nat.mod_eq_of_lt (by omega)]
  exact (Nat.lt_or_ge _ _).symm

theorem stalled_link_revives : ¬ ∀ es, Timely 0 es →
    FollowsSilence (linkTimeoutMs 15#16) 0 watchedLink es := by
  intro hclaim
  have hfollows := hclaim [(20000, .heartbeat), (4294970000, .heartbeat)] (by decide)
  have hstalled := (hfollows.heartbeat [(20000, .heartbeat)] 4294970000 [] rfl).2 (by decide)
  exact absurd hstalled (by decide)

end Libfgw
