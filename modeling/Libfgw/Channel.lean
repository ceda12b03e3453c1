import Libfgw.Base
import Mathlib.Algebra.Order.Ring.Rat
import Mathlib.Data.List.Nodup
import Mathlib.Data.List.Sort

namespace Libfgw

/-- The address of a channel object. -/
abbrev ChannelRef := Nat

structure LinkQuality where
  rttMs : ZceUint32 := 0#32
  lossRate : ℚ := 0

/-- A link channel as the sender finds it: its flags, and what `sendBytes` will answer
to a buffer. -/
structure FgwChannel where
  ref : ChannelRef
  channelId : ZceUint32
  priority : ZceUint32 := 100#32
  connected : Bool := false
  stalled : Bool := false
  quality : LinkQuality := {}
  sendBytes : List ZceByte → Int

def FgwChannel.isLive (ch : FgwChannel) : Bool := ch.connected && !ch.stalled

/-- The channels of a manager, in the order of their ids. -/
structure ChannelManager where
  channels : List FgwChannel
  sorted : channels.Pairwise (fun a b => a.channelId < b.channelId)

def ChannelManager.empty : ChannelManager := ⟨[], List.Pairwise.nil⟩

def ChannelManager.liveChannels (m : ChannelManager) : List FgwChannel :=
  m.channels.filter FgwChannel.isLive

theorem ChannelManager.liveChannels_sorted (m : ChannelManager) :
    m.liveChannels.Pairwise (fun a b => a.channelId < b.channelId) := m.sorted.filter _

theorem ChannelManager.isLive_of_mem {m : ChannelManager} {ch : FgwChannel}
    (h : ch ∈ m.liveChannels) : ch.isLive = true := (List.mem_filter.1 h).2

inductive ZfgwMultipathMode
  | best | all | weighted
  deriving DecidableEq

structure Entry where
  id : ZceUint32
  weight : ℚ
  deriving DecidableEq

/-- `std::sort` by decreasing weight.  The order of equal weights is left open. -/
structure StdSort where
  sort : List Entry → List Entry
  perm : ∀ es, (sort es).Perm es
  ordered : ∀ es, (sort es).Pairwise (fun a b => ¬ b.weight > a.weight)

def notLighter (a b : Entry) : Prop := b.weight ≤ a.weight

instance : DecidableRel notLighter := fun a b => inferInstanceAs (Decidable (b.weight ≤ a.weight))

instance : Std.Total notLighter := ⟨fun a b => le_total b.weight a.weight⟩

instance : IsTrans Entry notLighter := ⟨fun _ _ _ hab hbc => hbc.trans hab⟩

def stableSort : StdSort where
  sort es := es.insertionSort notLighter
  perm es := es.perm_insertionSort notLighter
  ordered es := (es.pairwise_insertionSort notLighter).imp not_lt.2

structure LinkSelector where
  mode : ZfgwMultipathMode := .weighted
  primaryChannelId : ZceUint32 := 0#32
  probeRotation : BitVec 64 := 0#64
  deriving DecidableEq

def linkWeight (ch : FgwChannel) : ℚ :=
  let rtt : ℚ := if ch.quality.rttMs = 0#32 then 50 else ch.quality.rttMs.toNat
  let loss := ch.quality.lossRate
  let loss := if loss < 0 then 0 else loss
  let loss := if loss > 99 / 100 then 99 / 100 else loss
  ch.priority.toNat / (rtt * (1 + 10 * loss))

namespace LinkSelector

def ranked (sort : StdSort) (pool : List FgwChannel) : List Entry :=
  sort.sort ((pool.filter FgwChannel.isLive).map (fun ch => ⟨ch.channelId, linkWeight ch⟩))

def primaryIdx (sel : LinkSelector) (ranked : List Entry) : Nat :=
  if sel.primaryChannelId ≠ 0#32 then
    (ranked.findIdx? (fun e => e.id = sel.primaryChannelId)).getD 0
  else 0

def probeIdx (sel : LinkSelector) (ranked : List Entry) : Nat :=
  let r := sel.probeRotation.toNat % (ranked.length - 1)
  if r < sel.primaryIdx ranked then r else r + 1

/-- The ids of the channels that carry the next segment, and the selector afterwards. -/
def select (sort : StdSort) (sel : LinkSelector) (pool : List FgwChannel) :
    List ZceUint32 × LinkSelector :=
  let ranked := ranked sort pool
  match sel.mode with
  | .best => (ranked.head?.toList.map Entry.id, sel)
  | .all => (ranked.map Entry.id, sel)
  | .weighted =>
    let primary := ranked[sel.primaryIdx ranked]?.toList
    if ranked.length > 1 then
      ((primary ++ ranked[sel.probeIdx ranked]?.toList).map Entry.id,
        { sel with probeRotation := sel.probeRotation + 1 })
    else (primary.map Entry.id, sel)

end LinkSelector

end Libfgw
