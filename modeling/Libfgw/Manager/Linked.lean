import Libfgw.DataStream.Run
import Libfgw.Manager.Laws

/-! A manager and the stream that it feeds. -/

namespace Libfgw

open Lib

namespace DataStream

variable {σ : Type}

/-- A channel object that a manager has made since has not been told who its peer is. -/
def meetChannels (old new : ManagerState) (ds : DataStream σ) : DataStream σ :=
  { ds with
    peers := fun ref =>
      if ∃ e ∈ new.channels.entries, e.2.ref = ref ∧
          (old.channels.find? e.1).map LinkChannel.opened ≠ some e.2.opened then {}
      else ds.peers ref }

@[simp] theorem meetChannels_self (m : ManagerState) (ds : DataStream σ) :
    ds.meetChannels m m = ds := by
  have hnone : ∀ ref, ¬ ∃ e ∈ m.channels.entries, e.2.ref = ref ∧
      (m.channels.find? e.1).map LinkChannel.opened ≠ some e.2.opened := by
    rintro ref ⟨e, he, -, hnew⟩
    rw [SortedMap.find?_eq_some.2 he] at hnew
    exact hnew rfl
  simp only [meetChannels, hnone, if_false]

end DataStream

/-- The stream is the subscriber 0. -/
structure LinkedStream (σ : Type) where
  manager : ManagerState
  stream : DataStream σ

namespace LinkedStream

variable {σ : Type} (H : Host) (S : Setting σ)

def subscribe (m : ManagerState) (ds : DataStream σ) : LinkedStream σ where
  manager := ChannelManager.addBytesSubscriber 0 m
  stream := ds

inductive Op (σ : Type)
  | manager (op : ChannelManager.Op)
  | bytes (channelId : ZceUint32) (buf : List ZceByte)
  | stream (op : DataStream.Op σ)
  | heartbeat

def reader (s : LinkedStream σ) (channelId : ZceUint32) : Option LinkChannel :=
  (s.manager.channels.find? channelId).filter fun chan =>
    chan.state = .up ∧ 0 ∈ s.manager.bytesSubscribers

def dispatchChannelBytes (channelId : ZceUint32) (buf : List ZceByte) (s : LinkedStream σ) :
    LinkedStream σ :=
  match s.reader channelId with
  | none => s
  | some chan => { s with stream := DataStream.onChannelBytes S chan.ref buf s.stream }

def onHeartbeatTick (s : LinkedStream σ) : LinkedStream σ :=
  if s.manager.heartbeatTimer.isSome ∧ 0 ∈ s.manager.bytesSubscribers then
    { s with stream := DataStream.step S s.stream .emitFeedback }
  else s

/-- The bytes of a channel reach the stream through `dispatchChannelBytes` only. -/
def step (s : LinkedStream σ) : Op σ → LinkedStream σ
  | .manager op =>
    let manager := ChannelManager.step H s.manager op
    { manager := manager, stream := s.stream.meetChannels s.manager manager }
  | .bytes channelId buf => dispatchChannelBytes S channelId buf s
  | .stream (.onChannelBytes _ _) => s
  | .stream op => { s with stream := DataStream.step S s.stream op }
  | .heartbeat => onHeartbeatTick S s

def run (s : LinkedStream σ) (ops : List (Op σ)) : LinkedStream σ := ops.foldl (step H S) s

@[simp] theorem run_nil (s : LinkedStream σ) : run H S s [] = s := rfl

@[simp] theorem run_cons (s : LinkedStream σ) (op : Op σ) (ops : List (Op σ)) :
    run H S s (op :: ops) = run H S (step H S s op) ops := rfl

end LinkedStream

end Libfgw
