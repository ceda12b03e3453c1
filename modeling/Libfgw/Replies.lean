import Libfgw.DataStream.LinkChoice
import Libfgw.Restart

namespace Libfgw

open FgwSegmentHeader Lib DataStream

variable {σ : Type}

def Call.ingress (S : Setting σ) : Call → ZceUint32
  | .openSession _ _ => S.config.localIngressId
  | .closeSession _ ingressKey => resolveIngressKey S ingressKey
  | .sendSessionData _ _ ingressKey => resolveIngressKey S ingressKey

section Replies

variable (S : Setting σ) (peers : ChannelRef → PeerIdentity) (ingress : ZceUint32)

/-- Some channel of the Inport gets the segment if one is live, and no other Inport's does. -/
def OwnerOnly (time : Nat) (handed : List (FgwChannel × Int)) : Prop :=
  ((∃ ch ∈ (S.manager time).liveChannels, (peers ch.ref).ingress = ingress) →
      ∃ p ∈ handed, (peers p.1.ref).ingress = ingress) ∧
    ∀ p ∈ handed, (peers p.1.ref).ingress = ingress

/-- The channels at the places that the mode uses are the Inport's. -/
def RanksOwner (time : Nat) (sel : LinkSelector) : Prop :=
  ∀ ch ∈ (S.manager time).liveChannels,
    ∀ k ∈ sel.places (LinkSelector.ranked S.sort (S.manager time).liveChannels),
      LinkSelector.StandsAt S.sort (S.manager time).liveChannels k ch.channelId →
        (peers ch.ref).ingress = ingress

variable {S peers ingress}

theorem ownerOnly_handedTo_iff {time : Nat} (hlive : (S.manager time).liveChannels ≠ [])
    (sel : LinkSelector) (frame : List ZceByte) :
    OwnerOnly S peers ingress time (handedTo S time sel frame) ↔
      RanksOwner S peers ingress time sel := by
  constructor
  · rintro ⟨-, honly⟩ ch hch k hk hstands
    exact honly (ch, ch.sendBytes frame) (mem_handedTo.2 ⟨hch, ⟨k, hk, hstands⟩, rfl⟩)
  · intro hranks
    have honly : ∀ p ∈ handedTo S time sel frame, (peers p.1.ref).ingress = ingress := by
      intro p hp
      obtain ⟨hch, ⟨k, hk, hstands⟩, -⟩ := mem_handedTo.1 hp
      exact hranks p.1 hch k hk hstands
    obtain ⟨p, hp⟩ := List.exists_mem_of_ne_nil _ (handedTo_ne_nil sel frame hlive)
    exact ⟨fun _ => ⟨p, hp, honly p hp⟩, honly⟩

theorem ranksOwner_all_iff {time : Nat} {sel : LinkSelector} (hmode : sel.mode = .all) :
    RanksOwner S peers ingress time sel ↔
      ∀ ch ∈ (S.manager time).liveChannels, (peers ch.ref).ingress = ingress := by
  constructor
  · intro hranks ch hch
    obtain ⟨k, hk⟩ := LinkSelector.exists_standsAt.2
      ⟨ch, hch, ChannelManager.isLive_of_mem hch, rfl⟩
    obtain ⟨e, he, -⟩ := LinkSelector.standsAt_iff.1 hk
    refine hranks ch hch k ?_ hk
    rw [LinkSelector.places, hmode]
    exact List.mem_range.2 (List.getElem?_eq_some_iff.1 he).1
  · exact fun hall ch hch _ _ _ => hall ch hch

end Replies

/-- A segment that a call sends reaches the session's Inport, and no other, exactly if the links
at the places of the mode are that Inport's; and so it is in every mode, with every primary and
every rotation, exactly if all links that are live when it is sent are that Inport's. -/
theorem replies_reach_owner_iff (S : Setting σ) (st : StreamState σ) (c : Call) :
    (∀ a ∈ emitted S [c] st, a.result.isOk →
      (OwnerOnly S st.peers (c.ingress S) a.time a.handed ↔
        RanksOwner S st.peers (c.ingress S) a.time a.selector)) ∧
    ((∀ sel, ∀ a ∈ emitted S [c] { st with selector := sel }, a.result.isOk →
        OwnerOnly S st.peers (c.ingress S) a.time a.handed) ↔
      ∀ seg ∈ outgoing S st c, Sendable S seg.1 seg.2.length →
        ∀ ch ∈ (S.manager seg.1).liveChannels, (st.peers ch.ref).ingress = c.ingress S) := by
  have hone : ∀ sel, ∀ a ∈ emitted S [c] { st with selector := sel }, a.result.isOk →
      (OwnerOnly S st.peers (c.ingress S) a.time a.handed ↔
        RanksOwner S st.peers (c.ingress S) a.time a.selector) := by
    intro sel a ha hok
    have hfaithful := (emitted_logs (S := S) { st with selector := sel } c).faithful a ha
    rw [hfaithful.handed_eq, if_pos hok]
    exact ownerOnly_handedTo_iff (hfaithful.ok_iff.1 hok).2 _ _
  refine ⟨hone st.selector, ?_, ?_⟩
  · intro hall seg hseg hsend
    have hlogs := emitted_logs (S := S) { st with selector := { mode := .all } } c
    have hout : outgoing S { st with selector := { mode := .all } } c = outgoing S st c := by
      cases c <;> rfl
    rw [hout] at hlogs
    rw [← hlogs.segs_eq] at hseg
    obtain ⟨a, ha, rfl⟩ := List.mem_map.1 hseg
    have hok : a.result.isOk := (hlogs.faithful a ha).ok_iff.2 hsend
    exact (ranksOwner_all_iff (hlogs.mode_eq a ha)).1
      ((hone _ a ha hok).1 (hall _ a ha hok))
  · intro hall sel a ha hok
    have hlogs := emitted_logs (S := S) { st with selector := sel } c
    have hout : outgoing S { st with selector := sel } c = outgoing S st c := by
      cases c <;> rfl
    rw [hout] at hlogs
    have hseg : (a.time, a.payload) ∈ outgoing S st c := by
      rw [← hlogs.segs_eq]
      exact List.mem_map_of_mem ha
    refine (hone sel a ha hok).2 fun ch hch _ _ _ => ?_
    exact hall _ hseg ((hlogs.faithful a ha).ok_iff.1 hok) ch hch

def sharedOutport : Setting Unit :=
  Setting.quiet (StreamConfig.make 0#32 2#16 4#16 true 0#32)
    ⟨[upChannel 1 1#32, { upChannel 2 2#32 with quality := { rttMs := 5#32 } }], by decide⟩
    (ZdsCodec.known [([7#8], { ingressId := 7#32, generation := 1#32 }),
      ([8#8], { ingressId := 8#32, generation := 2#32 })] []) (some 5)

def sharedStream : StreamState Unit :=
  (run sharedOutport (DataStream.init () { mode := .best })
    [.onChannelBytes 1 (wireFrame (helloHeader 7#32) [7#8]),
      .onChannelBytes 2 (wireFrame (helloHeader 8#32) [8#8]),
      .onChannelBytes 1 (synFrame inportSetting (7#32, 1#32))]).toStreamState

theorem reply_goes_to_stranger :
    (sharedStream.peers 1).ingress = 7#32 ∧ (sharedStream.peers 2).ingress = 8#32 ∧
      (Call.sendSessionData 1#32 [1#8] 7#32).ingress sharedOutport = 7#32 ∧
      ∃ a ∈ emitted sharedOutport [.sendSessionData 1#32 [1#8] 7#32] sharedStream,
        a.result.isOk ∧ a.handed.map (fun p => p.1.ref) = [2] ∧
          ¬ OwnerOnly sharedOutport sharedStream.peers 7#32 a.time a.handed := by
  have hpeer : (sharedStream.peers 2).ingress = 8#32 := by decide +kernel
  refine ⟨by decide +kernel, hpeer, by decide, ?_⟩
  have hmap : (emitted sharedOutport [.sendSessionData 1#32 [1#8] 7#32] sharedStream).map
      (fun a => (a.result.isOk, a.handed.map fun p => p.1.ref)) = [(true, [2])] := by decide +kernel
  obtain ⟨a, ha, heq⟩ := List.mem_map.1 (hmap ▸ List.mem_singleton_self _)
  obtain ⟨hok, hhanded⟩ := Prod.mk.inj heq
  refine ⟨a, ha, hok, hhanded, ?_⟩
  rintro ⟨-, honly⟩
  obtain ⟨p, hp, href⟩ := List.mem_map.1 (hhanded ▸ List.mem_singleton_self 2)
  have howner := honly p hp
  rw [href, hpeer] at howner
  exact absurd howner (by decide)

end Libfgw
