import OpenVpn.MultiTap
import OpenVpn.VlanSpec

/-! VLAN isolation on a TAP server with `--vlan-tagging`. Over any sequence of frames from the
TAP device and from clients, every frame queued for an instance or encrypted for it has the VID of
that instance, and every frame of a client that reaches the TAP device is untagged from an
instance of the global PVID, in a mode other than `VLAN_ONLY_TAGGED`, or tagged with the client's
VID. The VID of a frame from a client is the client's `vlan_pvid`; that of a frame from the TAP
device is the value `vlan_decapsulate` returned for it.

Isolation rests on three facts, each proved once below. The key of a learned route holds the VID
of the frame it was learned from, which is the `vlan_pvid` of the instance that learned it, so a
lookup with the VID of a frame finds only instances of that VID (`Isolated.lookup_vid`). The VID of
a frame is never 0, so the filter of `multi_bcast` is on (`Isolated.bcast`). And
`vlan_process_outgoing_tun` tags, passes or drops what a client sends by the mode
(`vlanProcessOutgoingTun_tagOk`). The invariant `Isolated` collects them; each handler keeps it,
and so does every run. -/

namespace OpenVpn

variable {ι : Type} (cfg : MultiTapConfig ι)

/-- The VID of a frame: the `vlan_pvid` of the client it came from, or the value
`vlan_decapsulate` returned for a frame from the TAP device. -/
def FrameSource.vid : FrameSource ι → Int
  | .link a => (cfg.vlanPvid a).toNat
  | .tun vid => vid

@[simp] theorem FrameSource.vid_link (a : ι) : (FrameSource.link a).vid cfg = (cfg.vlanPvid a).toNat :=
  rfl

@[simp] theorem FrameSource.vid_tun (vid : Int) : (FrameSource.tun vid : FrameSource ι).vid cfg = vid :=
  rfl

/-- The invariant of the server: each route is keyed by the VID of its instance, each frame queued
or encrypted for an instance has that instance's VID, and each frame written to the TAP device is
tagged as the instance it came from allows. -/
structure Isolated (m : MultiTap ι) : Prop where
  routes : ∀ p ∈ m.vhash, EtherKeyOf (cfg.vlanPvid p.2.inst) p.1
  mbuf : ∀ q ∈ m.mbuf, q.source.vid cfg = (cfg.vlanPvid q.inst).toNat
  toLink : ∀ q ∈ m.toLink, q.source.vid cfg = (cfg.vlanPvid q.inst).toNat
  tapOut : ∀ w ∈ m.tapOut, TapTagOk cfg.top (cfg.vlanPvid w.1) w.2

theorem isolated_init : Isolated cfg (MultiTap.init : MultiTap ι) :=
  ⟨by simp [MultiTap.init], by simp [MultiTap.init], by simp [MultiTap.init],
    by simp [MultiTap.init]⟩

variable {cfg} {m : MultiTap ι}

theorem Isolated.with_vhash (h : Isolated cfg m) {vhash : List (MrouteAddr × MultiRoute ι)}
    (hv : ∀ p ∈ vhash, EtherKeyOf (cfg.vlanPvid p.2.inst) p.1) :
    Isolated cfg { m with vhash := vhash } :=
  ⟨hv, h.mbuf, h.toLink, h.tapOut⟩

section Routes

variable {vhash : List (MrouteAddr × MultiRoute ι)} {addr : MrouteAddr}

theorem vhashLookup_some {i : Nat} {k : MrouteAddr} {r : MultiRoute ι}
    (h : vhashLookup vhash addr = some (i, k, r)) :
    vhash[i]? = some (k, r) ∧ mrouteAddrEqual addr k = true := by
  simp only [vhashLookup, Option.map_eq_some_iff, Prod.mk.injEq] at h
  obtain ⟨p, hp, rfl, rfl⟩ := h
  refine ⟨hp, ?_⟩
  obtain ⟨hlt, hget⟩ := List.getElem?_eq_some_iff.mp hp
  have hfound := List.findIdx_getElem (w := hlt)
  rwa [hget] at hfound

variable {mi : ι} {flags : Nat} {learnOk : Bool} {now : Nat}

/-- `multi_get_instance_by_virtual_addr` changes the routing table only. -/
theorem multiGetInstanceByVirtualAddr_eq_vhash :
    (multiGetInstanceByVirtualAddr cfg m addr now).1 =
      { m with vhash := (multiGetInstanceByVirtualAddr cfg m addr now).1.vhash } := by
  unfold multiGetInstanceByVirtualAddr
  split_ifs
  · rfl
  · split
    · split_ifs <;> rfl
    · rfl

/-- A lookup only refreshes the `last_reference` of the route it uses. -/
theorem mem_multiGetInstanceByVirtualAddr_vhash {p : MrouteAddr × MultiRoute ι}
    (hp : p ∈ (multiGetInstanceByVirtualAddr cfg m addr now).1.vhash) :
    ∃ q ∈ m.vhash, q.1 = p.1 ∧ q.2.inst = p.2.inst := by
  unfold multiGetInstanceByVirtualAddr at hp
  split_ifs at hp
  · exact ⟨p, hp, rfl, rfl⟩
  · split at hp
    · rename_i i k route hlook
      split_ifs at hp
      · rcases List.mem_or_eq_of_mem_set hp with hp | rfl
        · exact ⟨p, hp, rfl, rfl⟩
        · exact ⟨(k, route), List.mem_of_getElem? (vhashLookup_some hlook).1, rfl, rfl⟩
      · exact ⟨p, hp, rfl, rfl⟩
    · exact ⟨p, hp, rfl, rfl⟩

/-- The instance a lookup finds owns a route whose key is equal to the address looked up. -/
theorem multiGetInstanceByVirtualAddr_some {b : ι}
    (hb : (multiGetInstanceByVirtualAddr cfg m addr now).2 = some b) :
    ∃ q ∈ m.vhash, mrouteAddrEqual addr q.1 = true ∧ q.2.inst = b := by
  unfold multiGetInstanceByVirtualAddr at hb
  split_ifs at hb
  split at hb
  · rename_i i k route hlook
    split_ifs at hb
    obtain ⟨hget, heq⟩ := vhashLookup_some hlook
    exact ⟨(k, route), List.mem_of_getElem? hget, heq, Option.some.inj hb⟩
  · cases hb

theorem Isolated.lookup (h : Isolated cfg m) :
    Isolated cfg (multiGetInstanceByVirtualAddr cfg m addr now).1 := by
  rw [multiGetInstanceByVirtualAddr_eq_vhash]
  refine h.with_vhash fun p hp => ?_
  obtain ⟨q, hq, hkey, hinst⟩ := mem_multiGetInstanceByVirtualAddr_vhash hp
  rw [← hkey, ← hinst]
  exact h.routes q hq

/-- A lookup with the Ethernet address and VID of a frame finds an instance of that VID. -/
theorem Isolated.lookup_vid (h : Isolated cfg m) {dest : MrouteAddr} {mac : List UInt8}
    {vid : UInt16} (hmac : openvpnEthAlen ≤ mac.length) {b : ι}
    (hb : (multiGetInstanceByVirtualAddr cfg m (mrouteCopyEtherToAddr dest mac vid) now).2 = some b) :
    cfg.vlanPvid b = vid := by
  obtain ⟨q, hq, heq, rfl⟩ := multiGetInstanceByVirtualAddr_some hb
  exact (h.routes q hq).eq_of_mrouteAddrEqual hmac heq

variable [DecidableEq ι]

/-- `multi_learn_addr` changes the routing table only. -/
theorem multiLearnAddr_eq_vhash :
    (multiLearnAddr cfg m mi addr flags learnOk now).1 =
      { m with vhash := (multiLearnAddr cfg m mi addr flags learnOk now).1.vhash } := by
  unfold multiLearnAddr
  dsimp only
  split
  · split
    · split <;> rfl
    · rfl
  · rfl

/-- The routes after `multi_learn_addr`: the old ones, and `addr` for `mi`. -/
theorem mem_multiLearnAddr_vhash {p : MrouteAddr × MultiRoute ι}
    (hp : p ∈ (multiLearnAddr cfg m mi addr flags learnOk now).1.vhash) :
    p ∈ m.vhash ∨ (p.1 = addr ∧ p.2.inst = mi) := by
  unfold multiLearnAddr at hp
  dsimp only at hp
  split at hp
  · split at hp
    · split at hp
      · -- the element found is given the new route
        rcases List.mem_or_eq_of_mem_set hp with hp | rfl
        · exact .inl hp
        · exact .inr ⟨rfl, rfl⟩
      · -- a new element in front
        rcases List.mem_cons.mp hp with rfl | hp
        · exact .inr ⟨rfl, rfl⟩
        · exact .inl hp
    · exact .inl hp
  · exact .inl hp

theorem Isolated.learn (h : Isolated cfg m) (haddr : EtherKeyOf (cfg.vlanPvid mi) addr) :
    Isolated cfg (multiLearnAddr cfg m mi addr flags learnOk now).1 := by
  rw [multiLearnAddr_eq_vhash]
  refine h.with_vhash fun p hp => ?_
  rcases mem_multiLearnAddr_vhash hp with hp | ⟨hkey, hinst⟩
  · exact h.routes p hp
  · rw [hkey, hinst]
    exact haddr

end Routes

section Queues

variable {buf : EthFrame} {source : FrameSource ι} {ready : ι → Bool} {mi : ι}

theorem Isolated.addMbuf (h : Isolated cfg m) (hq : source.vid cfg = (cfg.vlanPvid mi).toNat) :
    Isolated cfg (multiAddMbuf m mi buf source ready) := by
  unfold multiAddMbuf
  split
  · refine ⟨h.routes, ?_, h.toLink, h.tapOut⟩
    simp only [List.mem_append, List.mem_singleton]
    rintro q (hq' | rfl)
    · exact h.mbuf q hq'
    · exact hq
  · exact h

theorem Isolated.unicast (h : Isolated cfg m) (hq : source.vid cfg = (cfg.vlanPvid mi).toNat) :
    Isolated cfg (multiUnicast m buf mi source ready) := by
  unfold multiUnicast
  split
  · exact h.addMbuf hq
  · exact h

theorem Isolated.processIncomingTun (h : Isolated cfg m)
    (hq : source.vid cfg = (cfg.vlanPvid mi).toNat) :
    Isolated cfg (processIncomingTun m mi buf source) := by
  unfold OpenVpn.processIncomingTun
  split
  · refine ⟨h.routes, h.mbuf, ?_, h.tapOut⟩
    simp only [List.mem_append, List.mem_singleton]
    rintro q (hq' | rfl)
    · exact h.toLink q hq'
    · exact hq
  · exact h

/-- What a client sends that is not VLAN-tagged is written to the TAP device as the instance's
VID allows. -/
theorem Isolated.outgoingTun (h : Isolated cfg m) (htag : cfg.top.vlanTagging = true)
    (hv : vlanPvidValid (cfg.vlanPvid mi) = true) (hf : vlanIsTagged buf = false) :
    Isolated cfg (multiProcessOutgoingTun cfg m mi buf) := by
  unfold multiProcessOutgoingTun
  dsimp only
  split_ifs with hw
  · refine ⟨h.routes, h.mbuf, h.toLink, ?_⟩
    simp only [List.mem_append, List.mem_singleton]
    rintro w (hw' | rfl)
    · exact h.tapOut w hw'
    · exact vlanProcessOutgoingTun_tagOk htag hv hf (List.ne_nil_of_length_pos hw.1)
  · exact h

variable [DecidableEq ι]

/-- A broadcast with a VID other than 0 reaches only the instances of that VID. -/
theorem Isolated.bcast (h : Isolated cfg m) {sender : Option ι} {vid : UInt16} (hvid : vid ≠ 0)
    (hsrc : source.vid cfg = vid.toNat) : Isolated cfg (multiBcast cfg m buf sender vid source ready) := by
  unfold multiBcast
  split
  · -- the loop over `m->iter`, one instance a round, keeps the invariant
    suffices hloop : ∀ (l : List ι) (m : MultiTap ι), Isolated cfg m →
        Isolated cfg (l.foldl (multiBcastStep cfg buf sender vid source ready) m) from
      hloop _ _ h
    intro l
    induction l with
    | nil => exact fun _ hm => hm
    | cons mi l ih =>
      intro m hm
      apply ih
      unfold multiBcastStep
      split_ifs with _ hfilter
      · exact hm
      · have hmi : vid = cfg.vlanPvid mi := by
          by_contra hne
          exact hfilter ⟨hvid, hne⟩
        exact hm.addMbuf (by rw [hsrc, hmi])
      · exact hm
  · exact h

end Queues

section Handlers

variable [DecidableEq ι] {buf : EthFrame} {now : Nat} {ready : ι → Bool}

/-- The TAP branch of `multi_process_incoming_link` keeps the invariant and leaves in `to_tun`
a frame that is not VLAN-tagged. -/
theorem Isolated.incomingLinkTap (h : Isolated cfg m) (htag : cfg.top.vlanTagging = true) {a : ι}
    (hv : vlanPvidValid (cfg.vlanPvid a) = true) (src dest : MrouteAddr) (learnOk : Bool) :
    Isolated cfg (multiProcessIncomingLinkTap cfg m a buf src dest learnOk now ready).1 ∧
      vlanIsTagged (multiProcessIncomingLinkTap cfg m a buf src dest learnOk now ready).2 = false := by
  have hdrop : ∀ f : EthFrame, vlanIsTagged f.drop = false := fun f =>
    vlanIsTagged_of_length_lt (by simp [sizeof8021qhdr])
  unfold multiProcessIncomingLinkTap
  simp only [htag, ↓reduceIte]
  by_cases ht : vlanIsTagged buf
  · -- a VLAN-tagged frame is dropped before its addresses are read
    simp only [ht, ↓reduceIte,
      mrouteExtractAddrEther_of_lt (show buf.drop.bytes.length < sizeofEthhdr by simp [sizeofEthhdr]),
      Nat.zero_and, ne_eq, not_true_eq_false]
    exact ⟨h, hdrop _⟩
  have hf : vlanIsTagged buf = false := by simpa using ht
  simp only [ht, Bool.false_eq_true, ↓reduceIte]
  by_cases hlen : sizeofEthhdr ≤ buf.bytes.length
  swap
  · rw [mrouteExtractAddrEther_of_lt (by omega)]
    simp only [Nat.zero_and, ne_eq, not_true_eq_false, ↓reduceIte]
    exact ⟨h, hdrop _⟩
  rw [mrouteExtractAddrEther_of_le hlen]
  simp only [ne_eq, succeeded_ne_zero, not_false_eq_true, ↓reduceIte, bcast_ne_zero_iff]
  -- the source address is learned with the client's VID
  have hsrc : openvpnEthAlen ≤ (buf.bytes.drop openvpnEthAlen).length := by
    simp only [List.length_drop, openvpnEthAlen, sizeofEthhdr] at hlen ⊢
    omega
  have hdst : openvpnEthAlen ≤ buf.bytes.length := by
    simp only [openvpnEthAlen, sizeofEthhdr] at hlen ⊢
    omega
  have hl : Isolated cfg (multiLearnAddr cfg m a
      (mrouteCopyEtherToAddr src (buf.bytes.drop openvpnEthAlen) (cfg.vlanPvid a)) 0 learnOk now).1 :=
    h.learn (etherKeyOf_mrouteCopyEtherToAddr hsrc)
  rcases hlearn : multiLearnAddr cfg m a
    (mrouteCopyEtherToAddr src (buf.bytes.drop openvpnEthAlen) (cfg.vlanPvid a)) 0 learnOk now
    with ⟨m₁, owner⟩
  rw [hlearn] at hl
  simp only
  split
  next =>
    split
    next =>
      split
      next =>
        -- a broadcast goes to the instances of the client's VID
        exact ⟨hl.bcast (ne_zero_of_vlanPvidValid hv) (by simp), hf⟩
      next =>
        -- a unicast goes to the instance that owns the destination with the client's VID
        have hl₂ : Isolated cfg (multiGetInstanceByVirtualAddr cfg m₁
            (mrouteCopyEtherToAddr dest buf.bytes (cfg.vlanPvid a)) now).1 := hl.lookup
        rcases hget : multiGetInstanceByVirtualAddr cfg m₁
          (mrouteCopyEtherToAddr dest buf.bytes (cfg.vlanPvid a)) now with ⟨m₂, _ | b⟩
        · rw [hget] at hl₂
          exact ⟨hl₂, hf⟩
        · have hb := hl.lookup_vid hdst (congrArg Prod.snd hget)
          rw [hget] at hl₂
          exact ⟨hl₂.unicast (by simp [hb]), hdrop _⟩
    next => exact ⟨hl, hf⟩
  -- a bad source address
  next => exact ⟨hl, hdrop _⟩

/-- `multi_process_incoming_tun` keeps the invariant. -/
theorem Isolated.incomingTun (h : Isolated cfg m) (htag : cfg.top.vlanTagging = true)
    (hg : vlanPvidValid cfg.top.vlanPvid = true) :
    Isolated cfg (multiProcessIncomingTun cfg m buf now ready) := by
  unfold multiProcessIncomingTun
  simp only [htag, ↓reduceIte]
  split
  swap
  · exact h
  rcases hd : vlanDecapsulate cfg.top buf with ⟨r, buf'⟩
  have hr := vlanDecapsulate_fst hg buf
  rw [hd] at hr
  simp only at hr ⊢
  rcases hr with hr | ⟨v, hv0, hr⟩
  · -- a dropped frame
    simp only [hr, show (-1 : Int) < 0 by decide, ↓reduceIte]
    exact h
  subst hr
  have hvv : UInt16.ofNat ((v.toNat : Int).toNat) = v := by simp
  simp only [Int.natCast_nonneg, not_lt.mpr, ↓reduceIte, hvv]
  by_cases hlen : sizeofEthhdr ≤ buf'.bytes.length
  swap
  · rw [mrouteExtractAddrEther_of_lt (by omega)]
    simp only [Nat.zero_and, ne_eq, not_true_eq_false, ↓reduceIte]
    exact h
  rw [mrouteExtractAddrEther_of_le hlen]
  simp only [ne_eq, succeeded_ne_zero, not_false_eq_true, ↓reduceIte, bcast_ne_zero_iff]
  split
  next =>
    -- a broadcast goes to the instances of its VID
    exact h.bcast hv0 (by simp)
  next =>
    -- a unicast goes to the instance that owns the destination with its VID
    have hdst : openvpnEthAlen ≤ buf'.bytes.length := by
      simp only [openvpnEthAlen, sizeofEthhdr] at hlen ⊢
      omega
    have hl₂ : Isolated cfg (multiGetInstanceByVirtualAddr cfg m
        (mrouteCopyEtherToAddr MrouteAddr.zero buf'.bytes v) now).1 := h.lookup
    rcases hget : multiGetInstanceByVirtualAddr cfg m
      (mrouteCopyEtherToAddr MrouteAddr.zero buf'.bytes v) now with ⟨m₂, _ | b⟩
    · rw [hget] at hl₂
      exact hl₂
    · have hb := h.lookup_vid hdst (congrArg Prod.snd hget)
      rw [hget] at hl₂
      exact hl₂.processIncomingTun (by simp [hb])

end Handlers

section Runs

variable [DecidableEq ι] (htag : cfg.top.vlanTagging = true) (hg : vlanPvidValid cfg.top.vlanPvid = true)
  (hc : ∀ i, vlanPvidValid (cfg.vlanPvid i) = true)

include htag hg hc

/-- Every event keeps the invariant. -/
theorem Isolated.step (h : Isolated cfg m) (e : TapEvent ι) : Isolated cfg (tapStep cfg m e) := by
  cases e with
  | tun buf now ready => exact h.incomingTun htag hg
  | link a toTun src dest learnOk now ready =>
    have hlink : Isolated cfg (multiProcessIncomingLinkTap cfg m a toTun src dest learnOk now ready).1 ∧
        vlanIsTagged (multiProcessIncomingLinkTap cfg m a toTun src dest learnOk now ready).2 = false :=
      h.incomingLinkTap htag (hc a) src dest learnOk
    rcases hres : multiProcessIncomingLinkTap cfg m a toTun src dest learnOk now ready with
      ⟨m₁, out⟩
    rw [hres] at hlink
    simp only [tapStep, hres]
    exact hlink.1.outgoingTun htag (hc a) hlink.2

/-- Every run keeps the invariant. -/
theorem Isolated.run (h : Isolated cfg m) (es : List (TapEvent ι)) :
    Isolated cfg (tapRun cfg m es) := by
  induction es generalizing m with
  | nil => exact h
  | cons e es ih => exact ih (h.step htag hg hc e)

end Runs

variable [DecidableEq ι]

/-- VLAN isolation of a TAP server with `--vlan-tagging`, in any `--vlan-accept` mode, with a valid
global PVID and valid client PVIDs: after any sequence of frames from the TAP device and from
clients, every frame queued for an instance (by `multi_unicast` or `multi_bcast`) or encrypted for
it has that instance's VID, and every frame of a client written to the TAP device is untagged (no
802.1Q header with a VID) from an instance of the global PVID in a mode other than
`VLAN_ONLY_TAGGED`, or tagged with the client's VID. -/
theorem vlan_isolation_tap_server (cfg : MultiTapConfig ι) (htag : cfg.top.vlanTagging = true)
    (hg : vlanPvidValid cfg.top.vlanPvid = true) (hc : ∀ i, vlanPvidValid (cfg.vlanPvid i) = true)
    (es : List (TapEvent ι)) :
    (∀ q ∈ (tapRun cfg MultiTap.init es).mbuf, q.source.vid cfg = (cfg.vlanPvid q.inst).toNat) ∧
      (∀ q ∈ (tapRun cfg MultiTap.init es).toLink,
        q.source.vid cfg = (cfg.vlanPvid q.inst).toNat) ∧
      ∀ w ∈ (tapRun cfg MultiTap.init es).tapOut, TapTagOk cfg.top (cfg.vlanPvid w.1) w.2 := by
  have h := (isolated_init cfg).run htag hg hc es
  exact ⟨h.mbuf, h.toLink, h.tapOut⟩

/-- A server with two clients, on VLANs 1 and 2, in mode `all` with the global PVID 1. -/
def sampleTapConfig : MultiTapConfig Bool where
  top := ⟨true, .all, 1⟩
  instances := [false, true]
  vlanPvid := fun b => if b then 2 else 1
  halt := fun _ => false
  payloadSize := fun _ => 1500
  enableC2c := true
  localAddr := MrouteAddr.zero
  cacheGeneration := 0
  ageableTtlSecs := 0

/-- A broadcast from the client on VLAN 1, then a broadcast read from the TAP device with an
802.1Q tag of VID 2. -/
def sampleTapEvents : List (TapEvent Bool) :=
  [.link false ⟨4, List.replicate 6 0xFF ++ [2, 0, 0, 0, 0, 1, 8, 0] ++ List.replicate 46 0⟩
      MrouteAddr.zero MrouteAddr.zero true 0 fun _ => true,
    .tun ⟨0, List.replicate 6 0xFF ++ [2, 0, 0, 0, 0, 9, 0x81, 0, 0, 2, 8, 0] ++
      List.replicate 46 0⟩ 1 fun _ => true]

/-- The client broadcast reaches no one; the tagged one reaches the client on VLAN 2 only. -/
example : (tapRun sampleTapConfig MultiTap.init sampleTapEvents).mbuf.map QueuedFrame.inst = [true] := by
  decide

theorem vlan_isolation_tap_server_two_vlans :
    sampleTapConfig.top.vlanTagging = true ∧ vlanPvidValid sampleTapConfig.top.vlanPvid = true ∧
      (∀ i, vlanPvidValid (sampleTapConfig.vlanPvid i) = true) ∧
      (∀ q ∈ (tapRun sampleTapConfig MultiTap.init sampleTapEvents).mbuf,
        q.source.vid sampleTapConfig = (sampleTapConfig.vlanPvid q.inst).toNat) ∧
      (∀ q ∈ (tapRun sampleTapConfig MultiTap.init sampleTapEvents).toLink,
        q.source.vid sampleTapConfig = (sampleTapConfig.vlanPvid q.inst).toNat) ∧
      ∀ w ∈ (tapRun sampleTapConfig MultiTap.init sampleTapEvents).tapOut,
        TapTagOk sampleTapConfig.top (sampleTapConfig.vlanPvid w.1) w.2 :=
  ⟨rfl, by decide, by decide,
    vlan_isolation_tap_server sampleTapConfig rfl (by decide) (by decide) sampleTapEvents⟩

/-- A priority-tagged broadcast (PCP 5, VID 0) from the client on VLAN 1, the global PVID. -/
def samplePriorityEvent : TapEvent Bool :=
  .link false ⟨4, List.replicate 6 0xFF ++ [2, 0, 0, 0, 0, 1, 0x81, 0, 0xA0, 0, 8, 0] ++
    List.replicate 46 0⟩ MrouteAddr.zero MrouteAddr.zero true 0 fun _ => true

/-- A priority-tagged frame of a client reaches the TAP device with its 802.1Q header, whose VID
is 0 and not the client's: `vlan_is_tagged` lets it in, and `vlan_process_outgoing_tun` forwards
it as it is when the client's PVID is the global one. -/
theorem vlan_isolation_priority_tag_reaches_tap :
    ∃ w ∈ (tapRun sampleTapConfig MultiTap.init [samplePriorityEvent]).tapOut,
      getField16 w.2.bytes 12 = openvpnEthP8021q ∧ vlanhdrGetVid w.2.bytes ≠ sampleTapConfig.vlanPvid w.1 := by
  decide

end OpenVpn
