import OpenVpn.Vlan

/-! The TAP side of `multi.c` on a server with `--dev tap`: the routes it learns from the source
addresses of client frames, `multi_unicast` and `multi_bcast` to the instances, the TAP branch of
`multi_process_incoming_link` followed by `multi_process_outgoing_tun`, and
`multi_process_incoming_tun`.

Instances are named by a type `ι`. The instances in `m->iter`, their `halt` flags and options stay
fixed while the server runs; a client frame is the `c->c2.to_tun` that `process_incoming_link` left,
with whatever contents. The routing table `m->vhash` is the list of its elements in the order a
lookup meets them: keys are compared by `mroute_addr_equal`, the first equal one wins, and a new
key goes in front. Both TAP branches look routes up without CIDR routing, so the host-route
cache of `multi_get_instance_by_virtual_addr` is not reached. The `learn-address` script and the
route quota are one input of each frame, whether they let a route be learned; so is
`multi_output_queue_ready` for each instance. `m->mbuf` is the list of the items `mbuf_add_item`
was given, with the frame each holds; `process_incoming_tun` of a frame for one instance and the
write of `process_outgoing_tun` are lists as well. Each of these frames is tagged with where it
came from, a field of the history that no function reads. Events are handled one at a time, so
`m->pending` is empty when one starts, and the `mpp_flags` postprocessing and the statistics are
left out; `process_ip_header` edits only the IP packet past the Ethernet header and is left out
too. -/

namespace OpenVpn

-- `MULTI_ROUTE_CACHE`; `MULTI_ROUTE_AGEABLE`
def multiRouteCache : Nat := 1

def multiRouteAgeable : Nat := 2

/-- `struct multi_route` without its address, which is the key it is stored under. -/
structure MultiRoute (ι : Type) where
  inst : ι
  flags : Nat
  cacheGeneration : Nat
  lastReference : Nat
  deriving DecidableEq, Repr

/-- What stays fixed while the server runs: the top-level options, the instances of `m->iter`
in its order with the `vlan_pvid` of their options, their `halt` flags and
`c2.frame.buf.payload_size`, `m->enable_c2c`, `m->local`, and the `cache_generation` and
`ageable_ttl_secs` of `m->route_helper`. -/
structure MultiTapConfig (ι : Type) where
  top : VlanOptions
  instances : List ι
  vlanPvid : ι → UInt16
  halt : ι → Bool
  payloadSize : ι → Nat
  enableC2c : Bool
  localAddr : MrouteAddr
  cacheGeneration : Nat
  ageableTtlSecs : Nat

/-- Where a queued frame came from: a client instance, or the TAP device, with the value
`vlan_decapsulate` returned for it. -/
inductive FrameSource (ι : Type) where
  | link (a : ι)
  | tun (vid : Int)
  deriving DecidableEq, Repr

/-- A frame queued for, or encrypted for, the instance `inst`. -/
structure QueuedFrame (ι : Type) where
  inst : ι
  buf : EthFrame
  source : FrameSource ι
  deriving DecidableEq, Repr

/-- The state of the TAP side of a `struct multi_context`: `m->vhash`, the items added to
`m->mbuf`, the frames `process_incoming_tun` encrypted for an instance, and the frames written to
the TAP device with the instance they came from. -/
structure MultiTap (ι : Type) where
  vhash : List (MrouteAddr × MultiRoute ι)
  mbuf : List (QueuedFrame ι)
  toLink : List (QueuedFrame ι)
  tapOut : List (ι × EthFrame)
  deriving DecidableEq, Repr

/-- A server that has handled no frame yet. -/
def MultiTap.init {ι : Type} : MultiTap ι := ⟨[], [], [], []⟩

/-- A frame `multi_process_incoming_tun` reads from the TAP device, or one a client sends, which
the TAP branch of `multi_process_incoming_link` and then `multi_process_outgoing_tun` handle.
`src` and `dest` are the uninitialized `struct mroute_addr` locals of
`multi_process_incoming_link`; `learnOk` is `route_quota_test(mi) && learn_address_script(...)`,
`ready` is `multi_output_queue_ready`, and `now` the time. -/
inductive TapEvent (ι : Type) where
  | tun (buf : EthFrame) (now : Nat) (ready : ι → Bool)
  | link (a : ι) (toTun : EthFrame) (src dest : MrouteAddr) (learnOk : Bool) (now : Nat)
      (ready : ι → Bool)

variable {ι : Type} [DecidableEq ι] (cfg : MultiTapConfig ι)

/-- `multi_route_defined(m, r)` at time `now`. -/
def multiRouteDefined (now : Nat) (r : MultiRoute ι) : Bool :=
  if cfg.halt r.inst then false
  else if r.flags &&& multiRouteCache ≠ 0 ∧ r.cacheGeneration ≠ cfg.cacheGeneration then false
  else if r.flags &&& multiRouteAgeable ≠ 0 ∧ r.lastReference + cfg.ageableTtlSecs < now then false
  else true

/-- `hash_lookup(m->vhash, addr)`: the position of the first element whose key is equal to
`addr`, and the element. -/
def vhashLookup (vhash : List (MrouteAddr × MultiRoute ι)) (addr : MrouteAddr) :
    Option (Nat × MrouteAddr × MultiRoute ι) :=
  let i := vhash.findIdx fun p => mrouteAddrEqual addr p.1
  vhash[i]?.map fun p => (i, p)

/-- `multi_learn_addr(m, mi, addr, flags)`: the state, and the instance that owns `addr` after
the call. -/
def multiLearnAddr (m : MultiTap ι) (mi : ι) (addr : MrouteAddr) (flags : Nat) (learnOk : Bool)
    (now : Nat) : MultiTap ι × Option ι :=
  let oldroute := vhashLookup m.vhash addr
  let owner := oldroute.bind fun (_, _, r) => if multiRouteDefined cfg now r then some r.inst else none
  if (owner.isNone || owner != some mi) && mrouteLearnableAddress addr &&
      !mrouteAddrEqual addr cfg.localAddr then
    let newroute : MultiRoute ι :=
      ⟨mi, flags, if flags &&& multiRouteCache ≠ 0 then cfg.cacheGeneration else 0, now⟩
    if learnOk then
      match oldroute with
      -- the hash table element is given the new route and its address
      | some (i, _, _) => ({ m with vhash := m.vhash.set i (addr, newroute) }, some mi)
      | none => ({ m with vhash := (addr, newroute) :: m.vhash }, some mi)
    else (m, owner)
  else (m, owner)

/-- `multi_get_instance_by_virtual_addr(m, addr, false)`. -/
def multiGetInstanceByVirtualAddr (m : MultiTap ι) (addr : MrouteAddr) (now : Nat) :
    MultiTap ι × Option ι :=
  -- check for local address
  if mrouteAddrEqual addr cfg.localAddr then (m, none)
  else
    match vhashLookup m.vhash addr with
    | some (i, k, route) =>
        if multiRouteDefined cfg now route then
          ({ m with vhash := m.vhash.set i (k, { route with lastReference := now }) }, some route.inst)
        else (m, none)
    | none => (m, none)

/-- `multi_add_mbuf(m, mi, mb)`. -/
def multiAddMbuf (m : MultiTap ι) (mi : ι) (buf : EthFrame) (source : FrameSource ι)
    (ready : ι → Bool) : MultiTap ι :=
  if ready mi then { m with mbuf := m.mbuf ++ [⟨mi, buf, source⟩] } else m

/-- `multi_unicast(m, buf, mi)`. -/
def multiUnicast (m : MultiTap ι) (buf : EthFrame) (mi : ι) (source : FrameSource ι)
    (ready : ι → Bool) : MultiTap ι :=
  if 0 < buf.bytes.length then multiAddMbuf m mi buf source ready else m

/-- One round of the loop of `multi_bcast` over the instances. -/
def multiBcastStep (buf : EthFrame) (senderInstance : Option ι) (vid : UInt16)
    (source : FrameSource ι) (ready : ι → Bool) (m : MultiTap ι) (mi : ι) : MultiTap ι :=
  if some mi ≠ senderInstance ∧ !cfg.halt mi then
    -- the VID filter; a VID of 0 lets the frame reach every instance
    if vid ≠ 0 ∧ vid ≠ cfg.vlanPvid mi then m
    else multiAddMbuf m mi buf source ready
  else m

/-- `multi_bcast(m, buf, sender_instance, NULL, vid)`. -/
def multiBcast (m : MultiTap ι) (buf : EthFrame) (senderInstance : Option ι) (vid : UInt16)
    (source : FrameSource ι) (ready : ι → Bool) : MultiTap ι :=
  if 0 < buf.bytes.length then
    cfg.instances.foldl (multiBcastStep cfg buf senderInstance vid source ready) m
  else m

/-- The TAP branch of `multi_process_incoming_link(m, instance, mpp_flags, ls)` for a frame
`to_tun` from the instance `a`: the state and what is left in `to_tun`. -/
def multiProcessIncomingLinkTap (m : MultiTap ι) (a : ι) (toTun : EthFrame) (src dest : MrouteAddr)
    (learnOk : Bool) (now : Nat) (ready : ι → Bool) : MultiTap ι × EthFrame :=
  let (vid, toTun) : UInt16 × EthFrame :=
    if cfg.top.vlanTagging then
      -- a VLAN-tagged frame from a client is dropped
      if vlanIsTagged toTun then (0, toTun.drop) else (cfg.vlanPvid a, toTun)
    else (0, toTun)
  let (mrouteFlags, src, dest) := mrouteExtractAddrEther src dest vid toTun
  if mrouteFlags &&& mrouteExtractSucceeded ≠ 0 then
    let (m, owner) := multiLearnAddr cfg m a src 0 learnOk now
    if owner = some a then
      if cfg.enableC2c then
        if mrouteFlags &&& (mrouteExtractBcast ||| mrouteExtractMcast) ≠ 0 then
          (multiBcast cfg m toTun (some a) vid (.link a) ready, toTun)
        else
          -- client-to-client routing: a frame for a known client goes to it only
          match multiGetInstanceByVirtualAddr cfg m dest now with
          | (m, some mi) => (multiUnicast m toTun mi (.link a) ready, toTun.drop)
          | (m, none) => (m, toTun)
      else (m, toTun)
    -- a bad source address from the client
    else (m, toTun.drop)
  else (m, toTun.drop)

/-- `multi_process_outgoing_tun(m, mpp_flags)` for the instance `mi`: `vlan_process_outgoing_tun`,
then the write of `process_outgoing_tun`. -/
def multiProcessOutgoingTun (m : MultiTap ι) (mi : ι) (toTun : EthFrame) : MultiTap ι :=
  let toTun := vlanProcessOutgoingTun cfg.top (cfg.vlanPvid mi) toTun
  if 0 < toTun.bytes.length ∧ toTun.bytes.length ≤ cfg.payloadSize mi then
    { m with tapOut := m.tapOut ++ [(mi, toTun)] }
  else m

/-- `process_incoming_tun(c, ...)` for the instance `mi`: a frame left in `c->c2.buf` is
encrypted for it. -/
def processIncomingTun (m : MultiTap ι) (mi : ι) (buf : EthFrame) (source : FrameSource ι) :
    MultiTap ι :=
  if 0 < buf.bytes.length then { m with toLink := m.toLink ++ [⟨mi, buf, source⟩] } else m

/-- `multi_process_incoming_tun(m, mpp_flags)` for the frame `buf` read from the TAP device. -/
def multiProcessIncomingTun (m : MultiTap ι) (buf : EthFrame) (now : Nat) (ready : ι → Bool) :
    MultiTap ι :=
  if 0 < buf.bytes.length then
    let (vid, buf) : Int × EthFrame :=
      if cfg.top.vlanTagging then vlanDecapsulate cfg.top buf else (0, buf)
    if vid < 0 then m
    else
      let (mrouteFlags, _, dest) :=
        mrouteExtractAddrEther MrouteAddr.zero MrouteAddr.zero (UInt16.ofNat vid.toNat) buf
      if mrouteFlags &&& mrouteExtractSucceeded ≠ 0 then
        -- multicast is treated as broadcast
        if mrouteFlags &&& (mrouteExtractBcast ||| mrouteExtractMcast) ≠ 0 then
          multiBcast cfg m buf none (UInt16.ofNat vid.toNat) (.tun vid) ready
        else
          match multiGetInstanceByVirtualAddr cfg m dest now with
          | (m, some mi) =>
              -- the frame moves to the instance, or is dropped on output saturation
              processIncomingTun m mi (if ready mi then buf else buf.drop) (.tun vid)
          | (m, none) => m
      else m
  else m

/-- The server handling one event. -/
def tapStep (m : MultiTap ι) : TapEvent ι → MultiTap ι
  | .tun buf now ready => multiProcessIncomingTun cfg m buf now ready
  | .link a toTun src dest learnOk now ready =>
      let (m, toTun) := multiProcessIncomingLinkTap cfg m a toTun src dest learnOk now ready
      multiProcessOutgoingTun cfg m a toTun

/-- The server handling the events `es` in order. -/
def tapRun (m : MultiTap ι) (es : List (TapEvent ι)) : MultiTap ι :=
  es.foldl (tapStep cfg) m

end OpenVpn
