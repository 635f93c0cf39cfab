import OpenVpn.IpHeader

/-! `vlan.c` and the Ethernet addresses of `mroute.c`: the 802.1Q handling of a server with
`--vlan-tagging` on its TAP device. A frame is the content `BPTR(buf) .. BPTR(buf) + BLEN(buf)` of
its buffer with the headroom `buf_reverse_capacity(buf)` in front of it; `buf->len = 0` leaves it
with no bytes. Header fields are read and written in network byte order, as `ntohs` and `htons`
do; the `memmove`s of `vlan_decapsulate` and `vlan_encapsulate` are written as the bytes they leave
behind. The `int16_t` result of `vlan_decapsulate` is an `Int`.

A `struct mroute_addr` keeps its four header bytes and the bytes of `raw_addr`, which
`mroute_addr_equal` compares up to `len` as `memcmp` does. `mroute_copy_ether_to_addr` stores the
VID after the six address bytes as a `uint16_t` in host order, low byte first as on the hosts the
server runs on; it leaves `proto` as it was. -/

namespace OpenVpn

/-- `enum vlan_acceptable_frames`. -/
inductive VlanAcceptableFrames where
  | onlyTagged
  | onlyUntaggedOrPriority
  | all
  deriving DecidableEq, Repr

/-- The VLAN options of a `struct options`. -/
structure VlanOptions where
  vlanTagging : Bool
  vlanAccept : VlanAcceptableFrames
  vlanPvid : UInt16
  deriving DecidableEq, Repr

-- `OPENVPN_8021Q_MIN_VID`; `OPENVPN_8021Q_MAX_VID`
def openvpn8021qMinVid : Nat := 1

def openvpn8021qMaxVid : Nat := 4094

/-- The check `add_option` makes of a `--vlan-pvid` value. -/
def vlanPvidValid (v : UInt16) : Bool :=
  decide (openvpn8021qMinVid ≤ v.toNat ∧ v.toNat ≤ openvpn8021qMaxVid)

/-- An Ethernet frame in a `struct buffer`. -/
structure EthFrame where
  headroom : Nat
  bytes : List UInt8
  deriving DecidableEq, Repr

/-- `buf->len = 0`. -/
def EthFrame.drop (buf : EthFrame) : EthFrame := { buf with bytes := [] }

@[simp] theorem EthFrame.drop_bytes (buf : EthFrame) : buf.drop.bytes = [] := rfl

-- `SIZE_ETH_TO_8021Q_HDR`
def sizeEthTo8021qHdr : Nat := 4

/-- The 16-bit field at byte `i` in host order: the field `ntohs` reads. -/
def getField16 (bytes : List UInt8) (i : Nat) : Nat :=
  (bytes.getD i 0).toNat * 256 + (bytes.getD (i + 1) 0).toNat

/-- `bytes` with the 16-bit field at byte `i` set to `v` in network order, as `htons` stores it. -/
def setField16 (bytes : List UInt8) (i v : Nat) : List UInt8 :=
  (bytes.set i (UInt8.ofNat (v / 256))).set (i + 1) (UInt8.ofNat v)

/-- `vlanhdr_get_vid(hdr)`: the low twelve bits of `pcp_cfi_vid`. -/
def vlanhdrGetVid (bytes : List UInt8) : UInt16 :=
  UInt16.ofNat (getField16 bytes 14 &&& 0x0FFF)

/-- `vlanhdr_set_vid(hdr, vid)`: the PCP and CFI bits kept, the VID bits replaced. -/
def vlanhdrSetVid (bytes : List UInt8) (vid : UInt16) : List UInt8 :=
  setField16 bytes 14 ((getField16 bytes 14 &&& 0xF000) ||| (vid.toNat &&& 0x0FFF))

/-- A `uint16_t` value converted to `int16_t`. -/
def int16OfUInt16 (v : UInt16) : Int :=
  if v.toNat < 2 ^ 15 then v.toNat else v.toNat - 2 ^ 16

/-- `vlan_decapsulate(c, buf)`: the VID of the frame and the frame without its 802.1Q header, or
`-1` and the frame dropped. -/
def vlanDecapsulate (o : VlanOptions) (buf : EthFrame) : Int × EthFrame :=
  if buf.bytes.length < sizeofEthhdr then (-1, buf.drop)
  else if getField16 buf.bytes 12 ≠ openvpnEthP8021q then
    -- an untagged frame is rejected in `VLAN_ONLY_TAGGED`, or takes the global VID
    if o.vlanAccept = .onlyTagged then (-1, buf.drop)
    else (int16OfUInt16 o.vlanPvid, buf)
  else if buf.bytes.length < sizeof8021qhdr then (-1, buf.drop)
  else
    let vid := vlanhdrGetVid buf.bytes
    -- `VLAN_ONLY_UNTAGGED_OR_PRIORITY` drops a VLAN-tagged frame; a priority-tagged one falls
    -- through to the case of the two other modes
    if o.vlanAccept = .onlyUntaggedOrPriority ∧ vid ≠ 0 then (-1, buf.drop)
    -- a priority-tagged frame keeps its header, so that its priority stays intact
    else if vid = 0 then (int16OfUInt16 o.vlanPvid, buf)
    else
      let proto := getField16 buf.bytes 16
      -- `buf_advance` by 4, the addresses moved to the new head, and the inner protocol restored
      let moved := buf.bytes.take sizeofEthhdr ++ buf.bytes.drop sizeof8021qhdr
      (int16OfUInt16 vid, ⟨buf.headroom + sizeEthTo8021qHdr, setField16 moved 12 proto⟩)

/-- `vlan_encapsulate(c, buf)` for the context whose `vlan_pvid` is `vlanPvid`. -/
def vlanEncapsulate (vlanPvid : UInt16) (buf : EthFrame) : EthFrame :=
  if buf.bytes.length < sizeofEthhdr then buf.drop
  else if getField16 buf.bytes 12 = openvpnEthP8021q then
    -- a priority-tagged frame: VLAN-tagged frames were dropped before, and are dropped here
    if buf.bytes.length < sizeof8021qhdr then buf.drop
    else if vlanhdrGetVid buf.bytes ≠ 0 then buf.drop
    else { buf with bytes := vlanhdrSetVid buf.bytes vlanPvid }
  else if buf.headroom < sizeEthTo8021qHdr then buf.drop
  else
    let proto := getField16 buf.bytes 12
    -- `buf_prepend` by 4 puts the new head 4 bytes before the old one; the `memmove` of the
    -- Ethernet header to it leaves bytes 14 .. 18 as the old bytes 10 .. 14
    let moved := buf.bytes.take sizeofEthhdr ++ buf.bytes.drop (sizeofEthhdr - sizeEthTo8021qHdr)
    let hdr := setField16 (setField16 (setField16 moved 12 openvpnEthP8021q) 14 0) 16 proto
    ⟨buf.headroom - sizeEthTo8021qHdr, vlanhdrSetVid hdr vlanPvid⟩

/-- `vlan_is_tagged(buf)`: the frame has an 802.1Q header with a VID other than 0. -/
def vlanIsTagged (buf : EthFrame) : Bool :=
  if buf.bytes.length < sizeof8021qhdr then false
  else if getField16 buf.bytes 12 ≠ openvpnEthP8021q then false
  else vlanhdrGetVid buf.bytes ≠ 0

/-- `vlan_process_outgoing_tun(m, mi)` on `mi->context.c2.to_tun`, for the top-level options `top`
and the instance's `vlan_pvid`. -/
def vlanProcessOutgoingTun (top : VlanOptions) (vlanPvid : UInt16) (toTun : EthFrame) : EthFrame :=
  if !top.vlanTagging then toTun
  else
    match top.vlanAccept with
    -- frames written to the TAP device are untagged: only the global PVID may reach it
    | .onlyUntaggedOrPriority => if top.vlanPvid ≠ vlanPvid then toTun.drop else toTun
    | .all => if top.vlanPvid ≠ vlanPvid then vlanEncapsulate vlanPvid toTun else toTun
    | .onlyTagged => vlanEncapsulate vlanPvid toTun

/-- `struct mroute_addr`. -/
structure MrouteAddr where
  len : Nat
  proto : UInt8
  type : UInt8
  netbits : UInt8
  rawAddr : List UInt8
  deriving DecidableEq, Repr

-- `MR_MAX_ADDR_LEN`; `MR_ADDR_ETHER`; `MR_ADDR_MASK`; `MR_WITH_NETBITS`; `OPENVPN_ETH_ALEN`;
-- `MROUTE_EXTRACT_SUCCEEDED`; `MROUTE_EXTRACT_BCAST`; `MROUTE_EXTRACT_MCAST`
def mrMaxAddrLen : Nat := 20

def mrAddrEther : UInt8 := 1

def mrAddrMask : UInt8 := 3

def mrWithNetbits : UInt8 := 8

def openvpnEthAlen : Nat := 6

def mrouteExtractSucceeded : Nat := 1

def mrouteExtractBcast : Nat := 2

def mrouteExtractMcast : Nat := 4

/-- A `struct mroute_addr` cleared to zero. -/
def MrouteAddr.zero : MrouteAddr := ⟨0, 0, 0, 0, List.replicate mrMaxAddrLen 0⟩

/-- The bytes of a `uint16_t` as it lies in memory, low byte first. -/
def hostBytes16 (v : UInt16) : List UInt8 := (BigEndian.encode 2 v.toNat).reverse

/-- `mroute_addr_equal(a1, a2)`. -/
def mrouteAddrEqual (a1 a2 : MrouteAddr) : Bool :=
  a1.type == a2.type && a1.proto == a2.proto && a1.netbits == a2.netbits && a1.len == a2.len &&
    a1.rawAddr.take a1.len == a2.rawAddr.take a1.len

/-- `is_mac_mcast_addr(mac)`. -/
def isMacMcastAddr (mac : List UInt8) : Bool := mac.headD 0 &&& 1 ≠ 0

/-- `is_mac_mcast_maddr(addr)`. -/
def isMacMcastMaddr (addr : MrouteAddr) : Bool :=
  addr.type &&& mrAddrMask == mrAddrEther && isMacMcastAddr addr.rawAddr

/-- `mroute_learnable_address(addr, gc)`: not all zeros (unless a network shorter than 8 bits),
not all ones, not an Ethernet multicast address. -/
def mrouteLearnableAddress (addr : MrouteAddr) : Bool :=
  let raw := addr.rawAddr.take addr.len
  let allZeros := raw.all (· == 0)
  let allOnes := raw.all (· == 0xFF)
  if allZeros && !(addr.type &&& mrWithNetbits != 0 && addr.netbits < 8) then false
  else if allOnes then false
  else if isMacMcastMaddr addr then false
  else true

/-- `mroute_copy_ether_to_addr(maddr, ether_addr, vid)`. -/
def mrouteCopyEtherToAddr (maddr : MrouteAddr) (etherAddr : List UInt8) (vid : UInt16) :
    MrouteAddr :=
  { maddr with
    type := mrAddrEther
    netbits := 0
    len := openvpnEthAlen + 2
    rawAddr := etherAddr.take openvpnEthAlen ++ hostBytes16 vid ++
      maddr.rawAddr.drop (openvpnEthAlen + 2) }

/-- `mroute_extract_addr_ether(src, dest, vid, buf)`: the flags, and `src` and `dest` with the
source and destination addresses of the frame copied in. -/
def mrouteExtractAddrEther (src dest : MrouteAddr) (vid : UInt16) (buf : EthFrame) :
    Nat × MrouteAddr × MrouteAddr :=
  if sizeofEthhdr ≤ buf.bytes.length then
    let eth := buf.bytes
    let src := mrouteCopyEtherToAddr src (eth.drop openvpnEthAlen) vid
    let dest := mrouteCopyEtherToAddr dest eth vid
    -- an Ethernet broadcast or multicast destination
    let ret := if isMacMcastAddr eth then mrouteExtractBcast else 0
    (ret ||| mrouteExtractSucceeded, src, dest)
  else (0, src, dest)

end OpenVpn
