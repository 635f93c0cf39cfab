import OpenVpn.IpHeader
import OpenVpn.BufferSpec
import OpenVpn.OnesComplement

/-! `ipv6_send_icmp_unreachable` of `forward.c` and `ip_checksum` of `proto.c`: the ICMPv6
"no route" error sent back for an IPv6 packet that has no route. The reply is built in `aux_buf`
from the back: the quoted packet is copied after `buf_init` headroom, then the ICMPv6 header, its
checksum, the IPv6 header and, on a TAP device, the Ethernet header are prepended. -/

namespace OpenVpn

open OnesComplement

-- `MAX_ICMPV6LEN`; `OPENVPN_IPPROTO_ICMPV6`; `sizeof(struct openvpn_ipv6hdr)`; `sizeof(struct
-- openvpn_icmp6hdr)`
def maxIcmpv6len : Int := 1280

def openvpnIpprotoIcmpv6 : Nat := 58

def sizeofIpv6hdr : Nat := 40

def sizeofIcmp6hdr : Nat := 8

/-- `inet_pton(AF_INET6, "fe80::7", ...)`. -/
def fe80Seven : List UInt8 := [0xfe, 0x80, 0, 0, 0, 0, 0, 0, 0, 0, 0, 0, 0, 0, 0, 7]

/-- `ip_checksum(af, payload, len_payload, src_addr, dest_addr, proto)`, with the addresses as
their `addr_len` bytes. The loops add the 16-bit words of the payload (an odd last byte as a high
byte) and of the addresses into a `uint32_t`, which wraps; two rounds of the carry loop end it on
any 32-bit sum (`addCarries_two_lt`). -/
def ipChecksum (payload : List UInt8) (lenPayload : Int) (srcAddr destAddr : List UInt8)
    (proto : Nat) : Nat :=
  let sum := (wordSum (payload.take lenPayload.toNat) + wordSum srcAddr + wordSum destAddr +
    (lenPayload % 2 ^ 16).toNat + proto % 2 ^ 16) % 2 ^ 32
  -- (uint16_t) ~sum
  0xffff - addCarries 2 sum

/-- `ASSERT(cond)`. -/
def cAssert (cond : Bool) : Option Unit := if cond then some () else none

/-- What `ipv6_send_icmp_unreachable` reads of the context: the tunnel type, the 16 bytes
`inet_pton` makes of `ifconfig_ipv6_remote` (when it is set), `c2.frame.tun_mtu` and
`c2.buffers->aux_buf`. -/
structure Icmp6Context where
  tunnelType : DevType
  ifconfigIpv6Remote : Option (Vector UInt8 16)
  tunMtu : Int
  auxBuf : Buffer

/-- `pip6out`: the offending packet's header `pip6` with its source as destination, the source
`saddr`, `ICMPV6` as next header and the payload length of the reply. -/
def icmp6ReplyHeader (pip6 saddr : List UInt8) (payloadLen : Int) : List UInt8 :=
  pip6.take 4 ++ BigEndian.encode 2 ((sizeofIcmp6hdr + payloadLen) % 2 ^ 16).toNat ++
    [UInt8.ofNat openvpnIpprotoIcmpv6] ++ (pip6.drop 7).take 1 ++ saddr ++ (pip6.drop 8).take 16

/-- `icmp6out`: type `OPENVPN_ICMP6_DESTINATION_UNREACHABLE`, code `OPENVPN_ICMP6_DU_NOROUTE`, the
rest cleared. -/
def icmp6Unreachable : List UInt8 := [1, 0, 0, 0, 0, 0, 0, 0]

/-- The Ethernet header of the reply: the original's source as destination, its destination as
source, and `OPENVPN_ETH_P_IPV6`. -/
def ethhdrReply (orig : List UInt8) : List UInt8 :=
  (orig.drop 6).take 6 ++ orig.take 6 ++ BigEndian.encode 2 openvpnEthPIpv6

/-- `ipv6_send_icmp_unreachable(c, buf, client)`: the buffer that `to_tun` (for a client) or
`to_link` becomes, or `none` when the function returns before it sets one; `none` outside when an
`ASSERT` fails or a read falls outside the allocation. -/
def ipv6SendIcmpUnreachable (c : Icmp6Context) (buf : Buffer) : Option (Option Buffer) := do
  let ((inputipbuf, _), _) ← isIpv6 c.tunnelType buf ⟨buf.bytes, []⟩
  if bufLen inputipbuf < sizeofIpv6hdr then return none
  let pip6 ← inputipbuf.load ((bufBptr inputipbuf).getD 0) sizeofIpv6hdr
  let saddr := (c.ifconfigIpv6Remote.map Vector.toList).getD fe80Seven
  let icmpheaderLen : Int := sizeofIpv6hdr + sizeofIcmp6hdr
  let totalheaderLen := if c.tunnelType = .tap then icmpheaderLen + sizeofEthhdr else icmpheaderLen
  -- the reply is to be at most 1280 bytes and hold as much of the packet as possible
  let maxPayloadSize := min maxIcmpv6len (c.tunMtu - icmpheaderLen)
  let payloadLen := min maxPayloadSize (bufLen inputipbuf)
  let (outbuf, ok) := bufInit c.auxBuf totalheaderLen
  cAssert ok
  -- fill the end of the buffer with the original packet
  cAssert (bufSafe outbuf (sizeOfInt payloadLen))
  let (outbuf, _, ok) ← bufCopyN outbuf inputipbuf payloadLen
  cAssert ok
  let (outbuf, ok) ← bufWritePrepend outbuf icmp6Unreachable 0 sizeofIcmp6hdr
  cAssert ok
  let newCsum := ipChecksum outbuf.content (bufLen outbuf) saddr ((pip6.drop 8).take 16)
    openvpnIpprotoIcmpv6
  let outbuf ← outbuf.store ((bufBptr outbuf).getD 0 + 2) (BigEndian.encode 2 newCsum)
  let (outbuf, ok) ← bufWritePrepend outbuf (icmp6ReplyHeader pip6 saddr payloadLen) 0
    sizeofIpv6hdr
  cAssert ok
  if c.tunnelType = .tap then
    if bufLen buf < sizeofEthhdr then return some outbuf
    let origEthhdr ← buf.load ((bufBptr buf).getD 0) sizeofEthhdr
    let (outbuf, ok) ← bufWritePrepend outbuf (ethhdrReply origEthhdr) 0 sizeofEthhdr
    cAssert ok
    return some outbuf
  return some outbuf

end OpenVpn
