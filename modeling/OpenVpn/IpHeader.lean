import OpenVpn.ClientNat
import OpenVpn.ServerHelper

/-! `is_ipv4`/`is_ipv6` of `proto.c` and `process_ip_header` of `forward.c`: the check that a
tunnel packet is IPv4 or IPv6, which advances a copy of the buffer to the IP header, and the
header processing that hands that copy to the functions the flags and options select. Of these,
`client_nat_transform` and the TOS read of `link_socket_extract_tos` are modelled; the MSS fixup,
the DHCP router extraction and the ICMPv6 reply are parameters (`IpConsumers`): each gets the IP
buffer and the packet bytes, and its accesses are recorded like the rest. Their models come
after this module; `ipConsumers` of `ProcessIpHeader` plugs them in. -/

namespace OpenVpn

-- `sizeof(struct openvpn_ethhdr)`; `sizeof(struct openvpn_8021qhdr)`; `OPENVPN_ETH_P_IPV4`;
-- `OPENVPN_ETH_P_IPV6`; `OPENVPN_ETH_P_8021Q`
def sizeofEthhdr : Nat := 14

def sizeof8021qhdr : Nat := 18

def openvpnEthPIpv4 : Nat := 0x0800

def openvpnEthPIpv6 : Nat := 0x86DD

def openvpnEthP8021q : Nat := 0x8100

/-- The last step of `is_ipv_X`: the IP version in the header at `offset`; on a match the
buffer advances to it. -/
def isIpvXVersion (buf : Buffer) (ipVer : Nat) (p : Int) (offset : Nat) (m : PacketMem) :
    Option ((Buffer × Bool) × PacketMem) := do
  let (versionLen, m) ← m.load (p + offset) 1
  -- OPENVPN_IPH_GET_VER
  if (versionLen >>> 4) &&& 0x0F = ipVer then pure (bufAdvance buf offset, m)
  else pure ((buf, false), m)

/-- `is_ipv_X(tunnel_type, buf, ip_ver)`: the buffer, advanced to the IP header when the result is
`true`. On a TAP device an 802.1Q frame moves the header to byte 18, but the length checked is
still that of an untagged frame. `BLEN` is `0` for a buffer without data, so no field is read
then. -/
def isIpvX (tunnelType : DevType) (buf : Buffer) (ipVer : Nat) (m : PacketMem) :
    Option ((Buffer × Bool) × PacketMem) := do
  let p := (bufBptr buf).getD 0
  if tunnelType = .tun then
    if bufLen buf < sizeofIphdr then pure ((buf, false), m)
    else isIpvXVersion buf ipVer p 0 m
  else if tunnelType = .tap then
    if bufLen buf < sizeofEthhdr + sizeofIphdr then pure ((buf, false), m)
    else
      let (proto, m) ← m.load (p + 12) 2
      -- if this is a 802.1q frame, parse the header using the according format
      if proto = openvpnEthP8021q then
        if bufLen buf < sizeofEthhdr + sizeofIphdr then pure ((buf, false), m)
        else
          let (proto, m) ← m.load (p + 16) 2
          if proto ≠ (if ipVer = 6 then openvpnEthPIpv6 else openvpnEthPIpv4) then
            pure ((buf, false), m)
          else isIpvXVersion buf ipVer p sizeof8021qhdr m
      else if proto ≠ (if ipVer = 6 then openvpnEthPIpv6 else openvpnEthPIpv4) then
        pure ((buf, false), m)
      else isIpvXVersion buf ipVer p sizeofEthhdr m
  else pure ((buf, false), m)

/-- `is_ipv4(tunnel_type, buf)`. -/
def isIpv4 (tunnelType : DevType) (buf : Buffer) (m : PacketMem) :
    Option ((Buffer × Bool) × PacketMem) :=
  isIpvX tunnelType buf 4 m

/-- `is_ipv6(tunnel_type, buf)`. -/
def isIpv6 (tunnelType : DevType) (buf : Buffer) (m : PacketMem) :
    Option ((Buffer × Bool) × PacketMem) :=
  isIpvX tunnelType buf 6 m

-- `PIPV4_PASSTOS`, `1<<0`; `PIP_MSSFIX`, `1<<1`; `PIP_OUTGOING`, `1<<2`;
-- `PIPV4_EXTRACT_DHCP_ROUTER`, `1<<3`; `PIPV4_CLIENT_NAT`, `1<<4`; `PIPV6_ICMP_NOHOST_CLIENT`,
-- `1<<5`; `PIPV6_ICMP_NOHOST_SERVER`, `1<<6`
def pipv4Passtos : UInt32 := 0x01

def pipMssfix : UInt32 := 0x02

def pipOutgoing : UInt32 := 0x04

def pipv4ExtractDhcpRouter : UInt32 := 0x08

def pipv4ClientNat : UInt32 := 0x10

def pipv6IcmpNohostClient : UInt32 := 0x20

def pipv6IcmpNohostServer : UInt32 := 0x40

/-- The options `process_ip_header` reads: `ce.mssfix`, `passtos`, the `client_nat` list (`NULL`
when there is none), `route_gateway_via_dhcp` and `block_ipv6`. -/
structure IpHeaderOptions where
  mssfix : Nat
  passtos : Bool
  clientNat : Option (List ClientNatEntry)
  routeGatewayViaDhcp : Bool
  blockIpv6 : Bool
  deriving DecidableEq, Repr

/-- The packet functions `process_ip_header` calls after the header checks: `mss_fixup_ipv4`,
`mss_fixup_ipv6`, `dhcp_extract_router_msg` and `ipv6_send_icmp_unreachable` (with its `client`
flag). Each returns the new packet bytes and the indices it touched. -/
structure IpConsumers where
  mssFixupIpv4 : Buffer → List UInt8 → Option (List UInt8 × List Int)
  mssFixupIpv6 : Buffer → List UInt8 → Option (List UInt8 × List Int)
  dhcpExtractRouterMsg : Buffer → List UInt8 → Option (List UInt8 × List Int)
  ipv6SendIcmpUnreachable : Buffer → Bool → List UInt8 → Option (List UInt8 × List Int)

/-- A call to one of the `IpConsumers`: its accesses join the record. -/
def PacketMem.call (m : PacketMem) (f : List UInt8 → Option (List UInt8 × List Int)) :
    Option PacketMem :=
  (f m.bytes).map fun r => ⟨r.1, m.touched ++ r.2⟩

/-- `link_socket_extract_tos(sock, &ipbuf)`: it reads `iph->tos` for the socket. -/
def linkSocketExtractTos (ipbuf : Buffer) (m : PacketMem) : Option PacketMem := do
  let (_, m) ← m.load ((bufBptr ipbuf).getD 0 + 1) 1
  pure m

/-- The flags `process_ip_header` keeps: those whose option is off are cleared. -/
def processIpHeaderFlags (opt : IpHeaderOptions) (flags : UInt32) : UInt32 :=
  let flags := if opt.mssfix = 0 then flags &&& ~~~pipMssfix else flags
  let flags := if ¬opt.passtos then flags &&& ~~~pipv4Passtos else flags
  let flags := if opt.clientNat.isNone then flags &&& ~~~pipv4ClientNat else flags
  let flags := if ¬opt.routeGatewayViaDhcp then flags &&& ~~~pipv4ExtractDhcpRouter else flags
  if ¬opt.blockIpv6 then flags &&& ~~~(pipv6IcmpNohostClient ||| pipv6IcmpNohostServer) else flags

/-- The IPv4 branch of `process_ip_header`, on the IP buffer `ipbuf`. -/
def processIpv4Header (opt : IpHeaderOptions) (io : IpConsumers) (flags : UInt32) (ipbuf : Buffer)
    (m : PacketMem) : Option PacketMem := do
  -- extract TOS from IP header
  let m ← if flags &&& pipv4Passtos ≠ 0 then linkSocketExtractTos ipbuf m else pure m
  -- possibly alter the TCP MSS
  let m ← if flags &&& pipMssfix ≠ 0 then m.call (io.mssFixupIpv4 ipbuf) else pure m
  -- possibly do NAT on packet
  let m ← match opt.clientNat with
    | some list =>
        if flags &&& pipv4ClientNat ≠ 0 then
          clientNatTransform list ipbuf
            (if flags &&& pipOutgoing ≠ 0 then cnIncoming else cnOutgoing) m
        else pure m
    | none => pure m
  -- possibly extract a DHCP router message
  if flags &&& pipv4ExtractDhcpRouter ≠ 0 then m.call (io.dhcpExtractRouterMsg ipbuf) else pure m

/-- `process_ip_header(c, flags, buf, sock)`: the buffer (emptied when an IPv6 packet is answered
with ICMPv6 and dropped) and the packet memory. -/
def processIpHeader (opt : IpHeaderOptions) (io : IpConsumers) (tunnelType : DevType)
    (flags : UInt32) (buf : Buffer) (m : PacketMem) : Option (Buffer × PacketMem) := do
  let flags := processIpHeaderFlags opt flags
  if buf.len > 0 then
    let ((ipbuf, v4), m) ← isIpv4 tunnelType buf m
    if v4 then
      let m ← processIpv4Header opt io flags ipbuf m
      pure (buf, m)
    else
      let ((ipbuf, v6), m) ← isIpv6 tunnelType ipbuf m
      if v6 then
        -- possibly alter the TCP MSS
        let m ← if flags &&& pipMssfix ≠ 0 then m.call (io.mssFixupIpv6 ipbuf) else pure m
        if flags &&& pipOutgoing = 0 ∧
            flags &&& (pipv6IcmpNohostClient ||| pipv6IcmpNohostServer) ≠ 0 then
          let m ← m.call (io.ipv6SendIcmpUnreachable buf (flags &&& pipv6IcmpNohostClient ≠ 0))
          -- Drop the IPv6 packet
          pure ({ buf with len := 0 }, m)
        else pure (buf, m)
      else pure (buf, m)
  else pure (buf, m)

end OpenVpn
