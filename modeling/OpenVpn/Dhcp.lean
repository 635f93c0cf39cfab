import OpenVpn.Icmp6

/-! `dhcp.c`: `dhcp_extract_router_msg`, which `process_ip_header` calls on the IPv4 packets of the
tunnel under `--route-gateway dhcp`. On a DHCPACK or DHCPOFFER from the server port to the client
port it pads out every router option (`do_extract`) and recomputes the UDP checksum; of a DHCPACK
it returns the first router address, which becomes the VPN gateway.

The functions run on `PacketMem`, as those of `clinat.c` and `mss.c` do. `struct dhcp_full` is
packed: the 20-byte IP header, the UDP header and the 240 bytes of `struct dhcp` lie at fixed
offsets from `BPTR`, and the options follow; the IP header length field is not read. `memcpy`,
`memmove` and `memset` go through `PacketMem.read` and `PacketMem.write`, and the `msg` at
`D_ROUTE` is not modelled. -/

namespace OpenVpn

-- `DHCP_PAD`; `DHCP_ROUTER`; `DHCP_MSG_TYPE`; `DHCP_END`; `DHCPOFFER`; `DHCPACK`; `BOOTPS_PORT`;
-- `BOOTPC_PORT`; `BOOTREPLY`; `sizeof(struct dhcp)`: the fixed fields and the magic cookie
def dhcpPad : Nat := 0

def dhcpRouter : Nat := 3

def dhcpMsgType : Nat := 53

def dhcpEnd : Nat := 255

def dhcpoffer : Nat := 2

def dhcpack : Nat := 5

def bootpsPort : Nat := 67

def bootpcPort : Nat := 68

def bootreply : Nat := 2

def sizeofDhcp : Nat := 240

namespace PacketMem

/-- The `n` bytes at index `i`, as `memcpy` or a byte loop reads them. -/
def read (m : PacketMem) (i : Int) (n : Nat) : Option (List UInt8 × PacketMem) :=
  (memRead m.bytes i n).map fun bs =>
    (bs, { m with touched := m.touched ++ (List.range n).map fun k : Nat => i + k })

/-- The bytes `bs` copied in at index `i`. -/
def write (m : PacketMem) (i : Int) (bs : List UInt8) : Option PacketMem :=
  (memWrite m.bytes i bs).map fun bytes =>
    ⟨bytes, m.touched ++ (List.range bs.length).map fun k : Nat => i + k⟩

/-- `memmove(dest, src, n)`: the source is read whole before the destination is written, so the
two ranges may overlap. -/
def memmove (m : PacketMem) (dest src : Int) (n : Nat) : Option PacketMem := do
  let (bs, m) ← m.read src n
  m.write dest bs

/-- `memset(s, c, n)`. -/
def memset (m : PacketMem) (s : Int) (c n : Nat) : Option PacketMem :=
  m.write s (List.replicate n (UInt8.ofNat c))

end PacketMem

/-- The `for` loop of `get_dhcp_message_type` from option byte `i`, on the `optlen` option bytes at
`p`. The `++i` of the loop follows the `i += (len + 1)` of another option. -/
def getDhcpMessageTypeLoop (p optlen i : Int) (m : PacketMem) : Option (Int × PacketMem) :=
  if i < optlen then
    match m.load (p + i) 1 with
    | none => none
    | some (type, m) =>
        let room := optlen - i
        -- didn't find what we were looking for
        if type = dhcpEnd then some (-1, m)
        else if type = dhcpPad then getDhcpMessageTypeLoop p optlen (i + 1) m
        else if type = dhcpMsgType then
          if room ≥ 3 then
            match m.load (p + i + 1) 1 with
            | none => none
            | some (olen, m) =>
                -- option length should be 1
                if olen = 1 then (m.load (p + i + 2) 1).map fun r => ((r.1 : Int), r.2)
                else some (-1, m)
          else some (-1, m)
        -- some other option
        else if room ≥ 2 then
          match m.load (p + i + 1) 1 with
          | none => none
          | some (len, m) => getDhcpMessageTypeLoop p optlen (i + (len + 1) + 1) m
        else getDhcpMessageTypeLoop p optlen (i + 1) m
  else some (-1, m)
termination_by (optlen - i).toNat

/-- `get_dhcp_message_type(dhcp, optlen)`: the options follow the `struct dhcp` at `dhcp`. -/
def getDhcpMessageType (dhcp optlen : Int) (m : PacketMem) : Option (Int × PacketMem) :=
  getDhcpMessageTypeLoop (dhcp + sizeofDhcp) optlen 0 m

/-- The `for` loop of `do_extract` from option byte `i`, with the router address `ret` found so
far, for at most `fuel` turns. Deleting a router option keeps `i`, so the loop is not bounded by
`optlen - i`: each deletion takes a nonzero byte out of `[i, optlen)` instead. -/
def doExtractLoop (p optlen : Int) : Nat → Int → UInt32 → PacketMem → Option (UInt32 × PacketMem)
  | 0, _, _, _ => none
  | fuel + 1, i, ret, m =>
      if i < optlen then
        match m.load (p + i) 1 with
        | none => none
        | some (type, m) =>
            let room := optlen - i
            if type = dhcpEnd then some (ret, m)
            else if type = dhcpPad then doExtractLoop p optlen fuel (i + 1) ret m
            else if type = dhcpRouter then
              if room ≥ 2 then
                match m.load (p + i + 1) 1 with
                | none => none
                | some (len, m) =>
                    if len ≤ room - 2 then do
                      -- get router IP address
                      let (ret, m) ← (if ret = 0 ∧ len ≥ 4 ∧ len &&& 3 = 0 then
                          (m.load (p + i + 2) 4).map fun r => (UInt32.ofNat r.1, r.2)
                        else pure (ret, m))
                      -- delete the router option
                      let dest := p + i
                      let owlen : Int := len + 2
                      let src := dest + owlen
                      let optEnd := p + optlen
                      let movlen := optEnd - src
                      let m ← (if movlen > 0 then m.memmove dest src movlen.toNat else pure m)
                      let m ← m.memset (optEnd - owlen) dhcpPad owlen.toNat
                      doExtractLoop p optlen fuel i ret m
                    else some (ret, m)
              else some (ret, m)
            -- some other option
            else if room ≥ 2 then
              match m.load (p + i + 1) 1 with
              | none => none
              | some (len, m) => doExtractLoop p optlen fuel (i + (len + 2)) ret m
            else some (ret, m)
      else some (ret, m)

/-- `do_extract(dhcp, optlen)`: the loop turns at most once per option byte and once per deleted
option, and never more than `2 * optlen + 1` times. -/
def doExtract (dhcp optlen : Int) (m : PacketMem) : Option (UInt32 × PacketMem) :=
  doExtractLoop (dhcp + sizeofDhcp) optlen (2 * optlen.toNat + 1) 0 0 m

/-- `dhcp_extract_router_msg(ipbuf)`: the router address, and the packet memory. The fields of
`struct dhcp_full` lie at `BPTR` plus: `ip.protocol` 9, `ip.saddr` 12, `ip.daddr` 16, `udp.source`
20, `udp.dest` 22, `udp.check` 26 and `dhcp.op` 28. The tests are made in the order of the
source's `&&`, after `optlen >= 0`. -/
def dhcpExtractRouterMsg (ipbuf : Buffer) (m : PacketMem) : Option (UInt32 × PacketMem) :=
  let optlen : Int := bufLen ipbuf - (sizeofIphdr + sizeofUdphdr + sizeofDhcp)
  if optlen ≥ 0 then do
    let df ← bufBptr ipbuf
    let (protocol, m) ← m.load (df + 9) 1
    if protocol = openvpnIpprotoUdp then
      let (source, m) ← m.load (df + 20) 2
      if source = bootpsPort then
        let (dest, m) ← m.load (df + 22) 2
        if dest = bootpcPort then
          let (op, m) ← m.load (df + 28) 1
          if op = bootreply then
            let (messageType, m) ← getDhcpMessageType (df + 28) optlen m
            if messageType = dhcpack ∨ messageType = dhcpoffer then
              -- get the router IP address while padding out all DHCP router options
              let (ret, m) ← doExtract (df + 28) optlen m
              -- recompute the UDP checksum
              let m ← m.store (df + 26) 2 0
              let len : Int := sizeofUdphdr + sizeofDhcp + optlen
              let (udp, m) ← m.read (df + 20) len.toNat
              let (saddr, m) ← m.read (df + 12) 4
              let (daddr, m) ← m.read (df + 16) 4
              let m ← m.store (df + 26) 2 (ipChecksum udp len saddr daddr openvpnIpprotoUdp)
              -- only return the extracted Router address if DHCPACK
              if messageType = dhcpack then pure (ret, m) else pure (0, m)
            else pure (0, m)
          else pure (0, m)
        else pure (0, m)
      else pure (0, m)
    else pure (0, m)
  else some (0, m)

end OpenVpn
