import OpenVpn.Icmp6

/-! `mss.c`: the TCP MSS clamping of `--mssfix`. `mss_fixup_ipv4` and `mss_fixup_ipv6` find the
TCP header of a SYN segment in a whole IPv4 or IPv6 packet and hand it to `mss_fixup_dowork`,
which walks the TCP options and lowers every MSS option above `maxmss` to `maxmss`, patching the
TCP checksum by the change with `ADJUST_CHECKSUM`.

The functions run on `PacketMem`, as those of `clinat.c` do: fields in network byte order, every
index read or written recorded, `none` for an access outside the allocation. `htons` is then the
identity, and `accumulate` is the difference of the two MSS values. `verify_align_4` checks
nothing in a release build, and the `dmsg` at `D_MSS` is not modelled. `maxmss` and `mssval` are
the `uint16_t` values of the source, so `maxmss - 20` in `mss_fixup_ipv6` wraps below 20. -/

namespace OpenVpn

-- `OPENVPN_TCPOPT_EOL`; `OPENVPN_TCPOPT_NOP`; `OPENVPN_TCPOPT_MAXSEG`; `OPENVPN_TCPOLEN_MAXSEG`;
-- `OPENVPN_TCPH_SYN_MASK`; `OPENVPN_IP_OFFMASK`
def openvpnTcpoptEol : Nat := 0

def openvpnTcpoptNop : Nat := 1

def openvpnTcpoptMaxseg : Nat := 2

def openvpnTcpolenMaxseg : Nat := 4

def openvpnTcphSynMask : Nat := 1 <<< 1

def openvpnIpOffmask : Nat := 0x1fff

/-- `OPENVPN_TCPH_GET_DOFF(d)`: the TCP header length in bytes. -/
def openvpnTcphGetDoff (d : Nat) : Nat := (d &&& 0xF0) >>> 2

/-- `OPENVPN_IPH_GET_LEN(v)`: the IPv4 header length in bytes. -/
def openvpnIphGetLen (v : Nat) : Nat := (v &&& 0x0F) <<< 2

/-- The MSS option at `opt`, of the right length: `mssval` is read from `opt[2]` and `opt[3]`,
and when it is above `maxmss` both bytes are stored and the checksum at `check` is patched by
`htons(mssval) - htons(maxmss)`. -/
def mssFixupMaxseg (check : Int) (maxmss : UInt16) (opt : Int) (m : PacketMem) :
    Option PacketMem := do
  let (hi, m) ← m.load (opt + 2) 1
  let (lo, m) ← m.load (opt + 3) 1
  let mssval : UInt16 := (UInt16.ofNat hi <<< 8) + UInt16.ofNat lo
  if mssval > maxmss then
    let accumulate : Int := mssval.toNat
    let m ← m.store (opt + 2) 1 ((maxmss >>> 8) &&& 0xff).toNat
    let m ← m.store (opt + 3) 1 (maxmss &&& 0xff).toNat
    let accumulate := accumulate - maxmss.toNat
    clientNatAdjust m check accumulate
  else pure m

/-- The `for` loop of `mss_fixup_dowork` from the option at `opt`, with `olen` bytes of options
left; `check` is the index of `tc->check`. A `continue` on an MSS option of another length still
runs `olen -= optlen, opt += optlen`. -/
def mssFixupLoop (check : Int) (maxmss : UInt16) (opt olen : Int) (m : PacketMem) :
    Option PacketMem :=
  if 1 < olen then
    match m.load opt 1 with
    | none => none
    | some (kind, m) =>
        if kind = openvpnTcpoptEol then some m
        else if kind = openvpnTcpoptNop then mssFixupLoop check maxmss (opt + 1) (olen - 1) m
        else
          match m.load (opt + 1) 1 with
          | none => none
          | some (optlen, m) =>
              if optlen = 0 ∨ olen < optlen then some m
              else if kind = openvpnTcpoptMaxseg ∧ optlen = openvpnTcpolenMaxseg then
                match mssFixupMaxseg check maxmss opt m with
                | none => none
                | some m => mssFixupLoop check maxmss (opt + optlen) (olen - optlen) m
              else mssFixupLoop check maxmss (opt + optlen) (olen - optlen) m
  else some m
termination_by olen.toNat

/-- `mss_fixup_dowork(buf, maxmss)` on the TCP header at `BPTR(buf)`. -/
def mssFixupDowork (buf : Buffer) (maxmss : UInt16) (m : PacketMem) : Option PacketMem :=
  if bufLen buf < sizeofTcphdr then some m
  else do
    let t ← bufBptr buf
    let (doffRes, m) ← m.load (t + 12) 1
    let hlen : Int := openvpnTcphGetDoff doffRes
    -- invalid header length or header without options
    if hlen ≤ sizeofTcphdr ∨ bufLen buf < hlen then pure m
    else mssFixupLoop (t + 16) maxmss (t + sizeofTcphdr) (hlen - sizeofTcphdr) m

/-- The SYN test of both callers, on the TCP header at `BPTR(newbuf)`. -/
def mssFixupIfSyn (newbuf : Buffer) (maxmss : UInt16) (m : PacketMem) : Option PacketMem := do
  let t ← bufBptr newbuf
  let (flags, m) ← m.load (t + 13) 1
  if flags &&& openvpnTcphSynMask ≠ 0 then mssFixupDowork newbuf maxmss m else pure m

/-- `mss_fixup_ipv4(buf, maxmss)`: a whole, unfragmented IPv4 TCP packet with room for the TCP
header after the IP header. The conditions are tested in the order of the source's `&&`. -/
def mssFixupIpv4 (buf : Buffer) (maxmss : UInt16) (m : PacketMem) : Option PacketMem :=
  if bufLen buf < sizeofIphdr then some m
  else do
    let h ← bufBptr buf
    let (versionLen, m) ← m.load h 1
    let hlen : Int := openvpnIphGetLen versionLen
    let (protocol, m) ← m.load (h + 9) 1
    if protocol = openvpnIpprotoTcp then
      let (totLen, m) ← m.load (h + 2) 2
      if (totLen : Int) = bufLen buf then
        let (fragOff, m) ← m.load (h + 6) 2
        if fragOff &&& openvpnIpOffmask = 0 ∧ hlen ≤ bufLen buf ∧ sizeofTcphdr ≤ bufLen buf - hlen then
          let (newbuf, ok) := bufAdvance buf hlen
          if ok then mssFixupIfSyn newbuf maxmss m else pure m
        else pure m
      else pure m
    else pure m

/-- `mss_fixup_ipv6(buf, maxmss)`: a whole IPv6 packet whose next header is TCP; the TCP header
is clamped to `maxmss - 20`, a `uint16_t`. -/
def mssFixupIpv6 (buf : Buffer) (maxmss : UInt16) (m : PacketMem) : Option PacketMem :=
  if bufLen buf < sizeofIpv6hdr then some m
  else do
    let h ← bufBptr buf
    let (payloadLen, m) ← m.load (h + 4) 2
    -- do we have the full IPv6 packet?
    if bufLen buf ≠ payloadLen + 40 then pure m
    else
      let (nexthdr, m) ← m.load (h + 6) 1
      if nexthdr ≠ openvpnIpprotoTcp then pure m
      else
        let (newbuf, ok) := bufAdvance buf 40
        if ok ∧ sizeofTcphdr ≤ bufLen newbuf then mssFixupIfSyn newbuf (maxmss - 20) m
        else pure m

end OpenVpn
