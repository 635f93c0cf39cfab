import OpenVpn.Buffer

/-! `clinat.c`: `client_nat_transform` rewrites the source or destination address of an IPv4
packet by the `--client-nat` rules and patches the IP checksum, and the TCP or UDP checksum, by the
change it made (`ADJUST_CHECKSUM` of `proto.h`).

The packet functions of `proto.c`, `clinat.c` and `forward.c` read and write header fields through
pointers into the buffer's allocation. The model runs them on `PacketMem`: the allocation, and the
list of every index read or written. A field is loaded and stored in network byte order, as a
big-endian host does it; the code computes the same bytes on either order (`ntohs` and `htons` are
then the identity), and `--client-nat` addresses are words in network order, as `getaddr` returns
them without `GETADDR_HOST_ORDER`. An access outside the allocation is `none`. -/

namespace OpenVpn

/-- The allocation a packet function works on, and every index it has read or written. -/
structure PacketMem where
  bytes : List UInt8
  touched : List Int
  deriving DecidableEq, Repr

namespace PacketMem

/-- The `n`-byte field at index `i`. -/
def load (m : PacketMem) (i : Int) (n : Nat) : Option (Nat × PacketMem) :=
  (memRead m.bytes i n).map fun bs =>
    (BigEndian.decode bs, { m with touched := m.touched ++ (List.range n).map fun k : Nat => i + k })

/-- Store `v` in the `n`-byte field at index `i`. -/
def store (m : PacketMem) (i : Int) (n v : Nat) : Option PacketMem :=
  (memWrite m.bytes i (BigEndian.encode n v)).map fun bytes =>
    ⟨bytes, m.touched ++ (List.range n).map fun k : Nat => i + k⟩

/-- Every access lies in `[lo, hi)`. -/
def Within (m : PacketMem) (lo hi : Int) : Prop := ∀ j ∈ m.touched, lo ≤ j ∧ j < hi

end PacketMem

/-- `ADJUST_CHECKSUM(acc, cksum)`: the checksum `cksum` patched by the accumulated change `acc`,
folded to 16 bits with the end-around carry. -/
def adjustChecksum (acc : Int) (cksum : Nat) : Nat :=
  let a := acc + cksum
  if a < 0 then
    let a := (-a).toNat
    let a := (a >>> 16) + (a &&& 0xffff)
    let a := a + (a >>> 16)
    -- (uint16_t) ~_acc
    2 ^ 16 - 1 - a % 2 ^ 16
  else
    let a := a.toNat
    let a := (a >>> 16) + (a &&& 0xffff)
    let a := a + (a >>> 16)
    a % 2 ^ 16

/-- `struct client_nat_entry`: `type` is `CN_SNAT` (0) or `CN_DNAT` (1). -/
structure ClientNatEntry where
  type : Nat
  network : UInt32
  netmask : UInt32
  foreignNetwork : UInt32
  deriving DecidableEq, Repr

-- `CN_OUTGOING`; `CN_INCOMING`; `OPENVPN_IPPROTO_TCP`; `OPENVPN_IPPROTO_UDP`; `sizeof(struct
-- openvpn_iphdr)`; `sizeof(struct openvpn_tcphdr)`; `sizeof(struct openvpn_udphdr)`
def cnOutgoing : Nat := 0

def cnIncoming : Nat := 1

def openvpnIpprotoTcp : Nat := 6

def openvpnIpprotoUdp : Nat := 17

def sizeofIphdr : Nat := 20

def sizeofTcphdr : Nat := 20

def sizeofUdphdr : Nat := 8

/-- The field of `struct openvpn_iphdr` a rule rewrites, and its bit in `alog`: `daddr` (at 16)
when `e->type ^ direction`, else `saddr` (at 12). -/
def clientNatField (e : ClientNatEntry) (direction : Nat) : Nat × Nat :=
  if e.type ^^^ direction ≠ 0 then (16, 2) else (12, 1)

/-- The `from` and `to` networks of a rule: `foreign_network` to `network` for an incoming
packet, the other way for an outgoing one. -/
def clientNatNets (e : ClientNatEntry) (direction : Nat) : UInt32 × UInt32 :=
  if direction ≠ 0 then (e.foreignNetwork, e.network) else (e.network, e.foreignNetwork)

/-- A rule on the address `addr` loaded from the field at index `i`: when its `from` network
matches and the field was not rewritten yet (bit `amask` of `alog`), the address is rewritten and
the change is added to `accumulate`. -/
def clientNatRewrite (i : Int) (direction : Nat) (e : ClientNatEntry) (amask : Nat) (addr : UInt32)
    (m : PacketMem) (acc : Int) (alog : Nat) : Option (PacketMem × Int × Nat) :=
  if (addr &&& e.netmask) = (clientNatNets e direction).1 ∧ amask &&& alog = 0 then
    -- pre-adjust IP checksum
    let acc := acc + (addr &&& 0xffff).toNat + (addr >>> 16).toNat
    -- do NAT transform
    let addr := (addr &&& ~~~e.netmask) ||| (clientNatNets e direction).2
    -- post-adjust IP checksum
    let acc := acc - (addr &&& 0xffff).toNat - (addr >>> 16).toNat
    (m.store i 4 addr.toNat).map fun m => (m, acc, alog ||| amask)
  else some (m, acc, alog)

/-- One turn of the rule loop of `client_nat_transform` on the header at index `h`: the state is
the memory, `accumulate` and `alog`. The rule's address field is read on every turn. -/
def clientNatStep (h : Int) (direction : Nat) (st : PacketMem × Int × Nat) (e : ClientNatEntry) :
    Option (PacketMem × Int × Nat) :=
  (st.1.load (h + (clientNatField e direction).1) 4).bind fun r =>
    clientNatRewrite (h + (clientNatField e direction).1) direction e (clientNatField e direction).2
      (UInt32.ofNat r.1) r.2 st.2.1 st.2.2

/-- `ADJUST_CHECKSUM(accumulate, field)` on the 16-bit field at index `i`. -/
def clientNatAdjust (m : PacketMem) (i : Int) (acc : Int) : Option PacketMem := do
  let (cksum, m) ← m.load i 2
  m.store i 2 (adjustChecksum acc cksum)

/-- The checksums `client_nat_transform` patches once an address changed: the IP checksum, then
the TCP or UDP checksum of `struct ip_tcp_udp_hdr`, at byte 36 or 26 of the header, when
`BLEN(ipbuf)` holds a 20-byte IP header and the transport header. -/
def clientNatPatch (ipbuf : Buffer) (h : Int) (acc : Int) (m : PacketMem) : Option PacketMem := do
  let m ← clientNatAdjust m (h + 10) acc
  let (protocol, m) ← m.load (h + 9) 1
  if protocol = openvpnIpprotoTcp then
    if bufLen ipbuf ≥ sizeofIphdr + sizeofTcphdr then clientNatAdjust m (h + 36) acc else pure m
  else if protocol = openvpnIpprotoUdp then
    if bufLen ipbuf ≥ sizeofIphdr + sizeofUdphdr then clientNatAdjust m (h + 26) acc else pure m
  else pure m

/-- `client_nat_transform(list, ipbuf, direction)`, on the header at `BPTR(ipbuf)`. The debug
print at `D_CLIENT_NAT` is not modelled. -/
def clientNatTransform (list : List ClientNatEntry) (ipbuf : Buffer) (direction : Nat)
    (m : PacketMem) : Option PacketMem := do
  let h ← bufBptr ipbuf
  let (m, acc, alog) ← list.foldlM (clientNatStep h direction) (m, 0, 0)
  if alog = 0 then pure m else clientNatPatch ipbuf h acc m

end OpenVpn
