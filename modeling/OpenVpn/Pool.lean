import OpenVpn.BufferSpec

/-! `pool.c`: the pool of virtual addresses a server hands to its clients. The pool is an array of
`size` entries, each with an `in_use` flag, the common name of its last holder, the time of its
release and a `fixed` flag; the handle of an entry is its index, and the addresses of a handle are
a function of it: a `/30` subnet or a single IPv4 address from `ipv4.base`, and an IPv6 address
from `ipv6.base`. `ifconfig_pool_acquire` prefers a free entry last held by the same common name,
then the free non-fixed entry released earliest; in `duplicate_cn` mode it takes the first free
entry. `ifconfig_pool_read` replays a persist file of `common name, IPv4, IPv6` lines through
`ifconfig_pool_set`, which marks the entries of a read-only file `fixed`.

Here the file is given as its parsed lines, a field empty, not an address, or the address it
parses to; the text layer (`status_read`, `buf_parse`, `getaddr`, `get_ipv6_addr`) is in
`PoolPersist` and `SocketAddr`. -/

namespace OpenVpn

-- `IFCONFIG_POOL_MAX`
def ifconfigPoolMax : Nat := 65536

/-- `enum pool_type`; a zeroed pool has type `IFCONFIG_POOL_30NET`. -/
inductive PoolType
  | net30
  | indiv
  deriving DecidableEq, Repr

/-- `struct in6_addr`: sixteen bytes, most significant first. -/
structure In6Addr where
  s6Addr : List UInt8
  length_s6Addr : s6Addr.length = 16
  deriving DecidableEq, Repr

namespace In6Addr

-- `IN6ADDR_ANY_INIT`, also the address of a zeroed structure
def any : In6Addr := ⟨List.replicate 16 0, rfl⟩

/-- `s6_addr[i]`. -/
def byte (a : In6Addr) (i : Nat) : UInt8 := a.s6Addr.getD i 0

/-- The last four bytes as one 32-bit word, `(s6_addr[12] << 24) | … | s6_addr[15]`. -/
def low32 (a : In6Addr) : UInt32 :=
  (a.byte 12).toUInt32 <<< 24 ||| (a.byte 13).toUInt32 <<< 16 ||| (a.byte 14).toUInt32 <<< 8 |||
    (a.byte 15).toUInt32

/-- `s6_addr[15]++`. -/
def incLast (a : In6Addr) : In6Addr :=
  ⟨a.s6Addr.set 15 (a.byte 15 + 1), by rw [List.length_set, a.length_s6Addr]⟩

end In6Addr

/-- The loop of `add_in6_addr` from index `i - 1` down, while `add > 0`: the byte plus `add`, and
the rest of `add` with the carry moved on to the next byte. -/
def addIn6AddrLoop (bytes : List UInt8) (add : UInt32) : Nat → List UInt8
  | 0 => bytes
  | i + 1 =>
      if 0 < add then
        let h := (bytes.getD i 0).toUInt32
        let carry := ((h &&& 0xff) + (add &&& 0xff)) >>> 8
        addIn6AddrLoop (bytes.set i (h + add).toUInt8) ((add >>> 8) + carry) i
      else bytes

theorem length_addIn6AddrLoop (bytes : List UInt8) (add : UInt32) (i : Nat) :
    (addIn6AddrLoop bytes add i).length = bytes.length := by
  induction i generalizing bytes add with
  | zero => rfl
  | succ i ih =>
      simp only [addIn6AddrLoop]
      split_ifs
      · rw [ih, List.length_set]
      · rfl

/-- `add_in6_addr(base, add)`. -/
def addIn6Addr (base : In6Addr) (add : UInt32) : In6Addr :=
  ⟨addIn6AddrLoop base.s6Addr add 16, by rw [length_addIn6AddrLoop, base.length_s6Addr]⟩

/-- `struct ifconfig_pool_entry`. -/
structure PoolEntry where
  inUse : Bool
  commonName : Option String
  lastRelease : Int
  fixed : Bool
  deriving DecidableEq, Repr

/-- An entry of `ALLOC_ARRAY_CLEAR`. -/
def PoolEntry.clear : PoolEntry := ⟨false, none, 0, false⟩

/-- `struct ifconfig_pool`; `size` is the length of `list`. -/
structure IfconfigPool where
  duplicateCn : Bool
  ipv4Enabled : Bool
  ipv4Type : PoolType
  ipv4Base : UInt32
  ipv6Enabled : Bool
  ipv6Base : In6Addr
  list : List PoolEntry
  deriving DecidableEq, Repr

/-- `ifconfig_pool_entry_free`: a hard release also forgets the holder and the release time. -/
def ifconfigPoolEntryFree (e : PoolEntry) (hard : Bool) (now : Int) : PoolEntry :=
  { e with
    inUse := false
    commonName := if hard then none else e.commonName
    lastRelease := if hard then 0 else now }

/-- The test `common_name && ipe->common_name && !strcmp(common_name, ipe->common_name)`. -/
def sameCommonName : Option String → Option String → Bool
  | some a, some b => a == b
  | _, _ => false

/-- The loop of `ifconfig_pool_find` from entry `i` on, with `earliest_release`,
`previous_usage` and `new_usage` so far: the final `previous_usage` and `new_usage`. -/
def ifconfigPoolFindLoop (duplicateCn : Bool) (commonName : Option String) :
    List PoolEntry → Nat → Int → Int → Int → Int × Int
  | [], _, _, prev, new => (prev, new)
  | e :: rest, i, earliest, prev, new =>
      if e.inUse then ifconfigPoolFindLoop duplicateCn commonName rest (i + 1) earliest prev new
      -- in `duplicate_cn` mode, the first free entry
      else if duplicateCn then (prev, i)
      else
        let better := (new = -1 ∨ e.lastRelease < earliest) ∧ e.fixed = false
        let earliest := if better then e.lastRelease else earliest
        let new := if better then (i : Int) else new
        let prev := if prev < 0 ∧ sameCommonName commonName e.commonName then (i : Int) else prev
        ifconfigPoolFindLoop duplicateCn commonName rest (i + 1) earliest prev new

/-- `ifconfig_pool_find`: the entry last held by `common_name`, else the free non-fixed entry
released earliest, else `-1`. -/
def ifconfigPoolFind (pool : IfconfigPool) (commonName : Option String) : Int :=
  let (prev, new) := ifconfigPoolFindLoop pool.duplicateCn commonName pool.list 0 0 (-1) (-1)
  if 0 ≤ prev then prev else if 0 ≤ new then new else -1

/-- The IPv4 endpoints `ifconfig_pool_acquire` writes for handle `i`: the second and third address
of the `i`-th `/30` subnet, or no local address and the `i`-th address. -/
def ifconfigPoolAddr4 (pool : IfconfigPool) (i : Nat) : Option (UInt32 × UInt32) :=
  if pool.ipv4Enabled then
    match pool.ipv4Type with
    | .net30 =>
        let b := pool.ipv4Base + (UInt32.ofNat i <<< 2)
        some (b + 1, b + 2)
    | .indiv => some (0, pool.ipv4Base + UInt32.ofNat i)
  else none

/-- The IPv6 address `ifconfig_pool_acquire` writes for handle `i`; IPv6 pools are always
`INDIV`. -/
def ifconfigPoolAddr6 (pool : IfconfigPool) (i : Nat) : Option In6Addr :=
  if pool.ipv6Enabled then some (addIn6Addr pool.ipv6Base (UInt32.ofNat i)) else none

/-- What `ifconfig_pool_acquire` returns besides the pool: the handle, and the IPv4 endpoints and
the IPv6 address it wrote, if any. -/
structure PoolGrant where
  hand : Int
  ipv4 : Option (UInt32 × UInt32)
  ipv6 : Option In6Addr
  deriving DecidableEq, Repr

/-- `ifconfig_pool_acquire`; `none` where `ASSERT(!ipe->in_use)` fails. -/
def ifconfigPoolAcquire (pool : IfconfigPool) (commonName : Option String) :
    Option (IfconfigPool × PoolGrant) :=
  let i := ifconfigPoolFind pool commonName
  if 0 ≤ i then
    let e := pool.list.getD i.toNat PoolEntry.clear
    if e.inUse then none
    else
      -- `ifconfig_pool_entry_free(ipe, true)`, then `in_use`, then the copied name if non-NULL
      let e := { ifconfigPoolEntryFree e true 0 with inUse := true, commonName := commonName }
      some ({ pool with list := pool.list.set i.toNat e },
        ⟨i, ifconfigPoolAddr4 pool i.toNat, ifconfigPoolAddr6 pool i.toNat⟩)
  else some (pool, ⟨i, none, none⟩)

/-- `ifconfig_pool_release`. -/
def ifconfigPoolRelease (pool : IfconfigPool) (hand : Int) (hard : Bool) (now : Int) :
    IfconfigPool × Bool :=
  if 0 ≤ hand ∧ hand < pool.list.length then
    ({ pool with list := pool.list.modify hand.toNat (ifconfigPoolEntryFree · hard now) }, true)
  else (pool, false)

/-- `ifconfig_pool_ip_base_to_handle`: the handle of an IPv4 address, or `-1`. The difference is
a `uint32_t`, cut to an `int` for `INDIV`. -/
def ifconfigPoolIpBaseToHandle (pool : IfconfigPool) (addr : UInt32) : Int :=
  let ret : Int := match pool.ipv4Type with
    | .net30 => ((addr - pool.ipv4Base) >>> 2).toNat
    | .indiv => toCInt (addr - pool.ipv4Base).toNat
  if ret < 0 ∨ pool.list.length ≤ ret then -1 else ret

/-- `ifconfig_pool_ipv6_base_to_handle`: the handle of an IPv6 address sharing the first twelve
bytes of the base, or `-1`. -/
def ifconfigPoolIpv6BaseToHandle (pool : IfconfigPool) (addr : In6Addr) : Int :=
  if (List.range 12).any fun i => pool.ipv6Base.byte i != addr.byte i then -1
  else
    let ret := toCInt (addr.low32 - pool.ipv6Base.low32).toNat
    if ret < 0 ∨ pool.list.length ≤ ret then -1 else ret

/-- `ifconfig_pool_set`: the entry is freed, then holds `cn`, released at `now`, and `fixed`. -/
def ifconfigPoolSet (pool : IfconfigPool) (cn : String) (h : Nat) (fixed : Bool) (now : Int) :
    IfconfigPool :=
  { pool with list := pool.list.modify h fun e =>
      { ifconfigPoolEntryFree e true now with
        inUse := false
        commonName := some cn
        lastRelease := now
        fixed := fixed } }

/-- A field of a persist line: empty, not an address, or the address it parses to. -/
inductive PersistField (α : Type)
  | empty
  | invalid
  | addr (a : α)
  deriving DecidableEq, Repr

/-- A line `CN,IP4,IP6` of the persist file, split by `buf_parse`. -/
structure PersistLine where
  commonName : String
  ipv4 : PersistField UInt32
  ipv6 : PersistField In6Addr
  deriving DecidableEq, Repr

/-- The handle of a persist line: its IPv4 address, or its IPv6 address where the IPv4 one is
missing, invalid or outside the pool. -/
def ifconfigPoolLineHandle (pool : IfconfigPool) (line : PersistLine) : Int :=
  let h : Int := match line.ipv4 with
    | .addr a => ifconfigPoolIpBaseToHandle pool a
    | _ => -1
  match line.ipv6 with
  | .addr a =>
      let h6 := ifconfigPoolIpv6BaseToHandle pool a
      if h < 0 then h6 else h
  | _ => h

/-- The loop of `ifconfig_pool_read` over the lines of the file: the pool and the handles and
names that `ifconfig_pool_set` recorded, in order. -/
def ifconfigPoolRead (pool : IfconfigPool) (fixed : Bool) (now : Int) :
    List PersistLine → IfconfigPool × List (Nat × String)
  | [] => (pool, [])
  | line :: lines =>
      let h := ifconfigPoolLineHandle pool line
      if 0 ≤ h then
        let r := ifconfigPoolRead (ifconfigPoolSet pool line.commonName h.toNat fixed now) fixed now
          lines
        (r.1, (h.toNat, line.commonName) :: r.2)
      else ifconfigPoolRead pool fixed now lines

/-- `ifconfig_pool_verify_range`. -/
def ifconfigPoolVerifyRange (start endIp : UInt32) : Bool :=
  !decide (start > endIp) && !decide (ifconfigPoolMax ≤ (endIp - start).toNat)

/-- The IPv6 part of `ifconfig_pool_init`: the base, moved off an all-zero host part, and
`pool_ipv6_size`; `none` where `128 - ipv6_netbits` is a negative shift. -/
def ifconfigPoolInitIpv6 (ipv6Base : In6Addr) (ipv6Netbits : Int) : Option (In6Addr × Int) :=
  if 128 - ipv6Netbits < 0 then none
  else
    let hostBits := (128 - ipv6Netbits).toNat
    let base := ipv6Base.low32
    -- only the host bits of the last word
    let base := if hostBits < 32 then base &&& UInt32.ofNat (2 ^ hostBits - 1) else base
    let (base, poolBase) := if base = 0 then (base + 1, ipv6Base.incLast) else (base, ipv6Base)
    let size : Int := if 112 ≤ ipv6Netbits then toCInt (2 ^ hostBits - base.toNat) else ifconfigPoolMax
    some (poolBase, size)

/-- `ifconfig_pool_init`; `none` where an `ASSERT` fails or `msg(M_FATAL, ...)` ends the
process. -/
def ifconfigPoolInit (ipv4Pool : Bool) (type : PoolType) (start endIp : UInt32) (duplicateCn : Bool)
    (ipv6Pool : Bool) (ipv6Base : In6Addr) (ipv6Netbits : Int) : Option IfconfigPool :=
  if ¬(start ≤ endIp ∧ (endIp - start).toNat < ifconfigPoolMax) then none
  else
    let (ipv4Type, ipv4Base, size4) : PoolType × UInt32 × Int :=
      if ipv4Pool then
        match type with
        | .net30 => (.net30, start &&& ~~~3, ((((endIp ||| 3) + 1) - (start &&& ~~~3)) >>> 2).toNat)
        | .indiv => (.indiv, start, (endIp - start + 1).toNat)
      else (.net30, 0, -1)
    -- "IPv4 pool size is too small"
    if ipv4Pool ∧ size4 < 2 then none
    else
      let size : Int := if ipv4Pool then size4 else 0
      let ipv6 : Option (In6Addr × Int) :=
        if ipv6Pool then ifconfigPoolInitIpv6 ipv6Base ipv6Netbits else some (In6Addr.any, 0)
      match ipv6 with
      | none => none
      | some (ipv6Base, size6) =>
          -- "IPv6 pool size is too small"
          if ipv6Pool ∧ size6 < 2 then none
          else
            let size := if ipv6Pool ∧ (size ≤ 0 ∨ size6 < size) then size6 else size
            -- `ASSERT(pool->size > 0)`
            if size ≤ 0 then none
            else some ⟨duplicateCn, ipv4Pool, ipv4Type, ipv4Base, ipv6Pool, ipv6Base,
              List.replicate size.toNat PoolEntry.clear⟩

end OpenVpn
