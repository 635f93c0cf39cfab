import OpenVpn.PoolSpec

/-! The IPv4 part of `--server network netmask` in `helper_client_server` (`helper.c`), with
`netmask_to_netbits` of `route.c` and the pool type `multi_init` picks. The helper checks the
options, takes the netbits of the netmask and sets `ifconfig_local`, `ifconfig_remote_netmask`
and the pool range: `network + 4` to the broadcast address less a reserve of 4 (none for a `/29`)
in `net30` and `p2p` topology, `network + 2` to the broadcast address less 1 in `subnet` topology
and on a tap device. `msg(M_USAGE, ...)` ends the process, so the helper returns the first usage
message it prints. The pushed options and routes it also sets are not modelled.

On the range it sets, `ifconfig_pool_init` builds a pool whose addresses lie strictly within the
subnet, away from the server's own address and its `/30`, except in three places: a `/29` on a
tun device in `net30` topology leaves a pool of one `/30` and a tap `/30` a pool of one address,
which `ifconfig_pool_init` refuses, and a `/29` in `p2p` topology hands out the broadcast
address (`server_pool_well_placed`). -/

namespace OpenVpn

-- `IPV4_NETMASK_HOST`
def ipv4NetmaskHost : UInt32 := 0xffffffff

/-- `netbits_to_netmask`: the top `netbits` bits, or `0` outside `1..32`. -/
def netbitsToNetmask (netbits : Int) : UInt32 :=
  if 0 < netbits ∧ netbits ≤ 32 then ipv4NetmaskHost <<< UInt32.ofNat (32 - netbits).toNat else 0

/-- `netmask_to_netbits`: the first `i` in `0..32` whose netmask is `netmask`, with `32` given as
`-1`; `none` for `false`, when `network` has host bits or `netmask` is no netmask. -/
def netmaskToNetbits (network netmask : UInt32) : Option Int :=
  if network &&& netmask = network then
    ((List.range 33).find? fun i : Nat => netbitsToNetmask i = netmask).map fun i : Nat =>
      if i = 32 then -1 else (i : Int)
  else none

/-- `dev_type_enum`. -/
inductive DevType
  | undef
  | null
  | tun
  | tap
  deriving DecidableEq, Repr

/-- `TOP_UNDEF`, `TOP_NET30`, `TOP_P2P`, `TOP_SUBNET`. -/
inductive Topology
  | undef
  | net30
  | p2p
  | subnet
  deriving DecidableEq, Repr

/-- The options `helper_client_server` reads for `--server`. -/
structure ServerOptions where
  client : Bool
  /-- `server_bridge_defined || server_bridge_proxy_dhcp` -/
  serverBridge : Bool
  sharedSecretFile : Bool
  ifconfigPoolDefined : Bool
  /-- `server_flags & SF_NOPOOL` -/
  nopool : Bool
  serverNetwork : UInt32
  serverNetmask : UInt32
  topology : Topology
  deriving DecidableEq, Repr

/-- The options the IPv4 part of `--server` sets; `ifconfig_local` and `ifconfig_remote_netmask`
are the addresses `print_in_addr_t` writes, and `ifconfigPool` is `ifconfig_pool_start` and
`ifconfig_pool_end` when `ifconfig_pool_defined` is set. -/
structure ServerIpv4 where
  topology : Topology
  ifconfigLocal : UInt32
  ifconfigRemoteNetmask : UInt32
  ifconfigPool : Option (UInt32 × UInt32)
  ifconfigPoolNetmask : UInt32
  deriving DecidableEq, Repr

/-- The `M_USAGE` messages of the IPv4 part of `--server`, and the `ASSERT(0)` of a topology or
device it does not know. -/
inductive ServerError
  /-- "--server and --client cannot be used together" -/
  | serverAndClient
  /-- "--server and --server-bridge cannot be used together" -/
  | serverAndServerBridge
  /-- "--server and --secret cannot be used together (you must use SSL/TLS keys)" -/
  | serverAndSecret
  /-- "--server already defines an ifconfig-pool, so you can't also specify --ifconfig-pool
  explicitly" -/
  | poolAlreadyDefined
  /-- "--server directive only makes sense with --dev tun or --dev tap" -/
  | devNotTunTap
  /-- "--server directive network/netmask combination is invalid" -/
  | networkNetmaskInvalid
  /-- "--server directive netmask is invalid" -/
  | netmaskInvalid
  /-- "--server directive netmask allows for too many host addresses (subnet must be %s or
  higher)" -/
  | tooManyHosts
  /-- "--server directive when used with --dev tun must define a subnet of %s or lower" -/
  | tunSubnetTooSmall
  /-- "--server directive when used with --dev tap must define a subnet of %s or lower" -/
  | tapSubnetTooSmall
  /-- "--ifconfig-pool start IP [%s] is greater than end IP [%s]" -/
  | poolStartGreater
  /-- "--ifconfig-pool address range is too large [%s -> %s]. ..." -/
  | poolRangeTooLarge
  /-- `ASSERT(0)` -/
  | assertFailed
  deriving DecidableEq, Repr

-- `IFCONFIG_POOL_MIN_NETBITS`
def ifconfigPoolMinNetbits : Int := 16

/-- `ifconfig_pool_verify_range(M_USAGE, start, end)`: its first message ends the process. -/
def verifyRangeUsage (start endIp : UInt32) : Except ServerError Unit :=
  if start > endIp then .error .poolStartGreater
  else if ifconfigPoolMax ≤ (endIp - start).toNat then .error .poolRangeTooLarge
  else .ok ()

/-- `helper_setdefault_topology` in server mode. -/
def helperSetdefaultTopology (dev : DevType) (topology : Topology) : Topology :=
  if topology ≠ .undef then topology else if dev ≠ .tun then topology else .subnet

/-- The pool range unless `SF_NOPOOL`, checked by `ifconfig_pool_verify_range`. -/
def serverPoolRange (nopool : Bool) (start endIp : UInt32) : Except ServerError (Option (UInt32 × UInt32)) :=
  if nopool then .ok none else (verifyRangeUsage start endIp).map fun _ => some (start, endIp)

/-- The IPv4 part of `--server` in `helper_client_server`. -/
def helperClientServerIpv4 (o : ServerOptions) (dev : DevType) : Except ServerError ServerIpv4 := do
  if o.client then throw .serverAndClient
  if o.serverBridge then throw .serverAndServerBridge
  if o.sharedSecretFile then throw .serverAndSecret
  if !o.nopool ∧ o.ifconfigPoolDefined then throw .poolAlreadyDefined
  if !(dev = .tap ∨ dev = .tun) then throw .devNotTunTap
  let netbits ← match netmaskToNetbits o.serverNetwork o.serverNetmask with
    | none => throw .networkNetmaskInvalid
    | some netbits => pure netbits
  if netbits < 0 then throw .netmaskInvalid
  if netbits < ifconfigPoolMinNetbits then throw .tooManyHosts
  let network := o.serverNetwork
  let broadcast := o.serverNetwork ||| ~~~o.serverNetmask
  match dev with
  | .tun =>
      if netbits > 29 then throw .tunSubnetTooSmall
      let poolEndReserve : UInt32 := if netbits = 29 then 0 else 4
      let topology := helperSetdefaultTopology dev o.topology
      match topology with
      | .net30 | .p2p =>
          let pool ← serverPoolRange o.nopool (network + 4) (broadcast - poolEndReserve)
          pure ⟨topology, network + 1, network + 2, pool, 0⟩
      | .subnet =>
          let pool ← serverPoolRange o.nopool (network + 2) (broadcast - 1)
          pure ⟨topology, network + 1, o.serverNetmask, pool, o.serverNetmask⟩
      | .undef => throw .assertFailed
  | .tap =>
      if netbits > 30 then throw .tapSubnetTooSmall
      let pool ← serverPoolRange o.nopool (network + 2) (broadcast - 1)
      pure ⟨o.topology, network + 1, o.serverNetmask, pool, o.serverNetmask⟩
  | _ => throw .assertFailed

/-- The pool type of `multi_init`: `IFCONFIG_POOL_30NET` for a tun device in `net30` topology,
`IFCONFIG_POOL_INDIV` otherwise. -/
def multiInitPoolType (dev : DevType) (topology : Topology) : PoolType :=
  if dev = .tun ∧ topology = .net30 then .net30 else .indiv

/-! ### Netmasks -/

section Netmask

theorem toNat_netbitsToNetmask {i : Nat} (hi0 : 0 < i) (hi : i ≤ 32) :
    (netbitsToNetmask i).toNat = 2 ^ 32 - 2 ^ (32 - i) := by
  have hp : 1 ≤ 2 ^ (32 - i) := Nat.one_le_two_pow
  have hp' : 2 ^ (32 - i) ≤ 2 ^ 31 := Nat.pow_le_pow_right (by omega) (by omega)
  rw [netbitsToNetmask, if_pos (by omega), UInt32.toNat_shiftLeft,
    show (UInt32.ofNat (32 - (i : Int)).toNat).toNat % 32 = 32 - i by
      rw [UInt32.toNat_ofNat', Nat.mod_eq_of_lt (by omega)]
      omega,
    Nat.shiftLeft_eq, show ipv4NetmaskHost.toNat = 2 ^ 32 - 1 from rfl]
  generalize 2 ^ (32 - i) = p at hp hp' ⊢
  omega

/-- `netmask_to_netbits` finds the netbits `i` of a netmask, with `netbits_to_netmask i` the
netmask and no host bits in the network. -/
theorem netmaskToNetbits_eq_some {network netmask : UInt32} {netbits : Int}
    (h : netmaskToNetbits network netmask = some netbits) (hpos : 0 ≤ netbits) :
    ∃ i : Nat, netbits = i ∧ i < 32 ∧ netbitsToNetmask i = netmask ∧ network &&& netmask = network := by
  unfold netmaskToNetbits at h
  split_ifs at h with hnet
  obtain ⟨i, hfind, rfl⟩ := Option.map_eq_some_iff.mp h
  have hmem := List.mem_range.mp (List.mem_of_find?_eq_some hfind)
  have hmask : netbitsToNetmask i = netmask := by simpa using List.find?_some hfind
  split_ifs with h32
  · omega
  · exact ⟨i, rfl, by omega, hmask, hnet⟩

example : netmaskToNetbits 0x0a080000 0xfffffff8 = some 29 := by decide

/-- The subnet of `network` and the netmask of `i` bits: `network` is a multiple of
`2 ^ (32 - i)` and its broadcast address `network | ~netmask` is `2 ^ (32 - i) - 1` above it. -/
theorem subnet_of_netbits {network : UInt32} {i : Nat} (hi0 : 0 < i) (hi : i ≤ 32)
    (hnet : network &&& netbitsToNetmask i = network) :
    network.toNat % 2 ^ (32 - i) = 0 ∧
      (network ||| ~~~netbitsToNetmask i).toNat = network.toNat + 2 ^ (32 - i) - 1 := by
  have hmask := toNat_netbitsToNetmask hi0 hi
  have hsplit : (2 : Nat) ^ 32 = 2 ^ (32 - i) * 2 ^ i := by rw [← Nat.pow_add]; congr 1; omega
  have hmod : (netbitsToNetmask i).toNat % 2 ^ (32 - i) = 0 := by
    rw [hmask, hsplit, ← Nat.mul_sub_one]
    exact Nat.mul_mod_right _ _
  have hlow : network.toNat % 2 ^ (32 - i) = 0 := by
    have := congrArg (fun x : UInt32 => x.toNat % 2 ^ (32 - i)) hnet
    simp only [UInt32.toNat_and, Nat.and_mod_two_pow, hmod, Nat.and_zero] at this
    exact this.symm
  refine ⟨hlow, ?_⟩
  have hnot : (~~~netbitsToNetmask i).toNat = 2 ^ (32 - i) - 1 := by
    rw [UInt32.toNat_not, hmask, UInt32.size]
    have : 2 ^ (32 - i) ≤ 2 ^ 32 := Nat.pow_le_pow_right (by omega) (by omega)
    omega
  have hq := Nat.div_add_mod network.toNat (2 ^ (32 - i))
  rw [hlow, Nat.add_zero] at hq
  rw [UInt32.toNat_or, hnot, ← hq, ← Nat.two_pow_add_eq_or_of_lt (Nat.sub_lt (Nat.two_pow_pos _) Nat.one_pos)]
  have : 1 ≤ 2 ^ (32 - i) := Nat.one_le_two_pow
  omega

end Netmask

/-! ### What the helper sets -/

section Helper

theorem throw_bind_ne_ok {ε α β : Type} {e : ε} {f : α → Except ε β} {b : β} :
    ((throw e : Except ε α) >>= f) ≠ .ok b := by
  intro h
  cases h

theorem except_bind_eq_ok {ε α β : Type} {x : Except ε α} {f : α → Except ε β} {b : β} :
    (x >>= f) = .ok b ↔ ∃ a, x = .ok a ∧ f a = .ok b := by
  cases x with
  | error e =>
      constructor
      · intro h
        cases h
      · rintro ⟨_, h, _⟩
        cases h
  | ok a =>
      constructor
      · intro h
        exact ⟨a, rfl, h⟩
      · rintro ⟨_, h, hf⟩
        cases h
        exact hf

/-- A guard of a `do` block in `Except` passes exactly when its condition fails. -/
theorem ite_throw_bind_eq_ok {ε β : Type} {p : Prop} [Decidable p] {e : ε} {x : Except ε β}
    {b : β} : (if p then (throw e >>= fun (_ : PUnit) => x) else x) = .ok b ↔ ¬p ∧ x = .ok b := by
  by_cases hp : p
  · rw [if_pos hp]
    exact ⟨fun h => absurd h throw_bind_ne_ok, fun h => absurd hp h.1⟩
  · rw [if_neg hp]
    exact ⟨fun h => ⟨hp, h⟩, fun h => h.2⟩

/-- A range the helper keeps passed `ifconfig_pool_verify_range`. -/
theorem serverPoolRange_eq_ok {start endIp : UInt32} {r : Option (UInt32 × UInt32)}
    (h : serverPoolRange false start endIp = .ok r) :
    r = some (start, endIp) ∧ start ≤ endIp ∧ (endIp - start).toNat < ifconfigPoolMax := by
  simp only [serverPoolRange, Bool.false_eq_true, if_false, verifyRangeUsage] at h
  split_ifs at h with hgt hmax
  all_goals simp only [Except.map, Except.ok.injEq, reduceCtorEq] at h
  exact ⟨h.symm, UInt32.not_lt.mp hgt, Nat.not_le.mp hmax⟩

/-- What a `--server` expansion that prints no usage message sets: the netbits `i` of the netmask,
at least `IFCONFIG_POOL_MIN_NETBITS`, and a pool range `ifconfig_pool_verify_range` accepts,
placed by device and topology. -/
theorem helperClientServerIpv4_eq_ok {o : ServerOptions} {dev : DevType} {cfg : ServerIpv4}
    (hnopool : o.nopool = false) (h : helperClientServerIpv4 o dev = .ok cfg) :
    ∃ i : Nat, 16 ≤ i ∧ netbitsToNetmask i = o.serverNetmask ∧
      o.serverNetwork &&& o.serverNetmask = o.serverNetwork ∧
      cfg.ifconfigLocal = o.serverNetwork + 1 ∧
      ∃ start endIp, cfg.ifconfigPool = some (start, endIp) ∧ start ≤ endIp ∧
        (endIp - start).toNat < ifconfigPoolMax ∧
        (dev = .tun ∧ i ≤ 29 ∧ (cfg.topology = .net30 ∨ cfg.topology = .p2p) ∧
            start = o.serverNetwork + 4 ∧
            endIp = (o.serverNetwork ||| ~~~o.serverNetmask) - (if (i : Int) = 29 then 0 else 4) ∨
          (dev = .tun ∧ i ≤ 29 ∧ cfg.topology = .subnet ∨ dev = .tap ∧ i ≤ 30) ∧
            start = o.serverNetwork + 2 ∧ endIp = (o.serverNetwork ||| ~~~o.serverNetmask) - 1) := by
  unfold helperClientServerIpv4 at h
  simp only [ite_throw_bind_eq_ok] at h
  obtain ⟨-, -, -, -, hdev, h⟩ := h
  rcases hn : netmaskToNetbits o.serverNetwork o.serverNetmask with _ | netbits
  · rw [hn] at h
    exact absurd h throw_bind_ne_ok
  simp only [hn, pure_bind, ite_throw_bind_eq_ok, hnopool] at h
  obtain ⟨hneg, hmin, h⟩ := h
  obtain ⟨i, rfl, -, hmask, hnet⟩ := netmaskToNetbits_eq_some hn (by omega)
  have hi16 : 16 ≤ i := by simp only [ifconfigPoolMinNetbits] at hmin; omega
  refine ⟨i, hi16, hmask, hnet, ?_⟩
  cases dev
  case undef | null => simp at hdev
  case tun =>
    simp only [ite_throw_bind_eq_ok] at h
    obtain ⟨h29, h⟩ := h
    have hi29 : i ≤ 29 := by omega
    cases ht : helperSetdefaultTopology .tun o.topology <;> rw [ht] at h <;> dsimp only at h
    case undef => cases h
    all_goals
      rw [except_bind_eq_ok] at h
      obtain ⟨pool, hpool, hcfg⟩ := h
      obtain ⟨rfl, hle, hlt⟩ := serverPoolRange_eq_ok hpool
      cases hcfg
      refine ⟨rfl, _, _, rfl, hle, hlt, ?_⟩
      simp [hi29]
  case tap =>
    simp only [ite_throw_bind_eq_ok] at h
    obtain ⟨h30, h⟩ := h
    rw [except_bind_eq_ok] at h
    obtain ⟨pool, hpool, hcfg⟩ := h
    obtain ⟨rfl, hle, hlt⟩ := serverPoolRange_eq_ok hpool
    cases hcfg
    exact ⟨rfl, _, _, rfl, hle, hlt, .inr ⟨.inr ⟨rfl, by omega⟩, rfl, rfl⟩⟩

end Helper

/-! ### The pool on the helper's range -/

section Pool

/-- Where an address the pool hands out belongs: strictly between the network and its broadcast
address, and not the server's own `ifconfig_local`. -/
def WellPlaced (o : ServerOptions) (cfg : ServerIpv4) (a : UInt32) : Prop :=
  o.serverNetwork < a ∧ a < (o.serverNetwork ||| ~~~o.serverNetmask) ∧ a ≠ cfg.ifconfigLocal

instance (o : ServerOptions) (cfg : ServerIpv4) (a : UInt32) : Decidable (WellPlaced o cfg a) := by
  unfold WellPlaced
  infer_instance

/-- A subnet of `k` host bits, `2 ≤ k ≤ 16`, has a multiple of 4 addresses, at most `2 ^ 16`,
and 4, 8 or at least 16 of them. -/
theorem two_pow_host_bits {k : Nat} (hk : 2 ≤ k) (hk16 : k ≤ 16) :
    2 ^ k % 4 = 0 ∧ 2 ^ k ≤ 65536 ∧ (k = 2 ∧ 2 ^ k = 4 ∨ k = 3 ∧ 2 ^ k = 8 ∨ 4 ≤ k ∧ 16 ≤ 2 ^ k) := by
  have hdvd : 2 ^ k % 4 = 0 := by
    obtain ⟨j, rfl⟩ : ∃ j, k = j + 2 := ⟨k - 2, by omega⟩
    rw [Nat.pow_add]
    exact Nat.mul_mod_left _ _
  have hle : 2 ^ k ≤ 65536 :=
    calc 2 ^ k ≤ 2 ^ 16 := Nat.pow_le_pow_right (by norm_num) hk16
      _ = 65536 := by norm_num
  refine ⟨hdvd, hle, ?_⟩
  rcases (show k = 2 ∨ k = 3 ∨ 4 ≤ k by omega) with rfl | rfl | h4
  · exact .inl ⟨rfl, rfl⟩
  · exact .inr (.inl ⟨rfl, rfl⟩)
  · refine .inr (.inr ⟨h4, ?_⟩)
    calc 16 = 2 ^ 4 := by norm_num
      _ ≤ 2 ^ k := Nat.pow_le_pow_right (by norm_num) h4

/-- `netbits_to_netmask` tells netbits in `1..32` apart. -/
theorem netbitsToNetmask_inj {i j : Nat} (hi0 : 0 < i) (hi : i ≤ 32) (hj0 : 0 < j) (hj : j ≤ 32) :
    netbitsToNetmask i = netbitsToNetmask j ↔ i = j := by
  constructor
  · intro h
    have h' := congrArg UInt32.toNat h
    rw [toNat_netbitsToNetmask hi0 hi, toNat_netbitsToNetmask hj0 hj] at h'
    have hpi : 2 ^ (32 - i) ≤ 2 ^ 32 := Nat.pow_le_pow_right (by norm_num) (by omega)
    have hpj : 2 ^ (32 - j) ≤ 2 ^ 32 := Nat.pow_le_pow_right (by norm_num) (by omega)
    have hpow : 2 ^ (32 - i) = 2 ^ (32 - j) := by omega
    have := Nat.pow_right_injective (le_refl 2) hpow
    omega
  · rintro rfl
    rfl

/-- The subnet of `--server` as numbers: for the netbits `16 ≤ i ≤ 30` of its netmask, a network
that is a multiple of 4, and `P = 2 ^ (32 - i)` addresses up to its broadcast address, with `P`
4 for a `/30`, 8 for a `/29` and at least 16 for a larger subnet. -/
theorem server_subnet_toNat {network netmask : UInt32} {i : Nat} (hi16 : 16 ≤ i) (hi30 : i ≤ 30)
    (hmask : netbitsToNetmask i = netmask) (hnet : network &&& netmask = network) :
    ∃ P, network.toNat % 4 = 0 ∧ (network ||| ~~~netmask).toNat = network.toNat + P - 1 ∧
      P % 4 = 0 ∧ P ≤ 65536 ∧ (i = 30 ∧ P = 4 ∨ i = 29 ∧ P = 8 ∨ i ≤ 28 ∧ 16 ≤ P) ∧
      (netmask = 0xfffffff8 ↔ i = 29) ∧ (netmask = 0xfffffffc ↔ i = 30) := by
  obtain ⟨hlow, hB⟩ := subnet_of_netbits (i := i) (by omega) (by omega) (hmask ▸ hnet)
  obtain ⟨hP4, hP16, hPcases⟩ := two_pow_host_bits (k := 32 - i) (by omega) (by omega)
  have hn4 : network.toNat % 4 = 0 := by
    rw [← Nat.mod_mod_of_dvd _ (Nat.dvd_of_mod_eq_zero hP4), hlow]
  have h29 : netmask = 0xfffffff8 ↔ i = 29 := by
    rw [← hmask, show (0xfffffff8 : UInt32) = netbitsToNetmask (29 : Nat) from rfl,
      netbitsToNetmask_inj (by omega) (by omega) (by omega) (by omega)]
  have h30 : netmask = 0xfffffffc ↔ i = 30 := by
    rw [← hmask, show (0xfffffffc : UInt32) = netbitsToNetmask (30 : Nat) from rfl,
      netbitsToNetmask_inj (by omega) (by omega) (by omega) (by omega)]
  rw [hmask] at hB
  exact ⟨_, hn4, hB, hP4, hP16, by omega, h29, h30⟩

/-- An address above `network + 1` and below the broadcast address is well placed. -/
theorem wellPlaced_of_toNat {o : ServerOptions} {cfg : ServerIpv4} {a : UInt32}
    (hlocal : cfg.ifconfigLocal = o.serverNetwork + 1)
    (h1 : o.serverNetwork.toNat + 1 < a.toNat)
    (h2 : a.toNat < (o.serverNetwork ||| ~~~o.serverNetmask).toNat) : WellPlaced o cfg a := by
  have ha := a.toNat_lt
  have hlocal' : cfg.ifconfigLocal.toNat = o.serverNetwork.toNat + 1 := by
    rw [hlocal, UInt32.toNat_add, UInt32.toNat_one]
    omega
  refine ⟨UInt32.lt_iff_toNat_lt.mpr (by omega), UInt32.lt_iff_toNat_lt.mpr h2, ?_⟩
  intro heq
  rw [heq] at h1
  omega

section Placement

variable {o : ServerOptions} {cfg : ServerIpv4} {start endIp : UInt32} {duplicateCn ipv6Pool : Bool}
  {ipv6Base : In6Addr} {ipv6Netbits : Int} {pool : IfconfigPool}

/-- An `INDIV` pool on a range above `network + 1` and below the broadcast address hands out
well-placed addresses only. -/
theorem indiv_wellPlaced (hlocal : cfg.ifconfigLocal = o.serverNetwork + 1)
    (hs : o.serverNetwork.toNat + 1 < start.toNat)
    (he : endIp.toNat < (o.serverNetwork ||| ~~~o.serverNetmask).toNat)
    (h : ifconfigPoolInit true .indiv start endIp duplicateCn ipv6Pool ipv6Base ipv6Netbits = some pool)
    {i : Nat} (hi : i < pool.list.length) {l r : UInt32} (ha : ifconfigPoolAddr4 pool i = some (l, r)) :
    WellPlaced o cfg r := by
  obtain ⟨r', ha', hr', hsize⟩ := ifconfigPoolInit_addr4_indiv h hi
  obtain ⟨-, rfl⟩ := Prod.mk.inj (Option.some.inj (ha.symm.trans ha'))
  simp only [ipv4PoolSize] at hsize
  exact wellPlaced_of_toNat hlocal (by omega) (by omega)

/-- A `/30` pool on a range from a multiple of 4 above the server's `/30`, ending two addresses
below the broadcast address, hands out well-placed subnets apart from the server's. -/
theorem net30_wellPlaced (hlocal : cfg.ifconfigLocal = o.serverNetwork + 1)
    (hs4 : start.toNat % 4 = 0) (hs : o.serverNetwork.toNat + 4 ≤ start.toNat)
    (he : endIp.toNat + 2 < (o.serverNetwork ||| ~~~o.serverNetmask).toNat)
    (h : ifconfigPoolInit true .net30 start endIp duplicateCn ipv6Pool ipv6Base ipv6Netbits = some pool)
    {i : Nat} (hi : i < pool.list.length) {l r : UInt32} (ha : ifconfigPoolAddr4 pool i = some (l, r)) :
    WellPlaced o cfg r ∧ WellPlaced o cfg l ∧ o.serverNetwork + 3 < l - 1 := by
  obtain ⟨l', r', ha', hl', hr', hsize⟩ := ifconfigPoolInit_addr4_net30 h hi
  obtain ⟨rfl, rfl⟩ := Prod.mk.inj (Option.some.inj (ha.symm.trans ha'))
  simp only [ipv4PoolSize] at hsize
  have hB := (o.serverNetwork ||| ~~~o.serverNetmask).toNat_lt
  refine ⟨wellPlaced_of_toNat hlocal (by omega) (by omega),
    wellPlaced_of_toNat hlocal (by omega) (by omega), ?_⟩
  rw [UInt32.lt_iff_toNat_lt, UInt32.toNat_sub_of_le _ _ (UInt32.le_iff_toNat_le.mpr (by simp; omega)),
    UInt32.toNat_add]
  simp only [UInt32.toNat_one, UInt32.reduceToNat]
  omega

end Placement

/-- The IPv4 pool of a `--server` expansion the helper accepts, built by `ifconfig_pool_init`
with the pool type of `multi_init`: a `/29` on a tun device in `net30` topology and a `/30` on a
tap device leave fewer than two entries and `ifconfig_pool_init` stops; a `/29` in `p2p`
topology hands out the broadcast address as handle 3; every other configuration builds a pool
whose addresses are well placed and whose `/30` subnets lie above the server's. -/
theorem server_pool_well_placed {o : ServerOptions} {dev : DevType} {cfg : ServerIpv4}
    (hnopool : o.nopool = false) (h : helperClientServerIpv4 o dev = .ok cfg) :
    ∃ start endIp, cfg.ifconfigPool = some (start, endIp) ∧
      ((dev = .tun ∧ cfg.topology = .net30 ∧ o.serverNetmask = 0xfffffff8 ∨
          dev = .tap ∧ o.serverNetmask = 0xfffffffc) →
        ∀ duplicateCn ipv6Pool ipv6Base ipv6Netbits,
          ifconfigPoolInit true (multiInitPoolType dev cfg.topology) start endIp duplicateCn ipv6Pool
            ipv6Base ipv6Netbits = none) ∧
      (dev = .tun ∧ cfg.topology = .p2p ∧ o.serverNetmask = 0xfffffff8 →
        ∀ duplicateCn ipv6Base ipv6Netbits, ∃ pool,
          ifconfigPoolInit true (multiInitPoolType dev cfg.topology) start endIp duplicateCn false
            ipv6Base ipv6Netbits = some pool ∧
          3 < pool.list.length ∧
          ifconfigPoolAddr4 pool 3 = some (0, o.serverNetwork ||| ~~~o.serverNetmask)) ∧
      ((dev = .tun → cfg.topology = .subnet ∨ o.serverNetmask ≠ 0xfffffff8) →
        (dev = .tap → o.serverNetmask ≠ 0xfffffffc) →
        (∀ duplicateCn ipv6Base ipv6Netbits, ∃ pool,
          ifconfigPoolInit true (multiInitPoolType dev cfg.topology) start endIp duplicateCn false
            ipv6Base ipv6Netbits = some pool) ∧
        ∀ duplicateCn ipv6Pool ipv6Base ipv6Netbits pool,
          ifconfigPoolInit true (multiInitPoolType dev cfg.topology) start endIp duplicateCn ipv6Pool
            ipv6Base ipv6Netbits = some pool →
          ∀ i < pool.list.length, ∀ l r, ifconfigPoolAddr4 pool i = some (l, r) →
            WellPlaced o cfg r ∧
              (multiInitPoolType dev cfg.topology = .net30 →
                WellPlaced o cfg l ∧ o.serverNetwork + 3 < l - 1)) := by
  obtain ⟨i, hi16, hmask, hnet, hlocal, start, endIp, hpool, hle, hlt, hcase⟩ :=
    helperClientServerIpv4_eq_ok hnopool h
  refine ⟨start, endIp, hpool, ?_⟩
  have hi30 : i ≤ 30 := by
    rcases hcase with ⟨-, h29, -⟩ | ⟨⟨-, h29, -⟩ | ⟨-, h30⟩, -⟩ <;> omega
  obtain ⟨P, hn4, hB, hP4, hP16, hPcases, h29, h30⟩ := server_subnet_toNat hi16 hi30 hmask hnet
  have hBlt := (o.serverNetwork ||| ~~~o.serverNetmask).toNat_lt
  simp only [ne_eq, h29, h30]
  rcases hcase with ⟨rfl, hi29, htop, rfl, rfl⟩ | ⟨hdev, rfl, rfl⟩
  · -- tun in `net30` or `p2p` topology: the pool runs from `network + 4` to the broadcast address
    -- less the reserve
    have hs : (o.serverNetwork + 4).toNat = o.serverNetwork.toNat + 4 := by
      simp only [UInt32.toNat_add, UInt32.reduceToNat]
      omega
    have he : ((o.serverNetwork ||| ~~~o.serverNetmask) - if (i : Int) = 29 then 0 else 4).toNat =
        o.serverNetwork.toNat + P - 1 - if i = 29 then 0 else 4 := by
      by_cases h29 : i = 29
      · rw [if_pos (by omega), if_pos h29, UInt32.toNat_sub]
        simp only [UInt32.reduceToNat]
        omega
      · rw [if_neg (by omega), if_neg h29, UInt32.toNat_sub]
        simp only [UInt32.reduceToNat]
        omega
    rcases htop with htop | htop <;> simp only [htop, multiInitPoolType, and_self, ↓reduceIte,
      reduceCtorEq, and_false, false_and, false_or, or_false, true_and, false_implies, true_implies]
    · -- `net30`: `/30` subnets from `network + 4`
      refine ⟨fun h29 => ?_, fun h29 => ⟨?_, ?_⟩⟩
      · intro duplicateCn ipv6Pool ipv6Base ipv6Netbits
        apply ifconfigPoolInit_of_size_lt
        rw [if_pos h29] at he
        simp only [ipv4PoolSize, hs, he]
        omega
      · rw [if_neg h29] at he
        have hsize : 2 ≤ ipv4PoolSize .net30 (o.serverNetwork + 4)
            ((o.serverNetwork ||| ~~~o.serverNetmask) - if (i : Int) = 29 then 0 else 4) := by
          simp only [ipv4PoolSize, hs, he]
          omega
        exact fun duplicateCn ipv6Base ipv6Netbits =>
          (ifconfigPoolInit_ipv4_only hle hlt hsize duplicateCn ipv6Base ipv6Netbits).imp fun _ h => h.1
      · rw [if_neg h29] at he
        intro duplicateCn ipv6Pool ipv6Base ipv6Netbits pool hinit j hj l r ha
        exact net30_wellPlaced hlocal (by omega) (by omega) (by omega) hinit hj ha
    · -- `p2p`: single addresses from `network + 4`, up to the broadcast address for a `/29`
      refine ⟨fun h29 => ?_, fun h29 => ⟨?_, ?_⟩⟩
      · rw [if_pos h29] at he
        have hsize : ipv4PoolSize .indiv (o.serverNetwork + 4)
            ((o.serverNetwork ||| ~~~o.serverNetmask) - if (i : Int) = 29 then 0 else 4) = 4 := by
          simp only [ipv4PoolSize, hs, he]
          omega
        intro duplicateCn ipv6Base ipv6Netbits
        obtain ⟨pool, hinit, hlen⟩ :=
          ifconfigPoolInit_ipv4_only hle hlt (le_trans (by decide) hsize.symm.le) duplicateCn ipv6Base
            ipv6Netbits
        rw [hsize] at hlen
        obtain ⟨r, ha, hr, -⟩ := ifconfigPoolInit_addr4_indiv hinit (i := 3) (by omega)
        refine ⟨pool, hinit, by omega, ?_⟩
        rw [ha, UInt32.toNat_inj.mp (by omega : r.toNat = (o.serverNetwork ||| ~~~o.serverNetmask).toNat)]
      · rw [if_neg h29] at he
        have hsize : 2 ≤ ipv4PoolSize .indiv (o.serverNetwork + 4)
            ((o.serverNetwork ||| ~~~o.serverNetmask) - if (i : Int) = 29 then 0 else 4) := by
          simp only [ipv4PoolSize, hs, he]
          omega
        exact fun duplicateCn ipv6Base ipv6Netbits =>
          (ifconfigPoolInit_ipv4_only hle hlt hsize duplicateCn ipv6Base ipv6Netbits).imp fun _ h => h.1
      · rw [if_neg h29] at he
        intro duplicateCn ipv6Pool ipv6Base ipv6Netbits pool hinit j hj l r ha
        exact ⟨indiv_wellPlaced hlocal (by omega) (by omega) hinit hj ha, trivial⟩
  · -- tun in `subnet` topology, or tap: single addresses from `network + 2` to the broadcast
    -- address less 1
    have hs : (o.serverNetwork + 2).toNat = o.serverNetwork.toNat + 2 := by
      simp only [UInt32.toNat_add, UInt32.reduceToNat]
      omega
    have he : ((o.serverNetwork ||| ~~~o.serverNetmask) - 1).toNat = o.serverNetwork.toNat + P - 2 := by
      rw [UInt32.toNat_sub]
      simp only [UInt32.reduceToNat]
      omega
    have hsize : ipv4PoolSize .indiv (o.serverNetwork + 2) ((o.serverNetwork ||| ~~~o.serverNetmask) - 1) =
        P - 3 := by
      simp only [ipv4PoolSize, hs, he]
      omega
    have hplaced : ∀ (duplicateCn ipv6Pool : Bool) (ipv6Base : In6Addr) (ipv6Netbits : Int)
        (pool : IfconfigPool), ifconfigPoolInit true .indiv (o.serverNetwork + 2)
          ((o.serverNetwork ||| ~~~o.serverNetmask) - 1) duplicateCn ipv6Pool ipv6Base ipv6Netbits =
          some pool →
        ∀ j < pool.list.length, ∀ l r, ifconfigPoolAddr4 pool j = some (l, r) → WellPlaced o cfg r :=
      fun _ _ _ _ _ hinit _ hj _ _ ha => indiv_wellPlaced hlocal (by omega) (by omega) hinit hj ha
    have hbuilt : 8 ≤ P → ∀ (duplicateCn : Bool) (ipv6Base : In6Addr) (ipv6Netbits : Int), ∃ pool,
        ifconfigPoolInit true .indiv (o.serverNetwork + 2) ((o.serverNetwork ||| ~~~o.serverNetmask) - 1)
          duplicateCn false ipv6Base ipv6Netbits = some pool := by
      intro hP8 duplicateCn ipv6Base ipv6Netbits
      have hsize2 : 2 ≤ P - 3 := by omega
      rw [← hsize] at hsize2
      exact (ifconfigPoolInit_ipv4_only hle hlt hsize2 duplicateCn ipv6Base ipv6Netbits).imp fun _ h => h.1
    rcases hdev with ⟨rfl, hi29, htop⟩ | ⟨rfl, -⟩
    · simp only [htop, multiInitPoolType, ↓reduceIte, reduceCtorEq, and_false, false_and, or_false,
        true_and, false_implies, true_implies, true_or, and_true]
      exact ⟨hbuilt (by omega), hplaced⟩
    · simp only [multiInitPoolType, ↓reduceIte, reduceCtorEq, false_and, false_or, true_and,
        false_implies, true_implies, and_true]
      refine ⟨fun h30 => ?_, fun h30 => ⟨hbuilt (by omega), hplaced⟩⟩
      intro duplicateCn ipv6Pool ipv6Base ipv6Netbits
      apply ifconfigPoolInit_of_size_lt
      rw [hsize]
      omega
/-- The `/29` of `10.8.0.0` on a tun device in `net30` topology: the helper accepts it and sets
the pool `10.8.0.4` to `10.8.0.7`, a single `/30` subnet, which `ifconfig_pool_init` refuses. -/
theorem server_pool_tun_net30_slash29 :
    helperClientServerIpv4 ⟨false, false, false, false, false, 0x0a080000, 0xfffffff8, .net30⟩ .tun =
        .ok ⟨.net30, 0x0a080001, 0x0a080002, some (0x0a080004, 0x0a080007), 0⟩ ∧
      ifconfigPoolInit true .net30 0x0a080004 0x0a080007 false false In6Addr.any 0 = none := by
  have hok : helperClientServerIpv4
      ⟨false, false, false, false, false, 0x0a080000, 0xfffffff8, .net30⟩ .tun =
      .ok ⟨.net30, 0x0a080001, 0x0a080002, some (0x0a080004, 0x0a080007), 0⟩ := by rfl
  obtain ⟨start, endIp, hpool, hnone, -, -⟩ := server_pool_well_placed rfl hok
  cases hpool
  exact ⟨hok, hnone (.inl ⟨rfl, rfl, rfl⟩) false false In6Addr.any 0⟩

end Pool

end OpenVpn
