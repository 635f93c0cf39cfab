import OpenVpn.PoolSpec

/-! The IPv6 addresses of a pool against the `/netbits` network it is configured in. An address is
read as a 128-bit number; it is in the network when it has the network's first `netbits` bits,
and its host part is the remainder. `ifconfig_pool_init` reads only the last 32 bits of the base,
moves the base up by one where those of its host bits are zero, and sizes the pool to the end of
the network only where the network has at least 112 bits; below that the size is
`IFCONFIG_POOL_MAX` whatever the base. `add_in6_addr` adds over all 128 bits, and
`ifconfig_pool_ipv6_base_to_handle` subtracts over the last 32. -/

namespace OpenVpn

open BigEndian

namespace In6Addr

/-- The address as a 128-bit number, `s6_addr[0]` most significant. -/
def toNat (a : In6Addr) : Nat := decode a.s6Addr

/-- `a` has the first `netbits` bits of `b`. -/
def SamePrefix (netbits : Nat) (a b : In6Addr) : Prop :=
  a.toNat / 2 ^ (128 - netbits) = b.toNat / 2 ^ (128 - netbits)

instance (netbits : Nat) (a b : In6Addr) : Decidable (SamePrefix netbits a b) :=
  inferInstanceAs (Decidable (_ = _))

/-- The host part of `a` in a `/netbits` network. -/
def hostPart (netbits : Nat) (a : In6Addr) : Nat := a.toNat % 2 ^ (128 - netbits)

theorem SamePrefix.trans {netbits : Nat} {a b c : In6Addr} (h₁ : a.SamePrefix netbits b)
    (h₂ : b.SamePrefix netbits c) : a.SamePrefix netbits c :=
  Eq.trans h₁ h₂

theorem toNat_lt (a : In6Addr) : a.toNat < 2 ^ 128 := by
  have h := decode_lt a.s6Addr
  rw [a.length_s6Addr] at h
  exact h.trans_eq (by norm_num)

theorem toNat_byte (a : In6Addr) {i : Nat} (hi : i < 16) :
    (a.byte i).toNat = a.toNat / 256 ^ (15 - i) % 256 := by
  have hlen : i < a.s6Addr.length := by rw [a.length_s6Addr]; exact hi
  have h := decode_div_pow_mod a.s6Addr hlen
  rw [show a.s6Addr.length - 1 - i = 15 - i by rw [a.length_s6Addr]] at h
  rw [byte, List.getD_eq_getElem _ _ hlen, ← h]
  rfl

/-- The word `ifconfig_pool_init` and `ifconfig_pool_ipv6_base_to_handle` read is the value of
the address modulo `2^32`. -/
theorem low32_toNat (a : In6Addr) : a.low32.toNat = a.toNat % 2 ^ 32 := by
  have hshift : ∀ (b : UInt8) (s : UInt32), s.toNat ≤ 24 →
      (b.toUInt32 <<< s).toNat = b.toNat * 2 ^ s.toNat := by
    intro b s hs
    have := b.toNat_lt
    rw [UInt32.toNat_shiftLeft, UInt8.toNat_toUInt32, Nat.mod_eq_of_lt (show s.toNat < 32 by omega),
      Nat.shiftLeft_eq]
    apply Nat.mod_eq_of_lt
    calc b.toNat * 2 ^ s.toNat < 2 ^ 8 * 2 ^ 24 := by
          apply Nat.mul_lt_mul_of_lt_of_le (by omega) (Nat.pow_le_pow_right (by norm_num) hs)
            (by positivity)
      _ = 2 ^ 32 := by norm_num
  have h12 := a.toNat_byte (i := 12) (by norm_num)
  have h13 := a.toNat_byte (i := 13) (by norm_num)
  have h14 := a.toNat_byte (i := 14) (by norm_num)
  have h15 := a.toNat_byte (i := 15) (by norm_num)
  rw [low32, UInt32.toNat_or, UInt32.toNat_or, UInt32.toNat_or, hshift _ _ (by decide),
    hshift _ _ (by decide), hshift _ _ (by decide), UInt8.toNat_toUInt32]
  simp only [UInt32.reduceToNat]
  rw [or_shift_bytes (by omega) (by omega) (by omega), h12, h13, h14, h15]
  norm_num
  omega

/-- The first twelve bytes of an address are its value divided by `2^32`. -/
theorem byte_eq_of_div_eq {a b : In6Addr} (h : a.toNat / 2 ^ 32 = b.toNat / 2 ^ 32) {i : Nat}
    (hi : i < 12) : a.byte i = b.byte i := by
  have hdiv : ∀ c : In6Addr, c.toNat / 256 ^ (15 - i) = c.toNat / 2 ^ 32 / 256 ^ (11 - i) := by
    intro c
    rw [Nat.div_div_eq_div_mul, show 15 - i = 4 + (11 - i) by omega, pow_add]
    norm_num
  apply UInt8.toNat_inj.mp
  rw [a.toNat_byte (by omega), b.toNat_byte (by omega), hdiv, hdiv, h]

/-- `s6_addr[15]++` adds one to an address whose last bit is clear. -/
theorem toNat_incLast {a : In6Addr} (h : a.toNat % 2 = 0) : a.incLast.toNat = a.toNat + 1 := by
  have hlen : 15 < a.s6Addr.length := by rw [a.length_s6Addr]; norm_num
  have hset := decode_set a.s6Addr hlen (a.byte 15 + 1)
  have h15 := a.toNat_byte (i := 15) (by norm_num)
  rw [byte, List.getD_eq_getElem _ _ hlen] at h15 hset
  simp only [a.length_s6Addr, Nat.reduceSub, pow_zero, Nat.mul_one] at hset h15
  have hlast : (a.s6Addr[15] + 1).toNat = a.s6Addr[15].toNat + 1 := by
    rw [UInt8.toNat_add, UInt8.toNat_one]
    exact Nat.mod_eq_of_lt (by simp only [toNat] at h h15; omega)
  show decode (a.s6Addr.set 15 (a.byte 15 + 1)) = _
  rw [byte, List.getD_eq_getElem _ _ hlen]
  simp only [toNat] at h15 ⊢
  omega

end In6Addr

theorem toNat_addIn6Addr (base : In6Addr) (add : UInt32) :
    (addIn6Addr base add).toNat = (base.toNat + add.toNat) % 2 ^ 128 :=
  decode_addIn6Addr base add

/-- `ifconfig_pool_init` on a `/netbits` network: the base moves up by one where the host bits it
looks at, at most the last 32, are all zero, and the size is what is left of a network of at
least 112 bits above that base, or `IFCONFIG_POOL_MAX`. -/
theorem ifconfigPoolInitIpv6_eq (ipv6Base : In6Addr) {netbits : Nat} (hn : netbits ≤ 128) :
    ifconfigPoolInitIpv6 ipv6Base netbits =
      some (if ipv6Base.toNat % 2 ^ min (128 - netbits) 32 = 0 then ipv6Base.incLast else ipv6Base,
        if 112 ≤ netbits then
          ((2 ^ (128 - netbits) - max (ipv6Base.toNat % 2 ^ min (128 - netbits) 32) 1 : Nat) : Int)
        else ifconfigPoolMax) := by
  unfold ifconfigPoolInitIpv6
  rw [if_neg (by omega), show (128 - (netbits : Int)).toNat = 128 - netbits by omega]
  dsimp only
  simp only [show (112 : Int) ≤ netbits ↔ 112 ≤ netbits by omega]
  generalize hw : (if 128 - netbits < 32 then
    ipv6Base.low32 &&& UInt32.ofNat (2 ^ (128 - netbits) - 1) else ipv6Base.low32) = w
  -- the word the source masks is the value modulo `2 ^ min (128 - netbits) 32`
  have hwm : w.toNat = ipv6Base.toNat % 2 ^ min (128 - netbits) 32 := by
    subst hw
    split_ifs with hlt
    · have hpow : 2 ^ (128 - netbits) - 1 < 2 ^ 32 := by
        have := Nat.pow_lt_pow_right (show 1 < 2 by norm_num) hlt
        omega
      rw [UInt32.toNat_and, UInt32.toNat_ofNat', Nat.mod_eq_of_lt hpow,
        Nat.and_two_pow_sub_one_eq_mod, In6Addr.low32_toNat,
        Nat.mod_mod_of_dvd _ (Nat.pow_dvd_pow 2 hlt.le), min_eq_left hlt.le]
    · rw [In6Addr.low32_toNat, min_eq_right (by omega)]
  rw [← hwm]
  -- a network of at least 112 bits has at most `2^16` addresses, so the size is no `int` wrap
  have hsize : ∀ x : Nat, 1 ≤ x → x ≤ 2 ^ (128 - netbits) → 112 ≤ netbits →
      toCInt ((2 : Int) ^ (128 - netbits) - x) = ((2 ^ (128 - netbits) - x : Nat) : Int) := by
    intro x hx₁ hx₂ h112
    have hpow : (2 : Int) ^ (128 - netbits) ≤ 2 ^ 16 := pow_le_pow_right₀ (by norm_num) (by omega)
    have hx₂' : (x : Int) ≤ 2 ^ (128 - netbits) := by exact_mod_cast hx₂
    rw [toCInt_of_le (by omega) (by omega), Nat.cast_sub hx₂]
    push_cast
    rfl
  have hlt : 112 ≤ netbits → w.toNat < 2 ^ (128 - netbits) := by
    intro h112
    rw [hwm, min_eq_left (by omega)]
    exact Nat.mod_lt _ (by positivity)
  by_cases hw0 : w = 0
  · subst hw0
    simp only [if_true, UInt32.zero_add, UInt32.toNat_one, UInt32.toNat_zero, Nat.zero_le,
      max_eq_right]
    split_ifs with h112
    · simpa using hsize 1 le_rfl Nat.one_le_two_pow h112
    · rfl
  · have hwpos : w.toNat ≠ 0 := fun h => hw0 (UInt32.toNat_inj.mp h)
    simp only [hw0, hwpos, if_false, max_eq_left (Nat.one_le_iff_ne_zero.mpr hwpos)]
    split_ifs with h112
    · rw [hsize _ (Nat.one_le_iff_ne_zero.mpr hwpos) (hlt h112).le h112]
    · rfl

/-- The pool's base, after `ifconfig_pool_init` has moved it off a zero host part, is in the
configured network, one above the configured base where it moved. -/
theorem ifconfigPoolInitIpv6_base (ipv6Base : In6Addr) (netbits : Nat) (hn : netbits < 128) :
    let moved := decide (ipv6Base.toNat % 2 ^ min (128 - netbits) 32 = 0)
    (if moved then ipv6Base.incLast else ipv6Base).SamePrefix netbits ipv6Base ∧
      (if moved then ipv6Base.incLast else ipv6Base).hostPart netbits =
        ipv6Base.hostPart netbits + if moved then 1 else 0 := by
  intro moved
  cases hm : moved
  · exact ⟨rfl, rfl⟩
  · simp only [moved, decide_eq_true_eq] at hm
    have hj : 1 ≤ min (128 - netbits) 32 := by omega
    have hinc := In6Addr.toNat_incLast (a := ipv6Base)
      (by rw [← Nat.mod_mod_of_dvd _ (Nat.pow_dvd_pow 2 hj), hm])
    -- a zero in the last `min k 32` bits leaves room for the one below `2 ^ k`
    have hroom : ipv6Base.toNat % 2 ^ (128 - netbits) + 1 < 2 ^ (128 - netbits) := by
      apply mod_add_lt_of_dvd (Nat.pow_dvd_pow 2 (Nat.min_le_left _ _)) (by positivity)
      rw [hm]
      exact Nat.one_lt_two_pow (by omega)
    simp only [if_true, In6Addr.SamePrefix, In6Addr.hostPart, hinc]
    exact ⟨add_div_of_mod_add_lt hroom, add_mod_of_mod_add_lt hroom⟩

/-- Adding `h` to an address within a `/netbits` network keeps its prefix exactly when its host
part leaves room for `h`; otherwise the carry reaches the network bits. -/
theorem addIn6Addr_samePrefix_iff (base : In6Addr) {netbits h : Nat} (hn : 1 ≤ netbits)
    (hn' : netbits ≤ 128) (hh : h < 2 ^ (128 - netbits)) (hh32 : h < 2 ^ 32) :
    (addIn6Addr base (UInt32.ofNat h)).SamePrefix netbits base ↔
      base.hostPart netbits + h < 2 ^ (128 - netbits) := by
  have hcd : 2 ^ (128 - netbits) * 2 ^ netbits = 2 ^ 128 := by rw [← pow_add]; congr 1; omega
  have hd : 2 ≤ 2 ^ netbits := by
    calc 2 = 2 ^ 1 := by norm_num
      _ ≤ 2 ^ netbits := Nat.pow_le_pow_right (by norm_num) hn
  have hval := toNat_addIn6Addr base (UInt32.ofNat h)
  rw [UInt32.toNat_ofNat_of_lt' hh32, ← hcd] at hval
  simp only [In6Addr.SamePrefix, In6Addr.hostPart, hval]
  exact add_mod_div_eq_iff hd (base.toNat_lt.trans_eq hcd.symm) hh

/-- Within that room, the host part of the sum is the host part of the base plus `h`. -/
theorem addIn6Addr_hostPart (base : In6Addr) {netbits h : Nat} (hn' : netbits ≤ 128)
    (hh32 : h < 2 ^ 32) (hroom : base.hostPart netbits + h < 2 ^ (128 - netbits)) :
    (addIn6Addr base (UInt32.ofNat h)).hostPart netbits = base.hostPart netbits + h := by
  have hcd : 2 ^ (128 - netbits) * 2 ^ netbits = 2 ^ 128 := by rw [← pow_add]; congr 1; omega
  have hval := toNat_addIn6Addr base (UInt32.ofNat h)
  rw [UInt32.toNat_ofNat_of_lt' hh32,
    Nat.mod_eq_of_lt (hcd ▸ add_lt_mul_of_mod_add_lt (hcd ▸ base.toNat_lt) hroom)] at hval
  simp only [In6Addr.hostPart, hval]
  exact add_mod_of_mod_add_lt hroom

/-- `ifconfig_pool_ipv6_base_to_handle` inverts `add_in6_addr` from the pool's base, for a handle
whose sum does not carry out of the last 32 bits. -/
theorem ifconfigPoolIpv6BaseToHandle_addIn6Addr (pool : IfconfigPool) {i : Nat}
    (hi : i < pool.list.length) (hmax : pool.list.length ≤ ifconfigPoolMax)
    (hfit : pool.ipv6Base.toNat % 2 ^ 32 + i < 2 ^ 32) :
    ifconfigPoolIpv6BaseToHandle pool (addIn6Addr pool.ipv6Base (UInt32.ofNat i)) = i := by
  simp only [ifconfigPoolMax] at hmax
  have hval : (addIn6Addr pool.ipv6Base (UInt32.ofNat i)).toNat = pool.ipv6Base.toNat + i := by
    rw [toNat_addIn6Addr, UInt32.toNat_ofNat_of_lt' (show i < 2 ^ 32 by omega), Nat.mod_eq_of_lt]
    exact add_lt_mul_of_mod_add_lt (d := 2 ^ 96) (pool.ipv6Base.toNat_lt.trans_eq (by norm_num))
      hfit |>.trans_eq (by norm_num)
  have hhigh : (addIn6Addr pool.ipv6Base (UInt32.ofNat i)).toNat / 2 ^ 32 =
      pool.ipv6Base.toNat / 2 ^ 32 := by
    rw [hval]
    exact add_div_of_mod_add_lt hfit
  have hlow : (addIn6Addr pool.ipv6Base (UInt32.ofNat i)).low32.toNat =
      pool.ipv6Base.low32.toNat + i := by
    rw [In6Addr.low32_toNat, In6Addr.low32_toNat, hval]
    exact add_mod_of_mod_add_lt hfit
  have hbytes : ((List.range 12).any fun j =>
      pool.ipv6Base.byte j != (addIn6Addr pool.ipv6Base (UInt32.ofNat i)).byte j) = false := by
    simp only [List.any_eq_false, List.mem_range, bne_iff_ne, ne_eq, not_not]
    intro j hj
    exact (In6Addr.byte_eq_of_div_eq hhigh hj).symm
  have hsub : ((addIn6Addr pool.ipv6Base (UInt32.ofNat i)).low32 - pool.ipv6Base.low32).toNat = i := by
    rw [UInt32.toNat_sub_of_le _ _ (UInt32.le_iff_toNat_le.mpr (by omega)), hlow]
    omega
  unfold ifconfigPoolIpv6BaseToHandle
  rw [hbytes, hsub, toCInt_of_le (by omega) (by omega)]
  simp only [Bool.false_eq_true, if_false]
  rw [if_neg (by omega)]

/-- A pool with IPv6 takes its IPv6 base from the IPv6 part of `ifconfig_pool_init`, and has at
most as many entries as that part's size. -/
theorem ifconfigPoolInit_ipv6 {ipv4Pool : Bool} {type : PoolType} {start endIp : UInt32}
    {duplicateCn : Bool} {ipv6Base : In6Addr} {ipv6Netbits : Int} {pool : IfconfigPool}
    (h : ifconfigPoolInit ipv4Pool type start endIp duplicateCn true ipv6Base ipv6Netbits =
      some pool) :
    ∃ size6 : Int, ifconfigPoolInitIpv6 ipv6Base ipv6Netbits = some (pool.ipv6Base, size6) ∧
      (pool.list.length : Int) ≤ size6 := by
  have hr := range_of_ifconfigPoolInit h
  unfold ifconfigPoolInit at h
  rw [if_neg (not_not.mpr hr)] at h
  rcases h6 : ifconfigPoolInitIpv6 ipv6Base ipv6Netbits with _ | ⟨b6, size6⟩
  · simp [h6] at h
  refine ⟨size6, ?_⟩
  cases ipv4Pool <;> cases type <;>
    simp only [h6, Bool.false_eq_true, if_false, if_true, false_and, true_and, and_true,
      le_refl, true_or] at h
  all_goals
    split_ifs at h <;> cases h <;> refine ⟨rfl, ?_⟩ <;> simp only [List.length_replicate] <;> omega

theorem ifconfig_pool_ipv6_within_network {ipv4Pool : Bool} {type : PoolType} {start endIp : UInt32}
    {duplicateCn : Bool} {ipv6Base : In6Addr} {netbits : Nat} {pool : IfconfigPool}
    (hn : 64 ≤ netbits ∧ netbits ≤ 124)
    (hinit : ifconfigPoolInit ipv4Pool type start endIp duplicateCn true ipv6Base netbits =
      some pool) :
    (112 ≤ netbits → ∀ h < pool.list.length,
      (addIn6Addr pool.ipv6Base (UInt32.ofNat h)).SamePrefix netbits ipv6Base ∧
      (addIn6Addr pool.ipv6Base (UInt32.ofNat h)).hostPart netbits ≠ 0 ∧
      ifconfigPoolIpv6BaseToHandle pool (addIn6Addr pool.ipv6Base (UInt32.ofNat h)) = h) ∧
    (netbits < 112 → ∀ h < pool.list.length,
      ((addIn6Addr pool.ipv6Base (UInt32.ofNat h)).SamePrefix netbits ipv6Base ↔
        pool.ipv6Base.hostPart netbits + h < 2 ^ (128 - netbits))) := by
  obtain ⟨size6, h6, hlen⟩ := ifconfigPoolInit_ipv6 hinit
  have hmax := (ifconfigPoolInit_spec hinit).2.2.2.2.2.length_le
  simp only [ifconfigPoolMax] at hmax
  rw [ifconfigPoolInitIpv6_eq ipv6Base (by omega)] at h6
  obtain ⟨hbase, hsize⟩ := Prod.mk.inj (Option.some.inj h6)
  obtain ⟨hpre, hhost⟩ := ifconfigPoolInitIpv6_base ipv6Base netbits (by omega)
  simp only [decide_eq_true_eq, hbase] at hpre hhost
  constructor
  · intro h112 h hh
    -- the host bits are within the last word, so `m` is the host part of the configured base
    have hmin : min (128 - netbits) 32 = 128 - netbits := min_eq_left (by omega)
    rw [if_pos h112, hmin] at hsize
    rw [hmin] at hhost
    -- the pool starts at host `max m 1` and ends at the top of the network
    have hstart : pool.ipv6Base.hostPart netbits = max (ipv6Base.hostPart netbits) 1 := by
      simp only [In6Addr.hostPart] at hhost ⊢
      split_ifs at hhost with hm <;> omega
    have hroom : pool.ipv6Base.hostPart netbits + h < 2 ^ (128 - netbits) := by
      have hmod : ipv6Base.hostPart netbits < 2 ^ (128 - netbits) := Nat.mod_lt _ (by positivity)
      simp only [In6Addr.hostPart] at hstart hmod hsize ⊢
      omega
    have h32 : h < 2 ^ 32 := by omega
    refine ⟨((addIn6Addr_samePrefix_iff _ (by omega) (by omega) (by omega) h32).mpr hroom).trans
      hpre, ?_, ?_⟩
    · rw [addIn6Addr_hostPart _ (by omega) h32 hroom, hstart]
      omega
    · apply ifconfigPoolIpv6BaseToHandle_addIn6Addr pool hh (by simp only [ifconfigPoolMax]; omega)
      exact mod_add_lt_of_dvd (Nat.pow_dvd_pow 2 (by omega)) (by positivity) hroom
  · intro h112 h hh
    have hpow : 2 ^ 17 ≤ 2 ^ (128 - netbits) := Nat.pow_le_pow_right (by norm_num) (by omega)
    rw [← addIn6Addr_samePrefix_iff _ (by omega) (by omega) (by omega) (by omega)]
    exact ⟨fun hs => hs.trans hpre.symm, fun hs => hs.trans hpre⟩

theorem ifconfig_pool_ipv6_within_network_top_of_64 :
    ∃ pool, ifconfigPoolInit true .indiv 0x0a000000 0x0a000003 false true
        ⟨[0x20, 0x01, 0x0d, 0xb8, 0, 0, 0, 0, 0xff, 0xff, 0xff, 0xff, 0xff, 0xff, 0xff, 0xff], rfl⟩
        ((64 : Nat) : Int) = some pool ∧ 1 < pool.list.length ∧
      ¬(addIn6Addr pool.ipv6Base (UInt32.ofNat 1)).SamePrefix 64
        ⟨[0x20, 0x01, 0x0d, 0xb8, 0, 0, 0, 0, 0xff, 0xff, 0xff, 0xff, 0xff, 0xff, 0xff, 0xff], rfl⟩ := by
  have hinit : ifconfigPoolInit true .indiv 0x0a000000 0x0a000003 false true
      ⟨[0x20, 0x01, 0x0d, 0xb8, 0, 0, 0, 0, 0xff, 0xff, 0xff, 0xff, 0xff, 0xff, 0xff, 0xff], rfl⟩
      ((64 : Nat) : Int) = some ⟨false, true, .indiv, 0x0a000000, true,
        ⟨[0x20, 0x01, 0x0d, 0xb8, 0, 0, 0, 0, 0xff, 0xff, 0xff, 0xff, 0xff, 0xff, 0xff, 0xff], rfl⟩,
        List.replicate 4 PoolEntry.clear⟩ := by decide
  refine ⟨_, hinit, by decide, ?_⟩
  rw [(ifconfig_pool_ipv6_within_network ⟨le_rfl, by norm_num⟩ hinit).2 (by norm_num) 1 (by decide)]
  decide

end OpenVpn
