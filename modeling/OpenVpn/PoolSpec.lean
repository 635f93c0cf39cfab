import OpenVpn.Pool

/-! What the functions of `pool.c` compute: the sum `add_in6_addr` forms, the entry
`ifconfig_pool_find` picks, the pool that acquire, release and a persist read leave, and the
bounds `ifconfig_pool_init` puts on the address range. Acquire, release and read change entries
only (`SameConfig`), so the address of a handle is the one the initial pool gives it. -/

namespace OpenVpn

open BigEndian

/-! ### `add_in6_addr` -/

/-- One round of the loop: the byte it writes and the word it carries on denote the byte plus
`add`. -/
theorem addIn6Addr_step (b : UInt8) (add : UInt32) :
    ((b.toUInt32 + add).toUInt8).toNat +
        256 * ((add >>> 8) + ((b.toUInt32 &&& 0xff) + (add &&& 0xff)) >>> 8).toNat =
      b.toNat + add.toNat := by
  have hb := b.toNat_lt
  have ha := add.toNat_lt
  have hand : ∀ x : Nat, x &&& 255 = x % 256 := fun x => Nat.and_two_pow_sub_one_eq_mod x 8
  simp only [UInt32.toNat_toUInt8, UInt32.toNat_add, UInt32.toNat_shiftRight, UInt32.toNat_and,
    UInt8.toNat_toUInt32, Nat.shiftRight_eq_div_pow]
  simp only [UInt32.reduceToNat, hand, Nat.reduceMod, Nat.reducePow]
  omega

private theorem carry_sum {D D' b a y c w : Nat} (hset : D' + b * w = D + y * w)
    (hstep : y + 256 * c = b + a) : D' + c * (256 * w) = D + a * w := by
  have key : y * w + c * (256 * w) = b * w + a * w := by rw [← add_mul, ← hstep]; ring
  omega

/-- The loop from byte `i - 1` down adds `add` at that byte, modulo the width of the string. -/
theorem decode_addIn6AddrLoop (bytes : List UInt8) (add : UInt32) {i : Nat}
    (hi : i ≤ bytes.length) :
    decode (addIn6AddrLoop bytes add i) =
      (decode bytes + add.toNat * 256 ^ (bytes.length - i)) % 256 ^ bytes.length := by
  induction i generalizing bytes add with
  | zero =>
      rw [addIn6AddrLoop, Nat.sub_zero, Nat.add_mul_mod_self_right,
        Nat.mod_eq_of_lt (decode_lt bytes)]
  | succ i ih =>
      have hi' : i < bytes.length := by omega
      simp only [addIn6AddrLoop]
      split_ifs with hadd
      · rw [ih _ _ (by rw [List.length_set]; omega), List.length_set]
        have hset := decode_set bytes hi' ((bytes.getD i 0).toUInt32 + add).toUInt8
        have hstep := addIn6Addr_step (bytes.getD i 0) add
        rw [List.getD_eq_getElem _ _ hi'] at hstep hset ⊢
        have hw : 256 ^ (bytes.length - i) = 256 * 256 ^ (bytes.length - 1 - i) := by
          rw [← pow_succ']; congr 1; omega
        have hw' : bytes.length - (i + 1) = bytes.length - 1 - i := by omega
        rw [hw, hw', carry_sum hset hstep]
      · have : add = 0 := by simpa using hadd
        subst this
        simp [Nat.mod_eq_of_lt (decode_lt bytes)]

theorem decode_addIn6Addr (base : In6Addr) (add : UInt32) :
    decode (addIn6Addr base add).s6Addr = (decode base.s6Addr + add.toNat) % 2 ^ 128 := by
  have h := decode_addIn6AddrLoop base.s6Addr add (i := 16) base.length_s6Addr.ge
  rw [base.length_s6Addr] at h
  show decode (addIn6AddrLoop base.s6Addr add 16) = _
  simpa using h

theorem addIn6Addr_injective (base : In6Addr) {a b : UInt32}
    (h : addIn6Addr base a = addIn6Addr base b) : a = b := by
  have ha := decode_addIn6Addr base a
  have hb := decode_addIn6Addr base b
  have hlt := decode_lt base.s6Addr
  rw [h, hb] at ha
  rw [base.length_s6Addr] at hlt
  have := a.toNat_lt
  have := b.toNat_lt
  apply UInt32.toNat_inj.mp
  norm_num at hlt ha ⊢
  omega

/-! ### `ifconfig_pool_find` -/

/-- `j` is `-1` or the index of a free entry of `list` that satisfies `q`. -/
def FreeWith (list : List PoolEntry) (q : PoolEntry → Prop) (j : Int) : Prop :=
  j = -1 ∨ ∃ e, 0 ≤ j ∧ list[j.toNat]? = some e ∧ e.inUse = false ∧ q e

theorem FreeWith.mono {list : List PoolEntry} {q q' : PoolEntry → Prop} {j : Int}
    (h : FreeWith list q j) (hq : ∀ e, q e → q' e) : FreeWith list q' j := by
  rcases h with h | ⟨e, h0, he, hu, hqe⟩
  · exact Or.inl h
  · exact Or.inr ⟨e, h0, he, hu, hq e hqe⟩

theorem FreeWith.of_getElem? {list : List PoolEntry} {q : PoolEntry → Prop} {i : Nat}
    {e : PoolEntry} (he : list[i]? = some e) (hu : e.inUse = false) (hq : q e) :
    FreeWith list q i :=
  Or.inr ⟨e, by omega, by simpa using he, hu, hq⟩

/-- The loop over the entries from `i` on keeps `previous_usage` a free entry of the same
common name and `new_usage` a free entry that is not fixed, or one of `duplicate_cn` mode. -/
theorem ifconfigPoolFindLoop_spec (list : List PoolEntry) (dup : Bool) (cn : Option String) :
    ∀ (rest : List PoolEntry) (i : Nat) (earliest prev new : Int), list.drop i = rest →
      FreeWith list (fun e => sameCommonName cn e.commonName = true) prev →
      FreeWith list (fun e => dup = true ∨ e.fixed = false) new →
      FreeWith list (fun e => sameCommonName cn e.commonName = true)
          (ifconfigPoolFindLoop dup cn rest i earliest prev new).1 ∧
        FreeWith list (fun e => dup = true ∨ e.fixed = false)
          (ifconfigPoolFindLoop dup cn rest i earliest prev new).2 := by
  intro rest
  induction rest with
  | nil =>
      intro i earliest prev new _ hp hn
      exact ⟨hp, hn⟩
  | cons e rest ih =>
      intro i earliest prev new hdrop hp hn
      have he : list[i]? = some e := by
        have := congrArg (·[0]?) hdrop
        simpa [List.getElem?_drop] using this
      have hrest : list.drop (i + 1) = rest := by
        rw [← List.drop_drop, hdrop, List.drop_one, List.tail_cons]
      simp only [ifconfigPoolFindLoop]
      split_ifs with hu hdup hbetter hprev hprev
      · exact ih _ _ _ _ hrest hp hn
      · exact ⟨hp, .of_getElem? he (by simpa using hu) (Or.inl hdup)⟩
      all_goals
        refine ih _ _ _ _ hrest ?_ ?_
      · exact .of_getElem? he (by simpa using hu) hprev.2
      · exact .of_getElem? he (by simpa using hu) (Or.inr hbetter.2)
      · exact hp
      · exact .of_getElem? he (by simpa using hu) (Or.inr hbetter.2)
      · exact .of_getElem? he (by simpa using hu) hprev.2
      · exact hn
      · exact hp
      · exact hn

/-- `ifconfig_pool_find` returns `-1` or a free entry, and without `duplicate_cn` a fixed one
only when it was last held by `common_name`. -/
theorem ifconfigPoolFind_spec (pool : IfconfigPool) (cn : Option String) :
    FreeWith pool.list
      (fun e => pool.duplicateCn = false → e.fixed = true → sameCommonName cn e.commonName = true)
      (ifconfigPoolFind pool cn) := by
  obtain ⟨hp, hn⟩ := ifconfigPoolFindLoop_spec pool.list pool.duplicateCn cn pool.list 0 0 (-1)
    (-1) rfl (Or.inl rfl) (Or.inl rfl)
  unfold ifconfigPoolFind
  generalize ifconfigPoolFindLoop pool.duplicateCn cn pool.list 0 0 (-1) (-1) = r at hp hn ⊢
  obtain ⟨prev, new⟩ := r
  dsimp only at hp hn ⊢
  split_ifs with h0 h1
  · exact hp.mono fun e h _ _ => h
  · refine hn.mono fun e h hd hf => ?_
    rcases h with h | h <;> simp_all
  · exact Or.inl rfl

/-! ### Acquire, release, set and read -/

/-- What `ifconfig_pool_acquire` does: return `-1` and change nothing, or take the free entry `i`
that `ifconfig_pool_find` returns and hand out the addresses of `i`. The `ASSERT` never fails. -/
theorem ifconfigPoolAcquire_cases (pool : IfconfigPool) (cn : Option String) :
    (ifconfigPoolFind pool cn = -1 ∧ ifconfigPoolAcquire pool cn = some (pool, ⟨-1, none, none⟩)) ∨
      ∃ (i : Nat) (e : PoolEntry), ifconfigPoolFind pool cn = i ∧ pool.list[i]? = some e ∧
        e.inUse = false ∧
        (pool.duplicateCn = false → e.fixed = true → sameCommonName cn e.commonName = true) ∧
        ifconfigPoolAcquire pool cn =
          some ({ pool with list := pool.list.set i ⟨true, cn, 0, e.fixed⟩ },
            ⟨i, ifconfigPoolAddr4 pool i, ifconfigPoolAddr6 pool i⟩) := by
  rcases ifconfigPoolFind_spec pool cn with hf | ⟨e, h0, he, hu, hq⟩
  · exact Or.inl ⟨hf, by simp [ifconfigPoolAcquire, hf]⟩
  · have hget : pool.list.getD (ifconfigPoolFind pool cn).toNat PoolEntry.clear = e := by
      simp [List.getD_eq_getElem?_getD, he]
    refine Or.inr ⟨_, e, (Int.toNat_of_nonneg h0).symm, he, hu, hq, ?_⟩
    simp only [ifconfigPoolAcquire, if_pos h0, hget, hu, Int.toNat_of_nonneg h0]
    rfl

/-- `q` is `p` with other entries: the configuration and the size of `p`. -/
def IfconfigPool.SameConfig (p q : IfconfigPool) : Prop :=
  { p with list := q.list } = q ∧ q.list.length = p.list.length

namespace IfconfigPool.SameConfig

variable {p q r : IfconfigPool}

theorem refl (p : IfconfigPool) : SameConfig p p := ⟨rfl, rfl⟩

theorem of_list {l : List PoolEntry} (h : l.length = p.list.length) :
    SameConfig p { p with list := l } := ⟨rfl, h⟩

theorem trans (h₁ : SameConfig p q) (h₂ : SameConfig q r) : SameConfig p r := by
  refine ⟨?_, h₂.2.trans h₁.2⟩
  conv_rhs => rw [← h₂.1, ← h₁.1]

theorem symm (h : SameConfig p q) : SameConfig q p := by
  refine ⟨?_, h.2.symm⟩
  conv_lhs => rw [← h.1]

theorem duplicateCn_eq (h : SameConfig p q) : q.duplicateCn = p.duplicateCn := by
  rw [← h.1]

end IfconfigPool.SameConfig

open IfconfigPool (SameConfig)

theorem ifconfigPoolAcquire_sameConfig {pool pool' : IfconfigPool} {cn : Option String}
    {g : PoolGrant} (h : ifconfigPoolAcquire pool cn = some (pool', g)) : SameConfig pool pool' := by
  rcases ifconfigPoolAcquire_cases pool cn with ⟨-, hacq⟩ | ⟨i, e, -, -, -, -, hacq⟩
  · rw [hacq, Option.some.injEq, Prod.mk.injEq] at h
    exact h.1 ▸ .refl pool
  · rw [hacq, Option.some.injEq, Prod.mk.injEq] at h
    exact h.1 ▸ .of_list List.length_set

theorem ifconfigPoolRelease_sameConfig (pool : IfconfigPool) (hand : Int) (hard : Bool) (now : Int) :
    SameConfig pool (ifconfigPoolRelease pool hand hard now).1 := by
  unfold ifconfigPoolRelease
  split_ifs
  · exact .of_list (List.length_modify ..)
  · exact .refl pool

theorem ifconfigPoolSet_sameConfig (pool : IfconfigPool) (cn : String) (h : Nat) (fixed : Bool)
    (now : Int) : SameConfig pool (ifconfigPoolSet pool cn h fixed now) :=
  .of_list (List.length_modify ..)

theorem ifconfigPoolRead_sameConfig (fixed : Bool) (now : Int) (lines : List PersistLine) :
    ∀ pool, SameConfig pool (ifconfigPoolRead pool fixed now lines).1 := by
  induction lines with
  | nil => exact fun pool => .refl pool
  | cons line lines ih =>
      intro pool
      simp only [ifconfigPoolRead]
      split_ifs
      · exact (ifconfigPoolSet_sameConfig ..).trans (ih _)
      · exact ih pool

/-! ### `ifconfig_pool_init` -/

theorem toNat_and_not_three (x : UInt32) : (x &&& ~~~3).toNat = x.toNat / 4 * 4 := by
  have hx := x.toNat_lt
  rw [UInt32.toNat_and, UInt32.toNat_not]
  show x.toNat &&& 2 ^ 32 - (3 + 1) = x.toNat / 2 ^ 2 * 2 ^ 2
  apply Nat.eq_of_testBit_eq
  intro j
  rw [Nat.testBit_and, Nat.testBit_two_pow_sub_succ (by norm_num), Nat.testBit_mul_two_pow,
    Nat.testBit_div_two_pow]
  by_cases hj : j < 2
  · have h31 : Nat.testBit 3 1 = true := by decide
    interval_cases j <;> simp [h31]
  · have h3 : Nat.testBit 3 j = false := Nat.testBit_lt_two_pow (by
      calc 3 < 2 ^ 2 := by norm_num
        _ ≤ 2 ^ j := Nat.pow_le_pow_right (by norm_num) (by omega))
    rw [h3, Nat.sub_add_cancel (by omega)]
    by_cases hj32 : j < 32
    · simp [hj32, show 2 ≤ j by omega]
    · have : x.toNat.testBit j = false := Nat.testBit_lt_two_pow (by
        calc x.toNat < 2 ^ 32 := hx
          _ ≤ 2 ^ j := Nat.pow_le_pow_right (by norm_num) (by omega))
      simp [this]

theorem toNat_or_three (x : UInt32) : (x ||| 3).toNat = x.toNat / 4 * 4 + 3 := by
  rw [UInt32.toNat_or]
  show x.toNat ||| 3 = _
  have hsplit : x.toNat = 2 ^ 2 * (x.toNat / 4) ||| x.toNat % 4 := by
    rw [← Nat.two_pow_add_eq_or_of_lt (Nat.mod_lt _ (by norm_num))]; omega
  have hr : x.toNat % 4 ||| 3 = 3 := by
    have : x.toNat % 4 < 4 := Nat.mod_lt _ (by norm_num)
    interval_cases x.toNat % 4 <;> rfl
  rw [hsplit, Nat.or_assoc, hr, ← Nat.two_pow_add_eq_or_of_lt (by norm_num)]
  omega

/-- The `/30` pool of a range `ifconfig_pool_verify_range` accepts: its subnets end within the
address space, and there are at most `IFCONFIG_POOL_MAX` of them. -/
theorem net30_size_le {start endIp : UInt32} (hle : start ≤ endIp)
    (hlt : (endIp - start).toNat < ifconfigPoolMax) :
    (start &&& ~~~3).toNat + 4 * ((((endIp ||| 3) + 1) - (start &&& ~~~3)) >>> 2).toNat ≤ 2 ^ 32 ∧
      ((((endIp ||| 3) + 1) - (start &&& ~~~3)) >>> 2).toNat ≤ ifconfigPoolMax := by
  have hb := toNat_and_not_three start
  have he := toNat_or_three endIp
  have hs := start.toNat_lt
  have hend := endIp.toNat_lt
  rw [UInt32.le_iff_toNat_le] at hle
  rw [UInt32.toNat_sub] at hlt
  simp only [UInt32.toNat_shiftRight, UInt32.toNat_sub, UInt32.toNat_add, Nat.shiftRight_eq_div_pow,
    UInt32.reduceToNat, Nat.reduceMod, Nat.reducePow, hb, he, ifconfigPoolMax] at hlt ⊢
  omega

theorem indiv_size_eq {start endIp : UInt32} (hle : start ≤ endIp)
    (hlt : (endIp - start).toNat < ifconfigPoolMax) :
    (endIp - start + 1).toNat = endIp.toNat - start.toNat + 1 := by
  rw [UInt32.le_iff_toNat_le] at hle
  rw [UInt32.toNat_sub] at hlt
  have := endIp.toNat_lt
  simp only [UInt32.toNat_add, UInt32.toNat_sub, UInt32.reduceToNat, ifconfigPoolMax] at hlt ⊢
  omega

private theorem toCInt_two_pow_sub {k x : Nat} (hk : 2 ^ k ≤ 65536) (hx : x ≤ 2 ^ k) :
    toCInt ((2 : Int) ^ k - x) ≤ ifconfigPoolMax := by
  have hcast : (2 : Int) ^ k - x = ((2 ^ k - x : Nat) : Int) := by
    rw [Nat.cast_sub hx]; push_cast; rfl
  rw [hcast, toCInt_of_le (by omega) (by omega)]
  simp only [ifconfigPoolMax]
  omega

/-- `pool_ipv6_size` is at most `IFCONFIG_POOL_MAX`: a prefix of at least 112 bits leaves at most
`2^16` host addresses, and the masked base lies below the subnet's size. -/
theorem ifconfigPoolInitIpv6_size {ipv6Base base : In6Addr} {ipv6Netbits size : Int}
    (h : ifconfigPoolInitIpv6 ipv6Base ipv6Netbits = some (base, size)) : size ≤ ifconfigPoolMax := by
  unfold ifconfigPoolInitIpv6 at h
  split_ifs at h with hn h112
  · simp only [Option.some.injEq, Prod.mk.injEq] at h
    obtain ⟨-, rfl⟩ := h
    have hk16 : (128 - ipv6Netbits).toNat ≤ 16 := by omega
    generalize (128 - ipv6Netbits).toNat = k at hk16 ⊢
    have hpow : 2 ^ k ≤ 65536 :=
      calc 2 ^ k ≤ 2 ^ 16 := Nat.pow_le_pow_right (by norm_num) hk16
        _ = 65536 := by norm_num
    have hm : (ipv6Base.low32 &&& UInt32.ofNat (2 ^ k - 1)).toNat < 2 ^ k := by
      rw [UInt32.toNat_and, UInt32.toNat_ofNat', Nat.mod_eq_of_lt (by omega),
        Nat.and_two_pow_sub_one_eq_mod]
      exact Nat.mod_lt _ (by positivity)
    rw [if_pos (show k < 32 by omega)]
    split_ifs with h0
    · rw [h0]
      exact toCInt_two_pow_sub hpow Nat.one_le_two_pow
    · exact toCInt_two_pow_sub hpow hm.le
  · simp only [Option.some.injEq, Prod.mk.injEq] at h
    exact h.2 ▸ le_rfl
/-- The bounds `ifconfig_pool_init` leaves on a pool: a size in `(0, IFCONFIG_POOL_MAX]`, `/30`
subnets that end within the address space, and single addresses from `start` that end at `end`. -/
structure PoolRange (start endIp : UInt32) (pool : IfconfigPool) : Prop where
  length_pos : 0 < pool.list.length
  length_le : pool.list.length ≤ ifconfigPoolMax
  net30 : pool.ipv4Enabled = true → pool.ipv4Type = .net30 →
    pool.ipv4Base.toNat + 4 * pool.list.length ≤ 2 ^ 32
  indiv : pool.ipv4Enabled = true → pool.ipv4Type = .indiv →
    pool.ipv4Base = start ∧ start.toNat + pool.list.length ≤ endIp.toNat + 1

theorem PoolRange.of_sameConfig {start endIp : UInt32} {p q : IfconfigPool}
    (hr : PoolRange start endIp p) (hs : SameConfig p q) : PoolRange start endIp q := by
  obtain ⟨hs, hl⟩ := hs
  rw [← hs]
  exact ⟨by rw [hl]; exact hr.1, by rw [hl]; exact hr.2, fun h₁ h₂ => by rw [hl]; exact hr.3 h₁ h₂,
    fun h₁ h₂ => by rw [hl]; exact hr.4 h₁ h₂⟩

/-- A pool that `ifconfig_pool_init` returns passed its first check: the range is ordered and
smaller than `IFCONFIG_POOL_MAX`. -/
theorem range_of_ifconfigPoolInit {ipv4Pool : Bool} {type : PoolType} {start endIp : UInt32}
    {duplicateCn ipv6Pool : Bool} {ipv6Base : In6Addr} {ipv6Netbits : Int} {pool : IfconfigPool}
    (h : ifconfigPoolInit ipv4Pool type start endIp duplicateCn ipv6Pool ipv6Base ipv6Netbits =
      some pool) :
    start ≤ endIp ∧ (endIp - start).toNat < ifconfigPoolMax := by
  by_contra hr
  unfold ifconfigPoolInit at h
  rw [if_pos hr] at h
  cases h

/-- What `ifconfig_pool_init` builds: from a range `ifconfig_pool_verify_range` accepts, a pool of
cleared entries in the given mode and within `PoolRange`. -/
theorem ifconfigPoolInit_spec {ipv4Pool : Bool} {type : PoolType} {start endIp : UInt32}
    {duplicateCn ipv6Pool : Bool} {ipv6Base : In6Addr} {ipv6Netbits : Int} {pool : IfconfigPool}
    (h : ifconfigPoolInit ipv4Pool type start endIp duplicateCn ipv6Pool ipv6Base ipv6Netbits =
      some pool) :
    ifconfigPoolVerifyRange start endIp = true ∧ pool.duplicateCn = duplicateCn ∧
      pool.ipv4Enabled = ipv4Pool ∧ (ipv4Pool = true → pool.ipv4Type = type) ∧
      pool.list = List.replicate pool.list.length PoolEntry.clear ∧ PoolRange start endIp pool := by
  have hr := range_of_ifconfigPoolInit h
  unfold ifconfigPoolInit at h
  rw [if_neg (not_not.mpr hr)] at h
  have hle := UInt32.le_iff_toNat_le.mp hr.1
  have hv : ifconfigPoolVerifyRange start endIp = true := by
    simp only [ifconfigPoolVerifyRange, Bool.and_eq_true, Bool.not_eq_true',
      decide_eq_false_iff_not, gt_iff_lt, not_le]
    exact ⟨by rw [UInt32.lt_iff_toNat_lt]; omega, hr.2⟩
  obtain ⟨h30, h30max⟩ := net30_size_le hr.1 hr.2
  have hind := indiv_size_eq hr.1 hr.2
  have hsub : (endIp - start).toNat = endIp.toNat - start.toNat := by
    rw [UInt32.toNat_sub]; have := endIp.toNat_lt; omega
  have hmax := hr.2
  simp only [ifconfigPoolMax] at hmax h30max
  cases ipv6Pool
  · cases ipv4Pool <;> cases type <;>
      simp only [Bool.false_eq_true, if_false, if_true, false_and, true_and, le_refl,
        reduceCtorEq] at h
    all_goals
      split_ifs at h
      cases h
      refine ⟨hv, rfl, rfl, by simp, by simp, ?_⟩
      constructor <;> simp only [List.length_replicate, Int.toNat_natCast, reduceCtorEq,
        false_implies, true_implies, true_and, ifconfigPoolMax] <;> omega
  · rcases h6 : ifconfigPoolInitIpv6 ipv6Base ipv6Netbits with _ | ⟨b6, size6⟩
    · simp [h6] at h
    have hs6 := ifconfigPoolInitIpv6_size h6
    simp only [ifconfigPoolMax] at hs6
    cases ipv4Pool <;> cases type <;>
      simp only [h6, Bool.false_eq_true, if_false, if_true, false_and, true_and, and_true,
        le_refl, true_or] at h
    all_goals
      split_ifs at h <;> cases h <;> refine ⟨hv, rfl, rfl, by simp, by simp, ?_⟩ <;>
      constructor <;> simp only [List.length_replicate, Int.toNat_natCast, reduceCtorEq,
        false_implies, true_implies, true_and, ifconfigPoolMax] <;> omega

/-! ### The IPv4 size -/

/-- The number of IPv4 entries `ifconfig_pool_init` computes: the `/30` subnets from
`start & ~3` to `end | 3`, or the addresses from `start` to `end`. -/
def ipv4PoolSize (type : PoolType) (start endIp : UInt32) : Nat :=
  match type with
  | .net30 => endIp.toNat / 4 + 1 - start.toNat / 4
  | .indiv => endIp.toNat + 1 - start.toNat

theorem net30_size_eq {start endIp : UInt32} (hle : start ≤ endIp)
    (hlt : (endIp - start).toNat < ifconfigPoolMax) :
    ((((endIp ||| 3) + 1) - (start &&& ~~~3)) >>> 2).toNat = ipv4PoolSize .net30 start endIp := by
  have hb := toNat_and_not_three start
  have he := toNat_or_three endIp
  have hend := endIp.toNat_lt
  rw [UInt32.le_iff_toNat_le] at hle
  rw [UInt32.toNat_sub] at hlt
  simp only [UInt32.toNat_shiftRight, UInt32.toNat_sub, UInt32.toNat_add, Nat.shiftRight_eq_div_pow,
    UInt32.reduceToNat, Nat.reduceMod, Nat.reducePow, hb, he, ifconfigPoolMax, ipv4PoolSize] at hlt ⊢
  omega

theorem indiv_size_eq' {start endIp : UInt32} (hle : start ≤ endIp)
    (hlt : (endIp - start).toNat < ifconfigPoolMax) :
    (endIp - start + 1).toNat = ipv4PoolSize .indiv start endIp := by
  have hle' := UInt32.le_iff_toNat_le.mp hle
  rw [indiv_size_eq hle hlt, ipv4PoolSize]
  omega

section Ipv4Size

variable {type : PoolType} {start endIp : UInt32} {duplicateCn ipv6Pool : Bool} {ipv6Base : In6Addr}
  {ipv6Netbits : Int}

/-- Below two IPv4 entries `ifconfig_pool_init` stops with "IPv4 pool size is too small",
whatever the IPv6 pool. -/
theorem ifconfigPoolInit_of_size_lt (hs : ipv4PoolSize type start endIp < 2) :
    ifconfigPoolInit true type start endIp duplicateCn ipv6Pool ipv6Base ipv6Netbits = none := by
  unfold ifconfigPoolInit
  by_cases hr : start ≤ endIp ∧ (endIp - start).toNat < ifconfigPoolMax
  · rw [if_neg (not_not.mpr hr)]
    cases type <;> dsimp only
    · rw [net30_size_eq hr.1 hr.2]
      simp only [↓reduceIte, true_and]
      rw [if_pos (by omega)]
    · rw [indiv_size_eq' hr.1 hr.2]
      simp only [↓reduceIte, true_and]
      rw [if_pos (by omega)]
  · rw [if_pos hr]

/-- With the IPv6 pool off, a range `ifconfig_pool_verify_range` accepts and of at least two
IPv4 entries gives a pool of `ipv4PoolSize` entries. -/
theorem ifconfigPoolInit_ipv4_only (hle : start ≤ endIp) (hlt : (endIp - start).toNat < ifconfigPoolMax)
    (hs : 2 ≤ ipv4PoolSize type start endIp) (duplicateCn : Bool) (ipv6Base : In6Addr)
    (ipv6Netbits : Int) :
    ∃ pool, ifconfigPoolInit true type start endIp duplicateCn false ipv6Base ipv6Netbits = some pool ∧
      pool.list.length = ipv4PoolSize type start endIp := by
  unfold ifconfigPoolInit
  rw [if_neg (not_not.mpr ⟨hle, hlt⟩)]
  cases type <;> dsimp only
  · rw [net30_size_eq hle hlt]
    simp only [↓reduceIte, Bool.false_eq_true, false_and]
    rw [if_neg (by omega), if_neg (by omega)]
    exact ⟨_, rfl, by simp⟩
  · rw [indiv_size_eq' hle hlt]
    simp only [↓reduceIte, Bool.false_eq_true, false_and]
    rw [if_neg (by omega), if_neg (by omega)]
    exact ⟨_, rfl, by simp⟩

/-- A pool `ifconfig_pool_init` builds with the IPv4 pool on has at most `ipv4PoolSize` entries,
fewer when the IPv6 pool is smaller, and a `/30` pool starts at `start & ~3`. -/
theorem ifconfigPoolInit_length_le {pool : IfconfigPool}
    (h : ifconfigPoolInit true type start endIp duplicateCn ipv6Pool ipv6Base ipv6Netbits = some pool) :
    pool.list.length ≤ ipv4PoolSize type start endIp ∧
      (type = .net30 → pool.ipv4Base = start &&& ~~~3) := by
  have hr := range_of_ifconfigPoolInit h
  unfold ifconfigPoolInit at h
  rw [if_neg (not_not.mpr hr)] at h
  -- the two pool types differ only in the base and the IPv4 size
  cases type <;> dsimp only at h <;>
    simp only [net30_size_eq hr.1 hr.2, indiv_size_eq' hr.1 hr.2, ↓reduceIte, true_and] at h
  all_goals
    split at h
    · cases h
    cases ipv6Pool
    · simp only [Bool.false_eq_true, false_and, ↓reduceIte] at h
      split_ifs at h
      cases h
      exact ⟨by simp, by simp⟩
    · rcases h6 : ifconfigPoolInitIpv6 ipv6Base ipv6Netbits with _ | ⟨b6, size6⟩
      · simp [h6] at h
      simp only [h6, ↓reduceIte, true_and] at h
      split_ifs at h <;> cases h <;> refine ⟨?_, by simp⟩ <;> simp only [List.length_replicate] <;>
        omega

end Ipv4Size
/-! ### The addresses of a handle -/

section Addresses

variable {start endIp : UInt32} {pool : IfconfigPool}

/-- An endpoint of the `i`-th `/30` subnet does not wrap around. -/
theorem toNat_net30Addr (hr : PoolRange start endIp pool) (h4 : pool.ipv4Enabled = true)
    (ht : pool.ipv4Type = .net30) {i : Nat} (hi : i < pool.list.length) {k : UInt32}
    (hk : k.toNat < 4) :
    (pool.ipv4Base + (UInt32.ofNat i <<< 2) + k).toNat = pool.ipv4Base.toNat + 4 * i + k.toNat := by
  have hb := hr.net30 h4 ht
  have hmax := hr.length_le
  simp only [ifconfigPoolMax] at hmax
  simp only [UInt32.toNat_add, UInt32.toNat_shiftLeft, UInt32.toNat_ofNat', Nat.shiftLeft_eq,
    UInt32.reduceToNat, Nat.reduceMod, Nat.reducePow]
  omega

/-- The `i`-th single address is `start + i`, with no wraparound. -/
theorem toNat_indivAddr (hr : PoolRange start endIp pool) (h4 : pool.ipv4Enabled = true)
    (ht : pool.ipv4Type = .indiv) {i : Nat} (hi : i < pool.list.length) :
    (pool.ipv4Base + UInt32.ofNat i).toNat = start.toNat + i := by
  obtain ⟨hbase, hlen⟩ := hr.indiv h4 ht
  have := endIp.toNat_lt
  rw [hbase, UInt32.toNat_add, UInt32.toNat_ofNat']
  omega

/-- Distinct handles get distinct IPv4 addresses: the remote ends differ, and no endpoint of one
`/30` subnet is an endpoint of another. -/
theorem ifconfigPoolAddr4_disjoint (hr : PoolRange start endIp pool) {i j : Nat}
    (hi : i < pool.list.length) (hj : j < pool.list.length) (hij : i ≠ j)
    {a b : UInt32 × UInt32} (ha : ifconfigPoolAddr4 pool i = some a)
    (hb : ifconfigPoolAddr4 pool j = some b) :
    a.2 ≠ b.2 ∧ (pool.ipv4Type = .net30 → a.1 ≠ b.1 ∧ a.1 ≠ b.2 ∧ a.2 ≠ b.1) := by
  unfold ifconfigPoolAddr4 at ha hb
  split_ifs at ha hb with h4
  have hne : ∀ x y : UInt32, x.toNat ≠ y.toNat → x ≠ y := fun x y h hxy => h (hxy ▸ rfl)
  cases ht : pool.ipv4Type with
  | net30 =>
      simp only [ht, Option.some.injEq] at ha hb
      subst ha hb
      have h1 := toNat_net30Addr hr h4 ht hi (k := 1) (by decide)
      have h2 := toNat_net30Addr hr h4 ht hi (k := 2) (by decide)
      have h1' := toNat_net30Addr hr h4 ht hj (k := 1) (by decide)
      have h2' := toNat_net30Addr hr h4 ht hj (k := 2) (by decide)
      simp only [UInt32.reduceToNat] at h1 h2 h1' h2'
      dsimp only
      refine ⟨hne _ _ (by omega), fun _ => ⟨hne _ _ (by omega), hne _ _ (by omega),
        hne _ _ (by omega)⟩⟩
  | indiv =>
      simp only [ht, Option.some.injEq] at ha hb
      subst ha hb
      have h := toNat_indivAddr hr h4 ht hi
      have h' := toNat_indivAddr hr h4 ht hj
      dsimp only
      exact ⟨hne _ _ (by omega), fun h => absurd h (by decide)⟩

/-- An `INDIV` pool hands out addresses of `[start, end]` only. -/
theorem ifconfigPoolAddr4_indiv_mem (hr : PoolRange start endIp pool)
    (ht : pool.ipv4Type = .indiv) {i : Nat} (hi : i < pool.list.length) {a : UInt32 × UInt32}
    (ha : ifconfigPoolAddr4 pool i = some a) : start ≤ a.2 ∧ a.2 ≤ endIp := by
  unfold ifconfigPoolAddr4 at ha
  split_ifs at ha with h4
  simp only [ht, Option.some.injEq] at ha
  subst ha
  have h := toNat_indivAddr hr h4 ht hi
  have hlen := (hr.indiv h4 ht).2
  rw [UInt32.le_iff_toNat_le, UInt32.le_iff_toNat_le, h]
  omega

/-- Distinct handles get distinct IPv6 addresses. -/
theorem ifconfigPoolAddr6_injective (hr : PoolRange start endIp pool) {i j : Nat}
    (hi : i < pool.list.length) (hj : j < pool.list.length) {a b : In6Addr}
    (ha : ifconfigPoolAddr6 pool i = some a) (hb : ifconfigPoolAddr6 pool j = some b)
    (hab : a = b) : i = j := by
  unfold ifconfigPoolAddr6 at ha hb
  split_ifs at ha hb
  simp only [Option.some.injEq] at ha hb
  have hofNat := addIn6Addr_injective pool.ipv6Base (ha.trans (hab.trans hb.symm))
  have hmax := hr.length_le
  simp only [ifconfigPoolMax] at hmax
  have := congrArg UInt32.toNat hofNat
  rw [UInt32.toNat_ofNat', UInt32.toNat_ofNat'] at this
  omega

/-- The `i`-th `/30` subnet of a pool `ifconfig_pool_init` builds starts `4 * i` above
`start & ~3`, and `i` is below the number of subnets of the range. -/
theorem ifconfigPoolInit_addr4_net30 {duplicateCn ipv6Pool : Bool} {ipv6Base : In6Addr}
    {ipv6Netbits : Int}
    (h : ifconfigPoolInit true .net30 start endIp duplicateCn ipv6Pool ipv6Base ipv6Netbits = some pool)
    {i : Nat} (hi : i < pool.list.length) :
    ∃ l r, ifconfigPoolAddr4 pool i = some (l, r) ∧ l.toNat = start.toNat / 4 * 4 + 4 * i + 1 ∧
      r.toNat = start.toNat / 4 * 4 + 4 * i + 2 ∧ i < ipv4PoolSize .net30 start endIp := by
  obtain ⟨-, -, h4, ht, -, hr⟩ := ifconfigPoolInit_spec h
  obtain ⟨hlen, hbase⟩ := ifconfigPoolInit_length_le h
  have ht := ht rfl
  have h1 := toNat_net30Addr hr h4 ht hi (k := 1) (by decide)
  have h2 := toNat_net30Addr hr h4 ht hi (k := 2) (by decide)
  have hb : pool.ipv4Base.toNat = start.toNat / 4 * 4 := by rw [hbase rfl, toNat_and_not_three]
  rw [hb] at h1 h2
  refine ⟨_, _, ?_, h1, h2, by omega⟩
  simp only [ifconfigPoolAddr4, h4, ht, ↓reduceIte]

/-- The `i`-th address of an `INDIV` pool `ifconfig_pool_init` builds is `start + i`, and `i` is
below the number of addresses of the range. -/
theorem ifconfigPoolInit_addr4_indiv {duplicateCn ipv6Pool : Bool} {ipv6Base : In6Addr}
    {ipv6Netbits : Int}
    (h : ifconfigPoolInit true .indiv start endIp duplicateCn ipv6Pool ipv6Base ipv6Netbits = some pool)
    {i : Nat} (hi : i < pool.list.length) :
    ∃ r, ifconfigPoolAddr4 pool i = some (0, r) ∧ r.toNat = start.toNat + i ∧
      i < ipv4PoolSize .indiv start endIp := by
  obtain ⟨-, -, h4, ht, -, hr⟩ := ifconfigPoolInit_spec h
  have hlen := (ifconfigPoolInit_length_le h).1
  have ht := ht rfl
  refine ⟨_, ?_, toNat_indivAddr hr h4 ht hi, by omega⟩
  simp only [ifconfigPoolAddr4, h4, ht, ↓reduceIte]

end Addresses

end OpenVpn
