import OpenVpn.Schedule
import OpenVpn.BufferSpec
import OpenVpn.CArith
import OpenVpn.BinaryRound

/-! The output traffic shaper of `shaper.h`, with the `struct timeval` arithmetic of `otime.h` it
rests on. `shaper_wrote_bytes` sets the wakeup to the current time plus the time the datagram
takes at `bytes_per_second`; `shaper_delay` is the time left until then, and `process_io` lets the
next datagram out once it is below a threshold (1000 microseconds there). Times have unbounded
fields: `time_t` does not overflow. Under `SHAPER_USE_FP` the delay is computed in `double`:
`factor = 1000000.0 / bytes_per_second` and `(int)((double)max_int(nbytes, 100) * factor)`, two
roundings to nearest and a truncation, which `BinaryRound` models on the normal range that every
value here lies in. Where the product passes `INT_MAX` (a datagram of more than 214748 bytes at
100 bytes per second) the conversion to `int` is undefined in C; the model truncates, and
`min_int` then clamps to `SHAPER_MAX_TIMEOUT` seconds.

`tv_add` carries the microseconds with `tv_usec >> 20` and masks them to 20 bits, so that every
`2^20` microseconds of the sum count as one second: it loses `48576` microseconds per carry
(`tvAdd_toUsec`), and the wakeup of the shaper comes that much early. -/

namespace OpenVpn

open BinaryRound

-- `SHAPER_MIN`, `SHAPER_MAX` (bytes per second) and `SHAPER_MAX_TIMEOUT` (seconds)
def shaperMin : Int := 100

def shaperMax : Int := 100000000

def shaperMaxTimeout : Nat := 10

/-- `tv_defined(tv)`. -/
def tvDefined (tv : Timeval) : Bool := decide (tv.tvSec > 0 ∧ tv.tvUsec > 0)

/-- `tv_add(dest, src)`: the new `*dest`. -/
def tvAdd (dest src : Timeval) : Timeval :=
  let sec := dest.tvSec + src.tvSec
  let usec := dest.tvUsec + src.tvUsec
  let sec := sec + (usec >>> (20 : Nat))
  let usec := Int.land usec 0x000FFFFF
  if usec ≥ 1000000 then ⟨sec + 1, usec - 1000000⟩ else ⟨sec, usec⟩

/-- An operation of `double`: IEEE binary64, rounded to nearest even. -/
def roundDouble (q : ℚ) : ℚ := roundNearest 53 q

/-- `struct shaper` under `SHAPER_USE_FP`. -/
structure Shaper where
  bytesPerSecond : Int
  wakeup : Timeval
  factor : ℚ
  deriving DecidableEq, Repr

/-- `shaper_reset(s, bytes_per_second)`. -/
def shaperReset (s : Shaper) (bytesPerSecond : Int) : Shaper :=
  let bytesPerSecond := constrainInt bytesPerSecond shaperMin shaperMax
  { s with bytesPerSecond := bytesPerSecond, factor := roundDouble (1000000 / bytesPerSecond) }

/-- `shaper_reset_wakeup(s)`: `CLEAR(s->wakeup)`. -/
def shaperResetWakeup (s : Shaper) : Shaper := { s with wakeup := ⟨0, 0⟩ }

/-- `shaper_init(s, bytes_per_second)`. -/
def shaperInit (s : Shaper) (bytesPerSecond : Int) : Shaper :=
  shaperResetWakeup (shaperReset s bytesPerSecond)

/-- `shaper_delay(s)` at the time `now` that `openvpn_gettimeofday` returns. -/
def shaperDelay (s : Shaper) (now : Timeval) : Int :=
  let delay := if tvDefined s.wakeup then tvSubtract s.wakeup now shaperMaxTimeout else 0
  if delay > 0 then delay else 0

/-- The microseconds `shaper_wrote_bytes` waits after a datagram of `nbytes` bytes:
`min_int((int)((double)max_int(nbytes, 100) * s->factor), SHAPER_MAX_TIMEOUT * 1000000)`. -/
def shaperWriteDelay (factor : ℚ) (nbytes : Int) : Int :=
  min (truncInt (roundDouble ((max nbytes 100 : Int) * factor))) (shaperMaxTimeout * 1000000)

/-- `shaper_wrote_bytes(s, nbytes)` at the time `now`. -/
def shaperWroteBytes (s : Shaper) (nbytes : Int) (now : Timeval) : Shaper :=
  let usec := shaperWriteDelay s.factor nbytes
  if usec ≠ 0 then { s with wakeup := tvAdd now ⟨0, usec⟩ } else s

/-- A datagram of `nbytes` bytes offered at `now`: written when `shaper_delay` is below
`threshold`, and `shaper_wrote_bytes` called after it; `none` when the shaper holds it back. -/
def shaperSend (threshold : Int) (s : Shaper) (now : Timeval) (nbytes : Int) : Option Shaper :=
  if shaperDelay s now < threshold then some (shaperWroteBytes s nbytes now) else none

/-- The datagrams of `sends` written at their times, in order; `none` when one is held back. -/
def shaperRun (threshold : Int) (s : Shaper) : List (Timeval × Int) → Option Shaper
  | [] => some s
  | (now, nbytes) :: sends => (shaperSend threshold s now nbytes).bind fun s => shaperRun threshold s sends

/-! ## Timeval arithmetic -/

/-- A time as a number of microseconds. -/
def Timeval.toUsec (tv : Timeval) : Int := tv.tvSec * 1000000 + tv.tvUsec

/-- A normalised time: `0 <= tv_usec < 1000000`. -/
def Timeval.Normal (tv : Timeval) : Prop := 0 ≤ tv.tvUsec ∧ tv.tvUsec < 1000000

instance : DecidablePred Timeval.Normal := fun tv =>
  inferInstanceAs (Decidable (0 ≤ tv.tvUsec ∧ tv.tvUsec < 1000000))

/-- A normalised time `gettimeofday` returns after the epoch, early enough that `tv_subtract`
takes a difference of seconds to `int` and back. -/
def Timeval.WallClock (tv : Timeval) : Prop := tv.Normal ∧ 0 < tv.tvSec ∧ tv.tvSec < 2 ^ 31 - 12

instance : DecidablePred Timeval.WallClock := fun tv =>
  inferInstanceAs (Decidable (tv.Normal ∧ 0 < tv.tvSec ∧ tv.tvSec < 2 ^ 31 - 12))

/-- The mask and the shift of `tv_add` on a non-negative sum of microseconds. -/
theorem land_shiftRight_of_nonneg {u : Int} (hu : 0 ≤ u) :
    Int.land u 0x000FFFFF = u % 2 ^ 20 ∧ u >>> (20 : Nat) = u / 2 ^ 20 := by
  obtain ⟨m, rfl⟩ := Int.eq_ofNat_of_zero_le hu
  have hmask : Int.land (m : Int) ((2 ^ 20 - 1 : Nat) : Int) = ((m % 2 ^ 20 : Nat) : Int) :=
    CArith.land_two_pow_sub_one m 20
  refine ⟨?_, by rw [Int.shiftRight_eq_div_pow]; rfl⟩
  rw [show (0x000FFFFF : Int) = ((2 ^ 20 - 1 : Nat) : Int) from rfl, hmask]
  omega

/-- On a non-negative sum of microseconds `tv_add` leaves a normalised time. -/
theorem tvAdd_normal {dest src : Timeval} (h : 0 ≤ dest.tvUsec + src.tvUsec) :
    (tvAdd dest src).Normal := by
  obtain ⟨hmask, -⟩ := land_shiftRight_of_nonneg h
  have h₀ := Int.emod_nonneg (dest.tvUsec + src.tvUsec) (show (2 : Int) ^ 20 ≠ 0 by decide)
  have h₁ := Int.emod_lt_of_pos (dest.tvUsec + src.tvUsec) (show (0 : Int) < 2 ^ 20 by decide)
  unfold tvAdd Timeval.Normal
  dsimp only
  rw [hmask]
  split <;> dsimp only <;> omega

/-- `tv_add` counts `2^20` microseconds of the sum as one second: the sum of the two times less
`48576` microseconds for every carry. -/
theorem tvAdd_toUsec {dest src : Timeval} (h : 0 ≤ dest.tvUsec + src.tvUsec) :
    (tvAdd dest src).toUsec =
      dest.toUsec + src.toUsec - 48576 * ((dest.tvUsec + src.tvUsec) / 2 ^ 20) := by
  obtain ⟨hmask, hshift⟩ := land_shiftRight_of_nonneg h
  have hdiv := Int.mul_ediv_add_emod (dest.tvUsec + src.tvUsec) (2 ^ 20)
  unfold tvAdd Timeval.toUsec
  dsimp only
  rw [hmask, hshift]
  split <;> dsimp only <;> omega

/-- Between normalised times whose seconds differ by less than `2^31`, `tv_subtract` is their
difference in microseconds clamped to `max_seconds`. -/
theorem tvSubtract_eq_constrainInt {tv1 tv2 : Timeval} {maxSeconds : Nat} (h1 : tv1.Normal)
    (h2 : tv2.Normal) (hmax : maxSeconds ≤ 2000) (hsec₁ : -2 ^ 31 ≤ tv1.tvSec - tv2.tvSec)
    (hsec₂ : tv1.tvSec - tv2.tvSec < 2 ^ 31) :
    tvSubtract tv1 tv2 maxSeconds =
      constrainInt (tv1.toUsec - tv2.toUsec) (-(maxSeconds * 1000000)) (maxSeconds * 1000000) := by
  have hmaxUsec : toCInt ((maxSeconds : Int) * 1000000) = maxSeconds * 1000000 :=
    toCInt_of_le (by omega) (by omega)
  have hdiff : tv1.toUsec - tv2.toUsec =
      (tv1.tvSec - tv2.tvSec) * 1000000 + (tv1.tvUsec - tv2.tvUsec) := by
    unfold Timeval.toUsec
    omega
  unfold Timeval.Normal at h1 h2
  unfold tvSubtract
  dsimp only
  rw [hmaxUsec, toCInt_of_le hsec₁ hsec₂, hdiff]
  split_ifs with hgt hlt
  · -- more than `max_seconds + 10` seconds ahead: the difference is past the clamp
    unfold constrainInt
    split_ifs <;> omega
  · unfold constrainInt
    split_ifs <;> omega
  · rw [toCInt_of_le (by omega) (by omega)]

/-! ## The shaper -/

/-- The datagram `q` goes out after `p` as the shaper lets it: the wakeup that `p` set is
undefined, or `q` comes less than `threshold` microseconds before it, the wakeup lying
`48576` microseconds early for each carry of `tv_add`. The delay is the one the rounded
`factor` gives. -/
def ShaperSpaced (factor : ℚ) (threshold : Int) (p q : Timeval × Int) : Prop :=
  let d := shaperWriteDelay factor p.2
  (tvAdd p.1 ⟨0, d⟩).tvUsec = 0 ∨
    p.1.toUsec + d - 48576 * ((p.1.tvUsec + d) / 2 ^ 20) - threshold < q.1.toUsec

theorem tvDefined_eq_false_iff {tv : Timeval} (hn : tv.Normal) (hsec : 0 < tv.tvSec) :
    tvDefined tv = false ↔ tv.tvUsec = 0 := by
  unfold tvDefined Timeval.Normal at *
  rw [decide_eq_false_iff_not]
  omega

@[simp] theorem shaperWroteBytes_factor (s : Shaper) (nbytes : Int) (now : Timeval) :
    (shaperWroteBytes s nbytes now).factor = s.factor := by
  unfold shaperWroteBytes
  dsimp only
  split <;> rfl

/-- `shaper_reset` keeps the rate within `[SHAPER_MIN, SHAPER_MAX]`. -/
theorem shaperReset_bytesPerSecond (s : Shaper) (bytesPerSecond : Int) :
    100 ≤ (shaperReset s bytesPerSecond).bytesPerSecond ∧
      (shaperReset s bytesPerSecond).bytesPerSecond ≤ 100000000 := by
  unfold shaperReset constrainInt shaperMin shaperMax
  dsimp only
  split_ifs <;> omega

/-- At a rate within `[SHAPER_MIN, SHAPER_MAX]` the rounded `factor` is at least the
`1000000.0 / SHAPER_MAX` it is rounded from at the top rate: `1 / 100` rounds up in `double`. -/
theorem one_div_hundred_le_roundDouble {r : Int} (h₁ : 100 ≤ r) (h₂ : r ≤ 100000000) :
    1 / 100 ≤ roundDouble (1000000 / r) := by
  have hr : (0 : ℚ) < r := by exact_mod_cast (show (0 : Int) < r by omega)
  have hq : (1 / 100 : ℚ) ≤ 1000000 / r := by
    rw [div_le_div_iff₀ (by norm_num) hr]
    have : (r : ℚ) ≤ 100000000 := by exact_mod_cast h₂
    linarith
  calc (1 / 100 : ℚ) ≤ roundDouble (1 / 100) := by decide +kernel
    _ ≤ roundDouble (1000000 / r) := roundNearest_mono (by decide) (by norm_num) hq

theorem one_div_hundred_le_shaperReset_factor (s : Shaper) (bytesPerSecond : Int) :
    1 / 100 ≤ (shaperReset s bytesPerSecond).factor :=
  one_div_hundred_le_roundDouble (shaperReset_bytesPerSecond s bytesPerSecond).1
    (shaperReset_bytesPerSecond s bytesPerSecond).2

/-- With a `factor` of at least `1 / 100`, as `shaper_reset` leaves it, every datagram waits
between one microsecond and `SHAPER_MAX_TIMEOUT` seconds: `max_int(nbytes, 100) * factor` is at
least `1`, which `double` holds exactly. -/
theorem shaperWriteDelay_mem {factor : ℚ} (h : 1 / 100 ≤ factor) (nbytes : Int) :
    1 ≤ shaperWriteDelay factor nbytes ∧ shaperWriteDelay factor nbytes ≤ 10000000 := by
  have hn : (100 : ℚ) ≤ ((max nbytes 100 : Int) : ℚ) := by exact_mod_cast le_max_right nbytes 100
  have hprod : (1 : ℚ) ≤ ((max nbytes 100 : Int) : ℚ) * factor := by nlinarith
  have hround : (1 : ℚ) ≤ roundDouble (((max nbytes 100 : Int) : ℚ) * factor) :=
    calc (1 : ℚ) = roundDouble 1 := by decide +kernel
      _ ≤ _ := roundNearest_mono (by decide) one_pos hprod
  have htrunc := le_truncInt (n := 1) one_pos.le (by exact_mod_cast hround)
  unfold shaperWriteDelay shaperMaxTimeout
  omega

/-- With such a `factor`, the wakeup `shaper_wrote_bytes` sets is `now` plus the delay. -/
theorem shaperWroteBytes_wakeup {s : Shaper} (h : 1 / 100 ≤ s.factor) (nbytes : Int)
    (now : Timeval) :
    (shaperWroteBytes s nbytes now).wakeup = tvAdd now ⟨0, shaperWriteDelay s.factor nbytes⟩ := by
  have hpos := (shaperWriteDelay_mem h nbytes).1
  unfold shaperWroteBytes
  rw [if_pos (by omega)]

/-- `shaper_delay` is below a threshold of at most `SHAPER_MAX_TIMEOUT` seconds exactly when the
wakeup is undefined or less than the threshold ahead. -/
theorem shaperDelay_lt_iff {s : Shaper} {now : Timeval} {t : Int} (hw : s.wakeup.Normal)
    (hn : now.Normal) (hsec₁ : -2 ^ 31 ≤ s.wakeup.tvSec - now.tvSec)
    (hsec₂ : s.wakeup.tvSec - now.tvSec < 2 ^ 31) (ht₁ : 1 ≤ t) (ht₂ : t ≤ 10000000) :
    shaperDelay s now < t ↔ tvDefined s.wakeup = false ∨ s.wakeup.toUsec - now.toUsec < t := by
  unfold shaperDelay
  dsimp only
  cases hd : tvDefined s.wakeup with
  | false => simp only [Bool.false_eq_true, ↓reduceIte, gt_iff_lt, Int.lt_irrefl, true_or,
      iff_true]; omega
  | true =>
      rw [if_pos rfl, tvSubtract_eq_constrainInt hw hn (by decide) hsec₁ hsec₂]
      unfold constrainInt shaperMaxTimeout
      simp only [Bool.true_eq_false, false_or]
      split_ifs <;> omega

/-- After a datagram of `nbytes` bytes at `now`, the shaper lets the next one out at `later`
exactly as `ShaperSpaced` says. -/
theorem shaperDelay_shaperWroteBytes_lt_iff {s : Shaper} {nbytes nbytes' t : Int}
    {now later : Timeval} (h : 1 / 100 ≤ s.factor) (hnow : now.WallClock) (hlater : later.WallClock) (ht₁ : 1 ≤ t) (ht₂ : t ≤ 10000000) :
    shaperDelay (shaperWroteBytes s nbytes now) later < t ↔
      ShaperSpaced s.factor t (now, nbytes) (later, nbytes') := by
  obtain ⟨hd₁, hd₂⟩ := shaperWriteDelay_mem h nbytes
  obtain ⟨⟨hn₀, hn₁⟩, hs₀, hs₁⟩ := hnow
  obtain ⟨⟨hl₀, hl₁⟩, hls₀, hls₁⟩ := hlater
  have hsum : 0 ≤ now.tvUsec + shaperWriteDelay s.factor nbytes := by omega
  have hW : (tvAdd now ⟨0, shaperWriteDelay s.factor nbytes⟩).Normal := tvAdd_normal hsum
  have hval : (tvAdd now ⟨0, shaperWriteDelay s.factor nbytes⟩).toUsec =
      now.toUsec + Timeval.toUsec ⟨0, shaperWriteDelay s.factor nbytes⟩ -
        48576 * ((now.tvUsec + shaperWriteDelay s.factor nbytes) / 2 ^ 20) :=
    tvAdd_toUsec hsum
  have hwake := shaperWroteBytes_wakeup h nbytes now
  unfold ShaperSpaced
  dsimp only at hval ⊢
  generalize tvAdd now ⟨0, shaperWriteDelay s.factor nbytes⟩ = W at hW hval hwake ⊢
  generalize shaperWriteDelay s.factor nbytes = d at hd₁ hd₂ hval ⊢
  unfold Timeval.toUsec at hval
  obtain ⟨hW₀, hW₁⟩ := hW
  dsimp only at hval
  -- each carry loses less than the delay: the wakeup lies between `now` and eleven seconds on
  have hsec₀ : now.tvSec ≤ W.tvSec := by omega
  have hsec₁ : W.tvSec ≤ now.tvSec + 11 := by omega
  rw [shaperDelay_lt_iff (hwake ▸ ⟨hW₀, hW₁⟩) ⟨hl₀, hl₁⟩ (by rw [hwake]; omega)
    (by rw [hwake]; omega) ht₁ ht₂, hwake, tvDefined_eq_false_iff ⟨hW₀, hW₁⟩ (by omega)]
  unfold Timeval.toUsec
  omega

theorem shaperRun_cons {t nbytes : Int} {s s' : Shaper} {now : Timeval}
    {sends : List (Timeval × Int)} :
    shaperRun t s ((now, nbytes) :: sends) = some s' ↔
      shaperDelay s now < t ∧ shaperRun t (shaperWroteBytes s nbytes now) sends = some s' := by
  rw [shaperRun, shaperSend]
  by_cases h : shaperDelay s now < t
  · simp [h]
  · simp [h]

/-- In every run of the shaper, each datagram goes out after the one before it as
`ShaperSpaced` says; the induction is over the sends, with the `factor` kept by each step. -/
theorem shaperRun_spaced {t : Int} (ht₁ : 1 ≤ t) (ht₂ : t ≤ 10000000) :
    ∀ {s s' : Shaper} {sends : List (Timeval × Int)}, 1 / 100 ≤ s.factor →
      (∀ p ∈ sends, p.1.WallClock) → shaperRun t s sends = some s' →
      sends.IsChain (ShaperSpaced s.factor t)
  | _, _, [], _, _, _ => List.IsChain.nil
  | _, _, [_], _, _, _ => List.IsChain.singleton _
  | s, _, (now, nbytes) :: (later, nbytes') :: sends, h, hclock, hrun => by
      obtain ⟨-, hrest⟩ := shaperRun_cons.mp hrun
      -- the next datagram went out while the wakeup just set was pending
      obtain ⟨hnext, -⟩ := shaperRun_cons.mp hrest
      have hfactor := shaperWroteBytes_factor s nbytes now
      have hnow := hclock (now, nbytes) List.mem_cons_self
      have hlater := hclock (later, nbytes') (List.mem_cons_of_mem _ List.mem_cons_self)
      have hspaced : ShaperSpaced s.factor t (now, nbytes) (later, nbytes') :=
        (shaperDelay_shaperWroteBytes_lt_iff h hnow hlater ht₁ ht₂).mp hnext
      have h' : 1 / 100 ≤ (shaperWroteBytes s nbytes now).factor := by rw [hfactor]; exact h
      have ih := shaperRun_spaced ht₁ ht₂ h' (fun p hp => hclock p (List.mem_cons_of_mem _ hp)) hrest
      rw [hfactor] at ih
      exact List.IsChain.cons_cons hspaced ih

/-- `tv_add` of a normalised time and a non-negative number of microseconds leaves a normalised
time, `48576` microseconds short for each carry of `tv_usec >> 20`; and in every run of the
shaper after `shaper_reset`, each datagram may go out that much before the one before it allows,
or at once when that one's wakeup lands on a whole second and so is not `tv_defined`. -/
theorem tv_add_shaper_carry_early :
    (∀ dest src : Timeval, dest.Normal → 0 ≤ src.tvUsec →
      (tvAdd dest src).Normal ∧
        (tvAdd dest src).toUsec =
          dest.toUsec + src.toUsec - 48576 * ((dest.tvUsec + src.tvUsec) / 2 ^ 20)) ∧
    (∀ (t bytesPerSecond : Int) (s s' : Shaper) (sends : List (Timeval × Int)), 1 ≤ t →
      t ≤ 10000000 → (∀ p ∈ sends, p.1.WallClock) →
      shaperRun t (shaperReset s bytesPerSecond) sends = some s' →
      sends.IsChain (ShaperSpaced (shaperReset s bytesPerSecond).factor t)) := by
  refine ⟨fun dest src hd hs => ?_, fun t bytesPerSecond s s' sends ht₁ ht₂ hclock hrun =>
    shaperRun_spaced ht₁ ht₂ (one_div_hundred_le_shaperReset_factor s bytesPerSecond) hclock hrun⟩
  have hsum : 0 ≤ dest.tvUsec + src.tvUsec := by
    unfold Timeval.Normal at hd
    omega
  exact ⟨tvAdd_normal hsum, tvAdd_toUsec hsum⟩

/-- At `1000 s`, 1500 bytes at 100 bytes per second wait `10^7` microseconds, but `tv_add`
carries nine times and sets the wakeup at `1009.562816 s`: the next datagram goes out `9562816`
microseconds later. After 100 bytes at `1000 s` the wakeup `1001.000000 s` is not `tv_defined`,
and the next datagram goes out one microsecond later. At 105 bytes per second the `double`
product gives 105 bytes `999999` microseconds, and with the threshold `1000` of `process_io` the
next datagram goes out `999000` microseconds after one at `1000.000002 s`, as `ShaperSpaced`
allows. -/
theorem tv_add_shaper_carry_early_at_1000 :
    tvAdd ⟨1000, 0⟩ ⟨0, 10000000⟩ = ⟨1009, 562816⟩ ∧ ((0 : Int) + 10000000) / 2 ^ 20 = 9 ∧
      ((tvAdd ⟨1000, 0⟩ ⟨0, 10000000⟩).Normal ∧
        (tvAdd ⟨1000, 0⟩ ⟨0, 10000000⟩).toUsec =
          Timeval.toUsec ⟨1000, 0⟩ + Timeval.toUsec ⟨0, 10000000⟩ -
            48576 * (((⟨1000, 0⟩ : Timeval).tvUsec + (⟨0, 10000000⟩ : Timeval).tvUsec) / 2 ^ 20)) ∧
      shaperRun 1 (shaperReset ⟨0, ⟨0, 0⟩, 0⟩ 100) [(⟨1000, 0⟩, 1500), (⟨1009, 562816⟩, 1500)] =
        some ⟨100, ⟨1019, 77056⟩, 10000⟩ ∧
      Timeval.toUsec ⟨1009, 562816⟩ - Timeval.toUsec ⟨1000, 0⟩ <
        shaperWriteDelay (shaperReset ⟨0, ⟨0, 0⟩, 0⟩ 100).factor 1500 ∧
      [((⟨1000, 0⟩ : Timeval), (1500 : Int)), (⟨1009, 562816⟩, 1500)].IsChain
        (ShaperSpaced (shaperReset ⟨0, ⟨0, 0⟩, 0⟩ 100).factor 1) ∧
      shaperRun 1 (shaperReset ⟨0, ⟨0, 0⟩, 0⟩ 100) [(⟨1000, 0⟩, 100), (⟨1000, 1⟩, 100)] =
        some ⟨100, ⟨1001, 1⟩, 10000⟩ ∧
      Timeval.toUsec ⟨1000, 1⟩ - Timeval.toUsec ⟨1000, 0⟩ <
        shaperWriteDelay (shaperReset ⟨0, ⟨0, 0⟩, 0⟩ 100).factor 100 ∧
      shaperWriteDelay (shaperReset ⟨0, ⟨0, 0⟩, 0⟩ 105).factor 105 = 999999 ∧
      [((⟨1000, 2⟩ : Timeval), (105 : Int)), (⟨1000, 999002⟩, 105)].IsChain
        (ShaperSpaced (shaperReset ⟨0, ⟨0, 0⟩, 0⟩ 105).factor 1000) := by
  have hrun : shaperRun 1 (shaperReset ⟨0, ⟨0, 0⟩, 0⟩ 100)
      [(⟨1000, 0⟩, 1500), (⟨1009, 562816⟩, 1500)] = some ⟨100, ⟨1019, 77056⟩, 10000⟩ := by
    decide +kernel
  have hrun₁₀₅ : shaperRun 1000 (shaperReset ⟨0, ⟨0, 0⟩, 0⟩ 105)
      [(⟨1000, 2⟩, 105), (⟨1000, 999002⟩, 105)] =
        some ⟨105, ⟨1001, 950425⟩, roundDouble (1000000 / 105)⟩ := by
    decide +kernel
  refine ⟨by decide, by decide,
    tv_add_shaper_carry_early.1 ⟨1000, 0⟩ ⟨0, 10000000⟩ (by decide) (by decide), hrun,
    by decide +kernel,
    tv_add_shaper_carry_early.2 1 100 ⟨0, ⟨0, 0⟩, 0⟩ ⟨100, ⟨1019, 77056⟩, 10000⟩
      [(⟨1000, 0⟩, 1500), (⟨1009, 562816⟩, 1500)] (by decide) (by decide) (by decide) hrun,
    by decide +kernel, by decide +kernel, by decide +kernel,
    tv_add_shaper_carry_early.2 1000 105 ⟨0, ⟨0, 0⟩, 0⟩ _
      [(⟨1000, 2⟩, 105), (⟨1000, 999002⟩, 105)] (by decide) (by decide) (by decide) hrun₁₀₅⟩

end OpenVpn
