import Mathlib.Data.Rat.Floor
import Mathlib.Algebra.Order.Field.Power

/-! Binary floating-point arithmetic on rationals. `roundNearest p q` is `q` rounded to nearest,
ties to even, to `p` significant bits, and `truncInt` converts a floating value to an integer
type, dropping the fraction toward zero. The exponent is not bounded: on the normal range of a
format this is the rounding of IEEE 754 (binary64 is `p = 53`), and subnormal and infinite
results are not distinguished. Rounding to nearest is monotone (`roundNearest_mono`), the
property the bounds of a rounded computation rest on. -/

namespace BinaryRound

/-- `⌊log₂ q⌋` for `q > 0`, from the bit lengths of the numerator and the denominator. -/
def floorLog2 (q : ℚ) : ℤ :=
  let e : ℤ := (q.num.natAbs.log2 : ℤ) - (q.den.log2 : ℤ)
  if q < 2 ^ e then e - 1 else e

/-- The integer nearest to `t`, the even one at a midpoint. -/
def roundEven (t : ℚ) : ℤ :=
  let k := ⌊t⌋
  if t - k < 1 / 2 then k else if 1 / 2 < t - k then k + 1 else k + k % 2

/-- `q` rounded to nearest, ties to even, to `p` significant bits: the exponent `e` puts
`q / 2^e` between `2^(p-1)` and `2^p`, and that quotient is rounded to an integer. -/
def roundNearest (p : ℕ) (q : ℚ) : ℚ :=
  let e := floorLog2 |q| - ((p : ℤ) - 1)
  roundEven (q / 2 ^ e) * 2 ^ e

/-- The conversion of a floating value to an integer type: the fraction dropped toward zero. -/
def truncInt (q : ℚ) : ℤ := if q < 0 then -⌊-q⌋ else ⌊q⌋

/-! ## The binary exponent -/

section FloorLog2

variable {a b q : ℚ}

theorem two_zpow_natCast_sub (m n : ℕ) :
    (2 : ℚ) ^ ((m : ℤ) - n) * 2 ^ n = 2 ^ m := by
  rw [← zpow_natCast, ← zpow_natCast, ← zpow_add₀ two_ne_zero, sub_add_cancel]

/-- `q` lies in the binade `[2^⌊log₂ q⌋, 2^(⌊log₂ q⌋ + 1))`. The bit lengths of `num / den` put
`q` strictly between `2^(e - 1)` and `2^(e + 1)`, and the comparison with `2^e` picks the half. -/
theorem floorLog2_spec (hq : 0 < q) :
    (2 : ℚ) ^ floorLog2 q ≤ q ∧ q < 2 ^ (floorLog2 q + 1) := by
  set n := q.num.natAbs
  set d := q.den
  have hn : n ≠ 0 := Int.natAbs_ne_zero.mpr (Rat.num_ne_zero.mpr hq.ne')
  have hd : 0 < (d : ℚ) := by exact_mod_cast q.den_pos
  have hqnd : q = n / d := by
    rw [Nat.cast_natAbs, Int.cast_abs, abs_of_pos (Rat.num_pos.mpr hq |> Int.cast_pos.mpr)]
    exact (Rat.num_div_den q).symm
  have hn₁ : ((2 ^ n.log2 : ℕ) : ℚ) ≤ n := by exact_mod_cast Nat.log2_self_le hn
  have hn₂ : (n : ℚ) < ((2 ^ (n.log2 + 1) : ℕ) : ℚ) := by exact_mod_cast Nat.lt_log2_self
  have hd₁ : ((2 ^ d.log2 : ℕ) : ℚ) ≤ d := by exact_mod_cast Nat.log2_self_le q.den_nz
  have hd₂ : (d : ℚ) < ((2 ^ (d.log2 + 1) : ℕ) : ℚ) := by exact_mod_cast Nat.lt_log2_self
  push_cast at hn₁ hn₂ hd₁ hd₂
  have hpow := two_zpow_natCast_sub n.log2 (d.log2 + 1)
  have hpow' := two_zpow_natCast_sub (n.log2 + 1) d.log2
  have hpos := zpow_pos (two_pos (α := ℚ)) ((n.log2 : ℤ) - (d.log2 + 1 : ℕ))
  have hpos' := zpow_pos (two_pos (α := ℚ)) ((n.log2 + 1 : ℕ) - (d.log2 : ℤ))
  -- the two ends of the open interval around `q`
  have hlo : (2 : ℚ) ^ ((n.log2 : ℤ) - d.log2 - 1) < q := by
    rw [hqnd, lt_div_iff₀ hd]
    have : (n.log2 : ℤ) - d.log2 - 1 = (n.log2 : ℤ) - (d.log2 + 1 : ℕ) := by push_cast; ring
    rw [this]
    nlinarith
  have hhi : q < (2 : ℚ) ^ ((n.log2 : ℤ) - d.log2 + 1) := by
    rw [hqnd, div_lt_iff₀ hd]
    have : (n.log2 : ℤ) - d.log2 + 1 = (n.log2 + 1 : ℕ) - (d.log2 : ℤ) := by push_cast; ring
    rw [this]
    nlinarith
  unfold floorLog2
  dsimp only
  split_ifs with h
  · exact ⟨hlo.le, by rwa [sub_add_cancel]⟩
  · exact ⟨not_lt.mp h, hhi⟩

/-- A larger positive rational lies in the same binade or a higher one. -/
theorem floorLog2_mono (ha : 0 < a) (hab : a ≤ b) : floorLog2 a ≤ floorLog2 b := by
  by_contra h
  have ha' := (floorLog2_spec ha).1
  have hb' := (floorLog2_spec (ha.trans_le hab)).2
  have hle : (2 : ℚ) ^ (floorLog2 b + 1) ≤ 2 ^ floorLog2 a :=
    zpow_le_zpow_right₀ one_le_two (by omega)
  linarith

end FloorLog2

/-! ## Rounding to an integer -/

section RoundEven

variable {a b t : ℚ}

/-- Nearest-even rounding picks the floor or the integer above it. -/
theorem roundEven_mem (t : ℚ) : ⌊t⌋ ≤ roundEven t ∧ roundEven t ≤ ⌊t⌋ + 1 := by
  have h₀ := Int.emod_nonneg ⌊t⌋ (show (2 : ℤ) ≠ 0 by decide)
  have h₁ := Int.emod_lt_of_pos ⌊t⌋ (show (0 : ℤ) < 2 by decide)
  unfold roundEven
  dsimp only
  split_ifs <;> omega

theorem le_roundEven {n : ℤ} (h : (n : ℚ) ≤ t) : n ≤ roundEven t :=
  (Int.le_floor.mpr h).trans (roundEven_mem t).1

/-- Rounding does not pass an integer above its argument: at `t = n` the fraction is zero. -/
theorem roundEven_le {n : ℤ} (h : t ≤ n) : roundEven t ≤ n := by
  have hf : ⌊t⌋ ≤ n := Int.floor_le_iff.mpr (by linarith)
  rcases hf.lt_or_eq with hlt | heq
  · have := (roundEven_mem t).2
    omega
  · have ht : t = n := le_antisymm h (heq ▸ Int.floor_le t)
    unfold roundEven
    dsimp only
    rw [if_pos (by rw [heq, ht]; norm_num), heq]

/-- Rounding to an integer is monotone. In one unit interval the fraction decides, and the tie
goes the same way for both arguments; across unit intervals the floors are ordered. -/
theorem roundEven_mono (hab : a ≤ b) : roundEven a ≤ roundEven b := by
  have hf : ⌊a⌋ ≤ ⌊b⌋ := Int.floor_mono hab
  rcases hf.lt_or_eq with hlt | heq
  · have := (roundEven_mem a).2
    have := (roundEven_mem b).1
    omega
  · have h₀ := Int.emod_nonneg ⌊b⌋ (show (2 : ℤ) ≠ 0 by decide)
    have h₁ := Int.emod_lt_of_pos ⌊b⌋ (show (0 : ℤ) < 2 by decide)
    unfold roundEven
    dsimp only
    rw [heq]
    split_ifs <;> first | omega | (exfalso; linarith)

end RoundEven

/-! ## Rounding to `p` bits -/

section RoundNearest

variable {p : ℕ} {a b q : ℚ}

/-- In the binade of `q` the scaled value lies in `[2^(p-1), 2^p)`. -/
theorem scaled_mem (hq : 0 < q) :
    (2 : ℚ) ^ ((p : ℤ) - 1) ≤ q / 2 ^ (floorLog2 q - ((p : ℤ) - 1)) ∧
      q / 2 ^ (floorLog2 q - ((p : ℤ) - 1)) < 2 ^ (p : ℤ) := by
  obtain ⟨h₁, h₂⟩ := floorLog2_spec hq
  have hpos := zpow_pos (two_pos (α := ℚ)) (floorLog2 q - ((p : ℤ) - 1))
  have hsplit : ∀ k : ℤ, (2 : ℚ) ^ (k + (floorLog2 q - ((p : ℤ) - 1))) =
      2 ^ k * 2 ^ (floorLog2 q - ((p : ℤ) - 1)) := fun k => zpow_add₀ two_ne_zero _ _
  constructor
  · rw [le_div_iff₀ hpos, ← hsplit]
    simpa using h₁
  · rw [div_lt_iff₀ hpos, ← hsplit, show (p : ℤ) + (floorLog2 q - ((p : ℤ) - 1)) =
      floorLog2 q + 1 by ring]
    exact h₂

theorem roundNearest_of_pos (hq : 0 < q) :
    roundNearest p q =
      roundEven (q / 2 ^ (floorLog2 q - ((p : ℤ) - 1))) * 2 ^ (floorLog2 q - ((p : ℤ) - 1)) := by
  unfold roundNearest
  rw [abs_of_pos hq]

/-- A positive value rounds to at least the power of two that starts its binade. -/
theorem two_zpow_floorLog2_le_roundNearest (hp : 1 ≤ p) (hq : 0 < q) :
    (2 : ℚ) ^ floorLog2 q ≤ roundNearest p q := by
  have hpos := zpow_pos (two_pos (α := ℚ)) (floorLog2 q - ((p : ℤ) - 1))
  have hint : ((2 ^ (p - 1) : ℕ) : ℚ) = (2 : ℚ) ^ ((p : ℤ) - 1) := by
    rw [Nat.cast_pow, Nat.cast_ofNat, ← zpow_natCast, Nat.cast_sub hp, Nat.cast_one]
  have hm : ((2 ^ (p - 1) : ℕ) : ℤ) ≤ roundEven (q / 2 ^ (floorLog2 q - ((p : ℤ) - 1))) :=
    le_roundEven (by rw [Int.cast_natCast, hint]; exact (scaled_mem hq).1)
  have hm' : (2 : ℚ) ^ ((p : ℤ) - 1) ≤ roundEven (q / 2 ^ (floorLog2 q - ((p : ℤ) - 1))) := by
    rw [← hint]
    exact_mod_cast hm
  calc (2 : ℚ) ^ floorLog2 q
      = 2 ^ ((p : ℤ) - 1) * 2 ^ (floorLog2 q - ((p : ℤ) - 1)) := by
        rw [← zpow_add₀ two_ne_zero, add_sub_cancel]
    _ ≤ roundEven (q / 2 ^ (floorLog2 q - ((p : ℤ) - 1))) *
          2 ^ (floorLog2 q - ((p : ℤ) - 1)) := mul_le_mul_of_nonneg_right hm' hpos.le
    _ = roundNearest p q := (roundNearest_of_pos hq).symm

/-- A positive value rounds to at most the power of two that ends its binade. -/
theorem roundNearest_le_two_zpow_floorLog2 (hq : 0 < q) :
    roundNearest p q ≤ (2 : ℚ) ^ (floorLog2 q + 1) := by
  have hpos := zpow_pos (two_pos (α := ℚ)) (floorLog2 q - ((p : ℤ) - 1))
  have hm : roundEven (q / 2 ^ (floorLog2 q - ((p : ℤ) - 1))) ≤ ((2 ^ p : ℕ) : ℤ) :=
    roundEven_le (by push_cast; exact_mod_cast (scaled_mem hq).2.le)
  have hm' : (roundEven (q / 2 ^ (floorLog2 q - ((p : ℤ) - 1))) : ℚ) ≤ (2 : ℚ) ^ (p : ℤ) := by
    rw [zpow_natCast]
    exact_mod_cast hm
  calc roundNearest p q
      = roundEven (q / 2 ^ (floorLog2 q - ((p : ℤ) - 1))) *
          2 ^ (floorLog2 q - ((p : ℤ) - 1)) := roundNearest_of_pos hq
    _ ≤ 2 ^ (p : ℤ) * 2 ^ (floorLog2 q - ((p : ℤ) - 1)) := mul_le_mul_of_nonneg_right hm' hpos.le
    _ = 2 ^ (floorLog2 q + 1) := by rw [← zpow_add₀ two_ne_zero]; congr 1; ring

/-- Rounding to nearest is monotone on positive values. In one binade both values are scaled by
the same power of two and `roundEven_mono` applies; from a lower binade the rounding reaches at
most the power of two that starts the higher one. -/
theorem roundNearest_mono (hp : 1 ≤ p) (ha : 0 < a) (hab : a ≤ b) :
    roundNearest p a ≤ roundNearest p b := by
  have hb : 0 < b := ha.trans_le hab
  rcases (floorLog2_mono ha hab).lt_or_eq with hlt | heq
  · calc roundNearest p a ≤ (2 : ℚ) ^ (floorLog2 a + 1) := roundNearest_le_two_zpow_floorLog2 ha
      _ ≤ 2 ^ floorLog2 b := zpow_le_zpow_right₀ one_le_two (by omega)
      _ ≤ roundNearest p b := two_zpow_floorLog2_le_roundNearest hp hb
  · have hpos := zpow_pos (two_pos (α := ℚ)) (floorLog2 b - ((p : ℤ) - 1))
    rw [roundNearest_of_pos ha, roundNearest_of_pos hb, heq]
    have hle : a / 2 ^ (floorLog2 b - ((p : ℤ) - 1)) ≤ b / 2 ^ (floorLog2 b - ((p : ℤ) - 1)) :=
      div_le_div_of_nonneg_right hab hpos.le
    exact mul_le_mul_of_nonneg_right (by exact_mod_cast roundEven_mono hle) hpos.le

end RoundNearest

/-- A value of at least a non-negative integer `n` converts to at least `n`. -/
theorem le_truncInt {n : ℤ} {q : ℚ} (hn : 0 ≤ n) (h : (n : ℚ) ≤ q) : n ≤ truncInt q := by
  have hq : ¬ q < 0 := not_lt.mpr (le_trans (by exact_mod_cast hn) h)
  unfold truncInt
  rw [if_neg hq]
  exact Int.le_floor.mpr h

end BinaryRound
