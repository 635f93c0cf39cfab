import Mathlib.Data.Int.Bitwise

/-! Arithmetic on the values of C `int` expressions that stops where the C expression has
undefined behaviour: a result outside `[INT_MIN, INT_MAX]` of a 32-bit `int`, a division by
zero, or a quotient that `int` cannot hold. Division and remainder truncate toward zero, as C99
has them. On non-negative operands each operation is the exact one whenever its result fits,
and a mask `x & ~(2^k - 1)` rounds `x` down to a multiple of `2^k`. -/

namespace CArith

-- `INT_MIN` of a 32-bit `int`; `INT_MAX` of a 32-bit `int`
def intMin : Int := -2 ^ 31

def intMax : Int := 2 ^ 31 - 1

/-- The value of an `int` expression whose exact value is `x`, or `none` where it overflows. -/
def ofInt (x : Int) : Option Int := if intMin ≤ x ∧ x ≤ intMax then some x else none

/-- `a + b` on `int`. -/
def add (a b : Int) : Option Int := ofInt (a + b)

/-- `a - b` on `int`. -/
def sub (a b : Int) : Option Int := ofInt (a - b)

/-- `a * b` on `int`. -/
def mul (a b : Int) : Option Int := ofInt (a * b)

/-- `a / b` on `int`. -/
def div (a b : Int) : Option Int := if b = 0 then none else ofInt (a.tdiv b)

/-- `a % b` on `int`, undefined where `a / b` is. -/
def mod (a b : Int) : Option Int := if b = 0 then none else (ofInt (a.tdiv b)).map fun _ => a.tmod b

variable {a b : Nat}

/-- A non-negative value below `2 ^ 31` is an `int`. -/
theorem ofInt_natCast {x : Nat} (h : x < 2 ^ 31) : ofInt (x : Int) = some (x : Int) :=
  if_pos ⟨by simp only [intMin]; omega, by simp only [intMax]; omega⟩

theorem add_natCast (h : a + b < 2 ^ 31) : add a b = some ((a + b : Nat) : Int) := by
  rw [add, ← Int.natCast_add]
  exact ofInt_natCast h

theorem sub_natCast (hba : b ≤ a) (h : a < 2 ^ 31) : sub a b = some ((a - b : Nat) : Int) := by
  rw [sub, ← Int.ofNat_sub hba]
  exact ofInt_natCast (by omega)

theorem mul_natCast (h : a * b < 2 ^ 31) : mul a b = some ((a * b : Nat) : Int) := by
  rw [mul, ← Int.natCast_mul]
  exact ofInt_natCast h

/-- On non-negative operands, `/` of `int` is the quotient of natural numbers. -/
theorem div_natCast (hb : 0 < b) (h : a < 2 ^ 31) : div a b = some ((a / b : Nat) : Int) := by
  have hq : a / b ≤ a := Nat.div_le_self a b
  -- `Int.tdiv` of two casts is the cast of the quotient by its definition
  rw [div, if_neg (by omega), show (a : Int).tdiv b = ((a / b : Nat) : Int) from rfl]
  exact ofInt_natCast (by omega)

/-- On non-negative operands, `%` of `int` is the remainder of natural numbers. -/
theorem mod_natCast (hb : 0 < b) (h : a < 2 ^ 31) : mod a b = some ((a % b : Nat) : Int) := by
  have hq : a / b ≤ a := Nat.div_le_self a b
  rw [mod, if_neg (by omega), show (a : Int).tdiv b = ((a / b : Nat) : Int) from rfl,
    ofInt_natCast (by omega)]
  rfl

/-- Clearing the low `k` bits of a natural number rounds it down to a multiple of `2 ^ k`. -/
theorem ldiff_two_pow_sub_one (m k : Nat) : Nat.ldiff m (2 ^ k - 1) = m / 2 ^ k * 2 ^ k := by
  apply Nat.eq_of_testBit_eq
  intro i
  rw [Nat.testBit_ldiff, Nat.testBit_two_pow_sub_one, Nat.testBit_mul_two_pow,
    Nat.testBit_div_two_pow]
  by_cases hi : i < k
  · simp [hi, show ¬k ≤ i by omega]
  · rw [show i - k + k = i by omega]
    simp [hi, show k ≤ i by omega]

/-- `m & (2^k - 1)` on a non-negative `int` is its remainder modulo `2 ^ k`. -/
theorem land_two_pow_sub_one (m k : Nat) :
    Int.land (m : Int) ((2 ^ k - 1 : Nat) : Int) = ((m % 2 ^ k : Nat) : Int) := by
  -- on two casts `Int.land` is `&&&` of natural numbers by its definition
  show (((m &&& (2 ^ k - 1)) : Nat) : Int) = _
  rw [Nat.and_two_pow_sub_one_eq_mod]

/-- `m & ~(2^k - 1)` on a non-negative `int` rounds it down to a multiple of `2 ^ k`. -/
theorem land_lnot_two_pow_sub_one (m k : Nat) :
    Int.land (m : Int) (Int.lnot ((2 ^ k - 1 : Nat) : Int)) = ((m / 2 ^ k * 2 ^ k : Nat) : Int) := by
  have hpos : 0 < 2 ^ k := Nat.two_pow_pos k
  obtain ⟨j, hj⟩ : ∃ j, 2 ^ k - 1 = j := ⟨_, rfl⟩
  have hlnot : Int.lnot (j : Int) = Int.negSucc j := rfl
  rw [hj, hlnot, ← ldiff_two_pow_sub_one, hj]
  rfl

end CArith
