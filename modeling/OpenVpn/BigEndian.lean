import Mathlib

/-! Big-endian (network order) byte strings of natural numbers: `encode n x` is the `n` low bytes of
`x`, most significant first, and `decode` reads a byte string back. Nothing here is specific to a
protocol; `htonl`/`ntohl` and their 16-bit versions followed by a byte copy are `encode`/`decode`. -/

namespace BigEndian

/-- The `n` low bytes of `x`, most significant first. -/
def encode : Nat → Nat → List UInt8
  | 0, _ => []
  | n + 1, x => encode n (x / 256) ++ [UInt8.ofNat x]

/-- The number a byte string denotes, most significant byte first. -/
def decode (bs : List UInt8) : Nat := bs.foldl (fun acc b => acc * 256 + b.toNat) 0

@[simp] theorem length_encode (n x : Nat) : (encode n x).length = n := by
  induction n generalizing x with
  | zero => rfl
  | succ n ih => simp [encode, ih]

@[simp] theorem decode_nil : decode [] = 0 := rfl

theorem decode_append_singleton (bs : List UInt8) (b : UInt8) :
    decode (bs ++ [b]) = decode bs * 256 + b.toNat := by
  simp [decode, List.foldl_append]

theorem decode_append (as bs : List UInt8) :
    decode (as ++ bs) = decode as * 256 ^ bs.length + decode bs := by
  induction bs using List.reverseRecOn with
  | nil => simp
  | append_singleton bs b ih =>
      rw [← List.append_assoc, decode_append_singleton, ih, decode_append_singleton,
        List.length_append, List.length_singleton, pow_succ]
      ring

theorem decode_cons (b : UInt8) (bs : List UInt8) :
    decode (b :: bs) = b.toNat * 256 ^ bs.length + decode bs := by
  rw [← List.singleton_append, decode_append]
  simp [decode]

/-- Changing the byte at index `i` changes the value by its difference at weight
`256 ^ (length - 1 - i)`, stated without subtraction. -/
theorem decode_set (bs : List UInt8) {i : Nat} (hi : i < bs.length) (x : UInt8) :
    decode (bs.set i x) + bs[i].toNat * 256 ^ (bs.length - 1 - i) =
      decode bs + x.toNat * 256 ^ (bs.length - 1 - i) := by
  have hlen : (bs.drop (i + 1)).length = bs.length - 1 - i := by simp; omega
  have hsplit : decode bs = decode (bs.take i ++ bs[i] :: bs.drop (i + 1)) :=
    congrArg decode (by simp)
  rw [List.set_eq_take_cons_drop _ hi, hsplit]
  simp only [decode_append, decode_cons, List.length_cons, hlen]
  ring

theorem decode_lt (bs : List UInt8) : decode bs < 256 ^ bs.length := by
  induction bs using List.reverseRecOn with
  | nil => simp
  | append_singleton bs b ih =>
      rw [decode_append_singleton, List.length_append, List.length_singleton, pow_succ]
      have := b.toNat_lt
      nlinarith

theorem decode_encode (n x : Nat) (hx : x < 256 ^ n) : decode (encode n x) = x := by
  induction n generalizing x with
  | zero => simp at hx; simp [encode, hx]
  | succ n ih =>
      have hdiv : x / 256 < 256 ^ n := by
        rw [Nat.div_lt_iff_lt_mul (by norm_num), ← pow_succ]
        exact hx
      rw [encode, decode_append_singleton, ih _ hdiv, UInt8.toNat_ofNat']
      omega

/-- Equal values have equal encodings below `256 ^ n`, and conversely. -/
theorem encode_injective (n : Nat) {x y : Nat} (hx : x < 256 ^ n) (hy : y < 256 ^ n)
    (h : encode n x = encode n y) : x = y := by
  rw [← decode_encode n x hx, ← decode_encode n y hy, h]

theorem encode_decode (bs : List UInt8) : encode bs.length (decode bs) = bs := by
  induction bs using List.reverseRecOn with
  | nil => rfl
  | append_singleton bs b ih =>
      rw [List.length_append, List.length_singleton, encode, decode_append_singleton]
      have hb := b.toNat_lt
      rw [show (decode bs * 256 + b.toNat) / 256 = decode bs by omega, ih]
      congr 1
      simp only [List.singleton_inj]
      apply UInt8.toNat_inj.mp
      rw [UInt8.toNat_ofNat']
      omega

/-- Disjoint bit fields: a field below `2^i` and one shifted to bit `i`. -/
theorem or_mul_two_pow {a b : Nat} (i : Nat) (hb : b < 2 ^ i) : b ||| a * 2 ^ i = b + a * 2 ^ i := by
  rw [Nat.or_comm, Nat.mul_comm, ← Nat.two_pow_add_eq_or_of_lt hb, Nat.add_comm]

/-- The bytes of a 32-bit word, most significant first, joined with shifts and ors. -/
theorem or_shift_bytes {a b c d : Nat} (hb : b < 2 ^ 8) (hc : c < 2 ^ 8) (hd : d < 2 ^ 8) :
    a * 2 ^ 24 ||| b * 2 ^ 16 ||| c * 2 ^ 8 ||| d = a * 2 ^ 24 + b * 2 ^ 16 + c * 2 ^ 8 + d := by
  have h₁ : a * 2 ^ 24 ||| b * 2 ^ 16 = b * 2 ^ 16 + a * 2 ^ 24 := by
    rw [Nat.or_comm]
    exact or_mul_two_pow 24 (by omega)
  have h₂ : b * 2 ^ 16 + a * 2 ^ 24 ||| c * 2 ^ 8 = c * 2 ^ 8 + (b + a * 2 ^ 8) * 2 ^ 16 := by
    rw [Nat.or_comm, show b * 2 ^ 16 + a * 2 ^ 24 = (b + a * 2 ^ 8) * 2 ^ 16 by ring]
    exact or_mul_two_pow 16 (by omega)
  have h₃ : c * 2 ^ 8 + (b + a * 2 ^ 8) * 2 ^ 16 ||| d =
      d + (c + (b + a * 2 ^ 8) * 2 ^ 8) * 2 ^ 8 := by
    rw [Nat.or_comm,
      show c * 2 ^ 8 + (b + a * 2 ^ 8) * 2 ^ 16 = (c + (b + a * 2 ^ 8) * 2 ^ 8) * 2 ^ 8 by ring]
    exact or_mul_two_pow 8 hd
  rw [h₁, h₂, h₃]
  ring

/-! ### Leading and trailing bytes

The leading bytes of a string are the quotient of its value by a power of 256. A number `h` added
to `x` leaves the quotient of `x` by `c` alone exactly when the remainder of `x` has room for
`h`. -/

theorem decode_take_drop (bs : List UInt8) (i : Nat) :
    decode bs = decode (bs.take i) * 256 ^ (bs.length - i) + decode (bs.drop i) := by
  conv_lhs => rw [← List.take_append_drop i bs]
  rw [decode_append, List.length_drop]

theorem decode_div_pow (bs : List UInt8) (i : Nat) :
    decode bs / 256 ^ (bs.length - i) = decode (bs.take i) := by
  have hlt := decode_lt (bs.drop i)
  rw [List.length_drop] at hlt
  rw [decode_take_drop bs i, Nat.add_comm, Nat.add_mul_div_right _ _ (by positivity),
    Nat.div_eq_of_lt hlt, Nat.zero_add]

/-- Byte `i` is digit `length - 1 - i` of the value in base 256. -/
theorem decode_div_pow_mod (bs : List UInt8) {i : Nat} (hi : i < bs.length) :
    decode bs / 256 ^ (bs.length - 1 - i) % 256 = bs[i].toNat := by
  have hlen : bs.length - 1 - i = bs.length - (i + 1) := by omega
  rw [hlen, decode_div_pow, List.take_add_one, List.getElem?_eq_getElem hi, Option.toList_some,
    decode_append_singleton]
  have := bs[i].toNat_lt
  omega

theorem add_div_of_mod_add_lt {x h c : Nat} (hx : x % c + h < c) : (x + h) / c = x / c := by
  have hh : h < c := by omega
  rw [Nat.add_div_eq_of_add_mod_lt (by rw [Nat.mod_eq_of_lt hh]; exact hx), Nat.div_eq_of_lt hh,
    Nat.add_zero]

theorem add_mod_of_mod_add_lt {x h c : Nat} (hx : x % c + h < c) : (x + h) % c = x % c + h := by
  rw [Nat.add_mod, Nat.mod_eq_of_lt (show h < c by omega), Nat.mod_eq_of_lt hx]

theorem add_lt_mul_of_mod_add_lt {x h c d : Nat} (hxd : x < c * d) (hx : x % c + h < c) :
    x + h < c * d := by
  have hq : x / c < d := (Nat.div_lt_iff_lt_mul (by omega)).mpr (by rwa [Nat.mul_comm])
  have hdm := Nat.div_add_mod x c
  calc x + h = c * (x / c) + (x % c + h) := by omega
    _ < c * (x / c) + c := by omega
    _ = c * (x / c + 1) := by ring
    _ ≤ c * d := Nat.mul_le_mul_left c hq

theorem mod_add_lt_of_dvd {x h c d : Nat} (hcd : c ∣ d) (hd : 0 < d) (hx : x % c + h < c) :
    x % d + h < d := by
  obtain ⟨e, rfl⟩ := hcd
  have he : x / c % e < e := Nat.mod_lt _ (Nat.pos_of_mul_pos_left hd)
  rw [Nat.mod_mul]
  calc x % c + c * (x / c % e) + h < c + c * (x / c % e) := by omega
    _ = c * (x / c % e + 1) := by ring
    _ ≤ c * e := Nat.mul_le_mul_left c he

/-- Adding `h < c` to a number below `c * d` keeps its quotient by `c`, modulo `c * d`, exactly
when its remainder by `c` leaves room for `h`; otherwise the carry reaches the quotient, or wraps
it round to zero. -/
theorem add_mod_div_eq_iff {x h c d : Nat} (hd : 2 ≤ d) (hxd : x < c * d) (hh : h < c) :
    (x + h) % (c * d) / c = x / c ↔ x % c + h < c := by
  have hc : 0 < c := by omega
  have hdm := Nat.div_add_mod x c
  have hq : x / c < d := (Nat.div_lt_iff_lt_mul hc).mpr (by rwa [Nat.mul_comm])
  have hr := Nat.mod_lt x hc
  constructor
  · intro heq
    by_contra hroom
    -- the sum is `c * (x / c + 1) + s` with `s < c`
    have hs : x + h = c * (x / c + 1) + (x % c + h - c) := by rw [Nat.mul_add_one]; omega
    have hs' : x % c + h - c < c := by omega
    rcases Nat.lt_or_ge (x / c + 1) d with hlt | hge
    · have hmul : c * (x / c + 1) + c ≤ c * d := by
        rw [← Nat.mul_add_one]; exact Nat.mul_le_mul_left c hlt
      rw [Nat.mod_eq_of_lt (by omega), hs, Nat.mul_comm, Nat.add_comm,
        Nat.add_mul_div_right _ _ hc, Nat.div_eq_of_lt hs'] at heq
      omega
    · have hde : d = x / c + 1 := by omega
      rw [hs, ← hde, Nat.add_mod_left, Nat.mod_eq_of_lt (by nlinarith),
        Nat.div_eq_of_lt hs'] at heq
      omega
  · intro hroom
    rw [Nat.mod_eq_of_lt (add_lt_mul_of_mod_add_lt hxd hroom), add_div_of_mod_add_lt hroom]

end BigEndian
