import Mathlib.Data.Nat.Bitwise
import OpenVpn.CArith
import OpenVpn.Buffer

/-! `base64.c`: the base64 codec of the auth tokens. A C string is the list of its bytes before its
`NUL`. `openvpn_base64_encode` writes four characters for each group of three bytes and pads the
last group with `=`, into `malloc(size * 4 / 3 + 4)` bytes; `size * 4` overflows `int` from
`size = 2^29` on, and the model fails there. A `NULL` from `malloc` is not modelled.
`openvpn_base64_decode` reads groups of four characters while the next one is `=` or a base64
character, so it reads a string up to its first other byte; it fails on a group cut short, on a
digit after a `=` and on a byte past `size`. The bytes it wrote before failing are not
modelled: no caller reads them, and each write is one `base64Put`, which checks the bound first.

One step of the decoder writes `tokenBytes` of the group's value through `base64PutAll`
(`base64DecodeLoop_cons`). A group of one to three bytes is encoded by the base64 digits of the
number they make, with one `=` for each missing byte, and decodes back to the same writes
(`base64DecodeLoop_encodeLoop`). So every byte string decodes back when there is room and fails
when there is not (`openvpn_base64_round_trip`). `token_decode` does not check the last three
characters of a group: one that is no base64 character is added as `pos(c) = -1`
(`openvpnBase64Decode_not_mem`). -/

namespace OpenVpn

/-- `base64_chars`: `A`–`Z`, `a`–`z`, `0`–`9`, `+` and `/`. -/
def base64Chars : List UInt8 :=
  (List.range 26).map (fun i => UInt8.ofNat ('A'.toNat + i)) ++
    (List.range 26).map (fun i => UInt8.ofNat ('a'.toNat + i)) ++
    (List.range 10).map (fun i => UInt8.ofNat ('0'.toNat + i)) ++
    [UInt8.ofNat '+'.toNat, UInt8.ofNat '/'.toNat]

/-- The byte `=`. -/
def base64Pad : UInt8 := UInt8.ofNat '='.toNat

/-- `base64_chars[i]`. -/
def base64Char (i : Nat) : UInt8 := base64Chars.getD i 0

/-- The loop of `openvpn_base64_encode` over the bytes left: `c` holds the next three bytes, a
missing one as zero, and its four 6-bit fields index `base64_chars`; `i > size` (fewer than three
bytes) puts `=` in the last place and `i > size + 1` (one byte) in the third. -/
def base64EncodeLoop : List UInt8 → List UInt8
  | [] => []
  | q0 :: rest =>
      let c := (q0.toNat * 256 + (rest.head?.map UInt8.toNat).getD 0) * 256 +
        ((rest.drop 1).head?.map UInt8.toNat).getD 0
      let p2 := if rest.length < 1 then base64Pad else base64Char ((c &&& 0x00000fc0) >>> 6)
      let p3 := if rest.length < 2 then base64Pad else base64Char ((c &&& 0x0000003f) >>> 0)
      [base64Char ((c &&& 0x00fc0000) >>> 18), base64Char ((c &&& 0x0003f000) >>> 12), p2, p3] ++
        base64EncodeLoop (rest.drop 2)
termination_by l => l.length

/-- The bytes `malloc(size * 4 / 3 + 4)` asks for, in `int`; `none` where `size * 4` overflows. -/
def base64EncodeAlloc (size : Nat) : Option Int := do
  let alloc ← CArith.mul size 4
  let alloc ← CArith.div alloc 3
  CArith.add alloc 4

/-- `openvpn_base64_encode(data, size, &str)` with `size` the length of `data`: the result
`strlen(s)` and the string `*str`; `none` where the size of the allocation is undefined or a write
lands outside it. -/
def openvpnBase64Encode (data : List UInt8) : Option (Int × List UInt8) := do
  let alloc ← base64EncodeAlloc data.length
  -- the four characters of each group from `p = s`, then `*p = 0`
  let s ← memWrite (List.replicate alloc.toNat 0) 0 (base64EncodeLoop data ++ [0])
  let str := s.takeWhile (· ≠ 0)
  some (str.length, str)

/-- `pos(c)`: the index of `c` in `base64_chars`, `-1` when it is none of them. -/
def base64Pos (c : UInt8) : Int :=
  match base64Chars.idxOf? c with
  | some i => i
  | none => -1

-- `DECODE_ERROR`
def decodeError : UInt32 := 0xffffffff

/-- The loop of `token_decode` over the four characters of a group, `val` the digits so far and
`marker` the `=` seen; `none` is the `DECODE_ERROR` of a digit after a `=`. -/
def tokenDecodeLoop : List UInt8 → UInt32 → Nat → Option (UInt32 × Nat)
  | [], val, marker => some (val, marker)
  | c :: cs, val, marker =>
      if c = base64Pad then tokenDecodeLoop cs (val * 64) (marker + 1)
      else if marker > 0 then none
      else tokenDecodeLoop cs (val * 64 + UInt32.ofInt (base64Pos c)) marker

/-- `token_decode(token)`: `DECODE_ERROR` also when the string ends within the group. -/
def tokenDecode (token : List UInt8) : UInt32 :=
  if token.length < 4 then decodeError
  else
    match tokenDecodeLoop (token.take 4) 0 0 with
    | none => decodeError
    | some (val, marker) =>
        if marker > 2 then decodeError else (UInt32.ofNat marker <<< 24) ||| val

/-- `*q++ = b` after the check `e && q >= e`: there is room for `size` bytes, and no bound for a
negative `size`. -/
def base64Put (size : Int) (out : List UInt8) (b : UInt8) : Option (List UInt8) :=
  if 0 ≤ size ∧ size ≤ out.length then none else some (out ++ [b])

/-- The loop of `openvpn_base64_decode` over the groups of four characters, `out` the bytes
written. -/
def base64DecodeLoop (size : Int) : List UInt8 → List UInt8 → Option (List UInt8)
  | [], out => some out
  | c :: p, out =>
      if c = base64Pad ∨ c ∈ base64Chars then
        let val := tokenDecode (c :: p)
        let marker := (val >>> 24) &&& 0xff
        if val = decodeError then none
        else do
          let out ← base64Put size out ((val >>> 16) &&& 0xff).toUInt8
          let out ← if marker < 2 then base64Put size out ((val >>> 8) &&& 0xff).toUInt8
            else pure out
          let out ← if marker < 1 then base64Put size out (val &&& 0xff).toUInt8 else pure out
          base64DecodeLoop size ((c :: p).drop 4) out
      else some out
termination_by l => l.length
decreasing_by all_goals simp only [List.length_drop, List.length_cons]; omega

/-- `openvpn_base64_decode(str, data, size)`: the bytes decoded, `none` for `-1`. -/
def openvpnBase64Decode (str : List UInt8) (size : Int) : Option (List UInt8) :=
  base64DecodeLoop size str []

/-! ### The digits of a group -/

theorem base64Pos_base64Char : ∀ i : Fin 64, base64Pos (base64Char i) = i := by
  decide

theorem base64Char_mem : ∀ i : Fin 64, base64Char i ∈ base64Chars := by
  decide

theorem base64Char_ne_pad : ∀ i : Fin 64, base64Char i ≠ base64Pad := by
  decide

/-- A field of `w` bits at `k`, cut out by its mask and shifted down. -/
theorem and_mask_shiftRight (x w k : Nat) : (x &&& (2 ^ w - 1) * 2 ^ k) >>> k = x / 2 ^ k % 2 ^ w := by
  rw [Nat.shiftRight_and_distrib, Nat.shiftRight_eq_div_pow, Nat.shiftRight_eq_div_pow,
    Nat.mul_div_cancel _ (Nat.two_pow_pos k), Nat.and_two_pow_sub_one_eq_mod]

/-- The number below `2^24` that three bytes make. -/
def groupValue (a b c : UInt8) : Nat := (a.toNat * 256 + b.toNat) * 256 + c.toNat

theorem groupValue_lt (a b c : UInt8) : groupValue a b c < 2 ^ 24 := by
  have := a.toNat_lt
  have := b.toNat_lt
  have := c.toNat_lt
  simp only [groupValue]
  omega

/-- The characters of a group of three bytes are the base64 digits of their number. -/
theorem base64EncodeLoop_group (a b c : UInt8) (rest : List UInt8) :
    base64EncodeLoop (a :: b :: c :: rest) =
      [base64Char (groupValue a b c / 2 ^ 18 % 64), base64Char (groupValue a b c / 2 ^ 12 % 64),
        base64Char (groupValue a b c / 2 ^ 6 % 64), base64Char (groupValue a b c % 64)] ++
        base64EncodeLoop rest := by
  have h18 : (groupValue a b c &&& 0x00fc0000) >>> 18 = groupValue a b c / 2 ^ 18 % 64 :=
    and_mask_shiftRight _ 6 18
  have h12 : (groupValue a b c &&& 0x0003f000) >>> 12 = groupValue a b c / 2 ^ 12 % 64 :=
    and_mask_shiftRight _ 6 12
  have h6 : (groupValue a b c &&& 0x00000fc0) >>> 6 = groupValue a b c / 2 ^ 6 % 64 :=
    and_mask_shiftRight _ 6 6
  have h0 : (groupValue a b c &&& 0x0000003f) >>> 0 = groupValue a b c % 64 := by
    simpa using and_mask_shiftRight (groupValue a b c) 6 0
  rw [base64EncodeLoop]
  simp only [groupValue] at h18 h12 h6 h0
  simp [groupValue, h18, h12, h6, h0, show ¬rest.length + 1 + 1 < 2 by omega]

/-- The digit of a group of three bytes at `k`, as an index of `base64_chars`. -/
def groupDigit (a b c : UInt8) (k : Nat) : Fin 64 := ⟨groupValue a b c / 2 ^ k % 64, Nat.mod_lt _ (by omega)⟩

theorem base64EncodeLoop_three (a b c : UInt8) :
    base64EncodeLoop [a, b, c] = [base64Char (groupDigit a b c 18), base64Char (groupDigit a b c 12),
      base64Char (groupDigit a b c 6), base64Char (groupDigit a b c 0)] := by
  rw [base64EncodeLoop_group]
  simp [groupDigit, base64EncodeLoop]

/-- Two bytes: three digits and one `=`. -/
theorem base64EncodeLoop_two (a b : UInt8) :
    base64EncodeLoop [a, b] = [base64Char (groupDigit a b 0 18), base64Char (groupDigit a b 0 12),
      base64Char (groupDigit a b 0 6), base64Pad] := by
  have h18 : (groupValue a b 0 &&& 0x00fc0000) >>> 18 = (groupDigit a b 0 18).val :=
    and_mask_shiftRight _ 6 18
  have h12 : (groupValue a b 0 &&& 0x0003f000) >>> 12 = (groupDigit a b 0 12).val :=
    and_mask_shiftRight _ 6 12
  have h6 : (groupValue a b 0 &&& 0x00000fc0) >>> 6 = (groupDigit a b 0 6).val :=
    and_mask_shiftRight _ 6 6
  rw [base64EncodeLoop]
  simp only [groupValue, UInt8.toNat_zero, Nat.add_zero] at h18 h12 h6
  simp [h18, h12, h6, base64EncodeLoop]

/-- One byte: two digits and two `=`. -/
theorem base64EncodeLoop_one (a : UInt8) :
    base64EncodeLoop [a] = [base64Char (groupDigit a 0 0 18), base64Char (groupDigit a 0 0 12),
      base64Pad, base64Pad] := by
  have h18 : (groupValue a 0 0 &&& 0x00fc0000) >>> 18 = (groupDigit a 0 0 18).val :=
    and_mask_shiftRight _ 6 18
  have h12 : (groupValue a 0 0 &&& 0x0003f000) >>> 12 = (groupDigit a 0 0 12).val :=
    and_mask_shiftRight _ 6 12
  rw [base64EncodeLoop]
  simp only [groupValue, UInt8.toNat_zero, Nat.add_zero] at h18 h12
  simp [h18, h12, base64EncodeLoop]

/-! ### `token_decode` as `unsigned int` arithmetic -/

theorem uint32_toNat_ofNat {v : Nat} (hv : v < 2 ^ 32) : (UInt32.ofNat v).toNat = v :=
  UInt32.toNat_ofNat_of_lt' (by simpa [UInt32.size] using hv)

theorem ofInt_base64Pos_base64Char (g : Fin 64) :
    UInt32.ofInt (base64Pos (base64Char g)) = UInt32.ofNat g.val := by
  rw [base64Pos_base64Char g, UInt32.ofInt]
  congr 1
  omega

theorem zero_mul_64 : (0 : UInt32) * 64 = UInt32.ofNat 0 := by
  decide

theorem ofNat_mul_64 (a : Nat) : UInt32.ofNat a * 64 = UInt32.ofNat (a * 64) := by
  rw [UInt32.ofNat_mul]
  rfl

/-- A marker below `2^8` at bit 24 over a number below `2^24`. -/
theorem marker_or_value (m v : Nat) (hm : m < 2 ^ 8) (hv : v < 2 ^ 24) :
    UInt32.ofNat m <<< 24 ||| UInt32.ofNat v = UInt32.ofNat (2 ^ 24 * m + v) := by
  apply UInt32.toNat_inj.mp
  simp only [UInt32.toNat_or, UInt32.toNat_shiftLeft, uint32_toNat_ofNat (show m < 2 ^ 32 by omega),
    uint32_toNat_ofNat (show v < 2 ^ 32 by omega),
    uint32_toNat_ofNat (show 2 ^ 24 * m + v < 2 ^ 32 by omega)]
  rw [show (24 : UInt32).toNat % 32 = 24 from rfl, Nat.shiftLeft_eq,
    Nat.mod_eq_of_lt (by omega), Nat.mul_comm, ← Nat.two_pow_add_eq_or_of_lt hv]

/-- Adding `pos(c) = -1` as an `unsigned int`: one less, when there is something to take it from. -/
theorem ofNat_add_neg_one {n : Nat} (hn : 0 < n) (hlt : n < 2 ^ 32) :
    UInt32.ofNat n + UInt32.ofInt (-1) = UInt32.ofNat (n - 1) := by
  rw [show UInt32.ofInt (-1) = 4294967295 by decide]
  apply UInt32.toNat_inj.mp
  rw [UInt32.toNat_add, uint32_toNat_ofNat hlt, uint32_toNat_ofNat (by omega),
    show (4294967295 : UInt32).toNat = 4294967295 from rfl]
  omega

theorem ofNat_ne_decodeError {v : Nat} (hv : v < 2 ^ 32 - 1) : UInt32.ofNat v ≠ decodeError := fun h => by
  have := congrArg UInt32.toNat h
  rw [uint32_toNat_ofNat (by omega), decodeError,
    show (0xffffffff : UInt32).toNat = 4294967295 from rfl] at this
  omega

/-- `token_decode` on four digits: their number, with no `=`. -/
theorem tokenDecode_digits (g0 g1 g2 g3 : Fin 64) (rest : List UInt8) :
    tokenDecode ([base64Char g0, base64Char g1, base64Char g2, base64Char g3] ++ rest) =
      UInt32.ofNat (2 ^ 24 * 0 + (((g0.val * 64 + g1.val) * 64 + g2.val) * 64 + g3.val)) := by
  have := g0.isLt
  have := g1.isLt
  have := g2.isLt
  have := g3.isLt
  simp only [tokenDecode, List.length_append, List.length_cons, List.length_nil]
  rw [if_neg (by omega)]
  simp only [List.cons_append, List.take_succ_cons, List.take_zero, tokenDecodeLoop,
    base64Char_ne_pad, if_false, ofInt_base64Pos_base64Char, lt_irrefl, gt_iff_lt,
    zero_mul_64, ofNat_mul_64, ← UInt32.ofNat_add, Nat.zero_add]
  rw [if_neg (by decide)]
  exact marker_or_value 0 _ (by omega) (by omega)

/-- `token_decode` on three digits and one `=`: their number shifted by one digit, marker 1. -/
theorem tokenDecode_pad_one (g0 g1 g2 : Fin 64) (rest : List UInt8) :
    tokenDecode ([base64Char g0, base64Char g1, base64Char g2, base64Pad] ++ rest) =
      UInt32.ofNat (2 ^ 24 * 1 + ((g0.val * 64 + g1.val) * 64 + g2.val) * 64) := by
  have := g0.isLt
  have := g1.isLt
  have := g2.isLt
  simp only [tokenDecode, List.length_append, List.length_cons, List.length_nil]
  rw [if_neg (by omega)]
  simp only [List.cons_append, List.take_succ_cons, List.take_zero, tokenDecodeLoop,
    base64Char_ne_pad, if_false, if_true, ofInt_base64Pos_base64Char, lt_irrefl, gt_iff_lt,
    zero_mul_64, ofNat_mul_64, ← UInt32.ofNat_add, Nat.zero_add]
  rw [if_neg (by decide)]
  exact marker_or_value 1 _ (by omega) (by omega)

/-- `token_decode` on two digits and two `=`: marker 2. -/
theorem tokenDecode_pad_two (g0 g1 : Fin 64) (rest : List UInt8) :
    tokenDecode ([base64Char g0, base64Char g1, base64Pad, base64Pad] ++ rest) =
      UInt32.ofNat (2 ^ 24 * 2 + (g0.val * 64 + g1.val) * 64 * 64) := by
  have := g0.isLt
  have := g1.isLt
  simp only [tokenDecode, List.length_append, List.length_cons, List.length_nil]
  rw [if_neg (by omega)]
  simp only [List.cons_append, List.take_succ_cons, List.take_zero, tokenDecodeLoop,
    base64Char_ne_pad, if_false, if_true, ofInt_base64Pos_base64Char, lt_irrefl, gt_iff_lt,
    zero_mul_64, ofNat_mul_64, ← UInt32.ofNat_add, Nat.zero_add]
  exact marker_or_value 2 _ (by omega) (by omega)

theorem base64Pos_of_not_mem {x : UInt8} (hx : x ∉ base64Chars) : base64Pos x = -1 := by
  rw [base64Pos, List.idxOf?_eq_none_iff.mpr hx]

/-- `token_decode` on three digits and a byte that is none: the byte counts as the digit `-1`,
taken from the digits before it. -/
theorem tokenDecode_not_mem (g0 g1 g2 : Fin 64) {x : UInt8} (hpad : x ≠ base64Pad)
    (hx : x ∉ base64Chars) (hpos : 0 < (g0.val * 64 + g1.val) * 64 + g2.val) (rest : List UInt8) :
    tokenDecode ([base64Char g0, base64Char g1, base64Char g2, x] ++ rest) =
      UInt32.ofNat (2 ^ 24 * 0 + (((g0.val * 64 + g1.val) * 64 + g2.val) * 64 - 1)) := by
  have := g0.isLt
  have := g1.isLt
  have := g2.isLt
  simp only [tokenDecode, List.length_append, List.length_cons, List.length_nil]
  rw [if_neg (by omega)]
  simp only [List.cons_append, List.take_succ_cons, List.take_zero, tokenDecodeLoop,
    base64Char_ne_pad, hpad, if_false, ofInt_base64Pos_base64Char, lt_irrefl, gt_iff_lt,
    zero_mul_64, ofNat_mul_64, ← UInt32.ofNat_add, Nat.zero_add, base64Pos_of_not_mem hx]
  rw [if_neg (by decide), ofNat_add_neg_one (by omega) (by omega)]
  exact marker_or_value 0 _ (by omega) (by omega)

/-- `token_decode` reads the number of a whole group back. -/
theorem tokenDecode_encode_three (a b c : UInt8) (rest : List UInt8) :
    tokenDecode (base64EncodeLoop [a, b, c] ++ rest) = UInt32.ofNat (2 ^ 24 * 0 + groupValue a b c) := by
  rw [base64EncodeLoop_three, tokenDecode_digits]
  have := groupValue_lt a b c
  simp only [groupDigit]
  congr 2
  omega

theorem tokenDecode_encode_two (a b : UInt8) (rest : List UInt8) :
    tokenDecode (base64EncodeLoop [a, b] ++ rest) = UInt32.ofNat (2 ^ 24 * 1 + groupValue a b 0) := by
  rw [base64EncodeLoop_two, tokenDecode_pad_one]
  have := a.toNat_lt
  have := b.toNat_lt
  simp only [groupDigit, groupValue, UInt8.toNat_zero, Nat.add_zero]
  congr 2
  omega

theorem tokenDecode_encode_one (a : UInt8) (rest : List UInt8) :
    tokenDecode (base64EncodeLoop [a] ++ rest) = UInt32.ofNat (2 ^ 24 * 2 + groupValue a 0 0) := by
  rw [base64EncodeLoop_one, tokenDecode_pad_two]
  have := a.toNat_lt
  simp only [groupDigit, groupValue, UInt8.toNat_zero, Nat.add_zero]
  congr 2
  omega

/-! ### One step of the decoder -/

/-- The bytes `openvpn_base64_decode` writes for a decoded group: one, then a second below
marker 2, then a third below marker 1. -/
def tokenBytes (val : UInt32) : List UInt8 :=
  [((val >>> 16) &&& 0xff).toUInt8] ++
    (if (val >>> 24) &&& 0xff < 2 then [((val >>> 8) &&& 0xff).toUInt8] else []) ++
    (if (val >>> 24) &&& 0xff < 1 then [(val &&& 0xff).toUInt8] else [])

/-- `base64Put` of each byte in turn: the writes of one group. -/
def base64PutAll (size : Int) (out : List UInt8) : List UInt8 → Option (List UInt8)
  | [] => some out
  | b :: bs => (base64Put size out b).bind fun out => base64PutAll size out bs

theorem base64DecodeLoop_cons (size : Int) (c : UInt8) (p out : List UInt8) :
    base64DecodeLoop size (c :: p) out =
      if c = base64Pad ∨ c ∈ base64Chars then
        if tokenDecode (c :: p) = decodeError then none
        else (base64PutAll size out (tokenBytes (tokenDecode (c :: p)))).bind
          (base64DecodeLoop size (p.drop 3))
      else some out := by
  rw [base64DecodeLoop]
  dsimp only
  by_cases hc : c = base64Pad ∨ c ∈ base64Chars
  · rw [if_pos hc, if_pos hc]
    by_cases hv : tokenDecode (c :: p) = decodeError
    · rw [if_pos hv, if_pos hv]
    · rw [if_neg hv, if_neg hv]
      -- the two marker tests decide how many bytes the group writes
      generalize tokenDecode (c :: p) = val
      by_cases h2 : (val >>> 24) &&& 0xff < 2 <;> by_cases h1 : (val >>> 24) &&& 0xff < 1 <;>
        simp [tokenBytes, base64PutAll, h1, h2, Option.bind_assoc]
  · rw [if_neg hc, if_neg hc]

/-- The byte of a word at bit `s`, cut out as `openvpn_base64_decode` does. -/
theorem byte_of_ofNat {v : Nat} (hv : v < 2 ^ 32) (s : UInt32) (hs : s.toNat < 32) :
    ((UInt32.ofNat v >>> s) &&& 0xff).toUInt8 = UInt8.ofNat (v / 2 ^ s.toNat) := by
  apply UInt8.toNat_inj.mp
  simp only [UInt32.toNat_toUInt8, UInt32.toNat_and, UInt32.toNat_shiftRight, uint32_toNat_ofNat hv,
    UInt8.toNat_ofNat']
  rw [Nat.mod_eq_of_lt hs, show (0xff : UInt32).toNat = 2 ^ 8 - 1 from rfl,
    Nat.and_two_pow_sub_one_eq_mod, Nat.shiftRight_eq_div_pow, Nat.mod_mod]

/-- The marker of a word: its bits from 24 on. -/
theorem marker_of_ofNat {v : Nat} (hv : v < 2 ^ 32) :
    (UInt32.ofNat v >>> 24) &&& 0xff = UInt32.ofNat (v / 2 ^ 24) := by
  apply UInt32.toNat_inj.mp
  simp only [UInt32.toNat_and, UInt32.toNat_shiftRight, uint32_toNat_ofNat hv,
    uint32_toNat_ofNat (show v / 2 ^ 24 < 2 ^ 32 by omega)]
  rw [show (24 : UInt32).toNat % 32 = 24 from rfl, show (0xff : UInt32).toNat = 2 ^ 8 - 1 from rfl,
    Nat.and_two_pow_sub_one_eq_mod, Nat.shiftRight_eq_div_pow, Nat.mod_eq_of_lt (by omega)]

theorem tokenBytes_ofNat {v : Nat} (hv : v < 2 ^ 32) :
    tokenBytes (UInt32.ofNat v) = [UInt8.ofNat (v / 2 ^ 16)] ++
      (if v / 2 ^ 24 < 2 then [UInt8.ofNat (v / 2 ^ 8)] else []) ++
      (if v / 2 ^ 24 < 1 then [UInt8.ofNat v] else []) := by
  have h0 := byte_of_ofNat hv 0 (by decide)
  rw [UInt32.shiftRight_zero] at h0
  simp only [tokenBytes, marker_of_ofNat hv, byte_of_ofNat hv 16 (by decide),
    byte_of_ofNat hv 8 (by decide), h0, UInt32.lt_iff_toNat_lt,
    uint32_toNat_ofNat (show v / 2 ^ 24 < 2 ^ 32 by omega), show (16 : UInt32).toNat = 16 from rfl,
    show (8 : UInt32).toNat = 8 from rfl, show (2 : UInt32).toNat = 2 from rfl,
    show (1 : UInt32).toNat = 1 from rfl, show (0 : UInt32).toNat = 0 from rfl, Nat.pow_zero,
    Nat.div_one]

/-- A group whose marker counts `m` missing bytes writes the bytes that are there. -/
theorem tokenBytes_group (m : Nat) (hm : m ≤ 2) (a b c : UInt8) :
    tokenBytes (UInt32.ofNat (2 ^ 24 * m + groupValue a b c)) = [a, b, c].take (3 - m) := by
  have := groupValue_lt a b c
  have := a.toNat_lt
  have := b.toNat_lt
  have := c.toNat_lt
  have hm' : (2 ^ 24 * m + groupValue a b c) / 2 ^ 24 = m := by omega
  have ha : UInt8.ofNat ((2 ^ 24 * m + groupValue a b c) / 2 ^ 16) = a := by
    apply UInt8.toNat_inj.mp
    simp only [UInt8.toNat_ofNat', groupValue]
    omega
  have hb : UInt8.ofNat ((2 ^ 24 * m + groupValue a b c) / 2 ^ 8) = b := by
    apply UInt8.toNat_inj.mp
    simp only [UInt8.toNat_ofNat', groupValue]
    omega
  have hc : UInt8.ofNat (2 ^ 24 * m + groupValue a b c) = c := by
    apply UInt8.toNat_inj.mp
    simp only [UInt8.toNat_ofNat', groupValue]
    omega
  rw [tokenBytes_ofNat (by omega), hm', ha, hb, hc]
  match m, hm with
  | 0, _ | 1, _ | 2, _ => rfl

theorem base64Put_of_room {size : Int} {out : List UInt8} (hroom : size < 0 ∨ out.length < size)
    (b : UInt8) : base64Put size out b = some (out ++ [b]) := by
  rw [base64Put, if_neg (by omega)]

theorem base64Put_length_le {size : Int} (hsize : 0 ≤ size) {out out' : List UInt8} {b : UInt8}
    (h : base64Put size out b = some out') : out'.length ≤ size := by
  unfold base64Put at h
  split_ifs at h with hroom
  cases h
  simp only [List.length_append, List.length_singleton]
  omega

theorem base64PutAll_append (size : Int) (l m : List UInt8) : ∀ out : List UInt8,
    base64PutAll size out (l ++ m) = (base64PutAll size out l).bind fun o => base64PutAll size o m := by
  induction l with
  | nil => intro out; rfl
  | cons b l ih =>
    intro out
    simp only [List.cons_append, base64PutAll, Option.bind_assoc, ih]

theorem base64PutAll_of_room {size : Int} : ∀ (l out : List UInt8),
    (size < 0 ∨ out.length + l.length ≤ size) → base64PutAll size out l = some (out ++ l)
  | [], out, _ => by simp [base64PutAll]
  | b :: l, out, hroom => by
      simp only [List.length_cons] at hroom
      rw [base64PutAll, base64Put_of_room (by omega) b, Option.bind_some,
        base64PutAll_of_room l (out ++ [b])
          (by simp only [List.length_append, List.length_singleton]; omega)]
      simp

/-- Past `size` a write fails, and with it the whole group. -/
theorem base64PutAll_of_overflow {size : Int} (hsize : 0 ≤ size) : ∀ (l out : List UInt8),
    out.length ≤ size → size < out.length + l.length → base64PutAll size out l = none
  | [], out, hout, hover => by simp at hover; omega
  | b :: l, out, hout, hover => by
      simp only [List.length_cons] at hover
      by_cases hfull : size ≤ out.length
      · rw [base64PutAll, base64Put, if_pos ⟨hsize, hfull⟩, Option.bind_none]
      · rw [base64PutAll, base64Put_of_room (by omega) b, Option.bind_some,
          base64PutAll_of_overflow hsize l (out ++ [b]) (by simp; omega) (by simp; omega)]

theorem base64PutAll_length_le {size : Int} (hsize : 0 ≤ size) : ∀ (l out r : List UInt8),
    out.length ≤ size → base64PutAll size out l = some r → r.length ≤ size
  | [], out, r, hout, h => by cases h; exact hout
  | b :: l, out, r, hout, h => by
      obtain ⟨o, ho, h⟩ := Option.bind_eq_some_iff.mp h
      exact base64PutAll_length_le hsize l o r (base64Put_length_le hsize ho) h

/-! ### Strings -/

/-- Encoding a concatenation whose first part is whole groups encodes the parts. -/
theorem base64EncodeLoop_append : ∀ (l m : List UInt8), l.length % 3 = 0 →
    base64EncodeLoop (l ++ m) = base64EncodeLoop l ++ base64EncodeLoop m
  | [], m, _ => by simp [base64EncodeLoop]
  | [_], _, h | [_, _], _, h => by simp at h
  | a :: b :: c :: l, m, h => by
      rw [List.cons_append, List.cons_append, List.cons_append, base64EncodeLoop_group,
        base64EncodeLoop_group, base64EncodeLoop_append l m (by simp at h; omega),
        List.append_assoc]

/-- Four characters for each group, the last one included. -/
theorem length_base64EncodeLoop_any : ∀ d : List UInt8,
    (base64EncodeLoop d).length = 4 * ((d.length + 2) / 3)
  | [] => by simp [base64EncodeLoop]
  | [a] => by simp [base64EncodeLoop_one]
  | [a, b] => by simp [base64EncodeLoop_two]
  | a :: b :: c :: l => by
      rw [show a :: b :: c :: l = [a, b, c] ++ l from rfl, base64EncodeLoop_append [a, b, c] l (by simp),
        List.length_append, length_base64EncodeLoop_any l, base64EncodeLoop_three]
      simp only [List.length_append, List.length_cons, List.length_nil]
      omega

/-- Four characters for each group. -/
theorem length_base64EncodeLoop (l : List UInt8) (h : l.length % 3 = 0) :
    (base64EncodeLoop l).length = l.length / 3 * 4 := by
  rw [length_base64EncodeLoop_any]
  omega

/-- Base64 digits, then one `=` for each byte the last group lacks. -/
theorem base64EncodeLoop_shape : ∀ d : List UInt8, ∃ chars, (∀ c ∈ chars, c ∈ base64Chars) ∧
    base64EncodeLoop d = chars ++ List.replicate ((3 - d.length % 3) % 3) base64Pad
  | [] => ⟨[], by simp, by simp [base64EncodeLoop]⟩
  | [a] => ⟨[base64Char (groupDigit a 0 0 18), base64Char (groupDigit a 0 0 12)],
      by simp [base64Char_mem], by rw [base64EncodeLoop_one]; rfl⟩
  | [a, b] => ⟨[base64Char (groupDigit a b 0 18), base64Char (groupDigit a b 0 12),
      base64Char (groupDigit a b 0 6)], by simp [base64Char_mem], by rw [base64EncodeLoop_two]; rfl⟩
  | a :: b :: c :: l => by
      obtain ⟨chars, hchars, henc⟩ := base64EncodeLoop_shape l
      refine ⟨[base64Char (groupDigit a b c 18), base64Char (groupDigit a b c 12),
        base64Char (groupDigit a b c 6), base64Char (groupDigit a b c 0)] ++ chars, ?_, ?_⟩
      · simp only [List.cons_append, List.mem_cons]
        rintro x (rfl | rfl | rfl | rfl | hx)
        all_goals first | exact base64Char_mem _ | exact hchars x hx
      · rw [show a :: b :: c :: l = [a, b, c] ++ l from rfl, base64EncodeLoop_append [a, b, c] l (by simp),
          base64EncodeLoop_three, henc, List.append_assoc]
        simp only [List.length_append, List.length_cons, List.length_nil]
        congr 3
        omega

/-- The first group of `l` is decoded and written, and decoding goes on after it: so the encoding
of `l` is decoded to the writes of `l`, whatever follows it. -/
theorem base64DecodeLoop_encodeLoop (size : Int) :
    ∀ (l rest out : List UInt8), base64DecodeLoop size (base64EncodeLoop l ++ rest) out =
      (base64PutAll size out l).bind (base64DecodeLoop size rest)
  | [], rest, out => by simp [base64EncodeLoop, base64PutAll]
  | [a], rest, out => by
      rw [base64EncodeLoop_one, List.cons_append, base64DecodeLoop_cons,
        if_pos (.inr (base64Char_mem _)), ← List.cons_append, ← base64EncodeLoop_one,
        tokenDecode_encode_one, if_neg (ofNat_ne_decodeError (by have := groupValue_lt a 0 0; omega)),
        tokenBytes_group 2 (by omega)]
      rfl
  | [a, b], rest, out => by
      rw [base64EncodeLoop_two, List.cons_append, base64DecodeLoop_cons,
        if_pos (.inr (base64Char_mem _)), ← List.cons_append, ← base64EncodeLoop_two,
        tokenDecode_encode_two, if_neg (ofNat_ne_decodeError (by have := groupValue_lt a b 0; omega)),
        tokenBytes_group 1 (by omega)]
      rfl
  | a :: b :: c :: l, rest, out => by
      have hgroup : base64DecodeLoop size (base64EncodeLoop [a, b, c] ++ (base64EncodeLoop l ++ rest)) out =
          (base64PutAll size out [a, b, c]).bind (base64DecodeLoop size (base64EncodeLoop l ++ rest)) := by
        rw [base64EncodeLoop_three, List.cons_append, base64DecodeLoop_cons,
          if_pos (.inr (base64Char_mem _)), ← List.cons_append, ← base64EncodeLoop_three,
          tokenDecode_encode_three, if_neg (ofNat_ne_decodeError (by have := groupValue_lt a b c; omega)),
          tokenBytes_group 0 (by omega)]
        rfl
      have hrest : base64DecodeLoop size (base64EncodeLoop l ++ rest) =
          fun o => (base64PutAll size o l).bind (base64DecodeLoop size rest) :=
        funext fun o => base64DecodeLoop_encodeLoop size l rest o
      rw [show a :: b :: c :: l = [a, b, c] ++ l from rfl, base64EncodeLoop_append [a, b, c] l (by simp),
        List.append_assoc, hgroup, hrest, base64PutAll_append, Option.bind_assoc]

/-- Whole groups decode back, when there is room for them, and decoding goes on after them. -/
theorem base64DecodeLoop_encode (size : Int) (l rest out : List UInt8) (_ : l.length % 3 = 0)
    (hroom : size < 0 ∨ out.length + l.length ≤ size) :
    base64DecodeLoop size (base64EncodeLoop l ++ rest) out = base64DecodeLoop size rest (out ++ l) := by
  rw [base64DecodeLoop_encodeLoop, base64PutAll_of_room l out hroom, Option.bind_some]

/-- `openvpn_base64_decode` inverts the text `openvpn_base64_encode` writes, on whole groups that
fit. -/
theorem openvpnBase64Decode_encode {l : List UInt8} (h : l.length % 3 = 0) {size : Int}
    (hroom : size < 0 ∨ l.length ≤ size) :
    openvpnBase64Decode (base64EncodeLoop l) size = some l := by
  have := base64DecodeLoop_encode size l [] [] h (by simpa using hroom)
  simpa [openvpnBase64Decode, base64DecodeLoop] using this

/-- Every byte string decodes back when there is room for it. -/
theorem openvpnBase64Decode_encode_any (d : List UInt8) {size : Int} (hroom : size < 0 ∨ d.length ≤ size) :
    openvpnBase64Decode (base64EncodeLoop d) size = some d := by
  rw [openvpnBase64Decode, ← List.append_nil (base64EncodeLoop d),
    base64DecodeLoop_encodeLoop, base64PutAll_of_room d [] (by simpa using hroom)]
  simp [base64DecodeLoop]

/-- A string whose bytes do not fit in `size` fails, at the first byte past it. -/
theorem openvpnBase64Decode_encode_overflow (d : List UInt8) {size : Int} (hsize : 0 ≤ size)
    (hover : size < d.length) : openvpnBase64Decode (base64EncodeLoop d) size = none := by
  rw [openvpnBase64Decode, ← List.append_nil (base64EncodeLoop d),
    base64DecodeLoop_encodeLoop, base64PutAll_of_overflow hsize d [] (by simpa using hsize)
      (by simpa using hover), Option.bind_none]

/-- The decoder holds at most `size` bytes, whatever the string. -/
theorem base64DecodeLoop_length_le {size : Int} (hsize : 0 ≤ size) :
    ∀ (str out r : List UInt8), out.length ≤ size → base64DecodeLoop size str out = some r →
      r.length ≤ size
  | [], out, r, hout, h => by
      rw [base64DecodeLoop] at h
      cases h
      exact hout
  | c :: p, out, r, hout, h => by
      rw [base64DecodeLoop_cons] at h
      split_ifs at h
      · obtain ⟨o, ho, h⟩ := Option.bind_eq_some_iff.mp h
        exact base64DecodeLoop_length_le hsize (p.drop 3) o r
          (base64PutAll_length_le hsize _ out o hout ho) h
      · cases h
        exact hout
termination_by str => str.length
decreasing_by simp only [List.length_drop, List.length_cons]; omega

theorem length_tokenBytes_le (val : UInt32) : (tokenBytes val).length ≤ 3 := by
  unfold tokenBytes
  split <;> split <;> simp

theorem length_base64PutAll {size : Int} : ∀ (l out r : List UInt8),
    base64PutAll size out l = some r → r.length = out.length + l.length
  | [], out, r, h => by
      cases h
      simp
  | b :: l, out, r, h => by
      obtain ⟨o, ho, h⟩ := Option.bind_eq_some_iff.mp h
      have hr := length_base64PutAll l o r h
      unfold base64Put at ho
      split_ifs at ho
      cases ho
      simp only [List.length_append, List.length_cons, List.length_nil] at hr ⊢
      omega

/-- A group of four characters decodes to at most three bytes, so a string of `n` characters to at
most `3 * ⌈n / 4⌉` of them, whatever the bound `size`. -/
theorem base64DecodeLoop_length_le_chars {size : Int} :
    ∀ (str out r : List UInt8), base64DecodeLoop size str out = some r →
      r.length ≤ out.length + 3 * ((str.length + 3) / 4)
  | [], out, r, h => by
      rw [base64DecodeLoop] at h
      cases h
      simp
  | c :: p, out, r, h => by
      rw [base64DecodeLoop_cons] at h
      split_ifs at h
      · obtain ⟨o, ho, h⟩ := Option.bind_eq_some_iff.mp h
        have h₁ := length_base64PutAll _ out o ho
        have h₂ := base64DecodeLoop_length_le_chars (p.drop 3) o r h
        have h₃ := length_tokenBytes_le (tokenDecode (c :: p))
        simp only [List.length_drop, List.length_cons] at h₂ ⊢
        omega
      · cases h
        simp
termination_by str => str.length
decreasing_by simp only [List.length_drop, List.length_cons]; omega

theorem openvpnBase64Decode_length_le {str d : List UInt8} {size : Int}
    (h : openvpnBase64Decode str size = some d) : d.length ≤ 3 * ((str.length + 3) / 4) := by
  simpa using base64DecodeLoop_length_le_chars str [] d h

/-- A group whose last character is none of the base64 characters is accepted: it decodes to
the three bytes of its digits' number less one. -/
theorem openvpnBase64Decode_not_mem (g0 g1 g2 : Fin 64) {x : UInt8} (hpad : x ≠ base64Pad)
    (hx : x ∉ base64Chars) (hpos : 0 < (g0.val * 64 + g1.val) * 64 + g2.val) {size : Int}
    (hroom : size < 0 ∨ 3 ≤ size) :
    openvpnBase64Decode [base64Char g0, base64Char g1, base64Char g2, x] size =
      some [UInt8.ofNat ((((g0.val * 64 + g1.val) * 64 + g2.val) * 64 - 1) / 2 ^ 16),
        UInt8.ofNat ((((g0.val * 64 + g1.val) * 64 + g2.val) * 64 - 1) / 2 ^ 8),
        UInt8.ofNat (((g0.val * 64 + g1.val) * 64 + g2.val) * 64 - 1)] := by
  have := g0.isLt
  have := g1.isLt
  have := g2.isLt
  have htoken := tokenDecode_not_mem g0 g1 g2 hpad hx hpos []
  rw [List.append_nil] at htoken
  rw [openvpnBase64Decode, base64DecodeLoop_cons, if_pos (.inr (base64Char_mem _)), htoken,
    if_neg (ofNat_ne_decodeError (by omega)), tokenBytes_ofNat (by omega),
    if_pos (by omega), if_pos (by omega), Nat.mul_zero, Nat.zero_add,
    base64PutAll_of_room _ [] (by simp only [List.length_nil, List.length_append, List.length_singleton]; omega)]
  simp [base64DecodeLoop]

/-- The text of the encoder holds no `NUL`: base64 characters and `=`. -/
theorem ne_zero_of_mem_base64EncodeLoop (d : List UInt8) : ∀ c ∈ base64EncodeLoop d, c ≠ 0 := by
  obtain ⟨chars, hchars, heq⟩ := base64EncodeLoop_shape d
  have hzero : (0 : UInt8) ∉ base64Chars := by decide
  intro c hc h0
  subst h0
  rw [heq, List.mem_append] at hc
  rcases hc with hc | hc
  · exact hzero (hchars 0 hc)
  · exact absurd (List.eq_of_mem_replicate hc) (by decide)

/-- Below `2^29` bytes the allocation is defined and holds the groups and the `NUL`, and the
result is the text and its length. -/
theorem base64EncodeAlloc_of_lt {n : Nat} (h : n < 2 ^ 29) :
    base64EncodeAlloc n = some ((n * 4 / 3 + 4 : Nat) : Int) := by
  have hmul : CArith.mul (n : Int) 4 = some ((n * 4 : Nat) : Int) :=
    CArith.mul_natCast (a := n) (b := 4) (by omega)
  have hdiv : CArith.div ((n * 4 : Nat) : Int) 3 = some ((n * 4 / 3 : Nat) : Int) :=
    CArith.div_natCast (a := n * 4) (b := 3) (by omega) (by omega)
  have hadd : CArith.add ((n * 4 / 3 : Nat) : Int) 4 = some ((n * 4 / 3 + 4 : Nat) : Int) :=
    CArith.add_natCast (a := n * 4 / 3) (b := 4) (by omega)
  rw [base64EncodeAlloc, hmul, Option.bind_eq_bind, Option.bind_some, hdiv, Option.bind_some, hadd]

theorem openvpnBase64Encode_of_lt {d : List UInt8} (h : d.length < 2 ^ 29) :
    openvpnBase64Encode d = some (((base64EncodeLoop d).length : Int), base64EncodeLoop d) := by
  have hlen := length_base64EncodeLoop_any d
  -- `4 ⌈n / 3⌉ + 1` bytes, at most `n * 4 / 3 + 4`
  have hfit : (0 : Int) + (base64EncodeLoop d ++ [0]).length ≤
      (List.replicate (d.length * 4 / 3 + 4) (0 : UInt8)).length := by
    simp only [List.length_append, List.length_singleton, List.length_replicate, hlen]
    omega
  have hw : memWrite (List.replicate (d.length * 4 / 3 + 4) 0) 0 (base64EncodeLoop d ++ [0]) =
      some (base64EncodeLoop d ++ [0] ++
        List.replicate (d.length * 4 / 3 + 4 - ((base64EncodeLoop d).length + 1)) 0) := by
    unfold memWrite
    rw [if_pos ⟨le_rfl, hfit⟩]
    simp [List.drop_replicate]
  have hstr : ∀ k, (base64EncodeLoop d ++ [0] ++ List.replicate k 0).takeWhile (· ≠ 0) =
      base64EncodeLoop d := by
    intro k
    rw [List.append_assoc, List.takeWhile_append_of_pos (fun c hc => by
      simpa using ne_zero_of_mem_base64EncodeLoop d c hc)]
    simp
  rw [openvpnBase64Encode, base64EncodeAlloc_of_lt h, Option.bind_eq_bind, Option.bind_some,
    Int.toNat_natCast, hw, Option.bind_eq_bind, Option.bind_some, hstr]

/-- From `2^29` bytes on `size * 4` overflows `int`. -/
theorem openvpnBase64Encode_eq_none {d : List UInt8} (h : 2 ^ 29 ≤ d.length) :
    openvpnBase64Encode d = none := by
  have hmul : CArith.mul (d.length : Int) 4 = none := by
    unfold CArith.mul CArith.ofInt CArith.intMax
    rw [if_neg (by omega)]
  rw [openvpnBase64Encode, base64EncodeAlloc, hmul]
  rfl

/-- Below `2^29` bytes `openvpn_base64_encode` writes `4 ⌈n / 3⌉` characters, base64 digits and
then the padding, and `openvpn_base64_decode` gives the bytes back when they fit in `size` (or
`size < 0`) and fails when they do not; from `2^29` bytes on the allocation size overflows. For
every string and `size ≥ 0` the decoder holds at most `size` bytes. But it does not reject a group
with a character that is no base64 character after the first one: that character counts as
`pos(c) = -1`. -/
theorem openvpn_base64_round_trip :
    (∀ d : List UInt8, d.length < 2 ^ 29 →
      ∃ s, openvpnBase64Encode d = some ((s.length : Int), s) ∧ s.length = 4 * ((d.length + 2) / 3) ∧
      (∃ chars, (∀ c ∈ chars, c ∈ base64Chars) ∧
        s = chars ++ List.replicate ((3 - d.length % 3) % 3) base64Pad) ∧
      (∀ size : Int, size < 0 ∨ d.length ≤ size → openvpnBase64Decode s size = some d) ∧
      (∀ size : Int, 0 ≤ size → size < d.length → openvpnBase64Decode s size = none)) ∧
    (∀ d : List UInt8, 2 ^ 29 ≤ d.length → openvpnBase64Encode d = none) ∧
    (∀ (str : List UInt8) (size : Int), 0 ≤ size → ∀ r,
      openvpnBase64Decode str size = some r → r.length ≤ size) ∧
    (∀ (g0 g1 g2 : Fin 64) (x : UInt8), x ≠ 0 → x ≠ base64Pad → x ∉ base64Chars →
      0 < (g0.val * 64 + g1.val) * 64 + g2.val → ∀ size : Int, size < 0 ∨ 3 ≤ size →
      openvpnBase64Decode [base64Char g0, base64Char g1, base64Char g2, x] size =
        some [UInt8.ofNat ((((g0.val * 64 + g1.val) * 64 + g2.val) * 64 - 1) / 2 ^ 16),
          UInt8.ofNat ((((g0.val * 64 + g1.val) * 64 + g2.val) * 64 - 1) / 2 ^ 8),
          UInt8.ofNat (((g0.val * 64 + g1.val) * 64 + g2.val) * 64 - 1)]) := by
  refine ⟨fun d hd => ⟨base64EncodeLoop d, openvpnBase64Encode_of_lt hd,
    length_base64EncodeLoop_any d, base64EncodeLoop_shape d,
    fun _ hroom => openvpnBase64Decode_encode_any d hroom,
    fun _ hsize hover => openvpnBase64Decode_encode_overflow d hsize hover⟩,
    fun _ hd => openvpnBase64Encode_eq_none hd, ?_, ?_⟩
  · intro str size hsize r h
    exact base64DecodeLoop_length_le hsize str [] r (by simpa using hsize) h
  · intro g0 g1 g2 x _ hpad hx hpos size hroom
    exact openvpnBase64Decode_not_mem g0 g1 g2 hpad hx hpos hroom

/-- `BAA!` is accepted: `!` counts as the digit `-1`, and the group gives `0x03 0xff 0xff`. -/
theorem openvpn_base64_decode_baa_bang : openvpnBase64Decode [66, 65, 65, 33] 3 = some [3, 255, 255] := by
  have h := openvpn_base64_round_trip.2.2.2 1 0 0 33 (by decide) (by decide) (by decide) (by decide) 3
    (by decide)
  rw [show ([66, 65, 65, 33] : List UInt8) =
    [base64Char (1 : Fin 64), base64Char (0 : Fin 64), base64Char (0 : Fin 64), 33] by decide, h]
  decide

end OpenVpn
