import OpenVpn.BigEndian

/-! One's complement arithmetic on 16-bit words, the arithmetic of the Internet checksum
(RFC 1071). The words of a byte string are read big-endian, and their sum counts modulo `0xffff`:
a one's complement sum is that residue, with `0` and `0xffff` both for zero. Folding the carries
above bit 16 back into the low word keeps the residue, since `2 ^ 16 ≡ 1`; an incremental update
(RFC 1624) is an addition modulo `0xffff`. -/

namespace OnesComplement

/-- The sum of the big-endian 16-bit words of `bs`; an odd last byte is the high byte of a word. -/
def wordSum : List UInt8 → Nat
  | a :: b :: rest => a.toNat * 256 + b.toNat + wordSum rest
  | [a] => a.toNat * 256
  | [] => 0

@[simp] theorem wordSum_nil : wordSum [] = 0 := rfl

@[simp] theorem wordSum_cons_cons (a b : UInt8) (rest : List UInt8) :
    wordSum (a :: b :: rest) = a.toNat * 256 + b.toNat + wordSum rest := rfl

/-- Words do not straddle an even split. -/
theorem wordSum_append : ∀ {xs : List UInt8} (ys : List UInt8), Even xs.length →
    wordSum (xs ++ ys) = wordSum xs + wordSum ys
  | [], ys, _ => by simp
  | [_], _, h => absurd h (by simp)
  | a :: b :: xs, ys, h => by
      have hxs : Even xs.length := by
        simpa [List.length_cons, Nat.even_add_one] using h
      rw [List.cons_append, List.cons_append, wordSum_cons_cons, wordSum_append ys hxs,
        wordSum_cons_cons]
      omega

/-- Each word is at most `0xffff`. -/
theorem wordSum_le : ∀ bs : List UInt8, wordSum bs ≤ 0xffff * ((bs.length + 1) / 2)
  | [] => by simp
  | [a] => by
      have := a.toNat_lt
      simp only [wordSum, List.length_singleton]
      omega
  | a :: b :: rest => by
      have := a.toNat_lt
      have := b.toNat_lt
      have := wordSum_le rest
      simp only [wordSum_cons_cons, List.length_cons]
      omega

/-- A two-byte string is one word. -/
theorem wordSum_of_length_two {bs : List UInt8} (h : bs.length = 2) :
    wordSum bs = BigEndian.decode bs := by
  match bs, h with
  | [a, b], _ => simp [BigEndian.decode]

/-- A four-byte string is two words: the high and the low half of its value. -/
theorem wordSum_of_length_four {bs : List UInt8} (h : bs.length = 4) :
    wordSum bs = BigEndian.decode bs / 2 ^ 16 + BigEndian.decode bs % 2 ^ 16 := by
  match bs, h with
  | [a, b, c, d], _ =>
      have ha := a.toNat_lt
      have hb := b.toNat_lt
      have hc := c.toNat_lt
      have hd := d.toNat_lt
      simp only [wordSum_cons_cons, wordSum_nil, BigEndian.decode, List.foldl]
      omega

theorem wordSum_encode_two {v : Nat} (hv : v < 2 ^ 16) : wordSum (BigEndian.encode 2 v) = v := by
  rw [wordSum_of_length_two (BigEndian.length_encode 2 v), BigEndian.decode_encode 2 v (by omega)]

theorem wordSum_encode_four {v : Nat} (hv : v < 2 ^ 32) :
    wordSum (BigEndian.encode 4 v) = v / 2 ^ 16 + v % 2 ^ 16 := by
  rw [wordSum_of_length_four (BigEndian.length_encode 4 v), BigEndian.decode_encode 4 v (by omega)]

theorem shiftRight_sixteen (a : Nat) : a >>> 16 = a / 65536 := Nat.shiftRight_eq_div_pow a 16

theorem and_ffff (a : Nat) : a &&& 0xffff = a % 65536 := Nat.and_two_pow_sub_one_eq_mod a 16

/-- The low word of a 32-bit value. -/
theorem toNat_and_ffff (a : UInt32) : (a &&& 0xffff).toNat = a.toNat % 65536 := by
  rw [UInt32.toNat_and]
  exact and_ffff _

/-- The high word of a 32-bit value. -/
theorem toNat_shiftRight_sixteen (a : UInt32) : (a >>> 16).toNat = a.toNat / 65536 := by
  rw [UInt32.toNat_shiftRight]
  exact shiftRight_sixteen _

/-- The two words of a 32-bit value, in network order. -/
theorem wordSum_encode_uint32 (a : UInt32) :
    wordSum (BigEndian.encode 4 a.toNat) = (a >>> 16).toNat + (a &&& 0xffff).toNat := by
  rw [wordSum_encode_four a.toNat_lt, toNat_and_ffff, toNat_shiftRight_sixteen]
  rfl

/-- Folding the carries above bit 16 into the low word keeps the residue. -/
theorem fold_mod (a : Nat) : ((a >>> 16) + (a &&& 0xffff)) % 0xffff = a % 0xffff := by
  rw [shiftRight_sixteen, and_ffff]
  omega

/-- Folded twice, a 32-bit sum fits its low word, which keeps the residue. -/
theorem fold_fold_mod {a : Nat} (ha : a < 2 ^ 32) :
    ((a >>> 16) + (a &&& 0xffff) + (((a >>> 16) + (a &&& 0xffff)) >>> 16)) % 2 ^ 16 % 0xffff =
      a % 0xffff := by
  -- after one fold the sum has at most one carry left
  have hb : (a >>> 16) + (a &&& 0xffff) ≤ 0x1fffe := by
    rw [shiftRight_sixteen, and_ffff]
    omega
  rw [← fold_mod a]
  generalize (a >>> 16) + (a &&& 0xffff) = b at hb ⊢
  rw [shiftRight_sixteen]
  rcases Nat.lt_or_ge b 65536 with hlt | hge
  · rw [Nat.div_eq_of_lt hlt]
    omega
  · have hq : b / 65536 = 1 := by omega
    rw [hq]
    omega

/-- The weight of the byte at index `i` in `wordSum`: it is the high byte of its word at an even
index, the low byte at an odd one. -/
def byteWeight (i : Nat) : Nat := if i % 2 = 0 then 256 else 1

/-- Setting one byte changes the word sum by the byte's weight times its change. -/
theorem wordSum_set : ∀ (l : List UInt8) (i : Nat) (b : UInt8) (hi : i < l.length),
    (wordSum (l.set i b) : Int) = wordSum l + byteWeight i * ((b.toNat : Int) - l[i].toNat)
  | [_], 0, _, _ => by
      simp only [List.set_cons_zero, wordSum, byteWeight, List.getElem_cons_zero]
      push_cast
      ring
  | _ :: _ :: _, 0, _, _ => by
      simp only [List.set_cons_zero, wordSum_cons_cons, byteWeight, List.getElem_cons_zero]
      push_cast
      ring
  | _ :: _ :: _, 1, _, _ => by
      simp only [List.set_cons_succ, List.set_cons_zero, wordSum_cons_cons, byteWeight,
        List.getElem_cons_succ, List.getElem_cons_zero]
      push_cast
      ring
  | a :: c :: rest, i + 2, b, hi => by
      have ih := wordSum_set rest i b (by simpa using hi)
      have hw : byteWeight (i + 2) = byteWeight i := by simp [byteWeight, Nat.add_mod_right]
      simp only [List.set_cons_succ, wordSum_cons_cons, List.getElem_cons_succ, hw]
      push_cast
      rw [ih]
      ring

/-- A 16-bit word replaced at index `i`: at an even index the sum changes by the change of the
word, at an odd index, where the word straddles two words of the sum, by `256` times it, modulo
`0xffff` (`2 ^ 16 ≡ 1`). -/
theorem wordSum_set_set_emod (l : List UInt8) (i : Nat) (x y : UInt8) (hi : i + 1 < l.length) :
    (wordSum ((l.set i x).set (i + 1) y) : Int) % 0xffff =
      (wordSum l + (if i % 2 = 0 then 1 else 256) *
        ((BigEndian.decode [x, y] : Int) - BigEndian.decode ((l.drop i).take 2))) % 0xffff := by
  have h₁ := wordSum_set l i x (by omega)
  have h₂ := wordSum_set (l.set i x) (i + 1) y (by simpa using hi)
  have hi' : i + 1 < (l.set i x).length := by simpa using hi
  have hget : (l.set i x)[i + 1] = l[i + 1] := by
    simp
  have hword : (l.drop i).take 2 = [l[i], l[i + 1]] := by
    rw [List.drop_eq_getElem_cons (by omega), List.drop_eq_getElem_cons (by omega)]
    rfl
  have hdec (a b : UInt8) : BigEndian.decode [a, b] = a.toNat * 256 + b.toNat := by
    simp [BigEndian.decode]
  rw [h₂, hget, h₁, hword, hdec, hdec]
  unfold byteWeight
  rcases Nat.mod_two_eq_zero_or_one i with hev | hodd
  · have hw : (i + 1) % 2 = 1 := by omega
    simp only [hev, hw, if_true, one_ne_zero, if_false]
    push_cast
    ring_nf
  · have hw : (i + 1) % 2 = 0 := by omega
    simp only [hodd, hw, one_ne_zero, if_false, if_true]
    push_cast
    -- `256 * 256 ≡ 1`: the two sides differ by `0xffff` times the change of the high byte
    omega

/-- The end-around carry loop, `while (sum >> 16) sum = (sum & 0xFFFF) + (sum >> 16)`, for at most
`fuel` rounds. -/
def addCarries : Nat → Nat → Nat
  | 0, sum => sum
  | fuel + 1, sum =>
      if sum >>> 16 = 0 then sum else addCarries fuel ((sum &&& 0xffff) + (sum >>> 16))

/-- Every round keeps the residue. -/
theorem addCarries_mod : ∀ (fuel sum : Nat), addCarries fuel sum % 0xffff = sum % 0xffff
  | 0, _ => rfl
  | fuel + 1, sum => by
      unfold addCarries
      split_ifs
      · rfl
      · rw [addCarries_mod fuel, Nat.add_comm, fold_mod]

/-- Two rounds end the loop on a 32-bit sum. -/
theorem addCarries_two_lt {sum : Nat} (h : sum < 2 ^ 32) : addCarries 2 sum < 2 ^ 16 := by
  have h₁ : (sum &&& 0xffff) + (sum >>> 16) ≤ 0x1fffe := by
    rw [shiftRight_sixteen, and_ffff]
    omega
  simp only [addCarries, shiftRight_sixteen, and_ffff] at h₁ ⊢
  split_ifs <;> omega

end OnesComplement
