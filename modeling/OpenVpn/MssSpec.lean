import OpenVpn.Mss
import OpenVpn.PacketMemSpec

/-! What `mss_fixup_dowork` does to a TCP segment. The option loop is read against a pure walk of
the option bytes, `mssOptionOffsets`, which lists the MSS options of length `TCPOLEN_MAXSEG` the
loop reaches. On a buffer inside the allocation the call never faults and touches only the TCP
header; it changes the checksum field and the value of each of those options, which becomes
`min(mssval, maxmss)`, and nothing else.

`ADJUST_CHECKSUM(htons(mssval) - htons(maxmss), tc->check)` adds the change of the option's value
to the checksum as if that value were a word of the checksum sum. It is one when the option
starts at an even offset of the header. An option after an odd number of bytes of other options
(a single `NOP`, say) puts its value across two words, where it weighs `256` times as much
modulo `0xffff`. So the one's complement sum of the segment drops by `255` times the clamped
excess of the options at odd offsets, and a valid checksum stays valid only when that excess is
a multiple of `257` (`mss_fixup_dowork_residue`). -/

namespace OpenVpn

open OnesComplement

/-! ### The option walk -/

/-- The offsets, in the option bytes `o`, of the MSS options of length `TCPOLEN_MAXSEG` that the
loop of `mss_fixup_dowork` reaches, reading at most `fuel` options. -/
def mssOptionOffsetsAux : Nat → List UInt8 → List Nat
  | 0, _ => []
  | fuel + 1, kind :: len :: rest =>
      if kind.toNat = openvpnTcpoptEol then []
      else if kind.toNat = openvpnTcpoptNop then
        (mssOptionOffsetsAux fuel (len :: rest)).map (· + 1)
      else if len.toNat = 0 ∨ (kind :: len :: rest).length < len.toNat then []
      else
        (if kind.toNat = openvpnTcpoptMaxseg ∧ len.toNat = openvpnTcpolenMaxseg then [0] else []) ++
          (mssOptionOffsetsAux fuel ((kind :: len :: rest).drop len.toNat)).map (· + len.toNat)
  | _ + 1, _ => []

/-- The MSS options the loop reaches in the option bytes `o`; each option read is at least one
byte, so `o.length` options suffice. -/
def mssOptionOffsets (o : List UInt8) : List Nat := mssOptionOffsetsAux o.length o

/-- The value of the MSS option at offset `q` of the option bytes `o`, big-endian. -/
def mssValue (o : List UInt8) (q : Nat) : Nat := BigEndian.decode ((o.drop (q + 2)).take 2)

/-- What clamping to `maxmss` takes off the MSS options at the offsets `offs` of `o`. -/
def mssExcess (maxmss : Nat) (o : List UInt8) (offs : List Nat) : Nat :=
  (offs.map fun q => mssValue o q - min (mssValue o q) maxmss).sum

/-- The same, over the options at an odd offset from the start of the TCP header, which lies `p`
bytes before `o`. -/
def mssOddExcess (maxmss p : Nat) (o : List UInt8) (offs : List Nat) : Nat :=
  (offs.map fun q => if (p + q) % 2 = 1 then mssValue o q - min (mssValue o q) maxmss else 0).sum

section Walk

/-- Enough fuel gives the same walk. -/
theorem mssOptionOffsetsAux_fuel : ∀ {f g : Nat} {o : List UInt8}, o.length ≤ f → o.length ≤ g →
    mssOptionOffsetsAux f o = mssOptionOffsetsAux g o
  | 0, _, [], _, _ => by cases ‹Nat› <;> rfl
  | _ + 1, 0, [], _, _ => rfl
  | f + 1, g + 1, [], _, _ => rfl
  | _, _, [_], _, _ => by
      rename_i f g _ _ _
      cases f <;> cases g <;> rfl
  | 0, _, _ :: _ :: _, hf, _ => absurd hf (by simp)
  | _ + 1, 0, _ :: _ :: _, _, hg => absurd hg (by simp)
  | f + 1, g + 1, kind :: len :: rest, hf, hg => by
      simp only [List.length_cons] at hf hg
      -- after a `NOP`, and after an option of nonzero length, fewer bytes are left than fuel
      have htail : mssOptionOffsetsAux f (len :: rest) = mssOptionOffsetsAux g (len :: rest) :=
        mssOptionOffsetsAux_fuel (by simp; omega) (by simp; omega)
      have hdrop (hl : len.toNat ≠ 0) :
          mssOptionOffsetsAux f ((kind :: len :: rest).drop len.toNat) =
            mssOptionOffsetsAux g ((kind :: len :: rest).drop len.toNat) :=
        mssOptionOffsetsAux_fuel (by simp; omega) (by simp; omega)
      simp only [mssOptionOffsetsAux]
      split_ifs with h₁ h₂ h₃
      · rfl
      · rw [htail]
      · rfl
      all_goals rw [hdrop (by omega)]

theorem mssOptionOffsets_of_length_le {o : List UInt8} (h : o.length ≤ 1) : mssOptionOffsets o = [] := by
  match o, h with
  | [], _ => rfl
  | [_], _ => rfl

variable {kind len : UInt8} {rest : List UInt8}

theorem mssOptionOffsets_eol (hk : kind.toNat = openvpnTcpoptEol) :
    mssOptionOffsets (kind :: len :: rest) = [] := by
  simp [mssOptionOffsets, mssOptionOffsetsAux, hk]

theorem mssOptionOffsets_nop (hk : kind.toNat = openvpnTcpoptNop) :
    mssOptionOffsets (kind :: len :: rest) = (mssOptionOffsets (len :: rest)).map (· + 1) := by
  have hne : kind.toNat ≠ openvpnTcpoptEol := by rw [hk]; decide
  simp only [mssOptionOffsets, mssOptionOffsetsAux, if_neg hne, if_pos hk, List.length_cons]

theorem mssOptionOffsets_bad (hk : kind.toNat ≠ openvpnTcpoptEol) (hn : kind.toNat ≠ openvpnTcpoptNop)
    (hl : len.toNat = 0 ∨ (kind :: len :: rest).length < len.toNat) :
    mssOptionOffsets (kind :: len :: rest) = [] := by
  simp only [mssOptionOffsets, List.length_cons]
  rw [mssOptionOffsetsAux, if_neg hk, if_neg hn, if_pos hl]

/-- An option the loop steps over: its own offset if it is an MSS option of the right length,
then the options after it. -/
theorem mssOptionOffsets_option (hk : kind.toNat ≠ openvpnTcpoptEol) (hn : kind.toNat ≠ openvpnTcpoptNop)
    (hl : ¬(len.toNat = 0 ∨ (kind :: len :: rest).length < len.toNat)) :
    mssOptionOffsets (kind :: len :: rest) =
      (if kind.toNat = openvpnTcpoptMaxseg ∧ len.toNat = openvpnTcpolenMaxseg then [0] else []) ++
        (mssOptionOffsets ((kind :: len :: rest).drop len.toNat)).map (· + len.toNat) := by
  simp only [mssOptionOffsets, List.length_cons]
  rw [mssOptionOffsetsAux, if_neg hk, if_neg hn, if_neg hl, mssOptionOffsetsAux_fuel (g := ((kind :: len :: rest).drop len.toNat).length)
    (by rw [List.length_drop]; simp only [List.length_cons] at hl ⊢; omega) le_rfl]

end Walk

section Excess

variable {maxmss p len : Nat} {o : List UInt8}

theorem mssValue_drop (q : Nat) : mssValue (o.drop len) q = mssValue o (q + len) := by
  rw [mssValue, mssValue, List.drop_drop, show len + (q + 2) = q + len + 2 by omega]

/-- The excess of the options before an offset `len` and of those after it add up. -/
theorem mssExcess_append (offs₁ offs₂ : List Nat) :
    mssExcess maxmss o (offs₁ ++ offs₂.map (· + len)) =
      mssExcess maxmss o offs₁ + mssExcess maxmss (o.drop len) offs₂ := by
  simp only [mssExcess, List.map_append, List.map_map, List.sum_append, Function.comp_def,
    mssValue_drop]

theorem mssOddExcess_append (offs₁ offs₂ : List Nat) :
    mssOddExcess maxmss p o (offs₁ ++ offs₂.map (· + len)) =
      mssOddExcess maxmss p o offs₁ + mssOddExcess maxmss (p + len) (o.drop len) offs₂ := by
  simp only [mssOddExcess, List.map_append, List.map_map, List.sum_append, Function.comp_def,
    mssValue_drop]
  congr 2
  apply List.map_congr_left
  intro q _
  rw [show p + (q + len) = p + len + q by omega]

end Excess

/-! ### One MSS option -/

theorem toNat_mssval {hi lo : Nat} (hh : hi < 256) (hl : lo < 256) :
    ((UInt16.ofNat hi <<< 8) + UInt16.ofNat lo).toNat = hi * 256 + lo := by
  simp only [UInt16.toNat_add, UInt16.toNat_shiftLeft, UInt16.toNat_ofNat]
  simp [Nat.shiftLeft_eq]
  omega

theorem toNat_shiftRight_eight_and (x : UInt16) : ((x >>> 8) &&& 0xff).toNat = x.toNat / 256 := by
  simp [UInt16.toNat_and, UInt16.toNat_shiftRight, Nat.shiftRight_eq_div_pow]
  rw [Nat.and_two_pow_sub_one_eq_mod _ 8]
  have := x.toNat_lt
  omega

theorem toNat_and_ff (x : UInt16) : (x &&& 0xff).toNat = x.toNat % 256 := by
  simp [UInt16.toNat_and]
  exact Nat.and_two_pow_sub_one_eq_mod _ 8

section Maxseg

variable (check : Int) {opt : Int} (maxmss : UInt16) (bytes : List UInt8) (touched : List Int)

/-- `mss_fixup_dowork` on an MSS option of length `4` at `opt`, inside the memory: the value
`mssval` is read, and when it is above `maxmss` the two bytes of `maxmss` are stored over it and
the checksum at `check` is patched by `mssval - maxmss`. -/
theorem mssFixupMaxseg_eq (hopt : 0 ≤ opt) (hend : opt + 4 ≤ bytes.length) (hc : 0 ≤ check)
    (hcend : check + 2 ≤ bytes.length) :
    ∃ r, mssFixupMaxseg check maxmss opt ⟨bytes, touched⟩ = some r ∧
      (∀ j ∈ r.touched, j ∈ touched ∨ (opt ≤ j ∧ j < opt + 4) ∨ (check ≤ j ∧ j < check + 2)) ∧
      r.bytes = if maxmss.toNat < BigEndian.decode (fieldAt bytes (opt + 2) 2) then
        let clamped := (bytes.set (opt.toNat + 2) (UInt8.ofNat (maxmss.toNat / 256))).set
          (opt.toNat + 3) (UInt8.ofNat (maxmss.toNat % 256))
        let a := adjustChecksum (BigEndian.decode (fieldAt bytes (opt + 2) 2) - maxmss.toNat)
          (BigEndian.decode (fieldAt clamped check 2))
        (clamped.set check.toNat (UInt8.ofNat (a / 256))).set (check.toNat + 1) (UInt8.ofNat a)
      else bytes := by
  have hv := decode_fieldAt_two (B := bytes) (by omega : 0 ≤ opt + 2) (by omega)
  have hhi := decode_fieldAt_one_lt (B := bytes) (by omega : 0 ≤ opt + 2) (by omega)
  have hlo := decode_fieldAt_one_lt (B := bytes) (by omega : 0 ≤ opt + 2 + 1) (by omega)
  have h3 : opt + 2 + 1 = opt + 3 := by ring
  rw [h3] at hv hlo
  simp (disch := omega) only [mssFixupMaxseg, PacketMem.load_mk, Option.bind_eq_bind, Option.bind_some]
  simp only [gt_iff_lt, UInt16.lt_iff_toNat_lt, toNat_mssval hhi hlo, ← hv]
  split_ifs with hlt
  · rw [toNat_shiftRight_eight_and, toNat_and_ff]
    simp (disch := first | omega | (simp only [List.length_set]; omega)) only [PacketMem.store_one_mk,
      Option.bind_some, PacketMem.clientNatAdjust_mk]
    refine ⟨_, rfl, fun j hj => ?_, ?_⟩
    · by_cases hm : j ∈ touched
      · exact .inl hm
      · simp [hm] at hj
        omega
    · have h2 : (opt + 2).toNat = opt.toNat + 2 := by omega
      have h3 : (opt + 3).toNat = opt.toNat + 3 := by omega
      simp only [h2, h3]
  · refine ⟨_, rfl, fun j hj => ?_, rfl⟩
    by_cases hm : j ∈ touched
    · exact .inl hm
    · simp [hm] at hj
      omega

end Maxseg

/-- The word sum of a segment after an MSS value at index `i` was replaced by `[x, y]` and the
checksum word at index `16` by `[c₁, c₂]`, patched by the change of the value. At an even index
the sum is kept; at an odd index it changes by `255` times the change. -/
theorem wordSum_mssClamp_emod (W : List UInt8) {i : Nat} (x y c₁ c₂ : UInt8) (hi : 18 ≤ i)
    (hlen : i + 1 < W.length)
    (hck : (BigEndian.decode [c₁, c₂] : Int) % 0xffff =
      (BigEndian.decode ((W.drop 16).take 2) + BigEndian.decode ((W.drop i).take 2) -
        BigEndian.decode [x, y]) % 0xffff) :
    (wordSum ((((W.set i x).set (i + 1) y).set 16 c₁).set 17 c₂) : Int) % 0xffff =
      (wordSum W - (if i % 2 = 0 then 0 else 255) *
        ((BigEndian.decode ((W.drop i).take 2) : Int) - BigEndian.decode [x, y])) % 0xffff := by
  have hvalue := wordSum_set_set_emod W i x y hlen
  have hcheck := wordSum_set_set_emod ((W.set i x).set (i + 1) y) 16 c₁ c₂ (by simp; omega)
  -- the value lies after the checksum, which is read back unchanged
  have hold : (((W.set i x).set (i + 1) y).drop 16).take 2 = (W.drop 16).take 2 := by
    rw [List.drop_set, if_neg (by omega), List.drop_set, if_neg (by omega), List.take_set,
      List.take_set, List.set_eq_of_length_le (by simp; omega), List.set_eq_of_length_le (by simp; omega)]
  rw [hold, if_pos (by decide : 16 % 2 = 0)] at hcheck
  rw [hcheck]
  split_ifs at hvalue ⊢ with hev
  · omega
  · omega

/-! ### The option loop -/

/-- What the option loop leaves, from `m` to `m'`, for the MSS options at the offsets `offs` of
the option bytes `o` at `opt`, in the TCP segment of `n` bytes at `t`. -/
structure MssFixed (maxmss : Nat) (t : Int) (n : Nat) (opt : Int) (o : List UInt8) (offs : List Nat)
    (m m' : PacketMem) : Prop where
  length : m'.bytes.length = m.bytes.length
  /-- Only the checksum and the values of the options change. -/
  frame : ∀ j : Nat, (j : Int) ≠ t + 16 → (j : Int) ≠ t + 17 →
    (∀ q ∈ offs, (j : Int) ≠ opt + q + 2 ∧ (j : Int) ≠ opt + q + 3) → m'.bytes[j]? = m.bytes[j]?
  /-- Each value becomes `min(mssval, maxmss)`. -/
  clamp : ∀ q ∈ offs, fieldAt m'.bytes (opt + q + 2) 2 = BigEndian.encode 2 (min (mssValue o q) maxmss)
  /-- The checksum gains what clamping took off, modulo `0xffff`. -/
  check : (BigEndian.decode (fieldAt m'.bytes (t + 16) 2) : Int) % 0xffff =
    (BigEndian.decode (fieldAt m.bytes (t + 16) 2) + mssExcess maxmss o offs) % 0xffff
  /-- The one's complement sum of the segment loses `255` times the excess at odd offsets. -/
  residue : (wordSum (fieldAt m'.bytes t n) : Int) % 0xffff =
    ((wordSum (fieldAt m.bytes t n) : Int) - 255 * mssOddExcess maxmss (opt - t).toNat o offs) % 0xffff
  /-- Every access lies in the segment. -/
  touched : ∀ j ∈ m'.touched, j ∈ m.touched ∨ (t ≤ j ∧ j < t + n)

section Fixed

variable {maxmss : Nat} {t : Int} {n : Nat} {opt : Int} {o : List UInt8} {offs : List Nat}
  {m m₁ m' : PacketMem}

/-- A run of the loop that changes no byte. -/
theorem MssFixed.nil (hb : m'.bytes = m.bytes)
    (ht : ∀ j ∈ m'.touched, j ∈ m.touched ∨ (t ≤ j ∧ j < t + n)) : MssFixed maxmss t n opt o [] m m' where
  length := by rw [hb]
  frame _ _ _ _ := by rw [hb]
  clamp _ hq := absurd hq List.not_mem_nil
  check := by simp [hb, mssExcess]
  residue := by simp [hb, mssOddExcess]
  touched := ht

/-- Loads in front of a run of the loop. -/
theorem MssFixed.of_load (h : MssFixed maxmss t n opt o offs m₁ m') (hb : m₁.bytes = m.bytes)
    (ht : ∀ j ∈ m₁.touched, j ∈ m.touched ∨ (t ≤ j ∧ j < t + n)) : MssFixed maxmss t n opt o offs m m' where
  length := by rw [h.length, hb]
  frame j h16 h17 hq := by rw [h.frame j h16 h17 hq, hb]
  clamp := h.clamp
  check := by rw [← hb]; exact h.check
  residue := by rw [← hb]; exact h.residue
  touched j hj := (h.touched j hj).elim (ht j) .inr

/-- A run over the options before offset `l` of `o`, then a run over those after it. -/
theorem MssFixed.append {l : Nat} {offs₁ offs₂ : List Nat} (ht : 0 ≤ t) (hopt : t + 20 ≤ opt)
    (hq : ∀ q ∈ offs₁, q + 4 ≤ l) (h₁ : MssFixed maxmss t n opt o offs₁ m m₁)
    (h₂ : MssFixed maxmss t n (opt + l) (o.drop l) offs₂ m₁ m') :
    MssFixed maxmss t n opt o (offs₁ ++ offs₂.map (· + l)) m m' where
  length := h₂.length.trans h₁.length
  frame j h16 h17 hj := by
    rw [h₂.frame j h16 h17 fun q hq => ?_, h₁.frame j h16 h17 fun q hq => hj q (List.mem_append_left _ hq)]
    have := hj (q + l) (List.mem_append_right _ (List.mem_map_of_mem hq))
    push_cast at this
    constructor <;> omega
  clamp q hmem := by
    rcases List.mem_append.mp hmem with h₁q | h₂q
    · -- an option before `l` lies before every option after it
      rw [← h₁.clamp q h₁q]
      refine fieldAt_congr (by omega) fun j hj hj' => h₂.frame j (by omega) (by omega) fun q' _ => ?_
      have := hq q h₁q
      constructor <;> omega
    · obtain ⟨q', hq', rfl⟩ := List.mem_map.mp h₂q
      rw [show opt + ((q' + l : Nat) : Int) + 2 = opt + l + q' + 2 by push_cast; ring, h₂.clamp q' hq',
        mssValue_drop]
  check := by
    have h2 := h₂.check
    have h1 := h₁.check
    rw [mssExcess_append]
    push_cast
    omega
  residue := by
    have h2 := h₂.residue
    have h1 := h₁.residue
    rw [show (opt + l - t).toNat = (opt - t).toNat + l by omega] at h2
    rw [mssOddExcess_append]
    push_cast
    omega
  touched j hj := (h₂.touched j hj).elim (h₁.touched j) .inr

end Fixed

/-! ### One step of the loop -/

section Step

variable {maxmss : UInt16} {t : Int} {n k : Nat} {opt : Int} {bytes : List UInt8} {touched : List Int}
  {r : PacketMem}

theorem mssValue_fieldAt {q : Nat} (h₀ : 0 ≤ opt) (hq : q + 4 ≤ k) :
    mssValue (fieldAt bytes opt k) q = BigEndian.decode (fieldAt bytes (opt + q + 2) 2) := by
  rw [mssValue, fieldAt_drop_take h₀ (by omega)]
  congr 2
  push_cast
  ring

/-- An MSS option whose value was above `maxmss`: `maxmss` is stored over the value, as the two
bytes `[x, y]`, and the checksum word at `t + 16` is patched by the difference. -/
theorem MssFixed.of_clamp {clamped : List UInt8} {x y : UInt8} {a : Nat} (ht : 0 ≤ t)
    (hopt : t + 20 ≤ opt) (hk : 4 ≤ k) (hend : opt + k ≤ t + n) (hn : t + n ≤ bytes.length)
    (hlt : maxmss.toNat < BigEndian.decode (fieldAt bytes (opt + 2) 2))
    (hcl : clamped = (bytes.set (opt.toNat + 2) x).set (opt.toNat + 3) y)
    (hx : BigEndian.decode [x, y] = maxmss.toNat)
    (ha : a = adjustChecksum (BigEndian.decode (fieldAt bytes (opt + 2) 2) - maxmss.toNat)
      (BigEndian.decode (fieldAt clamped (t + 16) 2)))
    (hbytes : r.bytes = (clamped.set (t + 16).toNat (UInt8.ofNat (a / 256))).set ((t + 16).toNat + 1)
      (UInt8.ofNat a))
    (htouched : ∀ j ∈ r.touched, j ∈ touched ∨ (t ≤ j ∧ j < t + n)) :
    MssFixed maxmss.toNat t n opt (fieldAt bytes opt k) [0] ⟨bytes, touched⟩ r := by
  have hv : mssValue (fieldAt bytes opt k) 0 = BigEndian.decode (fieldAt bytes (opt + 2) 2) := by
    rw [mssValue_fieldAt (by omega) hk, Nat.cast_zero, add_zero]
  have hvlt : BigEndian.decode (fieldAt bytes (opt + 2) 2) < 2 ^ 16 := by
    have := BigEndian.decode_lt (fieldAt bytes (opt + 2) 2)
    rwa [length_fieldAt (by omega) (by omega)] at this
  have hcklt : BigEndian.decode (fieldAt bytes (t + 16) 2) < 2 ^ 16 := by
    have := BigEndian.decode_lt (fieldAt bytes (t + 16) 2)
    rwa [length_fieldAt (by omega) (by omega)] at this
  have hlen : clamped.length = bytes.length := by simp [hcl]
  -- the checksum is read after the value was stored, and is the one of the segment
  have hck : fieldAt clamped (t + 16) 2 = fieldAt bytes (t + 16) 2 := by
    rw [hcl, fieldAt_set_of_le (by omega), fieldAt_set_of_le (by omega)]
  have hadec : BigEndian.decode [UInt8.ofNat (a / 256), UInt8.ofNat a] = a := by
    have := BigEndian.decode_encode 2 a (ha ▸ adjustChecksum_lt _ _)
    simpa [BigEndian.encode] using this
  have hadj : (a : Int) % 0xffff =
      (BigEndian.decode (fieldAt bytes (t + 16) 2) +
        ((BigEndian.decode (fieldAt bytes (opt + 2) 2) : Int) - maxmss.toNat)) % 0xffff := by
    rw [ha, hck, adjustChecksum_emod (by omega) (by omega)]
  refine ⟨by simp [hbytes, hlen], fun j h16 h17 hq => ?_, fun q hq => ?_, ?_, ?_, htouched⟩
  · -- frame
    obtain ⟨h2, h3⟩ := hq 0 (List.mem_singleton_self 0)
    rw [hbytes, List.getElem?_set_ne (by omega), List.getElem?_set_ne (by omega), hcl,
      List.getElem?_set_ne (by omega), List.getElem?_set_ne (by omega)]
  · -- clamp
    obtain rfl := List.mem_singleton.mp hq
    have hxy : BigEndian.encode 2 maxmss.toNat = [x, y] := by
      rw [← hx]
      exact BigEndian.encode_decode [x, y]
    have hfield := fieldAt_set_set_two (B := bytes) (i := opt + 2) (by omega) (by omega) x y
    rw [show (opt + 2).toNat = opt.toNat + 2 by omega] at hfield
    rw [hv, Nat.min_eq_right hlt.le, hxy, hbytes, Nat.cast_zero, add_zero, fieldAt_set_of_lt (by omega),
      fieldAt_set_of_lt (by omega), hcl]
    exact hfield
  · -- check
    rw [hbytes, fieldAt_set_set_two (B := clamped) (by omega) (by omega), hadec]
    simp only [mssExcess, List.map_cons, List.map_nil, List.sum_cons, List.sum_nil, hv,
      Nat.min_eq_right hlt.le]
    omega
  · -- residue
    have e₁ : (t + 16).toNat = t.toNat + 16 := by omega
    rw [hbytes, hcl, e₁]
    simp (disch := omega) only [fieldAt_set]
    rw [show t.toNat + 16 - t.toNat = 16 by omega, show t.toNat + 16 + 1 - t.toNat = 17 by omega,
      show opt.toNat + 3 - t.toNat = opt.toNat + 2 - t.toNat + 1 by omega]
    have hW16 := fieldAt_drop_take (B := bytes) (j := 16) (l := 2) ht (k := n) (by omega)
    have hWi := fieldAt_drop_take (B := bytes) (j := opt.toNat + 2 - t.toNat) (l := 2) ht (k := n)
      (by omega)
    rw [show t + ((opt.toNat + 2 - t.toNat : Nat) : Int) = opt + 2 by omega] at hWi
    have hsum := wordSum_mssClamp_emod (fieldAt bytes t n) (i := opt.toNat + 2 - t.toNat) x y
      (UInt8.ofNat (a / 256)) (UInt8.ofNat a) (by omega) (by rw [length_fieldAt ht hn]; omega)
      (by rw [hW16, hWi, hadec, hx]; push_cast at hadj ⊢; omega)
    rw [hsum, hWi, hx]
    simp only [mssOddExcess, List.map_cons, List.map_nil, List.sum_cons, List.sum_nil, hv, add_zero,
      Nat.min_eq_right hlt.le]
    split_ifs <;> omega

/-- An MSS option of length `4` in the segment, after the checksum: one step of the loop. -/
theorem mssFixupMaxseg_fixed (maxmss : UInt16) (bytes : List UInt8) (touched : List Int) (ht : 0 ≤ t) (hopt : t + 20 ≤ opt) (hk : 4 ≤ k) (hend : opt + k ≤ t + n)
    (hn : t + n ≤ bytes.length) :
    ∃ r, mssFixupMaxseg (t + 16) maxmss opt ⟨bytes, touched⟩ = some r ∧
      MssFixed maxmss.toNat t n opt (fieldAt bytes opt k) [0] ⟨bytes, touched⟩ r := by
  obtain ⟨r, hr, htouch, hbytes⟩ := mssFixupMaxseg_eq (t + 16) maxmss bytes touched (by omega : 0 ≤ opt)
    (by omega) (by omega) (by omega)
  have htouched : ∀ j ∈ r.touched, j ∈ touched ∨ (t ≤ j ∧ j < t + n) := fun j hj => by
    rcases htouch j hj with h | h | h
    · exact .inl h
    · exact .inr (by omega)
    · exact .inr (by omega)
  refine ⟨r, hr, ?_⟩
  split_ifs at hbytes with hlt
  · -- `mssval > maxmss`: the two bytes of `maxmss` are `maxmss` again
    have hx : BigEndian.decode [UInt8.ofNat (maxmss.toNat / 256), UInt8.ofNat (maxmss.toNat % 256)] =
        maxmss.toNat := by
      have := maxmss.toNat_lt
      simp only [BigEndian.decode, List.foldl_cons, List.foldl_nil, UInt8.toNat_ofNat']
      omega
    exact MssFixed.of_clamp ht hopt hk hend hn hlt rfl hx rfl hbytes htouched
  · -- the value is kept, and so is every byte
    have hv : mssValue (fieldAt bytes opt k) 0 = BigEndian.decode (fieldAt bytes (opt + 2) 2) := by
      rw [mssValue_fieldAt (by omega) hk, Nat.cast_zero, add_zero]
    have hkeep : mssValue (fieldAt bytes opt k) 0 - min (mssValue (fieldAt bytes opt k) 0) maxmss.toNat = 0 := by
      omega
    refine ⟨by rw [hbytes], fun j _ _ _ => by rw [hbytes], fun q hq => ?_, ?_, ?_, htouched⟩
    · obtain rfl := List.mem_singleton.mp hq
      have hdec := BigEndian.encode_decode (fieldAt bytes (opt + 2) 2)
      rw [length_fieldAt (by omega) (by omega)] at hdec
      rw [hv, Nat.min_eq_left (by omega), hbytes, Nat.cast_zero, add_zero, hdec]
    · simp [mssExcess, hbytes, hkeep]
    · simp [mssOddExcess, hbytes, hkeep]

end Step

/-! ### The whole loop -/

section Loop

variable {maxmss : UInt16} {t : Int} {n : Nat}

/-- A load of the option loop, inside the segment. -/
theorem load_within {m m₁ : PacketMem} {i : Int} {k v : Nat} (h : m.load i k = some (v, m₁))
    (hlo : t ≤ i) (hhi : i + k ≤ t + n) : ∀ j ∈ m₁.touched, j ∈ m.touched ∨ (t ≤ j ∧ j < t + n) :=
  fun j hj => (PacketMem.load_touched h j hj).imp_right fun h => ⟨by omega, by omega⟩

/-- The two bytes the loop reads first from `olen > 1` bytes of options in the segment. -/
theorem mssLoop_window {m : PacketMem} {opt olen : Int} (ht : 0 ≤ t) (hopt : t + 20 ≤ opt)
    (hend : opt + olen ≤ t + n) (hn : t + n ≤ m.bytes.length) (h1 : 1 < olen) :
    ∃ a b rest, fieldAt m.bytes opt olen.toNat = a :: b :: rest ∧
      (a :: b :: rest).length = olen.toNat ∧ BigEndian.decode (fieldAt m.bytes opt 1) = a.toNat ∧
      BigEndian.decode (fieldAt m.bytes (opt + 1) 1) = b.toNat := by
  have hlen : (fieldAt m.bytes opt olen.toNat).length = olen.toNat := length_fieldAt (by omega) (by omega)
  obtain ⟨a, b, rest, ho⟩ := exists_cons_cons (l := fieldAt m.bytes opt olen.toNat) (by omega)
  exact ⟨a, b, rest, ho, ho ▸ hlen, decode_fieldAt_kind_len (by omega) (by omega) ho⟩

/-- The loop over the options from `opt`, `olen` bytes of them, in the segment of `n` bytes at `t`
after its fixed header: it does not fault, and it clamps the MSS options of the walk
`mssOptionOffsets` of these bytes. The induction follows the loop's own recursion. -/
theorem mssFixupLoop_fixed (maxmss : UInt16) (ht : 0 ≤ t) (opt olen : Int) (m : PacketMem) (hopt : t + 20 ≤ opt)
    (hend : opt + olen ≤ t + n) (hn : t + n ≤ m.bytes.length) :
    ∃ m', mssFixupLoop (t + 16) maxmss opt olen m = some m' ∧
      MssFixed maxmss.toNat t n opt (fieldAt m.bytes opt olen.toNat)
        (mssOptionOffsets (fieldAt m.bytes opt olen.toNat)) m m' := by
  fun_induction mssFixupLoop (t + 16) maxmss opt olen m with
  | case1 opt olen m h1 hload => exact absurd hload (PacketMem.load_ne_none (by omega) (by omega))
  | case2 opt olen m h1 m₁ hload =>
      -- `EOL`
      obtain ⟨a, b, rest, ho, -, hka, -⟩ := mssLoop_window ht hopt hend hn h1
      refine ⟨m₁, rfl, ?_⟩
      rw [ho, mssOptionOffsets_eol ((PacketMem.load_value hload).trans hka).symm]
      exact MssFixed.nil (PacketMem.load_bytes hload) (load_within hload (by omega) (by omega))
  | case3 opt olen m h1 m₁ hload hne ih =>
      -- `NOP`: the loop goes on one byte further
      obtain ⟨a, b, rest, ho, -, hka, -⟩ := mssLoop_window ht hopt hend hn h1
      have hb₁ := PacketMem.load_bytes hload
      obtain ⟨m', hm', hfix⟩ := ih (by omega) (by omega) (by rw [hb₁]; omega)
      refine ⟨m', hm', ?_⟩
      have hrest : fieldAt m₁.bytes (opt + 1) (olen - 1).toNat = (fieldAt m.bytes opt olen.toNat).drop 1 := by
        rw [hb₁, show (olen - 1).toNat = olen.toNat - 1 by omega, ← fieldAt_rest (by omega) (by omega),
          Nat.cast_one]
      rw [hrest, ho] at hfix
      rw [ho, mssOptionOffsets_nop ((PacketMem.load_value hload).trans hka).symm]
      have := MssFixed.append (l := 1) ht hopt (by simp)
        (MssFixed.nil hb₁ (load_within hload (by omega) (by omega))) hfix
      rwa [List.nil_append] at this
  | case4 opt olen m h1 kind m₁ hload hne₁ hne₂ hload₂ =>
      have hb₁ := PacketMem.load_bytes hload
      exact absurd hload₂ (PacketMem.load_ne_none (by omega) (by rw [hb₁]; omega))
  | case5 opt olen m h1 kind m₁ hload hne₁ hne₂ optlen m₂ hload₂ hbad =>
      -- a length of zero or past the options ends the loop
      obtain ⟨a, b, rest, ho, hlen, hka, hkb⟩ := mssLoop_window ht hopt hend hn h1
      have hb₁ := PacketMem.load_bytes hload
      have hk : kind = a.toNat := (PacketMem.load_value hload).trans hka
      have hl : optlen = b.toNat := (PacketMem.load_value hload₂).trans (by rw [hb₁, hkb])
      refine ⟨m₂, rfl, ?_⟩
      rw [ho, mssOptionOffsets_bad (by omega) (by omega) (by rw [hlen]; omega)]
      exact MssFixed.nil ((PacketMem.load_bytes hload₂).trans hb₁) fun j hj =>
        (load_within hload₂ (by omega) (by omega) j hj).elim
          (load_within hload (by omega) (by omega) j) .inr
  | case6 opt olen m h1 kind m₁ hload hne₁ hne₂ optlen m₂ hload₂ hgood hmss hnone =>
      have hb₂ : m₂.bytes = m.bytes := (PacketMem.load_bytes hload₂).trans (PacketMem.load_bytes hload)
      have h4 : optlen = 4 := hmss.2
      obtain ⟨r, hr, -⟩ := mssFixupMaxseg_fixed maxmss m₂.bytes m₂.touched
        (n := n) (k := olen.toNat) ht hopt (by omega) (by omega) (by rw [hb₂]; omega)
      rw [show (⟨m₂.bytes, m₂.touched⟩ : PacketMem) = m₂ from rfl, hnone] at hr
      cases hr
  | case7 opt olen m h1 kind m₁ hload hne₁ hne₂ optlen m₂ hload₂ hgood hmss m₃ hsome ih =>
      -- an MSS option of length 4: clamped, then the loop goes on after it
      obtain ⟨a, b, rest, ho, hlen, hka, hkb⟩ := mssLoop_window ht hopt hend hn h1
      have hb₁ := PacketMem.load_bytes hload
      have hb₂ : m₂.bytes = m.bytes := (PacketMem.load_bytes hload₂).trans hb₁
      have hk : kind = a.toNat := (PacketMem.load_value hload).trans hka
      have hl : optlen = b.toNat := (PacketMem.load_value hload₂).trans (by rw [hb₁, hkb])
      have h4 : optlen = 4 := hmss.2
      obtain ⟨r, hr, hfix₀⟩ := mssFixupMaxseg_fixed maxmss m₂.bytes m₂.touched
        (n := n) (k := olen.toNat) ht hopt (by omega) (by omega) (by rw [hb₂]; omega)
      obtain rfl : r = m₃ := Option.some.inj (hr.symm.trans hsome)
      obtain ⟨m', hm', hfix⟩ := ih (by omega) (by omega) (by rw [hfix₀.length, hb₂]; omega)
      refine ⟨m', hm', ?_⟩
      -- the clamp changed nothing after the option
      have hrest : fieldAt r.bytes (opt + optlen) (olen - optlen).toNat =
          (fieldAt m.bytes opt olen.toNat).drop optlen := by
        rw [fieldAt_congr (by omega) fun j hj _ => hfix₀.frame j (by omega) (by omega) fun q hq => by
            obtain rfl := List.mem_singleton.mp hq
            constructor <;> omega,
          hb₂, show (olen - optlen).toNat = olen.toNat - optlen by omega, fieldAt_rest (by omega) (by omega)]
      have hw₂ : fieldAt m₂.bytes opt olen.toNat = a :: b :: rest := by rw [hb₂, ho]
      rw [hrest, ho] at hfix
      rw [hw₂] at hfix₀
      rw [ho, mssOptionOffsets_option (by omega) (by omega) (by rw [hlen]; omega),
        if_pos ⟨by omega, by omega⟩, ← hl]
      exact (MssFixed.append ht hopt (fun q hq => by rw [List.mem_singleton.mp hq]; omega) hfix₀ hfix).of_load
        hb₂ fun j hj => (load_within hload₂ (by omega) (by omega) j hj).elim
          (load_within hload (by omega) (by omega) j) .inr
  | case8 opt olen m h1 kind m₁ hload hne₁ hne₂ optlen m₂ hload₂ hgood hother ih =>
      -- another option: the loop goes on after it
      obtain ⟨a, b, rest, ho, hlen, hka, hkb⟩ := mssLoop_window ht hopt hend hn h1
      have hb₁ := PacketMem.load_bytes hload
      have hb₂ : m₂.bytes = m.bytes := (PacketMem.load_bytes hload₂).trans hb₁
      have hk : kind = a.toNat := (PacketMem.load_value hload).trans hka
      have hl : optlen = b.toNat := (PacketMem.load_value hload₂).trans (by rw [hb₁, hkb])
      obtain ⟨m', hm', hfix⟩ := ih (by omega) (by omega) (by rw [hb₂]; omega)
      refine ⟨m', hm', ?_⟩
      have hrest : fieldAt m₂.bytes (opt + optlen) (olen - optlen).toNat =
          (fieldAt m.bytes opt olen.toNat).drop optlen := by
        rw [hb₂, show (olen - optlen).toNat = olen.toNat - optlen by omega, fieldAt_rest (by omega) (by omega)]
      rw [hrest, ho] at hfix
      rw [ho, mssOptionOffsets_option (by omega) (by omega) (by rw [hlen]; omega), if_neg (by omega),
        List.nil_append, ← hl]
      have := MssFixed.append (l := optlen) ht hopt (by simp)
        (MssFixed.nil hb₂ fun j hj => (load_within hload₂ (by omega) (by omega) j hj).elim
          (load_within hload (by omega) (by omega) j) .inr) hfix
      rwa [List.nil_append] at this
  | case9 opt olen m h1 =>
      -- at most one byte of options left
      refine ⟨m, rfl, ?_⟩
      have hshort : (fieldAt m.bytes opt olen.toNat).length ≤ 1 :=
        (List.length_take_le _ _).trans (by omega)
      rw [mssOptionOffsets_of_length_le hshort]
      exact MssFixed.nil rfl fun j hj => .inl hj

end Loop

/-! ### `mss_fixup_dowork` -/

/-- The TCP options `mss_fixup_dowork` walks in the segment at `BPTR(buf)`: none when `BLEN(buf)`
is below the fixed header, or the data offset gives no options or more bytes than the segment. -/
def mssOptionBytes (bytes : List UInt8) (buf : Buffer) : List UInt8 :=
  if bufLen buf < sizeofTcphdr then []
  else
    let hlen : Int := openvpnTcphGetDoff (BigEndian.decode (fieldAt bytes (buf.offset + 12) 1))
    if hlen ≤ sizeofTcphdr ∨ bufLen buf < hlen then []
    else fieldAt bytes (buf.offset + sizeofTcphdr) (hlen - sizeofTcphdr).toNat

section Dowork

variable {buf : Buffer} (maxmss : UInt16) {m : PacketMem}

/-- `mss_fixup_dowork` on a segment inside the memory: it does not fault, and it clamps the MSS
options of the walk of the options its header gives. -/
theorem mssFixupDowork_fixed (h₀ : 0 ≤ buf.offset) (hin : buf.offset + bufLen buf ≤ m.bytes.length) :
    ∃ m', mssFixupDowork buf maxmss m = some m' ∧
      MssFixed maxmss.toNat buf.offset (bufLen buf).toNat (buf.offset + 20) (mssOptionBytes m.bytes buf)
        (mssOptionOffsets (mssOptionBytes m.bytes buf)) m m' := by
  have hL := bufLen_nonneg buf
  unfold mssFixupDowork mssOptionBytes
  split_ifs with hshort
  · exact ⟨m, rfl, MssFixed.nil rfl fun j hj => .inl hj⟩
  · have hbptr := bufBptr_of_bufLen_pos (b := buf) (by rw [sizeofTcphdr] at hshort; omega)
    have h20 : (sizeofTcphdr : Int) = 20 := rfl
    simp only [hbptr, PacketMem.load_eq (m := m) (n := 1) (by omega : 0 ≤ buf.offset + 12) (by omega),
      Option.bind_eq_bind, Option.bind_some]
    generalize (openvpnTcphGetDoff (BigEndian.decode (fieldAt m.bytes (buf.offset + 12) 1)) : Int) = hlen
    -- the load of the data offset, inside the segment
    have hload : ∀ j ∈ m.touched ++ (List.range 1).map (fun k : Nat => buf.offset + 12 + k),
        j ∈ m.touched ∨ (buf.offset ≤ j ∧ j < buf.offset + (bufLen buf).toNat) := fun j hj => by
      simp only [List.mem_append, List.mem_map, List.mem_range] at hj
      rcases hj with hj | ⟨k, hk, rfl⟩
      · exact .inl hj
      · exact .inr (by omega)
    by_cases hbad : hlen ≤ sizeofTcphdr ∨ bufLen buf < hlen
    · -- no options to walk
      rw [if_pos hbad, if_pos hbad]
      exact ⟨_, rfl, MssFixed.nil rfl hload⟩
    · rw [if_neg hbad, if_neg hbad]
      let m₁ : PacketMem :=
        { m with touched := m.touched ++ (List.range 1).map fun k : Nat => buf.offset + 12 + k }
      obtain ⟨m', hm', hfix⟩ := mssFixupLoop_fixed maxmss (n := (bufLen buf).toNat) h₀
        (buf.offset + sizeofTcphdr) (hlen - sizeofTcphdr) m₁ (by omega) (by omega) (by simp only [m₁]; omega)
      exact ⟨m', hm', hfix.of_load rfl hload⟩

/-- A SYN segment of 28 bytes whose options are a `NOP`, then an MSS option of `1460`, at offset
21 of the header. -/
def mssNopSynSegment : List UInt8 :=
  [0x30, 0x39, 0x00, 0x50, 0, 0, 0, 1, 0, 0, 0, 0, 0x70, 0x02, 0xff, 0xff, 0, 0, 0, 0,
    1, 2, 4, 0x05, 0xB4, 1, 1, 0]

/-- The buffer of that segment. -/
def mssNopSynBuffer : Buffer := Buffer.ofBytes mssNopSynSegment

/-- `mss_fixup_dowork` on a segment inside the memory does not fault and reads and writes the
segment only; it changes the checksum and the values of the MSS options its walk reaches, and
nothing else, and each of those values becomes `min(mssval, maxmss)`. -/
theorem mss_fixup_dowork_clamps (h₀ : 0 ≤ buf.offset) (hin : buf.offset + bufLen buf ≤ m.bytes.length) :
    ∃ m', mssFixupDowork buf maxmss m = some m' ∧ m'.bytes.length = m.bytes.length ∧
      (∀ j : Nat, (j : Int) ≠ buf.offset + 16 → (j : Int) ≠ buf.offset + 17 →
        (∀ q ∈ mssOptionOffsets (mssOptionBytes m.bytes buf),
          (j : Int) ≠ buf.offset + 20 + q + 2 ∧ (j : Int) ≠ buf.offset + 20 + q + 3) →
        m'.bytes[j]? = m.bytes[j]?) ∧
      (∀ q ∈ mssOptionOffsets (mssOptionBytes m.bytes buf),
        fieldAt m'.bytes (buf.offset + 20 + q + 2) 2 =
          BigEndian.encode 2 (min (mssValue (mssOptionBytes m.bytes buf) q) maxmss.toNat)) ∧
      ∀ j ∈ m'.touched, j ∈ m.touched ∨ (buf.offset ≤ j ∧ j < buf.offset + bufLen buf) := by
  obtain ⟨m', hm', h⟩ := mssFixupDowork_fixed maxmss h₀ hin
  have hL := bufLen_nonneg buf
  exact ⟨m', hm', h.length, h.frame, h.clamp, fun j hj =>
    (h.touched j hj).imp_right fun hj => ⟨hj.1, by omega⟩⟩

/-- The MSS option after the `NOP`, whose value is at byte 23, is clamped from 1460 to 1400. -/
theorem mss_fixup_dowork_clamps_nop_mss :
    0 ≤ mssNopSynBuffer.offset ∧ mssNopSynBuffer.offset + bufLen mssNopSynBuffer ≤ mssNopSynSegment.length ∧
      ∃ m', mssFixupDowork mssNopSynBuffer 1400 ⟨mssNopSynSegment, []⟩ = some m' ∧
        fieldAt m'.bytes 23 2 = BigEndian.encode 2 1400 := by
  obtain ⟨m', hm', -, -, hclamp, -⟩ :=
    mss_fixup_dowork_clamps 1400 (m := ⟨mssNopSynSegment, []⟩)
      (show (0 : Int) ≤ mssNopSynBuffer.offset by decide) (by decide)
  have hq : 1 ∈ mssOptionOffsets (mssOptionBytes mssNopSynSegment mssNopSynBuffer) := by decide
  have hv : mssValue (mssOptionBytes mssNopSynSegment mssNopSynBuffer) 1 = 1460 := by decide
  have h := hclamp 1 hq
  rw [hv] at h
  exact ⟨by decide, by decide, m', hm', h⟩

/-- `ADJUST_CHECKSUM` adds to the TCP checksum, modulo `0xffff`, everything the clamping took off
the MSS options. -/
theorem mss_fixup_dowork_checksum (h₀ : 0 ≤ buf.offset)
    (hin : buf.offset + bufLen buf ≤ m.bytes.length) :
    ∃ m', mssFixupDowork buf maxmss m = some m' ∧
      (BigEndian.decode (fieldAt m'.bytes (buf.offset + 16) 2) : Int) % 0xffff =
        (BigEndian.decode (fieldAt m.bytes (buf.offset + 16) 2) +
          mssExcess maxmss.toNat (mssOptionBytes m.bytes buf)
            (mssOptionOffsets (mssOptionBytes m.bytes buf))) % 0xffff := by
  obtain ⟨m', hm', h⟩ := mssFixupDowork_fixed maxmss h₀ hin
  exact ⟨m', hm', h.check⟩

/-- Clamping 1460 to 1400 adds 60 to the checksum, here `0`, of the `NOP`-led segment. -/
theorem mss_fixup_dowork_checksum_nop_mss :
    0 ≤ mssNopSynBuffer.offset ∧ mssNopSynBuffer.offset + bufLen mssNopSynBuffer ≤ mssNopSynSegment.length ∧
      ∃ m', mssFixupDowork mssNopSynBuffer 1400 ⟨mssNopSynSegment, []⟩ = some m' ∧
        (BigEndian.decode (fieldAt m'.bytes 16 2) : Int) % 0xffff = 60 := by
  obtain ⟨m', hm', h⟩ :=
    mss_fixup_dowork_checksum 1400 (m := ⟨mssNopSynSegment, []⟩)
      (show (0 : Int) ≤ mssNopSynBuffer.offset by decide) (by decide)
  have hck : BigEndian.decode (fieldAt mssNopSynSegment (mssNopSynBuffer.offset + 16) 2) = 0 := by
    decide
  have hex : mssExcess (1400 : UInt16).toNat (mssOptionBytes mssNopSynSegment mssNopSynBuffer)
      (mssOptionOffsets (mssOptionBytes mssNopSynSegment mssNopSynBuffer)) = 60 := by decide
  rw [hck, hex] at h
  exact ⟨by decide, by decide, m', hm', h⟩

/-- A segment whose TCP checksum verifies, with `pseudo` the sum of its pseudo header, still
verifies after `mss_fixup_dowork` exactly when the excess clamped off the MSS options at odd
offsets of the header is a multiple of `257`. -/
theorem mss_fixup_dowork_checksum_valid_iff (h₀ : 0 ≤ buf.offset)
    (hin : buf.offset + bufLen buf ≤ m.bytes.length) (pseudo : Nat)
    (hvalid : (pseudo + wordSum (fieldAt m.bytes buf.offset (bufLen buf).toNat)) % 0xffff = 0) :
    ∃ m', mssFixupDowork buf maxmss m = some m' ∧
      ((pseudo + wordSum (fieldAt m'.bytes buf.offset (bufLen buf).toNat)) % 0xffff = 0 ↔
        257 ∣ mssOddExcess maxmss.toNat 20 (mssOptionBytes m.bytes buf)
          (mssOptionOffsets (mssOptionBytes m.bytes buf))) := by
  obtain ⟨m', hm', h⟩ := mssFixupDowork_fixed maxmss h₀ hin
  have hres := h.residue
  rw [show (buf.offset + 20 - buf.offset).toNat = 20 by omega] at hres
  refine ⟨m', hm', ?_⟩
  -- `0xffff = 255 * 257`: the sum is kept modulo `0xffff` iff `255 * excess` is
  omega

/-- With `maxmss = 1400` the segment's checksum, valid for a pseudo header of sum `42346`, is no
longer valid after the clamp: `60` is not a multiple of `257`. -/
theorem mss_fixup_dowork_breaks_nop_mss :
    0 ≤ mssNopSynBuffer.offset ∧
      mssNopSynBuffer.offset + bufLen mssNopSynBuffer ≤ mssNopSynSegment.length ∧
      (42346 + wordSum (fieldAt mssNopSynSegment mssNopSynBuffer.offset
        (bufLen mssNopSynBuffer).toNat)) % 0xffff = 0 ∧
      ∃ m', mssFixupDowork mssNopSynBuffer 1400 ⟨mssNopSynSegment, []⟩ = some m' ∧
        (42346 + wordSum (fieldAt m'.bytes mssNopSynBuffer.offset
          (bufLen mssNopSynBuffer).toNat)) % 0xffff ≠ 0 := by
  have hvalid : (42346 + wordSum (fieldAt mssNopSynSegment mssNopSynBuffer.offset
      (bufLen mssNopSynBuffer).toNat)) % 0xffff = 0 := by decide
  obtain ⟨m', hm', hiff⟩ := mss_fixup_dowork_checksum_valid_iff 1400 (m := ⟨mssNopSynSegment, []⟩) (by decide) (by decide) 42346 hvalid
  refine ⟨by decide, by decide, hvalid, m', hm', fun h => ?_⟩
  have hodd : ¬257 ∣ mssOddExcess (1400 : UInt16).toNat 20 (mssOptionBytes mssNopSynSegment mssNopSynBuffer)
      (mssOptionOffsets (mssOptionBytes mssNopSynSegment mssNopSynBuffer)) := by decide
  exact hodd (hiff.mp h)

end Dowork

end OpenVpn
