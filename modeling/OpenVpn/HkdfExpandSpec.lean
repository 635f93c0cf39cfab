import OpenVpn.HkdfExpand

/-! `ovpn_hkdf_expand` against HKDF-Expand of RFC 5869 (section 2.3), over an arbitrary
HMAC-SHA256. While at most 254 blocks are needed (`out_len ≤ 254 * 32`) the loop writes exactly
`out[0, out_len)`, with the first `out_len` bytes of `T(1) | T(2) | ...`, and leaves the rest of the
array. From 255 blocks on, the `uint8_t` counter wraps to `0` after block 255, the loop condition
`(0 - 1) * 32 < out_len` still holds, and the next `memcpy` writes `32` bytes before `out`. -/

namespace OpenVpn

section Rfc5869

variable (hmac : List UInt8 → List UInt8 → Vector UInt8 32) (secret info : List UInt8)

/-- `T(i)` of RFC 5869: `T(0)` is empty, `T(i) = HMAC(PRK, T(i - 1) | info | i)`. -/
def hkdfT : Nat → List UInt8
  | 0 => []
  | i + 1 => (hmac secret (hkdfT i ++ info ++ [UInt8.ofNat (i + 1)])).toList

/-- `T(1) | T(2) | ... | T(k)`. -/
def hkdfBlocks : Nat → List UInt8
  | 0 => []
  | k + 1 => hkdfBlocks k ++ hkdfT hmac secret info (k + 1)

/-- `OKM = HKDF-Expand(PRK, info, L)`: the first `L` octets of `T(1) | ... | T(N)`, with
`N = ceil(L / HashLen)`. -/
def hkdfExpand (L : Nat) : List UInt8 := (hkdfBlocks hmac secret info ((L + 31) / 32)).take L

@[simp] theorem length_hkdfT_succ (i : Nat) : (hkdfT hmac secret info (i + 1)).length = 32 := by
  simp [hkdfT]

@[simp] theorem length_hkdfBlocks (k : Nat) : (hkdfBlocks hmac secret info k).length = 32 * k := by
  induction k with
  | zero => rfl
  | succ k ih => simp [hkdfBlocks, ih]; omega

/-- More blocks do not change a prefix the fewer blocks already cover: `OKM` is the first `L`
bytes of every long enough `T(1) | ... | T(k)`. -/
theorem take_hkdfBlocks_of_le {L k k' : Nat} (hk : k ≤ k') (hL : L ≤ 32 * k) :
    (hkdfBlocks hmac secret info k').take L = (hkdfBlocks hmac secret info k).take L := by
  induction k', hk using Nat.le_induction with
  | base => rfl
  | succ k' hk ih =>
      have hlen : L ≤ (hkdfBlocks hmac secret info k').length := by
        rw [length_hkdfBlocks]; omega
      rw [hkdfBlocks, List.take_append_of_le_length hlen, ih]

theorem hkdfExpand_eq_take {L k : Nat} (hL : L ≤ 32 * k) :
    hkdfExpand hmac secret info L = (hkdfBlocks hmac secret info k).take L := by
  by_cases hk : (L + 31) / 32 ≤ k
  · rw [hkdfExpand, take_hkdfBlocks_of_le hmac secret info hk (by omega)]
  · rw [hkdfExpand, ← take_hkdfBlocks_of_le hmac secret info (by omega) hL]

@[simp] theorem length_hkdfExpand (L : Nat) : (hkdfExpand hmac secret info L).length = L := by
  simp [hkdfExpand]; omega

end Rfc5869

section Loop

variable (hmac : List UInt8 → List UInt8 → Vector UInt8 32) (secret info out : List UInt8)
  (L : Nat)

/-- The caller's array after `k` rounds: the first `min (32 * k) L` bytes of the output, the rest
of `out` as it was. -/
def hkdfOut (k : Nat) : List UInt8 :=
  (hkdfBlocks hmac secret info k).take L ++ out.drop (min (32 * k) L)

theorem hkdfOut_zero : hkdfOut hmac secret info out L 0 = out := by
  simp [hkdfOut, hkdfBlocks]

theorem hkdfOut_of_le {k : Nat} (hk : L ≤ 32 * k) :
    hkdfOut hmac secret info out L k = hkdfExpand hmac secret info L ++ out.drop L := by
  rw [hkdfOut, hkdfExpand_eq_take hmac secret info hk, Nat.min_eq_right hk]

theorem toNat_block {k : Nat} (hk : k < 255) : (UInt8.ofNat (k + 1)).toNat = k + 1 := by
  rw [UInt8.toNat_ofNat']; omega

theorem block_succ (k : Nat) : UInt8.ofNat (k + 1) + 1 = UInt8.ofNat (k + 1 + 1) := by
  rw [UInt8.ofNat_add (k + 1) 1]; rfl

/-- The `memcpy` of round `k + 1` fits in `out` and extends the output by `T(k + 1)`, cut at
`out_len`. -/
theorem memWrite_hkdfOut {k : Nat} (hkL : 32 * k < L) (hout : L ≤ out.length) :
    memWrite (hkdfOut hmac secret info out L k) ((32 * k : Nat) : Int)
        ((hkdfT hmac secret info (k + 1)).take (min 32 (L - 32 * k))) =
      some (hkdfOut hmac secret info out L (k + 1)) := by
  have hblocks : (hkdfBlocks hmac secret info k).take L = hkdfBlocks hmac secret info k :=
    List.take_of_length_le (by rw [length_hkdfBlocks]; omega)
  have hcur : hkdfOut hmac secret info out L k =
      hkdfBlocks hmac secret info k ++ out.drop (32 * k) := by
    rw [hkdfOut, hblocks, Nat.min_eq_left (by omega)]
  -- the next prefix is `T(1) | ... | T(k)` and the part of `T(k + 1)` below `out_len`
  have hnext : hkdfOut hmac secret info out L (k + 1) =
      hkdfBlocks hmac secret info k ++
        (hkdfT hmac secret info (k + 1)).take (min 32 (L - 32 * k)) ++
        out.drop (32 * k + min 32 (L - 32 * k)) := by
    have htake : (hkdfT hmac secret info (k + 1)).take (L - 32 * k) =
        (hkdfT hmac secret info (k + 1)).take (min 32 (L - 32 * k)) := by
      rw [List.take_eq_take_iff, length_hkdfT_succ]; omega
    rw [hkdfOut, hkdfBlocks, List.take_append, length_hkdfBlocks, hblocks, htake]
    congr 2
    omega
  have hlen :
      (32 * k : Int) + ((hkdfT hmac secret info (k + 1)).take (min 32 (L - 32 * k))).length ≤
        (hkdfOut hmac secret info out L k).length := by
    simp [hcur]; omega
  -- the write replaces the bytes after `T(1) | ... | T(k)` and keeps the prefix
  have hk : (hkdfBlocks hmac secret info k).length = 32 * k := length_hkdfBlocks hmac secret info k
  rw [memWrite, if_pos ⟨by omega, hlen⟩, hnext, hcur, Int.toNat_natCast, ← hk, List.take_left,
    List.drop_length_add_append, List.drop_drop, List.length_take, length_hkdfT_succ]
  congr 3
  omega

/-- One round of the loop while the counter has not wrapped: the condition holds, the copy is in
bounds, and the next round starts from `T(k + 1)` with `k + 1` blocks written. -/
theorem ovpnHkdfExpandLoop_round {k : Nat} (fuel : Nat) (hk : k < 255) (hkL : 32 * k < L)
    (hout : L ≤ out.length) :
    ovpnHkdfExpandLoop hmac secret info L (fuel + 1) (UInt8.ofNat (k + 1))
        (hkdfT hmac secret info k) (hkdfOut hmac secret info out L k) =
      ovpnHkdfExpandLoop hmac secret info L fuel (UInt8.ofNat (k + 1 + 1))
        (hkdfT hmac secret info (k + 1)) (hkdfOut hmac secret info out L (k + 1)) := by
  have hoff :
      ((UInt8.ofNat (k + 1)).toNat - 1 : Int) * sha256DigestLength = ((32 * k : Nat) : Int) := by
    rw [toNat_block hk, sha256DigestLength]; omega
  have hcopy : (min (sha256DigestLength : Int) (L - ((32 * k : Nat) : Int))).toNat =
      min 32 (L - 32 * k) := by
    rw [sha256DigestLength]; omega
  rw [ovpnHkdfExpandLoop, if_pos (by rw [hoff]; omega)]
  simp only [hoff, hcopy]
  rw [show (hmac secret (hkdfT hmac secret info k ++ info ++ [UInt8.ofNat (k + 1)])).toList =
      hkdfT hmac secret info (k + 1) from rfl, memWrite_hkdfOut hmac secret info out L hkL hout,
    block_succ]

/-- The round after the last block: the condition fails and the loop ends with the array. -/
theorem ovpnHkdfExpandLoop_stop {k : Nat} (fuel : Nat) (hk : k < 255) (hkL : L ≤ 32 * k)
    (tPrev cur : List UInt8) :
    ovpnHkdfExpandLoop hmac secret info L (fuel + 1) (UInt8.ofNat (k + 1)) tPrev cur =
      .done cur := by
  rw [ovpnHkdfExpandLoop, if_neg]
  rw [toNat_block hk, sha256DigestLength]
  omega

/-- The run from round `k + 1` to the end, when the last block `(L + 31) / 32` has not wrapped the
counter; by induction on the rounds left. -/
theorem ovpnHkdfExpandLoop_run (hL : L ≤ 254 * 32) (hout : L ≤ out.length) :
    ∀ j k fuel, k + j = (L + 31) / 32 → j < fuel →
      ovpnHkdfExpandLoop hmac secret info L fuel (UInt8.ofNat (k + 1)) (hkdfT hmac secret info k)
          (hkdfOut hmac secret info out L k) =
        .done (hkdfExpand hmac secret info L ++ out.drop L) := by
  intro j
  induction j with
  | zero =>
      intro k fuel hk hfuel
      obtain ⟨fuel, rfl⟩ := Nat.exists_eq_add_of_lt hfuel
      rw [Nat.zero_add, ovpnHkdfExpandLoop_stop hmac secret info L _ (by omega) (by omega),
        hkdfOut_of_le hmac secret info out L (by omega)]
  | succ j ih =>
      intro k fuel hk hfuel
      obtain ⟨fuel, rfl⟩ := Nat.exists_eq_add_of_lt (Nat.lt_of_succ_lt hfuel)
      rw [ovpnHkdfExpandLoop_round hmac secret info out L _ (by omega) (by omega) hout]
      exact ih (k + 1) _ (by omega) (by omega)

/-- HKDF-Expand refinement: for at most 254 blocks and enough rounds, `ovpn_hkdf_expand` ends,
with `out[0, out_len)` the RFC 5869 output and every byte after it as it was. -/
theorem ovpnHkdfExpand_eq_hkdfExpand (hL : L ≤ 254 * 32) (hout : L ≤ out.length) {fuel : Nat}
    (hfuel : (L + 31) / 32 < fuel) :
    ovpnHkdfExpand hmac fuel secret info out L =
      .done (hkdfExpand hmac secret info L ++ out.drop L) := by
  have h := ovpnHkdfExpandLoop_run hmac secret info out L hL hout ((L + 31) / 32) 0 fuel
    (Nat.zero_add _) hfuel
  rwa [hkdfOut_zero] at h

/-- The rounds from `k + 1` on when 255 blocks do not cover `out_len`: every round up to block
255 copies its block, the counter then wraps to `0`, and the copy at offset `-32` faults. -/
theorem ovpnHkdfExpandLoop_wrap (hbig : 254 * 32 < L) (hout : L ≤ out.length) :
    ∀ j k fuel, k + j = 255 →
      ovpnHkdfExpandLoop hmac secret info L fuel (UInt8.ofNat (k + 1)) (hkdfT hmac secret info k)
          (hkdfOut hmac secret info out L k) =
        if fuel ≤ j then .running else .fault := by
  intro j
  induction j with
  | zero =>
      intro k fuel hk
      cases fuel with
      | zero => rfl
      | succ fuel =>
          -- `UInt8.ofNat 256` is the wrapped counter `0`
          obtain rfl : k = 255 := by omega
          rw [if_neg (by omega), ovpnHkdfExpandLoop,
            if_pos (by simp [sha256DigestLength]; omega)]
          simp [memWrite, sha256DigestLength]
  | succ j ih =>
      intro k fuel hk
      cases fuel with
      | zero => rfl
      | succ fuel =>
          rw [ovpnHkdfExpandLoop_round hmac secret info out L _ (by omega) (by omega) hout,
            ih (k + 1) fuel (by omega)]
          simp only [Nat.add_le_add_iff_right]

/-- `ovpn_hkdf_expand` never returns once `out_len` needs more than 254 blocks: it runs for 255
rounds and the 256th writes before `out`. -/
theorem ovpn_hkdf_expand_faults_past_254_blocks (hbig : 254 * 32 < L) (hout : L ≤ out.length)
    (fuel : Nat) :
    ovpnHkdfExpand hmac fuel secret info out L = if fuel ≤ 255 then .running else .fault := by
  have h := ovpnHkdfExpandLoop_wrap hmac secret info out L hbig hout 255 0 fuel (Nat.zero_add _)
  rwa [hkdfOut_zero] at h

end Loop

/-- `out_len = 255 * 32`, the largest length RFC 5869 allows, with a zero HMAC: the run faults. -/
theorem ovpn_hkdf_expand_faults_at_8160 :
    ovpnHkdfExpand (fun _ _ => Vector.replicate 32 0) 256 [] [] (List.replicate 8160 0) 8160 =
      .fault :=
  (ovpn_hkdf_expand_faults_past_254_blocks (fun _ _ => Vector.replicate 32 0) [] []
    (List.replicate 8160 0) 8160 (by decide) (by rw [List.length_replicate]) 256).trans
    (if_neg (by decide))

section Label

variable (hmac : List UInt8 → List UInt8 → Vector UInt8 32)

/-- `ovpn_expand_label` returns false exactly for a secret of other than 32 bytes and leaves
`out`; otherwise `out` starts with HKDF-Expand of the `HkdfLabel`, while `out_len` needs at most
254 blocks. -/
theorem ovpnExpandLabel_eq {secret label context out : List UInt8} {outLen : UInt16}
    (hlabel : 1 ≤ label.length ∧ label.length ≤ 250) (hctx : context.length ≤ 255)
    (hL : outLen.toNat ≤ 254 * 32) (hout : outLen.toNat ≤ out.length) {fuel : Nat}
    (hfuel : (outLen.toNat + 31) / 32 < fuel) :
    ovpnExpandLabel hmac fuel secret label context out outLen =
      if secret.length = 32 then
        .done (true, hkdfExpand hmac secret (hkdfLabel label context outLen) outLen.toNat ++
          out.drop outLen.toNat)
      else .done (false, out) := by
  by_cases hs : secret.length = 32
  · rw [ovpnExpandLabel, if_neg (by omega), if_pos hs,
      ovpnHkdfExpand_eq_hkdfExpand hmac secret _ out _ hL hout hfuel]
    rfl
  · rw [ovpnExpandLabel, if_pos (Or.inl hs), if_neg hs]

/-- `epoch_key_iterate`: `E_{n+1} = OVPN-Expand-Label(E_n, "datakey upd", "", 32)`. -/
theorem epoch_key_iterate_is_expand_label {epochKey : List UInt8} (hkey : epochKey.length = 32) {fuel : Nat}
    (hfuel : 1 < fuel) :
    epochKeyIterateKey hmac fuel epochKey =
      .done (hkdfExpand hmac epochKey (hkdfLabel epochUpdateLabel [] 32) 32) := by
  rw [epochKeyIterateKey, ovpnExpandLabel_eq hmac (by decide) (by decide) (by decide)
    (by rw [List.length_replicate]; rfl) hfuel, if_pos hkey]
  simp [LoopEnd.map]

/-- The next key of an all-zero epoch key under an all-zero HMAC. -/
theorem epoch_key_iterate_is_expand_label_zero :
    epochKeyIterateKey (fun _ _ => Vector.replicate 32 0) 2 (List.replicate 32 0) =
      .done (hkdfExpand (fun _ _ => Vector.replicate 32 0) (List.replicate 32 0)
        (hkdfLabel epochUpdateLabel [] 32) 32) :=
  epoch_key_iterate_is_expand_label _ (List.length_replicate) (by decide)

/-- `epoch_data_key_derive`: the cipher key and the implicit IV are
`OVPN-Expand-Label(E, "data_key", "", key_size)` and `OVPN-Expand-Label(E, "data_iv", "", iv_size)`
at the front of their arrays. -/
theorem epoch_data_key_derive_is_expand_label {epochKey cipher hmacKey : List UInt8} (hkey : epochKey.length = 32)
    {cipherSize hmacSize : UInt16} (hcs : cipherSize.toNat ≤ cipher.length)
    (hhs : hmacSize.toNat ≤ hmacKey.length) (hcs' : cipherSize.toNat ≤ 254 * 32)
    (hhs' : hmacSize.toNat ≤ 254 * 32) {fuel : Nat} (hfc : (cipherSize.toNat + 31) / 32 < fuel)
    (hfh : (hmacSize.toNat + 31) / 32 < fuel) :
    epochDataKeyDerive hmac fuel epochKey cipher hmacKey cipherSize hmacSize =
      .done
        (hkdfExpand hmac epochKey (hkdfLabel epochDataKeyLabel [] cipherSize) cipherSize.toNat ++
          cipher.drop cipherSize.toNat,
        hkdfExpand hmac epochKey (hkdfLabel epochDataIvLabel [] hmacSize) hmacSize.toNat ++
          hmacKey.drop hmacSize.toNat) := by
  rw [epochDataKeyDerive, ovpnExpandLabel_eq hmac (by decide) (by decide) hcs' hcs hfc, if_pos hkey,
    ovpnExpandLabel_eq hmac (by decide) (by decide) hhs' hhs hfh, if_pos hkey]
  rfl

/-- An AES-256-GCM key and its 12-byte implicit IV from an all-zero epoch key. -/
theorem epoch_data_key_derive_is_expand_label_aes256 :
    epochDataKeyDerive (fun _ _ => Vector.replicate 32 0) 2 (List.replicate 32 0)
        (List.replicate 32 0) (List.replicate 12 0) 32 12 =
      .done
        (hkdfExpand (fun _ _ => Vector.replicate 32 0) (List.replicate 32 0)
            (hkdfLabel epochDataKeyLabel [] 32) 32 ++ (List.replicate 32 (0 : UInt8)).drop 32,
          hkdfExpand (fun _ _ => Vector.replicate 32 0) (List.replicate 32 0)
            (hkdfLabel epochDataIvLabel [] 12) 12 ++ (List.replicate 12 (0 : UInt8)).drop 12) :=
  epoch_data_key_derive_is_expand_label _ List.length_replicate
    (by rw [List.length_replicate]; decide) (by rw [List.length_replicate]; decide) (by decide)
    (by decide) (by decide) (by decide)

end Label

end OpenVpn
