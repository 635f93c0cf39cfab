import OpenVpn.Ntlm
import OpenVpn.BufferSpec

/-! What each stage of `ntlm_phase_3` computes from valid credentials and a type-2 message that
decodes, and the target information block whose length passes the check of `ntlm_phase_3` but
whose copy, terminating zero or HMAC input does not fit in `ntlmv2_response`. The bound
`tib_len + 0x1c + 16 <= 256` admits up to 212 bytes; the blob at offset 16 of the array then
needs `16 + 0x1c + tib_len + 1` cells for its zero and the HMAC reads `8 + 0x20 + tib_len + 8`
of them, so every length from 209 to 212 reaches past the 256 cells. -/

namespace OpenVpn

section Encoding

/-- `unicodize` writes each byte with a zero after it, then the two bytes of the `NUL`. -/
theorem unicodize_eq (s : List UInt8) : unicodize s = s.flatMap (fun c => [c, 0]) ++ [0, 0] := by
  simp [unicodize, List.flatMap_append]

theorem length_flatMap_pair (s : List UInt8) :
    (s.flatMap fun c => [c, (0 : UInt8)]).length = 2 * s.length := by
  simp only [List.length_flatMap, List.length_cons, List.length_nil, List.map_const',
    List.sum_replicate, smul_eq_mul]
  omega

theorem length_unicodize (s : List UInt8) : (unicodize s).length = 2 * s.length + 2 := by
  rw [unicodize_eq, List.length_append, length_flatMap_pair]
  rfl

/-- `unicodize` into an array of `m` cells with room for the string, its zeros and the `NUL`. -/
theorem store_unicodize {s : List UInt8} {m : Nat} (h : 2 * s.length + 2 ≤ m) :
    (Cells.uninit m).store 0 (Cells.ofList (unicodize s)) =
      some (Cells.ofList (s.flatMap fun c => [c, 0]) ++ Cells.ofList [0, 0] ++
        Cells.uninit (m - (2 * s.length + 2))) := by
  rw [Cells.store_eq (by simp [length_unicodize]; omega), unicodize_eq]
  simp [Cells.uninit, List.drop_replicate]
  omega

theorem length_genTimestamp (now : Nat) : (genTimestamp now).length = 8 := by
  simp [genTimestamp]

end Encoding

section Buf2

/-- Past the decoded bytes `buf2` holds the zeros of its `memset`, the default of `getD`. -/
theorem getD_padded (d : List UInt8) (k i : Nat) :
    (d ++ List.replicate k 0).getD i 0 = d.getD i 0 := by
  simp only [List.getD_eq_getElem?_getD, List.getElem?_append, List.getElem?_replicate]
  split_ifs <;> simp_all

/-- A read of `buf2` inside its 512 bytes: the decoded bytes at those positions, zero past them. -/
theorem memRead_padded {d : List UInt8} {i n : Int} (h₀ : 0 ≤ i) (hn : 0 ≤ n) (h : i + n ≤ 512)
    (hd : d.length ≤ 512) :
    memRead (d ++ List.replicate (512 - d.length) 0) i n =
      some ((List.range n.toNat).map fun j => d.getD (i.toNat + j) 0) := by
  rw [memRead_of_le h₀ hn (by simp; omega)]
  congr 1
  apply List.ext_getElem (by simp; omega)
  intro j h₁ h₂
  simp only [List.getElem_take, List.getElem_drop, List.getElem_map, List.getElem_range]
  have hj : i.toNat + j < (d ++ List.replicate (512 - d.length) 0).length := by
    simp at h₁ ⊢
    omega
  rw [← getD_padded d (512 - d.length), List.getD_eq_getElem _ _ hj]

end Buf2

section Stages

variable (digests : NtlmDigests)

/-- `md4_hash` for a password that fits in `pwbuf`: MD4 of its bytes in UTF-16, then five zeros. -/
theorem ntlmMd4Stage_eq (pkcs11 : Bool) {password : List UInt8}
    (h : password.length < userPassLen pkcs11) :
    ntlmMd4Stage digests pkcs11 password =
      pure (Cells.ofList ((digests.md4 (password.flatMap fun c => [c, 0])).toList ++
        List.replicate 5 0)) := by
  have hload : ((unicodize password).length - 2) =
      (Cells.ofList (password.flatMap fun c => [c, (0 : UInt8)])).length := by
    rw [Cells.length_ofList, length_flatMap_pair, length_unicodize]
    rfl
  rw [ntlmMd4Stage, store_unicodize (by omega), access_some, pure_bind, hload, List.append_assoc,
    Cells.load_prefix, access_some, pure_bind]
  simp

/-- A type-2 message that decodes, written at the start of the cleared `buf2`. -/
theorem ntlmDecodeStage_eq {phase2 d : List UInt8} (hd : openvpnBase64Decode phase2 (-1) = some d)
    (hlen : d.length ≤ 512) :
    ntlmDecodeStage phase2 = pure (d ++ List.replicate (512 - d.length) 0) := by
  rw [ntlmDecodeStage, hd]
  dsimp only
  rw [memWrite_of_le (by omega) (by rw [List.length_replicate]; omega)]
  simp only [Int.toNat_zero, List.take_zero, List.nil_append, Nat.zero_add, List.drop_replicate,
    access_some]

/-- `ntlm_split_user` leaves at most 127 bytes in each of `username` and `domain`. -/
theorem ntlmSplitUser_length (user : List UInt8) :
    (ntlmSplitUser user).1.length ≤ 127 ∧ (ntlmSplitUser user).2.length ≤ 127 := by
  unfold ntlmSplitUser
  split <;> simp

/-- `ntlmv2_hash` for a user name of at most 127 bytes: the domain is appended only when both
fit in `userdomain`. -/
theorem ntlmHashStage_eq (md4Hash : Cells UInt8) {username domain : List UInt8}
    (hu : username.length ≤ 127) :
    ntlmHashStage digests md4Hash username domain =
      pure (hmacCells digests.hmacMd5 (md4Hash.take 16)
        (Cells.ofList ((ntlmUserDomain username domain).flatMap fun c => [c, 0]))) := by
  have hud : (ntlmUserDomain username domain).length ≤ 127 := by
    unfold ntlmUserDomain
    split_ifs <;> simp <;> omega
  obtain ⟨ud, hud₁, hudl⟩ := Cells.store_some 0 (Cells.ofList (username.map toUpper ++ [0]))
    (Cells.length_uninit 128) (by simp; omega)
  have hload : 2 * (ntlmUserDomain username domain).length =
      (Cells.ofList ((ntlmUserDomain username domain).flatMap fun c => [c, (0 : UInt8)])).length := by
    rw [Cells.length_ofList, length_flatMap_pair]
  rw [ntlmHashStage, hud₁, access_some, pure_bind]
  dsimp only
  split_ifs with hfit
  -- strcat fits; its result is not read: userdomain_u is written from the string it holds
  case' pos =>
    obtain ⟨x, hx, -⟩ := Cells.store_some username.length (Cells.ofList (domain ++ [0])) hudl
      (by simp; omega)
    rw [hx, access_some]
  all_goals rw [pure_bind, store_unicodize (by omega), access_some, pure_bind, hload,
    List.append_assoc, Cells.load_prefix, access_some, pure_bind]

/-- The 128 bytes of the NTLMv2 blob before the target information: signature, reserved bytes,
timestamp, client nonce and the cleared rest. -/
def ntlmBlobBytes (now : Nat) (nonce : Vector UInt8 8) : List UInt8 :=
  [1, 1, 0, 0, 0, 0, 0, 0] ++ genTimestamp now ++ nonce.toList ++ List.replicate 104 0

theorem length_ntlmBlobBytes (now : Nat) (nonce : Vector UInt8 8) :
    (ntlmBlobBytes now nonce).length = 128 := by
  simp [ntlmBlobBytes, length_genTimestamp]

/-- The header stores of the blob write the 128 cells at offset 16 of `ntlmv2_response`; the 16
cells before them and the 112 after them are unwritten. -/
theorem ntlmBlobHeader_eq (now : Nat) (nonce : Vector UInt8 8) :
    ntlmBlobHeader now nonce =
      pure (Cells.uninit 16 ++ Cells.ofList (ntlmBlobBytes now nonce) ++ Cells.uninit 112) := by
  have hsplit : (Cells.uninit 256 : Cells UInt8) =
      Cells.uninit 16 ++ Cells.uninit 128 ++ Cells.uninit 112 := by
    simp only [Cells.uninit, ← List.replicate_add]
  -- the 128 cells of the blob after each store, so that the next store sees a short list; the
  -- stores of zeros change nothing
  have hb₁ : (List.replicate 128 (0 : UInt8)).take 0 ++ [1] ++
      (List.replicate 128 0).drop (0 + ([1] : List UInt8).length) = 1 :: List.replicate 127 0 := rfl
  have hb₂ : (1 :: List.replicate 127 (0 : UInt8)).take 1 ++ [1] ++
      (1 :: List.replicate 127 0).drop (1 + ([1] : List UInt8).length) =
      1 :: 1 :: List.replicate 126 0 := rfl
  have hb₃ : (1 :: 1 :: List.replicate 126 (0 : UInt8)).take 4 ++ [0] ++
      (1 :: 1 :: List.replicate 126 0).drop (4 + ([0] : List UInt8).length) =
      1 :: 1 :: List.replicate 126 0 := rfl
  have hb₄ : (1 :: 1 :: List.replicate 126 (0 : UInt8)).take 8 ++ genTimestamp now ++
      (1 :: 1 :: List.replicate 126 0).drop (8 + (genTimestamp now).length) =
      [1, 1, 0, 0, 0, 0, 0, 0] ++ genTimestamp now ++ List.replicate 112 0 := by
    rw [length_genTimestamp]
    rfl
  have hb₅ : ([1, 1, 0, 0, 0, 0, 0, 0] ++ genTimestamp now ++ List.replicate 112 (0 : UInt8)).take 16 ++
      nonce.toList ++ ([1, 1, 0, 0, 0, 0, 0, 0] ++ genTimestamp now ++ List.replicate 112 0).drop
        (16 + nonce.toList.length) = ntlmBlobBytes now nonce := by
    simp [ntlmBlobBytes, length_genTimestamp, List.drop_append]
  have hb₆ : (ntlmBlobBytes now nonce).take 24 ++ [0] ++
      (ntlmBlobBytes now nonce).drop (24 + ([0] : List UInt8).length) = ntlmBlobBytes now nonce := by
    simp [ntlmBlobBytes, length_genTimestamp, List.take_append, List.drop_append,
      List.take_of_length_le, List.drop_eq_nil_of_le]
  -- the memset, then each store inside the 128 written cells
  rw [ntlmBlobHeader, hsplit, Cells.store_append_exact (Cells.uninit 16), access_some, pure_bind,
    Cells.store_block (Cells.uninit 16) 0, hb₁, access_some, pure_bind,
    Cells.store_block (Cells.uninit 16) 1, hb₂, access_some, pure_bind,
    Cells.store_block (Cells.uninit 16) 4, hb₃, access_some, pure_bind,
    Cells.store_block (Cells.uninit 16) 8, hb₄, access_some, pure_bind,
    Cells.store_block (Cells.uninit 16) 16, hb₅, access_some, pure_bind,
    Cells.store_block (Cells.uninit 16) 24, hb₆, access_some]
  -- the offsets and lengths of the stores
  all_goals simp [Cells.uninit, length_genTimestamp, length_ntlmBlobBytes]

end Stages

section Overflow

variable (digests : NtlmDigests) (now : Nat) (nonce : Vector UInt8 8)

/-- With the target information flag set and a `tib_len` from 209 to 212, the response aborts:
at 212 the zero after the block is stored at `ntlmv2_response[256]`, below that the HMAC reads
`ntlmv2_response[8 .. 48 + tib_len)`. -/
theorem ntlmResponse_target_overflow (challenge : List UInt8) (ntlmv2Hash : Cells UInt8)
    {buf2 flags : List UInt8} {tib pos : UInt8} (hbuf : buf2.length = 512)
    (hch : challenge.length = 8) (hf : memRead buf2 0x14 4 = some flags)
    (hflag : ntlmFlags flags &&& 0x00800000 = 0x00800000) (hl : memRead buf2 0x28 1 = some [tib])
    (hp : memRead buf2 0x2c 1 = some [pos]) (hlo : 209 ≤ tib.toNat) (hhi : tib.toNat ≤ 212) :
    ntlmResponse digests now nonce buf2 challenge ntlmv2Hash = throw .abort := by
  have hpos := pos.toNat_lt
  obtain ⟨tibBytes, hread⟩ : ∃ t, memRead buf2 pos.toNat tib.toNat = some t :=
    ⟨_, memRead_of_le (by omega) (by omega) (by omega)⟩
  have htl := length_of_memRead hread
  have hhdr : (Cells.uninit 16 ++ Cells.ofList (ntlmBlobBytes now nonce) ++
      Cells.uninit 112 : Cells UInt8).length = 256 := by
    simp [length_ntlmBlobBytes]
  -- the copy of the block itself fits: 16 + 0x1c + tib_len ≤ 256
  obtain ⟨r, hr, hrl⟩ := Cells.store_some (16 + 28) (Cells.ofList tibBytes) hhdr
    (by rw [Cells.length_ofList, htl]; omega)
  simp only [ntlmResponse, ntlmBlobHeader_eq, hf, hl, hp, hread, access_some, pure_bind,
    if_pos hflag, List.headD_cons, if_neg (show ¬ tib.toNat + 28 + 16 > 256 by omega),
    if_neg (show ¬ pos.toNat + tib.toNat > 512 by omega), hr]
  by_cases h212 : tib.toNat = 212
  · -- the zero after the block is stored at ntlmv2_response[256]
    rw [Cells.store_of_lt (by simp; omega), access_none, Phase3M.throw_bind]
  · -- the HMAC input ntlmv2_response[8 .. 48 + tib_len) runs past the array
    obtain ⟨r₁, hr₁, hrl₁⟩ := Cells.store_some (16 + 28 + tib.toNat) (Cells.ofList [0]) hrl
      (by simp; omega)
    obtain ⟨r₂, hr₂, hrl₂⟩ := Cells.store_some 8 (Cells.ofList challenge) hrl₁ (by simp; omega)
    rw [hr₁, access_some, pure_bind, hr₂, access_some, pure_bind, Cells.load_of_lt (by omega),
      access_none, Phase3M.throw_bind]

/-- Valid credentials and a proxy whose type-2 message sets the target information flag
(bit `0x00800000` of the little-endian flags at `0x14`) and gives a `tib_len` (byte `0x28`)
from 209 to 212: `ntlm_phase_3` accesses `ntlmv2_response` out of bounds. -/
theorem ntlm_phase_3_overflows_ntlmv2_response (pkcs11 : Bool) {user password phase2 d : List UInt8}
    (huser : 0 < user.length) (hpass : 0 < password.length)
    (hpassLen : password.length < userPassLen pkcs11) (hphase2 : phase2.length ≤ 511)
    (hd : openvpnBase64Decode phase2 (-1) = some d)
    (hflag : ntlmFlags [d.getD 0x14 0, d.getD 0x15 0, d.getD 0x16 0, d.getD 0x17 0] &&&
      0x00800000 = 0x00800000)
    (hlo : 209 ≤ (d.getD 0x28 0).toNat) (hhi : (d.getD 0x28 0).toNat ≤ 212) :
    ntlmPhase3 digests pkcs11 now nonce user password phase2 = .abort := by
  -- at most 3 bytes for each group of four characters: 384 bytes, inside buf2
  have hlen : d.length ≤ 512 := by
    have := openvpnBase64Decode_length_le hd
    omega
  have hbuf : (d ++ List.replicate (512 - d.length) 0).length = 512 := by
    simp only [List.length_append, List.length_replicate]
    omega
  obtain ⟨challenge, hch⟩ : ∃ c, memRead (d ++ List.replicate (512 - d.length) 0) 24 8 = some c :=
    ⟨_, memRead_padded (by omega) (by omega) (by omega) hlen⟩
  have hf : memRead (d ++ List.replicate (512 - d.length) 0) 0x14 4 =
      some [d.getD 0x14 0, d.getD 0x15 0, d.getD 0x16 0, d.getD 0x17 0] := by
    rw [memRead_padded (by omega) (by omega) (by omega) hlen]
    rfl
  have hl : memRead (d ++ List.replicate (512 - d.length) 0) 0x28 1 = some [d.getD 0x28 0] := by
    rw [memRead_padded (by omega) (by omega) (by omega) hlen]
    rfl
  have hp : memRead (d ++ List.replicate (512 - d.length) 0) 0x2c 1 = some [d.getD 0x2c 0] := by
    rw [memRead_padded (by omega) (by omega) (by omega) hlen]
    rfl
  have hu := (ntlmSplitUser_length user).1
  rcases hsplit : ntlmSplitUser user with ⟨username, domain⟩
  rw [hsplit] at hu
  have hrun : ntlmPhase3Run digests pkcs11 now nonce user password phase2 = throw .abort := by
    simp only [ntlmPhase3Run, if_neg (show ¬ (user.length = 0 ∨ password.length = 0) by omega),
      hsplit, ntlmMd4Stage_eq digests pkcs11 hpassLen, ntlmDecodeStage_eq hd hlen, hch,
      access_some, pure_bind, ntlmHashStage_eq digests _ hu,
      ntlmResponse_target_overflow digests now nonce challenge _ hbuf
        (by rw [length_of_memRead hch]; rfl) hf hflag hl hp hlo hhi, Phase3M.throw_bind]
  rw [ntlmPhase3, hrun]
  rfl

/-- A type-2 message of 48 bytes with the target information flag (byte `0x16` is `0x80`) and a
`tib_len` of 210 at `0x28`. -/
def sampleType2 : List UInt8 :=
  List.replicate 22 0 ++ [0x80] ++ List.replicate 17 0 ++ [210] ++ List.replicate 7 0

/-- Digests that are zero everywhere. -/
def sampleDigests : NtlmDigests := ⟨fun _ => Vector.replicate 16 0, fun _ _ => Vector.replicate 16 0⟩

theorem ntlm_phase_3_overflows_at_tib_len_210 :
    ntlmPhase3 sampleDigests false 0 (Vector.replicate 8 0) [117] [112]
      (base64EncodeLoop sampleType2) = .abort :=
  ntlm_phase_3_overflows_ntlmv2_response sampleDigests 0 (Vector.replicate 8 0) false
    (by decide) (by decide) (by decide)
    (by rw [length_base64EncodeLoop_any]; decide)
    (openvpnBase64Decode_encode_any sampleType2 (Or.inl (by decide))) (by decide) (by decide)
    (by decide)

end Overflow

end OpenVpn
