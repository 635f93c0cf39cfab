import OpenVpn.BufferSpec

/-! The packet sizes `mss.c` and `mtu.c` derive from the options and the data-channel key type:
the per-packet overhead of the protocol headers and the crypto, the largest fragment
`frame_calculate_fragment` allows, and the MSS `frame_calculate_mssfix` clamps to. Sums of overheads
are `size_t` values; `options->ce.fragment - overhead` is the `size_t` difference, which wraps
below zero, and `clamp_size_to_int` asserts that the result fits in an `int`. The cipher and the
digest enter only through the queries the code makes of the crypto library. -/

namespace OpenVpn

/-- The mode of a data-channel cipher, as `cipher_kt_mode_cbc`, `cipher_kt_mode_ofb_cfb` and
`cipher_kt_mode_aead` tell it; `undefined` is the cipher `none`. -/
inductive CipherMode where
  | undefined
  | cbc
  | ofbCfb
  | aead
  deriving DecidableEq, Repr

/-- What the code asks the crypto library of a cipher: its mode, `cipher_kt_block_size` and
`cipher_kt_iv_size`, within `OPENVPN_MAX_CIPHER_BLOCK_SIZE` and `OPENVPN_MAX_IV_LENGTH`. A CBC
cipher has blocks of at least one byte. -/
structure CipherKt where
  mode : CipherMode
  blockSize : Nat
  ivSize : Nat
  blockSize_pos : mode = .cbc → 0 < blockSize
  blockSize_le : blockSize ≤ 32
  ivSize_le : ivSize ≤ 16

/-- `struct key_type`: the cipher and `md_kt_size` of the digest, `none` where `md_defined` is
false, within `OPENVPN_MAX_HMAC_SIZE`. -/
structure KeyType where
  cipher : CipherKt
  digest : Option Nat
  digest_le : ∀ n ∈ digest, n ≤ 64

def cipherKtModeCbc (c : CipherKt) : Bool := c.mode = .cbc

def cipherKtModeOfbCfb (c : CipherKt) : Bool := c.mode = .ofbCfb

def cipherKtModeAead (c : CipherKt) : Bool := c.mode = .aead

def cipherDefined (c : CipherKt) : Bool := c.mode ≠ .undefined

/-- `cipher_kt_tag_size`: `OPENVPN_AEAD_TAG_LENGTH` for an AEAD cipher. -/
def cipherKtTagSize (c : CipherKt) : Nat := if cipherKtModeAead c then 16 else 0

/-- The protocols of `proto_num`. -/
inductive Proto where
  | none
  | udp
  | tcp
  | tcpServer
  | tcpClient
  deriving DecidableEq, Repr

def protoIsUdp (proto : Proto) : Bool := proto = .udp

def protoIsTcp (proto : Proto) : Bool := proto = .tcpClient || proto = .tcpServer

/-- The address families `datagram_overhead` tells apart. -/
inductive SaFamily where
  | inet
  | inet6
  | unspec
  deriving DecidableEq, Repr

/-- The fields of `struct options` the frame computations read. -/
structure FrameOptions where
  tlsServer : Bool
  tlsClient : Bool
  usePeerId : Bool
  /-- `ce.socks_proxy_server` is set. -/
  socksProxyServer : Bool
  proto : Proto
  af : SaFamily
  fragment : Int
  fragmentEncap : Bool
  mssfix : Int
  mssfixEncap : Bool
  mssfixFixed : Bool
  /-- `comp.alg` is `COMP_ALG_LZ4`, `COMP_ALG_STUB` or `COMP_ALG_LZO`. -/
  compV1 : Bool

/-- `packet_id_size`: a 32-bit id, and a 32-bit time in the long form. -/
def packetIdSize (longForm : Bool) : Nat := 4 + if longForm then 4 else 0

/-- `calc_packet_id_size_dc`. -/
def calcPacketIdSizeDc (o : FrameOptions) (kt : KeyType) : Nat :=
  let tlsmode := o.tlsServer || o.tlsClient
  packetIdSize (!tlsmode || cipherKtModeOfbCfb kt.cipher)

/-- `calculate_crypto_overhead`. -/
def calculateCryptoOverhead (kt : KeyType) (pktIdSize : Nat) (occ : Bool) : Nat :=
  -- in CBC mode the packet id is part of the payload
  let overhead := if !cipherKtModeCbc kt.cipher then pktIdSize else 0
  if cipherKtModeAead kt.cipher then
    overhead + cipherKtTagSize kt.cipher +
      if occ then kt.cipher.ivSize + kt.cipher.blockSize else 0
  else
    let overhead := overhead +
      if cipherDefined kt.cipher then
        (if occ then kt.cipher.blockSize else 0) + kt.cipher.ivSize
      else 0
    overhead + kt.digest.getD 0

/-- `frame_calculate_protocol_header_size`. -/
def frameCalculateProtocolHeaderSize (kt : KeyType) (o : FrameOptions) (occ : Bool) : Nat :=
  let tlsmode := o.tlsServer || o.tlsClient
  -- a socks proxy adds 10 bytes to each UDP packet, TCP a 16-bit length
  let headerSize := if o.socksProxyServer && protoIsUdp o.proto then 10 else 0
  let headerSize := headerSize + if protoIsTcp o.proto then 2 else 0
  -- the opcode, with the peer id
  let headerSize := headerSize + if tlsmode then (if o.usePeerId then 4 else 1) else 0
  headerSize + calculateCryptoOverhead kt (calcPacketIdSizeDc o kt) occ

/-- `frame_calculate_payload_overhead`. -/
def frameCalculatePayloadOverhead (extraTun : Nat) (o : FrameOptions) (kt : KeyType) : Nat :=
  let overhead := extraTun + if o.compV1 then 1 else 0
  -- the 4-byte fragment header
  let overhead := overhead + if o.fragment ≠ 0 then 4 else 0
  overhead + if cipherKtModeCbc kt.cipher then calcPacketIdSizeDc o kt else 0

/-- `datagram_overhead`. -/
def datagramOverhead (af : SaFamily) (proto : Proto) : Nat :=
  (if proto = .udp then 8 else 20) + if af = .inet then 20 else 40

/-- `get_ip_encap_overhead`: from the socket's actual address family and protocol, or from the
connection entry before there is one. -/
def getIpEncapOverhead (o : FrameOptions) (lsi : Option (SaFamily × Proto)) : Nat :=
  let (af, proto) := lsi.getD (o.af, o.proto)
  datagramOverhead af proto

/-- `round_down_size`. -/
def roundDownSize (num multiple : Nat) : Nat := num / multiple * multiple

/-- `adjust_payload_max_cbc` on a `size_t`: a CBC ciphertext is whole blocks with at least one
byte of padding. -/
def adjustPayloadMaxCbc (kt : KeyType) (target : Nat) : Nat :=
  if !cipherKtModeCbc kt.cipher then target
  else (roundDownSize target kt.cipher.blockSize + 2 ^ 64 - 1) % 2 ^ 64

/-- `clamp_size_to_int`: `none` where its `ASSERT(size <= INT_MAX)` fires. -/
def clampSizeToInt (size : Nat) : Option Int :=
  if size ≤ 2 ^ 31 - 1 then some size else none

/-- The `overhead` of `frame_calculate_fragment`: the protocol headers, and the encapsulating IP
packet with `fragment ... mtu`. -/
def frameFragmentOverhead (kt : KeyType) (o : FrameOptions) (lsi : Option (SaFamily × Proto)) :
    Nat :=
  frameCalculateProtocolHeaderSize kt o false + if o.fragmentEncap then getIpEncapOverhead o lsi else 0

/-- `frame_calculate_fragment`: `frame->max_fragment_size`, `none` where the `ASSERT` of
`clamp_size_to_int` fires. -/
def frameCalculateFragment (kt : KeyType) (o : FrameOptions) (lsi : Option (SaFamily × Proto)) :
    Option Int :=
  let overhead := frameFragmentOverhead kt o lsi
  -- `size_t target = options->ce.fragment - overhead`
  let target := ((o.fragment - overhead) % 2 ^ 64).toNat
  (clampSizeToInt (adjustPayloadMaxCbc kt target)).map fun size =>
    -- the 4 bytes of the fragment header; in CBC mode each fragment carries the packet id
    let maxFragmentSize := size - 4
    if cipherKtModeCbc kt.cipher then toCInt (maxFragmentSize - calcPacketIdSizeDc o kt)
    else maxFragmentSize

/-- `frame_calculate_mssfix`: `frame->mss_fix`, a `uint16_t`. -/
def frameCalculateMssfix (extraTun : Nat) (kt : KeyType) (o : FrameOptions)
    (lsi : Option (SaFamily × Proto)) : Nat :=
  if o.mssfixFixed then ((o.mssfix - (20 + 20)) % 2 ^ 16).toNat
  else
    let overhead := frameCalculateProtocolHeaderSize kt o false
    let payloadOverhead := frameCalculatePayloadOverhead extraTun o kt
    let overhead := overhead + if o.mssfixEncap then getIpEncapOverhead o lsi else 0
    -- the IPv4 and the TCP header of the payload
    let payloadOverhead := payloadOverhead + (20 + 20)
    let target := ((o.mssfix - overhead) % 2 ^ 64).toNat
    (((adjustPayloadMaxCbc kt target : Int) - payloadOverhead) % 2 ^ 16).toNat

/-- The `--fragment n [mtu]` branch of `add_option`, `n` the value `positive_atoi` returns. -/
def addOptionFragment (o : FrameOptions) (n : Int) (p2 : Option String) : Option FrameOptions :=
  let o := { o with fragment := n }
  -- "--fragment needs to be at least 68"
  if o.fragment < 68 then none
  else if p2 = some "mtu" then some { o with fragmentEncap := true }
  else some o

/-- The fragment part of `frame_adjust_path_mtu`: a path MTU below the configured size becomes
`fragment pmtu mtu`. -/
def frameAdjustPathMtuFragment (o : FrameOptions) (pmtu : Int) (af : SaFamily) (proto : Proto) :
    FrameOptions :=
  let encapOverhead := datagramOverhead af proto
  if pmtu < o.fragment ∨ (o.fragmentEncap ∧ pmtu < o.fragment + encapOverhead) then
    { o with fragment := pmtu, fragmentEncap := true }
  else o

/-! ### Bounds of the overhead -/

section Overhead

variable (kt : KeyType) (o : FrameOptions)

theorem digest_getD_le : kt.digest.getD 0 ≤ 64 := by
  cases h : kt.digest with
  | none => simp
  | some n => exact kt.digest_le n (by rw [h]; rfl)

theorem calcPacketIdSizeDc_le : calcPacketIdSizeDc o kt ≤ 8 := by
  unfold calcPacketIdSizeDc packetIdSize
  dsimp only
  split_ifs <;> omega

theorem calculateCryptoOverhead_le (pktIdSize : Nat) (occ : Bool) :
    calculateCryptoOverhead kt pktIdSize occ ≤ pktIdSize + 112 := by
  have := kt.cipher.blockSize_le
  have := kt.cipher.ivSize_le
  have := digest_getD_le kt
  unfold calculateCryptoOverhead cipherKtTagSize
  dsimp only
  split_ifs <;> omega

theorem frameCalculateProtocolHeaderSize_le (occ : Bool) :
    frameCalculateProtocolHeaderSize kt o occ ≤ 136 := by
  have := calcPacketIdSizeDc_le kt o
  have := calculateCryptoOverhead_le kt (calcPacketIdSizeDc o kt) occ
  unfold frameCalculateProtocolHeaderSize
  dsimp only
  split_ifs <;> omega

theorem datagramOverhead_le (af : SaFamily) (proto : Proto) : datagramOverhead af proto ≤ 60 := by
  unfold datagramOverhead
  split_ifs <;> omega

/-- Every overhead `frame_calculate_fragment` subtracts is a few hundred bytes at most. -/
theorem frameFragmentOverhead_le (lsi : Option (SaFamily × Proto)) :
    frameFragmentOverhead kt o lsi ≤ 200 := by
  have := frameCalculateProtocolHeaderSize_le kt o false
  have : getIpEncapOverhead o lsi ≤ 60 := datagramOverhead_le _ _
  unfold frameFragmentOverhead
  split_ifs <;> omega

end Overhead

/-! ### `size_t` steps -/

theorem clampSizeToInt_of_le {size : Nat} (h : size ≤ 2 ^ 31 - 1) :
    clampSizeToInt size = some (size : Int) := if_pos h

theorem clampSizeToInt_of_lt {size : Nat} (h : 2 ^ 31 - 1 < size) : clampSizeToInt size = none :=
  if_neg (by omega)

section Cbc

variable {kt : KeyType} (hcbc : cipherKtModeCbc kt.cipher = true)
include hcbc

theorem blockSize_pos_of_cbc : 0 < kt.cipher.blockSize :=
  kt.cipher.blockSize_pos (by simpa [cipherKtModeCbc] using hcbc)

/-- A target of at least one block: the whole blocks of it, less the byte of padding. -/
theorem adjustPayloadMaxCbc_of_le {target : Nat} (h : kt.cipher.blockSize ≤ target)
    (ht : target < 2 ^ 64) :
    adjustPayloadMaxCbc kt target = target / kt.cipher.blockSize * kt.cipher.blockSize - 1 := by
  have hb := blockSize_pos_of_cbc hcbc
  have hle : target / kt.cipher.blockSize * kt.cipher.blockSize ≤ target :=
    Nat.div_mul_le_self _ _
  have hpos : kt.cipher.blockSize ≤ target / kt.cipher.blockSize * kt.cipher.blockSize :=
    Nat.le_mul_of_pos_left _ (Nat.div_pos h hb)
  rw [adjustPayloadMaxCbc, hcbc, roundDownSize]
  simp only [Bool.not_true, Bool.false_eq_true, if_false]
  generalize target / kt.cipher.blockSize * kt.cipher.blockSize = q at hle hpos ⊢
  omega

/-- A target below one block rounds down to `0`, and `0 - 1` wraps to `SIZE_MAX`. -/
theorem adjustPayloadMaxCbc_of_lt {target : Nat} (h : target < kt.cipher.blockSize) :
    adjustPayloadMaxCbc kt target = 2 ^ 64 - 1 := by
  rw [adjustPayloadMaxCbc, hcbc, roundDownSize, Nat.div_eq_of_lt h]
  simp

/-- A target that wrapped below zero stays near `SIZE_MAX` after the rounding. -/
theorem adjustPayloadMaxCbc_of_wrapped {target : Nat} (h : 2 ^ 64 - 200 ≤ target)
    (ht : target < 2 ^ 64) : 2 ^ 31 - 1 < adjustPayloadMaxCbc kt target := by
  have hb := blockSize_pos_of_cbc hcbc
  have hb32 := kt.cipher.blockSize_le
  have hle : target / kt.cipher.blockSize * kt.cipher.blockSize ≤ target :=
    Nat.div_mul_le_self _ _
  have hlt : target < target / kt.cipher.blockSize * kt.cipher.blockSize + kt.cipher.blockSize :=
    Nat.lt_div_mul_add hb
  rw [adjustPayloadMaxCbc, hcbc, roundDownSize]
  simp only [Bool.not_true, Bool.false_eq_true, if_false]
  generalize target / kt.cipher.blockSize * kt.cipher.blockSize = q at hle hlt ⊢
  omega

end Cbc

theorem frame_calculate_fragment_closed_form (kt : KeyType) (o : FrameOptions)
    (lsi : Option (SaFamily × Proto)) (hfrag : 0 ≤ o.fragment ∧ o.fragment < 2 ^ 31) :
    frameCalculateFragment kt o lsi =
      if cipherKtModeCbc kt.cipher then
        if (frameFragmentOverhead kt o lsi + kt.cipher.blockSize : Int) ≤ o.fragment then
          some ((((o.fragment - frameFragmentOverhead kt o lsi).toNat / kt.cipher.blockSize *
            kt.cipher.blockSize : Nat) : Int) - 1 - 4 - calcPacketIdSizeDc o kt)
        else none
      else if (frameFragmentOverhead kt o lsi : Int) ≤ o.fragment then
        some (o.fragment - frameFragmentOverhead kt o lsi - 4)
      else none := by
  have hov := frameFragmentOverhead_le kt o lsi
  have hpid := calcPacketIdSizeDc_le kt o
  unfold frameCalculateFragment
  dsimp only
  generalize frameFragmentOverhead kt o lsi = ov at hov ⊢
  -- the `size_t` difference: exact when the overhead fits, near `SIZE_MAX` when it wraps
  have hexact : (ov : Int) ≤ o.fragment → ((o.fragment - ov) % 2 ^ 64).toNat = (o.fragment - ov).toNat := by
    intro h
    omega
  have hwrapped : ¬(ov : Int) ≤ o.fragment → 2 ^ 64 - 200 ≤ ((o.fragment - ov) % 2 ^ 64).toNat ∧
      ((o.fragment - ov) % 2 ^ 64).toNat < 2 ^ 64 := by
    intro h
    omega
  split_ifs with hcbc hfit hfit
  · -- a CBC cipher and room for a block: whole blocks less the padding byte, the header and the id
    have hb := blockSize_pos_of_cbc hcbc
    rw [hexact (by omega), adjustPayloadMaxCbc_of_le hcbc (by omega) (by omega)]
    have hle : (o.fragment - ov).toNat / kt.cipher.blockSize * kt.cipher.blockSize ≤
        (o.fragment - ov).toNat := Nat.div_mul_le_self _ _
    have hpos : kt.cipher.blockSize ≤ (o.fragment - ov).toNat / kt.cipher.blockSize *
        kt.cipher.blockSize := Nat.le_mul_of_pos_left _ (Nat.div_pos (by omega) hb)
    generalize (o.fragment - ov).toNat / kt.cipher.blockSize * kt.cipher.blockSize = q at hle hpos ⊢
    rw [clampSizeToInt_of_le (by omega), Option.map_some]
    congr 1
    rw [toCInt_of_le (by omega) (by omega)]
    omega
  · -- a CBC cipher without room for a block
    by_cases hwrap : (ov : Int) ≤ o.fragment
    · rw [hexact hwrap, adjustPayloadMaxCbc_of_lt hcbc (by omega), clampSizeToInt_of_lt (by norm_num),
        Option.map_none]
    · obtain ⟨hlo, hhi⟩ := hwrapped hwrap
      rw [clampSizeToInt_of_lt (adjustPayloadMaxCbc_of_wrapped hcbc hlo hhi), Option.map_none]
  · -- a stream or AEAD cipher, or none, with the overhead in the fragment
    have hnot : adjustPayloadMaxCbc kt ((o.fragment - ov) % 2 ^ 64).toNat =
        ((o.fragment - ov) % 2 ^ 64).toNat := by simp [adjustPayloadMaxCbc, hcbc]
    rw [hnot, hexact hfit, clampSizeToInt_of_le (by omega), Option.map_some]
    congr 1
    omega
  · have hnot : adjustPayloadMaxCbc kt ((o.fragment - ov) % 2 ^ 64).toNat =
        ((o.fragment - ov) % 2 ^ 64).toNat := by simp [adjustPayloadMaxCbc, hcbc]
    obtain ⟨hlo, -⟩ := hwrapped hfit
    rw [hnot, clampSizeToInt_of_lt (by omega), Option.map_none]

/-- `--fragment 68`, which `add_option` accepts, on a TLS client over UDP and IPv4 with
AES-256-CBC and SHA512: the overhead is 81 bytes, the `size_t` target wraps, and the `ASSERT` of
`clamp_size_to_int` fires. -/
theorem frame_calculate_fragment_cbc_sha512 :
    addOptionFragment ⟨false, true, false, false, .udp, .inet, 0, false, 0, false, false, false⟩ 68
        none =
      some ⟨false, true, false, false, .udp, .inet, 68, false, 0, false, false, false⟩ ∧
    frameFragmentOverhead ⟨⟨.cbc, 16, 16, fun _ => by decide, by decide, by decide⟩, some 64,
        fun n hn => by cases hn; decide⟩
      ⟨false, true, false, false, .udp, .inet, 68, false, 0, false, false, false⟩ none = 81 ∧
    frameCalculateFragment ⟨⟨.cbc, 16, 16, fun _ => by decide, by decide, by decide⟩, some 64,
        fun n hn => by cases hn; decide⟩
      ⟨false, true, false, false, .udp, .inet, 68, false, 0, false, false, false⟩ none = none := by
  refine ⟨rfl, rfl, ?_⟩
  rw [frame_calculate_fragment_closed_form _ _ _ ⟨by norm_num, by norm_num⟩]
  decide

end OpenVpn
