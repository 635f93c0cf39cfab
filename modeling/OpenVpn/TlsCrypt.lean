import Mathlib
import OpenVpn.PacketId
import OpenVpn.PacketIdSend
import OpenVpn.SessionIdHmac

/-! `tls_crypt.c`: the wrapping of control channel packets under a pre-shared key.
`tls_crypt_wrap` appends to the header already in `dst` the 64-bit packet id, an HMAC-SHA256 tag
over the header, the packet id and the plaintext, and the plaintext encrypted in AES-256-CTR with
the 128 most significant bits of the tag as IV. `tls_crypt_unwrap` works from the fixed offsets
`TLS_CRYPT_OFF_PID`, `TLS_CRYPT_OFF_TAG` and `TLS_CRYPT_OFF_CT`: it decrypts, checks the tag over
the header, the packet id and the plaintext, and then, unless `CO_IGNORE_PACKET_ID` is set, passes
the packet id to `crypto_check_replay`.

The backend is a parameter: the cipher is any `StreamCipher`, a length-preserving cipher whose
decryption inverts its encryption for the same key and IV, which is what these functions use of
AES-256-CTR, and HMAC-SHA256 is any function of a key and the authenticated bytes. -/

namespace OpenVpn

section StreamCipher

/-- A length-preserving cipher under keys `K`, the IV given as bytes, whose decryption inverts its
encryption for the same key and IV. -/
structure StreamCipher (K : Type) where
  encrypt : K → List UInt8 → List UInt8 → List UInt8
  decrypt : K → List UInt8 → List UInt8 → List UInt8
  length_encrypt : ∀ key iv input, (encrypt key iv input).length = input.length
  length_decrypt : ∀ key iv input, (decrypt key iv input).length = input.length
  decrypt_encrypt : ∀ key iv input, decrypt key iv (encrypt key iv input) = input

variable {K : Type}

/-- CTR mode over the key stream `stream key iv`: both directions XOR the input with it. -/
def ctrMode (stream : K → List UInt8 → Nat → UInt8) : StreamCipher K where
  encrypt key iv input := input.mapIdx fun i b => b ^^^ stream key iv i
  decrypt key iv input := input.mapIdx fun i b => b ^^^ stream key iv i
  length_encrypt _ _ _ := by simp
  length_decrypt _ _ _ := by simp
  decrypt_encrypt key iv input := by
    apply List.ext_getElem (by simp)
    intro i h₁ h₂
    simp

end StreamCipher

-- `TLS_CRYPT_TAG_SIZE`; `TLS_CRYPT_PID_SIZE`: a `packet_id_type` and a `net_time_t`;
-- `TLS_CRYPT_BLOCK_SIZE`; `TLS_CRYPT_OFF_PID`: past the opcode and the session id;
-- `TLS_CRYPT_OFF_TAG`; `TLS_CRYPT_OFF_CT`
def tlsCryptTagSize : Nat := 32

def tlsCryptPidSize : Nat := 8

def tlsCryptBlockSize : Nat := 16

def tlsCryptOffPid : Nat := 1 + sidSize

def tlsCryptOffTag : Nat := tlsCryptOffPid + tlsCryptPidSize

def tlsCryptOffCt : Nat := tlsCryptOffTag + tlsCryptTagSize

/-- `struct key_ctx`: the cipher and HMAC contexts, `NULL` when not loaded. -/
structure KeyCtx (K : Type) where
  cipher : Option K
  hmac : Option K

/-- The fields of `struct crypto_options` that tls-crypt reads and writes: the two directions of
`key_ctx_bi`, the two sides of `packet_id` and the flag `CO_IGNORE_PACKET_ID`. -/
structure CryptoOptions (K : Type) where
  encrypt : KeyCtx K
  decrypt : KeyCtx K
  packetIdSend : PacketIdSend
  packetIdRec : PacketIdRec
  ignorePacketId : Bool

section PacketIdRead

/-- The long-form packet id in its eight network-order bytes, as `ntohpid` and `ntohtime` read
them. -/
def ntohPacketId (bytes : List UInt8) : PacketIdNet :=
  ⟨UInt64.ofNat (BigEndian.decode (bytes.take 4)), BigEndian.decode ((bytes.drop 4).take 4)⟩

/-- `packet_id_read` of `packet_id.c`: the id and, in the long form, the time, each a 32-bit word
in network order. The pin is zeroed first, so a failed read leaves what was read before it. -/
def packetIdRead (buf : Buffer) (longForm : Bool) : Option (PacketIdNet × Buffer × Bool) :=
  match bufRead buf 4 with
  | none => none
  | some (buf, none) => some (⟨0, 0⟩, buf, false)
  | some (buf, some netId) =>
      let id := UInt64.ofNat (BigEndian.decode netId)
      if longForm then
        match bufRead buf 4 with
        | none => none
        | some (buf, none) => some (⟨id, 0⟩, buf, false)
        | some (buf, some netTime) => some (⟨id, BigEndian.decode netTime⟩, buf, true)
      else some (⟨id, 0⟩, buf, true)

/-- The packet id the long form of `packet_id_write` puts on the wire for the state `p`, as the
receiver reads it: the id and the time, each cut to 32 bits. -/
def PacketIdSend.onWire (p : PacketIdSend) : PacketIdNet :=
  ⟨UInt64.ofNat (p.id.toNat % 2 ^ 32), p.time % 2 ^ 32⟩

theorem ntohPacketId_append {bytes : List UInt8} (h : 8 ≤ bytes.length) (rest : List UInt8) :
    ntohPacketId (bytes ++ rest) = ntohPacketId bytes := by
  rw [ntohPacketId, ntohPacketId, List.take_append_of_le_length (by omega),
    List.drop_append_of_le_length (by omega), List.take_append_of_le_length (by simp; omega)]

theorem ntohPacketId_htonpid (p : PacketIdSend) :
    ntohPacketId (htonpid p.id ++ htontime p.time) = p.onWire := by
  have hid : p.id.toNat % 2 ^ 32 < 256 ^ 4 := Nat.mod_lt _ (by norm_num)
  have htime : (p.time % 2 ^ 32).toNat < 256 ^ 4 := by omega
  rw [ntohPacketId, List.take_left' (length_htonpid _), List.drop_left' (length_htonpid _),
    List.take_of_length_le (by simp), htonpid, htontime, BigEndian.decode_encode _ _ hid,
    BigEndian.decode_encode _ _ htime, Int.toNat_of_nonneg (by omega)]
  rfl

/-- A long-form read from a buffer holding at least eight bytes. -/
theorem packetIdRead_eq {buf : Buffer} (hb : BufBounded buf) (h : 8 ≤ buf.len) :
    ∃ buf', packetIdRead buf true = some (ntohPacketId buf.content, buf', true) := by
  have hl := hb.len_nonneg
  have hw := hb.window (o := buf.offset + 4) (l := buf.len - 4)
    (by have := hb.offset_nonneg; omega) (by omega) (by have := hb.len_le; omega)
  rw [packetIdRead, hb.bufRead_eq, if_pos ⟨by omega, by omega⟩]
  dsimp only
  rw [if_pos rfl, hw.bufRead_eq, if_pos ⟨by omega, by dsimp only; omega⟩]
  dsimp only
  rw [Buffer.content_advance hb.offset_nonneg (by omega) (by omega)]
  exact ⟨_, rfl⟩

end PacketIdRead

section TlsCrypt

variable {K : Type} (cipher : StreamCipher K) (hmac : K → List UInt8 → Vector UInt8 32)

/-! ### The packet format

What tls-crypt is for: a packet is the authenticated bytes `ad` (the header and the packet id),
the tag over `ad` and the plaintext, and the ciphertext under the tag's leading 16 bytes;
opening it at the fixed offsets gives the plaintext back exactly when the tag matches. -/

/-- The packet of the authenticated bytes `ad` and `plaintext`. -/
def tlsCryptSeal (key hkey : K) (ad plaintext : List UInt8) : List UInt8 :=
  let tag := (hmac hkey (ad ++ plaintext)).toList
  ad ++ tag ++ cipher.encrypt key (tag.take tlsCryptBlockSize) plaintext

/-- A packet opened at the offsets `TLS_CRYPT_OFF_TAG` and `TLS_CRYPT_OFF_CT`: its plaintext, if
the tag matches. -/
def tlsCryptOpen (key hkey : K) (packet : List UInt8) : Option (List UInt8) :=
  let iv := (packet.drop tlsCryptOffTag).take tlsCryptBlockSize
  let plaintext := cipher.decrypt key iv (packet.drop tlsCryptOffCt)
  if tlsCryptOffCt ≤ packet.length ∧ (packet.drop tlsCryptOffTag).take tlsCryptTagSize =
      (hmac hkey (packet.take tlsCryptOffTag ++ plaintext)).toList
  then some plaintext else none

section Seal

variable {key hkey : K} {ad plaintext : List UInt8}

theorem length_tlsCryptSeal (had : ad.length = tlsCryptOffTag) :
    (tlsCryptSeal cipher hmac key hkey ad plaintext).length = tlsCryptOffCt + plaintext.length := by
  simp [tlsCryptSeal, cipher.length_encrypt, had, tlsCryptOffCt, tlsCryptTagSize]
  omega

theorem take_tlsCryptSeal (had : ad.length = tlsCryptOffTag) :
    (tlsCryptSeal cipher hmac key hkey ad plaintext).take tlsCryptOffTag = ad := by
  rw [tlsCryptSeal, List.append_assoc, List.take_left' had]

theorem tag_tlsCryptSeal (had : ad.length = tlsCryptOffTag) :
    ((tlsCryptSeal cipher hmac key hkey ad plaintext).drop tlsCryptOffTag).take tlsCryptTagSize =
      (hmac hkey (ad ++ plaintext)).toList := by
  rw [tlsCryptSeal, List.append_assoc, List.drop_left' had, List.take_left' (by simp [tlsCryptTagSize])]

theorem iv_tlsCryptSeal (had : ad.length = tlsCryptOffTag) :
    ((tlsCryptSeal cipher hmac key hkey ad plaintext).drop tlsCryptOffTag).take tlsCryptBlockSize =
      (hmac hkey (ad ++ plaintext)).toList.take tlsCryptBlockSize := by
  rw [← tag_tlsCryptSeal cipher hmac had, List.take_take]
  rfl

theorem ct_tlsCryptSeal (had : ad.length = tlsCryptOffTag) :
    (tlsCryptSeal cipher hmac key hkey ad plaintext).drop tlsCryptOffCt =
      cipher.encrypt key ((hmac hkey (ad ++ plaintext)).toList.take tlsCryptBlockSize) plaintext := by
  rw [show tlsCryptOffCt = tlsCryptOffTag + tlsCryptTagSize from rfl, ← List.drop_drop, tlsCryptSeal,
    List.append_assoc, List.drop_left' had, List.drop_left' (by simp [tlsCryptTagSize])]

/-- **Opening a sealed packet.** The header and the packet id taking `TLS_CRYPT_OFF_TAG` bytes,
the fixed offsets find the tag and the ciphertext, and the plaintext comes back. -/
theorem tlsCryptOpen_seal (had : ad.length = tlsCryptOffTag) :
    tlsCryptOpen cipher hmac key hkey (tlsCryptSeal cipher hmac key hkey ad plaintext) =
      some plaintext := by
  simp only [tlsCryptOpen]
  rw [iv_tlsCryptSeal cipher hmac had, ct_tlsCryptSeal cipher hmac had, cipher.decrypt_encrypt,
    tag_tlsCryptSeal cipher hmac had, take_tlsCryptSeal cipher hmac had,
    length_tlsCryptSeal cipher hmac had]
  simp

end Seal

/-! ### `tls_crypt_wrap` -/

/-- The tag and encryption blocks of `tls_crypt_wrap`, after its checks: the tag over the content
of `dst` (the header and the packet id) and the plaintext, appended, then the plaintext encrypted
with the tag's 128 most significant bits as IV, appended at `BEND(dst)`; `none` where an `ASSERT`
fails. -/
def tlsCryptWrapEncrypt (key hkey : K) (src dst : Buffer) : Option Buffer := do
  let ad ← bufContents dst
  let input ← bufContents src
  let tag := (hmac hkey (ad ++ input)).toList
  match bufWriteAlloc dst tlsCryptTagSize with
  | (_, none) => none
  | (dst, some tagAt) =>
      let dst ← dst.store tagAt tag
      let ct := cipher.encrypt key (tag.take tlsCryptBlockSize) input
      let bend ← (bufBptr dst).map (· + bufLen dst)
      let dst ← dst.store bend ct
      match bufIncLen dst ct.length with
      | (_, false) => none
      | (dst, true) =>
          -- `cipher_ctx_final`: CTR mode holds no bytes back
          match bufIncLen dst 0 with
          | (_, false) => none
          | (dst, true) => some dst

/-- `tls_crypt_wrap` at the clock `now`: the options with the advanced packet id, the buffer and
the result; `none` where an `ASSERT` fails. -/
def tlsCryptWrap (src dst : Buffer) (opt : CryptoOptions K) (now : Int) :
    Option (CryptoOptions K × Buffer × Bool) := do
  let key ← opt.encrypt.cipher
  let hkey ← opt.encrypt.hmac
  let (send, dst, ok) ← packetIdWrite opt.packetIdSend dst true false now
  let opt := { opt with packetIdSend := send }
  -- `goto err`: "packet ID roll over", then "buffer size error"
  if !ok then some (opt, { dst with len := 0 }, false)
  else if !bufSafe dst ((bufLen src).toNat + tlsCryptBlockSize + tlsCryptTagSize) then
    some (opt, { dst with len := 0 }, false)
  else (tlsCryptWrapEncrypt cipher hmac key hkey src dst).map fun dst => (opt, dst, true)

section WrapSpec

variable {key hkey : K} {src dst : Buffer}

theorem length_content_int (hb : BufBounded src) : (src.content.length : Int) = src.len := by
  rw [hb.length_content]
  have := hb.len_nonneg
  omega

/-- With room for the tag and the ciphertext, the block appends both. -/
theorem tlsCryptWrapEncrypt_eq (hs : BufBounded src) (hd : BufBounded dst)
    (hroom : dst.offset + dst.len + tlsCryptTagSize + src.len ≤ dst.capacity) :
    tlsCryptWrapEncrypt cipher hmac key hkey src dst =
      some ((dst.append (hmac hkey (dst.content ++ src.content)).toList).append
        (cipher.encrypt key ((hmac hkey (dst.content ++ src.content)).toList.take tlsCryptBlockSize)
          src.content)) := by
  have hsl := length_content_int hs
  set tag := (hmac hkey (dst.content ++ src.content)).toList with htag
  set ct := cipher.encrypt key (tag.take tlsCryptBlockSize) src.content with hct
  have htl : tag.length = tlsCryptTagSize := by simp [tag, tlsCryptTagSize]
  have hcl : (ct.length : Int) = src.len := by rw [hct, cipher.length_encrypt, hsl]
  obtain ⟨b₁, p, halloc, hstore⟩ := @BufBounded.bufWriteAlloc_store dst tag hd
    (by rw [htl]; decide) (by rw [htl]; omega)
  have hb₁ := @BufBounded.append_bounded dst tag hd (by rw [htl]; omega)
  obtain ⟨b₂, hstore₂, hinc⟩ := @BufBounded.store_end_bufIncLen _ ct hb₁
    (by have := hs.capacity_lt; have := hs.len_le; have := hs.offset_nonneg; unfold bufSizeMax at *; omega)
    (by simp only [Buffer.offset_append, Buffer.len_append, Buffer.capacity_append]; omega)
  have hb₂ := @BufBounded.append_bounded _ ct hb₁
    (by simp only [Buffer.offset_append, Buffer.len_append, Buffer.capacity_append]; omega)
  rw [tlsCryptWrapEncrypt, hd.bufContents_eq, hs.bufContents_eq]
  simp only [Option.bind_eq_bind, Option.bind_some]
  rw [← htl, halloc]
  dsimp only
  rw [← htag, hstore, Option.bind_some, hb₁.bufBptr_eq, hb₁.bufLen_eq, Option.map_some,
    Option.bind_some, ← hct, hstore₂, Option.bind_some, hinc]
  dsimp only
  rw [hb₂.bufIncLen_zero]

/-- The header and the packet id, followed by the tag and the ciphertext, make the sealed packet. -/
theorem content_tlsCryptWrapEncrypt {b : Buffer} (hb : BufBounded b) (hs : BufBounded src)
    (hroom : b.offset + b.len + tlsCryptTagSize + src.len ≤ b.capacity) :
    ∃ pkt, tlsCryptWrapEncrypt cipher hmac key hkey src b = some pkt ∧ BufBounded pkt ∧
      pkt.content = tlsCryptSeal cipher hmac key hkey b.content src.content := by
  have hsl := length_content_int hs
  have htl : ((hmac hkey (b.content ++ src.content)).toList.length : Int) = tlsCryptTagSize := by
    simp [tlsCryptTagSize]
  have hroom₁ : b.offset + b.len + (hmac hkey (b.content ++ src.content)).toList.length ≤
      b.capacity := by omega
  have hb₁ := hb.append_bounded hroom₁
  have hroom₂ : (b.append (hmac hkey (b.content ++ src.content)).toList).offset +
      (b.append (hmac hkey (b.content ++ src.content)).toList).len +
      (cipher.encrypt key ((hmac hkey (b.content ++ src.content)).toList.take tlsCryptBlockSize)
        src.content).length ≤ b.capacity := by
    simp only [Buffer.offset_append, Buffer.len_append, cipher.length_encrypt]
    omega
  refine ⟨_, tlsCryptWrapEncrypt_eq cipher hmac hs hb hroom, hb₁.append_bounded hroom₂, ?_⟩
  rw [hb₁.content_append hroom₂, hb.content_append hroom₁]
  rfl

/-- **The packet `tls_crypt_wrap` builds.** With both keys loaded, a successful update of the
packet id and room after the header for the packet id, the tag, the plaintext and one more block
(the `buf_safe` check), the header gets the packet id, the tag and the ciphertext appended: the
sealed packet of the header and the packet id. -/
theorem tlsCryptWrap_eq {opt : CryptoOptions K} {now : Int} {q : PacketIdSend}
    (hs : BufBounded src) (hd : BufBounded dst) (hk : opt.encrypt = ⟨some key, some hkey⟩)
    (hu : packetIdSendUpdate opt.packetIdSend true now = (q, true))
    (hroom : dst.offset + dst.len + tlsCryptPidSize + (src.len + tlsCryptBlockSize + tlsCryptTagSize)
      ≤ dst.capacity) :
    ∃ pkt, tlsCryptWrap cipher hmac src dst opt now = some ({ opt with packetIdSend := q }, pkt, true) ∧
      BufBounded pkt ∧ pkt.content =
        tlsCryptSeal cipher hmac key hkey (dst.content ++ htonpid q.id ++ htontime q.time) src.content := by
  have hl := hs.len_nonneg
  have h8 : dst.offset + dst.len + 8 ≤ dst.capacity := by
    simp only [tlsCryptPidSize] at hroom
    omega
  have hb₁ := @BufBounded.append_bounded dst (htonpid q.id) hd (by simp; omega)
  have hb₂ := @BufBounded.append_bounded _ (htontime q.time) hb₁ (by simp; omega)
  have hc₂ : ((dst.append (htonpid q.id)).append (htontime q.time)).content =
      dst.content ++ htonpid q.id ++ htontime q.time := by
    rw [hb₁.content_append (by simp; omega), hd.content_append (by simp; omega)]
  have hsafe : bufSafe ((dst.append (htonpid q.id)).append (htontime q.time))
      ((bufLen src).toNat + tlsCryptBlockSize + tlsCryptTagSize) = true := by
    rw [hs.bufLen_eq, hb₂.bufSafe_iff]
    have := hd.capacity_lt_num
    have := hd.offset_nonneg
    have := hd.len_nonneg
    simp only [Buffer.offset_append, Buffer.len_append, Buffer.capacity_append, length_htonpid,
      length_htontime, tlsCryptPidSize, tlsCryptBlockSize, tlsCryptTagSize, bufSizeMax] at hroom ⊢
    omega
  obtain ⟨pkt, he, hpb, hpc⟩ := content_tlsCryptWrapEncrypt cipher hmac hb₂ hs (by
    simp only [Buffer.offset_append, Buffer.len_append, Buffer.capacity_append, length_htonpid,
      length_htontime, tlsCryptPidSize, tlsCryptBlockSize, tlsCryptTagSize] at hroom ⊢
    omega)
  refine ⟨pkt, ?_, hpb, by rw [hpc, hc₂]⟩
  rw [tlsCryptWrap, hk]
  simp only [Option.bind_eq_bind, Option.bind_some]
  rw [packetIdWrite_append hd hu h8, Option.bind_some]
  simp only [Bool.not_true, Bool.false_eq_true, if_false, hsafe, he, Option.map_some]

/-- A successful `tls_crypt_wrap` had both keys and a successful update, and built the sealed packet
of the header and the packet id. -/
theorem tlsCryptWrap_true {opt opt' : CryptoOptions K} {pkt : Buffer} {now : Int}
    (hs : BufBounded src) (hd : BufBounded dst)
    (h : tlsCryptWrap cipher hmac src dst opt now = some (opt', pkt, true)) :
    ∃ key hkey q, opt.encrypt = ⟨some key, some hkey⟩ ∧
      packetIdSendUpdate opt.packetIdSend true now = (q, true) ∧
      opt' = { opt with packetIdSend := q } ∧ BufBounded pkt ∧ pkt.content =
        tlsCryptSeal cipher hmac key hkey (dst.content ++ htonpid q.id ++ htontime q.time) src.content := by
  have hwrap := h
  rw [tlsCryptWrap] at h
  simp only [Option.bind_eq_bind, Option.bind_eq_some_iff] at h
  obtain ⟨key, hkc, hkey, hkm, ⟨send, buf₁, ok⟩, hw, h⟩ := h
  have hk : opt.encrypt = ⟨some key, some hkey⟩ := by rw [← hkc, ← hkm]
  refine ⟨key, hkey, send, hk, ?_⟩
  cases ok with
  | false => simp at h
  | true =>
      obtain ⟨hu, h8, rfl⟩ := packetIdWrite_true hd hw
      by_cases hroom : dst.offset + dst.len + tlsCryptPidSize +
          (src.len + tlsCryptBlockSize + tlsCryptTagSize) ≤ dst.capacity
      · obtain ⟨pkt₀, hwrap₀, hb, hc⟩ := tlsCryptWrap_eq cipher hmac hs hd hk hu hroom
        rw [hwrap₀] at hwrap
        simp only [Option.some.injEq, Prod.mk.injEq, and_true] at hwrap
        obtain ⟨rfl, rfl⟩ := hwrap
        exact ⟨hu, rfl, hb, hc⟩
      · -- the `buf_safe` check fails: `goto err`
        have hb₁ := @BufBounded.append_bounded dst (htonpid send.id) hd (by simp; omega)
        have hb₂ := @BufBounded.append_bounded _ (htontime send.time) hb₁ (by simp; omega)
        have hsafe : bufSafe ((dst.append (htonpid send.id)).append (htontime send.time))
            ((bufLen src).toNat + tlsCryptBlockSize + tlsCryptTagSize) = false := by
          rw [← Bool.not_eq_true, hs.bufLen_eq, hb₂.bufSafe_iff]
          have := hs.len_nonneg
          simp only [Buffer.offset_append, Buffer.len_append, Buffer.capacity_append,
            length_htonpid, length_htontime, tlsCryptPidSize, tlsCryptBlockSize,
            tlsCryptTagSize] at hroom ⊢
          omega
        simp [hsafe] at h

end WrapSpec

/-! ### `tls_crypt_unwrap` -/

/-- The decryption block of `tls_crypt_unwrap`: the bytes from `TLS_CRYPT_OFF_CT` on, decrypted
with the 16 bytes at `TLS_CRYPT_OFF_TAG` as IV, copied to `BPTR(dst)`, and the content grown over
them. -/
def tlsCryptUnwrapDecrypt (key : K) (src dst : Buffer) : Option Buffer := do
  let sp ← bufBptr src
  let iv ← src.load (sp + tlsCryptOffTag) tlsCryptBlockSize
  let ct ← src.load (sp + tlsCryptOffCt) (bufLen src - tlsCryptOffCt)
  let pt := cipher.decrypt key iv ct
  let dst ← dst.store (← bufBptr dst) pt
  match bufIncLen dst pt.length with
  | (_, false) => none
  | (dst, true) =>
      -- `cipher_ctx_final`: CTR mode holds no bytes back
      match bufIncLen dst 0 with
      | (_, false) => none
      | (dst, true) => some dst

/-- The authentication and replay blocks of `tls_crypt_unwrap`, the plaintext in `dst`: the tag at
`TLS_CRYPT_OFF_TAG` against the HMAC of the bytes before it and the plaintext, then, unless
`CO_IGNORE_PACKET_ID` is set, the packet id read at `TLS_CRYPT_OFF_PID` against the replay
record. -/
def tlsCryptUnwrapAuth (hkey : K) (src dst : Buffer) (opt : CryptoOptions K) (now : Int) :
    Option (CryptoOptions K × Buffer × Bool) := do
  let sp ← bufBptr src
  let ad ← src.load sp tlsCryptOffTag
  let tag ← src.load (sp + tlsCryptOffTag) tlsCryptTagSize
  let out ← bufContents dst
  let tagCheck := (hmac hkey (ad ++ out)).toList
  if memcmpConstantTime tag tagCheck tlsCryptTagSize != 0 then
    -- "packet authentication failed"
    some (opt, { dst with len := 0 }, false)
  else if opt.ignorePacketId then some (opt, dst, true)
  else
    match bufAdvance src tlsCryptOffPid with
    | (_, false) => none
    | (tmp, true) =>
        match packetIdRead tmp true with
        | some (pin, _, true) =>
            -- "packet replay"
            (cryptoCheckReplay opt.packetIdRec pin now).map fun r =>
              if r.2 then ({ opt with packetIdRec := r.1 }, dst, true)
              else ({ opt with packetIdRec := r.1 }, { dst with len := 0 }, false)
        | _ => none

/-- `tls_crypt_unwrap` at the clock `now`: the options with the replay record after the check, the
buffer and the result; `none` where an `ASSERT` fails or a `NULL` context is used. -/
def tlsCryptUnwrap (src dst : Buffer) (opt : CryptoOptions K) (now : Int) :
    Option (CryptoOptions K × Buffer × Bool) :=
  -- `ASSERT(src->len > 0)`, then `ASSERT(ctx->cipher)`
  if src.len ≤ 0 then none
  else do
    let key ← opt.decrypt.cipher
    -- `CRYPT_ERROR`: "packet too short", then "potential buffer overflow"
    if bufLen src < tlsCryptOffCt then some (opt, { dst with len := 0 }, false)
    else if !bufSafe dst (bufLen src - tlsCryptOffCt + tlsCryptBlockSize).toNat then
      some (opt, { dst with len := 0 }, false)
    else
      let dst ← tlsCryptUnwrapDecrypt cipher key src dst
      -- `hmac_ctx_reset` dereferences the HMAC context
      let hkey ← opt.decrypt.hmac
      tlsCryptUnwrapAuth hmac hkey src dst opt now

section UnwrapSpec

variable {key hkey : K} {src dst : Buffer}

/-- The plaintext `tls_crypt_unwrap` decrypts from a packet. -/
theorem tlsCryptUnwrapDecrypt_eq (hs : BufBounded src) (hd : BufBounded dst)
    (h49 : (tlsCryptOffCt : Int) ≤ src.len)
    (hroom : dst.offset + dst.len + (src.len - tlsCryptOffCt) ≤ dst.capacity) :
    tlsCryptUnwrapDecrypt cipher key src dst = some (dst.overwrite (cipher.decrypt key
      ((src.content.drop tlsCryptOffTag).take tlsCryptBlockSize) (src.content.drop tlsCryptOffCt))) := by
  have hsl := length_content_int hs
  set pt := cipher.decrypt key ((src.content.drop tlsCryptOffTag).take tlsCryptBlockSize)
    (src.content.drop tlsCryptOffCt) with hpt
  have hpl : (pt.length : Int) = src.len - tlsCryptOffCt := by
    rw [hpt, cipher.length_decrypt, List.length_drop]
    omega
  have hiv := hs.load_content (i := tlsCryptOffTag) (n := tlsCryptBlockSize) (by positivity)
    (by positivity) (by simp only [tlsCryptOffCt, tlsCryptTagSize, tlsCryptBlockSize] at h49 ⊢; omega)
  have hct := hs.load_content (i := tlsCryptOffCt) (n := src.len - tlsCryptOffCt) (by positivity)
    (by omega) (by omega)
  rw [Int.toNat_natCast, Int.toNat_natCast] at hiv
  rw [Int.toNat_natCast, List.take_of_length_le (by simp; omega)] at hct
  obtain ⟨b₁, hstore, hinc⟩ := @BufBounded.store_bptr_bufIncLen dst pt hd
    (by have := hs.capacity_lt_num; have := hs.len_le; have := hs.offset_nonneg; unfold bufSizeMax
        omega)
    (by omega)
  rw [tlsCryptUnwrapDecrypt, hs.bufBptr_eq, hs.bufLen_eq, hd.bufBptr_eq]
  simp only [Option.bind_eq_bind, Option.bind_some, hiv, hct]
  rw [← hpt, hstore, Option.bind_some, hinc]
  dsimp only
  rw [(hd.overwrite_bounded (by omega)).bufIncLen_zero]

/-- `memcmp_constant_time` over the whole length of two byte strings tells them apart. -/
theorem memcmpConstantTime_bne {a b : List UInt8} {n : Nat} (ha : a.length = n) (hb : b.length = n) :
    (memcmpConstantTime a b n != 0) = decide (a ≠ b) := by
  have h := @memcmpConstantTime_eq_zero_iff a b n ha.ge hb.ge
  rw [List.take_of_length_le ha.le, List.take_of_length_le hb.le] at h
  by_cases hab : a = b
  · rw [h.mpr hab]
    simp [hab]
  · have hne : memcmpConstantTime a b n ≠ 0 := fun h₀ => hab (h.mp h₀)
    simp [hab, hne]

/-- The authentication and replay blocks on a packet of at least `TLS_CRYPT_OFF_CT` bytes. -/
theorem tlsCryptUnwrapAuth_eq (hs : BufBounded src) (h49 : (tlsCryptOffCt : Int) ≤ src.len)
    (hd : BufBounded dst) (opt : CryptoOptions K) (now : Int) :
    tlsCryptUnwrapAuth hmac hkey src dst opt now =
      if (src.content.drop tlsCryptOffTag).take tlsCryptTagSize ≠
          (hmac hkey (src.content.take tlsCryptOffTag ++ dst.content)).toList then
        some (opt, { dst with len := 0 }, false)
      else if opt.ignorePacketId then some (opt, dst, true)
      else (cryptoCheckReplay opt.packetIdRec (ntohPacketId (src.content.drop tlsCryptOffPid)) now).map
        fun r => if r.2 then ({ opt with packetIdRec := r.1 }, dst, true)
          else ({ opt with packetIdRec := r.1 }, { dst with len := 0 }, false) := by
  have hsl := length_content_int hs
  simp only [tlsCryptOffCt, tlsCryptOffTag, tlsCryptOffPid, tlsCryptPidSize, tlsCryptTagSize,
    sidSize] at h49
  have had := hs.load_content (i := 0) (n := tlsCryptOffTag) le_rfl (by positivity)
    (by simp only [tlsCryptOffTag, tlsCryptOffPid, tlsCryptPidSize, sidSize]; omega)
  rw [Int.add_zero, Int.toNat_zero, List.drop_zero, Int.toNat_natCast] at had
  have htag := hs.load_content (i := tlsCryptOffTag) (n := tlsCryptTagSize) (by positivity)
    (by positivity) (by simp only [tlsCryptOffTag, tlsCryptOffPid, tlsCryptPidSize, sidSize,
      tlsCryptTagSize]; omega)
  rw [Int.toNat_natCast, Int.toNat_natCast] at htag
  have hadv := hs.bufAdvance_eq tlsCryptOffPid
  rw [if_pos ⟨by positivity, by simp only [tlsCryptOffPid, sidSize]; omega⟩] at hadv
  have hw := hs.window (o := src.offset + tlsCryptOffPid) (l := src.len - tlsCryptOffPid)
    (by have := hs.offset_nonneg; positivity) (by simp only [tlsCryptOffPid, sidSize]; omega)
    (by have := hs.len_le; omega)
  obtain ⟨tmp, hread⟩ := packetIdRead_eq hw (by simp only [tlsCryptOffPid, sidSize]; omega)
  rw [Buffer.content_advance hs.offset_nonneg (by positivity)
    (by simp only [tlsCryptOffPid, sidSize]; omega), Int.toNat_natCast] at hread
  have hm := @memcmpConstantTime_bne ((src.content.drop tlsCryptOffTag).take tlsCryptTagSize)
    (hmac hkey (src.content.take tlsCryptOffTag ++ dst.content)).toList tlsCryptTagSize
    (by simp only [List.length_take, List.length_drop, tlsCryptOffTag, tlsCryptOffPid, tlsCryptPidSize,
      sidSize, tlsCryptTagSize]; omega) (by simp [tlsCryptTagSize])
  rw [tlsCryptUnwrapAuth, hs.bufBptr_eq]
  simp only [Option.bind_eq_bind, Option.bind_some, had, htag, hd.bufContents_eq, hm,
    decide_eq_true_eq, hadv, hread]

/-- With both keys, a packet of at least `TLS_CRYPT_OFF_CT` bytes and room for its plaintext and
one more block (the `buf_safe` check), `tls_crypt_unwrap` decrypts into `dst` and goes on to the
tag and replay checks. -/
theorem tlsCryptUnwrap_eq {opt : CryptoOptions K} {now : Int} (hs : BufBounded src)
    (hd : BufBounded dst) (hk : opt.decrypt = ⟨some key, some hkey⟩)
    (h49 : (tlsCryptOffCt : Int) ≤ src.len)
    (hroom : dst.offset + dst.len + (src.len - tlsCryptOffCt + tlsCryptBlockSize) ≤ dst.capacity) :
    tlsCryptUnwrap cipher hmac src dst opt now = tlsCryptUnwrapAuth hmac hkey src
      (dst.overwrite (cipher.decrypt key ((src.content.drop tlsCryptOffTag).take tlsCryptBlockSize)
        (src.content.drop tlsCryptOffCt))) opt now := by
  have hsafe : bufSafe dst (bufLen src - tlsCryptOffCt + tlsCryptBlockSize).toNat = true := by
    rw [hs.bufLen_eq, hd.bufSafe_iff]
    have := hd.capacity_lt_num
    have := hd.offset_nonneg
    have := hd.len_nonneg
    unfold bufSizeMax
    omega
  have h49' : (tlsCryptOffCt : Int) = 49 := rfl
  rw [tlsCryptUnwrap, if_neg (by omega), hk]
  simp only [Option.bind_eq_bind, Option.bind_some]
  rw [hs.bufLen_eq, if_neg (by omega), ← hs.bufLen_eq, hsafe, Bool.not_true, if_neg (by decide),
    tlsCryptUnwrapDecrypt_eq cipher hs hd h49 (by omega), Option.bind_some]

/-- Every failed authentication or replay check empties `dst`. -/
theorem tlsCryptUnwrapAuth_false {opt opt' : CryptoOptions K} {dst' : Buffer} {now : Int}
    (h : tlsCryptUnwrapAuth hmac hkey src dst opt now = some (opt', dst', false)) : dst'.len = 0 := by
  rw [tlsCryptUnwrapAuth] at h
  simp only [Option.bind_eq_bind, Option.bind_eq_some_iff] at h
  obtain ⟨sp, -, ad, -, tag, -, out, -, h⟩ := h
  split_ifs at h
  · simp only [Option.some.injEq, Prod.mk.injEq] at h
    rw [← h.2.1]
  · simp at h
  · split at h
    · simp at h
    · split at h
      · obtain ⟨⟨r, ok⟩, -, hr⟩ := Option.map_eq_some_iff.mp h
        cases ok with
        | false =>
            simp only [Bool.false_eq_true, if_false, Prod.mk.injEq] at hr
            rw [← hr.2.1]
        | true => simp at hr
      · simp at h

/-- **Every false return of `tls_crypt_unwrap` leaves `dst->len == 0`.** -/
theorem tlsCryptUnwrap_false {opt opt' : CryptoOptions K} {dst' : Buffer} {now : Int}
    (h : tlsCryptUnwrap cipher hmac src dst opt now = some (opt', dst', false)) : dst'.len = 0 := by
  rw [tlsCryptUnwrap] at h
  -- the two `CRYPT_ERROR`s before decryption, then the decrypted packet (the `ASSERT` returns
  -- `none`, which `split_ifs` discards)
  split_ifs at h with h0 h1 h2
  all_goals simp only [Option.bind_eq_bind, Option.bind_eq_some_iff] at h
  · obtain ⟨key, -, h⟩ := h
    simp only [Option.some.injEq, Prod.mk.injEq] at h
    rw [← h.2.1]
  · obtain ⟨key, -, h⟩ := h
    simp only [Option.some.injEq, Prod.mk.injEq] at h
    rw [← h.2.1]
  · obtain ⟨key, -, dst₁, -, hkey, -, h⟩ := h
    exact tlsCryptUnwrapAuth_false hmac h

/-- A successful `tls_crypt_unwrap` had both keys, a long enough packet and room, and its
authentication and replay blocks succeeded on the decrypted plaintext. -/
theorem tlsCryptUnwrap_true {opt opt' : CryptoOptions K} {dst' : Buffer} {now : Int}
    (hs : BufBounded src) (hd : BufBounded dst)
    (h : tlsCryptUnwrap cipher hmac src dst opt now = some (opt', dst', true)) :
    ∃ key hkey, opt.decrypt = ⟨some key, some hkey⟩ ∧ (tlsCryptOffCt : Int) ≤ src.len ∧
      dst.offset + dst.len + (src.len - tlsCryptOffCt + tlsCryptBlockSize) ≤ dst.capacity ∧
      tlsCryptUnwrapAuth hmac hkey src (dst.overwrite (cipher.decrypt key
        ((src.content.drop tlsCryptOffTag).take tlsCryptBlockSize) (src.content.drop tlsCryptOffCt)))
        opt now = some (opt', dst', true) := by
  have hwrap := h
  rw [tlsCryptUnwrap] at h
  split_ifs at h with h0 h1 h2
  all_goals simp only [Option.bind_eq_bind, Option.bind_eq_some_iff] at h
  · simp at h
  · simp at h
  · obtain ⟨key, hkc, dst₁, -, hkey, hkm, -⟩ := h
    rw [hs.bufLen_eq] at h1 h2
    simp only [Bool.not_eq_true', Bool.not_eq_false] at h2
    rw [hd.bufSafe_iff] at h2
    have hroom : dst.offset + dst.len + (src.len - tlsCryptOffCt + tlsCryptBlockSize) ≤
        dst.capacity := by omega
    have hk : opt.decrypt = ⟨some key, some hkey⟩ := by rw [← hkc, ← hkm]
    refine ⟨key, hkey, hk, by omega, hroom, ?_⟩
    rw [← tlsCryptUnwrap_eq cipher hmac hs hd hk (by omega) hroom]
    exact hwrap

/-- A successful authentication and replay block: the tag matched, and the packet id passed the
replay check unless `CO_IGNORE_PACKET_ID` is set. -/
theorem tlsCryptUnwrapAuth_true {opt opt' : CryptoOptions K} {dst' : Buffer} {now : Int}
    (hs : BufBounded src) (h49 : (tlsCryptOffCt : Int) ≤ src.len) (hd : BufBounded dst)
    (h : tlsCryptUnwrapAuth hmac hkey src dst opt now = some (opt', dst', true)) :
    dst' = dst ∧ (src.content.drop tlsCryptOffTag).take tlsCryptTagSize =
        (hmac hkey (src.content.take tlsCryptOffTag ++ dst.content)).toList ∧
      (opt.ignorePacketId = true ∨ cryptoCheckReplay opt.packetIdRec
        (ntohPacketId (src.content.drop tlsCryptOffPid)) now = some (opt'.packetIdRec, true)) := by
  rw [tlsCryptUnwrapAuth_eq hmac hs h49 hd] at h
  split_ifs at h with htag hign
  · simp at h
  · simp only [Option.some.injEq, Prod.mk.injEq, and_true] at h
    exact ⟨h.2.symm, not_not.mp htag, Or.inl hign⟩
  · obtain ⟨⟨r, ok⟩, hr, hr'⟩ := Option.map_eq_some_iff.mp h
    cases ok with
    | false => simp at hr'
    | true =>
        simp only [if_true, Prod.mk.injEq, and_true] at hr'
        obtain ⟨rfl, rfl⟩ := hr'
        exact ⟨rfl, not_not.mp htag, Or.inr hr⟩

/-- **`tls_crypt_unwrap` refines opening.** Into an empty buffer with room, a packet that opens
under the decryption keys leaves its plaintext, and the result is that of the replay check unless
`CO_IGNORE_PACKET_ID` is set. -/
theorem tlsCryptUnwrap_of_open {opt : CryptoOptions K} {now : Int} {plaintext : List UInt8}
    (hs : BufBounded src) (hd : BufBounded dst) (hk : opt.decrypt = ⟨some key, some hkey⟩)
    (hlen : dst.len = 0) (hroom : dst.offset + (src.len - tlsCryptOffCt + tlsCryptBlockSize) ≤ dst.capacity)
    (hopen : tlsCryptOpen cipher hmac key hkey src.content = some plaintext) :
    tlsCryptUnwrap cipher hmac src dst opt now =
      if opt.ignorePacketId then some (opt, dst.overwrite plaintext, true)
      else (cryptoCheckReplay opt.packetIdRec (ntohPacketId (src.content.drop tlsCryptOffPid)) now).map
        fun r => if r.2 then ({ opt with packetIdRec := r.1 }, dst.overwrite plaintext, true)
          else ({ opt with packetIdRec := r.1 }, { dst.overwrite plaintext with len := 0 }, false) := by
  simp only [tlsCryptOpen] at hopen
  split_ifs at hopen with hcond
  obtain rfl := Option.some.inj hopen
  obtain ⟨h49, htag⟩ := hcond
  have h49' : (tlsCryptOffCt : Int) ≤ src.len := by rw [← length_content_int hs]; exact_mod_cast h49
  have hpl := cipher.length_decrypt key ((src.content.drop tlsCryptOffTag).take tlsCryptBlockSize)
    (src.content.drop tlsCryptOffCt)
  have hroom' : dst.offset + dst.len + (cipher.decrypt key ((src.content.drop tlsCryptOffTag).take
      tlsCryptBlockSize) (src.content.drop tlsCryptOffCt)).length ≤ dst.capacity := by
    rw [hpl, List.length_drop, hlen]
    have := length_content_int hs
    simp only [tlsCryptBlockSize] at hroom
    omega
  have hc := hd.content_overwrite hroom'
  rw [hlen, Int.toNat_zero, List.take_zero, List.append_nil] at hc
  rw [tlsCryptUnwrap_eq cipher hmac hs hd hk h49' (by rw [hlen]; omega),
    tlsCryptUnwrapAuth_eq hmac hs h49' (hd.overwrite_bounded hroom'), hc, if_neg (not_not.mpr htag)]

end UnwrapSpec

/-! ### `tls_crypt_v2_unwrap_client_key`

A wrapped client key (WKc) is `tag ‖ ciphertext ‖ net_len`: the HMAC tag under the server key of
`net_len` and the plaintext, the client key and the metadata encrypted under the server key with
the tag's leading 16 bytes as IV, and the length of the whole in network order. -/

-- `TLS_CRYPT_V2_MAX_WKC_LEN`, `TLS_CRYPT_V2_CLIENT_KEY_LEN` (`sizeof(client_key->keys)`, two
-- `struct key` of 64 cipher and 64 HMAC bytes) and `TLS_CRYPT_V2_MAX_METADATA_LEN`
def tlsCryptV2MaxWkcLen : Nat := 1024

def tlsCryptV2ClientKeyLen : Nat := 2048 / 8

def tlsCryptV2MaxMetadataLen : Nat := tlsCryptV2MaxWkcLen - (tlsCryptV2ClientKeyLen + tlsCryptTagSize + 2)

/-- `tls_crypt_v2_unwrap_client_key(client_key, metadata, wrapped_client_key, server_key)` with the
server key's cipher and HMAC keys: the client key bytes (zeroed on failure), the metadata buffer
and the result; `none` where an `ASSERT` fails or memory outside an allocation is touched. -/
def tlsCryptV2UnwrapClientKey (serverCipher serverHmac : K) (metadata wrapped : Buffer) :
    Option (List UInt8 × Buffer × Bool) := do
  let fail := some (List.replicate tlsCryptV2ClientKeyLen 0, metadata, false)
  -- "wrapped client key too big"
  if (tlsCryptV2MaxWkcLen : Int) < bufLen wrapped then fail
  -- "failed to read length"
  else if bufLen wrapped < 2 then fail
  else
    let tagAt ← bufBptr wrapped
    let netLen ← wrapped.load (tagAt + bufLen wrapped - 2) 2
    -- "invalid length"
    if (BigEndian.decode netLen : Int) ≠ bufLen wrapped then fail
    else
      let wrapped := (bufIncLen wrapped (-2)).1
      match bufAdvance wrapped tlsCryptTagSize with
      -- "failed to read tag"
      | (_, false) => fail
      | (wrapped, true) =>
          let iv ← wrapped.load tagAt tlsCryptBlockSize
          let ct ← bufContents wrapped
          -- `plaintext` over the zeroed `plaintext_buf_data[TLS_CRYPT_V2_MAX_WKC_LEN]`
          let plaintext : Buffer :=
            ⟨tlsCryptV2MaxWkcLen, 0, 0, some (List.replicate tlsCryptV2MaxWkcLen 0)⟩
          let pt := cipher.decrypt serverCipher iv ct
          let plaintext ← plaintext.store 0 pt
          match bufIncLen plaintext pt.length with
          | (_, false) => none
          | (plaintext, true) =>
              -- `cipher_ctx_final`: CTR mode holds no bytes back
              match bufIncLen plaintext 0 with
              | (_, false) => none
              | (plaintext, true) =>
                  let tag ← wrapped.load tagAt tlsCryptTagSize
                  let out ← bufContents plaintext
                  let tagCheck := (hmac serverHmac (netLen ++ out)).toList
                  -- "client key authentication error"
                  if memcmpConstantTime tag tagCheck tlsCryptTagSize != 0 then fail
                  -- "failed to read client key"
                  else if bufLen plaintext < tlsCryptV2ClientKeyLen then fail
                  else
                    let key := out.take tlsCryptV2ClientKeyLen
                    match bufAdvance plaintext tlsCryptV2ClientKeyLen with
                    | (_, false) => none
                    | (plaintext, true) =>
                        match ← bufCopy metadata plaintext with
                        -- "metadata too large for supplied buffer"
                        | (_, false) => fail
                        | (metadata, true) => some (key, metadata, true)

/-- **tls-crypt round trip and authenticity.** For any cipher whose decryption inverts its
encryption and any HMAC: a packet that `tls_crypt_wrap` built from a 9-byte header unwraps, into an
empty buffer with room, to the plaintext under the same keys, when the receiver's replay record
accepts the packet id or `CO_IGNORE_PACKET_ID` is set; a successful unwrap found the tag equal to
the HMAC of the header, the packet id and the plaintext it decrypted, and the packet id passed
`crypto_check_replay` unless `CO_IGNORE_PACKET_ID` is set; a failed one leaves an empty buffer. -/
theorem tls_crypt_unwrap_inverts_wrap :
    (∀ {src dst pkt out : Buffer} {optA optA' optB : CryptoOptions K} {nowA nowB : Int},
      BufBounded src → BufBounded dst → dst.len = tlsCryptOffPid → BufBounded out → out.len = 0 →
      out.offset + src.len + tlsCryptBlockSize ≤ out.capacity → optB.decrypt = optA.encrypt →
      tlsCryptWrap cipher hmac src dst optA nowA = some (optA', pkt, true) →
      (optB.ignorePacketId = true ∨
        ∃ rec, cryptoCheckReplay optB.packetIdRec optA'.packetIdSend.onWire nowB = some (rec, true)) →
      ∃ optB' out', tlsCryptUnwrap cipher hmac pkt out optB nowB = some (optB', out', true) ∧
        out'.content = src.content) ∧
    (∀ {src dst dst' : Buffer} {opt opt' : CryptoOptions K} {now : Int},
      BufBounded src → BufBounded dst →
      tlsCryptUnwrap cipher hmac src dst opt now = some (opt', dst', true) →
      ∃ key hkey, opt.decrypt = ⟨some key, some hkey⟩ ∧
        (src.content.drop tlsCryptOffTag).take tlsCryptTagSize =
          (hmac hkey (src.content.take tlsCryptOffTag ++ dst'.content)).toList ∧
        dst'.content.take (src.content.length - tlsCryptOffCt) = cipher.decrypt key
          ((src.content.drop tlsCryptOffTag).take tlsCryptBlockSize) (src.content.drop tlsCryptOffCt) ∧
        (opt.ignorePacketId = true ∨ cryptoCheckReplay opt.packetIdRec
          (ntohPacketId (src.content.drop tlsCryptOffPid)) now = some (opt'.packetIdRec, true))) ∧
    (∀ {src dst dst' : Buffer} {opt opt' : CryptoOptions K} {now : Int},
      tlsCryptUnwrap cipher hmac src dst opt now = some (opt', dst', false) → dst'.len = 0) := by
  refine ⟨?_, ?_, fun h => tlsCryptUnwrap_false cipher hmac h⟩
  · intro src dst pkt out optA optA' optB nowA nowB hs hd hhdr ho hlen hroom hdec hwrap hreplay
    obtain ⟨key, hkey, q, hk, -, rfl, hpb, hpc⟩ := tlsCryptWrap_true cipher hmac hs hd hwrap
    -- the header and the packet id are the 17 authenticated bytes
    have had : (dst.content ++ htonpid q.id ++ htontime q.time).length = tlsCryptOffTag := by
      simp only [List.length_append, length_htonpid, length_htontime, hd.length_content, hhdr]
      rfl
    have hopen : tlsCryptOpen cipher hmac key hkey pkt.content = some src.content := by
      rw [hpc]
      exact tlsCryptOpen_seal cipher hmac had
    have hpin : ntohPacketId (pkt.content.drop tlsCryptOffPid) = q.onWire := by
      have hh : dst.content.length = tlsCryptOffPid := by
        rw [hd.length_content, hhdr]
        rfl
      rw [hpc, tlsCryptSeal]
      simp only [List.append_assoc]
      rw [List.drop_left' hh, ← List.append_assoc, ntohPacketId_append (by simp),
        ntohPacketId_htonpid]
    have hpl : pkt.len = tlsCryptOffCt + src.len := by
      rw [← length_content_int hpb, hpc, length_tlsCryptSeal cipher hmac had, Nat.cast_add,
        length_content_int hs]
    have hc : (out.overwrite src.content).content = src.content := by
      rw [ho.content_overwrite (by rw [hlen, length_content_int hs]; omega), hlen]
      simp
    rw [tlsCryptUnwrap_of_open cipher hmac hpb ho (hdec.trans hk) hlen (by rw [hpl]; omega) hopen,
      hpin]
    by_cases hign : optB.ignorePacketId = true
    · rw [if_pos hign]
      exact ⟨_, _, rfl, hc⟩
    · obtain ⟨rec, hrec⟩ := hreplay.resolve_left hign
      rw [if_neg hign, hrec, Option.map_some]
      exact ⟨_, _, rfl, hc⟩
  · intro src dst dst' opt opt' now hs hd h
    obtain ⟨key, hkey, hk, h49, hroom, hauth⟩ := tlsCryptUnwrap_true cipher hmac hs hd h
    have hpl := cipher.length_decrypt key ((src.content.drop tlsCryptOffTag).take tlsCryptBlockSize)
      (src.content.drop tlsCryptOffCt)
    have hroom' : dst.offset + dst.len + (cipher.decrypt key ((src.content.drop tlsCryptOffTag).take
        tlsCryptBlockSize) (src.content.drop tlsCryptOffCt)).length ≤ dst.capacity := by
      rw [hpl, List.length_drop]
      have := length_content_int hs
      omega
    obtain ⟨rfl, htag, hrep⟩ := tlsCryptUnwrapAuth_true hmac hs h49 (hd.overwrite_bounded hroom') hauth
    refine ⟨key, hkey, hk, htag, ?_, hrep⟩
    rw [hd.content_overwrite hroom', List.take_left' (by rw [hpl, List.length_drop])]

/-- A backend for the examples: CTR mode over the key stream `key + iv[0] + i`, and a MAC that
repeats the byte sum of the key and the input. -/
def sampleCipher : StreamCipher UInt8 := ctrMode fun key iv i => key + iv.headD 0 + UInt8.ofNat i

/-- The MAC of `sampleCipher`'s examples. -/
def sampleHmac (hkey : UInt8) (input : List UInt8) : Vector UInt8 32 :=
  Vector.replicate 32 (input.foldl (· + ·) hkey)

/-- Options with the keys `7` (cipher) and `9` (HMAC) both ways, a fresh sending state and the
TCP-mode replay record `rec`. -/
def sampleOptions (rec : PacketIdRec) (ignore : Bool) : CryptoOptions UInt8 :=
  ⟨⟨some 7, some 9⟩, ⟨some 7, some 9⟩, ⟨0, 0⟩, rec, ignore⟩

/-- A 100-byte buffer holding `bytes` at its start. -/
def sampleBuffer (bytes : List UInt8) : Buffer :=
  ⟨100, 0, bytes.length, some (bytes ++ List.replicate (100 - bytes.length) 0)⟩

theorem sampleBuffer_bounded {bytes : List UInt8} (h : bytes.length ≤ 100) :
    BufBounded (sampleBuffer bytes) := by
  refine ⟨⟨rfl, ?_, le_rfl, by simp [sampleBuffer], by simp [sampleBuffer], ?_⟩,
    by simp [sampleBuffer, bufSizeMax]⟩
  · simp [sampleBuffer, Buffer.bytes]
    omega
  · simp [sampleBuffer]
    omega

/-- The header `P_CONTROL_V1` with key id 0 and session id `1 … 8`. -/
def sampleHeader : List UInt8 := [0x20, 1, 2, 3, 4, 5, 6, 7, 8]

/-- A TCP-mode record keeps no window and no time backtrack. -/
theorem seqListFits_tcp : SeqListFits none 0 0 := ⟨rfl, rfl⟩

/-- The TCP-mode replay record of `packet_id_init(0, 0)`, which has seen `(time, id)`. -/
def sampleRecord (time : Int) (id : UInt64) : PacketIdRec := ⟨0, time, id, 0, 0, none, seqListFits_tcp⟩

theorem tls_crypt_unwrap_inverts_wrap_three_bytes :
    ∃ pkt, tlsCryptWrap sampleCipher sampleHmac (Buffer.ofBytes [1, 2, 3]) (sampleBuffer sampleHeader)
        (sampleOptions (sampleRecord 0 0) false) 5 =
        some ({ sampleOptions (sampleRecord 0 0) false with packetIdSend := ⟨1, 5⟩ }, pkt, true) ∧
      ∃ opt' out, tlsCryptUnwrap sampleCipher sampleHmac pkt (sampleBuffer [])
        (sampleOptions (sampleRecord 0 0) false) 6 = some (opt', out, true) ∧
        out.content = [1, 2, 3] := by
  obtain ⟨pkt, hw⟩ : ∃ pkt, tlsCryptWrap sampleCipher sampleHmac (Buffer.ofBytes [1, 2, 3])
      (sampleBuffer sampleHeader) (sampleOptions (sampleRecord 0 0) false) 5 =
      some ({ sampleOptions (sampleRecord 0 0) false with packetIdSend := ⟨1, 5⟩ }, pkt, true) :=
    ⟨_, rfl⟩
  refine ⟨pkt, hw, ?_⟩
  exact (tls_crypt_unwrap_inverts_wrap sampleCipher sampleHmac).1 (bufBounded_ofBytes (by decide))
    (sampleBuffer_bounded (by decide)) rfl (sampleBuffer_bounded (by decide)) rfl (by decide) rfl hw
    (Or.inr ⟨_, rfl⟩)

/-- With `CO_IGNORE_PACKET_ID` set, as `tls_auth_standalone_init` sets it for the stateless
handling of a first packet, `tls_crypt_unwrap` accepts the packet of the example above replayed
to a receiver whose record already accepted its packet id `(5, 1)`, which `crypto_check_replay`
refuses. -/
theorem tls_crypt_unwrap_skips_replay_check :
    ∃ (src dst : Buffer) (opt : CryptoOptions UInt8) (now : Int), BufBounded src ∧ BufBounded dst ∧
      (∃ opt' dst', tlsCryptUnwrap sampleCipher sampleHmac src dst opt now = some (opt', dst', true)) ∧
      (cryptoCheckReplay opt.packetIdRec (ntohPacketId (src.content.drop tlsCryptOffPid)) now).map
        Prod.snd = some false :=
  ⟨Buffer.ofBytes (sampleHeader ++ [0, 0, 0, 1, 0, 0, 0, 5] ++ List.replicate 32 89 ++ [97, 99, 97]),
    sampleBuffer [], sampleOptions (sampleRecord 5 1) true, 6, bufBounded_ofBytes (by decide),
    sampleBuffer_bounded (by decide), ⟨_, _, rfl⟩, rfl⟩

end TlsCrypt

end OpenVpn
