import OpenVpn.TlsCrypt
import OpenVpn.ReliableAckWrite
import OpenVpn.FrameSize

/-! The wrapping of control channel packets in `ssl_pkt.c`: `write_control_auth` puts the ack
record in front of (or behind) the payload with `reliable_ack_write`, and `tls_wrap_control` puts
the opcode byte and the session id in front. Under `--tls-auth` it then runs `openvpn_encrypt` with
a key that has only an HMAC, which prepends the packet id and the HMAC of everything after it, and
`swap_hmac` moves the HMAC and the packet id behind the opcode and the session id, where the wire
format has them. `read_control_auth` swaps them back, runs `openvpn_decrypt`, which checks and
removes the HMAC and the packet id, and skips the opcode and the session id.

HMAC is a parameter (`HmacAlg`): a digest size for each key and a function of the key and the
bytes fed to it. Of `openvpn_encrypt_v1` and `openvpn_decrypt_v1` only the branch for a key
without a cipher is modelled, the one the tls-auth key type (cipher `none`) takes; a cipher context
makes them return `none`. The tls-crypt mode uses the model of `tls_crypt.c`, and so does the
client key of a tls-crypt-v2 reset, which is located, unwrapped under the server key and loaded;
`init_key_ctx` of the key bytes (`keyOf`) and the verdict of the metadata verify script are
parameters. The memory a `buf_sub` shares with
its parent is followed back: the ack record lands in the bytes the sub-buffer took. -/

namespace OpenVpn

-- `P_OPCODE_SHIFT`; `P_CONTROL_HARD_RESET_CLIENT_V3`; `P_CONTROL_WKC_V1`
def pOpcodeShift : Nat := 3

def pControlHardResetClientV3 : UInt8 := 10

def pControlWkcV1 : UInt8 := 11

/-- `enum tls_wrap_mode`. -/
inductive TlsWrapMode where
  | none
  | auth
  | crypt
  deriving DecidableEq, Repr

/-- An HMAC backend: `hmac_ctx_size` of a key, and the MAC that `hmac_ctx_update` and
`hmac_ctx_final` compute over the bytes fed to them, of that size. -/
structure HmacAlg (K : Type) where
  size : K → Nat
  mac : K → List UInt8 → List UInt8
  length_mac : ∀ key input, (mac key input).length = size key

/-- The fields of `struct tls_wrap_ctx` the wrapping reads and writes. `longForm` is
`CO_PACKET_ID_LONG_FORM` in `opt.flags`, `tlsCryptV2Wkc` the buffer `tls_crypt_v2_wkc` points at,
`tlsCryptV2ServerKey` whether `tls_crypt_v2_server_key.cipher` is set, and
`tlsCryptV2ServerCipher` and `tlsCryptV2ServerHmac` the two keys of that context, read only when
it is set. `originalWrapKeydata` is the client key that unwrapping a client key leaves, and
`tlsCryptV2Metadata` the buffer of its metadata. -/
structure TlsWrapCtx (K : Type) where
  mode : TlsWrapMode
  opt : CryptoOptions K
  longForm : Bool
  work : Buffer
  tlsCryptV2Wkc : Buffer
  tlsCryptV2ServerKey : Bool
  tlsCryptV2ServerCipher : K
  tlsCryptV2ServerHmac : K
  originalWrapKeydata : List UInt8
  tlsCryptV2Metadata : Buffer

/-- The fields of `struct key_state` that `write_control_auth` reads and writes. -/
structure KeyStateAcks where
  keyId : Nat
  recAck : List UInt32
  lruAcks : List UInt32
  sessionIdRemote : List UInt8
  deriving DecidableEq, Repr

/-- The fields of `struct tls_session` that `write_control_auth` reads and writes: the two wrapping
contexts, our session id, `opt->server` and `CO_USE_TLS_KEY_MATERIAL_EXPORT` in
`opt->crypto_flags`. -/
structure TlsSessionWrap (K : Type) where
  tlsWrap : TlsWrapCtx K
  tlsWrapReneg : TlsWrapCtx K
  sessionId : List UInt8
  server : Bool
  keyMaterialExport : Bool

/-- `clear_buf()`. -/
def clearBuf : Buffer := ⟨0, 0, 0, none⟩

/-- `buf_forward_capacity_total`. -/
def bufForwardCapacityTotal (b : Buffer) : Nat :=
  if bufValid b then (b.capacity - b.offset).toNat else 0

/-- A `buf_write_prepend` of `size` bytes of `src` under `ASSERT`: `none` where it fails. -/
def bufWritePrependAssert (b : Buffer) (src : List UInt8) (size : Nat) : Option Buffer :=
  match bufWritePrepend b src 0 size with
  | some (b, true) => some b
  | _ => none

/-- `tls_session_get_tls_wrap(session, key_id)`: a renegotiation (a key id above `0`) uses
`tls_wrap_reneg` when that is a tls-crypt context. -/
def TlsSessionWrap.usesReneg (session : TlsSessionWrap K) (keyId : Nat) : Bool :=
  decide (0 < keyId) && decide (session.tlsWrapReneg.mode = .crypt)

/-- The context `tls_session_get_tls_wrap` returns. -/
def tlsSessionGetTlsWrap (session : TlsSessionWrap K) (keyId : Nat) : TlsWrapCtx K :=
  if session.usesReneg keyId then session.tlsWrapReneg else session.tlsWrap

/-- The session after a write through the pointer `tls_session_get_tls_wrap` returned. -/
def TlsSessionWrap.setTlsWrap (session : TlsSessionWrap K) (keyId : Nat) (ctx : TlsWrapCtx K) :
    TlsSessionWrap K :=
  if session.usesReneg keyId then { session with tlsWrapReneg := ctx }
  else { session with tlsWrap := ctx }

/-- `ASSERT(reliable_ack_write(ack, ack_mru, buf, sid, max, prepend))` on the packet buffer:
`ack` and `ack_mru` after it, and the buffer with the record in the bytes `buf_sub` took, in front
of the content or behind it. -/
def reliableAckWriteInto (ack mru : List UInt32) (buf : Buffer) (sid : List UInt8) (max : Nat)
    (prepend : Bool) : Option (List UInt32 × List UInt32 × Buffer) :=
  match reliableAckWrite ack mru buf sid max prepend with
  | some (ack, mru, parent, bytes, true) =>
      let start := if prepend then parent.offset else buf.offset + buf.len
      (parent.store start bytes).map fun parent => (ack, mru, parent)
  | _ => none

section Wrap

variable {K : Type} (hmacAlg : HmacAlg K)

/-- The four `memcpy` of `swap_hmac`, through its stack buffers `buf1` and `buf2`: the `e1` bytes
at `b` and the `e2` bytes after them change places. -/
def swapMemcpy (buf : Buffer) (b : Int) (e1 e2 : Nat) : Option Buffer := do
  let buf1 ← buf.load b e1
  let buf2 ← buf.load (b + e1) e2
  let buf ← buf.store b buf2
  buf.store (b + e2) buf1

/-- `swap_hmac(buf, co, incoming)`: the first `e1` bytes and the `e2` after them change places,
with `e1` the opcode and the session id and `e2` the HMAC and the packet id when incoming, and the
other way round when outgoing; false when the buffer is shorter than both. -/
def swapHmac (buf : Buffer) (co : CryptoOptions K) (incoming : Bool) : Option (Buffer × Bool) := do
  let ctx := if incoming then co.decrypt else co.encrypt
  -- `ASSERT(ctx->hmac)`
  let hkey ← ctx.hmac
  -- hmac + packet_id (8 bytes)
  let hmacSize := hmacAlg.size hkey + packetIdSize true
  -- opcode (1 byte) + session_id (8 bytes)
  let osidSize := 1 + sidSize
  let (e1, e2) := if incoming then (osidSize, hmacSize) else (hmacSize, osidSize)
  if e1 ≤ 256 ∧ e2 ≤ 256 then
    if (e1 + e2 : Int) ≤ buf.len then
      let b ← bufBptr buf
      (swapMemcpy buf b e1 e2).map fun buf => (buf, true)
    else some (buf, false)
  else none

/-- `if (BLEN(&work)) buf_write_prepend(buf, BPTR(&work), BLEN(&work))` in `openvpn_encrypt_v1`,
whose result is not checked. -/
def prependWork (buf work : Buffer) : Option Buffer :=
  if bufLen work ≠ 0 then
    match bufBptr work, work.data with
    | some wp, some mem => (bufWritePrepend buf mem wp (bufLen work)).map Prod.fst
    | _, _ => none
  else some buf

/-- `openvpn_encrypt_v1(buf, work, opt)` for a key without a cipher ("No Encryption"): the packet
id prepended, room for the HMAC prepended, the content of `work` prepended, and the HMAC of the
bytes from the packet id to the end written into its room; after a packet id roll over the buffer
is emptied. The options carry the advanced packet id. -/
def openvpnEncryptV1 (buf work : Buffer) (opt : CryptoOptions K) (longForm : Bool) (now : Int) :
    Option (CryptoOptions K × Buffer) :=
  if 0 < buf.len then
    match opt.encrypt.cipher with
    -- the CBC, CFB and OFB branch, never taken with the tls-auth key type
    | some _ => none
    | none =>
        match packetIdWrite opt.packetIdSend buf longForm true now with
        | none => none
        -- "ENCRYPT ERROR: packet ID roll over"
        | some (send, buf, false) => some ({ opt with packetIdSend := send }, { buf with len := 0 })
        | some (send, buf, true) =>
            let opt := { opt with packetIdSend := send }
            match opt.encrypt.hmac with
            | none => (prependWork buf work).map fun buf => (opt, buf)
            | some hkey => do
                let hmacStart ← bufBptr buf
                match bufPrepend buf (hmacAlg.size hkey) with
                -- `ASSERT(mac_out = buf_prepend(buf, hmac_ctx_size(ctx->hmac)))`
                | (_, none) => none
                | (buf, some macOut) =>
                    -- `work = *buf`: the HMAC runs from `hmac_start` to `BEND(&work)`
                    let work ← prependWork buf work
                    let bend ← (bufBptr work).map (· + bufLen work)
                    let input ← work.load hmacStart (bend - hmacStart)
                    let buf ← work.store macOut (hmacAlg.mac hkey input)
                    some (opt, buf)
  else some (opt, buf)

/-- `openvpn_encrypt(buf, work, opt)`: `cipher_ctx_mode_aead` is false for a `NULL` cipher
context, so a key without a cipher goes to `openvpn_encrypt_v1`. -/
def openvpnEncrypt (buf work : Buffer) (opt : CryptoOptions K) (longForm : Bool) (now : Int) :
    Option (CryptoOptions K × Buffer) :=
  if 0 < buf.len then
    match opt.encrypt.cipher with
    -- the AEAD branch and the cipher branch of `openvpn_encrypt_v1`
    | some _ => none
    | none => openvpnEncryptV1 hmacAlg buf work opt longForm now
  else some (opt, buf)

/-- The "Verify the HMAC" block of `openvpn_decrypt_v1`: the buffer past the HMAC when the HMAC
at its front is the HMAC of the rest, `some none` where `CRYPT_ERROR` or `CRYPT_DROP` jumps to
`error_exit`, and `none` where an `ASSERT` fails. -/
def decryptVerifyHmac (buf : Buffer) (hkey : K) : Option (Option Buffer) :=
  let hmacLen := hmacAlg.size hkey
  -- "missing authentication info"
  if buf.len < hmacLen then some none
  else do
    let b ← bufBptr buf
    let input ← buf.load (b + hmacLen) (bufLen buf - hmacLen)
    let packetHmac ← buf.load b hmacLen
    -- "packet HMAC authentication failed"
    if memcmpConstantTime (hmacAlg.mac hkey input) packetHmac hmacLen ≠ 0 then some none
    else
      match bufAdvance buf hmacLen with
      | (buf, true) => some (some buf)
      | (_, false) => none

/-- `openvpn_decrypt_v1(buf, work, opt, frame)` for a key without a cipher: the HMAC checked and
removed, then (`work = *buf`, so `work` is not read) the packet id read and, unless
`CO_IGNORE_PACKET_ID` is set, passed to `crypto_check_replay`. The packet id is initialised for
every `tls_wrap` context. At `error_exit` the buffer is emptied and the result is false. -/
def openvpnDecryptV1 (buf : Buffer) (opt : CryptoOptions K) (longForm : Bool) (now : Int) :
    Option (CryptoOptions K × Buffer × Bool) :=
  if 0 < buf.len then do
    let verified ← match opt.decrypt.hmac with
      | some hkey => decryptVerifyHmac hmacAlg buf hkey
      | none => some (some buf)
    match verified with
    | none => some (opt, { buf with len := 0 }, false)
    | some buf =>
        match opt.decrypt.cipher with
        -- the cipher branch, never taken with the tls-auth key type
        | some _ => none
        | none =>
            match packetIdRead buf longForm with
            | none => none
            -- "error reading packet-id"
            | some (_, _, false) => some (opt, { buf with len := 0 }, false)
            | some (pin, work, true) =>
                if opt.ignorePacketId then some (opt, work, true)
                else
                  match cryptoCheckReplay opt.packetIdRec pin now with
                  | none => none
                  | some (rec, false) =>
                      some ({ opt with packetIdRec := rec }, { buf with len := 0 }, false)
                  | some (rec, true) => some ({ opt with packetIdRec := rec }, work, true)
  else some (opt, buf, true)

/-- `openvpn_decrypt(buf, work, opt, frame, ad_start)` for a key without a cipher. -/
def openvpnDecrypt (buf : Buffer) (opt : CryptoOptions K) (longForm : Bool) (now : Int) :
    Option (CryptoOptions K × Buffer × Bool) :=
  if 0 < buf.len then
    match opt.decrypt.cipher with
    -- the AEAD branch and the cipher branch of `openvpn_decrypt_v1`
    | some _ => none
    | none => openvpnDecryptV1 hmacAlg buf opt longForm now
  else some (opt, buf, true)

variable (cipher : StreamCipher K) (tcHmac : K → List UInt8 → Vector UInt8 32)

/-- `tls_wrap_control(ctx, header, buf, session_id)`: the context after it and the packet, `none`
where an `ASSERT` fails. -/
def tlsWrapControl (ctx : TlsWrapCtx K) (header : UInt8) (buf : Buffer) (sessionId : List UInt8)
    (now : Int) : Option (TlsWrapCtx K × Buffer) := do
  let buf ← if ctx.mode = .auth ∨ ctx.mode = .none then do
      -- `session_id_write_prepend`, then the header byte
      let buf ← bufWritePrependAssert buf sessionId sidSize
      bufWritePrependAssert buf [header] 1
    else some buf
  match ctx.mode with
  | .auth =>
      -- no encryption, only write hmac
      let (opt, buf) ← openvpnEncrypt hmacAlg buf clearBuf ctx.opt ctx.longForm now
      match swapHmac hmacAlg buf opt false with
      | some (buf, true) => some ({ ctx with opt }, buf)
      | _ => none
  | .crypt =>
      match bufInit ctx.work buf.offset with
      | (_, false) => none
      | (work, true) => do
          let work ← bufWriteAssert work [header] 1
          let work ← bufWriteAssert work sessionId sidSize
          match tlsCryptWrap cipher tcHmac buf work ctx.opt now with
          | none => none
          | some (opt, work, false) => some ({ ctx with opt, work }, { buf with len := 0 })
          | some (opt, work, true) =>
              if header >>> 3 = pControlHardResetClientV3 ∨ header >>> 3 = pControlWkcV1 then
                match bufCopy work ctx.tlsCryptV2Wkc with
                | none => none
                -- "Could not append tls-crypt-v2 client key"
                | some (work, false) => some ({ ctx with opt, work }, { buf with len := 0 })
                | some (work, true) => some ({ ctx with opt, work }, work)
              else some ({ ctx with opt, work }, work)
  | .none => some (ctx, buf)

/-- The header byte `ks->key_id | (opcode << P_OPCODE_SHIFT)`, cut to a `uint8_t`. -/
def controlHeader (keyId opcode : Nat) : UInt8 := UInt8.ofNat (keyId ||| (opcode <<< pOpcodeShift))

/-- `max_ack` after the workaround for Softether servers, which drop packets with more than 4
acks. -/
def controlMaxAck (session : TlsSessionWrap K) (maxAck : Nat) : Nat :=
  if session.tlsWrap.mode = .none ∧ !session.server ∧ !session.keyMaterialExport then min maxAck 4
  else maxAck

/-- `write_control_auth(session, ks, buf, to_link_addr, opcode, max_ack, prepend_ack)`: the session
and key state after it and the packet. -/
def writeControlAuth (session : TlsSessionWrap K) (ks : KeyStateAcks) (buf : Buffer)
    (opcode maxAck : Nat) (prependAck : Bool) (now : Int) :
    Option (TlsSessionWrap K × KeyStateAcks × Buffer) := do
  let header := controlHeader ks.keyId opcode
  let (recAck, lruAcks, buf) ← reliableAckWriteInto ks.recAck ks.lruAcks buf ks.sessionIdRemote
    (controlMaxAck session maxAck) prependAck
  let ks := { ks with recAck, lruAcks }
  let (ctx, buf) ← tlsWrapControl hmacAlg cipher tcHmac (tlsSessionGetTlsWrap session ks.keyId)
    header buf session.sessionId now
  some (session.setTlsWrap ks.keyId ctx, ks, buf)

/-- `tls_crypt_v2_load_client_key` of one `struct key`: the cipher context from its 64 cipher
bytes and the HMAC context from its 64 HMAC bytes, each made by `keyOf` (`init_key_ctx`). -/
def loadClientKeyCtx (keyOf : List UInt8 → K) (key : List UInt8) : KeyCtx K :=
  ⟨some (keyOf (key.take 64)), some (keyOf ((key.drop 64).take 64))⟩

/-- `tls_crypt_v2_extract_client_key(buf, ctx, opt)`: the buffer and the context after it, and
its result; `none` where an `ASSERT` fails or memory outside an allocation is read. The client
key's two halves become the keys of the server's two directions (`KEY_DIRECTION_NORMAL`), made by
`keyOf`. `verifyScript` is the verdict of `--tls-crypt-v2-verify` on the metadata, `none` without
one. -/
def tlsCryptV2ExtractClientKey (keyOf : List UInt8 → K) (verifyScript : Option (List UInt8 → Bool))
    (buf : Buffer) (ctx : TlsWrapCtx K) : Option (Buffer × TlsWrapCtx K × Bool) := do
  -- "Client wants tls-crypt-v2, but no server key present."
  if !ctx.tlsCryptV2ServerKey then some (buf, ctx, false)
  -- "Can not read tls-crypt-v2 client key length"
  else if bufLen buf < 2 then some (buf, ctx, false)
  else
    let netLen ← buf.load ((← bufBptr buf) + bufLen buf - 2) 2
    let wkcLen : Int := BigEndian.decode netLen
    match bufAdvance buf (bufLen buf - wkcLen) with
    -- "Can not locate tls-crypt-v2 client key"
    | (_, false) => some (buf, ctx, false)
    | (wrapped, true) =>
        let metadata ← allocBuf tlsCryptV2MaxMetadataLen
        let (key, metadata, ok) ← tlsCryptV2UnwrapClientKey cipher tcHmac
          ctx.tlsCryptV2ServerCipher ctx.tlsCryptV2ServerHmac metadata wrapped
        let ctx := { ctx with tlsCryptV2Metadata := metadata, originalWrapKeydata := key }
        -- "Can not unwrap tls-crypt-v2 client key"
        if !ok then some (buf, ctx, false)
        else
          let ctx := { ctx with
            mode := .crypt, longForm := true,
            opt := { ctx.opt with
              encrypt := loadClientKeyCtx keyOf (key.take 128),
              decrypt := loadClientKeyCtx keyOf (key.drop 128) } }
          -- remove the client key from the buffer so that tls-crypt can unwrap the message
          match bufIncLen buf (-bufLen wrapped) with
          | (_, false) => none
          | (buf, true) =>
              match verifyScript with
              | some verify => some (buf, ctx, verify (← bufContents ctx.tlsCryptV2Metadata))
              | none => some (buf, ctx, true)

/-- `read_control_auth(buf, ctx, from, opt)`: the context and the buffer after it, and its result;
`none` where an `ASSERT` fails or memory outside an allocation is read. -/
def readControlAuth (keyOf : List UInt8 → K) (verifyScript : Option (List UInt8 → Bool))
    (buf : Buffer) (ctx : TlsWrapCtx K) (now : Int) : Option (TlsWrapCtx K × Buffer × Bool) := do
  let bp ← bufBptr buf
  let first ← buf.load bp 1
  let opcode := first.headD 0 >>> 3
  let (buf, ctx, extracted) ←
    if opcode = pControlHardResetClientV3 ∨ opcode = pControlWkcV1 then
      tlsCryptV2ExtractClientKey cipher tcHmac keyOf verifyScript buf ctx
    else some (buf, ctx, true)
  -- "can not extract tls-crypt-v2 client key"
  if !extracted then some (ctx, buf, false)
  else
    match ctx.mode with
    | .auth =>
        match swapHmac hmacAlg buf ctx.opt true with
        | none => none
        -- "cannot locate HMAC in incoming packet"
        | some (buf, false) => some (ctx, buf, false)
        | some (buf, true) => do
            -- authenticate only (no decrypt) and remove the hmac record
            let (opt, buf, _) ← openvpnDecrypt hmacAlg buf ctx.opt ctx.longForm now
            let ctx := { ctx with opt }
            -- "incoming packet authentication failed"
            if buf.len = 0 then some (ctx, buf, false)
            -- past the opcode and the session id, which the caller already read
            else some (ctx, (bufAdvance buf (sidSize + 1)).1, true)
    | .crypt => do
        let tmp ← allocBuf (bufForwardCapacityTotal buf)
        match tlsCryptUnwrap cipher tcHmac buf tmp ctx.opt now with
        | none => none
        -- "tls-crypt unwrapping failed"
        | some (opt, _, false) => some ({ ctx with opt }, buf, false)
        | some (opt, tmp, true) =>
            match bufInit buf buf.offset with
            | (_, false) => none
            | (buf, true) =>
                match bufCopy buf tmp with
                | some (buf, true) => some ({ ctx with opt }, buf, true)
                | _ => none
    | .none =>
        -- "could not determine wrapping": tls-crypt-v2 requires some wrapping
        if ctx.tlsCryptV2ServerKey then some (ctx, buf, false)
        else some (ctx, (bufAdvance buf (sidSize + 1)).1, true)

end Wrap

end OpenVpn
