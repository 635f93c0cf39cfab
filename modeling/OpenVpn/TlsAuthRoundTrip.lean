import OpenVpn.TlsAuthSpec

/-! The control channel packet of `ssl_pkt.c` from end to end: what `write_control_auth` puts on
the wire in the plain and the tls-auth modes, and what `read_control_auth` leaves of it. Under
tls-auth the packet is `tlsAuthPacket`: the opcode and the session id, the HMAC, the packet id and
the ack record with the payload, the HMAC taken over the packet id, the opcode, the session id and
the rest, in that order. Reading a packet with the opcode of a tls-crypt-v2 client reset
(`P_CONTROL_HARD_RESET_CLIENT_V3` or `P_CONTROL_WKC_V1`) goes to `tls_crypt_v2_extract_client_key`,
and the plain mode refuses every packet when a tls-crypt-v2 server key is loaded, so the round trip
holds for the other opcodes and, in the plain mode, for a receiver without that key. -/

namespace OpenVpn

section Wire

variable {K : Type} (hmacAlg : HmacAlg K) (cipher : StreamCipher K)
  (tcHmac : K → List UInt8 → Vector UInt8 32)

/-- The tls-auth packet on the wire: the opcode and the session id, the HMAC of the packet id,
the opcode, the session id and the rest, the packet id, and the rest. -/
def tlsAuthPacket (k : K) (osid pid rest : List UInt8) : List UInt8 :=
  osid ++ hmacAlg.mac k (pid ++ osid ++ rest) ++ pid ++ rest

/-- A `buf_write_prepend` under `ASSERT` with room before `BPTR`. -/
theorem bufWritePrependAssert_eq {b : Buffer} (hb : BufBounded b) {src : List UInt8} {size : Nat}
    (hs : src.length = size) (h : (size : Int) ≤ b.offset) :
    bufWritePrependAssert b src size = some (b.prepend src) := by
  subst hs
  rw [bufWritePrependAssert, hb.bufWritePrepend_eq_prepend h]

/-- `session_id_write_prepend`, then the header byte: nine bytes in front of the content. -/
theorem prependHeader_eq {b : Buffer} (hb : BufBounded b) {sessionId : List UInt8}
    (hsid : sessionId.length = sidSize) (header : UInt8) (hroom : (9 : Int) ≤ b.offset) :
    ∃ b₁ w, bufWritePrependAssert b sessionId sidSize = some b₁ ∧
      bufWritePrependAssert b₁ [header] 1 = some w ∧ BufBounded w ∧
      w.content = header :: sessionId ++ b.content ∧ w.offset = b.offset - 9 ∧ w.len = b.len + 9 := by
  have hs : (sessionId.length : Int) ≤ b.offset := by rw [hsid, sidSize]; omega
  have hb₁ : BufBounded (b.prepend sessionId) := hb.prepend_bounded hs
  have hh : (([header] : List UInt8).length : Int) ≤ (b.prepend sessionId).offset := by
    simp [hsid, sidSize]
    omega
  refine ⟨b.prepend sessionId, (b.prepend sessionId).prepend [header],
    bufWritePrependAssert_eq hb hsid (by rw [← hsid]; exact hs),
    bufWritePrependAssert_eq hb₁ (List.length_singleton (a := header)) (by simpa using hh),
    hb₁.prepend_bounded hh, ?_, ?_, ?_⟩
  · rw [hb₁.content_prepend hh, hb.content_prepend hs]
    rfl
  · simp [hsid, sidSize]
    omega
  · simp [hsid, sidSize]
    omega

/-- `tls_wrap_control` in the tls-auth mode, with a key that has only an HMAC and the long-form
packet id: the packet is `tlsAuthPacket` of the header byte and the session id, the packet id of the
advanced counter, and the content. -/
theorem tlsWrapControl_auth {ctx : TlsWrapCtx K} (hmode : ctx.mode = .auth) {k : K}
    (hk : ctx.opt.encrypt = ⟨none, some k⟩) (hlong : ctx.longForm = true)
    (h256 : hmacAlg.size k + 8 ≤ 256) {q : PacketIdSend} {now : Int}
    (hu : packetIdSendUpdate ctx.opt.packetIdSend true now = (q, true)) {b : Buffer}
    (hb : BufBounded b) {sessionId : List UInt8} (hsid : sessionId.length = sidSize)
    (header : UInt8) (hroom : (17 + hmacAlg.size k : Int) ≤ b.offset) :
    ∃ w, tlsWrapControl hmacAlg cipher tcHmac ctx header b sessionId now =
        some ({ ctx with opt := { ctx.opt with packetIdSend := q } }, w) ∧ BufBounded w ∧
      w.content = tlsAuthPacket hmacAlg k (header :: sessionId) (htonpid q.id ++ htontime q.time)
        b.content := by
  have hl0 := hb.len_nonneg
  obtain ⟨b₁, b₂, hw₁, hw₂, hb₂, hc₂, hoff₂, hlen₂⟩ := prependHeader_eq hb hsid header (by omega)
  simp only [tlsWrapControl, hmode, true_or, if_true, Option.bind_eq_bind]
  rw [hw₁, Option.bind_some, hw₂, Option.bind_some, hlong,
    openvpnEncrypt_hmac hmacAlg hb₂ (by omega) hk hu (by omega), Option.bind_some]
  -- the packet id, then the HMAC over it and everything after it
  have hb₁ : BufBounded (b₂.prepend (htontime q.time)) := hb₂.prepend_bounded (by simp; omega)
  have hb₃ : BufBounded ((b₂.prepend (htontime q.time)).prepend (htonpid q.id)) :=
    hb₁.prepend_bounded (by simp; omega)
  have hc₃ : ((b₂.prepend (htontime q.time)).prepend (htonpid q.id)).content =
      htonpid q.id ++ htontime q.time ++ b₂.content := by
    rw [hb₁.content_prepend (by simp; omega), hb₂.content_prepend (by simp; omega),
      List.append_assoc]
  have hoff₃ : ((b₂.prepend (htontime q.time)).prepend (htonpid q.id)).offset = b.offset - 17 := by
    simp
    omega
  have hlen₃ : ((b₂.prepend (htontime q.time)).prepend (htonpid q.id)).len = b.len + 17 := by
    simp
    omega
  generalize (b₂.prepend (htontime q.time)).prepend (htonpid q.id) = b₃ at hb₃ hc₃ hoff₃ hlen₃ ⊢
  have hmac := hmacAlg.length_mac k b₃.content
  have hw₀ : BufBounded (b₃.prepend (hmacAlg.mac k b₃.content)) :=
    hb₃.prepend_bounded (by rw [hmac]; omega)
  have hlen₀ : (((hmacAlg.size k + 8 : Nat) : Int) + (9 : Nat)) ≤
      (b₃.prepend (hmacAlg.mac k b₃.content)).len := by
    simp only [Buffer.len_prepend, hmac]
    push_cast
    omega
  -- `swap_hmac` moves the HMAC and the packet id behind the opcode and the session id
  rw [swapHmac_outgoing hmacAlg hw₀ (by rw [hk]) h256 (by push_cast at hlen₀ ⊢; omega)]
  refine ⟨_, rfl, hw₀.swapFront_bounded hlen₀, ?_⟩
  rw [hw₀.content_swapFront hlen₀, hb₃.content_prepend (by rw [hmac]; omega), hc₃, hc₂,
    tlsAuthPacket]
  have hsplit := swapBlocks_append []
    (hmacAlg.mac k (htonpid q.id ++ htontime q.time ++ (header :: sessionId ++ b.content)) ++
      (htonpid q.id ++ htontime q.time)) (header :: sessionId) b.content
  simp only [List.length_append, hmacAlg.length_mac, length_htonpid, length_htontime,
    List.length_cons, hsid, sidSize, List.nil_append, List.length_nil] at hsplit
  simpa [List.append_assoc] using hsplit

/-- `tls_wrap_control` in the plain mode: the header byte and the session id in front. -/
theorem tlsWrapControl_none {ctx : TlsWrapCtx K} (hmode : ctx.mode = .none) {b : Buffer}
    (hb : BufBounded b) {sessionId : List UInt8} (hsid : sessionId.length = sidSize)
    (header : UInt8) (hroom : (9 : Int) ≤ b.offset) (now : Int) :
    ∃ w, tlsWrapControl hmacAlg cipher tcHmac ctx header b sessionId now = some (ctx, w) ∧
      BufBounded w ∧ w.content = header :: sessionId ++ b.content := by
  obtain ⟨b₁, w, hw₁, hw, hbw, hcw, -, -⟩ := prependHeader_eq hb hsid header hroom
  simp only [tlsWrapControl, hmode, or_true, if_true, Option.bind_eq_bind]
  rw [hw₁, Option.bind_some, hw, Option.bind_some]
  exact ⟨w, by cases ctx; cases hmode; rfl, hbw, hcw⟩

/-- The first byte `read_control_auth` reads the opcode from. -/
theorem load_first_byte {b : Buffer} (hb : BufBounded b) {c : UInt8} {rest : List UInt8}
    (hc : b.content = c :: rest) : b.load b.offset 1 = some [c] := by
  have hlen := hb.length_content
  rw [hc, List.length_cons] at hlen
  have := hb.load_content (i := 0) (n := 1) (Int.le_refl 0) (by omega) (by omega)
  rw [Int.add_zero] at this
  rw [this, hc]
  rfl

/-- Skipping the opcode and the session id in front of the rest. -/
theorem bufAdvance_header {b : Buffer} (hb : BufBounded b) {osid rest : List UInt8}
    (hosid : osid.length = sidSize + 1) (hc : b.content = osid ++ rest) :
    ∃ b', bufAdvance b ((sidSize : Int) + 1) = (b', true) ∧ b'.content = rest := by
  have hlen := hb.length_content
  rw [hc, List.length_append, hosid] at hlen
  have hsz : ((sidSize : Nat) : Int) + 1 = (osid.length : Nat) := by
    rw [hosid]
    push_cast
    rfl
  have hle : (osid.length : Int) ≤ b.len := by omega
  rw [hb.bufAdvance_eq, if_pos ⟨by omega, by rw [hsz]; exact hle⟩]
  refine ⟨_, rfl, ?_⟩
  rw [Buffer.content_advance hb.offset_nonneg (by omega) (by rw [hsz]; exact hle), hc, hsz,
    Int.toNat_natCast]
  exact List.drop_left

/-- `read_control_auth` in the tls-auth mode on a `tlsAuthPacket` under the decryption key, whose
packet id passes the replay check: the ack record and the payload are left. -/
theorem readControlAuth_auth (keyOf : List UInt8 → K)
    (verifyScript : Option (List UInt8 → Bool))
    {ctx : TlsWrapCtx K} (hmode : ctx.mode = .auth) {k : K} (hk : ctx.opt.decrypt = ⟨none, some k⟩)
    (hlong : ctx.longForm = true) (h256 : hmacAlg.size k + 8 ≤ 256) {header : UInt8}
    (hop : header >>> 3 ≠ pControlHardResetClientV3 ∧ header >>> 3 ≠ pControlWkcV1)
    {sessionId pid rest : List UInt8} (hsid : sessionId.length = sidSize) (hpid : pid.length = 8)
    {b : Buffer} (hb : BufBounded b)
    (hc : b.content = tlsAuthPacket hmacAlg k (header :: sessionId) pid rest) {now : Int}
    (hrep : ctx.opt.ignorePacketId = true ∨
      ∃ rec, cryptoCheckReplay ctx.opt.packetIdRec (ntohPacketId pid) now = some (rec, true)) :
    ∃ ctx' b', readControlAuth hmacAlg cipher tcHmac keyOf verifyScript b ctx now = some (ctx', b', true) ∧
      b'.content = rest := by
  have hlen := hb.length_content
  rw [hc, tlsAuthPacket] at hlen
  simp only [List.length_append, List.length_cons, hmacAlg.length_mac, hsid, hpid, sidSize] at hlen
  have hl0 := hb.len_nonneg
  have hfirst := load_first_byte hb (by rw [hc, tlsAuthPacket]; rfl)
  simp only [readControlAuth, hb.bufBptr_eq, Option.bind_eq_bind, Option.bind_some, hfirst,
    List.headD_cons, hop.1, hop.2, or_self, if_false, Bool.not_true, Bool.false_eq_true, hmode]
  -- the HMAC and the packet id back at the front
  have hl₁ : ((9 : Nat) + (hmacAlg.size k + 8 : Nat) : Int) ≤ b.len := by
    push_cast
    omega
  rw [swapHmac_incoming hmacAlg hb (by rw [hk]) h256 (by omega)]
  dsimp only
  have hb₁ := hb.swapFront_bounded hl₁
  have hc₁ : (b.swapFront 9 (hmacAlg.size k + 8)).content =
      hmacAlg.mac k (pid ++ (header :: sessionId) ++ rest) ++
        (pid ++ (header :: sessionId) ++ rest) := by
    rw [hb.content_swapFront hl₁, hc, tlsAuthPacket]
    have hsplit := swapBlocks_append [] (header :: sessionId)
      (hmacAlg.mac k (pid ++ header :: sessionId ++ rest) ++ pid) rest
    simp only [List.length_append, hmacAlg.length_mac, hpid, List.length_cons, hsid, sidSize,
      List.nil_append, List.length_nil] at hsplit
    simpa [List.append_assoc] using hsplit
  obtain ⟨opt', b₂, hdec, hb₂, hc₂⟩ := openvpnDecrypt_hmac hmacAlg hb₁ hk hc₁ (by simp [hpid])
    (by rwa [List.append_assoc, ntohPacketId_append (by omega)])
  rw [hlong, hdec, Option.bind_some]
  -- the opcode and the session id are what is left in front of the rest
  rw [List.append_assoc, List.drop_left' hpid] at hc₂
  have hlen₂ := hb₂.length_content
  rw [hc₂] at hlen₂
  simp only [List.length_cons, List.length_append, hsid, sidSize] at hlen₂
  obtain ⟨b₃, hadv, hc₃⟩ := bufAdvance_header hb₂ (by simp [hsid]) hc₂
  dsimp only
  rw [if_neg (by omega), hadv]
  exact ⟨_, _, rfl, hc₃⟩

/-- `read_control_auth` in the plain mode, without a tls-crypt-v2 server key: the opcode and the
session id are skipped. -/
theorem readControlAuth_none (keyOf : List UInt8 → K)
    (verifyScript : Option (List UInt8 → Bool))
    {ctx : TlsWrapCtx K} (hmode : ctx.mode = .none) (hv2 : ctx.tlsCryptV2ServerKey = false)
    {header : UInt8} (hop : header >>> 3 ≠ pControlHardResetClientV3 ∧ header >>> 3 ≠ pControlWkcV1)
    {sessionId rest : List UInt8} (hsid : sessionId.length = sidSize) {b : Buffer}
    (hb : BufBounded b) (hc : b.content = header :: sessionId ++ rest) (now : Int) :
    ∃ b', readControlAuth hmacAlg cipher tcHmac keyOf verifyScript b ctx now = some (ctx, b', true) ∧
      b'.content = rest := by
  have hfirst := load_first_byte hb (by rw [hc]; rfl)
  simp only [readControlAuth, hb.bufBptr_eq, Option.bind_eq_bind, Option.bind_some, hfirst,
    List.headD_cons, hop.1, hop.2, or_self, if_false, Bool.not_true, Bool.false_eq_true, hmode, hv2]
  obtain ⟨b', hadv, hc'⟩ := bufAdvance_header hb (by simp [hsid]) hc
  rw [hadv]
  exact ⟨_, rfl, hc'⟩

end Wire

section Acks

/-- A record of at most `RELIABLE_ACK_SIZE` ids is at most `ackSize RELIABLE_ACK_SIZE` bytes. -/
theorem ackSize_le {n : Nat} (h : n ≤ reliableAckSize) : ackSize n ≤ ackSize reliableAckSize := by
  unfold ackSize
  unfold reliableAckSize at h ⊢
  split <;> split <;> omega

/-- The bytes of the record `reliable_ack_write` writes for `n` ids. -/
theorem length_ackRecord {n : Nat} {ids : List UInt32} (hn : n ≤ ids.length) {sid : List UInt8}
    (hsid : sid.length = sidSize) :
    (UInt8.ofNat n :: (ackIdBytes (ids.take n) ++ (if n = 0 then [] else sid))).length =
      ackSize n := by
  simp only [List.length_cons, List.length_append, length_ackIdBytes, List.length_take, ackSize]
  split <;> simp only [List.length_nil, hsid] <;> omega

/-- The parent buffer `buf_sub` leaves is the one of `buf_prepend` or `buf_write_alloc`. -/
theorem bufSub_fst (b : Buffer) (size : Int) (prepend : Bool) :
    (bufSub b size prepend).1 =
      (if prepend then bufPrepend b size else bufWriteAlloc b (sizeOfInt size)).1 := by
  simp only [bufSub]
  split <;> rfl

/-- `buf_sub` finds room for `size` bytes in front of the content or behind it. -/
theorem bufSub_data_of_room {b : Buffer} (hb : BufBounded b) {size : Nat}
    (hs : (size : Int) < bufSizeMax) {prepend : Bool}
    (hroom : if prepend then (size : Int) ≤ b.offset else b.offset + b.len + size ≤ b.capacity) :
    (bufSub b size prepend).2.data ≠ none := by
  have hmax : bufSizeMax = 1000000 := rfl
  rw [hb.bufSub_eq ⟨by omega, by omega⟩]
  cases prepend with
  | true =>
      rw [if_pos rfl] at hroom
      rw [if_pos rfl, if_pos ⟨by omega, hroom⟩]
      simp
  | false =>
      rw [if_neg Bool.false_ne_true] at hroom
      rw [if_neg Bool.false_ne_true, if_pos ⟨by omega, hs, hroom⟩]
      simp

/-- `reliable_ack_write` into a buffer with room for the largest record, followed back to the
packet buffer: the record is written, in front of the content or behind it. -/
theorem reliableAckWriteInto_of_room {ack mru : List UInt32} (hack : ack.Nodup)
    (hacklen : ack.length ≤ reliableAckSize) (hmru : mru.length ≤ reliableAckSize) (max : Nat)
    {sid : List UInt8} (hsid : sid.length = sidSize) (hdef : sessionIdDefined sid = true)
    {buf : Buffer} (hb : BufBounded buf) {prepend : Bool}
    (hroom : if prepend then (ackSize reliableAckSize : Int) ≤ buf.offset
      else buf.offset + buf.len + ackSize reliableAckSize ≤ buf.capacity) :
    ∃ ack' mru' parent bytes, reliableAckWrite ack mru buf sid max prepend =
        some (ack', mru', parent, bytes, true) ∧ bytes.length ≤ ackSize reliableAckSize ∧
      reliableAckWriteInto ack mru buf sid max prepend =
        some (ack', mru', if prepend then buf.prepend bytes else buf.append bytes) := by
  have hn : (ack.take (min ack.length max)).length = min ack.length max := by
    rw [List.length_take]
    omega
  obtain ⟨-, hMlen⟩ := take_foldr_copyAckToMru hmru (hack.sublist (List.take_sublist _ _))
    (by rw [hn]; omega)
  obtain ⟨parent, bytes, ok, hw, hparent, hok, hbytes⟩ :=
    reliableAckWrite_spec hMlen hsid hdef hb prepend
  generalize (ack.take (min ack.length max)).foldr (fun id mru => copyAckToMru mru id) mru = M
    at hMlen hw hparent hok hbytes
  have hsize := ackSize_le (n := min max M.length) (by omega)
  have h41 : ackSize reliableAckSize = 41 := rfl
  have hmax : bufSizeMax = 1000000 := rfl
  -- `buf_sub` finds room, so the record is written
  have hok' : ok = true := hok.mpr (bufSub_data_of_room hb (by omega)
    (by cases prepend <;> simp only [if_true, Bool.false_eq_true, if_false] at hroom ⊢ <;> omega))
  subst hok'
  have hlen : bytes.length = ackSize (min max M.length) := by
    rw [hbytes rfl, length_ackRecord (by omega) hsid]
  refine ⟨_, M, parent, bytes, hw, by omega, ?_⟩
  rw [reliableAckWriteInto, hw]
  dsimp only
  rw [hparent, bufSub_fst, ← hlen]
  cases prepend with
  | true =>
      rw [if_pos rfl] at hroom
      obtain ⟨-, hstore⟩ := @BufBounded.bufPrepend_store buf bytes hb (by omega)
      have hoff : (bufPrepend buf bytes.length).1.offset = buf.offset - bytes.length := by
        rw [hb.bufPrepend_eq, if_pos ⟨by omega, by omega⟩]
      simp only [if_true]
      rw [hoff, hstore, Option.map_some]
  | false =>
      rw [if_neg Bool.false_ne_true] at hroom
      have hsz : sizeOfInt (bytes.length : Int) = bytes.length := by
        unfold sizeOfInt
        omega
      obtain ⟨b₁, p, halloc, hstore⟩ :=
        @BufBounded.bufWriteAlloc_store buf bytes hb (by omega) (by omega)
      have hp : p = buf.offset + buf.len := by
        rw [hb.bufWriteAlloc_eq, if_pos ⟨by omega, by omega⟩] at halloc
        simp only [Prod.mk.injEq, Option.some.injEq] at halloc
        exact halloc.2.symm
      simp only [Bool.false_eq_true, if_false]
      rw [hsz, halloc, ← hp, hstore, Option.map_some]

end Acks

section Write

variable {K : Type} (hmacAlg : HmacAlg K) (cipher : StreamCipher K)
  (tcHmac : K → List UInt8 → Vector UInt8 32)

/-- The acks of a key state as `reliable_ack_write` needs them: the acks to send are distinct and
fit `struct reliable_ack`, the ones sent last fit it too, and the session id of the peer is known. -/
structure KeyStateAcks.Valid (ks : KeyStateAcks) : Prop where
  nodup : ks.recAck.Nodup
  recAck_le : ks.recAck.length ≤ reliableAckSize
  lruAcks_le : ks.lruAcks.length ≤ reliableAckSize
  sid_length : ks.sessionIdRemote.length = sidSize
  sid_defined : sessionIdDefined ks.sessionIdRemote = true

/-- Room in `buf` for the largest ack record, in front of the content or behind it, and for
`overhead` more bytes in front. -/
abbrev HasRoom (buf : Buffer) (prependAck : Bool) (overhead : Nat) : Prop :=
  if prependAck then ((ackSize reliableAckSize + overhead : Nat) : Int) ≤ buf.offset
  else (overhead : Int) ≤ buf.offset ∧ buf.offset + buf.len + ackSize reliableAckSize ≤ buf.capacity

theorem HasRoom.ack {buf : Buffer} {prependAck : Bool} {overhead : Nat}
    (hroom : HasRoom buf prependAck overhead) :
    if prependAck then (ackSize reliableAckSize : Int) ≤ buf.offset
    else buf.offset + buf.len + ackSize reliableAckSize ≤ buf.capacity := by
  cases prependAck with
  | true =>
      simp only [HasRoom, if_true] at hroom ⊢
      omega
  | false =>
      simp only [HasRoom, Bool.false_eq_true, if_false] at hroom ⊢
      exact hroom.2

/-- The packet buffer after the ack record went in: bounded, with the record in front of the
content or behind it, and `overhead` bytes of room left in front. -/
theorem HasRoom.place {buf : Buffer} (hb : BufBounded buf) {prependAck : Bool} {overhead : Nat}
    (hroom : HasRoom buf prependAck overhead) {bytes : List UInt8}
    (hbytes : bytes.length ≤ ackSize reliableAckSize) :
    BufBounded (if prependAck then buf.prepend bytes else buf.append bytes) ∧
      (if prependAck then buf.prepend bytes else buf.append bytes).content =
        (if prependAck then bytes ++ buf.content else buf.content ++ bytes) ∧
      (overhead : Int) ≤ (if prependAck then buf.prepend bytes else buf.append bytes).offset := by
  cases prependAck with
  | true =>
      simp only [HasRoom, if_true] at hroom ⊢
      have h : (bytes.length : Int) ≤ buf.offset := by omega
      exact ⟨hb.prepend_bounded h, hb.content_prepend h, by simp; omega⟩
  | false =>
      simp only [HasRoom, Bool.false_eq_true, if_false] at hroom ⊢
      have h : buf.offset + buf.len + bytes.length ≤ buf.capacity := by omega
      exact ⟨hb.append_bounded h, hb.content_append h, by simpa using hroom.1⟩

/-- `write_control_auth` with room for the ack record: the record goes into the packet buffer and
`tls_wrap_control` wraps the result with the context of the key. -/
theorem writeControlAuth_eq {session : TlsSessionWrap K} {ks : KeyStateAcks} (hks : ks.Valid)
    {buf : Buffer} (hb : BufBounded buf) (opcode maxAck : Nat) {prependAck : Bool}
    {overhead : Nat} (hroom : HasRoom buf prependAck overhead) (now : Int) :
    ∃ ack' mru' parent ackRecord, reliableAckWrite ks.recAck ks.lruAcks buf ks.sessionIdRemote
        (controlMaxAck session maxAck) prependAck = some (ack', mru', parent, ackRecord, true) ∧
      ackRecord.length ≤ ackSize reliableAckSize ∧
      writeControlAuth hmacAlg cipher tcHmac session ks buf opcode maxAck prependAck now =
        (tlsWrapControl hmacAlg cipher tcHmac (tlsSessionGetTlsWrap session ks.keyId)
          (controlHeader ks.keyId opcode)
          (if prependAck then buf.prepend ackRecord else buf.append ackRecord)
          session.sessionId now).map fun r =>
            (session.setTlsWrap ks.keyId r.1, { ks with recAck := ack', lruAcks := mru' }, r.2) := by
  obtain ⟨ack', mru', parent, bytes, hw, hlen, hinto⟩ := reliableAckWriteInto_of_room hks.nodup
    hks.recAck_le hks.lruAcks_le (controlMaxAck session maxAck) hks.sid_length hks.sid_defined hb
    hroom.ack
  refine ⟨ack', mru', parent, bytes, hw, hlen, ?_⟩
  simp only [writeControlAuth, Option.bind_eq_bind, hinto, Option.bind_some]
  cases tlsWrapControl hmacAlg cipher tcHmac (tlsSessionGetTlsWrap session ks.keyId)
    (controlHeader ks.keyId opcode) (if prependAck then buf.prepend bytes else buf.append bytes)
    session.sessionId now <;> rfl

/-- The tls-auth round trip: `write_control_auth` with a key that has only an HMAC and room for the
headers, and `read_control_auth` of the packet by a receiver with that key whose replay check takes
the packet id, leave the ack record `reliable_ack_write` wrote, in front of the payload or behind
it. -/
theorem writeControlAuth_auth_round_trip {session : TlsSessionWrap K} {ks : KeyStateAcks}
    (hks : ks.Valid) (hsid : session.sessionId.length = sidSize) {buf : Buffer}
    (hb : BufBounded buf) (opcode maxAck : Nat) {prependAck : Bool} {now : Int}
    (hop : controlHeader ks.keyId opcode >>> 3 ≠ pControlHardResetClientV3 ∧
      controlHeader ks.keyId opcode >>> 3 ≠ pControlWkcV1)
    {ctx : TlsWrapCtx K} (hctx : tlsSessionGetTlsWrap session ks.keyId = ctx)
    (hmode : ctx.mode = .auth) {k : K} (hk : ctx.opt.encrypt = ⟨none, some k⟩)
    (hlong : ctx.longForm = true) (h256 : hmacAlg.size k + 8 ≤ 256) {q : PacketIdSend}
    (hu : packetIdSendUpdate ctx.opt.packetIdSend true now = (q, true))
    (hroom : HasRoom buf prependAck (17 + hmacAlg.size k)) :
    ∃ ack' mru' parent ackRecord session' ks' w,
      reliableAckWrite ks.recAck ks.lruAcks buf ks.sessionIdRemote (controlMaxAck session maxAck)
        prependAck = some (ack', mru', parent, ackRecord, true) ∧
      writeControlAuth hmacAlg cipher tcHmac session ks buf opcode maxAck prependAck now =
        some (session', ks', w) ∧
      ∀ keyOf verifyScript (rctx : TlsWrapCtx K) (rb : Buffer) (now' : Int), BufBounded rb →
        rb.content = w.content → rctx.mode = .auth → rctx.opt.decrypt = ctx.opt.encrypt →
        rctx.longForm = true →
        (rctx.opt.ignorePacketId = true ∨
          ∃ rec, cryptoCheckReplay rctx.opt.packetIdRec q.onWire now' = some (rec, true)) →
        ∃ rctx' rb', readControlAuth hmacAlg cipher tcHmac keyOf verifyScript rb rctx now' =
            some (rctx', rb', true) ∧
          rb'.content = if prependAck then ackRecord ++ buf.content else buf.content ++ ackRecord := by
  obtain ⟨ack', mru', parent, A, hw, hlen, hwrite⟩ :=
    writeControlAuth_eq hmacAlg cipher tcHmac hks hb opcode maxAck hroom now
  obtain ⟨hb₀, hc₀, hoff₀⟩ := hroom.place hb hlen
  obtain ⟨w, hwrap, -, hcw⟩ := tlsWrapControl_auth hmacAlg cipher tcHmac hmode hk hlong h256 hu hb₀
    hsid (controlHeader ks.keyId opcode) (by push_cast at hoff₀; exact hoff₀)
  rw [hctx, hwrap, Option.map_some] at hwrite
  refine ⟨ack', mru', parent, A, _, _, w, hw, hwrite, ?_⟩
  intro keyOf verifyScript rctx rb now' hrb hrc hrmode hrk hrlong hrep
  rw [hk] at hrk
  have hpid : (htonpid q.id ++ htontime q.time).length = 8 := by
    simp [length_htonpid, length_htontime]
  rw [hcw, hc₀] at hrc
  rw [← ntohPacketId_htonpid] at hrep
  exact readControlAuth_auth hmacAlg cipher tcHmac keyOf verifyScript hrmode hrk hrlong h256 hop hsid hpid hrb
    hrc hrep

/-- The plain round trip: `write_control_auth` with room for the opcode and the session id, and
`read_control_auth` of the packet by a receiver without a tls-crypt-v2 server key, leave the ack
record `reliable_ack_write` wrote, in front of the payload or behind it. -/
theorem writeControlAuth_none_round_trip {session : TlsSessionWrap K} {ks : KeyStateAcks}
    (hks : ks.Valid) (hsid : session.sessionId.length = sidSize) {buf : Buffer}
    (hb : BufBounded buf) (opcode maxAck : Nat) {prependAck : Bool} (now : Int)
    (hop : controlHeader ks.keyId opcode >>> 3 ≠ pControlHardResetClientV3 ∧
      controlHeader ks.keyId opcode >>> 3 ≠ pControlWkcV1)
    (hmode : (tlsSessionGetTlsWrap session ks.keyId).mode = .none) (hroom : HasRoom buf prependAck 9) :
    ∃ ack' mru' parent ackRecord session' ks' w,
      reliableAckWrite ks.recAck ks.lruAcks buf ks.sessionIdRemote (controlMaxAck session maxAck)
        prependAck = some (ack', mru', parent, ackRecord, true) ∧
      writeControlAuth hmacAlg cipher tcHmac session ks buf opcode maxAck prependAck now =
        some (session', ks', w) ∧
      ∀ keyOf verifyScript (rctx : TlsWrapCtx K) (rb : Buffer) (now' : Int), BufBounded rb →
        rb.content = w.content → rctx.mode = .none → rctx.tlsCryptV2ServerKey = false →
        ∃ rb', readControlAuth hmacAlg cipher tcHmac keyOf verifyScript rb rctx now' = some (rctx, rb', true) ∧
          rb'.content = if prependAck then ackRecord ++ buf.content else buf.content ++ ackRecord := by
  obtain ⟨ack', mru', parent, A, hw, hlen, hwrite⟩ :=
    writeControlAuth_eq hmacAlg cipher tcHmac hks hb opcode maxAck hroom now
  obtain ⟨hb₀, hc₀, hoff₀⟩ := hroom.place hb hlen
  obtain ⟨w, hwrap, -, hcw⟩ := tlsWrapControl_none hmacAlg cipher tcHmac hmode hb₀ hsid
    (controlHeader ks.keyId opcode) (by exact_mod_cast hoff₀) now
  rw [hwrap, Option.map_some] at hwrite
  refine ⟨ack', mru', parent, A, _, _, w, hw, hwrite, ?_⟩
  intro keyOf verifyScript rctx rb now' hrb hrc hrmode hv2
  rw [hcw, hc₀] at hrc
  exact readControlAuth_none hmacAlg cipher tcHmac keyOf verifyScript hrmode hv2 hop hsid hrb hrc now'

end Write

section Authentic

variable {K : Type} (hmacAlg : HmacAlg K) (cipher : StreamCipher K)
  (tcHmac : K → List UInt8 → Vector UInt8 32)

/-- The layout behind a packet that passed `swap_hmac` and the HMAC check: with the two blocks at
the front exchanged back it is a `tlsAuthPacket` of its first nine bytes, the packet id and the
rest. -/
theorem tlsAuthPacket_of_swapFront {b : Buffer} (hb : BufBounded b) {k : K}
    (hlen : (9 + (hmacAlg.size k + 8) : Int) ≤ b.len) {rest : List UInt8}
    (hc : (b.swapFront 9 (hmacAlg.size k + 8)).content = hmacAlg.mac k rest ++ rest) :
    ∃ osid pid r, osid.length = 1 + sidSize ∧ pid.length = 8 ∧ rest = pid ++ osid ++ r ∧
      b.content = tlsAuthPacket hmacAlg k osid pid r := by
  have hlc := hb.length_content
  have hl : ((9 : Nat) + (hmacAlg.size k + 8 : Nat) : Int) ≤ b.len := by
    push_cast
    omega
  have hblk : ∃ p x y z : List UInt8, b.content = p ++ x ++ y ++ z ∧ p.length = 0 ∧
      x.length = 9 ∧ y.length = hmacAlg.size k + 8 := exists_blocks (by omega)
  obtain ⟨p, osid, hp, r, hcb, hp0, hosid, hhp⟩ := hblk
  rw [List.length_eq_zero_iff] at hp0
  subst hp0
  -- the receiver sees the HMAC and the packet id in front
  rw [hb.content_swapFront hl, hcb, ← hosid, ← hhp,
    show (0 : Nat) = ([] : List UInt8).length from rfl, swapBlocks_append, List.nil_append] at hc
  have hsplit : hp.take (hmacAlg.size k) ++ (hp.drop (hmacAlg.size k) ++ osid ++ r) =
      hmacAlg.mac k rest ++ rest := by
    rw [← hc]
    simp only [← List.append_assoc, List.take_append_drop]
  obtain ⟨hmac, hrest⟩ := List.append_inj hsplit (by simp [hmacAlg.length_mac]; omega)
  refine ⟨osid, hp.drop (hmacAlg.size k), r, by rw [hosid]; rfl, by simp [hhp], hrest.symm, ?_⟩
  rw [hcb, tlsAuthPacket, hrest, ← hmac, List.nil_append, List.append_assoc osid (hp.take _),
    List.take_append_drop]

/-- Authenticity of `read_control_auth` in the tls-auth mode, for a receiver whose key has only an
HMAC and which holds no tls-crypt-v2 server key: a packet it takes is a `tlsAuthPacket` under that
key, of the opcode and the session id, a packet id the replay check took (or the check is off),
and the rest, which is what it leaves in the buffer. -/
theorem readControlAuth_auth_inv (keyOf : List UInt8 → K)
    (verifyScript : Option (List UInt8 → Bool))
    {ctx : TlsWrapCtx K} (hmode : ctx.mode = .auth) {k : K} (hk : ctx.opt.decrypt = ⟨none, some k⟩)
    (hlong : ctx.longForm = true) (hv2 : ctx.tlsCryptV2ServerKey = false) {b : Buffer}
    (hb : BufBounded b) {now : Int} {ctx' : TlsWrapCtx K} {b' : Buffer}
    (h : readControlAuth hmacAlg cipher tcHmac keyOf verifyScript b ctx now = some (ctx', b', true)) :
    ∃ osid pid rest, osid.length = 1 + sidSize ∧ pid.length = 8 ∧
      b.content = tlsAuthPacket hmacAlg k osid pid rest ∧ b'.content = rest ∧
      (ctx.opt.ignorePacketId = true ∨
        ∃ rec, cryptoCheckReplay ctx.opt.packetIdRec (ntohPacketId pid) now = some (rec, true)) := by
  simp only [readControlAuth, hb.bufBptr_eq, Option.bind_eq_bind, Option.bind_some] at h
  cases hload : b.load b.offset 1 with
  | none =>
      rw [hload] at h
      simp at h
  | some first =>
  rw [hload, Option.bind_some] at h
  -- a tls-crypt-v2 opcode needs the server key this receiver does not have
  by_cases hop : first.headD 0 >>> 3 = pControlHardResetClientV3 ∨
      first.headD 0 >>> 3 = pControlWkcV1
  · rw [if_pos hop] at h
    simp [tlsCryptV2ExtractClientKey, hv2] at h
  rw [if_neg hop] at h
  simp only [Bool.not_true, Bool.false_eq_true, if_false, hmode] at h
  cases hs : swapHmac hmacAlg b ctx.opt true with
  | none =>
      rw [hs] at h
      simp at h
  | some r =>
  obtain ⟨b₁, found⟩ := r
  cases found with
  | false =>
      rw [hs] at h
      simp at h
  | true =>
  obtain ⟨hkey, hkk, -, hlen, rfl⟩ := swapHmac_incoming_inv hmacAlg hb hs
  rw [hk] at hkk
  cases Option.some.inj hkk
  rw [hs] at h
  dsimp only at h
  cases hd : openvpnDecrypt hmacAlg (b.swapFront 9 (hmacAlg.size k + 8)) ctx.opt ctx.longForm now with
  | none =>
      rw [hd] at h
      simp at h
  | some r =>
  obtain ⟨opt', b₂, ok⟩ := r
  rw [hd, Option.bind_some] at h
  dsimp only at h
  -- an emptied buffer is "incoming packet authentication failed"
  by_cases h0 : b₂.len = 0
  · rw [if_pos h0] at h
    simp at h
  rw [if_neg h0] at h
  simp only [Option.some.injEq, Prod.mk.injEq] at h
  rw [hlong] at hd
  have hb₁ := hb.swapFront_bounded (by push_cast; omega : ((9 : Nat) + (hmacAlg.size k + 8 : Nat) : Int) ≤ b.len)
  obtain ⟨rest₁, hc₁, -, hb₂, hc₂, hrep⟩ := openvpnDecrypt_hmac_inv hmacAlg hb₁ hk hd h0
  obtain ⟨osid, pid, r, hosid, hpid, rfl, hcb⟩ := tlsAuthPacket_of_swapFront hmacAlg hb hlen hc₁
  -- past the packet id: the opcode and the session id, then the rest
  rw [List.append_assoc, List.drop_left' hpid] at hc₂
  obtain ⟨b₃, hadv, hc₃⟩ := bufAdvance_header hb₂ (by rw [hosid, Nat.add_comm]) hc₂
  rw [hadv] at h
  rw [List.append_assoc, ntohPacketId_append (by omega)] at hrep
  exact ⟨osid, pid, r, hosid, hpid, hcb, by rw [← h.2.1, hc₃], hrep⟩

end Authentic

section ControlRoundTrip

/-- The tls-auth control channel from `write_control_auth` to `read_control_auth`, for every
opcode but the two tls-crypt-v2 client resets: in the tls-auth mode, with a key that has only an
HMAC and the long-form packet id, a receiver with that key whose replay check takes the packet id
gets back the ack record `reliable_ack_write` wrote and the payload; in the plain mode a receiver
without a tls-crypt-v2 server key does. `swap_hmac` incoming undoes `swap_hmac` outgoing, and a
packet the tls-auth receiver takes carries the HMAC of its packet id, opcode, session id and rest
under the receiver's key, with what it leaves in the buffer as the rest. -/
theorem tls_auth_control_round_trip {K : Type} (hmacAlg : HmacAlg K) (cipher : StreamCipher K)
    (tcHmac : K → List UInt8 → Vector UInt8 32) :
    (∀ (session : TlsSessionWrap K) (ks : KeyStateAcks) (buf : Buffer) (opcode maxAck : Nat)
        (prependAck : Bool) (now : Int) (ctx : TlsWrapCtx K) (k : K) (q : PacketIdSend),
        ks.Valid → session.sessionId.length = sidSize → BufBounded buf →
        controlHeader ks.keyId opcode >>> 3 ≠ pControlHardResetClientV3 ∧
          controlHeader ks.keyId opcode >>> 3 ≠ pControlWkcV1 →
        tlsSessionGetTlsWrap session ks.keyId = ctx → ctx.mode = .auth →
        ctx.opt.encrypt = ⟨none, some k⟩ → ctx.longForm = true → hmacAlg.size k + 8 ≤ 256 →
        packetIdSendUpdate ctx.opt.packetIdSend true now = (q, true) →
        HasRoom buf prependAck (17 + hmacAlg.size k) →
        ∃ ack' mru' parent ackRecord session' ks' w,
          reliableAckWrite ks.recAck ks.lruAcks buf ks.sessionIdRemote
            (controlMaxAck session maxAck) prependAck = some (ack', mru', parent, ackRecord, true) ∧
          writeControlAuth hmacAlg cipher tcHmac session ks buf opcode maxAck prependAck now =
            some (session', ks', w) ∧
          ∀ keyOf verifyScript (rctx : TlsWrapCtx K) (rb : Buffer) (now' : Int), BufBounded rb →
            rb.content = w.content → rctx.mode = .auth → rctx.opt.decrypt = ctx.opt.encrypt →
            rctx.longForm = true →
            (rctx.opt.ignorePacketId = true ∨
              ∃ rec, cryptoCheckReplay rctx.opt.packetIdRec q.onWire now' = some (rec, true)) →
            ∃ rctx' rb', readControlAuth hmacAlg cipher tcHmac keyOf verifyScript rb rctx now' =
                some (rctx', rb', true) ∧
              rb'.content = if prependAck then ackRecord ++ buf.content
                else buf.content ++ ackRecord) ∧
    (∀ (session : TlsSessionWrap K) (ks : KeyStateAcks) (buf : Buffer) (opcode maxAck : Nat)
        (prependAck : Bool) (now : Int),
        ks.Valid → session.sessionId.length = sidSize → BufBounded buf →
        controlHeader ks.keyId opcode >>> 3 ≠ pControlHardResetClientV3 ∧
          controlHeader ks.keyId opcode >>> 3 ≠ pControlWkcV1 →
        (tlsSessionGetTlsWrap session ks.keyId).mode = .none → HasRoom buf prependAck 9 →
        ∃ ack' mru' parent ackRecord session' ks' w,
          reliableAckWrite ks.recAck ks.lruAcks buf ks.sessionIdRemote
            (controlMaxAck session maxAck) prependAck = some (ack', mru', parent, ackRecord, true) ∧
          writeControlAuth hmacAlg cipher tcHmac session ks buf opcode maxAck prependAck now =
            some (session', ks', w) ∧
          ∀ keyOf verifyScript (rctx : TlsWrapCtx K) (rb : Buffer) (now' : Int), BufBounded rb →
            rb.content = w.content → rctx.mode = .none → rctx.tlsCryptV2ServerKey = false →
            ∃ rb', readControlAuth hmacAlg cipher tcHmac keyOf verifyScript rb rctx now' =
                some (rctx, rb', true) ∧
              rb'.content = if prependAck then ackRecord ++ buf.content
                else buf.content ++ ackRecord) ∧
    (∀ (b : Buffer) (co co' : CryptoOptions K) (k k' : K), BufBounded b →
        co.encrypt.hmac = some k → co'.decrypt.hmac = some k' → hmacAlg.size k' = hmacAlg.size k →
        hmacAlg.size k + 8 ≤ 256 → (1 + sidSize + hmacAlg.size k + 8 : Int) ≤ b.len →
        ∃ b', swapHmac hmacAlg b co false = some (b', true) ∧
          swapHmac hmacAlg b' co' true = some (b, true)) ∧
    (∀ keyOf verifyScript (ctx : TlsWrapCtx K) (k : K) (b : Buffer) (now : Int) (ctx' : TlsWrapCtx K)
        (b' : Buffer), ctx.mode = .auth → ctx.opt.decrypt = ⟨none, some k⟩ → ctx.longForm = true →
        ctx.tlsCryptV2ServerKey = false → BufBounded b →
        readControlAuth hmacAlg cipher tcHmac keyOf verifyScript b ctx now = some (ctx', b', true) →
        ∃ osid pid rest, osid.length = 1 + sidSize ∧ pid.length = 8 ∧
          b.content = tlsAuthPacket hmacAlg k osid pid rest ∧ b'.content = rest ∧
          (ctx.opt.ignorePacketId = true ∨
            ∃ rec, cryptoCheckReplay ctx.opt.packetIdRec (ntohPacketId pid) now = some (rec, true)))
    := by
  refine ⟨?_, ?_, ?_, ?_⟩
  · intro session ks buf opcode maxAck prependAck now ctx k q hks hsid hb hop hctx hmode hk hlong
      h256 hu hroom
    exact writeControlAuth_auth_round_trip hmacAlg cipher tcHmac hks hsid hb opcode maxAck hop hctx
      hmode hk hlong h256 hu hroom
  · intro session ks buf opcode maxAck prependAck now hks hsid hb hop hmode hroom
    exact writeControlAuth_none_round_trip hmacAlg cipher tcHmac hks hsid hb opcode maxAck now hop
      hmode hroom
  · intro b co co' k k' hb hk hk' hsize h256 hlen
    exact swapHmac_incoming_outgoing hmacAlg hb hk hk' hsize h256 hlen
  · intro keyOf verifyScript ctx k b now ctx' b' hmode hk hlong hv2 hb h
    exact readControlAuth_auth_inv hmacAlg cipher tcHmac keyOf verifyScript hmode hk hlong hv2 hb h

/-- An HMAC backend with 20-byte digests, the size of HMAC-SHA1: the digest repeats the byte sum
of the key and the input. -/
def sampleHmacAlg : HmacAlg UInt8 :=
  ⟨fun _ => 20, fun key input => List.replicate 20 (input.foldl (· + ·) key), by simp⟩

/-- A tls-auth context with the HMAC key `9` both ways, the long-form packet id and a fresh
sending state. -/
def sampleAuthCtx : TlsWrapCtx UInt8 :=
  ⟨.auth, ⟨⟨none, some 9⟩, ⟨none, some 9⟩, ⟨0, 0⟩, sampleRecord 0 0, false⟩, true, clearBuf,
    clearBuf, false, 0, 0, [], clearBuf⟩

/-- A client session wrapping with `ctx`, with the session id `1 … 8`. -/
def sampleSession (ctx : TlsWrapCtx UInt8) : TlsSessionWrap UInt8 :=
  ⟨ctx, ctx, [1, 2, 3, 4, 5, 6, 7, 8], false, false⟩

/-- Key id 0 with the acks 5 and 3 to send and the peer's session id `8 … 1`. -/
def sampleKeyState : KeyStateAcks := ⟨0, [5, 3], [], [8, 7, 6, 5, 4, 3, 2, 1]⟩

/-- A 100-byte packet buffer with the payload `1, 2, 3` at offset 80. -/
def sampleControlBuffer : Buffer :=
  ⟨100, 80, 3, some (List.replicate 80 0 ++ [1, 2, 3] ++ List.replicate 17 0)⟩

theorem sampleControlBuffer_bounded : BufBounded sampleControlBuffer :=
  ⟨⟨rfl, by decide, by decide, by decide, by decide, by decide⟩, by decide⟩

/-- The tls-auth round trip of the acks 5 and 3 and the payload `1, 2, 3` in a `P_CONTROL_V1`
packet. -/
theorem tls_auth_control_round_trip_control_v1 :
    ∃ ack' mru' parent ackRecord session' ks' w,
      reliableAckWrite sampleKeyState.recAck sampleKeyState.lruAcks sampleControlBuffer
        sampleKeyState.sessionIdRemote (controlMaxAck (sampleSession sampleAuthCtx) 8) true =
          some (ack', mru', parent, ackRecord, true) ∧
      writeControlAuth sampleHmacAlg sampleCipher sampleHmac (sampleSession sampleAuthCtx)
        sampleKeyState sampleControlBuffer 4 8 true 5 = some (session', ks', w) ∧
      ∀ keyOf verifyScript (rctx : TlsWrapCtx UInt8) (rb : Buffer) (now' : Int), BufBounded rb →
        rb.content = w.content → rctx.mode = .auth → rctx.opt.decrypt = sampleAuthCtx.opt.encrypt →
        rctx.longForm = true →
        (rctx.opt.ignorePacketId = true ∨
          ∃ rec, cryptoCheckReplay rctx.opt.packetIdRec (⟨1, 5⟩ : PacketIdSend).onWire now' =
            some (rec, true)) →
        ∃ rctx' rb', readControlAuth sampleHmacAlg sampleCipher sampleHmac keyOf verifyScript rb rctx now' =
            some (rctx', rb', true) ∧
          rb'.content = if true then ackRecord ++ sampleControlBuffer.content
            else sampleControlBuffer.content ++ ackRecord :=
  (tls_auth_control_round_trip sampleHmacAlg sampleCipher sampleHmac).1 (sampleSession sampleAuthCtx)
    sampleKeyState sampleControlBuffer 4 8 true 5 sampleAuthCtx 9 ⟨1, 5⟩
    ⟨by decide, by decide, by decide, by decide, by decide⟩ rfl sampleControlBuffer_bounded
    (by decide) rfl rfl rfl rfl (by decide) rfl (by decide)

/-- A `P_CONTROL_HARD_RESET_CLIENT_V3` packet of the plain mode, with the acks 5 and 3 and the
payload `1, 2, 3`: `read_control_auth` of the packet by the sender's own context, which holds no
tls-crypt-v2 server key, returns false, whatever the key loading and the verify script do. -/
theorem tls_auth_control_v3_reset_refused :
    ∃ session' ks' w, writeControlAuth sampleHmacAlg sampleCipher sampleHmac
        (sampleSession { sampleAuthCtx with mode := .none }) sampleKeyState sampleControlBuffer 10 8
        true 5 = some (session', ks', w) ∧
      ∀ keyOf verifyScript, (readControlAuth sampleHmacAlg sampleCipher sampleHmac keyOf verifyScript w
        { sampleAuthCtx with mode := .none } 6).map (fun r => r.2.2) = some false :=
  ⟨_, _, _, rfl, fun _ _ => rfl⟩

end ControlRoundTrip

end OpenVpn
