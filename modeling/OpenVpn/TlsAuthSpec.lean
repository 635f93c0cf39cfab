import OpenVpn.TlsAuth

/-! What the tls-auth wrapping puts on the wire and what `read_control_auth` accepts. The sender
builds `[hmac, packet id] [opcode, session id] [rest]`, with the HMAC over everything after it, and
`swap_hmac` exchanges the two leading blocks; the receiver exchanges them back with the sizes the
other way round, which undoes the swap byte for byte, checks the HMAC and the packet id, and skips
the opcode and the session id. -/

namespace OpenVpn

section Blocks

variable {α : Type}

/-- The block of `e1` elements at `i` and the block of `e2` after it, exchanged. -/
def swapBlocks (i e1 e2 : Nat) (l : List α) : List α :=
  l.take i ++ (l.drop (i + e1)).take e2 ++ (l.drop i).take e1 ++ l.drop (i + e1 + e2)

theorem swapBlocks_append (p x y z : List α) :
    swapBlocks p.length x.length y.length (p ++ x ++ y ++ z) = p ++ y ++ x ++ z := by
  simp only [swapBlocks, List.append_assoc, List.take_left, List.drop_length_add_append,
    List.drop_left, Nat.add_assoc]

/-- A list cut into a prefix of `i`, blocks of `e1` and `e2` and the rest. -/
theorem take_drop_blocks (l : List α) (i e1 e2 : Nat) :
    l = l.take i ++ (l.drop i).take e1 ++ (l.drop (i + e1)).take e2 ++ l.drop (i + e1 + e2) := by
  have h₁ := List.take_append_drop e1 (l.drop i)
  have h₂ := List.take_append_drop e2 (l.drop (i + e1))
  rw [List.drop_drop] at h₁ h₂
  simp only [List.append_assoc]
  rw [h₂, h₁, List.take_append_drop]

/-- A list that holds both blocks, cut into the prefix, the blocks and the rest. -/
theorem exists_blocks {l : List α} {i e1 e2 : Nat} (h : i + e1 + e2 ≤ l.length) :
    ∃ p x y z : List α, l = p ++ x ++ y ++ z ∧ p.length = i ∧ x.length = e1 ∧ y.length = e2 :=
  ⟨_, _, _, _, take_drop_blocks l i e1 e2, by simp; omega, by simp; omega, by simp; omega⟩

/-- Exchanging the blocks back, with the sizes the other way round, gives the list back. -/
theorem swapBlocks_swapBlocks {i e1 e2 : Nat} {l : List α} (h : i + e1 + e2 ≤ l.length) :
    swapBlocks i e2 e1 (swapBlocks i e1 e2 l) = l := by
  obtain ⟨p, x, y, z, rfl, rfl, rfl, rfl⟩ := exists_blocks h
  rw [swapBlocks_append, swapBlocks_append]

theorem take_append_append {x y z : List α} {n : Nat} (h : x.length + y.length ≤ n) :
    (x ++ y ++ z).take n = x ++ y ++ z.take (n - x.length - y.length) := by
  rw [List.append_assoc, List.take_append, List.take_of_length_le (by omega), List.take_append,
    List.take_of_length_le (by omega), List.append_assoc]

/-- Exchanging two blocks at `i` exchanges them at the front of any window from `i` that holds
both. -/
theorem drop_take_swapBlocks {l : List α} {i n e1 e2 : Nat} (h : e1 + e2 ≤ n)
    (hl : i + e1 + e2 ≤ l.length) :
    ((swapBlocks i e1 e2 l).drop i).take n = swapBlocks 0 e1 e2 ((l.drop i).take n) := by
  obtain ⟨p, x, y, z, rfl, rfl, rfl, rfl⟩ := exists_blocks hl
  rw [swapBlocks_append]
  simp only [List.append_assoc, List.drop_left]
  rw [← List.append_assoc y, take_append_append (by omega), ← List.append_assoc x,
    take_append_append h, Nat.sub_right_comm]
  exact (swapBlocks_append [] x y _).symm

/-- The two `memcpy` of a swap into the list: its prefix, the second block, the suffix after it,
then the first block copied over the suffix. -/
theorem swapBlocks_eq_splice (l : List α) {i e1 e2 : Nat} (h : i + e1 + e2 ≤ l.length) :
    ((l.take i ++ (l.drop (i + e1)).take e2 ++ l.drop (i + e2)).take (i + e2) ++
        (l.drop i).take e1 ++
        (l.take i ++ (l.drop (i + e1)).take e2 ++ l.drop (i + e2)).drop (i + e2 + e1)) =
      swapBlocks i e1 e2 l := by
  have hp : (l.take i).length = i := by simp; omega
  have hy : ((l.drop (i + e1)).take e2).length = e2 := by simp; omega
  have ht : (l.take i ++ (l.drop (i + e1)).take e2 ++ l.drop (i + e2)).take (i + e2) =
      l.take i ++ (l.drop (i + e1)).take e2 := by
    rw [List.take_left' (by simp only [List.length_append, hp, hy])]
  have hd : (l.take i ++ (l.drop (i + e1)).take e2 ++ l.drop (i + e2)).drop (i + e2 + e1) =
      l.drop (i + e1 + e2) := by
    rw [show i + e2 + e1 = (l.take i ++ (l.drop (i + e1)).take e2).length + e1 by
      simp only [List.length_append, hp, hy], List.drop_length_add_append, List.drop_drop]
    congr 1
    omega
  rw [ht, hd, swapBlocks]

end Blocks

section Swap

/-- `b` with the `e1` bytes at `BPTR(b)` and the `e2` bytes after them exchanged. -/
def Buffer.swapFront (b : Buffer) (e1 e2 : Nat) : Buffer :=
  { b with data := some (swapBlocks b.offset.toNat e1 e2 b.bytes) }

variable {b : Buffer} {e1 e2 : Nat}

@[simp] theorem Buffer.offset_swapFront : (b.swapFront e1 e2).offset = b.offset := rfl

@[simp] theorem Buffer.len_swapFront : (b.swapFront e1 e2).len = b.len := rfl

theorem BufBounded.swapFront_bounded (hb : BufBounded b) (h : (e1 + e2 : Int) ≤ b.len) :
    BufBounded (b.swapFront e1 e2) := by
  have ho := hb.offset_nonneg
  have hle := hb.len_le
  have hcap := hb.length_bytes
  have hs : swapBlocks b.offset.toNat e1 e2 b.bytes = b.bytes.take b.offset.toNat ++
      ((b.bytes.drop (b.offset.toNat + e1)).take e2 ++ (b.bytes.drop b.offset.toNat).take e1) ++
      b.bytes.drop (b.offset.toNat +
        ((b.bytes.drop (b.offset.toNat + e1)).take e2 ++ (b.bytes.drop b.offset.toNat).take e1).length) := by
    rw [swapBlocks, List.append_assoc (b.bytes.take _)]
    congr 2
    simp
    omega
  have := @BufBounded.splice b hb b.offset b.len b.offset.toNat
    ((b.bytes.drop (b.offset.toNat + e1)).take e2 ++ (b.bytes.drop b.offset.toNat).take e1)
    ho hb.len_nonneg (by omega) (by simp; omega)
  rw [← hs] at this
  exact this

theorem BufBounded.content_swapFront (hb : BufBounded b) (h : (e1 + e2 : Int) ≤ b.len) :
    (b.swapFront e1 e2).content = swapBlocks 0 e1 e2 b.content := by
  have ho := hb.offset_nonneg
  have hle := hb.len_le
  have hcap := hb.length_bytes
  change ((swapBlocks b.offset.toNat e1 e2 b.bytes).drop b.offset.toNat).take b.len.toNat =
    swapBlocks 0 e1 e2 ((b.bytes.drop b.offset.toNat).take b.len.toNat)
  exact drop_take_swapBlocks (by omega) (by omega)

/-- Swapping back with the sizes the other way round gives the buffer back. -/
theorem BufBounded.swapFront_swapFront (hb : BufBounded b) (h : (e1 + e2 : Int) ≤ b.len) :
    (b.swapFront e1 e2).swapFront e2 e1 = b := by
  have ho := hb.offset_nonneg
  have hle := hb.len_le
  have hcap := hb.length_bytes
  have hd := hb.data_eq
  change { b with data := some (swapBlocks b.offset.toNat e2 e1
    (swapBlocks b.offset.toNat e1 e2 b.bytes)) } = b
  rw [swapBlocks_swapBlocks (by omega), ← hd]

/-- The four `memcpy` of `swap_hmac` exchange the blocks. -/
theorem BufBounded.swapMemcpy_eq (hb : BufBounded b) (hlen : (e1 + e2 : Int) ≤ b.len) :
    swapMemcpy b b.offset e1 e2 = some (b.swapFront e1 e2) := by
  have ho := hb.offset_nonneg
  have hle := hb.len_le
  have hcap := hb.length_bytes
  have hlx : ((b.bytes.drop b.offset.toNat).take e1).length = e1 := by simp; omega
  have hly : ((b.bytes.drop (b.offset.toNat + e1)).take e2).length = e2 := by simp; omega
  -- the stack buffers hold the two blocks
  have h₁ : b.load b.offset e1 = some ((b.bytes.drop b.offset.toNat).take e1) := by
    rw [hb.load_eq ho (by omega) (by omega), Int.toNat_natCast]
  have h₂ : b.load (b.offset + e1) e2 = some ((b.bytes.drop (b.offset.toNat + e1)).take e2) := by
    rw [hb.load_eq (by omega) (by omega) (by omega), Int.toNat_natCast,
      show (b.offset + e1).toNat = b.offset.toNat + e1 by omega]
  have h₃ := @BufBounded.store_eq b hb b.offset ((b.bytes.drop (b.offset.toNat + e1)).take e2)
    ho (by rw [hly]; omega)
  rw [hly] at h₃
  have hb₃ := @BufBounded.splice b hb b.offset b.len b.offset.toNat
    ((b.bytes.drop (b.offset.toNat + e1)).take e2) ho hb.len_nonneg (by omega)
    (by rw [hly]; omega)
  rw [hly] at hb₃
  have h₄ := @BufBounded.store_eq _ hb₃ (b.offset + e2) ((b.bytes.drop b.offset.toNat).take e1)
    (by omega) (by simp only [hlx]; omega)
  simp only [swapMemcpy, h₁, h₂, h₃, Option.bind_eq_bind, Option.bind_some]
  rw [h₄, hlx, show (b.offset + e2).toNat = b.offset.toNat + e2 by omega]
  congr 3
  exact swapBlocks_eq_splice b.bytes (by omega)

end Swap

section SwapHmac

variable {K : Type} (hmacAlg : HmacAlg K)

/-- `swap_hmac` on a bounded buffer that holds both blocks: outgoing, the HMAC and the packet id
go behind the opcode and the session id; incoming, they come back to the front. -/
theorem swapHmac_eq {b : Buffer} (hb : BufBounded b) {co : CryptoOptions K} {incoming : Bool}
    {hkey : K} (hk : (if incoming then co.decrypt else co.encrypt).hmac = some hkey)
    (h256 : hmacAlg.size hkey + 8 ≤ 256) (hlen : (9 + (hmacAlg.size hkey + 8) : Int) ≤ b.len) :
    swapHmac hmacAlg b co incoming =
      some (if incoming then b.swapFront 9 (hmacAlg.size hkey + 8)
        else b.swapFront (hmacAlg.size hkey + 8) 9, true) := by
  have hps : packetIdSize true = 8 := rfl
  cases incoming with
  | true =>
      simp only [if_true] at hk ⊢
      simp only [swapHmac, if_true, hk, Option.bind_eq_bind, Option.bind_some, hps, sidSize]
      rw [if_pos (by omega), if_pos (by push_cast; omega), hb.bufBptr_eq, Option.bind_some,
        hb.swapMemcpy_eq (by push_cast; omega), Option.map_some]
  | false =>
      simp only [Bool.false_eq_true, if_false] at hk ⊢
      simp only [swapHmac, Bool.false_eq_true, if_false, hk, Option.bind_eq_bind, Option.bind_some,
        hps, sidSize]
      rw [if_pos (by omega), if_pos (by push_cast; omega), hb.bufBptr_eq, Option.bind_some,
        hb.swapMemcpy_eq (by push_cast; omega), Option.map_some]

/-- Outgoing, the HMAC and the packet id go behind the opcode and the session id. -/
theorem swapHmac_outgoing {b : Buffer} (hb : BufBounded b) {co : CryptoOptions K} {hkey : K}
    (hk : co.encrypt.hmac = some hkey) (h256 : hmacAlg.size hkey + 8 ≤ 256)
    (hlen : (9 + (hmacAlg.size hkey + 8) : Int) ≤ b.len) :
    swapHmac hmacAlg b co false = some (b.swapFront (hmacAlg.size hkey + 8) 9, true) :=
  @swapHmac_eq K hmacAlg b hb co false hkey hk h256 hlen

/-- Incoming, they come back to the front. -/
theorem swapHmac_incoming {b : Buffer} (hb : BufBounded b) {co : CryptoOptions K} {hkey : K}
    (hk : co.decrypt.hmac = some hkey) (h256 : hmacAlg.size hkey + 8 ≤ 256)
    (hlen : (9 + (hmacAlg.size hkey + 8) : Int) ≤ b.len) :
    swapHmac hmacAlg b co true = some (b.swapFront 9 (hmacAlg.size hkey + 8), true) :=
  @swapHmac_eq K hmacAlg b hb co true hkey hk h256 hlen

/-- `swap_hmac(., incoming = true)` undoes `swap_hmac(., incoming = false)` on every bounded buffer
of at least `1 + SID_SIZE + hmac_size + 8` bytes, when the two HMAC keys have one digest size. -/
theorem swapHmac_incoming_outgoing {b : Buffer} (hb : BufBounded b) {co co' : CryptoOptions K}
    {k k' : K} (hk : co.encrypt.hmac = some k) (hk' : co'.decrypt.hmac = some k')
    (hsize : hmacAlg.size k' = hmacAlg.size k) (h256 : hmacAlg.size k + 8 ≤ 256)
    (hlen : (1 + sidSize + hmacAlg.size k + 8 : Int) ≤ b.len) :
    ∃ b', swapHmac hmacAlg b co false = some (b', true) ∧
      swapHmac hmacAlg b' co' true = some (b, true) := by
  have hl : (((hmacAlg.size k + 8 : Nat) : Int) + (9 : Nat)) ≤ b.len := by
    simp only [sidSize] at hlen
    push_cast
    omega
  have hb' := hb.swapFront_bounded hl
  refine ⟨_, swapHmac_outgoing hmacAlg hb hk h256 (by push_cast at hl ⊢; omega), ?_⟩
  rw [swapHmac_incoming hmacAlg hb' hk' (by omega) (by simp; omega), hsize,
    hb.swapFront_swapFront hl]

/-- A `swap_hmac(., incoming = true)` that found the HMAC changed the two blocks at the front. -/
theorem swapHmac_incoming_inv {b : Buffer} (hb : BufBounded b) {co : CryptoOptions K}
    {b' : Buffer} (h : swapHmac hmacAlg b co true = some (b', true)) :
    ∃ hkey, co.decrypt.hmac = some hkey ∧ hmacAlg.size hkey + 8 ≤ 256 ∧
      (9 + (hmacAlg.size hkey + 8) : Int) ≤ b.len ∧ b' = b.swapFront 9 (hmacAlg.size hkey + 8) := by
  have hps : packetIdSize true = 8 := rfl
  cases hk : co.decrypt.hmac with
  | none => simp [swapHmac, hk] at h
  | some hkey =>
      by_cases h256 : hmacAlg.size hkey + 8 ≤ 256
      · by_cases hlen : (9 + (hmacAlg.size hkey + 8) : Int) ≤ b.len
        · rw [swapHmac_incoming hmacAlg hb hk h256 hlen] at h
          exact ⟨hkey, rfl, h256, hlen, (Prod.mk.inj (Option.some.inj h)).1.symm⟩
        · -- "cannot locate HMAC in incoming packet"
          simp only [swapHmac, if_true, hk, Option.bind_eq_bind, Option.bind_some, hps,
            sidSize] at h
          rw [if_pos (by omega), if_neg (by push_cast; omega)] at h
          simp at h
      · simp only [swapHmac, if_true, hk, Option.bind_eq_bind, Option.bind_some, hps,
          sidSize] at h
        rw [if_neg (by omega)] at h
        simp at h

end SwapHmac

section Crypto

variable {K : Type} (hmacAlg : HmacAlg K)

theorem prependWork_clearBuf (buf : Buffer) : prependWork buf clearBuf = some buf := rfl

theorem openvpnEncrypt_hmac {b : Buffer} (hb : BufBounded b) (hpos : 0 < b.len)
    {opt : CryptoOptions K} {k : K} (hk : opt.encrypt = ⟨none, some k⟩) {q : PacketIdSend}
    {now : Int} (hu : packetIdSendUpdate opt.packetIdSend true now = (q, true))
    (hroom : (8 + hmacAlg.size k : Int) ≤ b.offset) :
    openvpnEncrypt hmacAlg b clearBuf opt true now =
      some ({ opt with packetIdSend := q },
        ((b.prepend (htontime q.time)).prepend (htonpid q.id)).prepend
          (hmacAlg.mac k ((b.prepend (htontime q.time)).prepend (htonpid q.id)).content)) := by
  have hb₁ : BufBounded (b.prepend (htontime q.time)) := hb.prepend_bounded (by simp; omega)
  have hb₂ : BufBounded ((b.prepend (htontime q.time)).prepend (htonpid q.id)) :=
    hb₁.prepend_bounded (by simp; omega)
  have hw := packetIdWrite_prepend hb hu (by omega)
  have hoff₂ : (hmacAlg.size k : Int) ≤ ((b.prepend (htontime q.time)).prepend (htonpid q.id)).offset := by
    simp
    omega
  generalize (b.prepend (htontime q.time)).prepend (htonpid q.id) = b₂ at hb₂ hw hoff₂ ⊢
  simp only [openvpnEncrypt, openvpnEncryptV1, if_pos hpos, hk, hw]
  have hmac := hmacAlg.length_mac k b₂.content
  obtain ⟨-, hstore⟩ := @BufBounded.bufPrepend_store b₂ (hmacAlg.mac k b₂.content) hb₂
    (by rw [hmac]; omega)
  rw [hmac, hb₂.bufPrepend_eq, if_pos ⟨by omega, by omega⟩] at hstore
  have hw₃ := hb₂.window (o := b₂.offset - hmacAlg.size k) (l := b₂.len + hmacAlg.size k)
    (by omega) (by have := hb₂.len_nonneg; omega) (by have := hb₂.len_le; omega)
  -- the HMAC runs from the packet id to the end: the content before `buf_prepend`
  have hinput : ({ b₂ with offset := b₂.offset - hmacAlg.size k, len := b₂.len + hmacAlg.size k } :
      Buffer).load b₂.offset (b₂.offset - hmacAlg.size k + (b₂.len + hmacAlg.size k) - b₂.offset) =
      some b₂.content := by
    rw [show b₂.offset - hmacAlg.size k + (b₂.len + hmacAlg.size k) - b₂.offset = b₂.len by omega]
    exact hb₂.load_eq hb₂.offset_nonneg hb₂.len_nonneg (by have := hb₂.len_le; omega)
  rw [hb₂.bufBptr_eq, hb₂.bufPrepend_eq, if_pos ⟨by omega, by omega⟩]
  simp only [Option.bind_eq_bind, Option.bind_some, prependWork_clearBuf, hw₃.bufBptr_eq,
    hw₃.bufLen_eq, Option.map_some, hinput, hstore]

/-- A long-form read from a buffer holding at least eight bytes consumes them. -/
theorem packetIdRead_advance {buf : Buffer} (hb : BufBounded buf) (h : 8 ≤ buf.len) :
    packetIdRead buf true =
      some (ntohPacketId buf.content, { buf with offset := buf.offset + 4 + 4, len := buf.len - 4 - 4 },
        true) := by
  have hl := hb.len_nonneg
  have hw := hb.window (o := buf.offset + 4) (l := buf.len - 4)
    (by have := hb.offset_nonneg; omega) (by omega) (by have := hb.len_le; omega)
  rw [packetIdRead, hb.bufRead_eq, if_pos ⟨by omega, by omega⟩]
  dsimp only
  rw [if_pos rfl, hw.bufRead_eq, if_pos ⟨by omega, by dsimp only; omega⟩]
  dsimp only
  rw [Buffer.content_advance hb.offset_nonneg (by omega) (by omega)]
  rfl

/-- A long-form read from a buffer holding less than eight bytes fails. -/
theorem packetIdRead_short {buf : Buffer} (hb : BufBounded buf) (h : buf.len < 8) :
    ∃ pin w, packetIdRead buf true = some (pin, w, false) := by
  rw [packetIdRead, hb.bufRead_eq]
  by_cases h4 : 0 ≤ (4 : Int) ∧ 4 ≤ buf.len
  · have hw := hb.window (o := buf.offset + 4) (l := buf.len - 4)
      (by have := hb.offset_nonneg; omega) (by omega) (by have := hb.len_le; omega)
    rw [if_pos h4]
    dsimp only
    rw [if_pos rfl, hw.bufRead_eq, if_neg (by dsimp only; omega)]
    exact ⟨_, _, rfl⟩
  · rw [if_neg h4]
    exact ⟨_, _, rfl⟩

/-- The HMAC check of `openvpn_decrypt_v1` on a bounded buffer that holds at least the HMAC: it
passes exactly when the bytes in front are the HMAC of the rest, and then moves past them. -/
theorem decryptVerifyHmac_spec {b : Buffer} (hb : BufBounded b) {k : K}
    (hlen : (hmacAlg.size k : Int) ≤ b.len) :
    decryptVerifyHmac hmacAlg b k =
      some (if hmacAlg.mac k (b.content.drop (hmacAlg.size k)) = b.content.take (hmacAlg.size k)
        then some { b with offset := b.offset + hmacAlg.size k, len := b.len - hmacAlg.size k }
        else none) := by
  have hlc := hb.length_content
  have ho := hb.offset_nonneg
  have hmac := hmacAlg.length_mac k (b.content.drop (hmacAlg.size k))
  -- the bytes after the HMAC, and the HMAC
  have hinput : b.load (b.offset + hmacAlg.size k) (bufLen b - hmacAlg.size k) =
      some (b.content.drop (hmacAlg.size k)) := by
    rw [hb.bufLen_eq, hb.load_content (by omega) (by omega) (by omega), Int.toNat_natCast,
      List.take_of_length_le (by simp; omega)]
  have hpacket : b.load b.offset (hmacAlg.size k) = some (b.content.take (hmacAlg.size k)) := by
    have := hb.load_content (i := 0) (n := hmacAlg.size k) le_rfl (by omega) (by omega)
    rw [Int.add_zero] at this
    rw [this]
    simp
  have hcmp : memcmpConstantTime (hmacAlg.mac k (b.content.drop (hmacAlg.size k)))
      (b.content.take (hmacAlg.size k)) (hmacAlg.size k) = 0 ↔
      hmacAlg.mac k (b.content.drop (hmacAlg.size k)) = b.content.take (hmacAlg.size k) := by
    rw [memcmpConstantTime_eq_zero_iff (by omega) (by simp; omega), List.take_take, min_self,
      List.take_of_length_le (l := hmacAlg.mac k _) (by omega)]
  rw [decryptVerifyHmac, if_neg (by omega), hb.bufBptr_eq]
  simp only [Option.bind_eq_bind, Option.bind_some, hinput, hpacket]
  by_cases heq : hmacAlg.mac k (b.content.drop (hmacAlg.size k)) = b.content.take (hmacAlg.size k)
  · rw [if_neg (by rw [not_not, hcmp]; exact heq), hb.bufAdvance_eq, if_pos ⟨by omega, hlen⟩,
      if_pos heq]
  · rw [if_pos (by rwa [ne_eq, hcmp]), if_neg heq]

theorem decryptVerifyHmac_eq {b : Buffer} (hb : BufBounded b) {k : K} {rest : List UInt8}
    (hc : b.content = hmacAlg.mac k rest ++ rest) :
    decryptVerifyHmac hmacAlg b k =
      some (some { b with offset := b.offset + hmacAlg.size k, len := b.len - hmacAlg.size k }) := by
  have hmac := hmacAlg.length_mac k rest
  have hlen := hb.length_content
  rw [hc, List.length_append, hmac] at hlen
  have hl0 := hb.len_nonneg
  have hd : b.content.drop (hmacAlg.size k) = rest := by rw [hc, ← hmac, List.drop_left]
  have ht : b.content.take (hmacAlg.size k) = hmacAlg.mac k rest := by
    rw [hc, ← hmac, List.take_left]
  rw [decryptVerifyHmac_spec hmacAlg hb (by omega), hd, ht, if_pos rfl]

/-- An HMAC check that passes found the HMAC of the rest in front. -/
theorem decryptVerifyHmac_inv {b : Buffer} (hb : BufBounded b) {k : K} {b' : Buffer}
    (h : decryptVerifyHmac hmacAlg b k = some (some b')) :
    b.content = hmacAlg.mac k (b.content.drop (hmacAlg.size k)) ++ b.content.drop (hmacAlg.size k) ∧
      b' = { b with offset := b.offset + hmacAlg.size k, len := b.len - hmacAlg.size k } := by
  by_cases hlen : (hmacAlg.size k : Int) ≤ b.len
  · rw [decryptVerifyHmac_spec hmacAlg hb hlen] at h
    by_cases heq : hmacAlg.mac k (b.content.drop (hmacAlg.size k)) = b.content.take (hmacAlg.size k)
    · rw [if_pos heq] at h
      refine ⟨?_, (Option.some.inj (Option.some.inj h)).symm⟩
      rw [heq, List.take_append_drop]
    · rw [if_neg heq] at h
      simp at h
  · rw [decryptVerifyHmac, if_pos (by omega)] at h
    simp at h

theorem BufBounded.advance_bounded {b : Buffer} (hb : BufBounded b) {k : Int} (hk : 0 ≤ k)
    (hkl : k ≤ b.len) : BufBounded { b with offset := b.offset + k, len := b.len - k } :=
  hb.window (by have := hb.offset_nonneg; omega) (by omega) (by have := hb.len_le; omega)

/-- Past the packet id: the buffer `packet_id_read` leaves after its two reads. -/
theorem BufBounded.advance_pid {b : Buffer} (hb : BufBounded b) (h : 8 ≤ b.len) :
    BufBounded { b with offset := b.offset + 4 + 4, len := b.len - 4 - 4 } ∧
      ({ b with offset := b.offset + 4 + 4, len := b.len - 4 - 4 } : Buffer).content =
        b.content.drop 8 := by
  have hb₂ := hb.advance_bounded (k := 4) (by omega) (by omega)
  refine ⟨hb₂.advance_bounded (k := 4) (by omega) (by simp only; omega), ?_⟩
  have h₁ := Buffer.content_advance hb.offset_nonneg (k := 4) (by omega) (by omega)
  have h₂ := Buffer.content_advance hb₂.offset_nonneg (k := 4) (by omega) (by simp only; omega)
  simp only at h₂
  rw [h₂, h₁, List.drop_drop]
  rfl

theorem openvpnDecrypt_hmac {b : Buffer} (hb : BufBounded b) {opt : CryptoOptions K} {k : K}
    (hk : opt.decrypt = ⟨none, some k⟩) {rest : List UInt8}
    (hc : b.content = hmacAlg.mac k rest ++ rest) (h8 : 8 ≤ rest.length) {now : Int}
    (hrep : opt.ignorePacketId = true ∨
      ∃ rec, cryptoCheckReplay opt.packetIdRec (ntohPacketId rest) now = some (rec, true)) :
    ∃ opt' b', openvpnDecrypt hmacAlg b opt true now = some (opt', b', true) ∧ BufBounded b' ∧
      b'.content = rest.drop 8 := by
  have hmac := hmacAlg.length_mac k rest
  have hlen := hb.length_content
  rw [hc, List.length_append, hmac] at hlen
  have hl0 := hb.len_nonneg
  have ho := hb.offset_nonneg
  rw [openvpnDecrypt, if_pos (by omega), hk]
  simp only [openvpnDecryptV1, if_pos (show 0 < b.len by omega), hk,
    decryptVerifyHmac_eq hmacAlg hb hc, Option.bind_eq_bind, Option.bind_some]
  -- past the HMAC: the packet id and the rest
  have hb₁ := hb.advance_bounded (k := hmacAlg.size k) (by omega) (by omega)
  have hc₁ : ({ b with offset := b.offset + hmacAlg.size k, len := b.len - hmacAlg.size k } :
      Buffer).content = rest := by
    rw [Buffer.content_advance ho (by omega) (by omega), hc, Int.toNat_natCast, ← hmac,
      List.drop_left]
  have hlen₁ : (8 : Int) ≤
      ({ b with offset := b.offset + hmacAlg.size k, len := b.len - hmacAlg.size k } : Buffer).len := by
    simp only
    omega
  generalize { b with offset := b.offset + hmacAlg.size k, len := b.len - hmacAlg.size k } = b₁
    at hb₁ hc₁ hlen₁ ⊢
  rw [packetIdRead_advance hb₁ hlen₁, hc₁]
  -- past the packet id
  obtain ⟨hb₃, hc₃⟩ := hb₁.advance_pid hlen₁
  rw [hc₁] at hc₃
  dsimp only
  rcases hrep with hign | ⟨rec, hrec⟩
  · rw [if_pos hign]
    exact ⟨_, _, rfl, hb₃, hc₃⟩
  · by_cases hign : opt.ignorePacketId = true
    · rw [if_pos hign]
      exact ⟨_, _, rfl, hb₃, hc₃⟩
    · rw [if_neg hign, hrec]
      exact ⟨_, _, rfl, hb₃, hc₃⟩

/-- What `openvpn_decrypt` with a key that has only an HMAC leaves in a buffer it did not empty:
the buffer held the HMAC of the rest in front of it, the rest starts with a packet id, and the
replay check took that id or is switched off. -/
theorem openvpnDecrypt_hmac_inv {b : Buffer} (hb : BufBounded b) {opt : CryptoOptions K} {k : K}
    (hk : opt.decrypt = ⟨none, some k⟩) {now : Int} {opt' : CryptoOptions K} {b' : Buffer}
    {ok : Bool} (h : openvpnDecrypt hmacAlg b opt true now = some (opt', b', ok))
    (hne : b'.len ≠ 0) :
    ∃ rest, b.content = hmacAlg.mac k rest ++ rest ∧ 8 ≤ rest.length ∧ BufBounded b' ∧
      b'.content = rest.drop 8 ∧ (opt.ignorePacketId = true ∨
        ∃ rec, cryptoCheckReplay opt.packetIdRec (ntohPacketId rest) now = some (rec, true)) := by
  have hl0 := hb.len_nonneg
  by_cases hpos : 0 < b.len
  swap
  · -- an empty buffer is passed through
    rw [openvpnDecrypt, if_neg hpos] at h
    simp only [Option.some.injEq, Prod.mk.injEq] at h
    exact absurd (by rw [← h.2.1]; omega) hne
  rw [openvpnDecrypt, if_pos hpos, hk] at h
  simp only [openvpnDecryptV1, if_pos hpos, hk, Option.bind_eq_bind] at h
  cases hv : decryptVerifyHmac hmacAlg b k with
  | none =>
      rw [hv] at h
      simp at h
  | some v =>
    cases v with
    | none =>
        -- the HMAC check failed: the buffer is emptied
        rw [hv] at h
        simp only [Option.bind_some, Option.some.injEq, Prod.mk.injEq] at h
        exact absurd (by rw [← h.2.1]) hne
    | some b₁ =>
        obtain ⟨hc, rfl⟩ := decryptVerifyHmac_inv hmacAlg hb hv
        rw [hv, Option.bind_some] at h
        have hlc := hb.length_content
        have hmac := hmacAlg.length_mac k (b.content.drop (hmacAlg.size k))
        have hsz : (hmacAlg.size k : Int) ≤ b.len := by
          rw [hc, List.length_append, hmac] at hlc
          omega
        have hb₁ := hb.advance_bounded (k := hmacAlg.size k) (by omega) hsz
        have hc₁ := Buffer.content_advance hb.offset_nonneg (k := hmacAlg.size k) (by omega) hsz
        rw [Int.toNat_natCast] at hc₁
        generalize { b with offset := b.offset + hmacAlg.size k, len := b.len - hmacAlg.size k } = b₁
          at hb₁ hc₁ h
        dsimp only at h
        refine ⟨b.content.drop (hmacAlg.size k), hc, ?_⟩
        by_cases h8 : 8 ≤ b₁.len
        · have hlc₁ := hb₁.length_content
          rw [packetIdRead_advance hb₁ h8] at h
          obtain ⟨hb₃, hc₃⟩ := hb₁.advance_pid h8
          rw [hc₁] at hc₃ hlc₁
          refine ⟨by omega, ?_⟩
          dsimp only at h
          -- with the replay check off the packet is taken; otherwise the check decides
          by_cases hign : opt.ignorePacketId = true
          · rw [if_pos hign] at h
            simp only [Option.some.injEq, Prod.mk.injEq] at h
            rw [← h.2.1]
            exact ⟨hb₃, hc₃, Or.inl hign⟩
          · rw [if_neg hign, hc₁] at h
            cases hrec : cryptoCheckReplay opt.packetIdRec
                (ntohPacketId (b.content.drop (hmacAlg.size k))) now with
            | none =>
                rw [hrec] at h
                simp at h
            | some r =>
                obtain ⟨rec, okr⟩ := r
                rw [hrec] at h
                cases okr with
                | false =>
                    simp only [Option.some.injEq, Prod.mk.injEq] at h
                    exact absurd (by rw [← h.2.1]) hne
                | true =>
                    simp only [Option.some.injEq, Prod.mk.injEq] at h
                    rw [← h.2.1]
                    exact ⟨hb₃, hc₃, Or.inr ⟨rec, rfl⟩⟩
        · -- a packet id read that fails empties the buffer
          obtain ⟨pin, w, hread⟩ := packetIdRead_short hb₁ (by omega)
          rw [hread] at h
          simp only [Option.some.injEq, Prod.mk.injEq] at h
          exact absurd (by rw [← h.2.1]) hne

end Crypto

end OpenVpn
