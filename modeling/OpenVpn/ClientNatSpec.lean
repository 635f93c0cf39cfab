import OpenVpn.ClientNat
import OpenVpn.BufferSpec
import OpenVpn.OnesComplement

/-! What `client_nat_transform` does to the bytes of the packet. The rule loop rewrites only the
two address fields, and its accumulator is exactly the change of their one's complement sum; the
checksums are then patched by that change with `ADJUST_CHECKSUM`, which adds it modulo `0xffff`.
The transport checksum is patched at the fixed offsets of `struct ip_tcp_udp_hdr`, bytes 36 and
26 of a 20-byte header, whatever the header length says. -/

namespace OpenVpn

open OnesComplement

/-- The `n` bytes at index `i`. -/
def fieldAt (bytes : List UInt8) (i : Int) (n : Nat) : List UInt8 := (bytes.drop i.toNat).take n

/-- The one's complement sum of the two address fields of the header at `h`, `saddr` at 12 and
`daddr` at 16. -/
def addrSum (bytes : List UInt8) (h : Int) : Nat :=
  wordSum (fieldAt bytes (h + 12) 4) + wordSum (fieldAt bytes (h + 16) 4)

/-- `bytes'` is `bytes` outside `[lo, hi)`. -/
def SameOutside (bytes bytes' : List UInt8) (lo hi : Int) : Prop :=
  bytes'.length = bytes.length ∧ ∀ j : Nat, ((j : Int) < lo ∨ hi ≤ j) → bytes'[j]? = bytes[j]?

section Fields

variable {bytes bytes' bytes'' : List UInt8} {i lo hi : Int} {n : Nat}

theorem length_fieldAt (h₀ : 0 ≤ i) (h : i + n ≤ bytes.length) : (fieldAt bytes i n).length = n := by
  simp only [fieldAt, List.length_take, List.length_drop]
  omega

/-- A field is read from its own bytes only. -/
theorem fieldAt_congr (h₀ : 0 ≤ i) (h : ∀ j : Nat, i ≤ j → j < i + n → bytes'[j]? = bytes[j]?) :
    fieldAt bytes' i n = fieldAt bytes i n := by
  refine List.ext_getElem? fun k => ?_
  simp only [fieldAt, List.getElem?_take, List.getElem?_drop]
  split_ifs with hk
  · exact h _ (by omega) (by omega)
  · rfl

theorem SameOutside.refl (bytes : List UInt8) (lo hi : Int) : SameOutside bytes bytes lo hi :=
  ⟨rfl, fun _ _ => rfl⟩

theorem SameOutside.mono {lo' hi' : Int} (h : SameOutside bytes bytes' lo hi) (hlo : lo' ≤ lo)
    (hhi : hi ≤ hi') : SameOutside bytes bytes' lo' hi' :=
  ⟨h.1, fun j hj => h.2 j (by omega)⟩

theorem SameOutside.fieldAt_eq (h : SameOutside bytes bytes' lo hi) (h₀ : 0 ≤ i)
    (hout : i + n ≤ lo ∨ hi ≤ i) : fieldAt bytes' i n = fieldAt bytes i n :=
  fieldAt_congr h₀ fun j hj hj' => h.2 j (by omega)

theorem SameOutside.trans {lo' hi' : Int} (h : SameOutside bytes bytes' lo hi)
    (h' : SameOutside bytes' bytes'' lo' hi') :
    SameOutside bytes bytes'' (min lo lo') (max hi hi') :=
  ⟨h'.1.trans h.1, fun j hj => (h'.2 j (by omega)).trans (h.2 j (by omega))⟩

end Fields

namespace PacketMem

variable {m m' : PacketMem} {i : Int} {n v : Nat}

/-- A load that succeeds reads its field inside the memory and changes no byte. -/
theorem load_spec {x : Nat × PacketMem} (h : m.load i n = some x) :
    0 ≤ i ∧ i + n ≤ m.bytes.length ∧ x.1 = BigEndian.decode (fieldAt m.bytes i n) ∧
      x.2.bytes = m.bytes := by
  simp only [load, Option.map_eq_some_iff] at h
  obtain ⟨bs, hread, rfl⟩ := h
  unfold memRead at hread
  split_ifs at hread with hr
  cases hread
  exact ⟨hr.1, hr.2.2, by simp [fieldAt], rfl⟩

/-- A store that succeeds writes the encoding over its field. -/
theorem store_spec (h : m.store i n v = some m') :
    0 ≤ i ∧ i + n ≤ m.bytes.length ∧
      m'.bytes = m.bytes.take i.toNat ++ BigEndian.encode n v ++ m.bytes.drop (i.toNat + n) := by
  simp only [store, Option.map_eq_some_iff] at h
  obtain ⟨bs, hwrite, rfl⟩ := h
  unfold memWrite at hwrite
  split_ifs at hwrite with hw
  cases hwrite
  exact ⟨hw.1, by simpa using hw.2, by rw [BigEndian.length_encode]⟩

/-- The store as a splice of the encoding, in the form of the splice lemmas. -/
theorem store_splice (h : m.store i n v = some m') :
    0 ≤ i ∧ i.toNat + (BigEndian.encode n v).length ≤ m.bytes.length ∧
      m'.bytes = m.bytes.take i.toNat ++ BigEndian.encode n v ++
        m.bytes.drop (i.toNat + (BigEndian.encode n v).length) := by
  obtain ⟨h₀, hle, hb⟩ := store_spec h
  rw [BigEndian.length_encode]
  exact ⟨h₀, by omega, hb⟩

theorem store_sameOutside (h : m.store i n v = some m') : SameOutside m.bytes m'.bytes i (i + n) := by
  obtain ⟨h₀, hk, hb⟩ := store_splice h
  refine ⟨by rw [hb, length_splice hk], fun j hj => ?_⟩
  rw [hb, getElem?_splice hk, if_pos (by rw [BigEndian.length_encode]; omega)]

theorem store_fieldAt (h : m.store i n v = some m') : fieldAt m'.bytes i n = BigEndian.encode n v := by
  obtain ⟨-, hk, hb⟩ := store_splice h
  rw [fieldAt, hb, drop_splice hk, List.take_left' (BigEndian.length_encode n v)]

end PacketMem

/-! ### The rule loop -/

section RuleLoop

variable {B : List UInt8} {h : Int} {direction : Nat}

theorem clientNatField_fst (e : ClientNatEntry) (direction : Nat) :
    (clientNatField e direction).1 = 12 ∨ (clientNatField e direction).1 = 16 := by
  unfold clientNatField
  split_ifs <;> simp

theorem clientNatField_snd_pos (e : ClientNatEntry) (direction : Nat) :
    0 < (clientNatField e direction).2 := by
  unfold clientNatField
  split_ifs <;> decide

/-- Rewriting one address field changes the address sum by the change of that field's words. -/
theorem addrSum_of_sameOutside {B' : List UInt8} {f : Nat} (hf : f = 12 ∨ f = 16) (h₀ : 0 ≤ h)
    (hsame : SameOutside B B' (h + f) (h + f + 4)) :
    (addrSum B' h : Int) + wordSum (fieldAt B (h + f) 4) =
      addrSum B h + wordSum (fieldAt B' (h + f) 4) := by
  rcases hf with rfl | rfl
  · have hd := hsame.fieldAt_eq (i := h + 16) (n := 4) (by omega) (Or.inr (by push_cast; omega))
    simp only [addrSum, hd]
    push_cast
    omega
  · have hs := hsame.fieldAt_eq (i := h + 12) (n := 4) (by omega) (Or.inl (by push_cast; omega))
    simp only [addrSum, hs]
    push_cast
    omega

/-- What the rule loop keeps of the bytes `B` of the header at `h`: only the address fields
change, `accumulate` is the drop of their sum, and nothing has changed while `alog` is 0. -/
structure ClientNatInv (B : List UInt8) (h : Int) (st : PacketMem × Int × Nat) : Prop where
  same : SameOutside B st.1.bytes (h + 12) (h + 20)
  acc : st.2.1 = (addrSum B h : Int) - addrSum st.1.bytes h
  untouched : st.2.2 = 0 → st.1.bytes = B

theorem clientNatInv_start (m : PacketMem) (h : Int) : ClientNatInv m.bytes h (m, 0, 0) :=
  ⟨SameOutside.refl _ _ _, by simp, fun _ => rfl⟩

theorem ClientNatInv.step {st st' : PacketMem × Int × Nat} {e : ClientNatEntry} (hh : 0 ≤ h)
    (hi : ClientNatInv B h st) (hs : clientNatStep h direction st e = some st') :
    ClientNatInv B h st' := by
  obtain ⟨⟨x, m₁⟩, hload, hs⟩ := Option.bind_eq_some_iff.mp hs
  obtain ⟨h₀, hle, hx, hm₁⟩ := PacketMem.load_spec hload
  have hf := clientNatField_fst e direction
  -- the word read is the field's value
  have hlen := length_fieldAt h₀ hle
  have hx32 : x < 2 ^ 32 := by
    have := BigEndian.decode_lt (fieldAt st.1.bytes (h + (clientNatField e direction).1) 4)
    rw [hlen] at this
    omega
  have hold : wordSum (fieldAt st.1.bytes (h + (clientNatField e direction).1) 4) =
      (UInt32.ofNat x >>> 16).toNat + (UInt32.ofNat x &&& 0xffff).toNat := by
    rw [wordSum_of_length_four hlen, ← hx, toNat_and_ffff, toNat_shiftRight_sixteen,
      UInt32.toNat_ofNat_of_lt' hx32]
    rfl
  unfold clientNatRewrite at hs
  dsimp only at hs
  split_ifs at hs with hmatch
  · obtain ⟨m₂, hstore, rfl⟩ := Option.map_eq_some_iff.mp hs
    have hsame₂ := PacketMem.store_sameOutside hstore
    rw [hm₁] at hsame₂
    have hsum := addrSum_of_sameOutside hf hh hsame₂
    rw [PacketMem.store_fieldAt hstore, wordSum_encode_uint32, hold] at hsum
    refine ⟨(hi.same.trans hsame₂).mono (by omega) (by omega), ?_, ?_⟩
    · dsimp only
      rw [hi.acc]
      omega
    · intro h0
      exact absurd (Nat.or_eq_zero_iff.mp h0).2 (clientNatField_snd_pos e direction).ne'
  · cases hs
    exact ⟨hm₁ ▸ hi.same, hm₁ ▸ hi.acc, fun h0 => hm₁.trans (hi.untouched h0)⟩

/-- The rule loop keeps the invariant. -/
theorem ClientNatInv.foldlM (hh : 0 ≤ h) : ∀ (list : List ClientNatEntry) {st r : PacketMem × Int × Nat},
    ClientNatInv B h st → list.foldlM (clientNatStep h direction) st = some r →
      ClientNatInv B h r
  | [], _, _, hi, hr => by
      cases hr
      exact hi
  | e :: list, st, r, hi, hr => by
      rw [List.foldlM_cons] at hr
      obtain ⟨st₁, hs₁, hr₁⟩ := Option.bind_eq_some_iff.mp hr
      exact ClientNatInv.foldlM hh list (hi.step hh hs₁) hr₁

end RuleLoop

/-! ### The checksum patch -/

section Patch

/-- `ADJUST_CHECKSUM` leaves a 16-bit checksum. -/
theorem adjustChecksum_lt (acc : Int) (cksum : Nat) : adjustChecksum acc cksum < 2 ^ 16 := by
  dsimp only [adjustChecksum]
  split_ifs <;> omega

/-- `ADJUST_CHECKSUM` adds `acc` to the checksum modulo `0xffff`, when their sum fits 32 bits. -/
theorem adjustChecksum_emod {acc : Int} {cksum : Nat} (hlo : -2 ^ 32 < acc + cksum)
    (hhi : acc + cksum < 2 ^ 32) :
    (adjustChecksum acc cksum : Int) % 0xffff = (cksum + acc) % 0xffff := by
  unfold adjustChecksum
  dsimp only
  split_ifs with hneg
  · -- the negated sum is folded and complemented
    have hfold := fold_fold_mod (a := (-(acc + cksum)).toNat) (by omega)
    omega
  · have hfold := fold_fold_mod (a := (acc + cksum).toNat) (by omega)
    omega

/-- `ADJUST_CHECKSUM` on the word at `i`: the word is replaced, nothing else changes. -/
theorem clientNatAdjust_spec {m r : PacketMem} {i acc : Int}
    (hr : clientNatAdjust m i acc = some r) :
    0 ≤ i ∧ i + 2 ≤ m.bytes.length ∧ SameOutside m.bytes r.bytes i (i + 2) ∧
      BigEndian.decode (fieldAt r.bytes i 2) =
        adjustChecksum acc (BigEndian.decode (fieldAt m.bytes i 2)) := by
  simp only [clientNatAdjust, Option.bind_eq_bind, Option.bind_eq_some_iff] at hr
  obtain ⟨⟨ck, m₁⟩, hload, hstore⟩ := hr
  obtain ⟨h₀, hle, hck, hm₁⟩ := PacketMem.load_spec hload
  have hsame := PacketMem.store_sameOutside hstore
  rw [hm₁] at hsame
  refine ⟨h₀, hle, hsame, ?_⟩
  rw [PacketMem.store_fieldAt hstore, BigEndian.decode_encode 2 _ (adjustChecksum_lt _ _), hck]

theorem fieldAt_one {bytes : List UInt8} {i : Int} {b : UInt8}
    (hb : bytes[i.toNat]? = some b) : fieldAt bytes i 1 = [b] := by
  simp [fieldAt, List.take_one, List.head?_drop, hb]

/-- With TCP in the protocol field and a 40-byte IP buffer, the patch adjusts the IP checksum and
then the word at byte 36. -/
theorem clientNatPatch_tcp {ipbuf : Buffer} {h acc : Int} {m r : PacketMem}
    (hr : clientNatPatch ipbuf h acc m = some r) (htcp : m.bytes[(h + 9).toNat]? = some 6)
    (hlen : 40 ≤ bufLen ipbuf) :
    ∃ m₁ m₂, clientNatAdjust m (h + 10) acc = some m₁ ∧ m₂.bytes = m₁.bytes ∧
      clientNatAdjust m₂ (h + 36) acc = some r := by
  simp only [clientNatPatch, Option.bind_eq_bind, Option.bind_eq_some_iff] at hr
  obtain ⟨m₁, had, ⟨protocol, m₂⟩, hload, hr⟩ := hr
  obtain ⟨-, -, hsame, -⟩ := clientNatAdjust_spec had
  obtain ⟨h₉, -, hprot, hm₂⟩ := PacketMem.load_spec hload
  dsimp only at hr hprot hm₂
  -- the protocol byte is read after the IP checksum was patched, and is the one of the packet
  have h9 : fieldAt m₁.bytes (h + 9) 1 = [6] := by
    rw [hsame.fieldAt_eq h₉ (Or.inl (by push_cast; omega))]
    exact fieldAt_one htcp
  have hp6 : protocol = openvpnIpprotoTcp := by
    rw [hprot, h9]
    rfl
  rw [if_pos hp6, if_pos (by rw [sizeofIphdr, sizeofTcphdr]; push_cast; omega)] at hr
  exact ⟨m₁, m₂, had, hm₂, hr⟩

end Patch

/-- On a TCP packet with 40 bytes in `ipbuf`, once the addresses have changed by a nonzero amount
modulo `0xffff`, `client_nat_transform` changes the word at byte 36 by that amount and nothing
outside the addresses, the IP checksum and that word. For a header of `IHL > 5` words, byte 36 is
not the TCP checksum, at `4 * IHL + 16`: the rewrite alters a TCP header field or an IP option,
and the TCP checksum is left as it was. -/
theorem client_nat_transform_patches_fixed_tcp_offset {list : List ClientNatEntry}
    {ipbuf : Buffer} {direction : Nat} {m r : PacketMem} {h : Int} (hp : bufBptr ipbuf = some h)
    (hh : 0 ≤ h) (hr : clientNatTransform list ipbuf direction m = some r)
    (htcp : m.bytes[(h + 9).toNat]? = some 6) (hlen : 40 ≤ bufLen ipbuf)
    (hδ : ((addrSum m.bytes h : Int) - addrSum r.bytes h) % 0xffff ≠ 0) :
    BigEndian.decode (fieldAt r.bytes (h + 36) 2) ≠ BigEndian.decode (fieldAt m.bytes (h + 36) 2) ∧
    (BigEndian.decode (fieldAt r.bytes (h + 36) 2) : Int) % 0xffff =
      (BigEndian.decode (fieldAt m.bytes (h + 36) 2) + (addrSum m.bytes h - addrSum r.bytes h)) %
        0xffff ∧
    (∀ j : Nat, ((j : Int) < h + 10 ∨ h + 20 ≤ j) → ((j : Int) < h + 36 ∨ h + 38 ≤ j) →
      r.bytes[j]? = m.bytes[j]?) ∧
    ∀ ihl : Nat, 5 < ihl →
      fieldAt r.bytes (h + 4 * ihl + 16) 2 = fieldAt m.bytes (h + 4 * ihl + 16) 2 := by
  simp only [clientNatTransform, hp, Option.bind_eq_bind, Option.bind_some,
    Option.bind_eq_some_iff] at hr
  obtain ⟨⟨m₁, acc, alog⟩, hfold, hr⟩ := hr
  have hi := ClientNatInv.foldlM hh list (clientNatInv_start m h) hfold
  split_ifs at hr with halog
  · -- no rule rewrote an address: the packet is unchanged
    cases hr
    exact absurd (by rw [hi.untouched halog]; simp) hδ
  have htcp₁ : m₁.bytes[(h + 9).toNat]? = some 6 := by
    rw [hi.same.2 _ (Or.inl (by omega))]
    exact htcp
  obtain ⟨m₂, m₃, had₁, hm₃, had₂⟩ := clientNatPatch_tcp hr htcp₁ hlen
  obtain ⟨-, -, hsame₁, -⟩ := clientNatAdjust_spec had₁
  obtain ⟨-, hle₃₆, hsame₂, hval⟩ := clientNatAdjust_spec had₂
  rw [hm₃] at hsame₂ hval hle₃₆
  -- the patch leaves the addresses and reads the word at 36 of the packet
  have haddr : addrSum r.bytes h = addrSum m₁.bytes h := by
    simp only [addrSum]
    rw [hsame₂.fieldAt_eq (by omega) (Or.inl (by omega)),
      hsame₁.fieldAt_eq (by omega) (Or.inr (by omega)),
      hsame₂.fieldAt_eq (by omega) (Or.inl (by omega)),
      hsame₁.fieldAt_eq (by omega) (Or.inr (by omega))]
  have h36 : fieldAt m₂.bytes (h + 36) 2 = fieldAt m.bytes (h + 36) 2 := by
    rw [hsame₁.fieldAt_eq (by omega) (Or.inr (by omega)),
      hi.same.fieldAt_eq (by omega) (Or.inr (by omega))]
  have hacc : acc = (addrSum m.bytes h : Int) - addrSum r.bytes h := by
    rw [haddr]
    exact hi.acc
  rw [h36] at hval
  -- each address sum is at most four words
  have hbound : ∀ bytes : List UInt8, addrSum bytes h ≤ 4 * 0xffff := by
    intro bytes
    have h₁ := wordSum_le (fieldAt bytes (h + 12) 4)
    have h₂ := wordSum_le (fieldAt bytes (h + 16) 4)
    have l₁ : (fieldAt bytes (h + 12) 4).length ≤ 4 := List.length_take_le _ _
    have l₂ : (fieldAt bytes (h + 16) 4).length ≤ 4 := List.length_take_le _ _
    simp only [addrSum]
    omega
  have hm := hbound m.bytes
  have hr' := hbound r.bytes
  have hc := BigEndian.decode_lt (fieldAt m.bytes (h + 36) 2)
  have hcl : (fieldAt m.bytes (h + 36) 2).length ≤ 2 := List.length_take_le _ _
  have hc' : BigEndian.decode (fieldAt m.bytes (h + 36) 2) < 2 ^ 16 :=
    lt_of_lt_of_le hc (Nat.pow_le_pow_right (by norm_num) hcl)
  have hmod := @adjustChecksum_emod acc (BigEndian.decode (fieldAt m.bytes (h + 36) 2))
    (by omega) (by omega)
  rw [← hval, hacc] at hmod
  -- everything outside the patched words and the addresses is the packet's
  have hframe : ∀ j : Nat, ((j : Int) < h + 10 ∨ h + 20 ≤ j) → ((j : Int) < h + 36 ∨ h + 38 ≤ j) →
      r.bytes[j]? = m.bytes[j]? := by
    intro j hj hj'
    rw [hsame₂.2 j (by omega), hsame₁.2 j (by omega), hi.same.2 j (by omega)]
  refine ⟨fun heq => hδ ?_, hmod, hframe, fun ihl hihl => ?_⟩
  · rw [heq] at hmod
    omega
  · exact fieldAt_congr (by omega) fun j hj hj' => hframe j (by omega) (by omega)

/-- A TCP packet with one 4-byte IP option (`IHL = 6`) from `10.0.0.1`: its TCP header starts at
byte 24, so bytes 36 and 37 are the TCP data offset and flags, and the TCP checksum is at 40. -/
def natTcpPacket : List UInt8 :=
  [0x46, 0, 0, 44, 0, 0, 0x40, 0, 0x40, 6, 0, 0, 10, 0, 0, 1, 10, 0, 0, 2, 0, 0, 0, 0,
    0x04, 0xd2, 0, 0x50, 0, 0, 0, 0, 0, 0, 0, 0, 0x50, 0x10, 0xff, 0xff, 0, 0, 0, 0]

/-- The `SNAT` rule `10.0.0.0/24 → 192.168.0.0`. -/
def natTcpRule : ClientNatEntry := ⟨0, 0x0A000000, 0xFFFFFF00, 0xC0A80000⟩

/-- An outgoing packet from `10.0.0.1` under the `SNAT` rule `10.0.0.0/24 → 192.168.0.0`: the data
offset and flags of the TCP header are rewritten. -/
theorem client_nat_transform_patches_tcp_header_of_ihl_six :
    ∃ r, clientNatTransform [natTcpRule] (Buffer.ofBytes natTcpPacket) cnOutgoing
        ⟨natTcpPacket, []⟩ = some r ∧
      BigEndian.decode (fieldAt r.bytes (0 + 36) 2) ≠
        BigEndian.decode (fieldAt natTcpPacket (0 + 36) 2) ∧
      (BigEndian.decode (fieldAt r.bytes (0 + 36) 2) : Int) % 0xffff =
        (BigEndian.decode (fieldAt natTcpPacket (0 + 36) 2) +
          (addrSum natTcpPacket 0 - addrSum r.bytes 0)) % 0xffff ∧
      (∀ j : Nat, ((j : Int) < 0 + 10 ∨ (0 : Int) + 20 ≤ j) →
        ((j : Int) < 0 + 36 ∨ (0 : Int) + 38 ≤ j) →
        r.bytes[j]? = natTcpPacket[j]?) ∧
      ∀ ihl : Nat, 5 < ihl →
        fieldAt r.bytes (0 + 4 * ihl + 16) 2 = fieldAt natTcpPacket (0 + 4 * ihl + 16) 2 :=
  ⟨(clientNatTransform [natTcpRule] (Buffer.ofBytes natTcpPacket) cnOutgoing
      ⟨natTcpPacket, []⟩).getD ⟨[], []⟩, by decide,
    @client_nat_transform_patches_fixed_tcp_offset [natTcpRule] (Buffer.ofBytes natTcpPacket)
    cnOutgoing ⟨natTcpPacket, []⟩ ((clientNatTransform [natTcpRule] (Buffer.ofBytes natTcpPacket)
      cnOutgoing ⟨natTcpPacket, []⟩).getD ⟨[], []⟩) 0 rfl le_rfl (by decide) (by decide) (by decide)
    (by decide)⟩

end OpenVpn
