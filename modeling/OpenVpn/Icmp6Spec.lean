import OpenVpn.Icmp6
import OpenVpn.IpHeaderSafety
import OpenVpn.PacketMemSpec

/-! What `ipv6_send_icmp_unreachable` sends on a TUN device. For an IPv6 packet of at least 40
bytes, the reply is the IPv6 header (the offending source as destination, `ICMPV6` as next
header, the ICMPv6 length as payload length), the ICMPv6 "no route" header with the checksum
`ip_checksum` computes over it, and a quote of `min (1280, tun_mtu - 48, BLEN)` bytes of the
packet. The cap of 1280 bounds the quote, not the reply: the reply has 48 bytes more. -/

namespace OpenVpn

open OnesComplement

variable {c : Icmp6Context} {buf : Buffer}

/-- `is_ipv_X` on a TUN device, for a packet of at least 20 bytes: it reads the version nibble and
leaves the buffer as it is. -/
theorem isIpvX_tun (hb : BufBounded buf) (hlen : 20 ≤ buf.len) {v : UInt8}
    (hver : (buf.bytes.drop buf.offset.toNat).take 1 = [v]) (ipVer : Nat) (touched : List Int) :
    ∃ m', isIpvX .tun buf ipVer ⟨buf.bytes, touched⟩ =
        some ((buf, decide ((v.toNat >>> 4) &&& 0x0F = ipVer)), m') ∧
      m'.bytes = buf.bytes ∧ TouchedIn touched m'.touched buf.offset (buf.offset + buf.len) := by
  have hoff := hb.offset_nonneg
  have hcap := hb.len_le
  have hlenb := hb.length_bytes
  have hadv : bufAdvance buf ((0 : Nat) : Int) = (buf, true) := by
    rw [hb.bufAdvance_eq, if_pos (by omega)]
    simp
  have e0 : (buf.offset + ((0 : Nat) : Int)).toNat = buf.offset.toNat := by omega
  simp only [isIpvX, hb.bufBptr_eq, hb.bufLen_eq, Option.getD_some, if_true, sizeofIphdr]
  rw [if_neg (by omega), isIpvXVersion, PacketMem.load_of_le (by omega) (by simp only; omega)]
  simp only [e0, hver, Option.bind_eq_bind, Option.bind_some, BigEndian.decode, List.foldl,
    Nat.zero_mul, Nat.zero_add]
  refine ⟨⟨buf.bytes, touched ++ (List.range 1).map fun k : Nat => buf.offset + ((0 : Nat) : Int) + k⟩,
    ?_, rfl, (TouchedIn.refl touched _ _).range (by omega) (by omega)⟩
  by_cases hv : (v.toNat >>> 4) &&& 0x0F = ipVer
  · rw [if_pos hv, hadv, decide_eq_true hv]
    rfl
  · rw [if_neg hv, decide_eq_false hv]
    rfl

/-- The ICMPv6 message of the reply: type and code, the checksum `csum`, the cleared rest of the
header, and the quote. -/
def icmp6Message (csum : Nat) (quote : List UInt8) : List UInt8 :=
  icmp6Unreachable.take 2 ++ BigEndian.encode 2 csum ++ icmp6Unreachable.drop 4 ++ quote

theorem length_icmp6ReplyHeader {pip6 saddr : List UInt8} (hp : pip6.length = 40)
    (hs : saddr.length = 16) (payloadLen : Int) :
    (icmp6ReplyHeader pip6 saddr payloadLen).length = 40 := by
  simp [icmp6ReplyHeader, hp, hs]

theorem length_saddr (c : Icmp6Context) :
    ((c.ifconfigIpv6Remote.map Vector.toList).getD fe80Seven).length = 16 := by
  cases c.ifconfigIpv6Remote with
  | none => rfl
  | some a => simp

/-- The reply on a TUN device, for an IPv6 packet of at least 40 bytes, a `tun_mtu` of at least 48
and an `aux_buf` with room for it: the IPv6 header, the ICMPv6 message with the checksum of
`ip_checksum` over its zeroed form, and the quote. -/
theorem ipv6SendIcmpUnreachable_tun (hb : BufBounded buf) (hlen : 40 ≤ buf.len) {v : UInt8}
    (hver : (buf.bytes.drop buf.offset.toNat).take 1 = [v]) (hv : (v.toNat >>> 4) &&& 0x0F = 6)
    (htun : c.tunnelType = .tun) (hmtu : 48 ≤ c.tunMtu) (haux : BufBounded c.auxBuf)
    (hcap : 48 + min (min maxIcmpv6len (c.tunMtu - 48)) buf.len ≤ c.auxBuf.capacity) :
    ∃ out, ipv6SendIcmpUnreachable c buf = some (some out) ∧ BufBounded out ∧
      out.len = 48 + min (min maxIcmpv6len (c.tunMtu - 48)) buf.len ∧
      out.content = icmp6ReplyHeader (buf.content.take 40)
          ((c.ifconfigIpv6Remote.map Vector.toList).getD fe80Seven)
          (min (min maxIcmpv6len (c.tunMtu - 48)) buf.len) ++
        icmp6Message (ipChecksum (icmp6Unreachable ++
            buf.content.take (min (min maxIcmpv6len (c.tunMtu - 48)) buf.len).toNat)
          (sizeofIcmp6hdr + min (min maxIcmpv6len (c.tunMtu - 48)) buf.len)
          ((c.ifconfigIpv6Remote.map Vector.toList).getD fe80Seven)
          (((buf.content.take 40).drop 8).take 16) openvpnIpprotoIcmpv6)
          (buf.content.take (min (min maxIcmpv6len (c.tunMtu - 48)) buf.len).toNat) := by
  obtain ⟨m', hv6, -, -⟩ := isIpvX_tun hb (by omega) hver 6 []
  rw [decide_eq_true hv] at hv6
  generalize hP : min (min maxIcmpv6len (c.tunMtu - 48)) buf.len = P at hcap ⊢
  generalize hs : (c.ifconfigIpv6Remote.map Vector.toList).getD fe80Seven = saddr
  have hP0 : 0 ≤ P := by rw [← hP, maxIcmpv6len]; omega
  have hPl : P ≤ buf.len := by rw [← hP]; omega
  have hoff := hb.offset_nonneg
  have hpip6 : buf.load ((bufBptr buf).getD 0) sizeofIpv6hdr = some (buf.content.take 40) := by
    have h := hb.load_content (i := 0) (n := 40) le_rfl (by omega) (by omega)
    rw [Int.add_zero] at h
    rw [hb.bufBptr_eq, Option.getD_some]
    exact h
  have h48 : ((sizeofIpv6hdr : Nat) : Int) + ((sizeofIcmp6hdr : Nat) : Int) = 48 := rfl
  simp only [ipv6SendIcmpUnreachable, isIpv6, hv6, Option.bind_eq_bind, Option.bind_some, hb.bufLen_eq,
    if_neg (show ¬buf.len < ((sizeofIpv6hdr : Nat) : Int) by rw [sizeofIpv6hdr]; omega), hpip6, hs,
    htun, reduceCtorEq, if_false, h48, hP]
  -- `buf_init` leaves 48 bytes of headroom, where the two headers go
  have hcap₀ := haux.capacity_lt
  have hlenle := hb.len_le
  have hcapb := hb.capacity_lt
  unfold bufSizeMax at hcap₀ hcapb
  rw [haux.bufInit_eq, if_pos (by omega)]
  have ho₀ := haux.window (o := 48) (l := 0) (by omega) le_rfl (by omega)
  generalize ho₀e : ({ c.auxBuf with len := 0, offset := 48 } : Buffer) = o₀ at ho₀ ⊢
  have e₀ : o₀.offset = 48 ∧ o₀.len = 0 ∧ o₀.capacity = c.auxBuf.capacity := by
    rw [← ho₀e]
    exact ⟨rfl, rfl, rfl⟩
  have hql : (buf.content.take P.toNat).length = P.toNat := by
    rw [List.length_take, hb.length_content]
    omega
  have hsz : sizeOfInt P = (buf.content.take P.toNat).length := by
    rw [hql, sizeOfInt, Int.emod_eq_of_lt hP0 (by omega)]
  have hsafe : bufSafe o₀ (sizeOfInt P) = true := by
    rw [ho₀.bufSafe_iff, hsz, hql, bufSizeMax]
    omega
  -- the quote
  have hroom₁ : o₀.offset + o₀.len + (buf.content.take P.toNat).length ≤ o₀.capacity := by
    rw [hql]
    omega
  have hcopy : bufCopyN o₀ buf P = some (o₀.append (buf.content.take P.toNat),
      { buf with offset := buf.offset + P, len := buf.len - P }, true) := by
    rw [hb.bufCopyN_eq, if_pos ⟨hP0, hPl⟩,
      ho₀.bufWrite_eq_append (by rw [hql, bufSizeMax]; omega) hroom₁, Option.map_some]
  have ho₁ := ho₀.append_bounded hroom₁
  have hc₁ : (o₀.append (buf.content.take P.toNat)).content = buf.content.take P.toNat := by
    rw [ho₀.content_append hroom₁]
    simp [Buffer.content, e₀.2.1]
  -- the ICMPv6 header before it
  have hi8 : ((sizeofIcmp6hdr : Nat) : Int) = (icmp6Unreachable.length : Int) := rfl
  have hroom₂ : (icmp6Unreachable.length : Int) ≤ (o₀.append (buf.content.take P.toNat)).offset := by
    simp [e₀.1, icmp6Unreachable]
  simp only [cAssert, if_true, hsafe, Option.bind_some]
  rw [hcopy, Option.bind_some]
  dsimp only
  rw [if_pos rfl, Option.bind_some, hi8, ho₁.bufWritePrepend_eq_prepend hroom₂, Option.bind_some]
  dsimp only
  rw [if_pos rfl, Option.bind_some]
  have ho₂ := ho₁.prepend_bounded hroom₂
  have hc₂ : ((o₀.append (buf.content.take P.toNat)).prepend icmp6Unreachable).content =
      icmp6Unreachable ++ buf.content.take P.toNat := by
    rw [ho₁.content_prepend hroom₂, hc₁]
  generalize ho₂e : (o₀.append (buf.content.take P.toNat)).prepend icmp6Unreachable = o₂ at ho₂ hc₂ ⊢
  have e₂ : o₂.offset = 40 ∧ o₂.len = 8 + P := by
    rw [← ho₂e]
    simp only [Buffer.offset_prepend, Buffer.len_prepend, Buffer.offset_append, Buffer.len_append,
      e₀.1, e₀.2.1, hql]
    exact ⟨rfl, by simp [icmp6Unreachable]; omega⟩
  -- the checksum is computed over the ICMPv6 message and written into its header
  have hlen₂ : bufLen o₂ = ((sizeofIcmp6hdr : Nat) : Int) + P := by
    rw [ho₂.bufLen_eq, e₂.2]
    rfl
  rw [ho₂.bufBptr_eq, Option.getD_some, hlen₂, hc₂]
  generalize hcs : ipChecksum (icmp6Unreachable ++ buf.content.take P.toNat)
    (((sizeofIcmp6hdr : Nat) : Int) + P) saddr (((buf.content.take 40).drop 8).take 16)
    openvpnIpprotoIcmpv6 = csum
  obtain ⟨o₃, hst, ho₃, ho₃o, ho₃l, hc₃⟩ :=
    ho₂.store_content (show 2 + (BigEndian.encode 2 csum).length ≤ o₂.len by simp; omega)
  simp only [Nat.cast_ofNat] at hst
  rw [hst, Option.bind_some]
  -- the IPv6 header goes in front
  have hpl : (buf.content.take 40).length = 40 := by
    rw [List.length_take, hb.length_content]
    omega
  have hsl : saddr.length = 16 := hs ▸ length_saddr c
  have hh40 : ((sizeofIpv6hdr : Nat) : Int) =
      ((icmp6ReplyHeader (buf.content.take 40) saddr P).length : Int) := by
    rw [length_icmp6ReplyHeader hpl hsl]
    rfl
  have hroom₃ : ((icmp6ReplyHeader (buf.content.take 40) saddr P).length : Int) ≤ o₃.offset := by
    rw [length_icmp6ReplyHeader hpl hsl, ho₃o, e₂.1]
    rfl
  rw [hh40, ho₃.bufWritePrepend_eq_prepend hroom₃, Option.bind_some]
  dsimp only
  rw [if_pos rfl, Option.bind_some]
  refine ⟨_, rfl, ho₃.prepend_bounded hroom₃, ?_, ?_⟩
  · rw [Buffer.len_prepend, ho₃l, e₂.2, length_icmp6ReplyHeader hpl hsl]
    omega
  · rw [ho₃.content_prepend hroom₃, hc₃, hc₂, ← hi8, hcs, icmp6Message,
      List.take_append_of_le_length (by decide),
      List.drop_append_of_le_length (by simp [icmp6Unreachable])]
    simp only [List.append_assoc, BigEndian.length_encode]

/-- On a TUN device with a `tun_mtu` above 1280, an IPv6 packet of more than 1232 bytes is answered
with a reply longer than the 1280 bytes `MAX_ICMPV6LEN` is to bound: `max_payload_size` caps the
quote at 1280 and the two headers add 48. -/
theorem ipv6_send_icmp_unreachable_exceeds_1280 (hb : BufBounded buf) {v : UInt8}
    (hver : (buf.bytes.drop buf.offset.toNat).take 1 = [v]) (hv : (v.toNat >>> 4) &&& 0x0F = 6)
    (htun : c.tunnelType = .tun) (haux : BufBounded c.auxBuf)
    (hcap : 48 + min (min maxIcmpv6len (c.tunMtu - 48)) buf.len ≤ c.auxBuf.capacity)
    (hmtu : maxIcmpv6len < c.tunMtu) (hlong : maxIcmpv6len - 48 < buf.len) :
    ∃ out, ipv6SendIcmpUnreachable c buf = some (some out) ∧
      bufLen out = sizeofIpv6hdr + sizeofIcmp6hdr + min (min maxIcmpv6len (c.tunMtu - 48)) buf.len ∧
      maxIcmpv6len < bufLen out := by
  rw [maxIcmpv6len] at hmtu hlong
  obtain ⟨out, hr, hout, hlen, -⟩ :=
    ipv6SendIcmpUnreachable_tun hb (by omega) hver hv htun (by omega) haux hcap
  refine ⟨out, hr, by rw [hout.bufLen_eq, hlen]; rfl, ?_⟩
  rw [hout.bufLen_eq, hlen, maxIcmpv6len]
  omega

/-- A 1300-byte IPv6 packet on a TUN device with `tun_mtu` 1500 is answered with 1328 bytes. -/
theorem ipv6_send_icmp_unreachable_1300_byte_packet :
    ∃ out, ipv6SendIcmpUnreachable ⟨.tun, none, 1500, Buffer.ofBytes (List.replicate 1400 0)⟩
        (Buffer.ofBytes (0x60 :: List.replicate 1299 0)) = some (some out) ∧
      bufLen out = sizeofIpv6hdr + sizeofIcmp6hdr +
        min (min maxIcmpv6len (1500 - 48)) (Buffer.ofBytes (0x60 :: List.replicate 1299 0)).len ∧
      maxIcmpv6len < bufLen out := by
  have hl : (0x60 :: List.replicate 1299 (0 : UInt8)).length = 1300 := by
    rw [List.length_cons, List.length_replicate]
  have hl' : (List.replicate 1400 (0 : UInt8)).length = 1400 := List.length_replicate
  have hlen : (Buffer.ofBytes (0x60 :: List.replicate 1299 0)).len = 1300 := by
    rw [Buffer.ofBytes, hl]
    rfl
  have hcap : (Buffer.ofBytes (List.replicate 1400 0)).capacity = 1400 := by
    rw [Buffer.ofBytes, hl']
    rfl
  exact ipv6_send_icmp_unreachable_exceeds_1280 (bufBounded_ofBytes (by rw [hl]; decide))
    (v := 0x60) rfl (by decide) rfl (bufBounded_ofBytes (by rw [hl']; decide))
    (by rw [hlen, hcap]; decide) (by decide) (by rw [hlen]; decide)

end OpenVpn
