import OpenVpn.MssSpec

/-! What `mss_fixup_ipv4` and `mss_fixup_ipv6` do to a whole IP packet in a bounded buffer. They
never fault and read or write the packet only. A packet that is not a TCP SYN segment behind a
header they accept keeps every byte; for one that is, the segment `mssIpv4Segment` or
`mssIpv6Segment` gives is clamped as `mss_fixup_dowork` clamps it, to `maxmss` for IPv4 and to
the `uint16_t` value `maxmss - 20` for IPv6.

`mss_fixup_ipv4` takes the TCP header to start `4 * IHL` bytes into the packet and does not
check that `IHL` is at least `5`: for a shorter header the segment it clamps starts inside the IP
header, which `mssIpv4Segment` keeps as the code computes it. -/

namespace OpenVpn

/-- The TCP segment `mss_fixup_ipv4` hands to `mss_fixup_dowork`: that of an unfragmented TCP
packet whose `tot_len` is `BLEN(buf)` and whose `4 * IHL` bytes of IP header leave room for a TCP
header, when the segment has the SYN flag. -/
def mssIpv4Segment (bytes : List UInt8) (buf : Buffer) : Option Buffer :=
  if bufLen buf < sizeofIphdr then none
  else
    let h := buf.offset
    let hlen : Int := openvpnIphGetLen (BigEndian.decode (fieldAt bytes h 1))
    if BigEndian.decode (fieldAt bytes (h + 9) 1) = openvpnIpprotoTcp ∧
        (BigEndian.decode (fieldAt bytes (h + 2) 2) : Int) = bufLen buf ∧
        BigEndian.decode (fieldAt bytes (h + 6) 2) &&& openvpnIpOffmask = 0 ∧ hlen ≤ bufLen buf ∧
        sizeofTcphdr ≤ bufLen buf - hlen ∧
        BigEndian.decode (fieldAt bytes (h + hlen + 13) 1) &&& openvpnTcphSynMask ≠ 0 then
      some { buf with offset := h + hlen, len := buf.len - hlen }
    else none

/-- The TCP segment `mss_fixup_ipv6` hands to `mss_fixup_dowork`: the 40 bytes of IPv6 header are
followed by a TCP header, `payload_len + 40` is `BLEN(buf)`, and the segment has the SYN flag. -/
def mssIpv6Segment (bytes : List UInt8) (buf : Buffer) : Option Buffer :=
  if bufLen buf < sizeofIpv6hdr then none
  else
    let h := buf.offset
    if bufLen buf = BigEndian.decode (fieldAt bytes (h + 4) 2) + 40 ∧
        BigEndian.decode (fieldAt bytes (h + 6) 1) = openvpnIpprotoTcp ∧ sizeofTcphdr ≤ bufLen buf - 40 ∧
        BigEndian.decode (fieldAt bytes (h + 40 + 13) 1) &&& openvpnTcphSynMask ≠ 0 then
      some { buf with offset := h + 40, len := buf.len - 40 }
    else none

section Segment

variable {m : PacketMem}

/-- The SYN test on a segment inside the memory: `mss_fixup_dowork` runs exactly on a SYN. -/
theorem mssFixupIfSyn_fixed (maxmss : UInt16) {seg : Buffer} (hb : BufBounded seg) (h20 : 20 ≤ seg.len)
    (hin : seg.offset + seg.len ≤ m.bytes.length) :
    ∃ m', mssFixupIfSyn seg maxmss m = some m' ∧
      (∀ j ∈ m'.touched, j ∈ m.touched ∨ (seg.offset ≤ j ∧ j < seg.offset + seg.len)) ∧
      if BigEndian.decode (fieldAt m.bytes (seg.offset + 13) 1) &&& openvpnTcphSynMask ≠ 0 then
        MssFixed maxmss.toNat seg.offset (bufLen seg).toNat (seg.offset + 20) (mssOptionBytes m.bytes seg)
          (mssOptionOffsets (mssOptionBytes m.bytes seg)) m m'
      else m'.bytes = m.bytes := by
  have h₀ := hb.offset_nonneg
  have hlen := hb.bufLen_eq
  -- the flags byte, in the fixed TCP header
  have hload : ∀ j ∈ m.touched ++ (List.range 1).map (fun k : Nat => seg.offset + 13 + k),
      j ∈ m.touched ∨ (seg.offset ≤ j ∧ j < seg.offset + seg.len) := fun j hj => by
    simp only [List.mem_append, List.mem_map, List.mem_range] at hj
    rcases hj with hj | ⟨k, hk, rfl⟩
    · exact .inl hj
    · exact .inr (by omega)
  simp only [mssFixupIfSyn, hb.bufBptr_eq, PacketMem.load_eq (m := m) (n := 1) (by omega : 0 ≤ seg.offset + 13)
    (by omega), Option.bind_eq_bind, Option.bind_some]
  by_cases hsyn : BigEndian.decode (fieldAt m.bytes (seg.offset + 13) 1) &&& openvpnTcphSynMask ≠ 0
  · rw [if_pos hsyn]
    let m₁ : PacketMem :=
      { m with touched := m.touched ++ (List.range 1).map fun k : Nat => seg.offset + 13 + k }
    obtain ⟨m', hm', hfix⟩ := mssFixupDowork_fixed maxmss (m := m₁) h₀
      (show seg.offset + bufLen seg ≤ (m₁.bytes.length : Int) by rw [hlen]; exact hin)
    refine ⟨m', hm', fun j hj => ?_, by
      rw [if_pos hsyn]
      exact hfix.of_load rfl fun j hj => (hload j hj).imp_right fun h => ⟨h.1, by omega⟩⟩
    rcases hfix.touched j hj with hj | hj
    · exact hload j hj
    · exact .inr (by omega)
  · rw [if_neg hsyn]
    exact ⟨_, rfl, hload, by rw [if_neg hsyn]⟩

/-- What `mss_fixup_ipv4` does to a packet in a bounded buffer inside the memory: the accesses,
and the bytes after it through `mssIpv4Segment`. -/
theorem mssFixupIpv4_fixed (maxmss : UInt16) {buf : Buffer} (hb : BufBounded buf)
    (hin : buf.offset + buf.len ≤ m.bytes.length) :
    ∃ m', mssFixupIpv4 buf maxmss m = some m' ∧
      (∀ j ∈ m'.touched, j ∈ m.touched ∨ (buf.offset ≤ j ∧ j < buf.offset + buf.len)) ∧
      match mssIpv4Segment m.bytes buf with
      | none => m'.bytes = m.bytes
      | some seg => ∃ m₀ : PacketMem, m₀.bytes = m.bytes ∧
          MssFixed maxmss.toNat seg.offset (bufLen seg).toNat (seg.offset + 20)
            (mssOptionBytes m.bytes seg) (mssOptionOffsets (mssOptionBytes m.bytes seg)) m₀ m' := by
  have h₀ := hb.offset_nonneg
  have hlen := hb.bufLen_eq
  unfold mssFixupIpv4 mssIpv4Segment
  by_cases hshort : bufLen buf < sizeofIphdr
  · rw [if_pos hshort, if_pos hshort]
    exact ⟨m, rfl, fun j hj => .inl hj, rfl⟩
  rw [if_neg hshort, if_neg hshort]
  have h20 : (20 : Int) ≤ buf.len := by
    have : ¬bufLen buf < (20 : Nat) := hshort
    omega
  obtain ⟨bytes, touched⟩ := m
  simp only at hin
  simp (disch := omega) only [hb.bufBptr_eq, PacketMem.load_mk, Option.bind_eq_bind, Option.bind_some]
  generalize hhl : (openvpnIphGetLen (BigEndian.decode (fieldAt bytes buf.offset 1)) : Int) = hl
  have hhl₀ : 0 ≤ hl := hhl ▸ Int.natCast_nonneg _
  -- every field of the IP header read lies in its first 20 bytes
  have hhdr : ∀ j ∈ touched ++ (List.range 1).map (fun k : Nat => buf.offset + k) ++
      (List.range 1).map (fun k : Nat => buf.offset + 9 + k) ++
      (List.range 2).map (fun k : Nat => buf.offset + 2 + k) ++
      (List.range 2).map (fun k : Nat => buf.offset + 6 + k),
      j ∈ touched ∨ (buf.offset ≤ j ∧ j < buf.offset + buf.len) := fun j hj => by
    by_cases hm : j ∈ touched
    · exact .inl hm
    · right
      simp only [List.mem_append, PacketMem.mem_map_range_add, hm, false_or] at hj
      omega
  by_cases htcp : BigEndian.decode (fieldAt bytes (buf.offset + 9) 1) = openvpnIpprotoTcp
  swap
  · rw [if_neg htcp, if_neg fun h => htcp h.1]
    exact ⟨_, rfl, fun j hj => hhdr j (List.mem_append_left _ (List.mem_append_left _ hj)), rfl⟩
  rw [if_pos htcp]
  by_cases htot : (BigEndian.decode (fieldAt bytes (buf.offset + 2) 2) : Int) = bufLen buf
  swap
  · rw [if_neg htot, if_neg fun h => htot h.2.1]
    exact ⟨_, rfl, fun j hj => hhdr j (List.mem_append_left _ hj), rfl⟩
  rw [if_pos htot]
  by_cases hfrag : BigEndian.decode (fieldAt bytes (buf.offset + 6) 2) &&& openvpnIpOffmask = 0 ∧
      hl ≤ bufLen buf ∧ (sizeofTcphdr : Int) ≤ bufLen buf - hl
  swap
  · rw [if_neg hfrag, if_neg fun h => hfrag ⟨h.2.2.1, h.2.2.2.1, h.2.2.2.2.1⟩]
    exact ⟨_, rfl, hhdr, rfl⟩
  have h20seg : (sizeofTcphdr : Int) = 20 := rfl
  rw [if_pos hfrag, hb.bufAdvance_eq, if_pos (show 0 ≤ hl ∧ hl ≤ buf.len from ⟨hhl₀, by omega⟩)]
  dsimp only
  rw [if_pos rfl]
  -- the TCP segment after the `hl` bytes of IP header
  obtain ⟨m', hm', htouch, hfix⟩ := mssFixupIfSyn_fixed maxmss
    (m := ⟨bytes, touched ++ (List.range 1).map (fun k : Nat => buf.offset + k) ++
      (List.range 1).map (fun k : Nat => buf.offset + 9 + k) ++
      (List.range 2).map (fun k : Nat => buf.offset + 2 + k) ++
      (List.range 2).map (fun k : Nat => buf.offset + 6 + k)⟩)
    (hb.window (o := buf.offset + hl) (l := buf.len - hl) (by omega) (by omega)
      (by have := hb.len_le; omega)) (by simp only; omega) (by simp only; omega)
  refine ⟨m', hm', fun j hj => ?_, ?_⟩
  · rcases htouch j hj with hj | hj
    · exact hhdr j hj
    · exact .inr (by simp only at hj; omega)
  by_cases hsyn : BigEndian.decode (fieldAt bytes (buf.offset + hl + 13) 1) &&& openvpnTcphSynMask ≠ 0
  · rw [if_pos ⟨htcp, htot, hfrag.1, hfrag.2.1, hfrag.2.2, hsyn⟩]
    rw [if_pos hsyn] at hfix
    exact ⟨_, rfl, hfix⟩
  · rw [if_neg fun h => hsyn h.2.2.2.2.2]
    rw [if_neg hsyn] at hfix
    exact hfix

/-- `mss_fixup_ipv4` on a packet in a bounded buffer inside the memory does not fault and reads or
writes the packet only. It changes no byte unless `mssIpv4Segment` finds a TCP SYN segment behind
the IP header, and that segment it clamps as `mss_fixup_dowork` does, from the bytes of the packet
(the reads of the IP header before it are not in the segment). -/
theorem mss_fixup_ipv4_clamps_syn_only (maxmss : UInt16) {buf : Buffer} (hb : BufBounded buf)
    (hin : buf.offset + buf.len ≤ m.bytes.length) :
    ∃ m', mssFixupIpv4 buf maxmss m = some m' ∧
      (∀ j ∈ m'.touched, j ∈ m.touched ∨ (buf.offset ≤ j ∧ j < buf.offset + buf.len)) ∧
      match mssIpv4Segment m.bytes buf with
      | none => m'.bytes = m.bytes
      | some seg => ∃ m₀ : PacketMem, m₀.bytes = m.bytes ∧
          MssFixed maxmss.toNat seg.offset (bufLen seg).toNat (seg.offset + 20)
            (mssOptionBytes m.bytes seg) (mssOptionOffsets (mssOptionBytes m.bytes seg)) m₀ m' :=
  mssFixupIpv4_fixed maxmss hb hin

/-- An IPv4 packet, 20 bytes of header without options, carrying the `NOP`-led SYN segment. -/
def mssNopSynIpv4 : List UInt8 :=
  [0x45, 0, 0, 48, 0, 0, 0x40, 0, 64, 6, 0, 0, 10, 0, 0, 1, 10, 0, 0, 2] ++ mssNopSynSegment

/-- Its MSS value, at byte 43 of the packet, is clamped from 1460 to 1400. -/
theorem mss_fixup_ipv4_clamps_nop_syn :
    BufBounded (Buffer.ofBytes mssNopSynIpv4) ∧
      (Buffer.ofBytes mssNopSynIpv4).offset + (Buffer.ofBytes mssNopSynIpv4).len ≤ mssNopSynIpv4.length ∧
      ∃ m', mssFixupIpv4 (Buffer.ofBytes mssNopSynIpv4) 1400 ⟨mssNopSynIpv4, []⟩ = some m' ∧
        fieldAt m'.bytes 43 2 = BigEndian.encode 2 1400 := by
  have hb := bufBounded_ofBytes (show (mssNopSynIpv4.length : Int) < bufSizeMax by decide)
  obtain ⟨m', hm', -, hseg⟩ := mss_fixup_ipv4_clamps_syn_only 1400 (m := ⟨mssNopSynIpv4, []⟩) hb
    (by decide)
  have hsome : mssIpv4Segment mssNopSynIpv4 (Buffer.ofBytes mssNopSynIpv4) =
      some ⟨48, 20, 28, some mssNopSynIpv4⟩ := by decide
  rw [hsome] at hseg
  obtain ⟨m₀, -, hfix⟩ := hseg
  have hq : 1 ∈ mssOptionOffsets (mssOptionBytes mssNopSynIpv4 ⟨48, 20, 28, some mssNopSynIpv4⟩) := by
    decide
  have hv : mssValue (mssOptionBytes mssNopSynIpv4 ⟨48, 20, 28, some mssNopSynIpv4⟩) 1 = 1460 := by decide
  have h := hfix.clamp 1 hq
  rw [hv] at h
  exact ⟨hb, by decide, m', hm', h⟩

/-- `mss_fixup_ipv6` on a packet in a bounded buffer inside the memory does not fault and reads or
writes the packet only. It changes no byte unless `mssIpv6Segment` finds a TCP SYN segment after
the 40 bytes of IPv6 header, and that segment it clamps as `mss_fixup_dowork` does, to the
`uint16_t` value `maxmss - 20`. -/
theorem mss_fixup_ipv6_clamps_syn_only (maxmss : UInt16) {buf : Buffer} (hb : BufBounded buf)
    (hin : buf.offset + buf.len ≤ m.bytes.length) :
    ∃ m', mssFixupIpv6 buf maxmss m = some m' ∧
      (∀ j ∈ m'.touched, j ∈ m.touched ∨ (buf.offset ≤ j ∧ j < buf.offset + buf.len)) ∧
      match mssIpv6Segment m.bytes buf with
      | none => m'.bytes = m.bytes
      | some seg => ∃ m₀ : PacketMem, m₀.bytes = m.bytes ∧
          MssFixed (maxmss - 20).toNat seg.offset (bufLen seg).toNat (seg.offset + 20)
            (mssOptionBytes m.bytes seg) (mssOptionOffsets (mssOptionBytes m.bytes seg)) m₀ m' := by
  have h₀ := hb.offset_nonneg
  have hlen := hb.bufLen_eq
  unfold mssFixupIpv6 mssIpv6Segment
  by_cases hshort : bufLen buf < sizeofIpv6hdr
  · rw [if_pos hshort, if_pos hshort]
    exact ⟨m, rfl, fun j hj => .inl hj, rfl⟩
  rw [if_neg hshort, if_neg hshort]
  have h40 : (40 : Int) ≤ buf.len := by
    have : ¬bufLen buf < (40 : Nat) := hshort
    omega
  obtain ⟨bytes, touched⟩ := m
  simp only at hin
  simp (disch := omega) only [hb.bufBptr_eq, PacketMem.load_mk, Option.bind_eq_bind, Option.bind_some]
  -- both fields read lie in the IPv6 header
  have hhdr : ∀ j ∈ touched ++ (List.range 2).map (fun k : Nat => buf.offset + 4 + k) ++
      (List.range 1).map (fun k : Nat => buf.offset + 6 + k),
      j ∈ touched ∨ (buf.offset ≤ j ∧ j < buf.offset + buf.len) := fun j hj => by
    by_cases hm : j ∈ touched
    · exact .inl hm
    · right
      simp only [List.mem_append, PacketMem.mem_map_range_add, hm, false_or] at hj
      omega
  by_cases hfull : bufLen buf = BigEndian.decode (fieldAt bytes (buf.offset + 4) 2) + 40
  swap
  · rw [if_pos hfull, if_neg fun h => hfull h.1]
    exact ⟨_, rfl, fun j hj => hhdr j (List.mem_append_left _ hj), rfl⟩
  rw [if_neg (not_not.mpr hfull)]
  by_cases htcp : BigEndian.decode (fieldAt bytes (buf.offset + 6) 1) = openvpnIpprotoTcp
  swap
  · rw [if_pos htcp, if_neg fun h => htcp h.2.1]
    exact ⟨_, rfl, hhdr, rfl⟩
  rw [if_neg (not_not.mpr htcp), hb.bufAdvance_eq, if_pos (show (0 : Int) ≤ 40 ∧ 40 ≤ buf.len from ⟨by omega, h40⟩)]
  dsimp only
  have hseg := hb.window (o := buf.offset + 40) (l := buf.len - 40) (by omega) (by omega)
    (by have := hb.len_le; omega)
  by_cases hroom : (sizeofTcphdr : Int) ≤ bufLen buf - 40
  swap
  · rw [if_neg fun h => hroom (by rw [hseg.bufLen_eq] at h; simp only at h; omega),
      if_neg fun h => hroom h.2.2.1]
    exact ⟨_, rfl, hhdr, rfl⟩
  rw [if_pos ⟨rfl, by rw [hseg.bufLen_eq]; simp only; omega⟩]
  -- the TCP segment after the 40 bytes of IPv6 header
  obtain ⟨m', hm', htouch, hfix⟩ := mssFixupIfSyn_fixed (maxmss - 20)
    (m := ⟨bytes, touched ++ (List.range 2).map (fun k : Nat => buf.offset + 4 + k) ++
      (List.range 1).map (fun k : Nat => buf.offset + 6 + k)⟩) hseg
    (by simp only; have : (sizeofTcphdr : Int) = 20 := rfl; omega) (by simp only; omega)
  refine ⟨m', hm', fun j hj => ?_, ?_⟩
  · rcases htouch j hj with hj | hj
    · exact hhdr j hj
    · exact .inr (by simp only at hj; omega)
  by_cases hsyn : BigEndian.decode (fieldAt bytes (buf.offset + 40 + 13) 1) &&& openvpnTcphSynMask ≠ 0
  · rw [if_pos ⟨hfull, htcp, hroom, hsyn⟩]
    rw [if_pos hsyn] at hfix
    exact ⟨_, rfl, hfix⟩
  · rw [if_neg fun h => hsyn h.2.2.2]
    rw [if_neg hsyn] at hfix
    exact hfix

/-- An IPv6 packet, 40 bytes of header with TCP as next header, carrying the `NOP`-led SYN segment. -/
def mssNopSynIpv6 : List UInt8 :=
  [0x60, 0, 0, 0, 0, 28, 6, 64] ++ List.replicate 15 0 ++ [1] ++ List.replicate 15 0 ++ [2] ++
    mssNopSynSegment

/-- With `maxmss = 1440` its MSS value, at byte 63 of the packet, is clamped from 1460 to 1420. -/
theorem mss_fixup_ipv6_clamps_nop_syn :
    BufBounded (Buffer.ofBytes mssNopSynIpv6) ∧
      (Buffer.ofBytes mssNopSynIpv6).offset + (Buffer.ofBytes mssNopSynIpv6).len ≤ mssNopSynIpv6.length ∧
      ∃ m', mssFixupIpv6 (Buffer.ofBytes mssNopSynIpv6) 1440 ⟨mssNopSynIpv6, []⟩ = some m' ∧
        fieldAt m'.bytes 63 2 = BigEndian.encode 2 1420 := by
  have hb := bufBounded_ofBytes (show (mssNopSynIpv6.length : Int) < bufSizeMax by decide)
  obtain ⟨m', hm', -, hseg⟩ := mss_fixup_ipv6_clamps_syn_only 1440 (m := ⟨mssNopSynIpv6, []⟩) hb
    (by decide)
  have hsome : mssIpv6Segment mssNopSynIpv6 (Buffer.ofBytes mssNopSynIpv6) =
      some ⟨68, 40, 28, some mssNopSynIpv6⟩ := by decide
  rw [hsome] at hseg
  obtain ⟨m₀, -, hfix⟩ := hseg
  have hq : 1 ∈ mssOptionOffsets (mssOptionBytes mssNopSynIpv6 ⟨68, 40, 28, some mssNopSynIpv6⟩) := by
    decide
  have hv : mssValue (mssOptionBytes mssNopSynIpv6 ⟨68, 40, 28, some mssNopSynIpv6⟩) 1 = 1460 := by decide
  have h := hfix.clamp 1 hq
  rw [hv] at h
  exact ⟨hb, by decide, m', hm', h⟩

end Segment

end OpenVpn
