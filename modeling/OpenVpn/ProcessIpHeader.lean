import OpenVpn.MssIp
import OpenVpn.DhcpSpec
import OpenVpn.Icmp6Spec

/-! `process_ip_header` with the packet functions it calls as this development models them:
`mss_fixup_ipv4` and `mss_fixup_ipv6` of `mss.c`, `dhcp_extract_router_msg` of `dhcp.c` and
`ipv6_send_icmp_unreachable` of `forward.c` make the `IpConsumers` of `IpHeader`. The router
address `dhcp_extract_router_msg` returns goes to `route_list_add_vpn_gateway`, and the reply of
`ipv6_send_icmp_unreachable` to `c2.to_tun` or `c2.to_link`; neither is packet memory, and
`processIpHeader` keeps neither. `ipv6_send_icmp_unreachable` reads the packet through the
buffer, so its reads are not in the record: one outside the allocation faults instead.

On a TUN device the composition stays inside the packet. Without client NAT and DHCP
extraction an IPv4 packet leaves it with the bytes `mss_fixup_ipv4` makes when `PIP_MSSFIX`
survives the options; a DHCPACK or DHCPOFFER loses its router options whatever else the flags
select; and under `--block-ipv6` an IPv6 packet is dropped once its reply is built. -/

namespace OpenVpn

/-- The packet functions of `process_ip_header`, with `c2.frame.mss_fix` as `mssFix` and `c` what
`ipv6_send_icmp_unreachable` reads of the context. Each runs on the packet bytes with an empty
record of accesses. -/
def ipConsumers (mssFix : UInt16) (c : Icmp6Context) : IpConsumers where
  mssFixupIpv4 ipbuf bytes :=
    (mssFixupIpv4 ipbuf mssFix ⟨bytes, []⟩).map fun m => (m.bytes, m.touched)
  mssFixupIpv6 ipbuf bytes :=
    (mssFixupIpv6 ipbuf mssFix ⟨bytes, []⟩).map fun m => (m.bytes, m.touched)
  dhcpExtractRouterMsg ipbuf bytes :=
    (dhcpExtractRouterMsg ipbuf ⟨bytes, []⟩).map fun r => (r.2.bytes, r.2.touched)
  -- the reply is built in `aux_buf` from the packet as the calls before left it
  ipv6SendIcmpUnreachable buf _ bytes :=
    (ipv6SendIcmpUnreachable c { buf with data := buf.data.map fun _ => bytes }).map
      fun _ => (bytes, [])

variable {buf : Buffer} {m : PacketMem} {lo hi : Int}

theorem PacketMem.call_eq {f : List UInt8 → Option (List UInt8 × List Int)}
    {r : List UInt8 × List Int} (h : f m.bytes = some r) :
    m.call f = some ⟨r.1, m.touched ++ r.2⟩ := by
  rw [PacketMem.call, h, Option.map_some]

theorem TouchedIn.append_of_nil {t d : List Int} (h : TouchedIn [] d lo hi) :
    TouchedIn t (t ++ d) lo hi := by
  intro j hj
  rcases List.mem_append.mp hj with hj | hj
  · exact .inl hj
  · rcases h j hj with hj | hj
    · exact absurd hj List.not_mem_nil
    · exact .inr hj

theorem BufBounded.end_le_length (hb : BufBounded buf) : buf.offset + buf.len ≤ buf.bytes.length := by
  have := hb.len_le
  have := hb.length_bytes
  omega

theorem PacketMem.within_of_touchedIn (h : TouchedIn [] m.touched lo hi) : m.Within lo hi :=
  fun j hj => (h j hj).resolve_left List.not_mem_nil

/-- One step of the IPv4 branch that may be skipped: both ways it leaves a memory with `P`. -/
theorem exists_ite_some {c : Prop} [Decidable c] {x : Option PacketMem} {P : PacketMem → Prop}
    (hx : c → ∃ m', x = some m' ∧ P m') (hm : ¬c → P m) :
    ∃ m', (if c then x else pure m) = some m' ∧ P m' := by
  split_ifs with h
  · exact hx h
  · exact ⟨m, rfl, hm h⟩

/-- The form `do` gives `let m ← if c then x else pure a; k m`: the continuation in both branches. -/
theorem ite_bind_pure_of_eq_some {α β : Type} {c : Prop} [Decidable c] {x : Option α} {a b : α}
    {k : α → Option β} (h : (if c then x else pure a) = some b) :
    (if c then x >>= k else pure a >>= k) = k b := by
  split_ifs at h ⊢
  · rw [h]
    rfl
  · cases h
    rfl

/-! ### The flags `process_ip_header` keeps -/

section Flags

variable {opt : IpHeaderOptions}

theorem processIpHeaderFlags_mssfix (flags : UInt32) :
    processIpHeaderFlags opt flags &&& pipMssfix =
      if opt.mssfix = 0 then 0 else flags &&& pipMssfix := by
  simp only [processIpHeaderFlags]
  rw [ite_and_not_and, ite_and_not_and, ite_and_not_and, ite_and_not_and]
  · split_ifs
    · rw [UInt32.and_assoc, show ~~~pipMssfix &&& pipMssfix = 0 by decide, UInt32.and_zero]
    · rfl
  all_goals decide

theorem processIpHeaderFlags_mssfix_ne_zero (flags : UInt32) :
    processIpHeaderFlags opt flags &&& pipMssfix ≠ 0 ↔ opt.mssfix ≠ 0 ∧ flags &&& pipMssfix ≠ 0 := by
  rw [processIpHeaderFlags_mssfix]
  split_ifs with h
  · simp [h]
  · simp [h]

theorem processIpHeaderFlags_dhcp (hdhcp : opt.routeGatewayViaDhcp = true) (flags : UInt32) :
    processIpHeaderFlags opt flags &&& pipv4ExtractDhcpRouter = flags &&& pipv4ExtractDhcpRouter := by
  simp only [processIpHeaderFlags, hdhcp, not_true_eq_false, if_false]
  rw [ite_and_not_and, ite_and_not_and, ite_and_not_and, ite_and_not_and] <;> decide

theorem processIpHeaderFlags_no_dhcp (hdhcp : opt.routeGatewayViaDhcp = false) (flags : UInt32) :
    processIpHeaderFlags opt flags &&& pipv4ExtractDhcpRouter = 0 := by
  simp only [processIpHeaderFlags, hdhcp, Bool.false_eq_true, not_false_eq_true, if_true]
  rw [ite_and_not_and (by decide), UInt32.and_assoc,
    show ~~~pipv4ExtractDhcpRouter &&& pipv4ExtractDhcpRouter = 0 by decide, UInt32.and_zero]

theorem processIpHeaderFlags_icmp (hblock : opt.blockIpv6 = true) (flags : UInt32) :
    processIpHeaderFlags opt flags &&& (pipv6IcmpNohostClient ||| pipv6IcmpNohostServer) =
      flags &&& (pipv6IcmpNohostClient ||| pipv6IcmpNohostServer) := by
  simp only [processIpHeaderFlags, hblock, not_true_eq_false, if_false]
  rw [ite_and_not_and, ite_and_not_and, ite_and_not_and, ite_and_not_and] <;> decide

end Flags

/-! ### The steps on a bounded packet -/

section Steps

variable (mssFix : UInt16) (c : Icmp6Context)

/-- `link_socket_extract_tos` reads the TOS byte of the header. -/
theorem linkSocketExtractTos_within (hb : BufBounded buf) (hlen : 20 ≤ buf.len)
    (hin : buf.offset + buf.len ≤ m.bytes.length) :
    ∃ m', linkSocketExtractTos buf m = some m' ∧ m'.bytes = m.bytes ∧
      TouchedIn m.touched m'.touched buf.offset (buf.offset + buf.len) := by
  have hoff := hb.offset_nonneg
  obtain ⟨bytes, touched⟩ := m
  simp only at hin ⊢
  simp only [linkSocketExtractTos, hb.bufBptr_eq, Option.getD_some,
    PacketMem.load_mk (show 0 ≤ buf.offset + 1 by omega) (show buf.offset + 1 + 1 ≤ bytes.length by
      omega), Option.bind_eq_bind, Option.bind_some, Option.pure_def]
  exact ⟨_, rfl, rfl, (TouchedIn.refl touched _ _).range (by omega) (by omega)⟩

/-- `mss_fixup_ipv4` as the IPv4 branch calls it: the bytes it makes from the packet, and
accesses inside the packet. -/
theorem call_mssFixupIpv4 (hb : BufBounded buf) (hin : buf.offset + buf.len ≤ m.bytes.length) :
    ∃ m₀, mssFixupIpv4 buf mssFix ⟨m.bytes, []⟩ = some m₀ ∧
      m.call ((ipConsumers mssFix c).mssFixupIpv4 buf) = some ⟨m₀.bytes, m.touched ++ m₀.touched⟩ ∧
      TouchedIn m.touched (m.touched ++ m₀.touched) buf.offset (buf.offset + buf.len) ∧
      (mssIpv4Segment m.bytes buf = none → m₀.bytes = m.bytes) := by
  obtain ⟨m₀, hm₀, htouch, hseg⟩ := mssFixupIpv4_fixed mssFix (m := ⟨m.bytes, []⟩) hb hin
  refine ⟨m₀, hm₀, PacketMem.call_eq (r := (m₀.bytes, m₀.touched)) (by simp [ipConsumers, hm₀]),
    TouchedIn.append_of_nil htouch, fun h => ?_⟩
  simp only [h] at hseg
  exact hseg

theorem mssIpv4Segment_of_not_tcp {bytes : List UInt8}
    (h : BigEndian.decode (fieldAt bytes (buf.offset + 9) 1) ≠ openvpnIpprotoTcp) :
    mssIpv4Segment bytes buf = none := by
  simp only [mssIpv4Segment]
  split_ifs with hshort hc
  · rfl
  · exact absurd hc.1 h
  · rfl

/-- `dhcp_extract_router_msg` as the IPv4 branch calls it, on a DHCPACK or DHCPOFFER. -/
theorem call_dhcpExtractRouterMsg (hb : BufBounded buf)
    (hin : buf.offset + buf.len ≤ m.bytes.length) (hr : IsDhcpAckOrOffer m.bytes buf) :
    ∃ m', m.call ((ipConsumers mssFix c).dhcpExtractRouterMsg buf) = some m' ∧
      dhcpOptions m'.bytes buf = (doExtractList (dhcpOptions m.bytes buf) 0).1 ∧
      SameOutside m.bytes m'.bytes (buf.offset + 26) (buf.offset + buf.len) ∧
      TouchedIn m.touched m'.touched buf.offset (buf.offset + buf.len) := by
  obtain ⟨m₀, hm₀, hopt, -, hsame, htouch⟩ :=
    dhcpExtractRouterMsg_ackOrOffer (m := ⟨m.bytes, []⟩) hb hin hr
  simp only [hb.bufLen_eq] at hopt hsame htouch
  exact ⟨_, PacketMem.call_eq (r := (m₀.bytes, m₀.touched)) (by simp [ipConsumers, hm₀]), hopt,
    hsame, TouchedIn.append_of_nil htouch⟩

/-- `ipv6_send_icmp_unreachable` as `process_ip_header` calls it, on a TUN device whose reply fits:
the packet is left as it is. -/
theorem call_ipv6SendIcmpUnreachable (hb : BufBounded buf) (hlen : 40 ≤ buf.len) {v : UInt8}
    (hver : (buf.bytes.drop buf.offset.toNat).take 1 = [v]) (hv : (v.toNat >>> 4) &&& 0x0F = 6)
    (htun : c.tunnelType = .tun) (hmtu : 48 ≤ c.tunMtu) (haux : BufBounded c.auxBuf)
    (hcap : 48 + min (min maxIcmpv6len (c.tunMtu - 48)) buf.len ≤ c.auxBuf.capacity)
    (client : Bool) (touched : List Int) :
    (PacketMem.mk buf.bytes touched).call
        ((ipConsumers mssFix c).ipv6SendIcmpUnreachable buf client) =
      some ⟨buf.bytes, touched⟩ := by
  obtain ⟨out, hout, -⟩ := ipv6SendIcmpUnreachable_tun hb hlen hver hv htun hmtu haux hcap
  -- the buffer the reply is read from is `buf` itself
  have hself : { buf with data := buf.data.map fun _ => buf.bytes } = buf := by
    rw [hb.data_eq, Option.map_some, ← hb.data_eq]
  rw [PacketMem.call_eq (r := (buf.bytes, [])) (by simp [ipConsumers, hself, hout]),
    List.append_nil]

end Steps

/-! ### The IPv4 branch -/

section Ipv4

variable (mssFix : UInt16) (c : Icmp6Context) {opt : IpHeaderOptions} (flags : UInt32)

/-- The IPv4 branch without client NAT, from a memory with the packet's bytes: the TOS read and
the MSS fixup leave the bytes `mss_fixup_ipv4` makes when `PIP_MSSFIX` is set, and what is left is
the DHCP extraction. -/
theorem processIpv4Header_ipConsumers (hb : BufBounded buf) (hlen : 20 ≤ buf.len)
    {m₁ : PacketMem} (hb₁ : m₁.bytes = buf.bytes)
    (ht₁ : TouchedIn [] m₁.touched buf.offset (buf.offset + buf.len))
    (hnat : opt.clientNat = none) :
    ∃ m₃ m₀, mssFixupIpv4 buf mssFix ⟨buf.bytes, []⟩ = some m₀ ∧
      (mssIpv4Segment buf.bytes buf = none → m₀.bytes = buf.bytes) ∧
      m₃.bytes = (if flags &&& pipMssfix ≠ 0 then m₀.bytes else buf.bytes) ∧
      TouchedIn [] m₃.touched buf.offset (buf.offset + buf.len) ∧
      processIpv4Header opt (ipConsumers mssFix c) flags buf m₁ =
        if flags &&& pipv4ExtractDhcpRouter ≠ 0 then
          m₃.call ((ipConsumers mssFix c).dhcpExtractRouterMsg buf)
        else pure m₃ := by
  have hin : buf.offset + buf.len ≤ m₁.bytes.length := hb₁ ▸ hb.end_le_length
  -- the TOS read keeps the bytes
  obtain ⟨m₂, h₂, hb₂, ht₂⟩ := exists_ite_some (m := m₁) (c := flags &&& pipv4Passtos ≠ 0)
    (P := fun m' => m'.bytes = buf.bytes ∧ TouchedIn [] m'.touched buf.offset (buf.offset + buf.len))
    (fun _ => by
      obtain ⟨m', h, hb', ht'⟩ := linkSocketExtractTos_within hb hlen hin
      exact ⟨m', h, hb'.trans hb₁, ht₁.trans ht' le_rfl le_rfl⟩)
    (fun _ => ⟨hb₁, ht₁⟩)
  obtain ⟨m₀, hm₀, hcall, ht₀, hseg⟩ :=
    call_mssFixupIpv4 mssFix c (m := m₂) hb (by rw [hb₂, ← hb₁]; exact hin)
  rw [hb₂] at hm₀ hseg
  -- the MSS fixup, when `PIP_MSSFIX` is set
  obtain ⟨m₃, h₃, hb₃, ht₃⟩ := exists_ite_some (m := m₂) (c := flags &&& pipMssfix ≠ 0)
    (P := fun m' => m'.bytes = (if flags &&& pipMssfix ≠ 0 then m₀.bytes else buf.bytes) ∧
      TouchedIn [] m'.touched buf.offset (buf.offset + buf.len))
    (fun h => ⟨_, hcall, by rw [if_pos h], ht₂.trans ht₀ le_rfl le_rfl⟩)
    (fun h => ⟨by rw [hb₂, if_neg h], ht₂⟩)
  refine ⟨m₃, m₀, hm₀, hseg, hb₃, ht₃, ?_⟩
  unfold processIpv4Header
  rw [ite_bind_pure_of_eq_some h₂]
  simp only []
  rw [ite_bind_pure_of_eq_some h₃]
  simp only [hnat, Option.pure_def, Option.bind_eq_bind, Option.bind_some]

/-- On a TUN device a packet with version `4` takes the IPv4 branch with the flags the options
keep, from a memory with the packet's bytes. -/
theorem processIpHeader_tun_of_ipv4 (io : IpConsumers) (hb : BufBounded buf) (hlen : 20 ≤ buf.len)
    {v : UInt8} (hver : (buf.bytes.drop buf.offset.toNat).take 1 = [v])
    (hv : (v.toNat >>> 4) &&& 0x0F = 4) :
    ∃ m₁ : PacketMem, m₁.bytes = buf.bytes ∧
      TouchedIn [] m₁.touched buf.offset (buf.offset + buf.len) ∧
      processIpHeader opt io .tun flags buf ⟨buf.bytes, []⟩ =
        (processIpv4Header opt io (processIpHeaderFlags opt flags) buf m₁).map fun m => (buf, m) := by
  obtain ⟨m₁, hv4, hb₁, ht₁⟩ := isIpvX_tun hb hlen hver 4 []
  rw [decide_eq_true hv] at hv4
  refine ⟨m₁, hb₁, ht₁, ?_⟩
  simp only [processIpHeader, if_pos (show buf.len > 0 by omega), isIpv4, hv4, Option.bind_eq_bind,
    Option.bind_some, if_true]
  cases processIpv4Header opt io (processIpHeaderFlags opt flags) buf m₁ <;> rfl

end Ipv4

/-! ### `process_ip_header` on a TUN device -/

section Process

variable (mssFix : UInt16) (c : Icmp6Context) (opt : IpHeaderOptions) (flags : UInt32)

/-- An IPv4 packet without client NAT and DHCP extraction: the bytes `mss_fixup_ipv4` makes when
`PIP_MSSFIX` is kept, and every access inside the packet. -/
theorem process_ip_header_runs_mss_fixup (hb : BufBounded buf) (hlen : 20 ≤ buf.len) {v : UInt8}
    (hver : (buf.bytes.drop buf.offset.toNat).take 1 = [v]) (hv : (v.toNat >>> 4) &&& 0x0F = 4)
    (hnat : opt.clientNat = none) (hdhcp : opt.routeGatewayViaDhcp = false) :
    ∃ m m₀, processIpHeader opt (ipConsumers mssFix c) .tun flags buf ⟨buf.bytes, []⟩ =
        some (buf, m) ∧
      mssFixupIpv4 buf mssFix ⟨buf.bytes, []⟩ = some m₀ ∧
      m.bytes = (if opt.mssfix ≠ 0 ∧ flags &&& pipMssfix ≠ 0 then m₀.bytes else buf.bytes) ∧
      m.Within buf.offset (buf.offset + buf.len) := by
  obtain ⟨m₁, hb₁, ht₁, hrun⟩ := processIpHeader_tun_of_ipv4 flags (ipConsumers mssFix c) hb hlen hver hv
  obtain ⟨m₃, m₀, hm₀, -, hb₃, ht₃, hv4⟩ :=
    processIpv4Header_ipConsumers mssFix c (processIpHeaderFlags opt flags) hb hlen hb₁ ht₁ hnat
  -- `PIPV4_EXTRACT_DHCP_ROUTER` is cleared
  rw [processIpHeaderFlags_no_dhcp hdhcp, if_neg (by decide)] at hv4
  refine ⟨m₃, m₀, by rw [hrun, hv4]; rfl, hm₀, ?_, PacketMem.within_of_touchedIn ht₃⟩
  rw [hb₃]
  exact if_congr (processIpHeaderFlags_mssfix_ne_zero flags) rfl rfl

/-- With `--mssfix 1400`, the `NOP`-led SYN goes through `mss_fixup_ipv4`. -/
theorem process_ip_header_runs_mss_fixup_nop_syn :
    ∃ m m₀, processIpHeader ⟨1400, false, none, false, false⟩
        (ipConsumers 1400 ⟨.tun, none, 1500, Buffer.ofBytes []⟩) .tun pipMssfix
        (Buffer.ofBytes mssNopSynIpv4) ⟨mssNopSynIpv4, []⟩ = some (Buffer.ofBytes mssNopSynIpv4, m) ∧
      mssFixupIpv4 (Buffer.ofBytes mssNopSynIpv4) 1400 ⟨mssNopSynIpv4, []⟩ = some m₀ ∧
      m.bytes = m₀.bytes ∧ m.Within 0 48 := by
  obtain ⟨m, m₀, hrun, hm₀, hbytes, hw⟩ := process_ip_header_runs_mss_fixup 1400
    ⟨.tun, none, 1500, Buffer.ofBytes []⟩ ⟨1400, false, none, false, false⟩ pipMssfix
    (bufBounded_ofBytes (show (mssNopSynIpv4.length : Int) < bufSizeMax by decide)) (by decide)
    (v := 0x45) (by decide) (by decide) rfl rfl
  rw [if_pos (by decide)] at hbytes
  exact ⟨m, m₀, hrun, hm₀, hbytes, hw⟩

/-- A DHCPACK or DHCPOFFER without client NAT, with `--route-gateway dhcp` and
`PIPV4_EXTRACT_DHCP_ROUTER`: whatever else the flags select, the options become the window
`do_extract` leaves, every byte outside `udp.check` and the options is kept, and every access is
inside the packet. -/
theorem process_ip_header_strips_dhcp_routers (hb : BufBounded buf) (hr : IsDhcpAckOrOffer buf.bytes buf)
    {v : UInt8} (hver : (buf.bytes.drop buf.offset.toNat).take 1 = [v])
    (hv : (v.toNat >>> 4) &&& 0x0F = 4) (hnat : opt.clientNat = none)
    (hdhcp : opt.routeGatewayViaDhcp = true) (hflag : flags &&& pipv4ExtractDhcpRouter ≠ 0) :
    ∃ m, processIpHeader opt (ipConsumers mssFix c) .tun flags buf ⟨buf.bytes, []⟩ =
        some (buf, m) ∧
      dhcpOptions m.bytes buf = (doExtractList (dhcpOptions buf.bytes buf) 0).1 ∧
      SameOutside buf.bytes m.bytes (buf.offset + 26) (buf.offset + buf.len) ∧
      m.Within buf.offset (buf.offset + buf.len) := by
  have hlen : 20 ≤ buf.len := by
    have := hr.1.1
    rw [hb.bufLen_eq] at this
    simp only [sizeofIphdr, sizeofUdphdr, sizeofDhcp] at this
    omega
  have hin := hb.end_le_length
  obtain ⟨m₁, hb₁, ht₁, hrun⟩ := processIpHeader_tun_of_ipv4 flags (ipConsumers mssFix c) hb hlen hver hv
  obtain ⟨m₃, m₀, -, hseg, hb₃, ht₃, hv4⟩ :=
    processIpv4Header_ipConsumers mssFix c (processIpHeaderFlags opt flags) hb hlen hb₁ ht₁ hnat
  -- a UDP packet is no TCP segment: the MSS fixup changes no byte
  have hb₃' : m₃.bytes = buf.bytes := by
    rw [hb₃, hseg (mssIpv4Segment_of_not_tcp (by rw [hr.1.2.1]; decide))]
    split_ifs <;> rfl
  rw [processIpHeaderFlags_dhcp hdhcp, if_pos hflag] at hv4
  obtain ⟨m, hcall, hopt, hsame, ht⟩ :=
    call_dhcpExtractRouterMsg mssFix c (m := m₃) hb (by rw [hb₃']; exact hin) (by rw [hb₃']; exact hr)
  rw [hb₃'] at hopt hsame
  exact ⟨m, by rw [hrun, hv4, hcall]; rfl, hopt, hsame,
    PacketMem.within_of_touchedIn (ht₃.trans ht le_rfl le_rfl)⟩

/-- The DHCPACK offering `10.8.0.1` keeps its message type only. -/
theorem process_ip_header_strips_dhcp_routers_ack :
    ∃ m, processIpHeader ⟨0, false, none, true, false⟩
        (ipConsumers 1400 ⟨.tun, none, 1500, Buffer.ofBytes []⟩) .tun pipv4ExtractDhcpRouter
        dhcpAckBuffer ⟨dhcpAckPacket, []⟩ = some (dhcpAckBuffer, m) ∧
      dhcpOptions m.bytes dhcpAckBuffer = [53, 1, 5, 255, 0, 0, 0, 0, 0, 0] := by
  obtain ⟨hb, -, -, hopt⟩ := dhcpAck_reply
  obtain ⟨m, hrun, hopt', -, -⟩ := process_ip_header_strips_dhcp_routers 1400
    ⟨.tun, none, 1500, Buffer.ofBytes []⟩ ⟨0, false, none, true, false⟩ pipv4ExtractDhcpRouter hb
    isDhcpAckOrOffer_ack
    (v := 0x45) (by decide) (by decide) rfl rfl (by decide)
  rw [show dhcpAckBuffer.bytes = dhcpAckPacket from rfl, hopt, doExtractList_ack] at hopt'
  exact ⟨m, hrun, hopt'⟩

/-- An IPv6 packet of at least 40 bytes under `--block-ipv6`, incoming, without `--mssfix`, on a
TUN device whose reply fits: `ipv6_send_icmp_unreachable` builds the reply, the packet is dropped,
and every access is inside it. -/
theorem process_ip_header_drops_blocked_ipv6 (hb : BufBounded buf) (hlen : 40 ≤ buf.len) {v : UInt8}
    (hver : (buf.bytes.drop buf.offset.toNat).take 1 = [v]) (hv : (v.toNat >>> 4) &&& 0x0F = 6)
    (hmss : opt.mssfix = 0) (hblock : opt.blockIpv6 = true) (hout : flags &&& pipOutgoing = 0)
    (hicmp : flags &&& (pipv6IcmpNohostClient ||| pipv6IcmpNohostServer) ≠ 0)
    (htun : c.tunnelType = .tun) (hmtu : 48 ≤ c.tunMtu) (haux : BufBounded c.auxBuf)
    (hcap : 48 + min (min maxIcmpv6len (c.tunMtu - 48)) buf.len ≤ c.auxBuf.capacity) :
    ∃ m, processIpHeader opt (ipConsumers mssFix c) .tun flags buf ⟨buf.bytes, []⟩ =
        some ({ buf with len := 0 }, m) ∧
      m.bytes = buf.bytes ∧ m.Within buf.offset (buf.offset + buf.len) := by
  -- `is_ipv4` answers no and `is_ipv6` yes, both leaving the buffer
  obtain ⟨⟨bytes₁, touched₁⟩, hv4, hb₁, ht₁⟩ := isIpvX_tun hb (by omega) hver 4 []
  simp only at hb₁ ht₁
  subst hb₁
  rw [decide_eq_false (by omega)] at hv4
  obtain ⟨⟨bytes₂, touched₂⟩, hv6, hb₂, ht₂⟩ := isIpvX_tun hb (by omega) hver 6 touched₁
  simp only at hb₂ ht₂
  subst hb₂
  rw [decide_eq_true hv] at hv6
  have hcall := call_ipv6SendIcmpUnreachable mssFix c hb hlen hver hv htun hmtu haux hcap
  refine ⟨⟨buf.bytes, touched₂⟩, ?_, rfl, PacketMem.within_of_touchedIn (ht₁.trans ht₂ le_rfl le_rfl)⟩
  simp only [processIpHeader, if_pos (show buf.len > 0 by omega), isIpv4, hv4, isIpv6, hv6,
    Option.bind_eq_bind, Option.bind_some, Bool.false_eq_true, if_false, if_true,
    processIpHeaderFlags_mssfix, hmss, ne_eq, not_true_eq_false, Option.pure_def,
    processIpHeaderFlags_outgoing, processIpHeaderFlags_icmp hblock, hout, hicmp, not_false_eq_true,
    and_self, hcall]

/-- A 40-byte IPv6 packet reaching a server under `--block-ipv6` is dropped. -/
theorem process_ip_header_drops_blocked_ipv6_40_bytes :
    ∃ m, processIpHeader ⟨0, false, none, false, true⟩
        (ipConsumers 1400 ⟨.tun, none, 1500, Buffer.ofBytes (List.replicate 1400 0)⟩) .tun
        pipv6IcmpNohostServer (Buffer.ofBytes (0x60 :: List.replicate 39 0))
        ⟨0x60 :: List.replicate 39 0, []⟩ =
      some ({ Buffer.ofBytes (0x60 :: List.replicate 39 0) with len := 0 }, m) := by
  have hl : (0x60 :: List.replicate 39 (0 : UInt8)).length = 40 := by
    rw [List.length_cons, List.length_replicate]
  have hl' : (List.replicate 1400 (0 : UInt8)).length = 1400 := List.length_replicate
  obtain ⟨m, hrun, -, -⟩ := process_ip_header_drops_blocked_ipv6 1400
    ⟨.tun, none, 1500, Buffer.ofBytes (List.replicate 1400 0)⟩ ⟨0, false, none, false, true⟩
    pipv6IcmpNohostServer (bufBounded_ofBytes (by rw [hl]; decide))
    (show (40 : Int) ≤ ((0x60 :: List.replicate 39 (0 : UInt8)).length : Int) by rw [hl]; decide)
    (v := 0x60) rfl (by decide) rfl rfl (by decide) (by decide) rfl (by decide)
    (bufBounded_ofBytes (by rw [hl']; decide))
    (show 48 + min (min maxIcmpv6len (1500 - 48))
        ((0x60 :: List.replicate 39 (0 : UInt8)).length : Int) ≤
      ((List.replicate 1400 (0 : UInt8)).length : Int) by rw [hl, hl']; decide)
  exact ⟨m, hrun⟩

end Process

end OpenVpn
