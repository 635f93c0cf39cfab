import OpenVpn.IpHeader
import OpenVpn.BufferSpec

/-! What `process_ip_header` touches. `is_ipv_X` reads only the frame, and returns `true` with the
IP header in the buffer after it, except on a TAP device for an 802.1Q frame of 34 to 37 bytes:
the length it checks there is that of an untagged frame, so 16 to 19 bytes are left for a 20-byte
header. `client_nat_transform` reads the address field of every rule and checks no length of its
own, so on such a frame a rule on `daddr` reads past the end of the packet. -/

namespace OpenVpn

namespace PacketMem

/-- `m'` is `m` after more accesses. -/
def Extends (m m' : PacketMem) : Prop := ∃ t, m'.touched = m.touched ++ t

variable {m m' m'' : PacketMem} {i : Int} {n v : Nat}

theorem Extends.refl (m : PacketMem) : m.Extends m := ⟨[], (List.append_nil _).symm⟩

theorem Extends.trans (h : m.Extends m') (h' : m'.Extends m'') : m.Extends m'' := by
  obtain ⟨t, ht⟩ := h
  obtain ⟨t', ht'⟩ := h'
  exact ⟨t ++ t', by rw [ht', ht, List.append_assoc]⟩

theorem Extends.mem (h : m.Extends m') {j : Int} (hj : j ∈ m.touched) : j ∈ m'.touched := by
  obtain ⟨t, ht⟩ := h
  rw [ht]
  exact List.mem_append_left _ hj

/-- A load reads the field and changes no byte. -/
theorem load_eq_some {x : Nat × PacketMem} (h : m.load i n = some x) :
    x.2.bytes = m.bytes ∧ x.2.touched = m.touched ++ (List.range n).map fun k : Nat => i + k := by
  simp only [load, Option.map_eq_some_iff] at h
  obtain ⟨bs, -, rfl⟩ := h
  exact ⟨rfl, rfl⟩

theorem store_eq_some (h : m.store i n v = some m') :
    m'.touched = m.touched ++ (List.range n).map fun k : Nat => i + k := by
  simp only [store, Option.map_eq_some_iff] at h
  obtain ⟨bs, -, rfl⟩ := h
  rfl

theorem load_of_le (h₀ : 0 ≤ i) (h : i + n ≤ m.bytes.length) :
    m.load i n = some (BigEndian.decode ((m.bytes.drop i.toNat).take n),
      { m with touched := m.touched ++ (List.range n).map fun k : Nat => i + k }) := by
  simp [load, memRead_of_le h₀ (Int.natCast_nonneg n) h]

theorem call_extends {f : List UInt8 → Option (List UInt8 × List Int)} (h : m.call f = some m') :
    m.Extends m' := by
  simp only [call, Option.map_eq_some_iff] at h
  obtain ⟨r, -, rfl⟩ := h
  exact ⟨r.2, rfl⟩

end PacketMem

/-! ### `client_nat_transform` -/

section ClientNat

variable {h : Int} {direction : Nat}

/-- The indices of the address field rule `e` reads. -/
def clientNatFieldRange (h : Int) (e : ClientNatEntry) (direction : Nat) : List Int :=
  (List.range 4).map fun k : Nat => h + (clientNatField e direction).1 + k

/-- A rule may write back the field it read. -/
theorem clientNatRewrite_touched {i : Int} {e : ClientNatEntry} {amask : Nat} {addr : UInt32}
    {m : PacketMem} {acc : Int} {alog : Nat} {st' : PacketMem × Int × Nat}
    (hs : clientNatRewrite i direction e amask addr m acc alog = some st') :
    ∃ t, st'.1.touched = m.touched ++ t := by
  unfold clientNatRewrite at hs
  split_ifs at hs
  · obtain ⟨m₂, hstore, rfl⟩ := Option.map_eq_some_iff.mp hs
    exact ⟨_, PacketMem.store_eq_some hstore⟩
  · cases hs
    exact ⟨[], (List.append_nil _).symm⟩

/-- A rule reads its address field, and may write it back. -/
theorem clientNatStep_touched {st st' : PacketMem × Int × Nat} {e : ClientNatEntry}
    (hs : clientNatStep h direction st e = some st') :
    ∃ t, st'.1.touched = st.1.touched ++ clientNatFieldRange h e direction ++ t := by
  obtain ⟨⟨addr, m₁⟩, hload, hs⟩ := Option.bind_eq_some_iff.mp hs
  obtain ⟨-, hm₁⟩ := PacketMem.load_eq_some hload
  obtain ⟨t, ht⟩ := clientNatRewrite_touched hs
  exact ⟨t, by rw [ht, hm₁, clientNatFieldRange]⟩

/-- The rule loop reads the address field of every rule. -/
theorem foldlM_clientNatStep_touched :
    ∀ (list : List ClientNatEntry) (st r : PacketMem × Int × Nat),
      list.foldlM (clientNatStep h direction) st = some r →
      st.1.Extends r.1 ∧ ∀ e ∈ list, ∀ j ∈ clientNatFieldRange h e direction, j ∈ r.1.touched
  | [], st, r, hr => by
      cases hr
      exact ⟨PacketMem.Extends.refl _, fun e he => absurd he List.not_mem_nil⟩
  | e :: list, st, r, hr => by
      rw [List.foldlM_cons] at hr
      obtain ⟨st₁, hs₁, hr₁⟩ := Option.bind_eq_some_iff.mp hr
      obtain ⟨t, ht⟩ := clientNatStep_touched hs₁
      obtain ⟨hext, hmem⟩ := foldlM_clientNatStep_touched list st₁ r hr₁
      have h₁ : st.1.Extends st₁.1 := ⟨_, by rw [ht, List.append_assoc]⟩
      refine ⟨h₁.trans hext, fun e' he' j hj => ?_⟩
      rcases List.mem_cons.mp he' with rfl | he'
      · exact hext.mem (by rw [ht]; exact List.mem_append_left _ (List.mem_append_right _ hj))
      · exact hmem e' he' j hj

theorem clientNatAdjust_extends {m m' : PacketMem} {i : Int} {acc : Int}
    (hr : clientNatAdjust m i acc = some m') : m.Extends m' := by
  simp only [clientNatAdjust, Option.bind_eq_bind, Option.bind_eq_some_iff] at hr
  obtain ⟨⟨ck, m₁⟩, hload, hstore⟩ := hr
  obtain ⟨-, hm₁⟩ := PacketMem.load_eq_some hload
  exact ⟨_, by rw [PacketMem.store_eq_some hstore, hm₁, List.append_assoc]⟩

theorem clientNatPatch_extends {ipbuf : Buffer} {acc : Int} {m r : PacketMem}
    (hr : clientNatPatch ipbuf h acc m = some r) : m.Extends r := by
  simp only [clientNatPatch, Option.bind_eq_bind, Option.bind_eq_some_iff] at hr
  obtain ⟨m₂, hadj, ⟨protocol, m₃⟩, hload, hr⟩ := hr
  obtain ⟨-, hm₃⟩ := PacketMem.load_eq_some hload
  have h₁₃ : m.Extends m₃ := (clientNatAdjust_extends hadj).trans ⟨_, hm₃⟩
  -- the transport checksum is patched, or nothing more is touched
  split at hr
  · split at hr
    · exact h₁₃.trans (clientNatAdjust_extends hr)
    · cases hr
      exact h₁₃
  · split at hr
    · split at hr
      · exact h₁₃.trans (clientNatAdjust_extends hr)
      · cases hr
        exact h₁₃
    · cases hr
      exact h₁₃

/-- `client_nat_transform` reads the address field of every rule, at `BPTR(ipbuf)`. -/
theorem clientNatTransform_touched {list : List ClientNatEntry} {ipbuf : Buffer} {m r : PacketMem}
    {p : Int} (hp : bufBptr ipbuf = some p) (hr : clientNatTransform list ipbuf direction m = some r) :
    m.Extends r ∧ ∀ e ∈ list, ∀ j ∈ clientNatFieldRange p e direction, j ∈ r.touched := by
  simp only [clientNatTransform, hp, Option.bind_eq_bind, Option.bind_some,
    Option.bind_eq_some_iff] at hr
  obtain ⟨⟨m₁, acc, alog⟩, hfold, hr⟩ := hr
  obtain ⟨hext₁, hmem₁⟩ := foldlM_clientNatStep_touched list _ _ hfold
  have hrest : m₁.Extends r := by
    split_ifs at hr
    · cases hr
      exact PacketMem.Extends.refl _
    · exact clientNatPatch_extends hr
  exact ⟨hext₁.trans hrest, fun e he j hj => hrest.mem (hmem₁ e he j hj)⟩

end ClientNat

/-! ### `is_ipv4` on a short 802.1Q frame -/

section Vlan

variable {buf : Buffer}

/-- `is_ipv4` on a TAP frame with the 802.1Q tag and an IPv4 header: it reads the two EtherType
fields and the version, and advances the buffer past the 18-byte tagged header. -/
theorem isIpv4_vlan (hb : BufBounded buf) (hlen : 34 ≤ buf.len)
    (htpid : (buf.bytes.drop (buf.offset.toNat + 12)).take 2 = [0x81, 0x00])
    (htype : (buf.bytes.drop (buf.offset.toNat + 16)).take 2 = [0x08, 0x00])
    {v : UInt8} (hver : (buf.bytes.drop (buf.offset.toNat + 18)).take 1 = [v])
    (hv : (v.toNat >>> 4) &&& 0x0F = 4) (touched : List Int) :
    ∃ m', isIpv4 .tap buf ⟨buf.bytes, touched⟩ =
      some (({ buf with offset := buf.offset + 18, len := buf.len - 18 }, true), m') := by
  have hoff := hb.offset_nonneg
  have hcap := hb.len_le
  have hlenb := hb.length_bytes
  have e12 : (buf.offset + 12).toNat = buf.offset.toNat + 12 := by omega
  have e16 : (buf.offset + 16).toNat = buf.offset.toNat + 16 := by omega
  have e18 : (buf.offset + ((18 : Nat) : Int)).toNat = buf.offset.toNat + 18 := by omega
  have hadv : bufAdvance buf ((18 : Nat) : Int) =
      ({ buf with offset := buf.offset + 18, len := buf.len - 18 }, true) := by
    rw [hb.bufAdvance_eq, if_pos (by omega)]
    rfl
  simp only [isIpv4, isIpvX, hb.bufBptr_eq, hb.bufLen_eq, Option.getD_some, reduceCtorEq,
    if_false, if_true, sizeofEthhdr, sizeofIphdr]
  rw [if_neg (by omega), PacketMem.load_of_le (by omega) (by simp only; omega), e12, htpid]
  simp only [Option.bind_eq_bind, Option.bind_some]
  rw [if_pos (by decide), if_neg (by omega), PacketMem.load_of_le (by omega) (by simp only; omega),
    e16, htype]
  simp only [Option.bind_some]
  rw [if_neg (by decide), isIpvXVersion, sizeof8021qhdr,
    PacketMem.load_of_le (by omega) (by simp only; omega), e18, hver]
  simp only [Option.bind_eq_bind, Option.bind_some, BigEndian.decode, List.foldl, Nat.zero_mul,
    Nat.zero_add, if_pos hv, hadv]
  exact ⟨_, rfl⟩

end Vlan

/-! ### `process_ip_header` -/

section Process

variable {opt : IpHeaderOptions} {list : List ClientNatEntry}

theorem ite_and_not_and {c : Prop} [Decidable c] {x b k : UInt32} (h : ~~~b &&& k = k) :
    (if c then x &&& ~~~b else x) &&& k = x &&& k := by
  split_ifs
  · rw [UInt32.and_assoc, h]
  · rfl

/-- With a client-NAT list, `process_ip_header` keeps `PIPV4_CLIENT_NAT`. -/
theorem processIpHeaderFlags_clientNat (hnat : opt.clientNat = some list) (flags : UInt32) :
    processIpHeaderFlags opt flags &&& pipv4ClientNat = flags &&& pipv4ClientNat := by
  simp only [processIpHeaderFlags, hnat, Option.isNone_some, Bool.false_eq_true, if_false]
  rw [ite_and_not_and, ite_and_not_and, ite_and_not_and, ite_and_not_and] <;> decide

/-- `process_ip_header` never clears `PIP_OUTGOING`. -/
theorem processIpHeaderFlags_outgoing (flags : UInt32) :
    processIpHeaderFlags opt flags &&& pipOutgoing = flags &&& pipOutgoing := by
  simp only [processIpHeaderFlags]
  rw [ite_and_not_and, ite_and_not_and, ite_and_not_and, ite_and_not_and, ite_and_not_and] <;>
    decide

/-- The direction `process_ip_header` gives `client_nat_transform`. -/
def clientNatDirection (flags : UInt32) : Nat :=
  if flags &&& pipOutgoing ≠ 0 then cnIncoming else cnOutgoing

/-- With client NAT selected, the IPv4 branch reads the address field of every rule. -/
theorem processIpv4Header_clientNat {io : IpConsumers} {flags : UInt32} {ipbuf : Buffer}
    {m r : PacketMem} {p : Int} (hnat : opt.clientNat = some list)
    (hflag : flags &&& pipv4ClientNat ≠ 0) (hp : bufBptr ipbuf = some p)
    (hr : processIpv4Header opt io flags ipbuf m = some r) :
    ∀ e ∈ list, ∀ j ∈ clientNatFieldRange p e (clientNatDirection flags), j ∈ r.touched := by
  unfold processIpv4Header at hr
  simp only [hnat, if_pos hflag, Option.bind_eq_bind, Option.pure_def, Option.bind_some] at hr
  -- the TOS read and the MSS fixup come first; the rewrite starts from whatever they leave
  obtain ⟨m₂, hr⟩ : ∃ m₂, (clientNatTransform list ipbuf (clientNatDirection flags) m₂).bind
      (fun m => if flags &&& pipv4ExtractDhcpRouter ≠ 0 then m.call (io.dhcpExtractRouterMsg ipbuf)
        else some m) = some r := by
    split at hr
    · obtain ⟨m₁, -, hr⟩ := Option.bind_eq_some_iff.mp hr
      split at hr
      · obtain ⟨m₂, -, hr⟩ := Option.bind_eq_some_iff.mp hr
        exact ⟨m₂, hr⟩
      · exact ⟨m₁, hr⟩
    · split at hr
      · obtain ⟨m₂, -, hr⟩ := Option.bind_eq_some_iff.mp hr
        exact ⟨m₂, hr⟩
      · exact ⟨m, hr⟩
  obtain ⟨m₃, hnat₃, hr⟩ := Option.bind_eq_some_iff.mp hr
  obtain ⟨-, hmem⟩ := clientNatTransform_touched hp hnat₃
  -- the DHCP extraction after it only adds accesses
  have h₃ : m₃.Extends r := by
    split at hr
    · exact PacketMem.call_extends hr
    · cases hr
      exact PacketMem.Extends.refl _
  exact fun e he j hj => h₃.mem (hmem e he j hj)

end Process

/-- `process_ip_header` stays inside the packet: every index it reads or writes, starting from the
allocation of `buf`, lies in `[BPTR(buf), BPTR(buf) + BLEN(buf))`. -/
def IpHeaderSafe (opt : IpHeaderOptions) (io : IpConsumers) (tunnelType : DevType) (flags : UInt32)
    (buf : Buffer) : Prop :=
  ∃ r, processIpHeader opt io tunnelType flags buf ⟨buf.bytes, []⟩ = some r ∧
    r.2.Within buf.offset (buf.offset + buf.len)

/-- On a TAP device, an 802.1Q frame of 34 to 37 bytes with an IPv4 header makes `is_ipv4` return
`true` with 16 to 19 bytes left for the 20-byte header, and `process_ip_header` with client NAT
then reads past the end of the packet: any rule on `daddr` reads bytes 34 to 37 of the frame.
This holds whatever the other flags select and whatever the MSS fixup and the DHCP extraction
do. -/
theorem process_ip_header_reads_past_short_vlan_frame (io : IpConsumers) (flags : UInt32)
    {buf : Buffer} (hb : BufBounded buf) (hlen : 34 ≤ buf.len ∧ buf.len ≤ 37)
    (htpid : (buf.bytes.drop (buf.offset.toNat + 12)).take 2 = [0x81, 0x00])
    (htype : (buf.bytes.drop (buf.offset.toNat + 16)).take 2 = [0x08, 0x00])
    {v : UInt8} (hver : (buf.bytes.drop (buf.offset.toNat + 18)).take 1 = [v])
    (hv : (v.toNat >>> 4) &&& 0x0F = 4) {opt : IpHeaderOptions} {list : List ClientNatEntry}
    (hnat : opt.clientNat = some list) (hflag : flags &&& pipv4ClientNat ≠ 0)
    (hrule : ∃ e ∈ list, e.type ^^^ clientNatDirection flags ≠ 0) :
    (∃ ipbuf m, isIpv4 .tap buf ⟨buf.bytes, []⟩ = some ((ipbuf, true), m) ∧
      bufLen ipbuf < sizeofIphdr) ∧
    ¬IpHeaderSafe opt io .tap flags buf := by
  obtain ⟨m₁, hv4⟩ := isIpv4_vlan hb hlen.1 htpid htype hver hv []
  have hoff := hb.offset_nonneg
  -- the IP buffer is the frame past its 18-byte header
  have hbptr : bufBptr ({ buf with offset := buf.offset + 18, len := buf.len - 18 } : Buffer) =
      some (buf.offset + 18) := by
    simp [bufBptr, bufValid, hb.data_eq]
    omega
  have hblen : bufLen ({ buf with offset := buf.offset + 18, len := buf.len - 18 } : Buffer) =
      buf.len - 18 := by
    simp [bufLen, bufValid, hb.data_eq]
    omega
  refine ⟨⟨_, m₁, hv4, by rw [hblen, sizeofIphdr]; omega⟩, ?_⟩
  rintro ⟨r, hr, hwithin⟩
  obtain ⟨e, he, hdaddr⟩ := hrule
  simp only [processIpHeader, if_pos (show buf.len > 0 by omega), hv4, Option.bind_eq_bind,
    Option.bind_some, if_true] at hr
  obtain ⟨m₄, hv4h, hr⟩ := Option.bind_eq_some_iff.mp hr
  cases hr
  have hflag' : processIpHeaderFlags opt flags &&& pipv4ClientNat ≠ 0 := by
    rw [processIpHeaderFlags_clientNat hnat]
    exact hflag
  have hmem := processIpv4Header_clientNat hnat hflag' hbptr hv4h e he
  -- the last byte of `daddr`, at 18 + 16 + 3, is past the end of the frame
  have hlast : buf.offset + 18 + (clientNatField e (clientNatDirection flags)).1 + ((3 : Nat) : Int) ∈
      clientNatFieldRange (buf.offset + 18) e
        (clientNatDirection (processIpHeaderFlags opt flags)) := by
    simp only [clientNatFieldRange, clientNatDirection, processIpHeaderFlags_outgoing, List.mem_map,
      List.mem_range]
    exact ⟨3, by omega, rfl⟩
  have hout := (hwithin _ (hmem _ hlast)).2
  simp only [clientNatField, if_pos hdaddr] at hout
  omega


/-- A 34-byte 802.1Q frame carrying the first 16 bytes of an IPv4 header. -/
def shortVlanFrame : List UInt8 :=
  List.replicate 12 0 ++ [0x81, 0x00, 0, 0, 0x08, 0x00, 0x45] ++ List.replicate 15 0

/-- One `SNAT` rule, on an outgoing packet, rewrites `daddr`. -/
theorem process_ip_header_reads_past_34_byte_frame :
    (Buffer.ofBytes shortVlanFrame).len = 34 ∧
    (∃ ipbuf m, isIpv4 .tap (Buffer.ofBytes shortVlanFrame)
        ⟨(Buffer.ofBytes shortVlanFrame).bytes, []⟩ = some ((ipbuf, true), m) ∧
      bufLen ipbuf < sizeofIphdr) ∧
    ¬IpHeaderSafe ⟨0, false, some [⟨1, 0, 0, 0⟩], false, false⟩
      ⟨fun _ bs => some (bs, []), fun _ bs => some (bs, []), fun _ bs => some (bs, []),
        fun _ _ bs => some (bs, [])⟩ .tap pipv4ClientNat (Buffer.ofBytes shortVlanFrame) :=
  ⟨by decide, process_ip_header_reads_past_short_vlan_frame _ pipv4ClientNat
    (bufBounded_ofBytes (by decide)) ⟨by decide, by decide⟩ (by decide) (by decide)
    (v := 0x45) (by decide) (by decide) rfl (by decide) ⟨_, List.mem_singleton_self _, by decide⟩⟩

end OpenVpn
