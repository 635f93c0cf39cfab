import OpenVpn.Vlan

/-! What the functions of `vlan.c` do to a frame's header, and what an Ethernet key of `mroute.c`
holds. `vlan_encapsulate` leaves a frame tagged with the VID it is given, or drops it;
`vlan_decapsulate` returns `-1` or a VID other than 0; `vlan_process_outgoing_tun` lets a frame
that is not VLAN-tagged onto the TAP device only untagged from an instance of the global PVID, or
tagged with the instance's VID. A key `mroute_copy_ether_to_addr` builds holds its VID after the
address, so that two such keys are equal only when their VIDs are. -/

namespace OpenVpn

section Field16

variable {bytes : List UInt8} {i j v : Nat}

@[simp] theorem length_setField16 (bytes : List UInt8) (i v : Nat) :
    (setField16 bytes i v).length = bytes.length := by
  simp [setField16]

theorem getField16_setField16_self (h : i + 1 < bytes.length) (hv : v < 2 ^ 16) :
    getField16 (setField16 bytes i v) i = v := by
  have hi : i < bytes.length := by omega
  simp [getField16, setField16, List.getD_eq_getElem?_getD, h, hi]
  omega

theorem getD_setField16_of_ne (h : j ≠ i) (h' : j ≠ i + 1) :
    (setField16 bytes i v).getD j 0 = bytes.getD j 0 := by
  simp only [setField16, List.getD_eq_getElem?_getD]
  rw [List.getElem?_set_ne (Ne.symm h'), List.getElem?_set_ne (Ne.symm h)]

/-- Setting one field leaves a field that does not overlap it. -/
theorem getField16_setField16_of_ne (h : i + 1 < j ∨ j + 1 < i) :
    getField16 (setField16 bytes i v) j = getField16 bytes j := by
  simp only [getField16]
  rw [getD_setField16_of_ne (by omega) (by omega), getD_setField16_of_ne (by omega) (by omega)]

end Field16

section Vid

variable {bytes : List UInt8} {vid : UInt16}

@[simp] theorem vlanPvidValid_iff (v : UInt16) :
    vlanPvidValid v = true ↔ 1 ≤ v.toNat ∧ v.toNat ≤ 4094 := by
  rw [vlanPvidValid, decide_eq_true_iff]
  rfl

theorem ne_zero_of_vlanPvidValid {v : UInt16} (h : vlanPvidValid v = true) : v ≠ 0 := by
  rw [vlanPvidValid_iff] at h
  intro h0
  rw [h0] at h
  simp at h

private theorem and_vidMask_lt (x : Nat) : x &&& 0x0FFF < 2 ^ 12 :=
  lt_of_le_of_lt Nat.and_le_right (by decide)

theorem vlanhdrGetVid_toNat (bytes : List UInt8) :
    (vlanhdrGetVid bytes).toNat = getField16 bytes 14 &&& 0x0FFF := by
  have h : getField16 bytes 14 &&& 0x0FFF < 2 ^ 16 :=
    lt_of_lt_of_le (and_vidMask_lt _) (by decide)
  rw [vlanhdrGetVid, UInt16.toNat_ofNat', Nat.mod_eq_of_lt h]

theorem vlanhdrGetVid_lt (bytes : List UInt8) : (vlanhdrGetVid bytes).toNat < 2 ^ 12 := by
  rw [vlanhdrGetVid_toNat]
  exact and_vidMask_lt _

/-- The VID bits of `(pcp_cfi_vid & ~MASK_VID) | (vid & MASK_VID)` are those of `vid`. -/
private theorem vid_bits_or (a b : Nat) :
    ((a &&& 0xF000) ||| (b &&& 0x0FFF)) &&& 0x0FFF = b &&& 0x0FFF := by
  rw [Nat.and_or_distrib_right, Nat.and_assoc, Nat.and_assoc, Nat.and_self]
  simp

theorem vlanhdrGetVid_vlanhdrSetVid (h : 15 < bytes.length) (hv : vid.toNat < 2 ^ 12) :
    vlanhdrGetVid (vlanhdrSetVid bytes vid) = vid := by
  have hlt : (getField16 bytes 14 &&& 0xF000) ||| (vid.toNat &&& 0x0FFF) < 2 ^ 16 :=
    Nat.or_lt_two_pow (lt_of_le_of_lt Nat.and_le_right (by decide))
      (lt_of_lt_of_le (and_vidMask_lt _) (by decide))
  have hmask : vid.toNat &&& 0x0FFF = vid.toNat := by
    rw [show (0x0FFF : Nat) = 2 ^ 12 - 1 by rfl, Nat.and_two_pow_sub_one_eq_mod]
    exact Nat.mod_eq_of_lt hv
  apply UInt16.toNat_inj.mp
  rw [vlanhdrGetVid_toNat, vlanhdrSetVid, getField16_setField16_self (by omega) hlt, vid_bits_or,
    hmask]

@[simp] theorem length_vlanhdrSetVid (bytes : List UInt8) (vid : UInt16) :
    (vlanhdrSetVid bytes vid).length = bytes.length :=
  length_setField16 _ _ _

theorem getField16_vlanhdrSetVid_tpid (bytes : List UInt8) (vid : UInt16) :
    getField16 (vlanhdrSetVid bytes vid) 12 = getField16 bytes 12 :=
  getField16_setField16_of_ne (by omega)

theorem vlanIsTagged_iff (buf : EthFrame) :
    vlanIsTagged buf = true ↔ sizeof8021qhdr ≤ buf.bytes.length ∧
      getField16 buf.bytes 12 = openvpnEthP8021q ∧ vlanhdrGetVid buf.bytes ≠ 0 := by
  unfold vlanIsTagged
  split_ifs <;> simp_all

theorem vlanIsTagged_of_length_lt {buf : EthFrame} (h : buf.bytes.length < sizeof8021qhdr) :
    vlanIsTagged buf = false := by
  simp [vlanIsTagged, h]

/-- A frame with an 802.1Q header whose VID is set to a valid PVID is VLAN-tagged with it. -/
theorem vlanIsTagged_vlanhdrSetVid (headroom : Nat) (h : sizeof8021qhdr ≤ bytes.length)
    (htpid : getField16 bytes 12 = openvpnEthP8021q) (hv : vlanPvidValid vid = true) :
    vlanIsTagged ⟨headroom, vlanhdrSetVid bytes vid⟩ = true ∧
      vlanhdrGetVid (vlanhdrSetVid bytes vid) = vid := by
  rw [vlanPvidValid_iff] at hv
  have hvid : vlanhdrGetVid (vlanhdrSetVid bytes vid) = vid :=
    vlanhdrGetVid_vlanhdrSetVid (by simp only [sizeof8021qhdr] at h; omega) (by omega)
  refine ⟨(vlanIsTagged_iff _).mpr ⟨by simpa using h, ?_, ?_⟩, hvid⟩
  · rw [getField16_vlanhdrSetVid_tpid, htpid]
  · rw [hvid]
    exact ne_zero_of_vlanPvidValid ((vlanPvidValid_iff _).mpr hv)

theorem int16OfUInt16_of_lt {v : UInt16} (h : v.toNat < 2 ^ 15) : int16OfUInt16 v = v.toNat := by
  rw [int16OfUInt16, if_pos h]

end Vid

section Encapsulate

variable {vlanPvid : UInt16}

/-- The header `vlan_encapsulate` builds in the headroom of an untagged frame: the old bytes
up to the type field, the TPID, a zero TCI and the old type field, then the rest. -/
theorem length_encapsulatedHeader (buf : EthFrame) (h : sizeofEthhdr ≤ buf.bytes.length) :
    (buf.bytes.take sizeofEthhdr ++ buf.bytes.drop (sizeofEthhdr - sizeEthTo8021qHdr)).length =
      buf.bytes.length + sizeEthTo8021qHdr := by
  simp only [List.length_append, List.length_take, List.length_drop, sizeofEthhdr,
    sizeEthTo8021qHdr] at h ⊢
  omega

/-- A frame `vlan_encapsulate` does not drop is VLAN-tagged with the VID it was given. -/
theorem vlanEncapsulate_tagged (hv : vlanPvidValid vlanPvid = true) (buf : EthFrame)
    (hne : (vlanEncapsulate vlanPvid buf).bytes ≠ []) :
    vlanIsTagged (vlanEncapsulate vlanPvid buf) = true ∧
      vlanhdrGetVid (vlanEncapsulate vlanPvid buf).bytes = vlanPvid := by
  unfold vlanEncapsulate at hne ⊢
  split_ifs at hne ⊢ with hshort htpid hshort' _ hroom
  all_goals simp only [EthFrame.drop_bytes, ne_eq, not_true_eq_false] at hne
  · -- a priority-tagged frame: its VID is set in place
    exact vlanIsTagged_vlanhdrSetVid buf.headroom (by omega) htpid hv
  · -- an untagged frame: the 802.1Q header is built in front of it
    have hlen := length_encapsulatedHeader buf (by omega)
    simp only [sizeofEthhdr, sizeEthTo8021qHdr] at hlen hshort ⊢
    refine vlanIsTagged_vlanhdrSetVid _ (by simp [sizeof8021qhdr]; omega) ?_ hv
    rw [getField16_setField16_of_ne (by omega), getField16_setField16_of_ne (by omega),
      getField16_setField16_self (by simp; omega) (by decide)]

end Encapsulate

section Decapsulate

variable {o : VlanOptions}

/-- `vlan_decapsulate` returns `-1` or a VID other than 0, given a valid global PVID. -/
theorem vlanDecapsulate_fst (hv : vlanPvidValid o.vlanPvid = true) (buf : EthFrame) :
    (vlanDecapsulate o buf).1 = -1 ∨ ∃ v : UInt16, v ≠ 0 ∧ (vlanDecapsulate o buf).1 = v.toNat := by
  have hpvid := ne_zero_of_vlanPvidValid hv
  rw [vlanPvidValid_iff] at hv
  unfold vlanDecapsulate
  dsimp only
  split_ifs with _ _ _ _ _ hvid
  · exact .inl rfl
  · exact .inl rfl
  · exact .inr ⟨o.vlanPvid, hpvid, int16OfUInt16_of_lt (by omega)⟩
  · exact .inl rfl
  · exact .inl rfl
  · exact .inr ⟨o.vlanPvid, hpvid, int16OfUInt16_of_lt (by omega)⟩
  · have hlt := vlanhdrGetVid_lt buf.bytes
    exact .inr ⟨_, hvid, int16OfUInt16_of_lt (by omega)⟩

end Decapsulate

section Outgoing

/-- What may reach the TAP device from an instance whose `vlan_pvid` is `vlanPvid`: a frame that
carries no VID (untagged or priority-tagged, as `vlan_is_tagged` has it) from an instance of the
global PVID, in a mode other than `VLAN_ONLY_TAGGED`; or a frame tagged with `vlanPvid`. -/
def TapTagOk (top : VlanOptions) (vlanPvid : UInt16) (f : EthFrame) : Prop :=
  (vlanIsTagged f = false ∧ vlanPvid = top.vlanPvid ∧ top.vlanAccept ≠ .onlyTagged) ∨
    (vlanIsTagged f = true ∧ vlanhdrGetVid f.bytes = vlanPvid)

variable {top : VlanOptions} {vlanPvid : UInt16} {toTun : EthFrame}

theorem TapTagOk.of_encapsulate (hv : vlanPvidValid vlanPvid = true)
    (hne : (vlanEncapsulate vlanPvid toTun).bytes ≠ []) :
    TapTagOk top vlanPvid (vlanEncapsulate vlanPvid toTun) :=
  .inr (vlanEncapsulate_tagged hv toTun hne)

/-- A frame that is not VLAN-tagged leaves `vlan_process_outgoing_tun` untagged from an instance
of the global PVID, tagged with the instance's VID, or not at all. -/
theorem vlanProcessOutgoingTun_tagOk (htag : top.vlanTagging = true)
    (hv : vlanPvidValid vlanPvid = true) (hf : vlanIsTagged toTun = false)
    (hne : (vlanProcessOutgoingTun top vlanPvid toTun).bytes ≠ []) :
    TapTagOk top vlanPvid (vlanProcessOutgoingTun top vlanPvid toTun) := by
  simp only [vlanProcessOutgoingTun, htag, Bool.not_true] at hne ⊢
  cases hacc : top.vlanAccept
  case onlyTagged =>
    simp only [hacc, Bool.false_eq_true, ↓reduceIte] at hne ⊢
    exact .of_encapsulate hv hne
  case onlyUntaggedOrPriority =>
    simp only [hacc, Bool.false_eq_true, ↓reduceIte] at hne ⊢
    split_ifs at hne ⊢ with hpvid
    · simp at hne
    · exact .inl ⟨hf, (not_not.mp hpvid).symm, by simp [hacc]⟩
  case all =>
    simp only [hacc, Bool.false_eq_true, ↓reduceIte] at hne ⊢
    split_ifs at hne ⊢ with hpvid
    · exact .of_encapsulate hv hne
    · exact .inl ⟨hf, (not_not.mp hpvid).symm, by simp [hacc]⟩

end Outgoing

section EtherKey

/-- `k` is an Ethernet key of the VID `vid`: an `MR_ADDR_ETHER` key of eight bytes is a MAC
address followed by `vid`. -/
def EtherKeyOf (vid : UInt16) (k : MrouteAddr) : Prop :=
  k.type = mrAddrEther → k.len = openvpnEthAlen + 2 →
    ∃ mac : List UInt8, mac.length = openvpnEthAlen ∧
      k.rawAddr.take (openvpnEthAlen + 2) = mac ++ hostBytes16 vid

theorem hostBytes16_injective {v w : UInt16} (h : hostBytes16 v = hostBytes16 w) : v = w := by
  have h' := BigEndian.encode_injective 2 (by simpa using v.toNat_lt)
    (by simpa using w.toNat_lt) (List.reverse_inj.mp h)
  exact UInt16.toNat_inj.mp h'

@[simp] theorem length_hostBytes16 (v : UInt16) : (hostBytes16 v).length = 2 := by
  simp [hostBytes16]

variable {maddr : MrouteAddr} {etherAddr : List UInt8} {vid : UInt16}

theorem take_rawAddr_mrouteCopyEtherToAddr (h : openvpnEthAlen ≤ etherAddr.length) :
    (mrouteCopyEtherToAddr maddr etherAddr vid).rawAddr.take (openvpnEthAlen + 2) =
      etherAddr.take openvpnEthAlen ++ hostBytes16 vid := by
  have hlen : (etherAddr.take openvpnEthAlen ++ hostBytes16 vid).length = openvpnEthAlen + 2 := by
    simp only [List.length_append, List.length_take, length_hostBytes16]
    omega
  simp only [mrouteCopyEtherToAddr]
  exact List.take_left' hlen

/-- The key `mroute_copy_ether_to_addr` builds from a whole address is an Ethernet key of its VID. -/
theorem etherKeyOf_mrouteCopyEtherToAddr (h : openvpnEthAlen ≤ etherAddr.length) :
    EtherKeyOf vid (mrouteCopyEtherToAddr maddr etherAddr vid) := by
  intro _ _
  exact ⟨etherAddr.take openvpnEthAlen, by simpa using h, take_rawAddr_mrouteCopyEtherToAddr h⟩

/-- A key equal to one that `mroute_copy_ether_to_addr` built with the VID `vid` is an Ethernet
key of `vid` only. -/
theorem EtherKeyOf.eq_of_mrouteAddrEqual {k : MrouteAddr} {w : UInt16} (hk : EtherKeyOf w k)
    (h : openvpnEthAlen ≤ etherAddr.length)
    (heq : mrouteAddrEqual (mrouteCopyEtherToAddr maddr etherAddr vid) k = true) : w = vid := by
  simp only [mrouteAddrEqual, Bool.and_eq_true, beq_iff_eq] at heq
  obtain ⟨⟨⟨⟨htype, -⟩, -⟩, hlen⟩, hraw⟩ := heq
  simp only [mrouteCopyEtherToAddr] at htype hlen
  obtain ⟨mac, hmac, hk⟩ := hk htype.symm hlen.symm
  have hraw' : etherAddr.take openvpnEthAlen ++ hostBytes16 vid = mac ++ hostBytes16 w := by
    rw [← take_rawAddr_mrouteCopyEtherToAddr h, ← hk]
    exact hraw
  have hl : (etherAddr.take openvpnEthAlen).length = mac.length := by
    simp only [List.length_take, hmac]
    omega
  exact (hostBytes16_injective (List.append_inj hraw' hl).2).symm

theorem mrouteExtractAddrEther_of_le {src dest : MrouteAddr} {buf : EthFrame}
    (h : sizeofEthhdr ≤ buf.bytes.length) :
    mrouteExtractAddrEther src dest vid buf =
      ((if isMacMcastAddr buf.bytes then mrouteExtractBcast else 0) ||| mrouteExtractSucceeded,
        mrouteCopyEtherToAddr src (buf.bytes.drop openvpnEthAlen) vid,
        mrouteCopyEtherToAddr dest buf.bytes vid) := by
  simp only [mrouteExtractAddrEther, if_pos h]

theorem mrouteExtractAddrEther_of_lt {src dest : MrouteAddr} {buf : EthFrame}
    (h : buf.bytes.length < sizeofEthhdr) : mrouteExtractAddrEther src dest vid buf = (0, src, dest) := by
  simp only [mrouteExtractAddrEther, if_neg (Nat.not_le.mpr h)]

/-- The flags of a frame whose addresses were read have `MROUTE_EXTRACT_SUCCEEDED` set. -/
theorem succeeded_ne_zero (c : Bool) :
    ((if c then mrouteExtractBcast else 0) ||| mrouteExtractSucceeded) &&& mrouteExtractSucceeded ≠ 0 := by
  cases c <;> decide

/-- The flags of a frame whose addresses were read say broadcast exactly when its destination is
a multicast address. -/
theorem bcast_ne_zero_iff (c : Bool) :
    ((if c then mrouteExtractBcast else 0) ||| mrouteExtractSucceeded) &&&
      (mrouteExtractBcast ||| mrouteExtractMcast) ≠ 0 ↔ c = true := by
  cases c <;> decide

end EtherKey

end OpenVpn
