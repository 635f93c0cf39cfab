import OpenVpn.DhcpOptions
import OpenVpn.PacketMemSpec

/-! What `dhcp_extract_router_msg` does to a packet. The two option loops of `dhcp.c` run on the
option bytes as `dhcpMessageType` and `doExtractList` do on a list: every byte they read or write
lies in the options, they never fault, and `do_extract` ends within the turns `doExtract` gives
it. On a DHCPACK or DHCPOFFER the options become the window `doExtractList` leaves and the UDP
checksum is recomputed over the new bytes, so that it verifies; any other packet is left as it
is, and only a DHCPACK gives an address. -/

namespace OpenVpn

open OnesComplement BigEndian

/-! ### Memory in windows

The loops see the packet as `pre ++ w ++ post`, with `w` the options from the current one on. -/

section Window

variable {pre w post bytes : List UInt8} {touched : List Int} {i : Int} {n : Nat}

theorem fieldAt_window {j : Nat} (h : j + n ≤ w.length) :
    fieldAt (pre ++ w ++ post) (pre.length + j) n = (w.drop j).take n := by
  have hj : ((pre.length : Int) + j).toNat = pre.length + j := by omega
  rw [fieldAt, hj, List.append_assoc, List.drop_length_add_append,
    List.drop_append_of_le_length (by omega), List.take_append_of_le_length (by simp; omega)]

/-- The allocation around a field. -/
theorem eq_take_fieldAt_drop :
    bytes = bytes.take i.toNat ++ fieldAt bytes i n ++ bytes.drop (i.toNat + n) := by
  rw [fieldAt, List.append_assoc, ← List.drop_drop, List.take_append_drop, List.take_append_drop]

theorem drop_eq_fieldAt_append :
    bytes.drop i.toNat = fieldAt bytes i n ++ bytes.drop (i.toNat + n) := by
  rw [fieldAt, ← List.drop_drop, List.take_append_drop]

/-- A field from inside `A` to the end of `Y`. -/
theorem fieldAt_append_span {A Y : List UInt8} (h : i.toNat ≤ A.length)
    (hn : n = A.length - i.toNat + Y.length) :
    fieldAt (A ++ Y ++ post) i n = A.drop i.toNat ++ Y := by
  rw [fieldAt, List.append_assoc, List.drop_append_of_le_length h, ← List.append_assoc,
    List.take_left' (by simp [hn])]

/-- Replacing the middle of an allocation changes nothing outside it. -/
theorem sameOutside_append_mid (A X Y post : List UInt8) (h : X.length = Y.length) :
    SameOutside (A ++ X ++ post) (A ++ Y ++ post) A.length (A.length + X.length) := by
  refine ⟨by simp [h], fun j hj => ?_⟩
  rcases hj with hj | hj
  · rw [List.append_assoc, List.append_assoc, List.getElem?_append_left (by omega),
      List.getElem?_append_left (by omega)]
  · rw [List.getElem?_append_right (by simp; omega), List.getElem?_append_right (by simp; omega)]
    simp [h]

namespace PacketMem

theorem read_mk (h₀ : 0 ≤ i) (h : i + n ≤ bytes.length) :
    (PacketMem.mk bytes touched).read i n =
      some (fieldAt bytes i n, ⟨bytes, touched ++ (List.range n).map fun k : Nat => i + k⟩) := by
  simp [read, memRead, h₀, h, fieldAt]

theorem write_mk {bs : List UInt8} (h₀ : 0 ≤ i) (h : i + bs.length ≤ bytes.length) :
    (PacketMem.mk bytes touched).write i bs =
      some ⟨bytes.take i.toNat ++ bs ++ bytes.drop (i.toNat + bs.length),
        touched ++ (List.range bs.length).map fun k : Nat => i + k⟩ := by
  simp [write, memWrite, h₀, h]

/-- A load from the window. -/
theorem load_window {a : Int} (j : Nat) (ha : a = pre.length + j) (h : j + n ≤ w.length) :
    (PacketMem.mk (pre ++ w ++ post) touched).load a n =
      some (decode ((w.drop j).take n),
        ⟨pre ++ w ++ post, touched ++ (List.range n).map fun k : Nat => a + k⟩) := by
  subst ha
  rw [load_mk (by omega) (by simp; omega), fieldAt_window h]

/-- A read from the window. -/
theorem read_window {a : Int} (j : Nat) (ha : a = pre.length + j) (h : j + n ≤ w.length) :
    (PacketMem.mk (pre ++ w ++ post) touched).read a n =
      some ((w.drop j).take n,
        ⟨pre ++ w ++ post, touched ++ (List.range n).map fun k : Nat => a + k⟩) := by
  subst ha
  rw [read_mk (by omega) (by simp; omega), fieldAt_window h]

/-- A write into the window. -/
theorem write_window {a : Int} (j : Nat) (ha : a = pre.length + j) {bs : List UInt8}
    (h : j + bs.length ≤ w.length) :
    (PacketMem.mk (pre ++ w ++ post) touched).write a bs =
      some ⟨pre ++ (w.take j ++ bs ++ w.drop (j + bs.length)) ++ post,
        touched ++ (List.range bs.length).map fun k : Nat => a + k⟩ := by
  subst ha
  have hj : ((pre.length : Int) + j).toNat = pre.length + j := by omega
  rw [write_mk (by omega) (by simp; omega), hj]
  congr 1
  rw [List.append_assoc pre w, List.take_length_add_append, Nat.add_assoc,
    List.drop_length_add_append, List.take_append_of_le_length (by omega),
    List.drop_append_of_le_length (by omega)]
  simp only [List.append_assoc]

/-- A store over the field `c` at the end of `A`. -/
theorem store_splice_at {A c R : List UInt8} {v : Nat} (ha : i = A.length) (hc : c.length = n) :
    (PacketMem.mk (A ++ c ++ R) touched).store i n v =
      some ⟨A ++ encode n v ++ R, touched ++ (List.range n).map fun k : Nat => i + k⟩ := by
  subst ha
  have h₁ : (A ++ c ++ R).take A.length = A := by simp
  have h₂ : (A ++ c ++ R).drop (A.length + n) = R := by simp [← hc]
  rw [store_eq (by omega) (by simp; omega)]
  dsimp only
  rw [Int.toNat_natCast, h₁, h₂, List.append_assoc]

/-- The deletion of `do_extract`: the `memmove` of the bytes after the first `owlen` of the window
over them, when there are any, then the `memset` of the last `owlen` bytes to `PAD`. -/
theorem delete_window (pre w post : List UInt8) (touched : List Int) (dest optEnd owlen : Int)
    (hdest : dest = pre.length) (hend : optEnd = dest + w.length) (h₀ : 0 ≤ owlen)
    (hk : owlen ≤ w.length) :
    ∃ m₁, (if optEnd - (dest + owlen) > 0 then
        (PacketMem.mk (pre ++ w ++ post) touched).memmove dest (dest + owlen)
          (optEnd - (dest + owlen)).toNat
      else pure ⟨pre ++ w ++ post, touched⟩) = some m₁ ∧
      ∃ m₂, m₁.memset (optEnd - owlen) dhcpPad owlen.toNat = some m₂ ∧
      m₂.bytes = pre ++ (w.drop owlen.toNat ++ List.replicate owlen.toNat 0) ++ post ∧
      TouchedIn touched m₂.touched dest optEnd := by
  obtain ⟨k, rfl⟩ : ∃ k : Nat, owlen = k := ⟨owlen.toNat, by omega⟩
  have hzero : UInt8.ofNat dhcpPad = 0 := rfl
  simp only [Int.toNat_natCast, memset, hzero]
  by_cases hpos : optEnd - (dest + k) > 0
  · -- the tail moves down over the option, then the last `k` bytes are padded
    have hmove : (optEnd - (dest + k)).toNat = w.length - k := by omega
    have hrest : ((w.drop k).take (w.length - k)) = w.drop k :=
      List.take_of_length_le (by simp)
    rw [if_pos hpos, hmove, memmove, read_window k (by omega) (by omega), hrest]
    simp only [Option.bind_eq_bind, Option.bind_some]
    rw [write_window 0 (by omega) (by simp)]
    refine ⟨_, rfl, ?_⟩
    have hw₁ : w.take 0 ++ w.drop k ++ w.drop (0 + (w.drop k).length) =
        w.drop k ++ w.drop (w.length - k) := by
      simp
    rw [hw₁, write_window (w := w.drop k ++ w.drop (w.length - k)) (w.length - k) (by omega)
      (by simp; omega)]
    refine ⟨_, rfl, ?_, ?_⟩
    · have hlen : (w.drop k ++ w.drop (w.length - k)).length ≤ w.length - k + k := by
        simp only [List.length_append, List.length_drop]
        omega
      rw [List.take_left' List.length_drop, List.length_replicate, List.drop_eq_nil_of_le hlen]
      simp
    · intro j hj
      simp only [List.mem_append, mem_map_range_add, List.length_drop, List.length_replicate] at hj
      rcases hj with ((hj | hj) | hj) | hj
      · exact .inl hj
      all_goals exact .inr (by omega)
  · -- the option is the whole window: it is padded out
    have hk' : k = w.length := by omega
    rw [if_neg hpos]
    refine ⟨_, rfl, ?_⟩
    rw [write_window 0 (by omega) (by simp; omega)]
    refine ⟨_, rfl, ?_, ?_⟩
    · simp [hk']
    · intro j hj
      simp only [List.mem_append, mem_map_range_add, List.length_replicate] at hj
      rcases hj with hj | hj
      · exact .inl hj
      · exact .inr (by omega)

end PacketMem

end Window

theorem decode_singleton (b : UInt8) : decode [b] = b.toNat := by
  simp [decode]

/-! ### The loop of `do_extract` -/

section Extract

variable {p optlen : Int}

theorem doExtractLoop_of_le {i : Int} {fuel : Nat} {ret : UInt32} {m : PacketMem} (h : optlen ≤ i) :
    doExtractLoop p optlen (fuel + 1) i ret m = some (ret, m) := by
  rw [doExtractLoop, if_neg (by omega)]

/-- The address step of a router option: `ntohl` of its first four data bytes, when `ret` is still
`0` and the data is a nonempty list of addresses. -/
theorem doExtract_address (ret : UInt32) (post : List UInt8) (type : UInt8) (t : List Int)
    {i : Int} {pre data : List UInt8} {len : UInt8} (hpre : (pre.length : Int) = p + i)
    (hlen : len.toNat ≤ data.length) :
    ∃ t', (if ret = 0 ∧ len.toNat ≥ 4 ∧ len.toNat &&& 3 = 0 then
        (PacketMem.load ⟨pre ++ type :: len :: data ++ post, t⟩ (p + i + 2) 4).map
          fun r => (UInt32.ofNat r.1, r.2)
      else pure (ret, ⟨pre ++ type :: len :: data ++ post, t⟩)) =
        some (if ret = 0 ∧ 4 ≤ len.toNat ∧ len.toNat % 4 = 0 then
            UInt32.ofNat (decode (data.take 4)) else ret,
          ⟨pre ++ type :: len :: data ++ post, t'⟩) ∧
      TouchedIn t t' (p + i) (p + i + 2 + data.length) := by
  have hmask : len.toNat &&& 3 = len.toNat % 4 := Nat.and_two_pow_sub_one_eq_mod _ 2
  rw [hmask]
  by_cases hc : ret = 0 ∧ 4 ≤ len.toNat ∧ len.toNat % 4 = 0
  · rw [if_pos hc, if_pos hc, PacketMem.load_window (a := p + i + 2) 2 (by omega) (by simp; omega)]
    exact ⟨_, by simp, (TouchedIn.refl _ _ _).range (a := p + i + 2) (n := 4) (by omega) (by omega)⟩
  · rw [if_neg hc, if_neg hc]
    exact ⟨t, rfl, TouchedIn.refl _ _ _⟩

/-- The loop on the window `w` of options from `i` on runs as `doExtractList` does on `w`: with
more turns than the measure of the window it ends, the options become the window it leaves, and
every access lies in the options. -/
theorem doExtractLoop_spec : ∀ (fuel : Nat) (i : Int) (ret : UInt32) (pre w post : List UInt8)
    (touched : List Int), (pre.length : Int) = p + i → (w.length : Int) = optlen - i →
    doExtractMeasure w < fuel →
    ∃ t', doExtractLoop p optlen fuel i ret ⟨pre ++ w ++ post, touched⟩ =
        some ((doExtractList w ret).2, ⟨pre ++ (doExtractList w ret).1 ++ post, t'⟩) ∧
      TouchedIn touched t' (p + i) (p + optlen)
  | 0, _, _, _, _, _, _, _, _, hfuel => absurd hfuel (Nat.not_lt_zero _)
  | fuel + 1, i, ret, pre, [], post, touched, hpre, hw, _ => by
      refine ⟨touched, ?_, TouchedIn.refl _ _ _⟩
      rw [doExtractLoop_of_le (by simp at hw; omega), doExtractList_nil]
  | fuel + 1, i, ret, pre, type :: rest, post, touched, hpre, hw, hfuel => by
      have hi : i < optlen := by simp at hw; omega
      have hrest : (rest.length : Int) = optlen - i - 1 := by simp at hw; omega
      rw [doExtractLoop, if_pos hi, PacketMem.load_window (a := p + i) 0 (by omega) (by simp)]
      simp only [List.drop_zero, List.take_succ_cons, List.take_zero, decode_singleton]
      have ht₁ := (TouchedIn.refl touched (p + i) (p + optlen)).range (n := 1) le_rfl (by omega)
      by_cases hend : type.toNat = dhcpEnd
      · -- `END`: the loop stops
        rw [if_pos hend, doExtractList_end hend]
        exact ⟨_, rfl, ht₁⟩
      rw [if_neg hend]
      by_cases hpad : type.toNat = dhcpPad
      · -- `PAD`: the next byte, on a window one byte shorter
        rw [if_pos hpad, doExtractList_pad hpad,
          show pre ++ type :: rest ++ post = (pre ++ [type]) ++ rest ++ post by simp]
        have hm : doExtractMeasure rest < fuel :=
          lt_of_lt_of_le doExtractMeasure_pad (Nat.lt_succ_iff.mp hfuel)
        obtain ⟨t', heq, ht'⟩ := doExtractLoop_spec fuel (i + 1) ret (pre ++ [type]) rest post _
          (by simp; omega) (by omega) hm
        rw [heq]
        exact ⟨t', by simp, ht₁.trans ht' (by omega) le_rfl⟩
      rw [if_neg hpad]
      match rest, hrest with
      | [], hrest =>
          -- an option code as the last byte: `room` is 1
          have hroom : ¬optlen - i ≥ 2 := by simp at hrest; omega
          rw [doExtractList_one hend hpad]
          by_cases hr : type.toNat = dhcpRouter
          · rw [if_pos hr, if_neg hroom]
            exact ⟨_, rfl, ht₁⟩
          · rw [if_neg hr, if_neg hroom]
            exact ⟨_, rfl, ht₁⟩
      | len :: data, hrest =>
          have hroom : optlen - i ≥ 2 := by simp at hrest; omega
          have hdata : (data.length : Int) = optlen - i - 2 := by simp at hrest; omega
          have ht₂ := ht₁.range (a := p + i + 1) (n := 1) (by omega) (by omega)
          by_cases hr : type.toNat = dhcpRouter
          · rw [if_pos hr, if_pos hroom,
              PacketMem.load_window (a := p + i + 1) 1 (by omega) (by simp)]
            simp only [List.drop_succ_cons, List.drop_zero, List.take_succ_cons, List.take_zero,
              decode_singleton]
            by_cases hlen : len.toNat ≤ data.length
            · -- a router option: its address, then its deletion, then the same `i` again
              rw [if_pos (by omega), doExtractList_router hr hlen]
              obtain ⟨t₃, hret, ht₃⟩ := doExtract_address ret post type (touched ++
                List.map (fun k : Nat => p + i + k) (List.range 1) ++
                  List.map (fun k : Nat => p + i + 1 + k) (List.range 1)) hpre hlen
              rw [hret]
              simp only [Option.bind_eq_bind, Option.bind_some]
              obtain ⟨m₁, hm₁, ⟨b₂, t₄⟩, hm₂, hb₂, ht₄⟩ := PacketMem.delete_window pre
                (type :: len :: data) post t₃ (p + i) (p + optlen) (len.toNat + 2) hpre.symm
                (by simp; omega) (by omega) (by simp; omega)
              have howlen : ((len.toNat : Int) + 2).toNat = len.toNat + 2 := by omega
              rw [hm₁, Option.bind_some, hm₂, Option.bind_some]
              simp only [howlen, List.drop_succ_cons] at hb₂
              subst hb₂
              obtain ⟨t', heq, ht'⟩ := doExtractLoop_spec fuel i _ pre
                (data.drop len.toNat ++ List.replicate (len.toNat + 2) 0) post t₄ hpre
                (by simp; omega)
                (by have := doExtractMeasure_delete hr hlen; omega)
              rw [heq]
              exact ⟨t', rfl, (ht₂.trans ht₃ le_rfl (by omega)).trans (ht₄.trans ht' le_rfl le_rfl)
                le_rfl le_rfl⟩
            · -- a router option longer than the room left ends the loop
              rw [if_neg (by omega), doExtractList_router_long hr (by omega)]
              exact ⟨_, rfl, ht₂⟩
          · rw [if_neg hr, if_pos hroom,
              PacketMem.load_window (a := p + i + 1) 1 (by omega) (by simp)]
            simp only [List.drop_succ_cons, List.drop_zero, List.take_succ_cons, List.take_zero,
              decode_singleton]
            rw [doExtractList_other hend hpad hr]
            by_cases hlen : len.toNat ≤ data.length
            · -- another option: the loop goes on after it
              rw [show pre ++ type :: len :: data ++ post =
                (pre ++ type :: len :: data.take len.toNat) ++ data.drop len.toNat ++ post by simp]
              have hm : doExtractMeasure (data.drop len.toNat) < fuel :=
                lt_of_lt_of_le doExtractMeasure_skip (Nat.lt_succ_iff.mp hfuel)
              obtain ⟨t', heq, ht'⟩ := doExtractLoop_spec fuel (i + (len.toNat + 2)) ret
                (pre ++ type :: len :: data.take len.toNat) (data.drop len.toNat) post _
                (by simp; omega) (by simp; omega) hm
              rw [heq]
              exact ⟨t', by simp, ht₂.trans ht' (by omega) le_rfl⟩
            · -- an option longer than the room left: `i` jumps past the end
              obtain ⟨f, rfl⟩ : ∃ f, fuel = f + 1 :=
                ⟨fuel - 1, by simp only [doExtractMeasure, List.length_cons] at hfuel; omega⟩
              rw [doExtractLoop_of_le (by omega), List.drop_eq_nil_of_le (by omega),
                doExtractList_nil, List.take_of_length_le (by omega)]
              exact ⟨_, by simp, ht₂⟩

/-- `do_extract` on the options `w` after the `struct dhcp` at `dhcp`: it ends, and leaves the
options and the address that `doExtractList` gives. -/
theorem doExtract_spec {dhcp : Int} (pre w post : List UInt8) (touched : List Int)
    (hpre : (pre.length : Int) = dhcp + sizeofDhcp) (hw : (w.length : Int) = optlen) :
    ∃ t', doExtract dhcp optlen ⟨pre ++ w ++ post, touched⟩ =
        some ((doExtractList w 0).2, ⟨pre ++ (doExtractList w 0).1 ++ post, t'⟩) ∧
      TouchedIn touched t' (dhcp + sizeofDhcp) (dhcp + sizeofDhcp + optlen) := by
  have hfuel : doExtractMeasure w < 2 * optlen.toNat + 1 := by
    have := doExtractMeasure_le w
    omega
  obtain ⟨t', heq, ht'⟩ := doExtractLoop_spec (p := dhcp + sizeofDhcp)
    (2 * optlen.toNat + 1) 0 0 pre w post touched (by rw [hpre, Int.add_zero])
    (show (w.length : Int) = optlen - 0 by omega) hfuel
  exact ⟨t', heq, by simpa using ht'⟩

end Extract

/-! ### The loop of `get_dhcp_message_type` -/

section MessageType

variable {p optlen : Int}

theorem getDhcpMessageTypeLoop_of_le {i : Int} {m : PacketMem} (h : optlen ≤ i) :
    getDhcpMessageTypeLoop p optlen i m = some (-1, m) := by
  rw [getDhcpMessageTypeLoop, if_neg (by omega)]

/-- The loop on the window `w` of options from `i` on finds what `dhcpMessageType` finds in `w`,
reads only the options and writes nothing. -/
theorem getDhcpMessageTypeLoop_spec (i : Int) (pre w post : List UInt8) (touched : List Int)
    (hpre : (pre.length : Int) = p + i) (hw : (w.length : Int) = optlen - i) :
    ∃ t', getDhcpMessageTypeLoop p optlen i ⟨pre ++ w ++ post, touched⟩ =
        some (dhcpMessageType w, ⟨pre ++ w ++ post, t'⟩) ∧
      TouchedIn touched t' (p + i) (p + optlen) := by
  -- on the options left: a turn goes on with fewer of them
  induction hn : w.length using Nat.strong_induction_on generalizing i pre w touched with
  | _ n ih =>
  subst hn
  cases w with
  | nil =>
      exact ⟨touched, by rw [getDhcpMessageTypeLoop_of_le (by simp at hw; omega),
        dhcpMessageType_nil], TouchedIn.refl _ _ _⟩
  | cons type rest =>
      have hi : i < optlen := by simp at hw; omega
      rw [getDhcpMessageTypeLoop, if_pos hi,
        PacketMem.load_window (a := p + i) 0 (by omega) (by simp)]
      simp only [List.drop_zero, List.take_succ_cons, List.take_zero, decode_singleton]
      have ht₁ := (TouchedIn.refl touched (p + i) (p + optlen)).range (n := 1) le_rfl (by omega)
      by_cases hend : type.toNat = dhcpEnd
      · rw [if_pos hend, dhcpMessageType_end hend]
        exact ⟨_, rfl, ht₁⟩
      rw [if_neg hend]
      by_cases hpad : type.toNat = dhcpPad
      · rw [if_pos hpad, dhcpMessageType_pad hpad,
          show pre ++ type :: rest ++ post = (pre ++ [type]) ++ rest ++ post by simp]
        obtain ⟨t', heq, ht'⟩ := ih rest.length (by simp) (i + 1) (pre ++ [type]) rest _
          (by simp; omega) (by simp at hw; omega) rfl
        rw [heq]
        exact ⟨t', by simp, ht₁.trans ht' (by omega) le_rfl⟩
      rw [if_neg hpad]
      by_cases hmsg : type.toNat = dhcpMsgType
      · -- the message type option: its length byte, then its value
        rw [if_pos hmsg]
        rcases rest with _ | ⟨olen, _ | ⟨t, rest'⟩⟩
        · rw [if_neg (by simp at hw; omega), dhcpMessageType_msgType_short hmsg (by simp)]
          exact ⟨_, rfl, ht₁⟩
        · rw [if_neg (by simp at hw; omega), dhcpMessageType_msgType_short hmsg (by simp)]
          exact ⟨_, rfl, ht₁⟩
        · rw [if_pos (by simp at hw; omega), dhcpMessageType_msgType hmsg,
            PacketMem.load_window (a := p + i + 1) 1 (by omega) (by simp)]
          simp only [List.drop_succ_cons, List.drop_zero, List.take_succ_cons, List.take_zero,
            decode_singleton]
          have ht₂ := ht₁.range (a := p + i + 1) (n := 1) (by omega) (by simp at hw; omega)
          by_cases hone : olen.toNat = 1
          · rw [if_pos hone, if_pos hone,
              PacketMem.load_window (a := p + i + 2) 2 (by omega) (by simp)]
            exact ⟨_, by simp [decode_singleton],
              ht₂.range (a := p + i + 2) (n := 1) (by omega) (by simp at hw; omega)⟩
          · rw [if_neg hone, if_neg hone]
            exact ⟨_, rfl, ht₂⟩
      rw [if_neg hmsg]
      rcases rest with _ | ⟨len, data⟩
      · -- a last byte with no room for a length: the loop steps past it
        rw [if_neg (by simp at hw; omega), getDhcpMessageTypeLoop_of_le (by simp at hw; omega),
          dhcpMessageType_one hend hpad hmsg]
        exact ⟨_, rfl, ht₁⟩
      · -- another option: `i += (len + 1)`, then `++i`
        rw [if_pos (by simp at hw; omega), dhcpMessageType_other hend hpad hmsg,
          PacketMem.load_window (a := p + i + 1) 1 (by omega) (by simp)]
        simp only [List.drop_succ_cons, List.drop_zero, List.take_succ_cons, List.take_zero,
          decode_singleton]
        have ht₂ := ht₁.range (a := p + i + 1) (n := 1) (by omega) (by simp at hw; omega)
        by_cases hlen : len.toNat ≤ data.length
        · rw [show pre ++ type :: len :: data ++ post =
            (pre ++ type :: len :: data.take len.toNat) ++ data.drop len.toNat ++ post by simp]
          obtain ⟨t', heq, ht'⟩ := ih (data.drop len.toNat).length (by simp; omega)
            (i + (len.toNat + 1) + 1) (pre ++ type :: len :: data.take len.toNat) (data.drop len.toNat) _
            (by simp; omega) (by simp at hw ⊢; omega) rfl
          rw [heq]
          exact ⟨t', by simp, ht₂.trans ht' (by omega) le_rfl⟩
        · rw [getDhcpMessageTypeLoop_of_le (by simp at hw; omega),
            List.drop_eq_nil_of_le (by omega), dhcpMessageType_nil]
          exact ⟨_, rfl, ht₂⟩

end MessageType

/-! ### A checksum computed with a zero check field

`ip_checksum` over a segment whose check field, at an even offset, is zero gives the value that
makes the segment verify: stored in the field, the one's complement sum of the pseudo-header and
the segment is `0`. The 32-bit sum of `ip_checksum` does not wrap on a segment shorter than
`2 ^ 16` bytes. -/

section Checksum

variable {W R sa da : List UInt8} {proto : Nat} {lenPayload : Int}

theorem wordSum_split_word (hW : Even W.length) {v : Nat} (hv : v < 2 ^ 16) :
    wordSum (W ++ encode 2 v ++ R) = wordSum W + v + wordSum R := by
  rw [wordSum_append R (by simpa [Nat.even_add] using hW), wordSum_append _ hW,
    wordSum_encode_two hv]

theorem ipChecksum_verifies (hW : Even W.length) (hsa : sa.length = 4) (hda : da.length = 4)
    (hl : lenPayload = W.length + 2 + R.length) (hn : lenPayload < 2 ^ 16) (hp : proto < 2 ^ 16) :
    (wordSum (W ++ encode 2 (ipChecksum (W ++ encode 2 0 ++ R) lenPayload sa da proto) ++ R) +
        wordSum sa + wordSum da + lenPayload.toNat + proto) % 0xffff = 0 := by
  have hseg : (W ++ encode 2 0 ++ R).take lenPayload.toNat = W ++ encode 2 0 ++ R :=
    List.take_of_length_le (by simp; omega)
  have hW₀ := wordSum_split_word (R := R) hW (v := 0) (by norm_num)
  -- the 32-bit sum of the loops, without wrapping
  have hbound : wordSum W + wordSum R + wordSum sa + wordSum da + lenPayload.toNat + proto < 2 ^ 32 := by
    have h₁ := wordSum_le (W ++ encode 2 0 ++ R)
    have h₂ := wordSum_le sa
    have h₃ := wordSum_le da
    simp only [List.length_append, BigEndian.length_encode, hsa, hda] at h₁ h₂ h₃
    have h₄ : (W.length + 2 + R.length + 1) / 2 ≤ 32768 := by omega
    have h₅ : 0xffff * ((W.length + 2 + R.length + 1) / 2) ≤ 0xffff * 32768 :=
      Nat.mul_le_mul_left _ h₄
    omega
  have hmod : (lenPayload % 2 ^ 16).toNat = lenPayload.toNat := by omega
  have hsum : (wordSum (W ++ encode 2 0 ++ R) + wordSum sa + wordSum da + (lenPayload % 2 ^ 16).toNat +
      proto % 2 ^ 16) % 2 ^ 32 =
      wordSum W + wordSum R + wordSum sa + wordSum da + lenPayload.toNat + proto := by
    rw [hW₀, hmod, Nat.mod_eq_of_lt hp]
    exact Nat.mod_eq_of_lt (by omega)
  -- the stored value is `0xffff` minus the folded sum, which has the residue of the sum
  have hfold := addCarries_mod 2 (wordSum W + wordSum R + wordSum sa + wordSum da +
    lenPayload.toNat + proto)
  have hlt := addCarries_two_lt hbound
  have hck : ipChecksum (W ++ encode 2 0 ++ R) lenPayload sa da proto =
      0xffff - addCarries 2 (wordSum W + wordSum R + wordSum sa + wordSum da + lenPayload.toNat + proto) := by
    rw [ipChecksum, hseg, hsum]
  rw [hck, wordSum_split_word hW (by omega)]
  omega

end Checksum

/-! ### `dhcp_extract_router_msg` -/

/-- The option bytes of the DHCP message in `ipbuf`: `optlen` bytes after the 268 of the IP header,
the UDP header and `struct dhcp`. -/
def dhcpOptions (bytes : List UInt8) (ipbuf : Buffer) : List UInt8 :=
  fieldAt bytes (ipbuf.offset + (sizeofIphdr + sizeofUdphdr + sizeofDhcp))
    (bufLen ipbuf - (sizeofIphdr + sizeofUdphdr + sizeofDhcp)).toNat

/-- The sizes of the three headers of `struct dhcp_full`, for `omega`. -/
theorem sizeof_dhcpFull :
    ((sizeofIphdr : Nat) : Int) = 20 ∧ ((sizeofUdphdr : Nat) : Int) = 8 ∧ ((sizeofDhcp : Nat) : Int) = 240 :=
  ⟨rfl, rfl, rfl⟩

/-- The tests of `dhcp_extract_router_msg` before the message type: room for the headers, and a
BOOTREPLY in UDP from the server port to the client port. -/
def IsDhcpReply (bytes : List UInt8) (ipbuf : Buffer) : Prop :=
  ((sizeofIphdr + sizeofUdphdr + sizeofDhcp : Nat) : Int) ≤ bufLen ipbuf ∧
    decode (fieldAt bytes (ipbuf.offset + 9) 1) = openvpnIpprotoUdp ∧
    decode (fieldAt bytes (ipbuf.offset + 20) 2) = bootpsPort ∧
    decode (fieldAt bytes (ipbuf.offset + 22) 2) = bootpcPort ∧
    decode (fieldAt bytes (ipbuf.offset + 28) 1) = bootreply

instance (bytes : List UInt8) (ipbuf : Buffer) : Decidable (IsDhcpReply bytes ipbuf) :=
  inferInstanceAs (Decidable (_ ∧ _ ∧ _ ∧ _ ∧ _))

/-- A DHCP reply that `dhcp_extract_router_msg` rewrites: a DHCPACK or a DHCPOFFER. -/
def IsDhcpAckOrOffer (bytes : List UInt8) (ipbuf : Buffer) : Prop :=
  IsDhcpReply bytes ipbuf ∧
    (dhcpMessageType (dhcpOptions bytes ipbuf) = dhcpack ∨
      dhcpMessageType (dhcpOptions bytes ipbuf) = dhcpoffer)

instance (bytes : List UInt8) (ipbuf : Buffer) : Decidable (IsDhcpAckOrOffer bytes ipbuf) :=
  inferInstanceAs (Decidable (_ ∧ _))

/-- The packet `bytes` of a DHCP message with the check field `check` and the options `opts` put
in: the headers before `udp.check`, `check`, `struct dhcp`, `opts` and the rest of the allocation.
This is the form `dhcp_extract_router_msg` leaves a DHCPACK or DHCPOFFER in. -/
def dhcpSplice (bytes : List UInt8) (ipbuf : Buffer) (check opts : List UInt8) : List UInt8 :=
  bytes.take (ipbuf.offset + 26).toNat ++ check ++
    (fieldAt bytes (ipbuf.offset + 28) sizeofDhcp ++ opts ++
      bytes.drop (ipbuf.offset + bufLen ipbuf).toNat)

/-- The checksum `dhcp_extract_router_msg` puts in `udp.check` with the options `opts`: of the UDP
header words before the check field, a zero check field, `struct dhcp` and `opts`, under the
pseudo-header of the two addresses of the IP header. -/
def dhcpChecksum (bytes : List UInt8) (ipbuf : Buffer) (opts : List UInt8) : Nat :=
  ipChecksum (fieldAt bytes (ipbuf.offset + 20) 6 ++ encode 2 0 ++
      fieldAt bytes (ipbuf.offset + 28) sizeofDhcp ++ opts) (bufLen ipbuf - sizeofIphdr)
    (fieldAt bytes (ipbuf.offset + 12) 4) (fieldAt bytes (ipbuf.offset + 16) 4) openvpnIpprotoUdp

/-- A DHCP message lies in the memory: `BPTR` is an index, the packet ends inside the allocation,
and there is room for the headers and `struct dhcp`. -/
structure DhcpLayout (bytes : List UInt8) (ipbuf : Buffer) : Prop where
  offset_nonneg : 0 ≤ ipbuf.offset
  inside : ipbuf.offset + bufLen ipbuf ≤ bytes.length
  room : 268 ≤ bufLen ipbuf

namespace DhcpLayout

variable {ipbuf : Buffer} {bytes check opts : List UInt8}

theorem of_reply (hb : BufBounded ipbuf) (hin : ipbuf.offset + ipbuf.len ≤ bytes.length)
    (hr : IsDhcpReply bytes ipbuf) : DhcpLayout bytes ipbuf := by
  have hroom := hr.1
  have hlen := hb.bufLen_eq
  simp only [sizeofIphdr, sizeofUdphdr, sizeofDhcp] at hroom
  exact ⟨hb.offset_nonneg, by omega, by omega⟩

theorem length_take (hl : DhcpLayout bytes ipbuf) :
    (bytes.take (ipbuf.offset + 26).toNat).length = (ipbuf.offset + 26).toNat := by
  have := hl.inside
  have := hl.room
  rw [List.length_take]
  omega

theorem length_dhcpDhcp (hl : DhcpLayout bytes ipbuf) :
    (fieldAt bytes (ipbuf.offset + 28) sizeofDhcp).length = sizeofDhcp := by
  have := hl.offset_nonneg
  have := hl.inside
  have := hl.room
  exact length_fieldAt (by omega) (by simp only [sizeofDhcp]; omega)

theorem length_dhcpOptions (hl : DhcpLayout bytes ipbuf) :
    ((dhcpOptions bytes ipbuf).length : Int) =
      bufLen ipbuf - (sizeofIphdr + sizeofUdphdr + sizeofDhcp) := by
  have := hl.offset_nonneg
  have := hl.inside
  have := hl.room
  have hs : ((sizeofIphdr + sizeofUdphdr + sizeofDhcp : Nat) : Int) = 268 := rfl
  rw [dhcpOptions, length_fieldAt (by omega) (by omega)]
  omega

/-- The packet is the splice of its own check field and options. -/
theorem dhcpSplice_self (hl : DhcpLayout bytes ipbuf) :
    dhcpSplice bytes ipbuf (fieldAt bytes (ipbuf.offset + 26) 2) (dhcpOptions bytes ipbuf) = bytes := by
  have := hl.offset_nonneg
  have := hl.room
  have hs := sizeof_dhcpFull
  have e₁ : bytes.drop (ipbuf.offset + 26).toNat =
      fieldAt bytes (ipbuf.offset + 26) 2 ++ bytes.drop (ipbuf.offset + 28).toNat := by
    rw [drop_eq_fieldAt_append (n := 2)]
    congr 2
    omega
  have e₂ : bytes.drop (ipbuf.offset + 28).toNat = fieldAt bytes (ipbuf.offset + 28) sizeofDhcp ++
      bytes.drop (ipbuf.offset + (sizeofIphdr + sizeofUdphdr + sizeofDhcp)).toNat := by
    rw [drop_eq_fieldAt_append (n := sizeofDhcp)]
    congr 2
    omega
  have e₃ : bytes.drop (ipbuf.offset + (sizeofIphdr + sizeofUdphdr + sizeofDhcp)).toNat =
      dhcpOptions bytes ipbuf ++ bytes.drop (ipbuf.offset + bufLen ipbuf).toNat := by
    rw [dhcpOptions, drop_eq_fieldAt_append (n := (bufLen ipbuf - (sizeofIphdr + sizeofUdphdr +
      sizeofDhcp)).toNat)]
    congr 2
    omega
  conv_rhs => rw [← List.take_append_drop (ipbuf.offset + 26).toNat bytes, e₁, e₂, e₃]
  simp only [dhcpSplice, List.append_assoc]

/-! A check field of two bytes and options of the old length put in: what the splice is made of
is found where it was put. -/

section Put

variable (hl : DhcpLayout bytes ipbuf) (hc : check.length = 2)
  (ho : opts.length = (dhcpOptions bytes ipbuf).length)

include hl hc ho in
theorem length_dhcpSplice : (dhcpSplice bytes ipbuf check opts).length = bytes.length := by
  have := hl.offset_nonneg
  have := hl.inside
  have hA := hl.length_take
  have hD := hl.length_dhcpDhcp
  have hO := hl.length_dhcpOptions
  simp only [dhcpSplice, List.length_append, List.length_drop, hA, hD, hc, ho]
  simp only [sizeofIphdr, sizeofUdphdr, sizeofDhcp] at hO hD ⊢
  omega

include hl hc ho in
/-- Only `udp.check` and the message are put in. -/
theorem sameOutside_dhcpSplice :
    SameOutside bytes (dhcpSplice bytes ipbuf check opts) (ipbuf.offset + 26)
      (ipbuf.offset + bufLen ipbuf) := by
  have := hl.offset_nonneg
  have := hl.room
  have hA := hl.length_take
  have hD := hl.length_dhcpDhcp
  have hO := hl.length_dhcpOptions
  have hc₀ : (fieldAt bytes (ipbuf.offset + 26) 2).length = 2 :=
    length_fieldAt (by omega) (by have := hl.inside; omega)
  have hmid := sameOutside_append_mid (bytes.take (ipbuf.offset + 26).toNat)
    (fieldAt bytes (ipbuf.offset + 26) 2 ++ fieldAt bytes (ipbuf.offset + 28) sizeofDhcp ++
      dhcpOptions bytes ipbuf)
    (check ++ fieldAt bytes (ipbuf.offset + 28) sizeofDhcp ++ opts)
    (bytes.drop (ipbuf.offset + bufLen ipbuf).toNat)
    (by simp only [List.length_append, hc₀, hc, ho])
  have hself := hl.dhcpSplice_self
  simp only [dhcpSplice, List.append_assoc] at hself hmid ⊢
  rw [hself] at hmid
  refine hmid.mono (by omega) ?_
  simp only [List.length_append, hA, hc₀, hD]
  simp only [sizeofIphdr, sizeofUdphdr, sizeofDhcp] at hO hD ⊢
  omega

include hl hc in
theorem fieldAt_dhcpSplice_dhcp :
    fieldAt (dhcpSplice bytes ipbuf check opts) (ipbuf.offset + 28) sizeofDhcp =
      fieldAt bytes (ipbuf.offset + 28) sizeofDhcp := by
  have := hl.offset_nonneg
  have hA := hl.length_take
  have hD := hl.length_dhcpDhcp
  rw [dhcpSplice, show ∀ A E D O P : List UInt8, A ++ E ++ (D ++ O ++ P) = (A ++ E) ++ D ++ (O ++ P) by
    intros; simp only [List.append_assoc]]
  generalize fieldAt bytes (ipbuf.offset + 28) sizeofDhcp = D at hD ⊢
  rw [show ipbuf.offset + 28 = (((bytes.take (ipbuf.offset + 26).toNat ++ check).length : Nat) : Int) +
      ((0 : Nat) : Int) by simp only [List.length_append, hA, hc]; omega,
    fieldAt_window (by omega), List.drop_zero, List.take_of_length_le (by omega)]

include hl hc ho in
theorem dhcpOptions_dhcpSplice : dhcpOptions (dhcpSplice bytes ipbuf check opts) ipbuf = opts := by
  have := hl.offset_nonneg
  have hA := hl.length_take
  have hD := hl.length_dhcpDhcp
  have hO := hl.length_dhcpOptions
  have hs := sizeof_dhcpFull
  rw [dhcpOptions, dhcpSplice, show ∀ A E D O P : List UInt8, A ++ E ++ (D ++ O ++ P) =
      (A ++ E ++ D) ++ O ++ P by intros; simp only [List.append_assoc],
    show ipbuf.offset + (sizeofIphdr + sizeofUdphdr + sizeofDhcp) =
      (((bytes.take (ipbuf.offset + 26).toNat ++ check ++
        fieldAt bytes (ipbuf.offset + 28) sizeofDhcp).length : Nat) : Int) + ((0 : Nat) : Int) by
      simp only [List.length_append, hA, hc, hD]; omega,
    fieldAt_window (by omega), List.drop_zero, List.take_of_length_le (by omega)]

include hl hc ho in
/-- The UDP segment `ip_checksum` reads: the header words before the check field, `check`,
`struct dhcp` and the options. -/
theorem fieldAt_dhcpSplice_segment :
    fieldAt (dhcpSplice bytes ipbuf check opts) (ipbuf.offset + sizeofIphdr)
        (bufLen ipbuf - sizeofIphdr).toNat =
      fieldAt bytes (ipbuf.offset + 20) 6 ++ check ++ fieldAt bytes (ipbuf.offset + 28) sizeofDhcp ++
        opts := by
  have := hl.offset_nonneg
  have hA := hl.length_take
  have hD := hl.length_dhcpDhcp
  have hO := hl.length_dhcpOptions
  have hs := sizeof_dhcpFull
  rw [dhcpSplice, show ∀ A E D O P : List UInt8, A ++ E ++ (D ++ O ++ P) = A ++ (E ++ D ++ O) ++ P by
      intros; simp only [List.append_assoc],
    fieldAt_append_span (by omega) (by simp only [List.length_append, hA, hc, hD]; omega),
    List.drop_take, fieldAt, List.append_assoc, List.append_assoc, List.append_assoc]
  congr 2
  omega

include hl hc ho in
theorem splice : DhcpLayout (dhcpSplice bytes ipbuf check opts) ipbuf :=
  ⟨hl.offset_nonneg, by rw [hl.length_dhcpSplice hc ho]; exact hl.inside, hl.room⟩

include hl hc ho in
/-- A second splice replaces the first. -/
theorem dhcpSplice_dhcpSplice (check' opts' : List UInt8) :
    dhcpSplice (dhcpSplice bytes ipbuf check opts) ipbuf check' opts' =
      dhcpSplice bytes ipbuf check' opts' := by
  have := hl.offset_nonneg
  have := hl.room
  have hA := hl.length_take
  have hD := hl.length_dhcpDhcp
  have hO := hl.length_dhcpOptions
  have htake : (dhcpSplice bytes ipbuf check opts).take (ipbuf.offset + 26).toNat =
      bytes.take (ipbuf.offset + 26).toNat := by
    rw [dhcpSplice, List.append_assoc, List.take_left' hA]
  have hdrop : (dhcpSplice bytes ipbuf check opts).drop (ipbuf.offset + bufLen ipbuf).toNat =
      bytes.drop (ipbuf.offset + bufLen ipbuf).toNat := by
    rw [dhcpSplice, show ∀ A E D O P : List UInt8, A ++ E ++ (D ++ O ++ P) =
        (A ++ E ++ D ++ O) ++ P by intros; simp only [List.append_assoc],
      List.drop_left' (by simp only [List.length_append, hA, hc, hD, ho]; simp only [sizeofIphdr,
        sizeofUdphdr, sizeofDhcp] at hO hD ⊢; omega)]
  have hdhcp : fieldAt (dhcpSplice bytes ipbuf check opts) (ipbuf.offset + 28) sizeofDhcp = _ :=
    hl.fieldAt_dhcpSplice_dhcp hc
  set B := dhcpSplice bytes ipbuf check opts
  rw [dhcpSplice, htake, hdhcp, hdrop]
  rfl

include hl hc ho in
/-- The fields a checksum reads outside the options are those of the packet before the splice. -/
theorem dhcpChecksum_dhcpSplice (opts' : List UInt8) :
    dhcpChecksum (dhcpSplice bytes ipbuf check opts) ipbuf opts' = dhcpChecksum bytes ipbuf opts' := by
  have := hl.offset_nonneg
  have hsame := hl.sameOutside_dhcpSplice hc ho
  rw [dhcpChecksum, dhcpChecksum, hl.fieldAt_dhcpSplice_dhcp hc,
    hsame.fieldAt_eq (by omega) (.inl (by omega)), hsame.fieldAt_eq (by omega) (.inl (by omega)),
    hsame.fieldAt_eq (by omega) (.inl (by omega))]

end Put

end DhcpLayout

section Extract

variable {ipbuf : Buffer} {bytes : List UInt8} {touched : List Int}

/-- What `dhcp_extract_router_msg` does to a DHCPACK or DHCPOFFER: the options become the window
`do_extract` leaves, and `udp.check` the checksum of the new UDP segment with a zero check field. -/
theorem dhcpExtractRouterMsg_reply (touched : List Int) (hb : BufBounded ipbuf)
    (hin : ipbuf.offset + ipbuf.len ≤ bytes.length) (hr : IsDhcpReply bytes ipbuf)
    (ht : dhcpMessageType (dhcpOptions bytes ipbuf) = dhcpack ∨
      dhcpMessageType (dhcpOptions bytes ipbuf) = dhcpoffer) :
    ∃ t', dhcpExtractRouterMsg ipbuf ⟨bytes, touched⟩ =
      some (if dhcpMessageType (dhcpOptions bytes ipbuf) = dhcpack then
          (doExtractList (dhcpOptions bytes ipbuf) 0).2 else 0,
        ⟨dhcpSplice bytes ipbuf (encode 2 (dhcpChecksum bytes ipbuf (doExtractList (dhcpOptions bytes ipbuf) 0).1))
          (doExtractList (dhcpOptions bytes ipbuf) 0).1, t'⟩) ∧
      TouchedIn touched t' ipbuf.offset (ipbuf.offset + bufLen ipbuf) := by
  have hl := DhcpLayout.of_reply hb hin hr
  obtain ⟨-, hproto, hsrc, hdst, hop⟩ := hr
  have h₀ := hl.offset_nonneg
  have hlen := hb.bufLen_eq
  have h268 := hl.room
  have hs := sizeof_dhcpFull
  unfold dhcpExtractRouterMsg
  rw [if_pos (by omega)]
  simp only [hb.bufBptr_eq, Option.bind_eq_bind, Option.bind_some]
  -- the four header tests pass
  rw [PacketMem.load_mk (by omega) (by omega), Option.bind_some]
  dsimp only
  rw [hproto, if_pos rfl, PacketMem.load_mk (by omega) (by omega), Option.bind_some]
  dsimp only
  rw [hsrc, if_pos rfl, PacketMem.load_mk (by omega) (by omega), Option.bind_some]
  dsimp only
  rw [hdst, if_pos rfl, PacketMem.load_mk (by omega) (by omega), Option.bind_some]
  dsimp only
  rw [hop, if_pos rfl]
  set t₄ := touched ++ List.map (fun k : Nat => ipbuf.offset + 9 + k) (List.range 1) ++
    List.map (fun k : Nat => ipbuf.offset + 20 + k) (List.range 2) ++
    List.map (fun k : Nat => ipbuf.offset + 22 + k) (List.range 2) ++
    List.map (fun k : Nat => ipbuf.offset + 28 + k) (List.range 1) with ht₄def
  have ht₄ : TouchedIn touched t₄ ipbuf.offset (ipbuf.offset + bufLen ipbuf) :=
    ((((TouchedIn.refl _ _ _).range (by omega) (by omega)).range (by omega) (by omega)).range
      (by omega) (by omega)).range (by omega) (by omega)
  -- the packet in parts, as the option loops see it
  have hsplit : bytes = bytes.take (ipbuf.offset + 26).toNat ++ fieldAt bytes (ipbuf.offset + 26) 2 ++
      fieldAt bytes (ipbuf.offset + 28) sizeofDhcp ++ dhcpOptions bytes ipbuf ++
      bytes.drop (ipbuf.offset + bufLen ipbuf).toNat := by
    conv_lhs => rw [← hl.dhcpSplice_self]
    simp only [dhcpSplice, List.append_assoc]
  have hA_len : ((bytes.take (ipbuf.offset + 26).toNat).length : Int) = ipbuf.offset + 26 := by
    rw [hl.length_take]
    omega
  have hc_len : (fieldAt bytes (ipbuf.offset + 26) 2).length = 2 := length_fieldAt (by omega) (by omega)
  have hD_len := hl.length_dhcpDhcp
  have ho_len := hl.length_dhcpOptions
  set A := bytes.take (ipbuf.offset + 26).toNat with hA
  set c := fieldAt bytes (ipbuf.offset + 26) 2 with hc
  set D := fieldAt bytes (ipbuf.offset + 28) sizeofDhcp with hD
  set o := dhcpOptions bytes ipbuf with ho
  set post := bytes.drop (ipbuf.offset + bufLen ipbuf).toNat with hpost
  -- `get_dhcp_message_type` reads the options only
  obtain ⟨t₅, hmt, ht₅⟩ := getDhcpMessageTypeLoop_spec (p := ipbuf.offset + 28 + sizeofDhcp) 0
    (A ++ c ++ D) o post t₄ (by simp only [List.length_append]; omega)
    (show (o.length : Int) = bufLen ipbuf - (sizeofIphdr + sizeofUdphdr + sizeofDhcp) - 0 by omega)
  rw [← hsplit] at hmt
  rw [getDhcpMessageType, hmt, Option.bind_some]
  dsimp only
  rw [if_pos ht]
  -- `do_extract` rewrites them
  obtain ⟨t₆, hex, ht₆⟩ := doExtract_spec (A ++ c ++ D) o post t₅
    (show ((A ++ c ++ D).length : Int) = ipbuf.offset + 28 + sizeofDhcp by
      simp only [List.length_append]; omega) ho_len
  rw [← hsplit] at hex
  rw [hex, Option.bind_some]
  dsimp only
  -- `udp.check = 0`, then the reads of `ip_checksum`, then the new `udp.check`
  set o' := (doExtractList o 0).1 with ho'
  have ho'_len : o'.length = o.length := length_doExtractList o 0
  have hlenP : ((sizeofUdphdr : Nat) : Int) + sizeofDhcp +
      (bufLen ipbuf - (sizeofIphdr + sizeofUdphdr + sizeofDhcp)) = bufLen ipbuf - sizeofIphdr := by
    omega
  have hzero : (encode 2 0).length = 2 := BigEndian.length_encode 2 0
  rw [show A ++ c ++ D ++ o' ++ post = A ++ c ++ (D ++ o' ++ post) by simp only [List.append_assoc],
    PacketMem.store_splice_at (show ipbuf.offset + 26 = (A.length : Int) by omega) hc_len,
    Option.bind_some, hlenP,
    show A ++ encode 2 0 ++ (D ++ o' ++ post) = dhcpSplice bytes ipbuf (encode 2 0) o' from rfl]
  have hB₂len := hl.length_dhcpSplice hzero ho'_len
  have hsame := hl.sameOutside_dhcpSplice hzero ho'_len
  rw [PacketMem.read_mk (by omega) (by omega), Option.bind_some]
  dsimp only
  rw [PacketMem.read_mk (by omega) (by omega), Option.bind_some]
  dsimp only
  rw [PacketMem.read_mk (by omega) (by omega), Option.bind_some]
  dsimp only
  rw [show ipbuf.offset + 20 = ipbuf.offset + sizeofIphdr from rfl,
    hl.fieldAt_dhcpSplice_segment hzero ho'_len, hsame.fieldAt_eq (by omega) (.inl (by omega)),
    hsame.fieldAt_eq (by omega) (.inl (by omega)),
    show dhcpSplice bytes ipbuf (encode 2 0) o' = A ++ encode 2 0 ++ (D ++ o' ++ post) from rfl,
    PacketMem.store_splice_at (show ipbuf.offset + 26 = (A.length : Int) by omega) hzero,
    Option.bind_some]
  rw [show ∀ (x : UInt32) (M : PacketMem), (if dhcpMessageType o = dhcpack then pure (x, M)
      else pure (0, M) : Option (UInt32 × PacketMem)) =
      some (if dhcpMessageType o = dhcpack then x else 0, M) from fun x M => by split_ifs <;> rfl]
  exact ⟨_, rfl, ((((((ht₄.trans ht₅ (by omega) (by omega)).trans ht₆ (by omega) (by omega)).range
    (by omega) (by omega)).range (by omega) (by omega)).range (by omega) (by omega)).range
    (by omega) (by omega)).range (by omega) (by omega)⟩

variable {m : PacketMem}

/-- A DHCP reply from the server port to the client port with the option bytes `options`, as a
server at `10.8.0.2` broadcasts it; the IP and UDP length fields count the options. -/
def dhcpReplyPacket (options : List UInt8) : List UInt8 :=
  [0x45, 0] ++ encode 2 (268 + options.length) ++
    [0, 0, 0, 0, 64, 17, 0, 0, 10, 8, 0, 2, 255, 255, 255, 255] ++
    [0, 67, 0, 68] ++ encode 2 (248 + options.length) ++ [0, 0] ++
    (2 :: List.replicate 235 0 ++ [0x63, 0x82, 0x53, 0x63]) ++ options

/-- The options of a DHCPACK that offers the router `10.8.0.1`. -/
def dhcpAckOptions : List UInt8 := [53, 1, 5, 3, 4, 10, 8, 0, 1, 255]

/-- That DHCPACK, and the buffer holding it. -/
def dhcpAckPacket : List UInt8 := dhcpReplyPacket dhcpAckOptions

def dhcpAckBuffer : Buffer := Buffer.ofBytes dhcpAckPacket

set_option maxRecDepth 4096 in
theorem dhcpAck_reply : BufBounded dhcpAckBuffer ∧
    dhcpAckBuffer.offset + dhcpAckBuffer.len ≤ dhcpAckPacket.length ∧
    IsDhcpReply dhcpAckPacket dhcpAckBuffer ∧ dhcpOptions dhcpAckPacket dhcpAckBuffer = dhcpAckOptions :=
  ⟨bufBounded_ofBytes (by decide), by decide, by decide, by decide⟩

theorem dhcpMessageType_ack : dhcpMessageType dhcpAckOptions = dhcpack := by
  rw [dhcpAckOptions, dhcpMessageType_msgType rfl]
  rfl

theorem isDhcpAckOrOffer_ack : IsDhcpAckOrOffer dhcpAckPacket dhcpAckBuffer :=
  ⟨dhcpAck_reply.2.2.1, .inl (by rw [dhcpAck_reply.2.2.2, dhcpMessageType_ack])⟩

/-- The message type is kept, the router option is padded out and its address found. -/
theorem doExtractList_ack :
    doExtractList dhcpAckOptions 0 = ([53, 1, 5, 255, 0, 0, 0, 0, 0, 0], 0x0a080001) := by
  have hend : doExtractList ([255, 0, 0, 0, 0, 0, 0] : List UInt8) 0x0a080001 =
      ([255, 0, 0, 0, 0, 0, 0], 0x0a080001) := doExtractList_end (by decide)
  have hrouter : doExtractList ([3, 4, 10, 8, 0, 1, 255] : List UInt8) 0 =
      ([255, 0, 0, 0, 0, 0, 0], 0x0a080001) := by
    rw [doExtractList_router (by decide) (by decide)]
    exact hend
  rw [dhcpAckOptions, doExtractList_other (by decide) (by decide) (by decide)]
  show Prod.map _ id (doExtractList [3, 4, 10, 8, 0, 1, 255] 0) = _
  rw [hrouter]
  rfl

/-- What `dhcp_extract_router_msg` does to a DHCPACK or DHCPOFFER in a bounded buffer inside the
memory. -/
theorem dhcpExtractRouterMsg_ackOrOffer (hb : BufBounded ipbuf)
    (hin : ipbuf.offset + ipbuf.len ≤ m.bytes.length) (hr : IsDhcpAckOrOffer m.bytes ipbuf) :
    ∃ m', dhcpExtractRouterMsg ipbuf m =
        some (if dhcpMessageType (dhcpOptions m.bytes ipbuf) = dhcpack then
          (doExtractList (dhcpOptions m.bytes ipbuf) 0).2 else 0, m') ∧
      dhcpOptions m'.bytes ipbuf = (doExtractList (dhcpOptions m.bytes ipbuf) 0).1 ∧
      fieldAt m'.bytes (ipbuf.offset + 28) sizeofDhcp = fieldAt m.bytes (ipbuf.offset + 28) sizeofDhcp ∧
      SameOutside m.bytes m'.bytes (ipbuf.offset + 26) (ipbuf.offset + bufLen ipbuf) ∧
      TouchedIn m.touched m'.touched ipbuf.offset (ipbuf.offset + bufLen ipbuf) := by
  obtain ⟨bytes, touched⟩ := m
  simp only at hin hr ⊢
  obtain ⟨t', heq, ht'⟩ := dhcpExtractRouterMsg_reply touched hb hin hr.1 hr.2
  have hl := DhcpLayout.of_reply hb hin hr.1
  have hE := BigEndian.length_encode 2
    (dhcpChecksum bytes ipbuf (doExtractList (dhcpOptions bytes ipbuf) 0).1)
  have ho' := length_doExtractList (dhcpOptions bytes ipbuf) 0
  exact ⟨_, heq, hl.dhcpOptions_dhcpSplice hE ho', hl.fieldAt_dhcpSplice_dhcp hE,
    hl.sameOutside_dhcpSplice hE ho', ht'⟩

/-- `dhcp_extract_router_msg` on a DHCPACK from the server port to the client port, in
a bounded buffer inside the memory: it does not fault and accesses the packet only; the options
become the window `do_extract` leaves, `struct dhcp` and every byte outside `udp.check` and the
message are kept, and the address `do_extract` found is returned for a DHCPACK only. -/
theorem dhcp_extract_router_msg_strips (hb : BufBounded ipbuf)
    (hin : ipbuf.offset + ipbuf.len ≤ m.bytes.length) (hr : IsDhcpAckOrOffer m.bytes ipbuf) :
    ∃ m', dhcpExtractRouterMsg ipbuf m =
        some (if dhcpMessageType (dhcpOptions m.bytes ipbuf) = dhcpack then
          (doExtractList (dhcpOptions m.bytes ipbuf) 0).2 else 0, m') ∧
      dhcpOptions m'.bytes ipbuf = (doExtractList (dhcpOptions m.bytes ipbuf) 0).1 ∧
      fieldAt m'.bytes (ipbuf.offset + 28) sizeofDhcp = fieldAt m.bytes (ipbuf.offset + 28) sizeofDhcp ∧
      SameOutside m.bytes m'.bytes (ipbuf.offset + 26) (ipbuf.offset + bufLen ipbuf) ∧
      TouchedIn m.touched m'.touched ipbuf.offset (ipbuf.offset + bufLen ipbuf) :=
  dhcpExtractRouterMsg_ackOrOffer hb hin hr

/-- Of the DHCPACK, `10.8.0.1` is returned and the options keep the message type only. -/
theorem dhcp_extract_router_msg_strips_ack :
    BufBounded dhcpAckBuffer ∧ dhcpAckBuffer.offset + dhcpAckBuffer.len ≤ dhcpAckPacket.length ∧
      IsDhcpAckOrOffer dhcpAckPacket dhcpAckBuffer ∧
      ∃ m', dhcpExtractRouterMsg dhcpAckBuffer ⟨dhcpAckPacket, []⟩ = some (0x0a080001, m') ∧
        dhcpOptions m'.bytes dhcpAckBuffer = [53, 1, 5, 255, 0, 0, 0, 0, 0, 0] := by
  obtain ⟨hb, hin, -, hopt⟩ := dhcpAck_reply
  obtain ⟨m', hm', hopt', -⟩ :=
    dhcp_extract_router_msg_strips (m := ⟨dhcpAckPacket, []⟩) hb hin isDhcpAckOrOffer_ack
  simp only [hopt, dhcpMessageType_ack, doExtractList_ack, if_pos] at hm' hopt'
  exact ⟨hb, hin, isDhcpAckOrOffer_ack, m', hm', hopt'⟩

/-- After `dhcp_extract_router_msg` has rewritten a DHCPACK or DHCPOFFER, its UDP checksum verifies:
the one's complement sum of the pseudo-header (the two addresses, the length and the protocol) and
of the UDP segment, check field included, is `0`. This holds for a segment shorter than `2 ^ 16`
bytes, as the segment of an IPv4 packet is. -/
theorem dhcp_extract_router_msg_checksum_valid (hb : BufBounded ipbuf)
    (hin : ipbuf.offset + ipbuf.len ≤ m.bytes.length) (hr : IsDhcpAckOrOffer m.bytes ipbuf)
    (hL : bufLen ipbuf - sizeofIphdr < 2 ^ 16) :
    ∃ ret m', dhcpExtractRouterMsg ipbuf m = some (ret, m') ∧
      (wordSum (fieldAt m'.bytes (ipbuf.offset + sizeofIphdr) (bufLen ipbuf - sizeofIphdr).toNat) +
          addrSum m'.bytes ipbuf.offset + (bufLen ipbuf - sizeofIphdr).toNat + openvpnIpprotoUdp) %
        0xffff = 0 := by
  obtain ⟨bytes, touched⟩ := m
  simp only at hin hr ⊢
  obtain ⟨t', heq, -⟩ := dhcpExtractRouterMsg_reply touched hb hin hr.1 hr.2
  have hl := DhcpLayout.of_reply hb hin hr.1
  have h₀ := hl.offset_nonneg
  have h268 := hl.room
  have hs := sizeof_dhcpFull
  set o' := (doExtractList (dhcpOptions bytes ipbuf) 0).1 with ho'def
  have hE := BigEndian.length_encode 2 (dhcpChecksum bytes ipbuf o')
  have ho' : o'.length = (dhcpOptions bytes ipbuf).length := length_doExtractList _ 0
  have hsame := hl.sameOutside_dhcpSplice hE ho'
  refine ⟨_, _, heq, ?_⟩
  dsimp only
  -- the segment is the header words before the check field, the new check field and the rest
  rw [hl.fieldAt_dhcpSplice_segment hE ho', addrSum, hsame.fieldAt_eq (by omega) (.inl (by omega)),
    hsame.fieldAt_eq (by omega) (.inl (by omega))]
  have hW : (fieldAt bytes (ipbuf.offset + 20) 6).length = 6 :=
    length_fieldAt (by omega) (by have := hl.inside; omega)
  have hR : (((fieldAt bytes (ipbuf.offset + 28) sizeofDhcp ++ o').length : Nat) : Int) =
      bufLen ipbuf - 28 := by
    have hO := hl.length_dhcpOptions
    rw [List.length_append, hl.length_dhcpDhcp, ho']
    omega
  have key := ipChecksum_verifies (R := fieldAt bytes (ipbuf.offset + 28) sizeofDhcp ++ o')
    (by rw [hW]; decide)
    (show (fieldAt bytes (ipbuf.offset + 12) 4).length = 4 from
      length_fieldAt (by omega) (by have := hl.inside; omega))
    (show (fieldAt bytes (ipbuf.offset + 16) 4).length = 4 from
      length_fieldAt (by omega) (by have := hl.inside; omega))
    (show bufLen ipbuf - sizeofIphdr = (((fieldAt bytes (ipbuf.offset + 20) 6).length : Nat) : Int) + 2 +
      (((fieldAt bytes (ipbuf.offset + 28) sizeofDhcp ++ o').length : Nat) : Int) by rw [hW]; omega)
    hL (show openvpnIpprotoUdp < 2 ^ 16 by decide)
  simp only [dhcpChecksum, List.append_assoc] at key ⊢
  omega

set_option maxRecDepth 4096 in
/-- The rewritten DHCPACK carries a checksum that verifies. -/
theorem dhcp_extract_router_msg_checksum_valid_ack :
    BufBounded dhcpAckBuffer ∧ dhcpAckBuffer.offset + dhcpAckBuffer.len ≤ dhcpAckPacket.length ∧
      IsDhcpAckOrOffer dhcpAckPacket dhcpAckBuffer ∧ bufLen dhcpAckBuffer - sizeofIphdr < 2 ^ 16 ∧
      ∃ ret m', dhcpExtractRouterMsg dhcpAckBuffer ⟨dhcpAckPacket, []⟩ = some (ret, m') ∧
        (wordSum (fieldAt m'.bytes (dhcpAckBuffer.offset + sizeofIphdr)
              (bufLen dhcpAckBuffer - sizeofIphdr).toNat) +
            addrSum m'.bytes dhcpAckBuffer.offset + (bufLen dhcpAckBuffer - sizeofIphdr).toNat +
            openvpnIpprotoUdp) % 0xffff = 0 := by
  obtain ⟨hb, hin, -, -⟩ := dhcpAck_reply
  have hL : bufLen dhcpAckBuffer - sizeofIphdr < 2 ^ 16 := by decide
  exact ⟨hb, hin, isDhcpAckOrOffer_ack, hL,
    dhcp_extract_router_msg_checksum_valid (m := ⟨dhcpAckPacket, []⟩) hb hin isDhcpAckOrOffer_ack hL⟩

/-- A DHCPNAK, and the buffer holding it. -/
def dhcpNakPacket : List UInt8 := dhcpReplyPacket [53, 1, 6, 255]

def dhcpNakBuffer : Buffer := Buffer.ofBytes dhcpNakPacket

set_option maxRecDepth 4096 in
theorem dhcpNak_reply : BufBounded dhcpNakBuffer ∧
    dhcpNakBuffer.offset + dhcpNakBuffer.len ≤ dhcpNakPacket.length ∧
    dhcpOptions dhcpNakPacket dhcpNakBuffer = [53, 1, 6, 255] :=
  ⟨bufBounded_ofBytes (by decide), by decide, by decide⟩

/-- `dhcp_extract_router_msg` on a packet in a bounded buffer inside the memory that is not a
DHCPACK or DHCPOFFER from the server port to the client port: it does not fault, reads the packet
only, changes no byte and returns no address. -/
theorem dhcp_extract_router_msg_ignores (hb : BufBounded ipbuf)
    (hin : ipbuf.offset + ipbuf.len ≤ m.bytes.length) (hn : ¬IsDhcpAckOrOffer m.bytes ipbuf) :
    ∃ m', dhcpExtractRouterMsg ipbuf m = some (0, m') ∧ m'.bytes = m.bytes ∧
      TouchedIn m.touched m'.touched ipbuf.offset (ipbuf.offset + bufLen ipbuf) := by
  obtain ⟨bytes, touched⟩ := m
  simp only at hin hn ⊢
  have h₀ := hb.offset_nonneg
  have hlen := hb.bufLen_eq
  have hs := sizeof_dhcpFull
  unfold dhcpExtractRouterMsg
  by_cases hroom : bufLen ipbuf - (sizeofIphdr + sizeofUdphdr + sizeofDhcp) ≥ 0
  swap
  · -- too short for a DHCP message: nothing is read
    rw [if_neg hroom]
    exact ⟨_, rfl, rfl, TouchedIn.refl _ _ _⟩
  rw [if_pos hroom]
  simp only [hb.bufBptr_eq, Option.bind_eq_bind, Option.bind_some]
  rw [PacketMem.load_mk (by omega) (by omega), Option.bind_some]
  dsimp only
  have ht₁ := (TouchedIn.refl touched ipbuf.offset (ipbuf.offset + bufLen ipbuf)).range
    (a := ipbuf.offset + 9) (n := 1) (by omega) (by omega)
  by_cases hproto : decode (fieldAt bytes (ipbuf.offset + 9) 1) = openvpnIpprotoUdp
  swap
  · rw [if_neg hproto]
    exact ⟨_, rfl, rfl, ht₁⟩
  rw [if_pos hproto, PacketMem.load_mk (by omega) (by omega), Option.bind_some]
  dsimp only
  have ht₂ := ht₁.range (a := ipbuf.offset + 20) (n := 2) (by omega) (by omega)
  by_cases hsrc : decode (fieldAt bytes (ipbuf.offset + 20) 2) = bootpsPort
  swap
  · rw [if_neg hsrc]
    exact ⟨_, rfl, rfl, ht₂⟩
  rw [if_pos hsrc, PacketMem.load_mk (by omega) (by omega), Option.bind_some]
  dsimp only
  have ht₃ := ht₂.range (a := ipbuf.offset + 22) (n := 2) (by omega) (by omega)
  by_cases hdst : decode (fieldAt bytes (ipbuf.offset + 22) 2) = bootpcPort
  swap
  · rw [if_neg hdst]
    exact ⟨_, rfl, rfl, ht₃⟩
  rw [if_pos hdst, PacketMem.load_mk (by omega) (by omega), Option.bind_some]
  dsimp only
  have ht₄ := ht₃.range (a := ipbuf.offset + 28) (n := 1) (by omega) (by omega)
  by_cases hop : decode (fieldAt bytes (ipbuf.offset + 28) 1) = bootreply
  swap
  · rw [if_neg hop]
    exact ⟨_, rfl, rfl, ht₄⟩
  rw [if_pos hop]
  -- a BOOTREPLY of another message type: `get_dhcp_message_type` only reads
  have hnt : ¬(dhcpMessageType (dhcpOptions bytes ipbuf) = dhcpack ∨
      dhcpMessageType (dhcpOptions bytes ipbuf) = dhcpoffer) :=
    fun ht => hn ⟨⟨by omega, hproto, hsrc, hdst, hop⟩, ht⟩
  have hsplit : bytes = bytes.take (ipbuf.offset + (sizeofIphdr + sizeofUdphdr + sizeofDhcp)).toNat ++
      dhcpOptions bytes ipbuf ++ bytes.drop ((ipbuf.offset + (sizeofIphdr + sizeofUdphdr +
        sizeofDhcp)).toNat + (bufLen ipbuf - (sizeofIphdr + sizeofUdphdr + sizeofDhcp)).toNat) :=
    eq_take_fieldAt_drop
  obtain ⟨t₅, hmt, ht₅⟩ := getDhcpMessageTypeLoop_spec (p := ipbuf.offset + 28 + sizeofDhcp) 0
    (bytes.take (ipbuf.offset + (sizeofIphdr + sizeofUdphdr + sizeofDhcp)).toNat)
    (dhcpOptions bytes ipbuf) (bytes.drop ((ipbuf.offset + (sizeofIphdr + sizeofUdphdr +
        sizeofDhcp)).toNat + (bufLen ipbuf - (sizeofIphdr + sizeofUdphdr + sizeofDhcp)).toNat))
    (touched ++ List.map (fun k : Nat => ipbuf.offset + 9 + k) (List.range 1) ++
      List.map (fun k : Nat => ipbuf.offset + 20 + k) (List.range 2) ++
      List.map (fun k : Nat => ipbuf.offset + 22 + k) (List.range 2) ++
      List.map (fun k : Nat => ipbuf.offset + 28 + k) (List.range 1))
    (by simp only [List.length_take]; omega)
    (show ((dhcpOptions bytes ipbuf).length : Int) =
      bufLen ipbuf - (sizeofIphdr + sizeofUdphdr + sizeofDhcp) - 0 by
      rw [dhcpOptions, length_fieldAt (by omega) (by omega)]
      omega)
  rw [← hsplit] at hmt
  rw [getDhcpMessageType, hmt, Option.bind_some]
  dsimp only
  rw [if_neg hnt]
  exact ⟨_, rfl, rfl, ht₄.trans ht₅ (by omega) (by omega)⟩

/-- The DHCPNAK, a BOOTREPLY of message type 6, is left as it is and gives no address. -/
theorem dhcp_extract_router_msg_ignores_nak :
    BufBounded dhcpNakBuffer ∧ dhcpNakBuffer.offset + dhcpNakBuffer.len ≤ dhcpNakPacket.length ∧
      ¬IsDhcpAckOrOffer dhcpNakPacket dhcpNakBuffer ∧
      ∃ m', dhcpExtractRouterMsg dhcpNakBuffer ⟨dhcpNakPacket, []⟩ = some (0, m') ∧
        m'.bytes = dhcpNakPacket := by
  obtain ⟨hb, hin, hopt⟩ := dhcpNak_reply
  have hnak : dhcpMessageType (dhcpOptions dhcpNakPacket dhcpNakBuffer) = 6 := by
    rw [hopt, dhcpMessageType_msgType rfl]
    rfl
  have hn : ¬IsDhcpAckOrOffer dhcpNakPacket dhcpNakBuffer := by
    intro h
    rcases h.2 with h | h <;> rw [hnak] at h <;> revert h <;> decide
  obtain ⟨m', hm', hbytes, -⟩ :=
    dhcp_extract_router_msg_ignores (m := ⟨dhcpNakPacket, []⟩) hb hin hn
  exact ⟨hb, hin, hn, m', hm', hbytes⟩

/-- `dhcp_extract_router_msg` on a DHCPACK or DHCPOFFER whose options are the whole options `os`
closed by `END`: the router options are taken out, the others are kept in order before the `END`,
and the field is filled up with `PAD`. A DHCPACK gives the first nonzero address of a router option
whose length is a nonzero multiple of 4, or `0`. -/
theorem dhcp_extract_router_msg_removes_routers (hb : BufBounded ipbuf)
    (hin : ipbuf.offset + ipbuf.len ≤ m.bytes.length) (hr : IsDhcpAckOrOffer m.bytes ipbuf)
    (os : List DhcpOption) (rest : List UInt8)
    (ho : dhcpOptions m.bytes ipbuf = dhcpOptionsBytes os ++ UInt8.ofNat dhcpEnd :: rest) :
    ∃ m', dhcpExtractRouterMsg ipbuf m =
        some (if dhcpMessageType (dhcpOptions m.bytes ipbuf) = dhcpack then
          ((os.filterMap DhcpOption.routerAddress).find? (· ≠ 0)).getD 0 else 0, m') ∧
      dhcpOptions m'.bytes ipbuf = dhcpOptionsBytes (os.filter fun o => !o.isRouter) ++
        UInt8.ofNat dhcpEnd :: rest ++ List.replicate (dhcpOptionsBytes (os.filter (·.isRouter))).length 0 := by
  obtain ⟨bytes, touched⟩ := m
  simp only at hin hr ho ⊢
  obtain ⟨t', heq, -⟩ := dhcpExtractRouterMsg_reply touched hb hin hr.1 hr.2
  have hl := DhcpLayout.of_reply hb hin hr.1
  have hE := BigEndian.length_encode 2
    (dhcpChecksum bytes ipbuf (doExtractList (dhcpOptions bytes ipbuf) 0).1)
  have ho' := length_doExtractList (dhcpOptions bytes ipbuf) 0
  have hopt := hl.dhcpOptions_dhcpSplice hE ho'
  -- the pass over the options is the one on whole options
  have hlist := do_extract_keeps_other_options os rest
  rw [← ho] at hlist
  rw [hlist] at heq hopt
  exact ⟨_, heq, hopt⟩

/-- The options of the DHCPACK as whole options: the message type, then the router. -/
def dhcpAckOptionList : List DhcpOption :=
  [.tlv ⟨53, [5], by decide, by decide, by decide⟩,
    .tlv ⟨3, [10, 8, 0, 1], by decide, by decide, by decide⟩]

/-- Of the DHCPACK the router option is taken out and its address returned. -/
theorem dhcp_extract_router_msg_removes_routers_ack :
    BufBounded dhcpAckBuffer ∧ dhcpAckBuffer.offset + dhcpAckBuffer.len ≤ dhcpAckPacket.length ∧
      IsDhcpAckOrOffer dhcpAckPacket dhcpAckBuffer ∧
      dhcpOptions dhcpAckPacket dhcpAckBuffer =
        dhcpOptionsBytes dhcpAckOptionList ++ UInt8.ofNat dhcpEnd :: [] ∧
      ∃ m', dhcpExtractRouterMsg dhcpAckBuffer ⟨dhcpAckPacket, []⟩ = some (0x0a080001, m') ∧
        dhcpOptions m'.bytes dhcpAckBuffer = [53, 1, 5, 255, 0, 0, 0, 0, 0, 0] := by
  obtain ⟨hb, hin, -, hopt⟩ := dhcpAck_reply
  have ho : dhcpOptions dhcpAckPacket dhcpAckBuffer =
      dhcpOptionsBytes dhcpAckOptionList ++ UInt8.ofNat dhcpEnd :: [] := by
    rw [hopt]
    rfl
  obtain ⟨m', hm', hopt'⟩ := dhcp_extract_router_msg_removes_routers (m := ⟨dhcpAckPacket, []⟩) hb hin
    isDhcpAckOrOffer_ack dhcpAckOptionList [] ho
  rw [hopt, dhcpMessageType_ack, if_pos rfl] at hm'
  exact ⟨hb, hin, isDhcpAckOrOffer_ack, ho, m', hm', hopt'⟩

/-- A DHCPACK or DHCPOFFER that `dhcp_extract_router_msg` has rewritten is one still, of the same
message type, and a second call leaves it byte for byte as it is and returns no address. -/
theorem dhcp_extract_router_msg_idempotent (hb : BufBounded ipbuf)
    (hin : ipbuf.offset + ipbuf.len ≤ m.bytes.length) (hr : IsDhcpAckOrOffer m.bytes ipbuf) :
    ∃ ret m₁ m₂, dhcpExtractRouterMsg ipbuf m = some (ret, m₁) ∧ IsDhcpAckOrOffer m₁.bytes ipbuf ∧
      dhcpMessageType (dhcpOptions m₁.bytes ipbuf) = dhcpMessageType (dhcpOptions m.bytes ipbuf) ∧
      dhcpExtractRouterMsg ipbuf m₁ = some (0, m₂) ∧ m₂.bytes = m₁.bytes := by
  obtain ⟨bytes, touched⟩ := m
  simp only at hin hr ⊢
  obtain ⟨t₁, h₁, -⟩ := dhcpExtractRouterMsg_reply touched hb hin hr.1 hr.2
  have hl := DhcpLayout.of_reply hb hin hr.1
  have h₀ := hl.offset_nonneg
  set o := dhcpOptions bytes ipbuf with ho
  set o' := (doExtractList o 0).1 with ho'def
  set E := encode 2 (dhcpChecksum bytes ipbuf o') with hEdef
  have hE : E.length = 2 := BigEndian.length_encode 2 _
  have ho' : o'.length = o.length := length_doExtractList o 0
  have hsame := hl.sameOutside_dhcpSplice hE ho'
  -- the header fields are kept, `op` with `struct dhcp`, and the message type with the options
  have hopt : dhcpOptions (dhcpSplice bytes ipbuf E o') ipbuf = o' := hl.dhcpOptions_dhcpSplice hE ho'
  have hmt : dhcpMessageType o' = dhcpMessageType o :=
    dhcpMessageType_doExtractList o 0 (by rcases hr.2 with h | h <;> rw [h] <;> decide)
  have hop : fieldAt (dhcpSplice bytes ipbuf E o') (ipbuf.offset + 28) 1 =
      fieldAt bytes (ipbuf.offset + 28) 1 := by
    rw [← fieldAt_take (show 1 ≤ sizeofDhcp by decide), hl.fieldAt_dhcpSplice_dhcp hE,
      fieldAt_take (show 1 ≤ sizeofDhcp by decide)]
  have hr₁ : IsDhcpAckOrOffer (dhcpSplice bytes ipbuf E o') ipbuf := by
    refine ⟨⟨hr.1.1, ?_, ?_, ?_, ?_⟩, ?_⟩
    · rw [hsame.fieldAt_eq (by omega) (.inl (by omega))]; exact hr.1.2.1
    · rw [hsame.fieldAt_eq (by omega) (.inl (by omega))]; exact hr.1.2.2.1
    · rw [hsame.fieldAt_eq (by omega) (.inl (by omega))]; exact hr.1.2.2.2.1
    · rw [hop]; exact hr.1.2.2.2.2
    · rw [hopt, hmt]; exact hr.2
  have hin₁ : ipbuf.offset + ipbuf.len ≤ (dhcpSplice bytes ipbuf E o').length := by
    rw [hl.length_dhcpSplice hE ho']
    exact hin
  obtain ⟨t₂, h₂, -⟩ := dhcpExtractRouterMsg_reply t₁ hb hin₁ hr₁.1 hr₁.2
  -- the second pass finds no router option, so the checksum is the one already in place
  have hst : doExtractList o' 0 = (o', 0) := doExtractList_stable o 0 0
  rw [hopt, hst, hl.dhcpChecksum_dhcpSplice hE ho', hl.dhcpSplice_dhcpSplice hE ho'] at h₂
  have h₂' : dhcpExtractRouterMsg ipbuf ⟨dhcpSplice bytes ipbuf E o', t₁⟩ =
      some (0, ⟨dhcpSplice bytes ipbuf E o', t₂⟩) := by
    rw [h₂]
    dsimp only
    rw [ite_self]
  exact ⟨_, _, _, h₁, hr₁, by rw [hopt, hmt], h₂', rfl⟩

/-- The rewritten DHCPACK is a DHCPACK still, and the second call leaves it as it is. -/
theorem dhcp_extract_router_msg_idempotent_ack :
    BufBounded dhcpAckBuffer ∧ dhcpAckBuffer.offset + dhcpAckBuffer.len ≤ dhcpAckPacket.length ∧
      IsDhcpAckOrOffer dhcpAckPacket dhcpAckBuffer ∧
      ∃ ret m₁ m₂, dhcpExtractRouterMsg dhcpAckBuffer ⟨dhcpAckPacket, []⟩ = some (ret, m₁) ∧
        IsDhcpAckOrOffer m₁.bytes dhcpAckBuffer ∧
        dhcpMessageType (dhcpOptions m₁.bytes dhcpAckBuffer) =
          dhcpMessageType (dhcpOptions dhcpAckPacket dhcpAckBuffer) ∧
        dhcpExtractRouterMsg dhcpAckBuffer m₁ = some (0, m₂) ∧ m₂.bytes = m₁.bytes := by
  obtain ⟨hb, hin, -, -⟩ := dhcpAck_reply
  exact ⟨hb, hin, isDhcpAckOrOffer_ack,
    dhcp_extract_router_msg_idempotent (m := ⟨dhcpAckPacket, []⟩) hb hin isDhcpAckOrOffer_ack⟩

end Extract

end OpenVpn
