import OpenVpn.Fragment

/-! Fragmentation round trip, `fragment_outgoing` against `fragment_incoming`. A datagram longer
than `max_fragment_size` leaves as `⌈len / size⌉` parts of `optimal_fragment_size` bytes. The
receiver's slot for their sequence id collects them in any order, its map records each, and the
datagram comes back on the last part to arrive, byte for byte, while every other call empties its
buffer. This needs the slot to start afresh on the first part: a slot still holding a partial
reassembly of the same sequence id and part size (the sequence id wraps after 256 fragmented
datagrams, and only the TTL reaps a slot) is completed by the new parts with its stale bytes. -/

namespace OpenVpn

/-! ## What the sender sends -/

/-- The number of parts of `size` bytes a datagram of `len` bytes needs. -/
def fragmentCount (len size : Nat) : Nat := (len + size - 1) / size

/-- Part `k` of the datagram: `size` bytes from `k * size`, fewer for the last. -/
def fragmentPart (D : List UInt8) (size k : Nat) : List UInt8 := (D.drop (k * size)).take size

/-- The packet of part `k`, behind the header `fragment_ready_to_send` prepends. -/
def fragmentPacket (D : List UInt8) (seqId size k : Nat) : List UInt8 :=
  fragmentPrependFlags (fragmentPart D size k)
    (if D.length ≤ (k + 1) * size then fragYesLast else fragYesNotlast) seqId k size

theorem lt_fragmentCount_iff {len size k : Nat} (hs : 0 < size) :
    k < fragmentCount len size ↔ k * size < len := by
  rw [fragmentCount, ← Nat.add_one_le_iff, Nat.le_div_iff_mul_le hs, Nat.add_mul, Nat.one_mul]
  omega

theorem length_fragmentPart (D : List UInt8) (size k : Nat) :
    (fragmentPart D size k).length = min size (D.length - k * size) := by
  rw [fragmentPart, List.length_take, List.length_drop]

theorem getElem?_fragmentPart (D : List UInt8) (size k j : Nat) :
    (fragmentPart D size k)[j]? = if j < size then D[k * size + j]? else none := by
  rw [fragmentPart, List.getElem?_take, List.getElem?_drop]

theorem optimalFragmentSize_spec (len : Nat) {maxFragSize : Nat} (hM : 4 ≤ maxFragSize) :
    4 ≤ optimalFragmentSize len maxFragSize ∧ optimalFragmentSize len maxFragSize ≤ maxFragSize ∧
      optimalFragmentSize len maxFragSize % 4 = 0 := by
  unfold optimalFragmentSize fragSizeRoundMask
  dsimp only
  split_ifs with h
  · -- the rounded size is at least `max_frag_size / 2 + 3`, rounded down to a multiple of four
    have hq : (maxFragSize - len % (maxFragSize / 4 * 4)) / (len / (maxFragSize / 4 * 4) + 1) ≤
        maxFragSize / 2 := by
      apply Nat.div_le_of_le_mul
      have : 2 * (maxFragSize / 2) ≤ (len / (maxFragSize / 4 * 4) + 1) * (maxFragSize / 2) :=
        Nat.mul_le_mul_right _ (by omega)
      omega
    refine ⟨le_min (by omega) (by omega), by omega, ?_⟩
    rcases min_choice (maxFragSize / 4 * 4) ((maxFragSize - (maxFragSize - len % (maxFragSize / 4 * 4)) /
      (len / (maxFragSize / 4 * 4) + 1) + 3) / 4 * 4) with hmin | hmin <;> rw [hmin] <;> omega
  · omega

/-- A part size with `k` parts short of `len` bytes and `k + 1` parts enough gives `k + 1` parts. -/
theorem fragmentCount_eq_succ {len f k : Nat} (hf : 0 < f) (hlt : k * f < len)
    (hle : len ≤ (k + 1) * f) : fragmentCount len f = k + 1 := by
  have h₁ : k < fragmentCount len f := (lt_fragmentCount_iff hf).mpr hlt
  have h₂ : ¬k + 1 < fragmentCount len f := fun h => absurd ((lt_fragmentCount_iff hf).mp h) (by omega)
  omega

theorem optimalFragmentSize_le_aligned (len maxFragSize : Nat) :
    optimalFragmentSize len maxFragSize ≤ maxFragSize / 4 * 4 := by
  unfold optimalFragmentSize
  dsimp only
  split_ifs <;> omega

/-- One part more than `len / mfs_aligned` of the size `optimal_fragment_size` returns still
covers the datagram. -/
theorem le_succ_mul_optimalFragmentSize {len maxFragSize : Nat} (h4 : 4 ≤ maxFragSize) :
    len ≤ (len / (maxFragSize / 4 * 4) + 1) * optimalFragmentSize len maxFragSize := by
  set M := maxFragSize / 4 * 4 with hM
  have hM4 : 4 ≤ M := by omega
  have hlen : len / M * M + len % M = len := Nat.div_add_mod' len M
  have hr : len % M < M := Nat.mod_lt len (by omega)
  -- `len / M + 1` parts of `M` bytes are more than `len`
  have hcoverM : len ≤ (len / M + 1) * M := by
    rw [Nat.mul_comm]
    exact (Nat.lt_mul_div_succ len (by omega)).le
  unfold optimalFragmentSize fragSizeRoundMask
  dsimp only
  rw [← hM]
  split_ifs with h
  · set d := len / M
    set r := len % M
    set q := (maxFragSize - r) / (d + 1)
    have hq : (d + 1) * q ≤ maxFragSize - r := Nat.mul_div_le (maxFragSize - r) (d + 1)
    have hdM : d * M ≤ d * maxFragSize := Nat.mul_le_mul_left d (by omega)
    -- `d + 1` parts of `max_frag_size - q` bytes cover `len`, and rounding up keeps them so
    have hcover : len ≤ (d + 1) * (maxFragSize - q) := by
      calc len = d * M + r := hlen.symm
        _ ≤ d * maxFragSize + r := by omega
        _ = (d + 1) * maxFragSize - (maxFragSize - r) := by rw [Nat.succ_mul]; omega
        _ ≤ (d + 1) * maxFragSize - (d + 1) * q := by omega
        _ = (d + 1) * (maxFragSize - q) := (Nat.mul_sub_left_distrib (d + 1) maxFragSize q).symm
    have hround : (d + 1) * (maxFragSize - q) ≤ (d + 1) * ((maxFragSize - q + 3) / 4 * 4) :=
      Nat.mul_le_mul_left (d + 1) (by omega)
    rcases min_choice M ((maxFragSize - q + 3) / 4 * 4) with hmin | hmin <;> rw [hmin] <;> omega
  · exact hcoverM

/-- The size `optimal_fragment_size` returns needs as many parts as `max_frag_size & ~3`. -/
theorem fragmentCount_optimalFragmentSize {len maxFragSize : Nat} (h4 : 4 ≤ maxFragSize) :
    fragmentCount len (optimalFragmentSize len maxFragSize) = fragmentCount len (maxFragSize / 4 * 4) := by
  set M := maxFragSize / 4 * 4 with hM
  have hlen : len / M * M + len % M = len := Nat.div_add_mod' len M
  have hr : len % M < M := Nat.mod_lt len (by omega)
  by_cases h₀ : len % M = 0
  · -- without a remainder the rebalancing branch is not taken
    have hf : optimalFragmentSize len maxFragSize = M := by
      unfold optimalFragmentSize
      dsimp only
      rw [← hM, if_neg (by omega)]
    rw [hf]
  · have hpos : 0 < optimalFragmentSize len maxFragSize := by
      have := (optimalFragmentSize_spec len h4).1
      omega
    have hlt : len / M * optimalFragmentSize len maxFragSize < len :=
      calc len / M * optimalFragmentSize len maxFragSize
          ≤ len / M * M := Nat.mul_le_mul_left _ (optimalFragmentSize_le_aligned len maxFragSize)
        _ < len := by omega
    have hcoverM : len ≤ (len / M + 1) * M := by
      rw [Nat.mul_comm]
      exact (Nat.lt_mul_div_succ len (by omega)).le
    rw [fragmentCount_eq_succ hpos hlt (le_succ_mul_optimalFragmentSize h4),
      fragmentCount_eq_succ (by omega) (by omega) hcoverM]

/-- Below `BUF_SIZE_MAX` no expression of `optimal_fragment_size` divides by zero or leaves `int`,
and the function returns what it does on natural numbers. -/
theorem optimalFragmentSizeC_eq {len maxFragSize : Nat} (h4 : 4 ≤ maxFragSize)
    (hlen : (len : Int) < bufSizeMax) (hm : (maxFragSize : Int) < bufSizeMax) :
    optimalFragmentSizeC len maxFragSize = some (optimalFragmentSize len maxFragSize : Int) := by
  have hlen' : len < 1000000 := by simp only [bufSizeMax] at hlen; omega
  have hm' : maxFragSize < 1000000 := by simp only [bufSizeMax] at hm; omega
  have hmask : Int.land (maxFragSize : Int) (Int.lnot (fragSizeRoundMask : Int)) =
      ((maxFragSize / 4 * 4 : Nat) : Int) := CArith.land_lnot_two_pow_sub_one maxFragSize 2
  unfold optimalFragmentSizeC optimalFragmentSize
  rw [hmask]
  set M := maxFragSize / 4 * 4 with hM
  dsimp only
  rw [CArith.div_natCast (by omega) (by omega), CArith.mod_natCast (by omega) (by omega)]
  simp only [Option.bind_eq_bind, Option.bind_some]
  have hdle : len / M ≤ len := Nat.div_le_self len M
  have hqle : (maxFragSize - len % M) / (len / M + 1) ≤ maxFragSize :=
    Nat.le_trans (Nat.div_le_self _ _) (Nat.sub_le _ _)
  by_cases hc : 0 < len / M ∧ 0 < len % M
  · -- the threshold `mfs_aligned * 3 / 4`
    have hmul : CArith.mul (M : Int) 3 = some ((M * 3 : Nat) : Int) :=
      CArith.mul_natCast (b := 3) (by omega)
    have hthreshold : CArith.div ((M * 3 : Nat) : Int) 4 = some ((M * 3 / 4 : Nat) : Int) :=
      CArith.div_natCast (b := 4) (by omega) (by omega)
    rw [if_pos (by omega), hmul, Option.bind_some, hthreshold, Option.bind_some]
    by_cases ht : len % M < M * 3 / 4
    · have hdiv : CArith.add ((len / M : Nat) : Int) 1 = some ((len / M + 1 : Nat) : Int) :=
        CArith.add_natCast (b := 1) (by omega)
      rw [if_pos (by omega), CArith.sub_natCast (by omega) (by omega), Option.bind_some, hdiv,
        Option.bind_some, CArith.div_natCast (by omega) (by omega), Option.bind_some]
      generalize (maxFragSize - len % M) / (len / M + 1) = q at hqle ⊢
      have hsize : maxFragSize - q + fragSizeRoundMask < 2 ^ 31 := by
        simp only [fragSizeRoundMask]
        omega
      have hround : Int.land ((maxFragSize - q + fragSizeRoundMask : Nat) : Int)
          (Int.lnot (fragSizeRoundMask : Int)) =
          (((maxFragSize - q + fragSizeRoundMask) / 4 * 4 : Nat) : Int) :=
        CArith.land_lnot_two_pow_sub_one _ 2
      rw [CArith.sub_natCast hqle (by omega), Option.bind_some,
        CArith.add_natCast hsize, Option.bind_some, hround,
        if_pos ⟨hc.1, hc.2, ht⟩]
      exact congrArg some (by omega)
    · rw [if_neg (by omega), if_neg (by omega)]
      rfl
  · rw [if_neg (by omega), if_neg (by omega)]
    rfl

/-- `optimal_fragment_size` of a datagram longer than `max_frag_size`: a positive multiple of four,
no more than `max_frag_size & ~3` and with as many parts as that size; below `BUF_SIZE_MAX` its C
expressions neither divide by zero nor leave `int`. -/
theorem optimal_fragment_size_keeps_count {len maxFragSize : Nat} (h4 : 4 ≤ maxFragSize)
    (hlen : maxFragSize < len) :
    optimalFragmentSize len maxFragSize % 4 = 0 ∧ 0 < optimalFragmentSize len maxFragSize ∧
      optimalFragmentSize len maxFragSize ≤ maxFragSize / 4 * 4 ∧
      fragmentCount len (optimalFragmentSize len maxFragSize) =
        fragmentCount len (maxFragSize / 4 * 4) ∧
      ((len : Int) < bufSizeMax →
        optimalFragmentSizeC len maxFragSize = some (optimalFragmentSize len maxFragSize : Int)) := by
  obtain ⟨h4f, -, hmod⟩ := optimalFragmentSize_spec len h4
  refine ⟨hmod, by omega, optimalFragmentSize_le_aligned len maxFragSize,
    fragmentCount_optimalFragmentSize h4, fun hb => optimalFragmentSizeC_eq h4 hb ?_⟩
  omega

/-- A datagram of 1000 bytes under a `max_frag_size` of 300 leaves as four parts of 252 bytes
(the last 244) instead of three of 300 and one of 100. -/
theorem optimal_fragment_size_keeps_count_at_1000 :
    optimalFragmentSize 1000 300 = 252 ∧ fragmentCount 1000 300 = 4 ∧
      (optimalFragmentSize 1000 300 % 4 = 0 ∧ 0 < optimalFragmentSize 1000 300 ∧
        optimalFragmentSize 1000 300 ≤ 300 / 4 * 4 ∧
        fragmentCount 1000 (optimalFragmentSize 1000 300) = fragmentCount 1000 (300 / 4 * 4) ∧
        (((1000 : Nat) : Int) < bufSizeMax →
          optimalFragmentSizeC (1000 : Nat) (300 : Nat) = some (optimalFragmentSize 1000 300 : Int))) :=
  ⟨by decide, by decide, optimal_fragment_size_keeps_count (by decide) (by decide)⟩

/-- One call of `fragment_ready_to_send` while part `k` is next. -/
theorem fragmentReadyToSend_part {f : FragmentOut} {D : List UInt8} {s k : Nat} (hsize : f.outgoingFragSize = s)
    (hk : k * s < D.length) (hout : f.outgoing = D.drop (k * s)) (hid : f.outgoingFragId = k) :
    fragmentReadyToSend f = some ({ f with
      outgoing := D.drop ((k + 1) * s)
      outgoingFragId := k + 1 }, fragmentPacket D f.outgoingSeqId.toNat s k) := by
  obtain ⟨seqId, size, fragId, outgoing⟩ := f
  dsimp only at hsize hout hid
  subst size fragId outgoing
  have hlen : (D.drop (k * s)).length = D.length - k * s := List.length_drop
  have hsucc : (k + 1) * s = k * s + s := Nat.succ_mul k s
  unfold fragmentReadyToSend fragmentPacket fragmentPart
  dsimp only
  rw [if_pos (by omega)]
  by_cases hlast : D.length ≤ (k + 1) * s
  · have hdec : decide ((D.drop (k * s)).length ≤ s) = true := decide_eq_true (by omega)
    have htake : (D.drop (k * s)).take s = D.drop (k * s) := List.take_of_length_le (by omega)
    simp only [hdec, if_true, if_pos hlast, htake, List.take_length, List.drop_length,
      List.drop_eq_nil_of_le (show D.length ≤ (k + 1) * s from hlast)]
  · have hdec : decide ((D.drop (k * s)).length ≤ s) = false := decide_eq_false (by omega)
    simp only [hdec, Bool.false_eq_true, if_false, List.drop_drop, hsucc]
    rw [if_neg (show ¬D.length ≤ k * s + s by omega)]

/-- The calls of `fragment_ready_to_send` from part `k` on send the remaining parts in order and
empty the outgoing buffer. -/
theorem fragmentReadyToSendRun_parts {D : List UInt8} {s : Nat} (hs : 0 < s) (fuel : Nat) :
    ∀ (k : Nat) (f : FragmentOut), f.outgoingFragSize = s → f.outgoing = D.drop (k * s) →
      f.outgoingFragId = k → fragmentCount D.length s ≤ k + fuel →
      (fragmentReadyToSendRun f fuel).1 =
          (List.range' k (fragmentCount D.length s - k)).map (fragmentPacket D f.outgoingSeqId.toNat s) ∧
        (fragmentReadyToSendRun f fuel).2.outgoing = [] := by
  induction fuel with
  | zero =>
      intro k f _ hout _ hfuel
      have hL : D.length ≤ k * s := not_lt.mp fun h => by
        have := (lt_fragmentCount_iff hs).mpr h
        omega
      simp [fragmentReadyToSendRun, hout, List.drop_eq_nil_of_le hL,
        show fragmentCount D.length s - k = 0 by omega]
  | succ fuel ih =>
      intro k f hsize hout hid hfuel
      by_cases hk : k * s < D.length
      · have hcount := (lt_fragmentCount_iff hs).mpr hk
        obtain ⟨h₁, h₂⟩ := ih (k + 1) { f with
          outgoing := D.drop ((k + 1) * s)
          outgoingFragId := k + 1 } hsize rfl rfl (by omega)
        rw [fragmentReadyToSendRun, fragmentReadyToSend_part hsize hk hout hid]
        refine ⟨?_, h₂⟩
        rw [show fragmentCount D.length s - k = (fragmentCount D.length s - (k + 1)) + 1 by omega,
          List.range'_succ, List.map_cons]
        exact congrArg _ h₁
      · have hnil : f.outgoing = [] := by rw [hout, List.drop_eq_nil_of_le (by omega)]
        have hcount : fragmentCount D.length s ≤ k := not_lt.mp fun h => hk ((lt_fragmentCount_iff hs).mp h)
        simp [fragmentReadyToSendRun, fragmentReadyToSend, hnil, Nat.sub_eq_zero_of_le hcount]

theorem moduloAdd_one_eq_some {x m z : Int} (h : moduloAdd x 1 m = some z) :
    0 ≤ x ∧ x < m ∧ z = (x + 1) % m := by
  have hx : 0 ≤ x ∧ x < m := by
    unfold moduloAdd at h
    split_ifs at h with hc
    exact ⟨hc.1, hc.2.1⟩
  rw [moduloAdd_one hx, Option.some_inj] at h
  exact ⟨hx.1, hx.2, h.symm⟩

/-- A datagram `fragment_outgoing` fragments and does not drop leaves as the packets of its parts,
under the next sequence id, and the outgoing buffer is empty after the last. -/
theorem fragmentOutgoing_parts {f f₁ : FragmentOut} {D first : List UInt8} {M : Nat} (hM : 4 ≤ M)
    (hlong : M < D.length) (hout : fragmentOutgoing f D M = some (f₁, first)) (hfirst : first ≠ []) :
    f₁.outgoingSeqId = (f.outgoingSeqId + 1) % nSeqId ∧ 0 ≤ f₁.outgoingSeqId ∧ f₁.outgoingSeqId < nSeqId ∧
      f₁.outgoingFragSize = optimalFragmentSize D.length M ∧ D.length ≤ f₁.outgoingFragSize * maxFrags ∧
      first :: (fragmentReadyToSendRun f₁ maxFrags).1 = (List.range (fragmentCount D.length f₁.outgoingFragSize)).map
        (fragmentPacket D f₁.outgoingSeqId.toNat f₁.outgoingFragSize) ∧
      (fragmentReadyToSendRun f₁ maxFrags).2.outgoing = [] := by
  obtain ⟨h4, hle, -⟩ := optimalFragmentSize_spec D.length hM
  unfold fragmentOutgoing at hout
  rw [if_pos (by omega), if_pos hlong] at hout
  dsimp only at hout
  split_ifs at hout with hdrop
  · exact absurd (congrArg Prod.snd (Option.some_inj.mp hout)).symm hfirst
  obtain ⟨seqId, hseq⟩ : ∃ z, moduloAdd f.outgoingSeqId 1 nSeqId = some z := by
    cases hm : moduloAdd f.outgoingSeqId 1 nSeqId with
    | none => simp [hm] at hout
    | some z => exact ⟨z, rfl⟩
  obtain ⟨hx₀, hx₁, hz⟩ := moduloAdd_one_eq_some hseq
  simp only [hseq, Option.bind_eq_bind, Option.bind_some] at hout
  -- the first call is the one `fragment_outgoing` makes itself
  have hpart := fragmentReadyToSend_part (k := 0) (D := D) (f := { f with
    outgoingFragSize := optimalFragmentSize D.length M
    outgoing := D
    outgoingSeqId := seqId
    outgoingFragId := 0 }) rfl (by omega) (by simp) rfl
  rw [hout, Option.some_inj] at hpart
  obtain ⟨hf₁, rfl⟩ := Prod.mk.inj hpart
  have hsize : f₁.outgoingFragSize = optimalFragmentSize D.length M := by rw [hf₁]
  have hseq₁ : f₁.outgoingSeqId = seqId := by rw [hf₁]
  -- at most `MAX_FRAGS` parts, since the datagram was not dropped
  have hcount : fragmentCount D.length (optimalFragmentSize D.length M) ≤ maxFrags := by
    by_contra h
    have h' := (lt_fragmentCount_iff (by omega)).mp (Nat.lt_of_not_le h)
    rw [Nat.mul_comm] at h'
    exact hdrop h'
  obtain ⟨hrun, hnil⟩ := fragmentReadyToSendRun_parts (by omega) maxFrags 1 f₁ hsize
    (by rw [hf₁]) (by rw [hf₁]) (by omega)
  have hz' : 0 ≤ seqId ∧ seqId < nSeqId := by unfold nSeqId at *; omega
  refine ⟨hseq₁.trans hz, hseq₁ ▸ hz'.1, hseq₁ ▸ hz'.2, hsize, hsize ▸ (by omega), ?_, hnil⟩
  have hpos : 0 < fragmentCount D.length (optimalFragmentSize D.length M) :=
    (lt_fragmentCount_iff (by omega)).mpr (by omega)
  rw [hrun, hsize, hseq₁, List.range_eq_range', show fragmentCount D.length (optimalFragmentSize D.length M) =
    (fragmentCount D.length (optimalFragmentSize D.length M) - 1) + 1 by omega, List.range'_succ, List.map_cons]
  rfl

/-! ## What the receiver reads -/

/-- The receiver's shifts and masks give back each field `fragment_prepend_flags` packed; the size
field, rounded down to a multiple of four, only on the last part. -/
theorem fragmentHeader_read {type seqId fragId size : Nat} (ht : type < 4) (hs : seqId < 256)
    (hi : fragId < 32) (hz : size < 65536) :
    ((fragmentHeader type seqId fragId size >>> fragTypeShift) &&& fragTypeMask).toNat = type ∧
      ((fragmentHeader type seqId fragId size >>> fragSeqIdShift) &&& fragSeqIdMask).toNat = seqId ∧
      ((fragmentHeader type seqId fragId size >>> fragIdShift) &&& fragIdMask).toNat = fragId ∧
      (((fragmentHeader type seqId fragId size >>> fragSizeShift) &&& fragSizeMask) <<< fragSizeRoundShift).toNat =
        if type = fragWhole ∨ type = fragYesNotlast then 0 else size / 4 * 4 := by
  have h : (fragmentHeader type seqId fragId size).toNat = type + seqId * 2 ^ 2 + fragId * 2 ^ 10 +
      (if type = fragWhole ∨ type = fragYesNotlast then 0 else size / 4) * 2 ^ 15 := by
    rw [toNat_fragmentHeader ht hs hi hz]
    split_ifs <;> simp
  obtain ⟨h₁, h₂, h₃, h₄⟩ := fragmentHeader_fields h ht hs hi (by split_ifs <;> omega)
  refine ⟨h₁, h₂, h₃, ?_⟩
  rw [h₄]
  split_ifs <;> simp

/-- `fragment_incoming` of a part's packet reads the header and hands the part on. -/
theorem fragmentIncoming_of_part {list : FragmentList} {b : Buffer} (headroom now : Int) (hb : BufBounded b)
    {part : List UInt8} {type seqId fragId size : Nat} (hc : b.content = fragmentPrependFlags part type seqId fragId size)
    (htype : type = fragYesNotlast ∨ type = fragYesLast) (hs : seqId < 256) (hi : fragId < 32) (hz : size < 65536) :
    ∃ b', BufBounded b' ∧ b'.content = part ∧
      fragmentIncoming list b headroom now =
        fragmentIncomingPart list b' (fragmentHeader type seqId fragId size) (type = fragYesLast) headroom now := by
  have hlen := hb.length_content
  have hclen : b.content.length = 4 + part.length := by
    rw [hc, fragmentPrependFlags, List.length_append, BigEndian.length_encode]
  obtain ⟨b', hread, hb', hcont⟩ := hb.bufRead_cursor 4
  rw [if_pos (by omega), show ((4 : Nat) : Int) = 4 from rfl] at hread
  rw [if_pos (by omega)] at hcont
  have htake : b.content.take 4 = BigEndian.encode 4 (fragmentHeader type seqId fragId size).toNat := by
    rw [hc, fragmentPrependFlags, List.take_left' (by simp)]
  have hdrop : b.content.drop 4 = part := by
    rw [hc, fragmentPrependFlags, List.drop_left' (by simp)]
  have ht : type < 4 := by unfold fragYesNotlast fragYesLast at htype; omega
  obtain ⟨hft, -, -, -⟩ := fragmentHeader_read ht hs hi hz
  refine ⟨b', hb', hcont.trans hdrop, ?_⟩
  unfold fragmentIncoming
  rw [if_pos (by omega), hread]
  dsimp only
  rw [htake, fragmentHeader_decode, hft, if_neg (by unfold fragWhole fragYesNotlast fragYesLast at *; omega),
    if_pos htype]

/-- A `FRAG_WHOLE` packet comes back as the datagram, the window untouched. -/
theorem fragmentIncoming_whole {list : FragmentList} {b : Buffer} (headroom now : Int) (hb : BufBounded b)
    {D : List UInt8} (hc : b.content = fragmentPrependFlags D fragWhole 0 0 0) :
    ∃ b', fragmentIncoming list b headroom now = some (list, b') ∧ b'.content = D := by
  have hlen := hb.length_content
  have hclen : b.content.length = 4 + D.length := by
    rw [hc, fragmentPrependFlags, List.length_append, BigEndian.length_encode]
  obtain ⟨b', hread, -, hcont⟩ := hb.bufRead_cursor 4
  rw [if_pos (by omega), show ((4 : Nat) : Int) = 4 from rfl] at hread
  rw [if_pos (by omega)] at hcont
  have htake : b.content.take 4 = BigEndian.encode 4 (fragmentHeader fragWhole 0 0 0).toNat := by
    rw [hc, fragmentPrependFlags, List.take_left' (by simp)]
  have hdrop : b.content.drop 4 = D := by
    rw [hc, fragmentPrependFlags, List.drop_left' (by simp)]
  refine ⟨b', ?_, hcont.trans hdrop⟩
  unfold fragmentIncoming
  rw [if_pos (by omega), hread]
  dsimp only
  -- the whole packet's header is zero: no fragment type, no sequence or fragment id
  have h0 : fragmentHeader fragWhole 0 0 0 = 0 := by decide
  rw [htake, fragmentHeader_decode, h0, if_pos (by decide), if_neg (by decide)]

/-! ## The map of arrived parts -/

/-- The bits `fragment_incoming` sets for part `k`: bit `k`, or every bit from `k` on for the last. -/
theorem testBit_fragMapBit (last : Bool) {k j : Nat} (hk : k < 32) (hj : j < 32) :
    ((if last then fragMapMask else 1) <<< UInt32.ofNat k).toNat.testBit j =
      if last then decide (k ≤ j) else decide (j = k) := by
  have hshift : (UInt32.ofNat k).toNat % 32 = k := by
    rw [UInt32.toNat_ofNat', Nat.mod_eq_of_lt (by omega : k < 2 ^ 32), Nat.mod_eq_of_lt hk]
  rw [UInt32.toNat_shiftLeft, hshift, Nat.testBit_mod_two_pow, Nat.testBit_shiftLeft, decide_eq_true hj,
    Bool.true_and]
  cases last with
  | true =>
      rw [if_pos rfl, if_pos rfl, show fragMapMask.toNat = 2 ^ 32 - 1 from rfl, Nat.testBit_two_pow_sub_one,
        decide_eq_true (by omega : j - k < 32), Bool.and_true]
  | false =>
      rw [if_neg Bool.false_ne_true, if_neg Bool.false_ne_true, show (1 : UInt32).toNat = 2 ^ 0 from rfl,
        Nat.testBit_two_pow]
      by_cases hjk : j = k
      · simp [hjk]
      · simp only [hjk, decide_false, Bool.and_eq_false_iff, decide_eq_false_iff_not]
        omega

/-- The map is full exactly when its 32 bits are set. -/
theorem and_fragMapMask_eq_iff (x : UInt32) :
    x &&& fragMapMask = fragMapMask ↔ ∀ j < 32, x.toNat.testBit j = true := by
  have hmask : fragMapMask.toNat = 2 ^ 32 - 1 := rfl
  have hx : x &&& fragMapMask = x := by
    rw [← UInt32.toNat_inj, UInt32.toNat_and, hmask, Nat.and_two_pow_sub_one_eq_mod,
      Nat.mod_eq_of_lt x.toNat_lt]
  rw [hx]
  constructor
  · rintro rfl j hj
    rw [hmask, Nat.testBit_two_pow_sub_one, decide_eq_true hj]
  · intro h
    rw [← UInt32.toNat_inj, hmask]
    apply Nat.eq_of_testBit_eq
    intro j
    rw [Nat.testBit_two_pow_sub_one]
    by_cases hj : j < 32
    · rw [h j hj, decide_eq_true hj]
    · rw [Nat.testBit_lt_two_pow (Nat.lt_of_lt_of_le x.toNat_lt (Nat.pow_le_pow_right (by omega) (by omega))),
        decide_eq_false hj]

/-! ## The reassembly slot -/

section Slot

variable (D : List UInt8) (s : Nat) (headroom : Int)

/-- The sizes of a datagram `D` fragmented into parts of `s` bytes: a multiple of four that the
header's size field holds, shorter than the datagram, and at most `MAX_FRAGS` parts. -/
structure PartSizes : Prop where
  four_le : 4 ≤ s
  mod_four : s % 4 = 0
  lt_size_field : s < 65536
  lt_length : s < D.length
  length_le : D.length ≤ s * maxFrags

/-- The slot once the parts not in `rest` have arrived. The map has the bit of each arrived part
and, once the last part has arrived, every bit from the last part's on; the buffer, at the frame's
headroom, holds each arrived part at its offset and reaches the datagram's end once the last part
is in. -/
structure SlotHolds (rest : List Nat) (frag : Fragment) : Prop where
  defined : frag.defined = true
  maxFragSize : frag.maxFragSize = s
  map : ∀ j < 32, frag.map.toNat.testBit j =
    if j < fragmentCount D.length s - 1 then decide (j ∉ rest) else decide (fragmentCount D.length s - 1 ∉ rest)
  bounded : BufBounded frag.buf
  offset : frag.buf.offset = headroom
  room : headroom + D.length ≤ frag.buf.capacity
  len_le : frag.buf.len ≤ D.length
  len_eq : fragmentCount D.length s - 1 ∉ rest → frag.buf.len = D.length
  bytes : ∀ i < D.length, i / s ∉ rest → frag.buf.bytes[(headroom + i).toNat]? = D[i]?

/-- A slot that `fragment_incoming` starts afresh on the datagram's first part: free, or holding
another part size, with room for the datagram past the headroom. -/
structure SlotFresh (frag : Fragment) : Prop where
  fresh : frag.defined = false ∨ frag.maxFragSize ≠ s
  bounded : BufBounded frag.buf
  room : headroom + D.length ≤ frag.buf.capacity

variable {D s headroom}

namespace PartSizes

theorem pos (hp : PartSizes D s) : 0 < s := by
  have := hp.four_le
  omega

theorem two_le_count (hp : PartSizes D s) : 2 ≤ fragmentCount D.length s :=
  (lt_fragmentCount_iff hp.pos).mpr (by rw [Nat.one_mul]; exact hp.lt_length)

theorem count_le (hp : PartSizes D s) : fragmentCount D.length s ≤ 32 := by
  by_contra h
  have h' := (lt_fragmentCount_iff hp.pos).mp (Nat.lt_of_not_le h)
  have := hp.length_le
  unfold maxFrags at this
  omega

/-- Part `k` is the last exactly when it reaches the datagram's end. -/
theorem last_iff (hp : PartSizes D s) {k : Nat} (hk : k < fragmentCount D.length s) :
    D.length ≤ (k + 1) * s ↔ k = fragmentCount D.length s - 1 := by
  constructor
  · intro hlast
    by_contra hne
    have := (lt_fragmentCount_iff hp.pos).mp (show k + 1 < fragmentCount D.length s by omega)
    omega
  · intro hk'
    by_contra hlt
    have := (lt_fragmentCount_iff hp.pos).mpr (Nat.lt_of_not_le hlt)
    omega

/-- Where part `k` ends: `s` bytes on, or at the datagram's end for the last. -/
theorem end_part (hp : PartSizes D s) {k : Nat} (hk : k < fragmentCount D.length s) :
    k * s + (fragmentPart D s k).length = if k = fragmentCount D.length s - 1 then D.length else (k + 1) * s := by
  have hks := (lt_fragmentCount_iff hp.pos).mp hk
  rw [length_fragmentPart, Nat.succ_mul]
  split_ifs with hl
  · have := (hp.last_iff hk).mpr hl
    rw [Nat.succ_mul] at this
    omega
  · have := (hp.last_iff hk).not.mpr hl
    rw [Nat.succ_mul] at this
    omega

theorem div_lt_count (hp : PartSizes D s) {i : Nat} (hi : i < D.length) : i / s < fragmentCount D.length s :=
  (lt_fragmentCount_iff hp.pos).mpr (Nat.lt_of_le_of_lt (Nat.div_mul_le_self i s) hi)

end PartSizes

end Slot

namespace SlotHolds

variable {D : List UInt8} {s : Nat} {headroom : Int} {rest : List Nat} {frag : Fragment}

/-- The map is full exactly when every part has arrived. -/
theorem full_iff (hp : PartSizes D s) (h : SlotHolds D s headroom rest frag)
    (hsub : ∀ j ∈ rest, j < fragmentCount D.length s) :
    frag.map &&& fragMapMask = fragMapMask ↔ rest = [] := by
  have hc := hp.count_le
  rw [and_fragMapMask_eq_iff]
  constructor
  · intro hall
    rw [List.eq_nil_iff_forall_not_mem]
    intro j hj
    have hjc := hsub j hj
    by_cases hlt : j < fragmentCount D.length s - 1
    · have hbit := hall j (by omega)
      rw [h.map j (by omega), if_pos hlt, decide_eq_true_iff] at hbit
      exact hbit hj
    · -- the last part's bit is bit 31 and every bit above it
      have hbit := hall 31 (by omega)
      rw [h.map 31 (by omega), if_neg (by omega), decide_eq_true_iff] at hbit
      exact hbit (by rw [show fragmentCount D.length s - 1 = j by omega]; exact hj)
  · rintro rfl j hj
    rw [h.map j hj]
    split_ifs <;> simp

/-- Once every part has arrived, the slot's content is the datagram. -/
theorem content_eq (hh : 0 ≤ headroom) (h : SlotHolds D s headroom [] frag) : frag.buf.content = D := by
  apply Buffer.content_eq_of_getElem? (h.len_eq List.not_mem_nil)
  intro i hi
  rw [h.offset, show headroom.toNat + i = (headroom + i).toNat by omega]
  exact h.bytes i hi List.not_mem_nil

/-- Or-ing the bits of part `k` of `n` into a map that has the bits of the parts not in `rest`
gives the map of the parts not in `rest.erase k`: the part's own bit, or for the last part every
bit from its own on. -/
theorem testBit_or_fragMapBit {m : UInt32} {n k : Nat} {last : Bool} (hnd : rest.Nodup)
    (hn : n ≤ 32) (hk : k < n) (hlast : last = true ↔ k = n - 1)
    (hm : ∀ j < 32, m.toNat.testBit j = if j < n - 1 then decide (j ∉ rest) else decide (n - 1 ∉ rest))
    {j : Nat} (hj : j < 32) :
    (m ||| ((if last then fragMapMask else 1) <<< UInt32.ofNat k)).toNat.testBit j =
      if j < n - 1 then decide (j ∉ rest.erase k) else decide (n - 1 ∉ rest.erase k) := by
  rw [UInt32.toNat_or, Nat.testBit_or, hm j hj, testBit_fragMapBit last (by omega) hj]
  have hne : ∀ j, j ≠ k → (j ∉ rest ↔ j ∉ rest.erase k) := fun j hjk => by
    rw [hnd.mem_erase_iff]
    exact ⟨fun h h' => h h'.2, fun h h' => h ⟨hjk, h'⟩⟩
  have hkin : k ∉ rest.erase k := fun h' => (hnd.mem_erase_iff.mp h').1 rfl
  by_cases hkl : k = n - 1
  · rw [hlast.mpr hkl, if_pos rfl]
    by_cases hjc : j < n - 1
    · rw [if_pos hjc, if_pos hjc, decide_eq_false (by omega : ¬k ≤ j), Bool.or_false]
      exact decide_eq_decide.mpr (hne j (by omega))
    · rw [if_neg hjc, if_neg hjc, decide_eq_true (by omega : k ≤ j), Bool.or_true, ← hkl]
      exact (decide_eq_true hkin).symm
  · have hl : last = false := by
      cases last with
      | false => rfl
      | true => exact absurd (hlast.mp rfl) hkl
    rw [hl, if_neg Bool.false_ne_true]
    by_cases hjc : j < n - 1
    · rw [if_pos hjc, if_pos hjc]
      by_cases hjk : j = k
      · rw [decide_eq_true hjk, Bool.or_true, hjk]
        exact (decide_eq_true hkin).symm
      · rw [decide_eq_false hjk, Bool.or_false]
        exact decide_eq_decide.mpr (hne j hjk)
    · rw [if_neg hjc, if_neg hjc, decide_eq_false (by omega : ¬j = k), Bool.or_false]
      exact decide_eq_decide.mpr (hne _ fun h => hkl h.symm)

/-- `buf_copy_range` of part `k` into the slot succeeds, and with the part's bits in the map the
slot holds the parts that arrived, part `k` now among them. -/
theorem record (hp : PartSizes D s) (hh : 0 ≤ headroom) (h : SlotHolds D s headroom rest frag)
    (hnd : rest.Nodup) {k : Nat} (hkc : k < fragmentCount D.length s) {b : Buffer}
    (hb : BufBounded b) (hc : b.content = fragmentPart D s k) {last : Bool}
    (hlast : last = true ↔ k = fragmentCount D.length s - 1) (now : Int) :
    ∃ fbuf, bufCopyRange frag.buf (k * s) b 0 b.len = some (fbuf, true) ∧
      SlotHolds D s headroom (rest.erase k) { frag with
        buf := fbuf
        map := frag.map ||| ((if last then fragMapMask else 1) <<< UInt32.ofNat k)
        timestamp := now } := by
  have hmem : ∀ j, j ∈ rest.erase k ↔ j ≠ k ∧ j ∈ rest := fun j => hnd.mem_erase_iff
  have hs := hp.pos
  have hend := hp.end_part hkc
  have hks := (lt_fragmentCount_iff hp.pos).mp hkc
  have hsucc : (k + 1) * s = k * s + s := Nat.succ_mul k s
  have hpart := length_fragmentPart D s k
  have hblen : b.len = ((fragmentPart D s k).length : Int) := by
    have := hb.length_content
    rw [hc] at this
    have := hb.len_nonneg
    omega
  have hroom := h.room
  have hoff := h.offset
  have hcap := h.bounded.capacity_lt_num
  have hbytes := h.bounded.length_bytes
  have hlen := h.len_le
  have := hb.capacity_lt_num
  have := hb.len_le
  have hlast_end : k * s + (fragmentPart D s k).length ≤ D.length := by split_ifs at hend <;> omega
  have hcopy := @BufBounded.bufCopyRange_eq frag.buf b h.bounded hb (k * s) 0 b.len (by omega) (by omega)
  rw [if_pos ⟨le_rfl, hb.len_nonneg, by omega, by positivity, by omega⟩] at hcopy
  have hsrc : (b.content.drop (0 : Int).toNat).take b.len.toNat = fragmentPart D s k := by
    rw [Int.toNat_zero, List.drop_zero, hc, List.take_of_length_le (by omega)]
  have hlenNat : b.len.toNat = (fragmentPart D s k).length := by omega
  rw [hsrc, hlenNat] at hcopy
  refine ⟨_, hcopy, h.defined, h.maxFragSize, ?_, ?_, h.offset, h.room, ?_, ?_, ?_⟩
  · -- the map: the part's own bit, or for the last part every bit from its own on
    intro j hj
    exact testBit_or_fragMapBit hnd hp.count_le hkc hlast h.map hj
  · exact h.bounded.splice h.bounded.offset_nonneg (by omega) (by omega) (by omega)
  · dsimp only
    omega
  · -- the last part reaches the datagram's end; before it, an earlier copy did
    intro hnot
    dsimp only
    by_cases hkl : k = fragmentCount D.length s - 1
    · rw [if_pos hkl] at hend
      omega
    · have := h.len_eq fun hin => hnot ((hmem _).mpr ⟨Ne.symm hkl, hin⟩)
      omega
  · -- the bytes: part `k` at its offset, the other arrived parts where they were
    intro i hi hnot
    show (frag.buf.bytes.take (frag.buf.offset + ↑k * ↑s).toNat ++ fragmentPart D s k ++
      frag.buf.bytes.drop ((frag.buf.offset + ↑k * ↑s).toNat + (fragmentPart D s k).length))[(headroom + ↑i).toNat]? = D[i]?
    rw [getElem?_splice (by omega)]
    by_cases hik : i / s = k
    · obtain ⟨hlo, hhi⟩ := (Nat.div_eq_iff hp.pos).mp hik
      have hin : i - k * s < (fragmentPart D s k).length := by
        rw [hpart]
        omega
      have hpos : (headroom + ↑i).toNat = (frag.buf.offset + ↑k * ↑s).toNat + (i - k * s) := by omega
      rw [if_neg (by omega), hpos, Nat.add_sub_cancel_left, getElem?_fragmentPart, if_pos (by omega)]
      congr 1
      omega
    · have hout : i < k * s ∨ k * s + s ≤ i := by
        by_contra hin
        exact hik ((Nat.div_eq_iff hp.pos).mpr ⟨by omega, by omega⟩)
      rw [if_pos (by omega)]
      exact h.bytes i hi fun hin => hnot ((hmem _).mpr ⟨hik, hin⟩)

end SlotHolds

/-! ## One part arriving -/

section Step

variable {D : List UInt8} {s : Nat} {headroom : Int}

theorem fragmentSlotStart_of_holds {rest : List Nat} {frag : Fragment} (h : SlotHolds D s headroom rest frag) :
    fragmentSlotStart frag s headroom = some frag := by
  unfold fragmentSlotStart
  rw [h.defined, h.maxFragSize]
  simp

/-- A fresh slot starts afresh on the first part, empty at the headroom with an empty map. -/
theorem fragmentSlotStart_of_fresh (hp : PartSizes D s) (hh : 0 ≤ headroom) {frag : Fragment}
    (h : SlotFresh D s headroom frag) {rest : List Nat} (hall : ∀ j < fragmentCount D.length s, j ∈ rest) :
    ∃ frag₀, fragmentSlotStart frag s headroom = some frag₀ ∧ SlotHolds D s headroom rest frag₀ := by
  have hcond : (!frag.defined || frag.maxFragSize != (s : Int)) = true := by
    rcases h.fresh with h' | h' <;> simp [h']
  have hroom := h.room
  have hc := hp.two_le_count
  unfold fragmentSlotStart
  rw [if_pos hcond, h.bounded.bufInit_eq, if_pos ⟨hh, by omega⟩]
  refine ⟨_, rfl, rfl, rfl, ?_, h.bounded.window hh le_rfl (by omega), rfl, h.room, by simp, ?_, ?_⟩
  · -- no part has arrived yet, and the map is zero
    intro j hj
    show (0 : UInt32).toNat.testBit j = _
    rw [show (0 : UInt32).toNat = 0 from rfl, Nat.zero_testBit]
    split_ifs with hjc
    · exact (decide_eq_false (not_not.mpr (hall j (by omega)))).symm
    · exact (decide_eq_false (not_not.mpr (hall _ (by omega)))).symm
  · intro hnot
    exact absurd (hall _ (by omega)) hnot
  · intro i hi hnot
    exact absurd (hall _ (hp.div_lt_count hi)) hnot

end Step

/-- `fragment_incoming` of a part whose copy into the slot succeeds: the slot is the one
`fragment_list_get_buf` gives, after the start block, and the part is recorded in it. -/
theorem fragmentIncomingPart_of_copy {list list₂ : FragmentList} {b fbuf : Buffer} {flags : UInt32}
    {last : Bool} {headroom size : Int} (now : Int) {idx : Nat} {frag frag₀ : Fragment}
    (hsize : (if last then ((((flags >>> fragSizeShift) &&& fragSizeMask) <<< fragSizeRoundShift).toNat : Int)
      else b.len) = size)
    (hget : fragmentListGetBuf list ((flags >>> fragSeqIdShift) &&& fragSeqIdMask).toNat = some (list₂, idx))
    (hfrag : list₂.fragments[idx]? = some frag) (h4 : size % 4 = 0)
    (hstart : fragmentSlotStart frag size headroom = some frag₀)
    (hcopy : bufCopyRange frag₀.buf (((flags >>> fragIdShift) &&& fragIdMask).toNat * size) b 0 b.len =
      some (fbuf, true)) :
    fragmentIncomingPart list b flags last headroom now =
      some (fragmentRecord list₂ idx frag₀ fbuf last ((flags >>> fragIdShift) &&& fragIdMask).toNat now b) := by
  unfold fragmentIncomingPart
  simp only [hsize, hget, Option.bind_eq_bind, Option.bind_some, hfrag, h4, ne_eq, not_true_eq_false,
    if_false, hstart, hcopy]

/-- **One part arrives.** `fragment_incoming` of part `k`'s packet, on a window whose slot for the
sequence id is ready for the parts in `rest`: the slot records part `k`, and the call returns the
datagram when `k` was the last part missing and an empty buffer otherwise. -/
theorem fragmentIncoming_part_step {D : List UInt8} {s : Nat} {headroom : Int} (hp : PartSizes D s)
    (hh : 0 ≤ headroom) {seqId : Nat} (hseq : seqId < 256) {list₁ : FragmentList} {idx : Nat}
    (hidx : idx < list₁.fragments.length) {list : FragmentList} {frag : Fragment}
    (hget : fragmentListGetBuf list seqId = some ({ list₁ with fragments := list₁.fragments.set idx frag }, idx))
    {rest : List Nat} (hnd : rest.Nodup) (hsub : ∀ j ∈ rest, j < fragmentCount D.length s)
    (hready : SlotHolds D s headroom rest frag ∨
      (SlotFresh D s headroom frag ∧ ∀ j < fragmentCount D.length s, j ∈ rest))
    {k : Nat} (hk : k ∈ rest) {b : Buffer} (hb : BufBounded b) (hc : b.content = fragmentPacket D seqId s k)
    (now : Int) :
    ∃ frag' out, fragmentIncoming list b headroom now =
        some ({ list₁ with fragments := list₁.fragments.set idx frag' }, out) ∧
      if rest.erase k = [] then out.content = D else out.len = 0 ∧ SlotHolds D s headroom (rest.erase k) frag' := by
  have hkc := hsub k hk
  have hcount := hp.count_le
  have hs := hp.pos
  obtain ⟨frag₀, hstart, hholds⟩ : ∃ frag₀, fragmentSlotStart frag s headroom = some frag₀ ∧
      SlotHolds D s headroom rest frag₀ := by
    rcases hready with h | ⟨h, hall⟩
    · exact ⟨frag, fragmentSlotStart_of_holds h, h⟩
    · exact fragmentSlotStart_of_fresh hp hh h hall
  -- the packet's header: the part's type, the sequence id, `k`, and the part size on the last part
  have hlast := hp.last_iff hkc
  have htype : (if D.length ≤ (k + 1) * s then fragYesLast else fragYesNotlast) = fragYesNotlast ∨
      (if D.length ≤ (k + 1) * s then fragYesLast else fragYesNotlast) = fragYesLast := by
    split_ifs <;> simp
  obtain ⟨b', hb', hc', hin⟩ := fragmentIncoming_of_part headroom now hb hc htype hseq (by omega)
    (by have := hp.lt_size_field; omega)
  have ht : (if D.length ≤ (k + 1) * s then fragYesLast else fragYesNotlast) < 4 := by
    split_ifs <;> decide
  obtain ⟨-, hfs, hfi, hfz⟩ := fragmentHeader_read ht hseq (by omega : k < 32) (by have := hp.lt_size_field; omega)
  have hlast' : decide ((if D.length ≤ (k + 1) * s then fragYesLast else fragYesNotlast) = fragYesLast) = true ↔
      k = fragmentCount D.length s - 1 := by
    rw [decide_eq_true_iff, ← hlast]
    split_ifs with h <;> simp [h, fragYesLast, fragYesNotlast]
  obtain ⟨fbuf, hcopy, hrec⟩ := hholds.record hp hh hnd hkc hb' hc' hlast' now
  -- both kinds of part give the part size `s`: the last from its size field, the others from their length
  have hsize : (if decide ((if D.length ≤ (k + 1) * s then fragYesLast else fragYesNotlast) = fragYesLast) then
      ((((fragmentHeader (if D.length ≤ (k + 1) * s then fragYesLast else fragYesNotlast) seqId k s >>>
        fragSizeShift) &&& fragSizeMask) <<< fragSizeRoundShift).toNat : Int) else b'.len) = s := by
    rw [hfz]
    by_cases hl : D.length ≤ (k + 1) * s
    · simp only [if_pos hl, decide_true, if_true, fragWhole, fragYesNotlast, fragYesLast]
      have := hp.mod_four
      norm_num
      omega
    · have hlen := hb'.length_content
      rw [hc', length_fragmentPart] at hlen
      have := hb'.len_nonneg
      simp only [if_neg hl, fragYesNotlast, fragYesLast]
      norm_num
      rw [Nat.succ_mul] at hl
      omega
  have hfrag : ({ list₁ with fragments := list₁.fragments.set idx frag } : FragmentList).fragments[idx]? = some frag :=
    List.getElem?_set_self hidx
  have hpart := fragmentIncomingPart_of_copy now hsize (by rw [hfs]; exact hget) hfrag
    (by have := hp.mod_four; omega) hstart (by rw [hfi]; exact hcopy)
  rw [hin, hpart, hfi]
  unfold fragmentRecord
  dsimp only
  by_cases hdone : rest.erase k = []
  · -- the last missing part: the slot is freed and the datagram handed out
    have hfull := (hrec.full_iff hp fun j hj => hsub j (List.mem_of_mem_erase hj)).mpr hdone
    rw [if_pos hfull, List.set_set]
    refine ⟨_, _, rfl, ?_⟩
    rw [if_pos hdone]
    rw [hdone] at hrec
    exact hrec.content_eq hh
  · have hfull := (hrec.full_iff hp fun j hj => hsub j (List.mem_of_mem_erase hj)).not.mpr hdone
    rw [if_neg hfull, List.set_set]
    refine ⟨_, _, rfl, ?_⟩
    rw [if_neg hdone]
    exact ⟨rfl, hrec⟩

/-- **The parts in any order.** Fed the packets of the parts in `rest` in any order, the window
returns the datagram on the last one and empties every other buffer. The induction is on the
buffers; the slot invariant carries the parts that have arrived. -/
theorem fragmentIncomingRun_parts {D : List UInt8} {s : Nat} {headroom : Int} (hp : PartSizes D s)
    (hh : 0 ≤ headroom) {seqId : Nat} (hseq : seqId < 256) {list₁ : FragmentList} {idx : Nat}
    (hidx : idx < list₁.fragments.length)
    (hstable : ∀ frags : List Fragment,
      fragmentListGetBuf { list₁ with fragments := frags } seqId = some ({ list₁ with fragments := frags }, idx))
    (now : Int) :
    ∀ (bufs : List Buffer) (rest : List Nat) (list : FragmentList) (frag : Fragment),
      fragmentListGetBuf list seqId = some ({ list₁ with fragments := list₁.fragments.set idx frag }, idx) →
      rest.Nodup → (∀ j ∈ rest, j < fragmentCount D.length s) →
      (SlotHolds D s headroom rest frag ∨
        (SlotFresh D s headroom frag ∧ ∀ j < fragmentCount D.length s, j ∈ rest)) →
      rest ≠ [] → (∀ b ∈ bufs, BufBounded b) →
      (bufs.map Buffer.content).Perm (rest.map (fragmentPacket D seqId s)) →
      ∃ list' outs out, fragmentIncomingRun list headroom now bufs = some (list', outs ++ [out]) ∧
        out.content = D ∧ ∀ o ∈ outs, o.len = 0 := by
  intro bufs
  induction bufs with
  | nil =>
      intro rest _ _ _ _ _ _ hne _ hperm
      exact absurd (List.map_eq_nil_iff.mp (List.Perm.nil_eq hperm).symm) hne
  | cons b bufs ih =>
      intro rest list frag hget hnd hsub hready _ hbs hperm
      -- the buffer that arrives holds the packet of some part `k` not yet in
      obtain ⟨k, hk, hkb⟩ := List.mem_map.mp (hperm.subset List.mem_cons_self)
      obtain ⟨frag', out, hstep, hres⟩ := fragmentIncoming_part_step hp hh hseq hidx hget hnd hsub hready hk
        (hbs b List.mem_cons_self) hkb.symm now
      have hperm' : (bufs.map Buffer.content).Perm ((rest.erase k).map (fragmentPacket D seqId s)) := by
        have hsplit := (List.perm_cons_erase hk).map (fragmentPacket D seqId s)
        rw [List.map_cons, hkb] at hsplit
        exact (hperm.trans hsplit).cons_inv
      by_cases hdone : rest.erase k = []
      · rw [if_pos hdone] at hres
        rw [hdone, List.map_nil, List.perm_nil, List.map_eq_nil_iff] at hperm'
        subst hperm'
        refine ⟨{ list₁ with fragments := list₁.fragments.set idx frag' }, [], out, ?_, hres,
          fun o ho => absurd ho List.not_mem_nil⟩
        simp [fragmentIncomingRun, hstep]
      · rw [if_neg hdone] at hres
        obtain ⟨hlen, hholds⟩ := hres
        obtain ⟨list', outs, out', hrun, hD, houts⟩ := ih (rest.erase k) _ frag' (hstable _) (hnd.erase k)
          (fun j hj => hsub j (List.mem_of_mem_erase hj)) (Or.inl hholds) hdone
          (fun b hb => hbs b (List.mem_cons_of_mem _ hb)) hperm'
        refine ⟨list', out :: outs, out', ?_, hD, ?_⟩
        · simp [fragmentIncomingRun, hstep, hrun]
        · intro o ho
          rcases List.mem_cons.mp ho with rfl | ho
          · exact hlen
          · exact houts o ho

/-! ## The round trip -/

/-- The slot `fragment_list_get_buf` gives the sequence id starts afresh on a part of `size`
bytes: it is free or holds another part size, the test of `fragment_incoming`. -/
def fragmentSlotFresh (list : FragmentList) (seqId size : Int) : Bool :=
  match fragmentListGetBuf list seqId with
  | some (list₁, idx) =>
      match list₁.fragments[idx]? with
      | some frag => !frag.defined || frag.maxFragSize != size
      | none => true
  | none => true

/-- A window with no partial reassembly starts afresh on every sequence id and size. -/
theorem fragmentSlotFresh_of_free {list : FragmentList} (hinv : FragmentListInv list)
    (hfree : ∀ frag ∈ list.fragments, frag.defined = false) {seqId : Int} (h₀ : 0 ≤ seqId)
    (h₁ : seqId < nSeqId) (size : Int) : fragmentSlotFresh list seqId size = true := by
  obtain ⟨list₁, idx, hget, -, -, hfreed, -⟩ := fragmentListGetBuf_spec hinv h₀ h₁
  unfold fragmentSlotFresh
  rw [hget]
  dsimp only
  cases hfrag : list₁.fragments[idx]? with
  | none => rfl
  | some frag =>
      have hdef : frag.defined = false := by
        rcases hfreed frag (List.mem_of_getElem? hfrag) with h | ⟨frag', -, rfl⟩
        · exact hfree frag h
        · rfl
      simp [hdef]

theorem fragmentListBufInit_spec {bufSize : Nat} {list : FragmentList} (h : fragmentListBufInit bufSize = some list) :
    FragmentListInv list ∧ ∀ frag ∈ list.fragments,
      frag.defined = false ∧ BufBounded frag.buf ∧ frag.buf.capacity = bufSize := by
  unfold fragmentListBufInit at h
  obtain ⟨buf, hbuf, rfl⟩ := Option.map_eq_some_iff.mp h
  have hcap : buf.capacity = bufSize := by
    unfold allocBuf at hbuf
    split_ifs at hbuf
    cases hbuf
    rfl
  refine ⟨⟨le_rfl, by simp [nSeqId], le_rfl, by simp [nFragBuf], List.length_replicate⟩, ?_⟩
  intro frag hfrag
  rw [List.eq_of_mem_replicate hfrag]
  exact ⟨rfl, allocBuf_bounded hbuf, hcap⟩

/-- The slot the first part lands in, when the window starts afresh on it. -/
theorem slotFresh_of_fragmentSlotFresh {D : List UInt8} {s : Nat} {headroom : Int} {list list₁ : FragmentList}
    {seqId : Int} {idx : Nat} (hget : fragmentListGetBuf list seqId = some (list₁, idx))
    (hidx : idx < list₁.fragments.length) (hfreed : FreedFrom list.fragments list₁.fragments)
    (hbufs : ∀ frag ∈ list.fragments, BufBounded frag.buf ∧ headroom + D.length ≤ frag.buf.capacity)
    (hfresh : fragmentSlotFresh list seqId s = true) : SlotFresh D s headroom list₁.fragments[idx] := by
  have hslot : list₁.fragments[idx]? = some list₁.fragments[idx] := List.getElem?_eq_getElem hidx
  unfold fragmentSlotFresh at hfresh
  rw [hget] at hfresh
  dsimp only at hfresh
  rw [hslot] at hfresh
  dsimp only at hfresh
  have hbuf : BufBounded list₁.fragments[idx].buf ∧ headroom + D.length ≤ list₁.fragments[idx].buf.capacity := by
    rcases hfreed _ (List.getElem_mem hidx) with h | ⟨frag', hfrag', heq⟩
    · exact hbufs _ h
    · rw [heq]
      exact hbufs frag' hfrag'
  refine ⟨?_, hbuf.1, hbuf.2⟩
  cases hdef : list₁.fragments[idx].defined with
  | false => exact Or.inl rfl
  | true =>
      rw [hdef] at hfresh
      exact Or.inr (by simpa using hfresh)

/-- **Fragmentation round trip.** A datagram that `fragment_outgoing` sends from an idle sender
leaves as its packets, those of `fragment_outgoing` and the `fragment_ready_to_send` calls after it,
which end with the outgoing buffer empty; a datagram no longer than `max_fragment_size` leaves as
one `FRAG_WHOLE` packet. Fed to a window whose slot for the sequence id starts afresh, the packets
in any order give the datagram back on the last one, and an empty buffer on every other. -/
theorem fragment_round_trip_fresh_slot {f f₁ : FragmentOut} {D first : List UInt8} {M : Nat}
    (hM : 4 ≤ M ∧ M ≤ 65532) (hidle : f.outgoing = []) (hout : fragmentOutgoing f D M = some (f₁, first))
    (hfirst : first ≠ []) {list : FragmentList} {headroom : Int} (hinv : FragmentListInv list)
    (hh : 0 ≤ headroom)
    (hbufs : ∀ frag ∈ list.fragments, BufBounded frag.buf ∧ headroom + D.length ≤ frag.buf.capacity)
    (hfresh : fragmentSlotFresh list f₁.outgoingSeqId f₁.outgoingFragSize = true) (now : Int) :
    (D.length ≤ M → first = fragmentPrependFlags D fragWhole 0 0 0 ∧ (fragmentReadyToSendRun f₁ maxFrags).1 = []) ∧
      fragmentReadyToSend (fragmentReadyToSendRun f₁ maxFrags).2 = none ∧
      ∀ bufs : List Buffer, (∀ b ∈ bufs, BufBounded b) →
        (bufs.map Buffer.content).Perm (first :: (fragmentReadyToSendRun f₁ maxFrags).1) →
        ∃ list' outs out, fragmentIncomingRun list headroom now bufs = some (list', outs ++ [out]) ∧
          out.content = D ∧ ∀ o ∈ outs, o.len = 0 := by
  have hpos : 0 < D.length := by
    by_contra hD
    have hnil : D = [] := List.eq_nil_of_length_eq_zero (by omega)
    unfold fragmentOutgoing at hout
    rw [if_neg (by rw [hnil]; simp), hnil, Option.some_inj] at hout
    exact hfirst (congrArg Prod.snd hout).symm
  by_cases hlong : M < D.length
  · -- fragmented: the parts' packets, then the slot invariant over any order
    obtain ⟨-, hs₀, hs₁, hsize, hfits, hpkts, hnil⟩ := fragmentOutgoing_parts hM.1 hlong hout hfirst
    obtain ⟨h4, hle, h4mod⟩ := optimalFragmentSize_spec D.length hM.1
    have hp : PartSizes D f₁.outgoingFragSize :=
      ⟨by rw [hsize]; exact h4, by rw [hsize]; exact h4mod, by rw [hsize]; omega, by rw [hsize]; omega, hfits⟩
    have hseq : ((f₁.outgoingSeqId.toNat : Nat) : Int) = f₁.outgoingSeqId := Int.toNat_of_nonneg hs₀
    obtain ⟨list₁, idx, hget, hinv₁, hidx25, hfreed, hstable⟩ := fragmentListGetBuf_spec hinv hs₀ hs₁
    have hidx : idx < list₁.fragments.length := by
      rw [hinv₁.length_fragments]
      exact hidx25
    have hready : SlotFresh D f₁.outgoingFragSize headroom list₁.fragments[idx] :=
      slotFresh_of_fragmentSlotFresh hget hidx hfreed hbufs hfresh
    refine ⟨fun h => absurd h (by omega), by simp [fragmentReadyToSend, hnil], fun bufs hbs hperm => ?_⟩
    rw [hpkts] at hperm
    refine fragmentIncomingRun_parts hp hh (show f₁.outgoingSeqId.toNat < 256 by unfold nSeqId at hs₁; omega) hidx
      (by rw [hseq]; exact hstable) now bufs _ list _ (by rw [hseq, List.set_getElem_self]; exact hget)
      List.nodup_range (fun j hj => List.mem_range.mp hj)
      (Or.inr ⟨hready, fun j hj => List.mem_range.mpr hj⟩) ?_ hbs hperm
    have := hp.two_le_count
    exact List.ne_nil_of_length_pos (by rw [List.length_range]; omega)
  · -- whole: one packet, which the receiver hands back
    unfold fragmentOutgoing at hout
    rw [if_pos hpos, if_neg hlong, Option.some_inj] at hout
    obtain ⟨rfl, rfl⟩ := Prod.mk.inj hout
    have hrun : fragmentReadyToSendRun f maxFrags = ([], f) := by
      simp [fragmentReadyToSendRun, maxFrags, fragmentReadyToSend, hidle]
    refine ⟨fun _ => ⟨rfl, by rw [hrun]⟩, by simp [hrun, fragmentReadyToSend, hidle], fun bufs hbs hperm => ?_⟩
    rw [hrun, List.perm_singleton, List.map_eq_singleton_iff] at hperm
    obtain ⟨b, rfl, hb⟩ := hperm
    obtain ⟨out, hin, hD⟩ : ∃ out, fragmentIncoming list b headroom now = some (list, out) ∧ out.content = D :=
      fragmentIncoming_whole headroom now (hbs b List.mem_cons_self) hb
    exact ⟨list, [], out, by simp [fragmentIncomingRun, hin], hD, fun o ho => absurd ho List.not_mem_nil⟩

theorem fragment_round_trip_fresh_slot_reversed :
    fragmentOutgoing ⟨0, 0, 0, []⟩ [1, 2, 3, 4, 5, 6, 7, 8] 4 =
        some (⟨1, 4, 1, [5, 6, 7, 8]⟩, fragmentPacket [1, 2, 3, 4, 5, 6, 7, 8] 1 4 0) ∧
      ∃ list' outs out, fragmentIncomingRun ⟨0, 0, List.replicate 25 ⟨false, 0, 0, 0, ⟨8, 0, 0, some (List.replicate 8 0)⟩⟩⟩
          0 0 [Buffer.ofBytes (fragmentPacket [1, 2, 3, 4, 5, 6, 7, 8] 1 4 1),
            Buffer.ofBytes (fragmentPacket [1, 2, 3, 4, 5, 6, 7, 8] 1 4 0)] = some (list', outs ++ [out]) ∧
        out.content = [1, 2, 3, 4, 5, 6, 7, 8] ∧ ∀ o ∈ outs, o.len = 0 := by
  have hout : fragmentOutgoing ⟨0, 0, 0, []⟩ [1, 2, 3, 4, 5, 6, 7, 8] 4 =
      some (⟨1, 4, 1, [5, 6, 7, 8]⟩, fragmentPacket [1, 2, 3, 4, 5, 6, 7, 8] 1 4 0) := by decide
  have hrest : (fragmentReadyToSendRun ⟨1, 4, 1, [5, 6, 7, 8]⟩ maxFrags).1 =
      [fragmentPacket [1, 2, 3, 4, 5, 6, 7, 8] 1 4 1] := by decide
  have hinit : fragmentListBufInit 8 =
      some ⟨0, 0, List.replicate 25 ⟨false, 0, 0, 0, ⟨8, 0, 0, some (List.replicate 8 0)⟩⟩⟩ := by decide
  obtain ⟨hinv, hslots⟩ := fragmentListBufInit_spec hinit
  have hfresh := fragmentSlotFresh_of_free hinv (fun frag h => (hslots frag h).1)
    (show (0 : Int) ≤ 1 by decide) (by decide) 4
  obtain ⟨-, -, hrt⟩ := fragment_round_trip_fresh_slot (by decide) rfl hout (by decide) hinv le_rfl
    (fun frag h => ⟨(hslots frag h).2.1, by rw [(hslots frag h).2.2]; decide⟩) hfresh 0
  refine ⟨hout, hrt _ ?_ ?_⟩
  · intro b hb
    simp only [List.mem_cons, List.not_mem_nil, or_false] at hb
    rcases hb with rfl | rfl <;> exact bufBounded_ofBytes (by decide)
  · rw [hrest]
    simp only [List.map_cons, Buffer.content_ofBytes, List.map_nil]
    exact List.Perm.swap _ _ _

/-- A window that got the first part of an earlier datagram under the same sequence id, and
never the rest, completes the next datagram of that sequence id and part size early, with the
earlier datagram's bytes: the last part of `[1, …, 8]` hands out `[9, 9, 9, 9, 5, 6, 7, 8]`, and
its first part then starts a reassembly that never ends. The sender uses sequence id `1` again
after 256 fragmented datagrams. -/
theorem fragment_round_trip_stale_slot :
    ∃ rx₀ rx₁ out₀,
      fragmentListBufInit 8 = some rx₀ ∧
      fragmentOutgoing ⟨0, 0, 0, []⟩ [9, 9, 9, 9, 9, 9, 9, 9] 4 =
        some (⟨1, 4, 1, [9, 9, 9, 9]⟩, fragmentPacket [9, 9, 9, 9, 9, 9, 9, 9] 1 4 0) ∧
      fragmentIncoming rx₀ (Buffer.ofBytes (fragmentPacket [9, 9, 9, 9, 9, 9, 9, 9] 1 4 0)) 0 0 = some (rx₁, out₀) ∧
      fragmentSlotFresh rx₁ 1 4 = false ∧
      fragmentOutgoing ⟨0, 0, 0, []⟩ [1, 2, 3, 4, 5, 6, 7, 8] 4 =
        some (⟨1, 4, 1, [5, 6, 7, 8]⟩, fragmentPacket [1, 2, 3, 4, 5, 6, 7, 8] 1 4 0) ∧
      (fragmentReadyToSendRun ⟨1, 4, 1, [5, 6, 7, 8]⟩ maxFrags).1 = [fragmentPacket [1, 2, 3, 4, 5, 6, 7, 8] 1 4 1] ∧
      (fragmentIncomingRun rx₁ 0 0 [Buffer.ofBytes (fragmentPacket [1, 2, 3, 4, 5, 6, 7, 8] 1 4 1),
        Buffer.ofBytes (fragmentPacket [1, 2, 3, 4, 5, 6, 7, 8] 1 4 0)]).map (fun r => r.2.map Buffer.content) =
        some [[9, 9, 9, 9, 5, 6, 7, 8], []] := by
  -- the slot of sequence id 1 after the earlier datagram's first part: its four bytes, bit 0 of the map
  have hfirst : fragmentIncoming ⟨0, 0, List.replicate 25 ⟨false, 0, 0, 0, ⟨8, 0, 0, some (List.replicate 8 0)⟩⟩⟩
      (Buffer.ofBytes (fragmentPacket [9, 9, 9, 9, 9, 9, 9, 9] 1 4 0)) 0 0 =
      some (⟨1, 1, (List.replicate 25 ⟨false, 0, 0, 0, ⟨8, 0, 0, some (List.replicate 8 0)⟩⟩).set 1
          ⟨true, 4, 1, 0, ⟨8, 0, 4, some [9, 9, 9, 9, 0, 0, 0, 0]⟩⟩⟩,
        ⟨8, 4, 0, some (fragmentPacket [9, 9, 9, 9, 9, 9, 9, 9] 1 4 0)⟩) := by decide
  exact ⟨_, _, _, by decide, by decide, hfirst, by decide, by decide, by decide, by decide⟩

end OpenVpn
