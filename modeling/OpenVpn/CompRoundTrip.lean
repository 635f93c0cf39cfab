import OpenVpn.Comp

/-! The compression framings undone. What each framing puts on the wire for a packet `P` is
`compFramed`: a command byte in front, the first byte swapped to the end behind a command byte,
or, in the v2 framings, `P` itself unless it starts with `COMP_ALGV2_INDICATOR_BYTE`. With two
bytes of headroom and one of tailroom, `compress` sends exactly that, and `decompress` gives `P`
back from it, with one exception: the v2 escape is the indicator followed by the algorithm number
`COMP_ALGV2_UNCOMPRESSED` (10), while the receive side expects the on-wire byte
`COMP_ALGV2_UNCOMPRESSED_BYTE` (0) there and empties the packet. -/

namespace OpenVpn

namespace BufBounded

variable {b : Buffer}

/-- The byte at `i` of the content, loaded alone. -/
theorem load_byte (hb : BufBounded b) {i : Nat} {x : UInt8} (h : b.content[i]? = some x) :
    b.load (b.offset + i) 1 = some [x] := by
  have hi : i < b.content.length := (List.getElem?_eq_some_iff.mp h).1
  have hc := hb.length_content
  rw [hb.load_content (by omega) (by omega) (by omega), Int.toNat_natCast, Int.toNat_one,
    List.take_one, List.head?_drop, h]
  rfl

theorem load_first (hb : BufBounded b) {x : UInt8} {rest : List UInt8}
    (hc : b.content = x :: rest) : b.load b.offset 1 = some [x] := by
  have h := hb.load_byte (i := 0) (x := x) (by rw [hc]; rfl)
  simpa using h

/-- A byte stored at `i` of the content replaces the byte there. -/
theorem store_byte (hb : BufBounded b) {i : Nat} (h : i < b.len) (x : UInt8) :
    ∃ b', b.store (b.offset + i) [x] = some b' ∧ BufBounded b' ∧ b'.offset = b.offset ∧
      b'.len = b.len ∧ b'.content = b.content.take i ++ x :: b.content.drop (i + 1) := by
  obtain ⟨b', hs, hb', ho, hl, hc⟩ := @BufBounded.store_content b [x] hb i (by simp; omega)
  exact ⟨b', hs, hb', ho, hl, by rw [hc]; simp⟩

/-- `buf_advance` past `k` bytes of the content drops them. -/
theorem bufAdvance_content (hb : BufBounded b) {k : Nat} (h : k ≤ b.len) :
    bufAdvance b k = ({ b with offset := b.offset + k, len := b.len - k }, true) ∧
      BufBounded { b with offset := b.offset + k, len := b.len - k } ∧
      ({ b with offset := b.offset + k, len := b.len - k } : Buffer).content = b.content.drop k := by
  have ho := hb.offset_nonneg
  have hl := hb.len_le
  refine ⟨?_, hb.window (by omega) (by omega) (by omega), ?_⟩
  · rw [hb.bufAdvance_eq, if_pos ⟨by omega, h⟩]
  · rw [Buffer.content_advance ho (by omega) h, Int.toNat_natCast]

theorem len_of_content (hb : BufBounded b) {bs : List UInt8} (hc : b.content = bs) :
    b.len = bs.length := by
  have hl := hb.length_content
  have := hb.len_nonneg
  rw [hc] at hl
  omega

/-- The content cut to its first `n` bytes. -/
theorem content_shorten {n : Int} (h : n ≤ b.len) :
    ({ b with len := n } : Buffer).content = b.content.take n.toNat := by
  simp only [Buffer.content, List.take_take]
  congr 1
  omega

end BufBounded

section Framing

variable {b : Buffer}

/-- What each framing sends for the packet `P`, as the sending side's comments describe it. -/
def compFramed (ctx : CompressContext) : List UInt8 → List UInt8
  | [] => []
  | x :: rest =>
      match ctx.alg with
      | .stub =>
          if ctx.flags &&& compFSwap ≠ 0 then noCompressByteSwap :: (rest ++ [x])
          else noCompressByte :: x :: rest
      | .lzo => noCompressByte :: x :: rest
      | .lz4 => noCompressByteSwap :: (rest ++ [x])
      | .stubv2 | .lz4v2 =>
          if x = compAlgv2IndicatorByte then
            compAlgv2IndicatorByte :: UInt8.ofNat compAlgv2Uncompressed :: x :: rest
          else x :: rest

/-- `buf_prepend` followed by a store of the bytes `src` to the pointer it returns. -/
theorem prepend_then_store (hb : BufBounded b) {src : List UInt8}
    (h : (src.length : Int) ≤ b.offset)
    (k : Buffer → Option Int → Option Buffer)
    (hk : ∀ b', k b' (some (b.offset - src.length)) = b'.store (b.offset - src.length) src) :
    (match bufPrepend b src.length with | (buf, p) => k buf p) = some (b.prepend src) := by
  obtain ⟨h₁, h₂⟩ := hb.bufPrepend_store h
  rcases hp : bufPrepend b src.length with ⟨b', p⟩
  rw [hp] at h₁ h₂
  dsimp only at h₁ h₂ ⊢
  rw [h₁, hk, h₂]

/-- The swap on send: the first byte goes to the end and `byte` takes its place. -/
theorem swapHeadToTail_eq (hb : BufBounded b) {x : UInt8} {rest : List UInt8}
    (hc : b.content = x :: rest) (hroom : b.offset + b.len + 1 ≤ b.capacity) (byte : UInt8) :
    ∃ b', swapHeadToTail b byte = some b' ∧ BufBounded b' ∧ b'.offset = b.offset ∧
      b'.content = byte :: (rest ++ [x]) := by
  have ho := hb.offset_nonneg
  have hlen : (rest.length + 1 : Int) = b.len := by
    have := hb.length_content
    rw [hc, List.length_cons] at this
    omega
  have hsafe : bufSafe b 1 = true := (hb.bufSafe_iff 1).mpr ⟨by decide, hroom⟩
  -- `++buf->len` takes the byte after the content in, and the first byte is copied there
  have hb₁ := hb.window (o := b.offset) (l := b.len + 1) ho (by omega) (by omega)
  have ht : ({ b with len := b.len + 1 } : Buffer).content.take b.len.toNat = b.content := by
    rw [← BufBounded.content_shorten (by simp only; omega)]
  obtain ⟨b₂, hs₂, hb₂, ho₂, hl₂, hcon₂⟩ :=
    hb₁.store_byte (i := b.len.toNat) (by simp only; omega) x
  have hd : (({ b with len := b.len + 1 } : Buffer).content.drop (b.len.toNat + 1)) = [] := by
    rw [List.drop_eq_nil_iff, hb₁.length_content]
    simp only
    omega
  have hc₂ : b₂.content = x :: (rest ++ [x]) := by
    rw [hcon₂, hd, ht, hc]
    simp
  simp only [Int.toNat_of_nonneg hb.len_nonneg] at hs₂
  obtain ⟨b₃, hs₃, hb₃, ho₃, -, hcon₃⟩ :=
    hb₂.store_byte (i := 0) (by rw [hl₂]; simp only; omega) byte
  simp only [Nat.cast_zero, Int.add_zero, ho₂] at hs₃
  refine ⟨b₃, ?_, hb₃, by rw [ho₃, ho₂], by rw [hcon₃, hc₂]; simp⟩
  simp only [swapHeadToTail, hb.bufBptr_eq, hb.bufLen_eq, cAssert, hsafe, if_true,
    Option.bind_eq_bind, Option.bind_some]
  rw [show ({ b with len := b.len + 1 } : Buffer).load b.offset 1 = some [x] from hb.load_first hc,
    Option.bind_some, hs₂, Option.bind_some, hs₃]

/-- The swap on receive: the command byte is returned and the last byte goes back to the front. -/
theorem swapTailToHead_eq (hb : BufBounded b) {c z : UInt8} {P : List UInt8}
    (hc : b.content = c :: (P ++ [z])) :
    ∃ b', swapTailToHead b = some (c, b') ∧ BufBounded b' ∧ b'.content = z :: P := by
  have ho := hb.offset_nonneg
  have hlen : (P.length + 2 : Int) = b.len := by
    have := hb.length_content
    rw [hc] at this
    simp at this
    omega
  have hb₁ := hb.window (o := b.offset) (l := b.len - 1) ho (by omega)
    (by have := hb.len_le; omega)
  have hc₁ : ({ b with len := b.len - 1 } : Buffer).content = c :: P := by
    rw [BufBounded.content_shorten (by omega), hc,
      show (b.len - 1).toNat = (c :: P).length by simp; omega, ← List.cons_append, List.take_left]
  have hlast : b.load (b.offset + ((P.length + 1 : Nat) : Int)) 1 = some [z] :=
    hb.load_byte (by rw [hc]; simp)
  obtain ⟨b₂, hs₂, hb₂, -, -, hcon₂⟩ := hb₁.store_byte (i := 0) (by simp only; omega) z
  simp only [Nat.cast_zero, Int.add_zero] at hs₂
  refine ⟨b₂, ?_, hb₂, by rw [hcon₂, hc₁]; simp⟩
  have ht : b.offset + bufLen { b with len := b.len - 1 } =
      b.offset + ((P.length + 1 : Nat) : Int) := by
    rw [hb₁.bufLen_eq]
    simp only
    omega
  simp only [swapTailToHead, hb.bufBptr_eq, Option.bind_eq_bind, Option.bind_some, hb.load_first hc,
    ht]
  rw [show ({ b with len := b.len - 1 } : Buffer).load (b.offset + ((P.length + 1 : Nat) : Int)) 1 =
      some [z] from hlast, Option.bind_some, hs₂]
  rfl

/-- `buf_prepend(buf, 1)` and `NO_COMPRESS_BYTE` stored at the pointer it returns. -/
theorem prepend_noCompressByte (hb : BufBounded b) (h : 1 ≤ b.offset) :
    (match bufPrepend b 1 with | (buf, header) => storeByteAt buf header noCompressByte) =
      some (b.prepend [noCompressByte]) :=
  prepend_then_store hb
    (show (([noCompressByte].length : Nat) : Int) ≤ b.offset by simpa using h)
    (fun buf header => storeByteAt buf header noCompressByte) (fun _ => rfl)

/-- `compv2_escape_data_ifneeded`: the two escape bytes in front of a packet that starts with the
indicator, nothing in front of any other. -/
theorem compv2EscapeDataIfneeded_eq (hb : BufBounded b) {x : UInt8} {rest : List UInt8}
    (hc : b.content = x :: rest) (hhead : 2 ≤ b.offset) :
    ∃ sent, compv2EscapeDataIfneeded b = some sent ∧ BufBounded sent ∧
      sent.content = if x = compAlgv2IndicatorByte then
        compAlgv2IndicatorByte :: UInt8.ofNat compAlgv2Uncompressed :: x :: rest
      else x :: rest := by
  simp only [compv2EscapeDataIfneeded, hb.bufBptr_eq, Option.bind_eq_bind, Option.bind_some,
    hb.load_first hc]
  by_cases hx : x = compAlgv2IndicatorByte
  · have hroom : (([compAlgv2IndicatorByte, UInt8.ofNat compAlgv2Uncompressed].length : Nat) : Int) ≤
        b.offset := by simpa using hhead
    refine ⟨_, ?_, hb.prepend_bounded hroom, ?_⟩
    · rw [hx, if_neg (not_not.mpr rfl)]
      exact prepend_then_store hb hroom (fun buf p => p.bind fun p =>
        buf.store p [compAlgv2IndicatorByte, UInt8.ofNat compAlgv2Uncompressed]) (fun _ => rfl)
    · rw [if_pos hx, hb.content_prepend hroom, hc, hx]
      rfl
  · refine ⟨b, ?_, hb, by rw [if_neg hx, hc]⟩
    rw [if_pos (by simpa using hx)]
    rfl

/-- What `compress` sends for a packet with two bytes of headroom and one of tailroom. -/
theorem compCompress_framed (ctx : CompressContext) (hb : BufBounded b) {x : UInt8}
    {rest : List UInt8} (hc : b.content = x :: rest) (hhead : 2 ≤ b.offset)
    (htail : b.offset + b.len + 1 ≤ b.capacity) :
    ∃ sent, compCompress ctx b = some sent ∧ BufBounded sent ∧
      sent.content = compFramed ctx (x :: rest) := by
  have hpos : ¬b.len ≤ 0 := by
    have := hb.length_content
    rw [hc, List.length_cons] at this
    omega
  have hroom : (([noCompressByte].length : Nat) : Int) ≤ b.offset := by
    simpa using (by omega : 1 ≤ b.offset)
  have hpre : compFramed ctx (x :: rest) = noCompressByte :: x :: rest →
      ∃ sent, (match bufPrepend b 1 with | (buf, header) => storeByteAt buf header noCompressByte) =
        some sent ∧ BufBounded sent ∧ sent.content = compFramed ctx (x :: rest) := fun h =>
    ⟨_, prepend_noCompressByte hb (by omega), hb.prepend_bounded hroom,
      by rw [hb.content_prepend hroom, hc, h]; rfl⟩
  obtain ⟨sw, hsw, hswb, -, hswc⟩ := swapHeadToTail_eq hb hc htail noCompressByteSwap
  obtain ⟨esc, hesc, hescb, hescc⟩ := compv2EscapeDataIfneeded_eq hb hc hhead
  cases halg : ctx.alg with
  | stub =>
      simp only [compCompress, halg, stubCompress, if_neg hpos]
      split_ifs with hs
      · exact ⟨sw, hsw, hswb, by rw [hswc, compFramed, halg, if_pos hs]⟩
      · exact hpre (by rw [compFramed, halg, if_neg hs])
  | lzo =>
      simp only [compCompress, halg, lzoCompress]
      exact hpre (by rw [compFramed, halg])
  | lz4 =>
      simp only [compCompress, halg, lz4Compress, if_neg hpos]
      exact ⟨sw, hsw, hswb, by rw [hswc, compFramed, halg]⟩
  | stubv2 =>
      simp only [compCompress, halg, stubv2Compress, if_neg hpos]
      exact ⟨esc, hesc, hescb, by rw [hescc, compFramed, halg]⟩
  | lz4v2 =>
      simp only [compCompress, halg, lz4v2Compress, if_neg hpos]
      exact ⟨esc, hesc, hescb, by rw [hescc, compFramed, halg]⟩

end Framing

section Receive

variable {b work : Buffer} {libs : CompLibs} {frame : CompFrame} {x : UInt8} {rest : List UInt8}

/-- `stub_decompress` without the swap, on a packet behind `NO_COMPRESS_BYTE`. -/
theorem stubDecompress_plain (hb : BufBounded b) {flags : Nat} (hs : ¬flags &&& compFSwap ≠ 0)
    {P : List UInt8} (hc : b.content = noCompressByte :: P) :
    ∃ r, stubDecompress flags b = some r ∧ r.content = P := by
  have hl := hb.len_of_content hc
  rw [List.length_cons] at hl
  obtain ⟨ha, -, hac⟩ := hb.bufAdvance_content (k := 1) (by omega)
  simp only [Nat.cast_one] at ha hac
  refine ⟨_, ?_, by rw [hac, hc]; rfl⟩
  simp only [stubDecompress, if_neg (show ¬b.len ≤ 0 by omega), if_neg hs, hb.bufBptr_eq,
    Option.bind_eq_bind, Option.bind_some, hb.load_first hc, ha, cAssert, if_true, ne_eq,
    not_true_eq_false, if_false]
  rfl

/-- `stub_decompress` with the swap, on a swapped packet behind `NO_COMPRESS_BYTE_SWAP`. -/
theorem stubDecompress_swap (hb : BufBounded b) {flags : Nat} (hs : flags &&& compFSwap ≠ 0)
    (hc : b.content = noCompressByteSwap :: (rest ++ [x])) :
    ∃ r, stubDecompress flags b = some r ∧ r.content = x :: rest := by
  have hl := hb.len_of_content hc
  obtain ⟨r, hr, -, hrc⟩ := swapTailToHead_eq hb hc
  refine ⟨r, ?_, hrc⟩
  simp only [stubDecompress, if_neg (show ¬b.len ≤ 0 by simp at hl; omega), if_pos hs, hr,
    Option.bind_eq_bind, Option.bind_some, ne_eq, not_true_eq_false, if_false]
  rfl

/-- `stubv2_decompress` leaves a packet that does not start with the indicator as it is. -/
theorem stubv2Decompress_plain (hb : BufBounded b) (hc : b.content = x :: rest)
    (hx : x ≠ compAlgv2IndicatorByte) : stubv2Decompress b = some b := by
  have hl := hb.len_of_content hc
  simp only [stubv2Decompress, if_neg (show ¬b.len ≤ 0 by simp at hl; omega), hb.bufBptr_eq,
    Option.bind_eq_bind, Option.bind_some, hb.load_first hc]
  rw [if_pos (by simpa using hx)]
  rfl

/-- `stubv2_decompress` on the indicator followed by a byte other than
`COMP_ALGV2_UNCOMPRESSED_BYTE`: the packet is emptied. -/
theorem stubv2Decompress_escaped (hb : BufBounded b) {y : UInt8}
    (hc : b.content = compAlgv2IndicatorByte :: y :: rest) (hy : y ≠ compAlgv2UncompressedByte) :
    stubv2Decompress b =
      some { b with offset := b.offset + 1 + 1, len := 0 } := by
  have hl := hb.len_of_content hc
  simp only [List.length_cons] at hl
  obtain ⟨ha, hab, hac⟩ := hb.bufAdvance_content (k := 1) (by omega)
  simp only [Nat.cast_one] at ha hab hac
  rw [hc, List.drop_one, List.tail_cons] at hac
  obtain ⟨ha₂, -, -⟩ := hab.bufAdvance_content (k := 1) (by simp only; omega)
  simp only [Nat.cast_one] at ha₂
  simp only [stubv2Decompress, if_neg (show ¬b.len ≤ 0 by omega), hb.bufBptr_eq,
    Option.bind_eq_bind, Option.bind_some, hb.load_first hc, ne_eq, not_true_eq_false, if_false, ha]
  rw [if_neg (show ¬b.len - 1 ≤ 0 by omega), hab.bufBptr_eq, Option.bind_some, hab.load_first hac,
    Option.bind_some, ha₂]
  rw [if_pos (by simpa using hy)]
  rfl

section Work

variable (hw : BufBounded work) (hwh : 0 ≤ frame.headroom ∧ frame.headroom ≤ work.capacity)
include hw hwh

/-- The `buf_init(&work, frame->buf.headroom)` each library decompressor starts with. -/
theorem bufInit_work :
    bufInit work frame.headroom = ({ work with len := 0, offset := frame.headroom }, true) := by
  rw [hw.bufInit_eq, if_pos hwh]

/-- `lzo_decompress` on a packet behind `NO_COMPRESS_BYTE`. -/
theorem lzoDecompress_plain (hb : BufBounded b) {P : List UInt8}
    (hc : b.content = noCompressByte :: P) :
    ∃ r, lzoDecompress libs frame work b = some r ∧ r.content = P := by
  have hl := hb.len_of_content hc
  rw [List.length_cons] at hl
  obtain ⟨ha, -, hac⟩ := hb.bufAdvance_content (k := 1) (by omega)
  simp only [Nat.cast_one] at ha hac
  refine ⟨_, ?_, by rw [hac, hc]; rfl⟩
  simp only [lzoDecompress, if_neg (show ¬b.len ≤ 0 by omega), bufInit_work hw hwh, cAssert,
    if_true, hb.bufBptr_eq, Option.bind_eq_bind, Option.bind_some, hb.load_first hc, ha]
  rw [if_neg (by decide)]
  rfl

/-- `lz4_decompress` on a swapped packet behind `NO_COMPRESS_BYTE_SWAP`. -/
theorem lz4Decompress_swap (hb : BufBounded b)
    (hc : b.content = noCompressByteSwap :: (rest ++ [x])) :
    ∃ r, lz4Decompress libs frame work b = some r ∧ r.content = x :: rest := by
  have hl := hb.len_of_content hc
  obtain ⟨r, hr, -, hrc⟩ := swapTailToHead_eq hb hc
  refine ⟨r, ?_, hrc⟩
  simp only [lz4Decompress, if_neg (show ¬b.len ≤ 0 by simp at hl; omega),
    bufInit_work hw hwh, cAssert, if_true, hr, Option.bind_eq_bind, Option.bind_some]
  rw [if_neg (by decide)]
  rfl

/-- `lz4v2_decompress` leaves a packet that does not start with the indicator as it is. -/
theorem lz4v2Decompress_plain (hb : BufBounded b) (hc : b.content = x :: rest)
    (hx : x ≠ compAlgv2IndicatorByte) : lz4v2Decompress libs frame work b = some b := by
  have hl := hb.len_of_content hc
  simp only [lz4v2Decompress, if_neg (show ¬b.len ≤ 0 by simp at hl; omega),
    bufInit_work hw hwh, cAssert, if_true, hb.bufBptr_eq, Option.bind_eq_bind, Option.bind_some,
    hb.load_first hc]
  rw [if_pos (by simpa using hx)]
  rfl

/-- `lz4v2_decompress` on the indicator followed by a byte that is neither `COMP_ALGV2_LZ4_BYTE`
nor `COMP_ALGV2_UNCOMPRESSED_BYTE`: the packet is emptied. -/
theorem lz4v2Decompress_escaped (hb : BufBounded b) {y : UInt8}
    (hc : b.content = compAlgv2IndicatorByte :: y :: rest) (hy₁ : y ≠ compAlgv2Lz4Byte)
    (hy₀ : y ≠ compAlgv2UncompressedByte) :
    lz4v2Decompress libs frame work b = some { b with len := 0 } := by
  have hl := hb.len_of_content hc
  simp only [List.length_cons] at hl
  have hsecond : b.load (b.offset + 1) 1 = some [y] := by
    simpa using hb.load_byte (i := 1) (x := y) (by rw [hc]; rfl)
  simp only [lz4v2Decompress, if_neg (show ¬b.len ≤ 0 by omega), bufInit_work hw hwh, cAssert,
    if_true, hb.bufBptr_eq, Option.bind_eq_bind, Option.bind_some, hb.load_first hc, ne_eq,
    not_true_eq_false, if_false]
  rw [if_neg (show ¬b.len ≤ 1 by omega), hsecond, Option.bind_some, if_neg (by simpa using hy₁),
    if_neg (by simpa using hy₀)]
  rfl

end Work

/-- What `decompress` makes of what `compress` sent for `x :: rest`. -/
theorem compDecompress_framed (ctx : CompressContext) (hw : BufBounded work)
    (hwh : 0 ≤ frame.headroom ∧ frame.headroom ≤ work.capacity) (hb : BufBounded b)
    (hc : b.content = compFramed ctx (x :: rest)) :
    ∃ r, compDecompress ctx libs frame work b = some r ∧
      if (ctx.alg = .stubv2 ∨ ctx.alg = .lz4v2) ∧ x = compAlgv2IndicatorByte then r.len = 0
      else r.content = x :: rest := by
  -- the escape carries the algorithm number 10 where both v2 receivers look for 0 (or 1)
  have h₀ : UInt8.ofNat compAlgv2Uncompressed ≠ compAlgv2UncompressedByte := by decide
  have h₁ : UInt8.ofNat compAlgv2Uncompressed ≠ compAlgv2Lz4Byte := by decide
  cases halg : ctx.alg with
  | stub =>
      simp only [compFramed, halg] at hc
      simp only [compDecompress, halg, reduceCtorEq, or_self, false_and, if_false]
      split_ifs at hc with hs
      · exact stubDecompress_swap hb hs hc
      · exact stubDecompress_plain hb hs hc
  | lzo =>
      simp only [compFramed, halg] at hc
      simp only [compDecompress, halg, reduceCtorEq, or_self, false_and, if_false]
      exact lzoDecompress_plain hw hwh hb hc
  | lz4 =>
      simp only [compFramed, halg] at hc
      simp only [compDecompress, halg, reduceCtorEq, or_self, false_and, if_false]
      exact lz4Decompress_swap hw hwh hb hc
  | stubv2 =>
      simp only [compFramed, halg] at hc
      simp only [compDecompress, halg, true_or, true_and]
      split_ifs at hc ⊢ with hx
      · exact ⟨_, stubv2Decompress_escaped hb hc h₀, rfl⟩
      · exact ⟨b, stubv2Decompress_plain hb hc hx, hc⟩
  | lz4v2 =>
      simp only [compFramed, halg] at hc
      simp only [compDecompress, halg, or_true, true_and]
      split_ifs at hc ⊢ with hx
      · exact ⟨_, lz4v2Decompress_escaped hw hwh hb hc h₁ h₀, rfl⟩
      · exact ⟨b, lz4v2Decompress_plain hw hwh hb hc hx, hc⟩

end Receive

/-- The round trip of every framing, on every non-empty packet with two bytes of headroom and one
of tailroom: `decompress` gives back what was given to `compress`, except that the v2 framings
empty a packet that starts with `COMP_ALGV2_INDICATOR_BYTE`. -/
theorem comp_round_trip_empties_v2_indicator_packets (ctx : CompressContext) (libs : CompLibs)
    (frame : CompFrame) {work buf : Buffer} (hw : BufBounded work)
    (hwh : 0 ≤ frame.headroom ∧ frame.headroom ≤ work.capacity) (hb : BufBounded buf)
    (hne : buf.content ≠ []) (hhead : 2 ≤ buf.offset)
    (htail : buf.offset + buf.len + 1 ≤ buf.capacity) :
    ∃ sent recv, compCompress ctx buf = some sent ∧
      compDecompress ctx libs frame work sent = some recv ∧
      if (ctx.alg = .stubv2 ∨ ctx.alg = .lz4v2) ∧ buf.content.head? = some compAlgv2IndicatorByte
      then recv.len = 0 else recv.content = buf.content := by
  obtain ⟨x, rest, hc⟩ := List.exists_cons_of_ne_nil hne
  obtain ⟨sent, hs, hsb, hsc⟩ := compCompress_framed ctx hb hc hhead htail
  obtain ⟨recv, hr, hrecv⟩ := @compDecompress_framed sent work libs frame x rest ctx hw hwh hsb hsc
  refine ⟨sent, recv, hs, hr, ?_⟩
  simpa only [hc, List.head?_cons, Option.some_inj] using hrecv

/-- The one-byte packet `0x50`, with two bytes of headroom and one of tailroom. -/
def indicatorPacket : Buffer := { Buffer.ofBytes [0, 0, 0x50, 0] with offset := 2, len := 1 }

/-- Library decompressors that always fail; no framing calls them on what it sent. -/
def failingLibs : CompLibs := ⟨fun _ _ => none, fun _ _ => none⟩

theorem comp_round_trip_stubv2_empties_0x50 :
    ∃ sent recv, compCompress ⟨.stubv2, 0⟩ indicatorPacket = some sent ∧
      compDecompress ⟨.stubv2, 0⟩ failingLibs ⟨0, 0⟩ (Buffer.ofBytes []) sent = some recv ∧
      recv.len = 0 := by
  have hb : BufBounded indicatorPacket :=
    (bufBounded_ofBytes (by decide)).window (by decide) (by decide) (by decide)
  obtain ⟨sent, recv, hs, hr, hrecv⟩ := comp_round_trip_empties_v2_indicator_packets ⟨.stubv2, 0⟩
    failingLibs ⟨0, 0⟩ (bufBounded_ofBytes (show (([] : List UInt8).length : Int) < bufSizeMax by decide)) (by decide) hb (by decide)
    (by decide) (by decide)
  rw [if_pos (by decide)] at hrecv
  exact ⟨sent, recv, hs, hr, hrecv⟩

end OpenVpn
