import OpenVpn.BufferSpec
import OpenVpn.CArith

/-! Fragmentation of data-channel datagrams, `fragment.c`. A datagram longer than the frame's
`max_fragment_size` leaves as up to `MAX_FRAGS` parts of one size (the last one shorter), each
behind a 32-bit header that packs the fragment type, an 8-bit sequence id, a 5-bit fragment id and,
on the last part, the part size divided by four; a shorter datagram leaves whole behind a zero
header. The receiver keeps a window of `N_FRAG_BUF` reassembly slots indexed by sequence id, copies
each part to its offset in the slot's buffer and records it in a 32-bit map, the last part setting
all higher bits.

The sender's buffers are kept by their content; the receiver's buffers are `struct buffer`s, since
a part is copied past the end of what the slot holds. -/

namespace OpenVpn

-- `N_FRAG_BUF`; `N_SEQ_ID`; `MAX_FRAGS`; `FRAG_MAP_MASK`; `FRAG_TYPE_MASK`; `FRAG_TYPE_SHIFT`;
-- `FRAG_WHOLE`; `FRAG_YES_NOTLAST`; `FRAG_YES_LAST`; `FRAG_SEQ_ID_MASK`; `FRAG_SEQ_ID_SHIFT`;
-- `FRAG_ID_MASK`; `FRAG_ID_SHIFT`; `FRAG_SIZE_MASK`; `FRAG_SIZE_SHIFT`; `FRAG_SIZE_ROUND_SHIFT`;
-- `FRAG_SIZE_ROUND_MASK`
def nFragBuf : Int := 25

def nSeqId : Int := 256

def maxFrags : Nat := 32

def fragMapMask : UInt32 := 0xFFFFFFFF

def fragTypeMask : UInt32 := 0x00000003

def fragTypeShift : UInt32 := 0

def fragWhole : Nat := 0

def fragYesNotlast : Nat := 1

def fragYesLast : Nat := 2

def fragSeqIdMask : UInt32 := 0x000000ff

def fragSeqIdShift : UInt32 := 2

def fragIdMask : UInt32 := 0x0000001f

def fragIdShift : UInt32 := 10

def fragSizeMask : UInt32 := 0x00003fff

def fragSizeShift : UInt32 := 15

def fragSizeRoundShift : UInt32 := 2

def fragSizeRoundMask : Nat := 3

/-- `modulo_subtract`: `x - y` on a circle of circumference `mod`; `none` when its `ASSERT` on the
ranges fails. -/
def moduloSubtract (x y mod : Int) : Option Int :=
  let d1 := x - y
  let d2 := (if x > y then -mod else mod) + d1
  if 0 ≤ x ∧ x < mod ∧ 0 ≤ y ∧ y < mod then some (if |d1| > |d2| then d2 else d1) else none

/-- `modulo_add`: `x + y` on a circle of circumference `mod`; `none` when its `ASSERT` fails. -/
def moduloAdd (x y mod : Int) : Option Int :=
  let sum := x + y
  let sum := if sum ≥ mod then sum - mod else sum
  let sum := if sum < 0 then sum + mod else sum
  if 0 ≤ x ∧ x < mod ∧ -mod ≤ y ∧ y ≤ mod then some sum else none

/-! ## The header -/

/-- The header `fragment_prepend_flags` builds, before `htonl`. -/
def fragmentHeader (type seqId fragId fragSize : Nat) : UInt32 :=
  let flags := ((UInt32.ofNat type &&& fragTypeMask) <<< fragTypeShift) |||
    ((UInt32.ofNat seqId &&& fragSeqIdMask) <<< fragSeqIdShift) |||
    ((UInt32.ofNat fragId &&& fragIdMask) <<< fragIdShift)
  if type = fragWhole ∨ type = fragYesNotlast then flags
  else flags ||| (((UInt32.ofNat fragSize >>> fragSizeRoundShift) &&& fragSizeMask) <<< fragSizeShift)

/-- `fragment_prepend_flags`: the header in network order before the content. -/
def fragmentPrependFlags (buf : List UInt8) (type seqId fragId fragSize : Nat) : List UInt8 :=
  BigEndian.encode 4 (fragmentHeader type seqId fragId fragSize).toNat ++ buf

/-! ## The sender -/

/-- `optimal_fragment_size`: a part size, a multiple of four, that keeps the number of parts and
makes the last one about as long as the others. -/
def optimalFragmentSize (len maxFragSize : Nat) : Nat :=
  let mfsAligned := maxFragSize / 4 * 4
  let div := len / mfsAligned
  let mod := len % mfsAligned
  if div > 0 ∧ mod > 0 ∧ mod < mfsAligned * 3 / 4 then
    min mfsAligned ((maxFragSize - (maxFragSize - mod) / (div + 1) + fragSizeRoundMask) / 4 * 4)
  else mfsAligned

/-- `optimal_fragment_size` on C `int`s: each expression evaluated in turn, `none` where one
divides by zero or leaves `int`. -/
def optimalFragmentSizeC (len maxFragSize : Int) : Option Int := do
  let mfsAligned := Int.land maxFragSize (Int.lnot fragSizeRoundMask)
  let div ← CArith.div len mfsAligned
  let mod ← CArith.mod len mfsAligned
  -- `&&` evaluates `mfs_aligned * 3 / 4` only once `div > 0 && mod > 0` holds
  if div > 0 ∧ mod > 0 then
    let threshold ← CArith.div (← CArith.mul mfsAligned 3) 4
    if mod < threshold then
      let q ← CArith.div (← CArith.sub maxFragSize mod) (← CArith.add div 1)
      let size ← CArith.add (← CArith.sub maxFragSize q) fragSizeRoundMask
      pure (min mfsAligned (Int.land size (Int.lnot fragSizeRoundMask)))
    else pure mfsAligned
  else pure mfsAligned

/-- The sending half of `struct fragment_master`, with the content of `outgoing`. -/
structure FragmentOut where
  outgoingSeqId : Int
  outgoingFragSize : Nat
  outgoingFragId : Nat
  outgoing : List UInt8
  deriving DecidableEq, Repr

/-- `fragment_ready_to_send`: the next part with its header, or `none` when nothing is left. -/
def fragmentReadyToSend (f : FragmentOut) : Option (FragmentOut × List UInt8) :=
  if 0 < f.outgoing.length then
    let last := decide (f.outgoing.length ≤ f.outgoingFragSize)
    let size := if last then f.outgoing.length else f.outgoingFragSize
    let buf := fragmentPrependFlags (f.outgoing.take size) (if last then fragYesLast else fragYesNotlast)
      f.outgoingSeqId.toNat f.outgoingFragId f.outgoingFragSize
    some ({ f with outgoing := f.outgoing.drop size, outgoingFragId := f.outgoingFragId + 1 }, buf)
  else none

/-- `fragment_outgoing` of the datagram `buf`: the state and what `buf` holds after it (empty when
the datagram is dropped); `none` when an `ASSERT` fails. -/
def fragmentOutgoing (f : FragmentOut) (buf : List UInt8) (maxFragmentSize : Nat) :
    Option (FragmentOut × List UInt8) :=
  if 0 < buf.length then
    if buf.length > maxFragmentSize then
      let f := { f with outgoingFragSize := optimalFragmentSize buf.length maxFragmentSize }
      if buf.length > f.outgoingFragSize * maxFrags then some (f, [])
      else do
        let seqId ← moduloAdd f.outgoingSeqId 1 nSeqId
        fragmentReadyToSend { f with outgoing := buf, outgoingSeqId := seqId, outgoingFragId := 0 }
    else some (f, fragmentPrependFlags buf fragWhole 0 0 0)
  else some (f, buf)

/-- The parts of up to `fuel` calls of `fragment_ready_to_send`, stopping at the first that
returns false, and the state after them. -/
def fragmentReadyToSendRun (f : FragmentOut) : Nat → List (List UInt8) × FragmentOut
  | 0 => ([], f)
  | fuel + 1 =>
      match fragmentReadyToSend f with
      | none => ([], f)
      | some (f', pkt) =>
          let rest := fragmentReadyToSendRun f' fuel
          (pkt :: rest.1, rest.2)

/-! ## The receiver -/

/-- `struct fragment`: one reassembly slot. -/
structure Fragment where
  defined : Bool
  maxFragSize : Int
  map : UInt32
  timestamp : Int
  buf : Buffer
  deriving DecidableEq, Repr

/-- `struct fragment_list`. -/
structure FragmentList where
  seqId : Int
  index : Int
  fragments : List Fragment
  deriving DecidableEq, Repr

/-- `fragment_list_buf_init` on the cleared list of `fragment_init`: every slot free, with a buffer
from `alloc_buf (BUF_SIZE (frame))`. -/
def fragmentListBufInit (bufSize : Nat) : Option FragmentList :=
  (allocBuf bufSize).map fun buf =>
    { seqId := 0, index := 0, fragments := List.replicate 25 ⟨false, 0, 0, 0, buf⟩ }

/-- The loop of `fragment_list_get_buf` that moves the window `k` sequence ids on, freeing each
slot it enters. -/
def fragmentListAdvance (list : FragmentList) : Nat → Option FragmentList
  | 0 => some list
  | k + 1 => do
      let index ← moduloAdd list.index 1 nFragBuf
      let seqId ← moduloAdd list.seqId 1 nSeqId
      fragmentListAdvance { list with
        index := index
        seqId := seqId
        fragments := list.fragments.modify index.toNat fun frag => { frag with defined := false } } k

/-- `fragment_list_get_buf`: the window moved to take `seqId`, and the index of its slot. -/
def fragmentListGetBuf (list : FragmentList) (seqId : Int) : Option (FragmentList × Nat) := do
  let diff ← moduloSubtract seqId list.seqId nSeqId
  let (list, diff) :=
    if |diff| ≥ nFragBuf then
      ({ list with
          fragments := list.fragments.map fun frag => { frag with defined := false }
          index := 0
          seqId := seqId }, 0)
    else (list, diff)
  let list ← fragmentListAdvance list diff.toNat
  let index ← moduloAdd list.index (min diff 0) nFragBuf
  pure (list, index.toNat)

/-- The block of `fragment_incoming` for the first part of a sequence id and size: the slot starts
afresh, with an empty buffer at the frame's headroom; `none` when its `ASSERT` fails. -/
def fragmentSlotStart (frag : Fragment) (size headroom : Int) : Option Fragment :=
  if !frag.defined || frag.maxFragSize != size then
    match bufInit frag.buf headroom with
    | (b, true) => some { frag with defined := true, maxFragSize := size, map := 0, buf := b }
    | (_, false) => none
  else some frag

/-- The slot of a part after `buf_copy_range` succeeded: the map records part `n`, and the slot
hands out the datagram once the map is full. -/
def fragmentRecord (list : FragmentList) (idx : Nat) (frag : Fragment) (fbuf : Buffer) (last : Bool)
    (n : Nat) (now : Int) (buf : Buffer) : FragmentList × Buffer :=
  let map := frag.map ||| ((if last then fragMapMask else 1) <<< UInt32.ofNat n)
  let frag := { frag with buf := fbuf, map := map, timestamp := now }
  if map &&& fragMapMask = fragMapMask then
    ({ list with fragments := list.fragments.set idx { frag with defined := false } }, fbuf)
  else ({ list with fragments := list.fragments.set idx frag }, { buf with len := 0 })

/-- The part of `fragment_incoming` for a part of a fragmented datagram: `buf` is past the header. -/
def fragmentIncomingPart (list : FragmentList) (buf : Buffer) (flags : UInt32) (last : Bool)
    (headroom now : Int) : Option (FragmentList × Buffer) := do
  let seqId := ((flags >>> fragSeqIdShift) &&& fragSeqIdMask).toNat
  let n := ((flags >>> fragIdShift) &&& fragIdMask).toNat
  let size : Int :=
    if last then (((flags >>> fragSizeShift) &&& fragSizeMask) <<< fragSizeRoundShift).toNat else buf.len
  let (list, idx) ← fragmentListGetBuf list seqId
  let frag ← list.fragments[idx]?
  if size % 4 ≠ 0 then some (list, { buf with len := 0 })
  else
    let frag ← fragmentSlotStart frag size headroom
    match bufCopyRange frag.buf (n * size) buf 0 buf.len with
    | none => none
    | some (fbuf, false) =>
        some ({ list with fragments := list.fragments.set idx { frag with buf := fbuf } }, { buf with len := 0 })
    | some (fbuf, true) => some (fragmentRecord list idx frag fbuf last n now buf)

/-- `fragment_incoming`: the reassembly state and what `buf` holds after it, a whole datagram or
nothing; `none` when an `ASSERT` fails. -/
def fragmentIncoming (list : FragmentList) (buf : Buffer) (headroom now : Int) :
    Option (FragmentList × Buffer) :=
  if 0 < buf.len then
    match bufRead buf 4 with
    | none => none
    | some (buf, none) => some (list, { buf with len := 0 })
    | some (buf, some bytes) =>
        let flags := UInt32.ofNat (BigEndian.decode bytes)
        let fragType := ((flags >>> fragTypeShift) &&& fragTypeMask).toNat
        if fragType = fragWhole then
          if flags &&& (fragSeqIdMask ||| fragIdMask) ≠ 0 then some (list, { buf with len := 0 })
          else some (list, buf)
        else if fragType = fragYesNotlast ∨ fragType = fragYesLast then
          fragmentIncomingPart list buf flags (fragType = fragYesLast) headroom now
        else some (list, { buf with len := 0 })
  else some (list, buf)

/-- `fragment_incoming` of the buffers in order, with what each call leaves in its buffer. -/
def fragmentIncomingRun (list : FragmentList) (headroom now : Int) :
    List Buffer → Option (FragmentList × List Buffer)
  | [] => some (list, [])
  | buf :: bufs => do
      let (list, out) ← fragmentIncoming list buf headroom now
      let (list, outs) ← fragmentIncomingRun list headroom now bufs
      pure (list, out :: outs)

/-! ## Reading the header back -/

theorem toNat_and_fragTypeMask (x : UInt32) : (x &&& fragTypeMask).toNat = x.toNat % 4 := by
  rw [UInt32.toNat_and]
  exact Nat.and_two_pow_sub_one_eq_mod x.toNat 2

theorem toNat_and_fragSeqIdMask (x : UInt32) : (x &&& fragSeqIdMask).toNat = x.toNat % 256 := by
  rw [UInt32.toNat_and]
  exact Nat.and_two_pow_sub_one_eq_mod x.toNat 8

theorem toNat_and_fragIdMask (x : UInt32) : (x &&& fragIdMask).toNat = x.toNat % 32 := by
  rw [UInt32.toNat_and]
  exact Nat.and_two_pow_sub_one_eq_mod x.toNat 5

theorem toNat_and_fragSizeMask (x : UInt32) : (x &&& fragSizeMask).toNat = x.toNat % 16384 := by
  rw [UInt32.toNat_and]
  exact Nat.and_two_pow_sub_one_eq_mod x.toNat 14

/-- The header's fields do not overlap: its value is their sum, each at its shift. -/
theorem toNat_fragmentHeader {type seqId fragId fragSize : Nat} (ht : type < 4) (hs : seqId < 256)
    (hi : fragId < 32) (hz : fragSize < 65536) :
    (fragmentHeader type seqId fragId fragSize).toNat = type + seqId * 2 ^ 2 + fragId * 2 ^ 10 +
      (if type = fragWhole ∨ type = fragYesNotlast then 0 else fragSize / 4 * 2 ^ 15) := by
  have hT : ((UInt32.ofNat type &&& fragTypeMask) <<< fragTypeShift).toNat = type := by
    rw [UInt32.toNat_shiftLeft, toNat_and_fragTypeMask, UInt32.toNat_ofNat']
    simp only [fragTypeShift, UInt32.reduceToNat, Nat.zero_mod, Nat.shiftLeft_zero]
    omega
  have hS : ((UInt32.ofNat seqId &&& fragSeqIdMask) <<< fragSeqIdShift).toNat = seqId * 2 ^ 2 := by
    rw [UInt32.toNat_shiftLeft, toNat_and_fragSeqIdMask, UInt32.toNat_ofNat']
    simp only [fragSeqIdShift, UInt32.reduceToNat, Nat.shiftLeft_eq, Nat.reduceMod, Nat.reducePow]
    omega
  have hI : ((UInt32.ofNat fragId &&& fragIdMask) <<< fragIdShift).toNat = fragId * 2 ^ 10 := by
    rw [UInt32.toNat_shiftLeft, toNat_and_fragIdMask, UInt32.toNat_ofNat']
    simp only [fragIdShift, UInt32.reduceToNat, Nat.shiftLeft_eq, Nat.reduceMod, Nat.reducePow]
    omega
  have hZ : (((UInt32.ofNat fragSize >>> fragSizeRoundShift) &&& fragSizeMask) <<< fragSizeShift).toNat =
      fragSize / 4 * 2 ^ 15 := by
    rw [UInt32.toNat_shiftLeft, toNat_and_fragSizeMask, UInt32.toNat_shiftRight, UInt32.toNat_ofNat']
    simp only [fragSizeShift, fragSizeRoundShift, UInt32.reduceToNat, Nat.shiftLeft_eq,
      Nat.shiftRight_eq_div_pow, Nat.reduceMod, Nat.reducePow]
    omega
  have hlow : (((UInt32.ofNat type &&& fragTypeMask) <<< fragTypeShift) |||
      ((UInt32.ofNat seqId &&& fragSeqIdMask) <<< fragSeqIdShift) |||
      ((UInt32.ofNat fragId &&& fragIdMask) <<< fragIdShift)).toNat =
      type + seqId * 2 ^ 2 + fragId * 2 ^ 10 := by
    rw [UInt32.toNat_or, UInt32.toNat_or, hT, hS, hI, BigEndian.or_mul_two_pow 2 ht,
      BigEndian.or_mul_two_pow 10 (by omega)]
  unfold fragmentHeader
  split_ifs with htype
  · rw [hlow, Nat.add_zero]
  · rw [UInt32.toNat_or, hlow, hZ, BigEndian.or_mul_two_pow 15 (by omega)]

/-- The receiver's shifts and masks give the fields back. -/
theorem fragmentHeader_fields {flags : UInt32} {t s i z : Nat}
    (h : flags.toNat = t + s * 2 ^ 2 + i * 2 ^ 10 + z * 2 ^ 15) (ht : t < 4) (hs : s < 256)
    (hi : i < 32) (hz : z < 16384) :
    ((flags >>> fragTypeShift) &&& fragTypeMask).toNat = t ∧
      ((flags >>> fragSeqIdShift) &&& fragSeqIdMask).toNat = s ∧
      ((flags >>> fragIdShift) &&& fragIdMask).toNat = i ∧
      (((flags >>> fragSizeShift) &&& fragSizeMask) <<< fragSizeRoundShift).toNat = z * 4 := by
  simp only [toNat_and_fragTypeMask, toNat_and_fragSeqIdMask, toNat_and_fragIdMask, UInt32.toNat_shiftLeft,
    toNat_and_fragSizeMask, UInt32.toNat_shiftRight, h, fragTypeShift, fragSeqIdShift, fragIdShift,
    fragSizeShift, fragSizeRoundShift, UInt32.reduceToNat, Nat.shiftRight_eq_div_pow, Nat.shiftLeft_eq,
    Nat.reduceMod, Nat.reducePow]
  omega

/-- The header in network order reads back as itself. -/
theorem fragmentHeader_decode (h : UInt32) : UInt32.ofNat (BigEndian.decode (BigEndian.encode 4 h.toNat)) = h := by
  rw [BigEndian.decode_encode 4 _ h.toNat_lt, UInt32.ofNat_toNat]

/-! ## The modular helpers -/

theorem moduloSubtract_spec {x y m : Int} (hx : 0 ≤ x ∧ x < m) (hy : 0 ≤ y ∧ y < m) :
    ∃ d, moduloSubtract x y m = some d ∧ (d = x - y ∨ d = x - y - m ∨ d = x - y + m) := by
  unfold moduloSubtract
  rw [if_pos ⟨hx.1, hx.2, hy.1, hy.2⟩]
  refine ⟨_, rfl, ?_⟩
  split_ifs <;> omega

theorem moduloSubtract_self {x m : Int} (hx : 0 ≤ x ∧ x < m) : moduloSubtract x x m = some 0 := by
  unfold moduloSubtract
  rw [if_pos ⟨hx.1, hx.2, hx.1, hx.2⟩]
  simp

theorem moduloAdd_eq {x y m : Int} (hx : 0 ≤ x ∧ x < m) (hy : -m ≤ y ∧ y ≤ m) :
    moduloAdd x y m = some (if x + y ≥ m then x + y - m else if x + y < 0 then x + y + m else x + y) := by
  unfold moduloAdd
  rw [if_pos ⟨hx.1, hx.2, hy.1, hy.2⟩]
  congr 1
  split_ifs <;> omega

/-! ## The window of reassembly slots -/

/-- The ranges `fragment_list_get_buf` asserts, and the `N_FRAG_BUF` slots. -/
structure FragmentListInv (list : FragmentList) : Prop where
  seqId_nonneg : 0 ≤ list.seqId
  seqId_lt : list.seqId < nSeqId
  index_nonneg : 0 ≤ list.index
  index_lt : list.index < nFragBuf
  length_fragments : list.fragments.length = 25

/-- Every slot of `new` is a slot of `old`, perhaps freed. -/
def FreedFrom (old new : List Fragment) : Prop :=
  ∀ frag ∈ new, frag ∈ old ∨ ∃ frag' ∈ old, frag = { frag' with defined := false }

theorem FreedFrom.refl (l : List Fragment) : FreedFrom l l := fun _ h => Or.inl h

theorem FreedFrom.trans {l₁ l₂ l₃ : List Fragment} (h₁ : FreedFrom l₁ l₂) (h₂ : FreedFrom l₂ l₃) :
    FreedFrom l₁ l₃ := by
  intro frag hfrag
  rcases h₂ frag hfrag with h | ⟨frag', hfrag', rfl⟩
  · exact h₁ frag h
  · rcases h₁ frag' hfrag' with h | ⟨frag'', hfrag'', rfl⟩
    · exact Or.inr ⟨frag', h, rfl⟩
    · exact Or.inr ⟨frag'', hfrag'', rfl⟩

theorem freedFrom_modify (l : List Fragment) (i : Nat) :
    FreedFrom l (l.modify i fun frag => { frag with defined := false }) := by
  intro _ hfrag
  obtain ⟨j, hj, rfl⟩ := List.getElem_of_mem hfrag
  rw [List.getElem_modify]
  split_ifs
  · exact Or.inr ⟨_, List.getElem_mem _, rfl⟩
  · exact Or.inl (List.getElem_mem _)

theorem freedFrom_map (l : List Fragment) :
    FreedFrom l (l.map fun frag => { frag with defined := false }) := by
  intro frag hfrag
  obtain ⟨frag', hfrag', rfl⟩ := List.mem_map.mp hfrag
  exact Or.inr ⟨frag', hfrag', rfl⟩

theorem moduloAdd_one {x m : Int} (hx : 0 ≤ x ∧ x < m) : moduloAdd x 1 m = some ((x + 1) % m) := by
  rw [moduloAdd_eq hx ⟨by omega, by omega⟩]
  congr 1
  split_ifs with h₁ h₂
  · rw [show x + 1 = m by omega, Int.emod_self, Int.sub_self]
  · omega
  · rw [Int.emod_eq_of_lt (by omega) (by omega)]

/-- Each step of the window frees the slot it enters. -/
theorem fragmentListAdvance_spec (k : Nat) {list : FragmentList} (hinv : FragmentListInv list) :
    ∃ list', fragmentListAdvance list k = some list' ∧ FragmentListInv list' ∧
      list'.seqId = (list.seqId + k) % 256 ∧ list'.index = (list.index + k) % 25 ∧
      FreedFrom list.fragments list'.fragments := by
  induction k generalizing list with
  | zero =>
      have := hinv.seqId_lt
      have := hinv.index_lt
      unfold nSeqId nFragBuf at *
      refine ⟨list, rfl, hinv, ?_, ?_, FreedFrom.refl _⟩
      · rw [Nat.cast_zero, Int.add_zero, Int.emod_eq_of_lt hinv.seqId_nonneg (by omega)]
      · rw [Nat.cast_zero, Int.add_zero, Int.emod_eq_of_lt hinv.index_nonneg (by omega)]
  | succ k ih =>
      have hidx := moduloAdd_one ⟨hinv.index_nonneg, hinv.index_lt⟩
      have hseq := moduloAdd_one ⟨hinv.seqId_nonneg, hinv.seqId_lt⟩
      unfold nFragBuf at hidx
      unfold nSeqId at hseq
      -- the window one sequence id on, with the slot it enters freed
      have hinv₁ : FragmentListInv { list with
          index := (list.index + 1) % 25
          seqId := (list.seqId + 1) % 256
          fragments := list.fragments.modify ((list.index + 1) % 25).toNat fun frag =>
            { frag with defined := false } } :=
        ⟨by simp only; omega, by simp only [nSeqId]; omega, by simp only; omega,
          by simp only [nFragBuf]; omega, by simp only [List.length_modify, hinv.length_fragments]⟩
      obtain ⟨list', hadv, hinv', hs, hi, hfreed⟩ := ih hinv₁
      refine ⟨list', ?_, hinv', ?_, ?_, (freedFrom_modify _ _).trans hfreed⟩
      · simp only [fragmentListAdvance, nSeqId, nFragBuf, hidx, hseq, Option.bind_eq_bind, Option.bind_some]
        exact hadv
      · rw [hs]
        simp only
        omega
      · rw [hi]
        simp only
        omega

/-- A sequence id at most `N_FRAG_BUF - 1` behind the window leaves it as it is. -/
theorem fragmentListGetBuf_of_le_zero {list : FragmentList} {seqId d i : Int}
    (hd : moduloSubtract seqId list.seqId nSeqId = some d) (hlow : -nFragBuf < d) (hle : d ≤ 0)
    (hi : moduloAdd list.index d nFragBuf = some i) :
    fragmentListGetBuf list seqId = some (list, i.toNat) := by
  have habs : ¬|d| ≥ nFragBuf := by
    rw [abs_of_nonpos hle]
    omega
  unfold fragmentListGetBuf
  simp only [hd, Option.bind_eq_bind, Option.bind_some, habs, if_false, Int.toNat_of_nonpos hle,
    fragmentListAdvance, min_eq_left hle, hi]
  rfl

theorem moduloAdd_zero {x m : Int} (hx : 0 ≤ x ∧ x < m) : moduloAdd x 0 m = some x := by
  rw [moduloAdd_eq hx ⟨by omega, by omega⟩]
  simp only [Int.add_zero]
  rw [if_neg (by omega), if_neg (by omega)]

/-- `fragment_list_get_buf` on a window in range: its `ASSERT`s hold, the window stays in range,
slots are at most freed, and asking again for the same sequence id gives the same slot whatever the
slots hold. -/
theorem fragmentListGetBuf_spec {list : FragmentList} (hinv : FragmentListInv list) {seqId : Int}
    (h₀ : 0 ≤ seqId) (h₁ : seqId < nSeqId) :
    ∃ list₁ idx, fragmentListGetBuf list seqId = some (list₁, idx) ∧ FragmentListInv list₁ ∧ idx < 25 ∧
      FreedFrom list.fragments list₁.fragments ∧
      ∀ frags : List Fragment,
        fragmentListGetBuf { list₁ with fragments := frags } seqId = some ({ list₁ with fragments := frags }, idx) := by
  have hs := hinv.seqId_lt
  have hi := hinv.index_lt
  unfold nSeqId nFragBuf at *
  obtain ⟨d, hd, hdval⟩ := moduloSubtract_spec ⟨h₀, h₁⟩ ⟨hinv.seqId_nonneg, hs⟩
  by_cases hfar : |d| ≥ 25
  · -- too far from the window: every slot is freed and the window restarts at `seqId`
    have hinv₀ : FragmentListInv { list with
        fragments := list.fragments.map fun frag => { frag with defined := false }
        index := 0
        seqId := seqId } :=
      ⟨h₀, h₁, le_rfl, by simp [nFragBuf], by simp [hinv.length_fragments]⟩
    refine ⟨_, 0, ?_, hinv₀, by norm_num, freedFrom_map _, fun frags => ?_⟩
    · unfold fragmentListGetBuf
      simp only [nSeqId, nFragBuf, hd, Option.bind_eq_bind, Option.bind_some, hfar, if_true,
        Int.toNat_zero, fragmentListAdvance, min_self, moduloAdd_zero (show (0 : Int) ≤ 0 ∧ (0 : Int) < 25 by omega)]
      rfl
    · exact fragmentListGetBuf_of_le_zero (moduloSubtract_self ⟨h₀, h₁⟩) (by simp [nFragBuf]) le_rfl
        (moduloAdd_zero (by simp [nFragBuf]))
  · by_cases hpos : 0 < d
    · -- ahead of the window: it moves `d` ids on
      obtain ⟨list', hadv, hinv', hseq, hidx, hfreed⟩ := fragmentListAdvance_spec d.toNat hinv
      have hseq' : list'.seqId = seqId := by
        rw [hseq, Int.toNat_of_nonneg hpos.le]
        have : |d| = d := abs_of_pos hpos
        omega
      have hi' := moduloAdd_zero ⟨hinv'.index_nonneg, hinv'.index_lt⟩
      refine ⟨list', list'.index.toNat, ?_, hinv', ?_, hfreed, fun frags => ?_⟩
      · unfold fragmentListGetBuf
        simp only [nSeqId, nFragBuf, hd, Option.bind_eq_bind, Option.bind_some, hfar, if_false, hadv,
          min_eq_right hpos.le]
        rw [show (25 : Int) = nFragBuf from rfl, hi']
        rfl
      · have := hinv'.index_lt
        unfold nFragBuf at this
        omega
      · exact fragmentListGetBuf_of_le_zero (by rw [hseq']; exact moduloSubtract_self ⟨h₀, h₁⟩)
          (by simp [nFragBuf]) le_rfl hi'
    · -- behind the window or at it: nothing moves
      have hle : d ≤ 0 := by omega
      have hd' : |d| = -d := abs_of_nonpos hle
      obtain ⟨i, hi', hirange⟩ : ∃ i, moduloAdd list.index d nFragBuf = some i ∧ 0 ≤ i ∧ i < 25 := by
        rw [moduloAdd_eq ⟨hinv.index_nonneg, hinv.index_lt⟩ (by unfold nFragBuf; omega)]
        refine ⟨_, rfl, ?_⟩
        unfold nFragBuf
        have := hinv.index_nonneg
        split_ifs <;> omega
      refine ⟨list, i.toNat, fragmentListGetBuf_of_le_zero hd (by unfold nFragBuf; omega) hle hi',
        hinv, by omega, FreedFrom.refl _, fun frags => ?_⟩
      exact fragmentListGetBuf_of_le_zero hd (by unfold nFragBuf; omega) hle hi'

end OpenVpn
