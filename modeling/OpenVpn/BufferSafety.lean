import OpenVpn.BufferSpec

/-! Memory safety and failure atomicity of the `struct buffer` primitives. From a buffer that
keeps its representation invariant with a capacity below `BUF_SIZE_MAX`, every primitive stays
inside the allocation, keeps the invariant, and leaves the buffer as it was when it reports
failure; `buf_copy_n` is the exception, since it consumes from `src` before its write to `dest`
can fail. Without the capacity bound, or with `int` arguments whose sum overflows, the checks of
`buf_safe` and `buf_copy_range` wrap and the primitives write or read outside the allocation. -/

namespace OpenVpn

section Atomic

variable {σ α : Type} (P : σ → Prop)

/-- From every state satisfying `P`, `op` is defined (it touches no memory outside the state),
keeps `P`, and leaves the state as it was when its result reports failure. -/
def AtomicOp (op : σ → Option (σ × α)) (failed : α → Prop) : Prop :=
  ∀ s, P s → ∃ s' r, op s = some (s', r) ∧ P s' ∧ (failed r → s' = s)

/-- From every state satisfying `P`, `op` is defined and keeps `P`. -/
def SafeOp (op : σ → Option σ) : Prop :=
  ∀ s, P s → ∃ s', op s = some s' ∧ P s'

variable {P}

theorem atomicOp_of_pure {op : σ → σ × α} {failed : α → Prop}
    (h : ∀ s, P s → P (op s).1 ∧ (failed (op s).2 → (op s).1 = s)) :
    AtomicOp P (fun s => some (op s)) failed := by
  intro s hs
  obtain ⟨h₁, h₂⟩ := h s hs
  exact ⟨(op s).1, (op s).2, rfl, h₁, h₂⟩

end Atomic

/-- The region of `size` bytes at the index a primitive returns lies inside the allocation. -/
def ReturnsRegion (op : Buffer → Buffer × Option Int) (size : Int) : Prop :=
  ∀ b cp, BufBounded b → (op b).2 = some cp → 0 ≤ cp ∧ cp + size ≤ b.capacity

theorem bufInit_atomic (offset : Int) :
    AtomicOp BufBounded (fun b => some (bufInit b offset)) (· = false) := by
  refine atomicOp_of_pure fun b hb => ?_
  rw [hb.bufInit_eq]
  split_ifs with h
  · exact ⟨hb.window h.1 le_rfl (by omega), by simp⟩
  · exact ⟨hb, fun _ => rfl⟩

theorem bufPrepend_atomic (size : Int) :
    AtomicOp BufBounded (fun b => some (bufPrepend b size)) (· = none) := by
  refine atomicOp_of_pure fun b hb => ?_
  have := hb.len_le
  rw [hb.bufPrepend_eq]
  split_ifs with h
  · exact ⟨hb.window (by omega) (by have := hb.len_nonneg; omega) (by omega), by simp⟩
  · exact ⟨hb, fun _ => rfl⟩

theorem bufPrepend_region (size : Int) : ReturnsRegion (bufPrepend · size) size := by
  intro b cp hb hcp
  dsimp only at hcp
  rw [hb.bufPrepend_eq] at hcp
  split_ifs at hcp with h
  · cases hcp
    have := hb.offset_le
    omega

theorem bufAdvance_atomic (size : Int) :
    AtomicOp BufBounded (fun b => some (bufAdvance b size)) (· = false) := by
  refine atomicOp_of_pure fun b hb => ?_
  have := hb.len_le
  rw [hb.bufAdvance_eq]
  split_ifs with h
  · exact ⟨hb.window (by have := hb.offset_nonneg; omega) (by omega) (by omega), by simp⟩
  · exact ⟨hb, fun _ => rfl⟩

theorem bufWriteAlloc_atomic (n : Nat) :
    AtomicOp BufBounded (fun b => some (bufWriteAlloc b n)) (· = none) := by
  refine atomicOp_of_pure fun b hb => ?_
  rw [hb.bufWriteAlloc_eq]
  split_ifs with h
  · exact ⟨hb.window hb.offset_nonneg (by have := hb.len_nonneg; omega) (by omega), by simp⟩
  · exact ⟨hb, fun _ => rfl⟩

theorem bufWriteAlloc_region (n : Nat) : ReturnsRegion (bufWriteAlloc · n) n := by
  intro b cp hb hcp
  dsimp only at hcp
  rw [hb.bufWriteAlloc_eq] at hcp
  split_ifs at hcp with h
  · cases hcp
    have := hb.offset_nonneg
    have := hb.len_nonneg
    omega

theorem bufReadAlloc_atomic (size : Int) :
    AtomicOp BufBounded (fun b => some (bufReadAlloc b size)) (· = none) := by
  refine atomicOp_of_pure fun b hb => ?_
  have := hb.len_le
  rw [hb.bufReadAlloc_eq]
  split_ifs with h
  · exact ⟨hb.window (by have := hb.offset_nonneg; omega) (by omega) (by omega), by simp⟩
  · exact ⟨hb, fun _ => rfl⟩

theorem bufReadAlloc_region (size : Int) : ReturnsRegion (bufReadAlloc · size) size := by
  intro b cp hb hcp
  dsimp only at hcp
  rw [hb.bufReadAlloc_eq] at hcp
  split_ifs at hcp with h
  · cases hcp
    have := hb.offset_nonneg
    have := hb.len_le
    omega

theorem bufIncLen_atomic (inc : Int) :
    AtomicOp BufBounded (fun b => some (bufIncLen b inc)) (· = false) := by
  refine atomicOp_of_pure fun b hb => ?_
  rw [hb.bufIncLen_eq]
  split_ifs with h
  · exact ⟨hb.window hb.offset_nonneg h.2.2.1 (by omega), by simp⟩
  · exact ⟨hb, fun _ => rfl⟩

theorem bufWrite_atomic (src : List UInt8) :
    AtomicOp BufBounded (fun b => bufWrite b src 0 src.length) (· = false) := by
  intro b hb
  dsimp only
  have ho := hb.offset_nonneg
  have := hb.len_nonneg
  rw [hb.bufWrite_eq]
  split_ifs with h
  · exact ⟨_, _, rfl, hb.splice ho (by omega) (by omega) (by omega), by simp⟩
  · exact ⟨b, false, rfl, hb, fun _ => rfl⟩

theorem bufWritePrepend_atomic (src : List UInt8) :
    AtomicOp BufBounded (fun b => bufWritePrepend b src 0 src.length) (· = false) := by
  intro b hb
  dsimp only
  have := hb.len_le
  have := hb.len_nonneg
  rw [hb.bufWritePrepend_eq]
  split_ifs with h
  · exact ⟨_, _, rfl, hb.splice (by omega) (by omega) (by omega) (by omega), by simp⟩
  · exact ⟨b, false, rfl, hb, fun _ => rfl⟩

theorem bufRead_atomic (size : Int) :
    AtomicOp BufBounded (fun b => bufRead b size) (· = none) := by
  intro b hb
  dsimp only
  have := hb.len_le
  rw [hb.bufRead_eq]
  split_ifs with h
  · exact ⟨_, _, rfl, hb.window (by have := hb.offset_nonneg; omega) (by omega) (by omega), by simp⟩
  · exact ⟨b, none, rfl, hb, fun _ => rfl⟩

theorem bufReadU8_atomic : AtomicOp BufBounded bufReadU8 (· = -1) := by
  intro b hb
  dsimp only
  have := hb.len_le
  rw [hb.bufReadU8_eq]
  split_ifs with h
  · exact ⟨_, _, rfl, hb.window (by have := hb.offset_nonneg; omega) (by omega) (by omega),
      by omega⟩
  · exact ⟨b, -1, rfl, hb, fun _ => rfl⟩

theorem bufReadU16_atomic : AtomicOp BufBounded bufReadU16 (· = -1) := by
  intro b hb
  dsimp only
  have := hb.len_le
  rw [hb.bufReadU16_eq]
  split_ifs with h
  · exact ⟨_, _, rfl, hb.window (by have := hb.offset_nonneg; omega) (by omega) (by omega),
      by omega⟩
  · exact ⟨b, -1, rfl, hb, fun _ => rfl⟩

theorem bufReadU32_atomic : AtomicOp BufBounded bufReadU32 (·.2 = false) := by
  intro b hb
  dsimp only
  have := hb.len_le
  rw [hb.bufReadU32_eq]
  split_ifs with h
  · exact ⟨_, _, rfl, hb.window (by have := hb.offset_nonneg; omega) (by omega) (by omega),
      by simp⟩
  · exact ⟨b, (0, false), rfl, hb, fun _ => rfl⟩

theorem bufCopyRange_atomic {dest src : Buffer} (hd : BufBounded dest) (hs : BufBounded src)
    {destIndex srcIndex srcLen : Int} (hsi : srcIndex + srcLen < 2 ^ 31)
    (hdi : dest.offset + destIndex + srcLen < 2 ^ 31) :
    ∃ dest' ok, bufCopyRange dest destIndex src srcIndex srcLen = some (dest', ok) ∧
      BufBounded dest' ∧ (ok = false → dest' = dest) := by
  rw [hd.bufCopyRange_eq hs hsi hdi]
  split_ifs with h
  · have := hd.len_le
    have := hd.offset_nonneg
    have := hs.offset_nonneg
    have hlen : ((src.content.drop srcIndex.toNat).take srcLen.toNat).length = srcLen.toNat := by
      simp only [Buffer.content, List.length_take, List.length_drop]
      have := hs.length_bytes
      have := hs.len_le
      omega
    have hsp := @BufBounded.splice dest hd dest.offset (max dest.len (destIndex + srcLen))
      (dest.offset + destIndex).toNat ((src.content.drop srcIndex.toNat).take srcLen.toNat)
      hd.offset_nonneg (by have := hd.len_nonneg; omega) (by omega) (by rw [hlen]; omega)
    rw [hlen] at hsp
    exact ⟨_, _, rfl, hsp, by simp⟩
  · exact ⟨dest, false, rfl, hd, fun _ => rfl⟩

/-- `buf_copy_n` keeps both invariants; when it fails, `dest` is as it was but `src` may have
been advanced past the `n` bytes already. -/
theorem bufCopyN_safe {dest src : Buffer} (hd : BufBounded dest) (hs : BufBounded src) (n : Int) :
    ∃ dest' src' ok, bufCopyN dest src n = some (dest', src', ok) ∧ BufBounded dest' ∧
      BufBounded src' ∧ (ok = false → dest' = dest ∧
        (src' = src ∨ src' = { src with offset := src.offset + n, len := src.len - n })) := by
  rw [hs.bufCopyN_eq]
  split_ifs with h
  · have := hs.len_le
    have hadv := hs.window (o := src.offset + n) (l := src.len - n)
      (by have := hs.offset_nonneg; omega) (by omega) (by omega)
    obtain ⟨dest', ok, hw, hd', hfail⟩ := bufWrite_atomic (src.content.take n.toNat) dest hd
    dsimp only at hw
    rw [hw, Option.map_some]
    exact ⟨dest', _, ok, rfl, hd', hadv, fun hok => ⟨hfail hok, Or.inr rfl⟩⟩
  · exact ⟨dest, src, false, rfl, hd, hs, fun _ => ⟨rfl, Or.inl rfl⟩⟩

theorem bufSub_atomic {size : Int} (hsize : -2 ^ 31 ≤ size ∧ size < 2 ^ 31) (prepend : Bool) :
    AtomicOp BufBounded (fun b => some (bufSub b size prepend)) (·.data = none) := by
  refine atomicOp_of_pure fun b hb => ?_
  have := hb.len_le
  have := hb.len_nonneg
  have := hb.offset_nonneg
  rw [hb.bufSub_eq hsize]
  split_ifs with hp h h
  · exact ⟨hb.window (by omega) (by omega) (by omega), by simp⟩
  · exact ⟨hb, fun _ => rfl⟩
  · exact ⟨hb.window (by omega) (by omega) (by omega), by simp⟩
  · exact ⟨hb, fun _ => rfl⟩

/-- A sub-buffer over `size` bytes of its parent's allocation. -/
theorem bufBounded_sub {b : Buffer} (hb : BufBounded b) {size : Int} (hs : 0 ≤ size)
    (hcap : size < bufSizeMax) (start : Nat) (hin : start + size ≤ b.capacity) :
    BufBounded ⟨size, 0, 0, some ((b.bytes.drop start).take size.toNat)⟩ where
  data_eq := rfl
  length_bytes := by
    change (((b.bytes.drop start).take size.toNat).length : Int) = size
    simp only [List.length_take, List.length_drop]
    have := hb.length_bytes
    omega
  offset_nonneg := le_rfl
  offset_le := hs
  len_nonneg := le_rfl
  len_le := by simp only; omega
  capacity_lt := hcap

theorem bufSub_bounded {size : Int} (hsize : -2 ^ 31 ≤ size ∧ size < 2 ^ 31) (prepend : Bool)
    (b : Buffer) (hb : BufBounded b) (hdef : (bufSub b size prepend).2.data ≠ none) :
    BufBounded (bufSub b size prepend).2 := by
  have := hb.len_le
  have := hb.len_nonneg
  have := hb.offset_nonneg
  have := hb.capacity_lt_num
  rw [hb.bufSub_eq hsize] at hdef ⊢
  split_ifs at hdef ⊢ with hp h h
  · exact bufBounded_sub hb h.1 (by unfold bufSizeMax; omega) _ (by omega)
  · exact absurd rfl hdef
  · exact bufBounded_sub hb h.1 h.2.1 _ (by omega)
  · exact absurd rfl hdef

theorem bufNullTerminateAppend_safe : SafeOp BufBounded bufNullTerminateAppend := by
  intro b hb
  have hb' : BufBounded (if !bufSafe b 1 then (bufIncLen b (-1)).1 else b) := by
    split_ifs
    · rw [hb.bufIncLen_eq]
      split_ifs with hi
      · exact hb.window hb.offset_nonneg hi.2.2.1 (by omega)
      · exact hb
    · exact hb
  obtain ⟨b', ok, hw, hb'', -⟩ := bufWrite_atomic [0] _ hb'
  dsimp only at hw
  rw [List.length_singleton] at hw
  exact ⟨b', by rw [bufNullTerminateAppend, hw]; rfl, hb''⟩

theorem bufNullTerminate_safe : SafeOp BufBounded bufNullTerminate := by
  intro b hb
  have := hb.len_le
  unfold bufNullTerminate
  rw [hb.bufBlast_eq]
  split_ifs with h
  · dsimp only
    rw [hb.load_eq (by have := hb.offset_nonneg; omega) (by omega) (by omega)]
    simp only [Option.bind_eq_bind, Option.bind_some]
    split_ifs
    · exact ⟨b, rfl, hb⟩
    · exact bufNullTerminateAppend_safe b hb
  · exact bufNullTerminateAppend_safe b hb

theorem bufChompLoop_safe (fuel : Nat) : SafeOp BufBounded (bufChompLoop fuel) := by
  induction fuel with
  | zero => exact fun b hb => ⟨b, rfl, hb⟩
  | succ fuel ih =>
      intro b hb
      have := hb.len_le
      unfold bufChompLoop
      rw [hb.bufBlast_eq]
      split_ifs with h
      · dsimp only
        rw [hb.load_eq (by have := hb.offset_nonneg; omega) (by omega) (by omega)]
        simp only [Option.bind_eq_bind, Option.bind_some]
        split_ifs
        · rw [hb.bufIncLen_eq]
          split_ifs with hi
          · exact ih _ (hb.window hb.offset_nonneg hi.2.2.1 (by omega))
          · exact ⟨b, rfl, hb⟩
        · exact ⟨b, rfl, hb⟩
      · exact ⟨b, rfl, hb⟩

theorem bufChomp_safe : SafeOp BufBounded bufChomp := by
  intro b hb
  obtain ⟨b', hloop, hb'⟩ := bufChompLoop_safe _ b hb
  obtain ⟨b'', hnt, hb''⟩ := bufNullTerminate_safe b' hb'
  exact ⟨b'', by rw [bufChomp, hloop, Option.bind_eq_bind, Option.bind_some, hnt], hb''⟩

/-- `buf_copy_n` can fail with `src` already advanced: `dest` is full, `src` has a byte. -/
theorem bufCopyN_advances_src_on_failure :
    ∃ dest src : Buffer, ∃ n : Int, BufBounded dest ∧ BufBounded src ∧ ∃ src',
      bufCopyN dest src n = some (dest, src', false) ∧ src' ≠ src :=
  ⟨⟨1, 0, 1, some [0]⟩, ⟨1, 0, 1, some [7]⟩, 1,
    ⟨⟨rfl, rfl, by decide, by decide, by decide, by decide⟩, by decide⟩,
    ⟨⟨rfl, rfl, by decide, by decide, by decide, by decide⟩, by decide⟩,
    ⟨1, 1, 0, some [7]⟩, by decide, by decide⟩

/-- **The primitives from a bounded buffer.** Every primitive is defined from a buffer with the
invariant and a capacity below `BUF_SIZE_MAX`, keeps both, returns regions inside the allocation,
and leaves its buffers as they were when it reports failure, except `buf_copy_n`, whose failed
write to `dest` comes after `src` was advanced; `buf_copy_range` takes arguments whose `int`
sums do not overflow and `buf_sub` an `int` size. -/
theorem buffer_primitives_safe_and_atomic :
    (∀ offset, AtomicOp BufBounded (fun b => some (bufInit b offset)) (· = false)) ∧
    (∀ size, AtomicOp BufBounded (fun b => some (bufPrepend b size)) (· = none) ∧
      ReturnsRegion (bufPrepend · size) size) ∧
    (∀ size, AtomicOp BufBounded (fun b => some (bufAdvance b size)) (· = false)) ∧
    (∀ n : Nat, AtomicOp BufBounded (fun b => some (bufWriteAlloc b n)) (· = none) ∧
      ReturnsRegion (bufWriteAlloc · n) n) ∧
    (∀ src : List UInt8, AtomicOp BufBounded (fun b => bufWrite b src 0 src.length) (· = false)) ∧
    (∀ src : List UInt8,
      AtomicOp BufBounded (fun b => bufWritePrepend b src 0 src.length) (· = false)) ∧
    (∀ size, AtomicOp BufBounded (fun b => some (bufReadAlloc b size)) (· = none) ∧
      ReturnsRegion (bufReadAlloc · size) size) ∧
    (∀ size, AtomicOp BufBounded (fun b => bufRead b size) (· = none)) ∧
    AtomicOp BufBounded bufReadU8 (· = -1) ∧
    AtomicOp BufBounded bufReadU16 (· = -1) ∧
    AtomicOp BufBounded bufReadU32 (·.2 = false) ∧
    (∀ inc, AtomicOp BufBounded (fun b => some (bufIncLen b inc)) (· = false)) ∧
    (∀ dest src : Buffer, ∀ destIndex srcIndex srcLen : Int, BufBounded dest → BufBounded src →
      srcIndex + srcLen < 2 ^ 31 → dest.offset + destIndex + srcLen < 2 ^ 31 →
      ∃ dest' ok, bufCopyRange dest destIndex src srcIndex srcLen = some (dest', ok) ∧
        BufBounded dest' ∧ (ok = false → dest' = dest)) ∧
    (∀ dest src : Buffer, ∀ n : Int, BufBounded dest → BufBounded src →
      ∃ dest' src' ok, bufCopyN dest src n = some (dest', src', ok) ∧ BufBounded dest' ∧
        BufBounded src' ∧ (ok = false → dest' = dest ∧
          (src' = src ∨ src' = { src with offset := src.offset + n, len := src.len - n }))) ∧
    (∃ dest src : Buffer, ∃ n : Int, BufBounded dest ∧ BufBounded src ∧ ∃ src',
      bufCopyN dest src n = some (dest, src', false) ∧ src' ≠ src) ∧
    (∀ size : Int, -2 ^ 31 ≤ size ∧ size < 2 ^ 31 → ∀ prepend,
      AtomicOp BufBounded (fun b => some (bufSub b size prepend)) (·.data = none) ∧
      ∀ b, BufBounded b → (bufSub b size prepend).2.data ≠ none →
        BufBounded (bufSub b size prepend).2) ∧
    SafeOp BufBounded bufNullTerminate ∧
    SafeOp BufBounded bufChomp :=
  ⟨bufInit_atomic, fun size => ⟨bufPrepend_atomic size, bufPrepend_region size⟩, bufAdvance_atomic,
    fun n => ⟨bufWriteAlloc_atomic n, bufWriteAlloc_region n⟩, bufWrite_atomic,
    bufWritePrepend_atomic, fun size => ⟨bufReadAlloc_atomic size, bufReadAlloc_region size⟩,
    bufRead_atomic, bufReadU8_atomic, bufReadU16_atomic, bufReadU32_atomic, bufIncLen_atomic,
    fun _ _ _ _ _ hd hs hsi hdi => bufCopyRange_atomic hd hs hsi hdi,
    fun _ _ n hd hs => bufCopyN_safe hd hs n, bufCopyN_advances_src_on_failure,
    fun _ hsize prepend => ⟨bufSub_atomic hsize prepend, bufSub_bounded hsize prepend⟩,
    bufNullTerminate_safe, bufChomp_safe⟩

/-- `buf_write` of one byte into a full buffer of capacity `INT_MAX` passes `buf_safe`, whose
`offset + len + 1` wraps, and writes one byte past the allocation. -/
theorem bufWrite_full_intMax {mem : List UInt8} (h : mem.length = 2 ^ 31 - 1) :
    bufWrite ⟨2 ^ 31 - 1, 0, 2 ^ 31 - 1, some mem⟩ [0] 0 1 = none := by
  have ha : bufWriteAlloc ⟨2 ^ 31 - 1, 0, 2 ^ 31 - 1, some mem⟩ 1 =
      (⟨2 ^ 31 - 1, 0, -2 ^ 31, some mem⟩, some (2 ^ 31 - 1)) := rfl
  rw [bufWrite, ha]
  simp [memRead, Buffer.store, memWrite, h]

/-- Two buffers with the representation invariant on which a primitive leaves the allocation:
`buf_copy_range` with `src_index + src_len` wrapping to a negative sum reads far past `src`, and
`buf_write` into a full buffer of capacity `INT_MAX` writes past it. -/
theorem buffer_primitives_overflow_counterexample :
    BufInv ⟨1, 0, 1, some [0]⟩ ∧
      bufCopyRange ⟨1, 0, 1, some [0]⟩ 0 ⟨1, 0, 1, some [0]⟩ (2 ^ 31 - 1) 1 = none ∧
    BufInv ⟨2 ^ 31 - 1, 0, 2 ^ 31 - 1, some (List.replicate (2 ^ 31 - 1) 0)⟩ ∧
      bufWrite ⟨2 ^ 31 - 1, 0, 2 ^ 31 - 1, some (List.replicate (2 ^ 31 - 1) 0)⟩ [0] 0 1 = none :=
  ⟨⟨rfl, rfl, by decide, by decide, by decide, by decide⟩, by decide,
    ⟨rfl, by rw [Buffer.bytes, Option.getD_some, List.length_replicate]; rfl, by decide, by decide,
      by decide, by decide⟩,
    bufWrite_full_intMax List.length_replicate⟩

end OpenVpn
