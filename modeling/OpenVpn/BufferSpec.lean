import OpenVpn.Buffer

/-! The representation invariant of `struct buffer`, and what each primitive computes from a
buffer that keeps it with its capacity below `BUF_SIZE_MAX`, the bound `alloc_buf` and
`buf_set_write` check. No `int` sum of a primitive wraps then, and each lemma below states the
primitive's result in exact arithmetic, as a new window and, for the copying primitives, new
allocated bytes. -/

namespace OpenVpn

theorem toCInt_of_le {x : Int} (h₁ : -2 ^ 31 ≤ x) (h₂ : x < 2 ^ 31) : toCInt x = x :=
  Int.bmod_eq_of_le (by norm_num; omega) (by norm_num; omega)

theorem memRead_of_le {mem : List UInt8} {start n : Int} (h₀ : 0 ≤ start) (hn : 0 ≤ n)
    (h : start + n ≤ mem.length) :
    memRead mem start n = some ((mem.drop start.toNat).take n.toNat) := by
  simp [memRead, h₀, hn, h]

theorem memRead_all (mem : List UInt8) : memRead mem 0 mem.length = some mem := by
  simp [memRead]

theorem length_of_memRead {mem bytes : List UInt8} {start n : Int}
    (h : memRead mem start n = some bytes) : bytes.length = n.toNat := by
  unfold memRead at h
  split_ifs at h with hr
  cases h
  simp only [List.length_take, List.length_drop]
  omega

theorem memWrite_of_le {mem : List UInt8} {start : Int} {src : List UInt8} (h₀ : 0 ≤ start)
    (h : start + src.length ≤ mem.length) :
    memWrite mem start src =
      some (mem.take start.toNat ++ src ++ mem.drop (start.toNat + src.length)) := by
  simp [memWrite, h₀, h]

section Splice

variable {α : Type} {mem src : List α} {k : Nat}

theorem length_splice (h : k + src.length ≤ mem.length) :
    (mem.take k ++ src ++ mem.drop (k + src.length)).length = mem.length := by
  simp only [List.length_append, List.length_take, List.length_drop]
  omega

theorem drop_splice (h : k + src.length ≤ mem.length) :
    (mem.take k ++ src ++ mem.drop (k + src.length)).drop k = src ++ mem.drop (k + src.length) := by
  rw [List.append_assoc, List.drop_left' (by simp; omega)]

theorem take_drop_splice {o : Nat} (hok : o ≤ k) (h : k + src.length ≤ mem.length) :
    ((mem.take k ++ src ++ mem.drop (k + src.length)).drop o).take (k - o + src.length) =
      (mem.drop o).take (k - o) ++ src := by
  have hlen : ((mem.take k).drop o).length = k - o := by simp; omega
  rw [List.append_assoc, List.drop_append_of_le_length (by simp; omega),
    show k - o + src.length = ((mem.take k).drop o).length + src.length by rw [hlen],
    List.take_length_add_append, List.take_left' rfl, List.drop_take]

theorem getElem?_splice {i : Nat} (h : k + src.length ≤ mem.length) :
    (mem.take k ++ src ++ mem.drop (k + src.length))[i]? =
      if i < k ∨ k + src.length ≤ i then mem[i]? else src[i - k]? := by
  have hk : (mem.take k).length = k := by simp; omega
  by_cases h₁ : i < k
  · rw [if_pos (Or.inl h₁), List.append_assoc, List.getElem?_append_left (by omega), List.getElem?_take,
      if_pos h₁]
  by_cases h₂ : k + src.length ≤ i
  · rw [if_pos (Or.inr h₂), List.getElem?_append_right (by simp; omega), List.getElem?_drop]
    simp only [List.length_append, hk]
    congr 1
    omega
  · rw [if_neg (by omega), List.append_assoc, List.getElem?_append_right (by omega), hk,
      List.getElem?_append_left (by omega)]

end Splice

namespace Buffer

/-- The allocated bytes, none for `NULL`. -/
def bytes (b : Buffer) : List UInt8 := b.data.getD []

/-- The content `[BPTR, BEND)`. -/
def content (b : Buffer) : List UInt8 := (b.bytes.drop b.offset.toNat).take b.len.toNat

theorem content_take {b : Buffer} {n : Int} (h : n ≤ b.len) :
    b.content.take n.toNat = (b.bytes.drop b.offset.toNat).take n.toNat := by
  rw [content, List.take_take, min_eq_left (by omega)]

theorem content_slice {b : Buffer} {i n : Int} (hb : 0 ≤ b.offset) (hi : 0 ≤ i) (hn : 0 ≤ n)
    (h : i + n ≤ b.len) :
    (b.content.drop i.toNat).take n.toNat = (b.bytes.drop (b.offset + i).toNat).take n.toNat := by
  rw [content, List.drop_take, List.drop_drop, List.take_take, min_eq_left (by omega),
    show b.offset.toNat + i.toNat = (b.offset + i).toNat by omega]

/-- Advancing past `k` bytes drops them from the content. -/
theorem content_advance {b : Buffer} {k : Int} (hb : 0 ≤ b.offset) (hk : 0 ≤ k) (hkl : k ≤ b.len) :
    ({ b with offset := b.offset + k, len := b.len - k } : Buffer).content = b.content.drop k.toNat := by
  rw [content, content, List.drop_take, List.drop_drop]
  simp only [bytes]
  rw [show (b.offset + k).toNat = b.offset.toNat + k.toNat by omega,
    show (b.len - k).toNat = b.len.toNat - k.toNat by omega]

theorem getElem?_content (b : Buffer) (i : Nat) :
    b.content[i]? = if i < b.len.toNat then b.bytes[b.offset.toNat + i]? else none := by
  rw [content, List.getElem?_take, List.getElem?_drop]

/-- A content is determined by its length and its bytes. -/
theorem content_eq_of_getElem? {b : Buffer} {bytes : List UInt8} (hlen : b.len = bytes.length)
    (h : ∀ i < bytes.length, b.bytes[b.offset.toNat + i]? = bytes[i]?) : b.content = bytes := by
  apply List.ext_getElem?
  intro i
  rw [getElem?_content]
  split_ifs with hi
  · exact h i (by omega)
  · rw [List.getElem?_eq_none (by omega)]

end Buffer

/-- `buf_write` from a source whose `n` bytes are readable is `buf_write` of those bytes. -/
theorem bufWrite_of_memRead {b : Buffer} {mem bytes : List UInt8} {start : Int} {n : Nat}
    (h : memRead mem start n = some bytes) :
    bufWrite b mem start n = bufWrite b bytes 0 bytes.length := by
  have hn : bytes.length = n := by rw [length_of_memRead h]; rfl
  have hr : memRead bytes 0 n = some bytes := by rw [← hn]; exact memRead_all bytes
  rw [hn]
  unfold bufWrite
  split
  · rfl
  · rw [h, hr]

/-- The representation invariant of `struct buffer`: `capacity` allocated bytes and the content
window inside them. -/
structure BufInv (b : Buffer) : Prop where
  data_eq : b.data = some b.bytes
  length_bytes : (b.bytes.length : Int) = b.capacity
  offset_nonneg : 0 ≤ b.offset
  offset_le : b.offset ≤ b.capacity
  len_nonneg : 0 ≤ b.len
  len_le : b.len ≤ b.capacity - b.offset

/-- The invariant of a buffer from `alloc_buf`, `buf_set_write` or `buf_sub`: its capacity passed
`buf_size_valid`. -/
structure BufBounded (b : Buffer) : Prop extends BufInv b where
  capacity_lt : b.capacity < bufSizeMax

theorem allocBuf_bounded {size : Nat} {b : Buffer} (h : allocBuf size = some b) : BufBounded b := by
  unfold allocBuf bufSizeValid at h
  split_ifs at h with hv
  cases h
  exact ⟨⟨by simp [Buffer.bytes], by simp [Buffer.bytes], le_rfl, by simp, le_rfl, by simp⟩,
    by simpa using hv⟩

/-- `b` with `src` copied in at its end and the content extended over it: what every successful
append (`buf_write`, a `memcpy` to `BEND` followed by `buf_inc_len`) leaves. -/
def Buffer.append (b : Buffer) (src : List UInt8) : Buffer :=
  { b with
    len := b.len + src.length
    data := some (b.bytes.take (b.offset + b.len).toNat ++ src ++
      b.bytes.drop ((b.offset + b.len).toNat + src.length)) }

@[simp] theorem Buffer.offset_append (b : Buffer) (src : List UInt8) :
    (b.append src).offset = b.offset := rfl

@[simp] theorem Buffer.capacity_append (b : Buffer) (src : List UInt8) :
    (b.append src).capacity = b.capacity := rfl

@[simp] theorem Buffer.len_append (b : Buffer) (src : List UInt8) :
    (b.append src).len = b.len + src.length := rfl

/-- `b` with `src` copied in at `BPTR(b)` and the content grown by its length: what a `memcpy` to
`BPTR` followed by `buf_inc_len` leaves. -/
def Buffer.overwrite (b : Buffer) (src : List UInt8) : Buffer :=
  { b with
    len := b.len + src.length
    data := some (b.bytes.take b.offset.toNat ++ src ++ b.bytes.drop (b.offset.toNat + src.length)) }

@[simp] theorem Buffer.offset_overwrite (b : Buffer) (src : List UInt8) :
    (b.overwrite src).offset = b.offset := rfl

@[simp] theorem Buffer.capacity_overwrite (b : Buffer) (src : List UInt8) :
    (b.overwrite src).capacity = b.capacity := rfl

@[simp] theorem Buffer.len_overwrite (b : Buffer) (src : List UInt8) :
    (b.overwrite src).len = b.len + src.length := rfl

/-- `b` with `src` copied in just before `BPTR(b)` and the content extended back over it: what a
successful `buf_write_prepend` leaves. -/
def Buffer.prepend (b : Buffer) (src : List UInt8) : Buffer :=
  { b with
    offset := b.offset - src.length
    len := b.len + src.length
    data := some (b.bytes.take (b.offset - src.length).toNat ++ src ++
      b.bytes.drop ((b.offset - src.length).toNat + src.length)) }

@[simp] theorem Buffer.offset_prepend (b : Buffer) (src : List UInt8) :
    (b.prepend src).offset = b.offset - src.length := rfl

@[simp] theorem Buffer.capacity_prepend (b : Buffer) (src : List UInt8) :
    (b.prepend src).capacity = b.capacity := rfl

@[simp] theorem Buffer.len_prepend (b : Buffer) (src : List UInt8) :
    (b.prepend src).len = b.len + src.length := rfl

/-- A buffer holding exactly `bytes`, the way a packet read off the link arrives. -/
def Buffer.ofBytes (bytes : List UInt8) : Buffer := ⟨bytes.length, 0, bytes.length, some bytes⟩

@[simp] theorem Buffer.content_ofBytes (bytes : List UInt8) : (Buffer.ofBytes bytes).content = bytes := by
  simp [Buffer.ofBytes, Buffer.content, Buffer.bytes]

theorem bufBounded_ofBytes {bytes : List UInt8} (h : (bytes.length : Int) < bufSizeMax) :
    BufBounded (Buffer.ofBytes bytes) :=
  ⟨⟨rfl, rfl, le_rfl, by simp [Buffer.ofBytes], by simp [Buffer.ofBytes], by simp [Buffer.ofBytes]⟩, h⟩

namespace BufBounded

variable {b : Buffer}

theorem capacity_lt_num (hb : BufBounded b) : b.capacity < 1000000 := hb.capacity_lt

theorem bufValid_eq (hb : BufBounded b) : bufValid b = true := by
  simp [bufValid, hb.data_eq, hb.len_nonneg]

theorem bufBptr_eq (hb : BufBounded b) : bufBptr b = some b.offset := by
  simp [bufBptr, hb.bufValid_eq]

theorem bufLen_eq (hb : BufBounded b) : bufLen b = b.len := by
  simp [bufLen, hb.bufValid_eq]

theorem load_eq (hb : BufBounded b) {start n : Int} (h₀ : 0 ≤ start) (hn : 0 ≤ n)
    (h : start + n ≤ b.capacity) :
    b.load start n = some ((b.bytes.drop start.toNat).take n.toNat) := by
  rw [Buffer.load, hb.data_eq, Option.bind_some, memRead_of_le h₀ hn (by rw [hb.length_bytes]; exact h)]

theorem store_eq (hb : BufBounded b) {start : Int} {src : List UInt8} (h₀ : 0 ≤ start)
    (h : start + src.length ≤ b.capacity) :
    b.store start src = some { b with
      data := some (b.bytes.take start.toNat ++ src ++ b.bytes.drop (start.toNat + src.length)) } := by
  rw [Buffer.store, hb.data_eq, Option.bind_some,
    memWrite_of_le h₀ (by rw [hb.length_bytes]; exact h), Option.map_some]

/-- The `n` bytes at `i` inside the content. -/
theorem load_content (hb : BufBounded b) {i n : Int} (hi : 0 ≤ i) (hn : 0 ≤ n) (h : i + n ≤ b.len) :
    b.load (b.offset + i) n = some ((b.content.drop i.toNat).take n.toNat) := by
  have := hb.offset_nonneg
  have := hb.len_le
  rw [hb.load_eq (by omega) hn (by omega), Buffer.content_slice hb.offset_nonneg hi hn h]

theorem window (hb : BufBounded b) {o l : Int} (h₀ : 0 ≤ o) (h₁ : 0 ≤ l) (h₂ : o + l ≤ b.capacity) :
    BufBounded { b with offset := o, len := l } where
  data_eq := hb.data_eq
  length_bytes := hb.length_bytes
  offset_nonneg := h₀
  offset_le := by simp only; omega
  len_nonneg := h₁
  len_le := by simp only; omega
  capacity_lt := hb.capacity_lt

theorem splice (hb : BufBounded b) {o l : Int} {k : Nat} {src : List UInt8} (h₀ : 0 ≤ o)
    (h₁ : 0 ≤ l) (h₂ : o + l ≤ b.capacity) (hk : k + src.length ≤ b.capacity) :
    BufBounded { b with
      offset := o
      len := l
      data := some (b.bytes.take k ++ src ++ b.bytes.drop (k + src.length)) } where
  data_eq := rfl
  length_bytes := by
    change ((b.bytes.take k ++ src ++ b.bytes.drop (k + src.length)).length : Int) = b.capacity
    rw [length_splice (by have := hb.length_bytes; omega), hb.length_bytes]
  offset_nonneg := h₀
  offset_le := by simp only; omega
  len_nonneg := h₁
  len_le := by simp only; omega
  capacity_lt := hb.capacity_lt

theorem bufBlast_eq (hb : BufBounded b) :
    bufBlast b = if 0 < b.len then some (b.offset + b.len - 1) else none := by
  simp only [bufBlast, hb.bufLen_eq, hb.bufBptr_eq, Option.map_some]

theorem bufSafe_iff (hb : BufBounded b) (n : Nat) :
    bufSafe b n = true ↔ (n : Int) < bufSizeMax ∧ b.offset + b.len + n ≤ b.capacity := by
  have := hb.capacity_lt_num
  have := hb.len_le
  by_cases hn : (n : Int) < bufSizeMax
  · have hn' : (n : Int) < 1000000 := hn
    have e₁ : toCInt (b.offset + b.len) = b.offset + b.len :=
      toCInt_of_le (by have := hb.offset_nonneg; have := hb.len_nonneg; omega) (by omega)
    have e₂ : toCInt n = n := toCInt_of_le (by omega) (by omega)
    have e₃ : toCInt (b.offset + b.len + n) = b.offset + b.len + n :=
      toCInt_of_le (by have := hb.offset_nonneg; have := hb.len_nonneg; omega) (by omega)
    simp [bufSafe, bufSizeValid, hb.bufValid_eq, hn, e₁, e₂, e₃]
  · simp [bufSafe, bufSizeValid, hn]

theorem bufSafeBidir_iff (hb : BufBounded b) (len : Int) :
    bufSafeBidir b len = true ↔
      -bufSizeMax ≤ len ∧ len < bufSizeMax ∧ 0 ≤ b.len + len ∧ b.offset + b.len + len ≤ b.capacity := by
  have := hb.capacity_lt_num
  have := hb.len_le
  have := hb.offset_nonneg
  have := hb.len_nonneg
  by_cases hl : -bufSizeMax ≤ len ∧ len < bufSizeMax
  · have hl' : -1000000 ≤ len ∧ len < 1000000 := hl
    have e₁ : toCInt (b.len + len) = b.len + len := toCInt_of_le (by omega) (by omega)
    have e₂ : toCInt (b.offset + (b.len + len)) = b.offset + (b.len + len) :=
      toCInt_of_le (by omega) (by omega)
    simp only [bufSafeBidir, bufSizeValidSigned, hb.bufValid_eq, decide_eq_true hl, Bool.and_self,
      if_true, e₁, e₂, Bool.and_eq_true, decide_eq_true_eq]
    omega
  · simp only [bufSafeBidir, bufSizeValidSigned, decide_eq_false hl, Bool.and_false]
    simp only [Bool.false_eq_true, if_false, false_iff]
    omega

theorem bufInit_eq (hb : BufBounded b) (offset : Int) :
    bufInit b offset = if 0 ≤ offset ∧ offset ≤ b.capacity then
      ({ b with len := 0, offset := offset }, true) else (b, false) := by
  by_cases h : 0 ≤ offset ∧ offset ≤ b.capacity
  · rw [if_pos h, bufInit, if_neg (by simp [hb.data_eq]; omega)]
  · rw [if_neg h, bufInit, if_pos (by omega)]

theorem bufPrepend_eq (hb : BufBounded b) (size : Int) :
    bufPrepend b size = if 0 ≤ size ∧ size ≤ b.offset then
      ({ b with offset := b.offset - size, len := b.len + size }, some (b.offset - size))
    else (b, none) := by
  have := hb.capacity_lt_num
  have := hb.len_le
  have := hb.len_nonneg
  by_cases h : 0 ≤ size ∧ size ≤ b.offset
  · have e₁ : toCInt (b.offset - size) = b.offset - size := toCInt_of_le (by omega) (by omega)
    have e₂ : toCInt (b.len + size) = b.len + size := toCInt_of_le (by omega) (by omega)
    have hw := hb.window (o := b.offset - size) (l := b.len + size) (by omega) (by omega) (by omega)
    simp only [bufPrepend, hb.bufValid_eq, e₁, e₂, hw.bufBptr_eq, if_pos h]
    simp [h.1, h.2]
  · rw [if_neg h]
    simp only [bufPrepend, hb.bufValid_eq]
    rw [if_pos (by simp; omega)]

theorem bufAdvance_eq (hb : BufBounded b) (size : Int) :
    bufAdvance b size = if 0 ≤ size ∧ size ≤ b.len then
      ({ b with offset := b.offset + size, len := b.len - size }, true) else (b, false) := by
  have := hb.capacity_lt_num
  have := hb.len_le
  have := hb.offset_nonneg
  by_cases h : 0 ≤ size ∧ size ≤ b.len
  · have e₁ : toCInt (b.offset + size) = b.offset + size := toCInt_of_le (by omega) (by omega)
    have e₂ : toCInt (b.len - size) = b.len - size := toCInt_of_le (by omega) (by omega)
    simp only [bufAdvance, hb.bufValid_eq, e₁, e₂, if_pos h]
    simp [h.1, h.2]
  · rw [if_neg h]
    simp only [bufAdvance, hb.bufValid_eq]
    rw [if_pos (by simp; omega)]

theorem bufWriteAlloc_eq (hb : BufBounded b) (n : Nat) :
    bufWriteAlloc b n = if (n : Int) < bufSizeMax ∧ b.offset + b.len + n ≤ b.capacity then
      ({ b with len := b.len + n }, some (b.offset + b.len)) else (b, none) := by
  by_cases h : (n : Int) < bufSizeMax ∧ b.offset + b.len + n ≤ b.capacity
  · have := hb.capacity_lt_num
    have := hb.offset_nonneg
    have := hb.len_nonneg
    have hn : (n : Int) < 1000000 := h.1
    have e₁ : toCInt n = n := toCInt_of_le (by omega) (by omega)
    have e₂ : toCInt (b.len + n) = b.len + n := toCInt_of_le (by omega) (by omega)
    rw [if_pos h, bufWriteAlloc, if_neg (by simp [(hb.bufSafe_iff n).2 h]), e₁, e₂, hb.bufBptr_eq,
      Option.map_some]
  · have hs : bufSafe b n = false := by rw [← Bool.not_eq_true, hb.bufSafe_iff n]; exact h
    simp [bufWriteAlloc, hs, h]

theorem bufReadAlloc_eq (hb : BufBounded b) (size : Int) :
    bufReadAlloc b size = if 0 ≤ size ∧ size ≤ b.len then
      ({ b with offset := b.offset + size, len := b.len - size }, some b.offset) else (b, none) := by
  have := hb.capacity_lt_num
  have := hb.len_le
  have := hb.offset_nonneg
  by_cases h : 0 ≤ size ∧ size ≤ b.len
  · have e₁ : toCInt (b.offset + size) = b.offset + size := toCInt_of_le (by omega) (by omega)
    have e₂ : toCInt (b.len - size) = b.len - size := toCInt_of_le (by omega) (by omega)
    rw [if_pos h, bufReadAlloc, if_neg (by omega), e₁, e₂, hb.bufBptr_eq]
  · rw [if_neg h, bufReadAlloc, if_pos (by omega)]

theorem bufIncLen_eq (hb : BufBounded b) (inc : Int) :
    bufIncLen b inc = if -bufSizeMax ≤ inc ∧ inc < bufSizeMax ∧ 0 ≤ b.len + inc ∧
        b.offset + b.len + inc ≤ b.capacity then ({ b with len := b.len + inc }, true)
      else (b, false) := by
  by_cases h : -bufSizeMax ≤ inc ∧ inc < bufSizeMax ∧ 0 ≤ b.len + inc ∧
      b.offset + b.len + inc ≤ b.capacity
  · have := hb.capacity_lt_num
    have := hb.offset_nonneg
    have hi : inc < 1000000 := h.2.1
    have e : toCInt (b.len + inc) = b.len + inc := toCInt_of_le (by omega) (by omega)
    rw [if_pos h, bufIncLen, if_pos ((hb.bufSafeBidir_iff inc).2 h), e]
  · rw [if_neg h, bufIncLen, if_neg (by rw [hb.bufSafeBidir_iff inc]; exact h)]

theorem bufIncLen_zero (hb : BufBounded b) : bufIncLen b 0 = (b, true) := by
  have := hb.len_nonneg
  have := hb.len_le
  rw [hb.bufIncLen_eq, if_pos (by unfold bufSizeMax; omega), Int.add_zero]

/-- `buf_write` of the bytes `src` appends them. -/
theorem bufWrite_eq (hb : BufBounded b) (src : List UInt8) :
    bufWrite b src 0 src.length = if (src.length : Int) < bufSizeMax ∧
        b.offset + b.len + src.length ≤ b.capacity then
      some ({ b with len := b.len + src.length, data := some (b.bytes.take (b.offset + b.len).toNat ++
        src ++ b.bytes.drop ((b.offset + b.len).toNat + src.length)) }, true)
    else some (b, false) := by
  unfold bufWrite
  rw [hb.bufWriteAlloc_eq]
  by_cases h : (src.length : Int) < bufSizeMax ∧ b.offset + b.len + src.length ≤ b.capacity
  · have ho := hb.offset_nonneg
    have hl := hb.len_nonneg
    have hw := hb.window (o := b.offset) (l := b.len + src.length) ho (by omega) (by omega)
    simp only [if_pos h, memRead_all, Option.bind_eq_bind, Option.bind_some]
    rw [@store_eq _ hw (b.offset + b.len) src (by omega) h.2]
    rfl
  · simp only [if_neg h]

section Append

variable {src : List UInt8}

theorem append_bounded (hb : BufBounded b) (h : b.offset + b.len + src.length ≤ b.capacity) :
    BufBounded (b.append src) := by
  have := hb.offset_nonneg
  have := hb.len_nonneg
  exact hb.splice hb.offset_nonneg (by omega) (by omega) (by omega)

theorem content_append (hb : BufBounded b) (h : b.offset + b.len + src.length ≤ b.capacity) :
    (b.append src).content = b.content ++ src := by
  have ho := hb.offset_nonneg
  have hl := hb.len_nonneg
  have hlen := hb.length_bytes
  unfold Buffer.content
  change ((b.bytes.take (b.offset + b.len).toNat ++ src ++
    b.bytes.drop ((b.offset + b.len).toNat + src.length)).drop b.offset.toNat).take
      (b.len + src.length).toNat = _
  -- the window starts at `offset` and runs over the old content and the spliced bytes
  rw [show (b.len + src.length).toNat = (b.offset + b.len).toNat - b.offset.toNat + src.length
      by omega, take_drop_splice (by omega) (by omega),
    show (b.offset + b.len).toNat - b.offset.toNat = b.len.toNat by omega]

/-- `buf_write` of the bytes `src`, when they fit, is `Buffer.append`. -/
theorem bufWrite_eq_append (hb : BufBounded b) (hs : (src.length : Int) < bufSizeMax)
    (h : b.offset + b.len + src.length ≤ b.capacity) :
    bufWrite b src 0 src.length = some (b.append src, true) := by
  rw [hb.bufWrite_eq, if_pos ⟨hs, h⟩]
  rfl

/-- `buf_write_alloc` of `src.length` bytes and a copy of `src` to the region it returns. -/
theorem bufWriteAlloc_store (hb : BufBounded b) (hs : (src.length : Int) < bufSizeMax)
    (h : b.offset + b.len + src.length ≤ b.capacity) :
    ∃ b₁ p, bufWriteAlloc b src.length = (b₁, some p) ∧ b₁.store p src = some (b.append src) := by
  have ho := hb.offset_nonneg
  have hl := hb.len_nonneg
  have hw := hb.window (o := b.offset) (l := b.len + src.length) ho (by omega) (by omega)
  rw [hb.bufWriteAlloc_eq, if_pos ⟨hs, h⟩]
  refine ⟨_, _, rfl, ?_⟩
  rw [@store_eq _ hw (b.offset + b.len) src (by omega) h]
  rfl

/-- A copy of `src` to `BEND(b)` followed by `buf_inc_len`. -/
theorem store_end_bufIncLen (hb : BufBounded b) (hs : (src.length : Int) < bufSizeMax)
    (h : b.offset + b.len + src.length ≤ b.capacity) :
    ∃ b₁, b.store (b.offset + b.len) src = some b₁ ∧
      bufIncLen b₁ src.length = (b.append src, true) := by
  have ho := hb.offset_nonneg
  have hl := hb.len_nonneg
  have hw := @splice b hb b.offset b.len (b.offset + b.len).toNat src ho hl (by omega) (by omega)
  refine ⟨_, hb.store_eq (by omega) h, ?_⟩
  rw [hw.bufIncLen_eq, if_pos (by dsimp only; unfold bufSizeMax at hs ⊢; omega)]
  rfl

theorem overwrite_bounded (hb : BufBounded b) (h : b.offset + b.len + src.length ≤ b.capacity) :
    BufBounded (b.overwrite src) := by
  have := hb.offset_nonneg
  have := hb.len_nonneg
  exact hb.splice hb.offset_nonneg (by omega) (by omega) (by omega)

theorem content_overwrite (hb : BufBounded b) (h : b.offset + b.len + src.length ≤ b.capacity) :
    (b.overwrite src).content =
      src ++ (b.bytes.drop (b.offset.toNat + src.length)).take b.len.toNat := by
  have ho := hb.offset_nonneg
  have hl := hb.len_nonneg
  have hlen := hb.length_bytes
  unfold Buffer.content
  change ((b.bytes.take b.offset.toNat ++ src ++ b.bytes.drop (b.offset.toNat + src.length)).drop
    b.offset.toNat).take (b.len + src.length).toNat = _
  rw [List.append_assoc, List.drop_left' (by simp; omega),
    show (b.len + src.length).toNat = src.length + b.len.toNat by omega, List.take_length_add_append]

/-- A copy of `src` to `BPTR(b)` followed by `buf_inc_len`. -/
theorem store_bptr_bufIncLen (hb : BufBounded b) (hs : (src.length : Int) < bufSizeMax)
    (h : b.offset + b.len + src.length ≤ b.capacity) :
    ∃ b₁, b.store b.offset src = some b₁ ∧ bufIncLen b₁ src.length = (b.overwrite src, true) := by
  have ho := hb.offset_nonneg
  have hl := hb.len_nonneg
  have hw := @splice b hb b.offset b.len b.offset.toNat src ho hl (by omega) (by omega)
  refine ⟨_, hb.store_eq ho (by omega), ?_⟩
  rw [hw.bufIncLen_eq, if_pos (by dsimp only; unfold bufSizeMax at hs ⊢; omega)]
  rfl

end Append

/-- `buf_write_prepend` of the bytes `src` puts them in front. -/
theorem bufWritePrepend_eq (hb : BufBounded b) (src : List UInt8) :
    bufWritePrepend b src 0 src.length = if (src.length : Int) ≤ b.offset then
      some ({ b with
        offset := b.offset - src.length
        len := b.len + src.length
        data := some (b.bytes.take (b.offset - src.length).toNat ++ src ++
          b.bytes.drop ((b.offset - src.length).toNat + src.length)) }, true)
    else some (b, false) := by
  unfold bufWritePrepend
  rw [hb.bufPrepend_eq]
  by_cases h : (src.length : Int) ≤ b.offset
  · have := hb.offset_le
    have := hb.len_le
    have hw := hb.window (o := b.offset - src.length) (l := b.len + src.length) (by omega)
      (by have := hb.len_nonneg; omega) (by omega)
    simp only [Int.natCast_nonneg, h, and_self, if_true, memRead_all, Option.bind_eq_bind,
      Option.bind_some]
    rw [@store_eq _ hw (b.offset - src.length) src (by omega) (by dsimp only; omega)]
    rfl
  · simp only [h, and_false, if_false]


theorem bufRead_eq (hb : BufBounded b) (size : Int) :
    bufRead b size = some (if 0 ≤ size ∧ size ≤ b.len then
      ({ b with offset := b.offset + size, len := b.len - size }, some (b.content.take size.toNat))
    else (b, none)) := by
  unfold bufRead
  rw [hb.bufReadAlloc_eq]
  by_cases h : 0 ≤ size ∧ size ≤ b.len
  · have := hb.len_le
    have hw := hb.window (o := b.offset + size) (l := b.len - size) (by have := hb.offset_nonneg; omega)
      (by omega) (by omega)
    simp only [if_pos h]
    rw [hw.load_eq hb.offset_nonneg h.1 (by dsimp only; omega), Buffer.content_take h.2]
    rfl
  · simp only [if_neg h]


theorem length_content (hb : BufBounded b) : b.content.length = b.len.toNat := by
  have := hb.length_bytes
  have := hb.len_le
  have := hb.offset_nonneg
  rw [Buffer.content, List.length_take, List.length_drop]
  omega

theorem bufContents_eq (hb : BufBounded b) : bufContents b = some b.content := by
  have hl := hb.len_nonneg
  have h := hb.load_content (i := 0) (n := b.len) le_rfl hl (by omega)
  rw [Int.add_zero, Int.toNat_zero, List.drop_zero, List.take_of_length_le (by rw [hb.length_content])] at h
  rw [bufContents, hb.bufBptr_eq, hb.bufLen_eq]
  exact h

/-- `buf_read` as a cursor over the content: it takes `n` bytes when there are that many, and the
buffer it leaves is bounded and holds the rest. -/
theorem bufRead_cursor (hb : BufBounded b) (n : Nat) :
    ∃ b', bufRead b n = some (b', if n ≤ b.content.length then some (b.content.take n) else none) ∧
      BufBounded b' ∧ b'.content = if n ≤ b.content.length then b.content.drop n else b.content := by
  have hlen := hb.length_content
  have := hb.len_nonneg
  have := hb.len_le
  rw [hb.bufRead_eq]
  by_cases h : n ≤ b.content.length
  · rw [if_pos ⟨by omega, by omega⟩, if_pos h, if_pos h]
    refine ⟨_, rfl, hb.window (by have := hb.offset_nonneg; omega) (by omega) (by omega), ?_⟩
    rw [Buffer.content_advance hb.offset_nonneg (by omega) (by omega)]
    rfl
  · rw [if_neg (by omega), if_neg h, if_neg h]
    exact ⟨b, rfl, hb, rfl⟩

theorem bufReadU8_eq (hb : BufBounded b) :
    bufReadU8 b = some (if 1 ≤ b.len then
      ({ b with offset := b.offset + 1, len := b.len - 1 }, (BigEndian.decode (b.content.take 1) : Int))
    else (b, -1)) := by
  unfold bufReadU8
  by_cases h : 1 ≤ b.len
  · have := hb.len_le
    have hl : b.load b.offset 1 = some ((b.bytes.drop b.offset.toNat).take 1) :=
      hb.load_eq hb.offset_nonneg (by omega) (by omega)
    have hc : b.content.take 1 = (b.bytes.drop b.offset.toNat).take 1 := Buffer.content_take h
    rw [hb.bufLen_eq, if_neg (by omega), hb.bufBptr_eq, if_pos h]
    dsimp only
    rw [hl, hb.bufAdvance_eq, if_pos (by omega), Option.map_some, hc]
  · rw [hb.bufLen_eq, if_pos (by omega), if_neg h]

theorem bufReadU16_eq (hb : BufBounded b) :
    bufReadU16 b = some (if 2 ≤ b.len then
      ({ b with offset := b.offset + 2, len := b.len - 2 }, (BigEndian.decode (b.content.take 2) : Int))
    else (b, -1)) := by
  unfold bufReadU16
  rw [hb.bufRead_eq]
  by_cases h : 2 ≤ b.len
  · rw [if_pos ⟨by omega, h⟩, if_pos h]
    rfl
  · rw [if_neg (by omega), if_neg h]
    rfl

theorem bufReadU32_eq (hb : BufBounded b) :
    bufReadU32 b = some (if 4 ≤ b.len then
      ({ b with offset := b.offset + 4, len := b.len - 4 }, BigEndian.decode (b.content.take 4), true)
    else (b, 0, false)) := by
  unfold bufReadU32
  rw [hb.bufRead_eq]
  by_cases h : 4 ≤ b.len
  · rw [if_pos ⟨by omega, h⟩, if_pos h]
    rfl
  · rw [if_neg (by omega), if_neg h]
    rfl

/-- `buf_copy_n` is `buf_read_alloc` on `src` followed by `buf_write` of the bytes it passed. -/
theorem bufCopyN_eq {dest src : Buffer} (hs : BufBounded src) (n : Int) :
    bufCopyN dest src n = if 0 ≤ n ∧ n ≤ src.len then
      (bufWrite dest (src.content.take n.toNat) 0 (src.content.take n.toNat).length).map fun r =>
        (r.1, { src with offset := src.offset + n, len := src.len - n }, r.2)
    else some (dest, src, false) := by
  unfold bufCopyN
  rw [hs.bufReadAlloc_eq]
  by_cases h : 0 ≤ n ∧ n ≤ src.len
  · have := hs.len_le
    have hr : memRead src.bytes src.offset (n.toNat : Nat) = some (src.content.take n.toNat) := by
      rw [Buffer.content_take h.2, memRead_of_le hs.offset_nonneg (by omega)
        (by rw [hs.length_bytes]; omega), Int.toNat_natCast]
    simp only [if_pos h]
    rw [hs.data_eq]
    dsimp only
    rw [bufWrite_of_memRead hr]
  · simp only [if_neg h]

/-- `buf_copy_range` whose `int` sums do not overflow copies the slice of `src`'s content into
`dest` at `dest_index` past `dest`'s offset, and extends `dest`'s content to cover it. -/
theorem bufCopyRange_eq {dest src : Buffer} (hd : BufBounded dest) (hs : BufBounded src)
    {destIndex srcIndex srcLen : Int} (hsi : srcIndex + srcLen < 2 ^ 31)
    (hdi : dest.offset + destIndex + srcLen < 2 ^ 31) :
    bufCopyRange dest destIndex src srcIndex srcLen =
      if 0 ≤ srcIndex ∧ 0 ≤ srcLen ∧ srcIndex + srcLen ≤ src.len ∧ 0 ≤ destIndex ∧
          dest.offset + destIndex + srcLen ≤ dest.capacity then
        some ({ dest with
          len := max dest.len (destIndex + srcLen)
          data := some (dest.bytes.take (dest.offset + destIndex).toNat ++
            (src.content.drop srcIndex.toNat).take srcLen.toNat ++
            dest.bytes.drop ((dest.offset + destIndex).toNat + srcLen.toNat)) }, true)
      else some (dest, false) := by
  have := hd.offset_nonneg
  by_cases hneg : srcIndex < 0 ∨ srcLen < 0 ∨ destIndex < 0
  · rw [if_neg (by omega), bufCopyRange, if_pos (by omega)]
  have e₁ : toCInt (srcIndex + srcLen) = srcIndex + srcLen := toCInt_of_le (by omega) hsi
  have e₂ : toCInt (dest.offset + destIndex) = dest.offset + destIndex :=
    toCInt_of_le (by omega) (by omega)
  have e₃ : toCInt (dest.offset + destIndex + srcLen) = dest.offset + destIndex + srcLen :=
    toCInt_of_le (by omega) hdi
  have e₄ : toCInt (destIndex + srcLen) = destIndex + srcLen := toCInt_of_le (by omega) (by omega)
  unfold bufCopyRange
  rw [e₁, e₂, e₃, e₄]
  by_cases h : 0 ≤ srcIndex ∧ 0 ≤ srcLen ∧ srcIndex + srcLen ≤ src.len ∧ 0 ≤ destIndex ∧
      dest.offset + destIndex + srcLen ≤ dest.capacity
  · have := hs.len_le
    have := hs.offset_nonneg
    have hslice := Buffer.content_slice hs.offset_nonneg h.1 h.2.1 h.2.2.1
    have hlen : ((src.bytes.drop (src.offset + srcIndex).toNat).take srcLen.toNat).length =
        srcLen.toNat := by
      simp only [List.length_take, List.length_drop]
      have := hs.length_bytes
      omega
    rw [if_pos h, if_neg (by omega), hs.load_eq (by omega) h.2.1 (by omega)]
    simp only [Option.bind_eq_bind, Option.bind_some]
    rw [hd.store_eq (by omega) (by rw [hlen]; omega)]
    simp only [Option.bind_some, hslice, hlen]
    by_cases hl : dest.len < destIndex + srcLen
    · rw [if_pos hl, max_eq_right hl.le]
      rfl
    · rw [if_neg hl, max_eq_left (by omega)]
      rfl
  · rw [if_neg h, if_pos (by omega)]

theorem bufSub_eq (hb : BufBounded b) {size : Int} (hsize : -2 ^ 31 ≤ size ∧ size < 2 ^ 31)
    (prepend : Bool) :
    bufSub b size prepend = if prepend then
      if 0 ≤ size ∧ size ≤ b.offset then
        ({ b with offset := b.offset - size, len := b.len + size },
          ⟨size, 0, 0, some ((b.bytes.drop (b.offset - size).toNat).take size.toNat)⟩)
      else (b, ⟨0, 0, 0, none⟩)
    else
      if 0 ≤ size ∧ size < bufSizeMax ∧ b.offset + b.len + size ≤ b.capacity then
        ({ b with len := b.len + size },
          ⟨size, 0, 0, some ((b.bytes.drop (b.offset + b.len).toNat).take size.toNat)⟩)
      else (b, ⟨0, 0, 0, none⟩) := by
  have := hb.len_le
  have := hb.len_nonneg
  have := hb.offset_nonneg
  cases prepend with
  | true =>
      rw [bufSub, if_pos rfl, hb.bufPrepend_eq, if_pos rfl]
      by_cases h : 0 ≤ size ∧ size ≤ b.offset
      · have hw := hb.window (o := b.offset - size) (l := b.len + size) (by omega) (by omega) (by omega)
        rw [if_pos h, if_pos h]
        dsimp only
        rw [hw.load_eq (by omega) h.1 (by dsimp only; omega)]
        rfl
      · rw [if_neg h, if_neg h]
  | false =>
      rw [bufSub, if_neg Bool.false_ne_true, hb.bufWriteAlloc_eq, if_neg Bool.false_ne_true]
      by_cases h : 0 ≤ size ∧ size < bufSizeMax ∧ b.offset + b.len + size ≤ b.capacity
      · have hs : ((sizeOfInt size : Nat) : Int) = size := by
          unfold sizeOfInt
          omega
        have hw := hb.window (o := b.offset) (l := b.len + size) (by omega) (by omega) (by omega)
        rw [hs, if_pos h.2, if_pos h]
        dsimp only
        rw [hw.load_eq (by omega) h.1 (by dsimp only; omega)]
        rfl
      · have hs : ¬ (((sizeOfInt size : Nat) : Int) < bufSizeMax ∧
            b.offset + b.len + (sizeOfInt size : Nat) ≤ b.capacity) := by
          have : bufSizeMax = 1000000 := rfl
          unfold sizeOfInt
          omega
        rw [if_neg hs, if_neg h]

section Prepend

variable {src : List UInt8}

theorem prepend_bounded (hb : BufBounded b) (h : (src.length : Int) ≤ b.offset) :
    BufBounded (b.prepend src) := by
  have := hb.offset_le
  have := hb.len_nonneg
  have := hb.len_le
  exact hb.splice (by omega) (by omega) (by omega) (by omega)

theorem content_prepend (hb : BufBounded b) (h : (src.length : Int) ≤ b.offset) :
    (b.prepend src).content = src ++ b.content := by
  have ho := hb.offset_nonneg
  have hl := hb.len_nonneg
  have hlen := hb.length_bytes
  have hle := hb.len_le
  unfold Buffer.content
  change ((b.bytes.take (b.offset - src.length).toNat ++ src ++
    b.bytes.drop ((b.offset - src.length).toNat + src.length)).drop
      (b.offset - src.length).toNat).take (b.len + src.length).toNat = _
  rw [drop_splice (by omega), show (b.offset - src.length).toNat + src.length = b.offset.toNat by
      omega, show (b.len + src.length).toNat = src.length + b.len.toNat by omega,
    List.take_length_add_append]

/-- `buf_write_prepend` of the bytes `src`, when there is room before `BPTR`, is `Buffer.prepend`. -/
theorem bufWritePrepend_eq_prepend (hb : BufBounded b) (h : (src.length : Int) ≤ b.offset) :
    bufWritePrepend b src 0 src.length = some (b.prepend src, true) := by
  rw [hb.bufWritePrepend_eq, if_pos h]
  rfl

/-- `buf_prepend` of `src.length` bytes followed by a copy of `src` to the pointer it returns is
`Buffer.prepend`. -/
theorem bufPrepend_store (hb : BufBounded b) (h : (src.length : Int) ≤ b.offset) :
    (bufPrepend b src.length).2 = some (b.offset - src.length) ∧
      (bufPrepend b src.length).1.store (b.offset - src.length) src = some (b.prepend src) := by
  have := hb.offset_le
  have := hb.len_le
  have := hb.len_nonneg
  have hw := hb.window (o := b.offset - src.length) (l := b.len + src.length) (by omega) (by omega)
    (by omega)
  rw [hb.bufPrepend_eq, if_pos ⟨by omega, h⟩]
  exact ⟨rfl, hw.store_eq (by omega) (by dsimp only; omega)⟩

/-- A store inside the content replaces those bytes of it. -/
theorem store_content (hb : BufBounded b) {i : Nat} (h : i + src.length ≤ b.len) :
    ∃ b', b.store (b.offset + i) src = some b' ∧ BufBounded b' ∧ b'.offset = b.offset ∧
      b'.len = b.len ∧ b'.content = b.content.take i ++ src ++ b.content.drop (i + src.length) := by
  have ho := hb.offset_nonneg
  have hl := hb.len_nonneg
  have hle := hb.len_le
  have hlen := hb.length_bytes
  have hk : (b.offset + i).toNat + src.length ≤ b.bytes.length := by omega
  have hb' := @splice b hb b.offset b.len (b.offset + i).toNat src ho hl (by omega) (by omega)
  refine ⟨_, hb.store_eq (by omega) (by omega), hb', rfl, rfl, ?_⟩
  have hc := hb.length_content
  apply Buffer.content_eq_of_getElem? (by simp; omega)
  intro j hj
  change (b.bytes.take (b.offset + i).toNat ++ src ++
    b.bytes.drop ((b.offset + i).toNat + src.length))[b.offset.toNat + j]? = _
  rw [getElem?_splice hk]
  simp only [List.length_append, List.length_take, List.length_drop, hc] at hj
  -- the bytes before the store, the stored bytes, and the bytes after it
  by_cases h₁ : j < i
  · rw [if_pos (Or.inl (by omega)), List.append_assoc, List.getElem?_append_left (by simp; omega),
      List.getElem?_take, if_pos h₁, Buffer.getElem?_content, if_pos (by omega)]
  by_cases h₂ : i + src.length ≤ j
  · rw [if_pos (Or.inr (by omega)), List.getElem?_append_right (by simp; omega),
      List.getElem?_drop, Buffer.getElem?_content, if_pos (by simp; omega)]
    simp only [List.length_append, List.length_take, hc]
    congr 1
    omega
  · rw [if_neg (by omega), List.append_assoc, List.getElem?_append_right (by simp; omega),
      List.getElem?_append_left (by simp; omega)]
    simp only [List.length_take, hc]
    congr 1
    omega

end Prepend

end BufBounded

end OpenVpn
