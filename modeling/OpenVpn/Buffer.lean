import OpenVpn.BigEndian

/-! `struct buffer` of `buffer.h` and its primitives. A buffer is the window `[offset, offset + len)`
of `capacity` allocated bytes. The model keeps the allocation as the byte list `data` (`none` for a
`NULL` pointer), and every `memcpy` or byte access goes through `memRead`/`memWrite`, which fail
outside the allocation: a primitive that returns `none` touched memory it does not own. Pointers a
primitive returns are indices into the allocation. Sums and differences of `int` values wrap as
two's complement (`toCInt`), the way the compiled code computes them; `size_t` values are natural
numbers. -/

namespace OpenVpn

-- `BUF_SIZE_MAX`
def bufSizeMax : Int := 1000000

/-- The value of an `int` expression: its exact value wrapped into `[-2^31, 2^31)`. -/
def toCInt (x : Int) : Int := x.bmod (2 ^ 32)

/-- The `n` bytes of `mem` from `start`, when they all lie inside it. -/
def memRead (mem : List UInt8) (start n : Int) : Option (List UInt8) :=
  if 0 ≤ start ∧ 0 ≤ n ∧ start + n ≤ mem.length then some ((mem.drop start.toNat).take n.toNat)
  else none

/-- `mem` with `src` copied in at `start`, when it fits inside. -/
def memWrite (mem : List UInt8) (start : Int) (src : List UInt8) : Option (List UInt8) :=
  if 0 ≤ start ∧ start + src.length ≤ mem.length then
    some (mem.take start.toNat ++ src ++ mem.drop (start.toNat + src.length))
  else none

/-- `struct buffer`; the allocation `data` is `none` for `NULL`. -/
structure Buffer where
  capacity : Int
  offset : Int
  len : Int
  data : Option (List UInt8)
  deriving DecidableEq, Repr

namespace Buffer

/-- `n` bytes of the allocation from index `start`. -/
def load (b : Buffer) (start n : Int) : Option (List UInt8) :=
  b.data.bind fun mem => memRead mem start n

/-- `memcpy` of `src` into the allocation at index `start`. -/
def store (b : Buffer) (start : Int) (src : List UInt8) : Option Buffer :=
  b.data.bind fun mem => (memWrite mem start src).map fun mem => { b with data := some mem }

end Buffer

/-- `buf_valid`. -/
def bufValid (b : Buffer) : Bool := b.data.isSome && decide (0 ≤ b.len)

/-- `BPTR` (`buf_bptr`): the index of the first content byte. -/
def bufBptr (b : Buffer) : Option Int := if bufValid b then some b.offset else none

/-- `BLEN` (`buf_len`). -/
def bufLen (b : Buffer) : Int := if bufValid b then b.len else 0

/-- `BLAST` (`buf_blast`): the index of the last content byte. -/
def bufBlast (b : Buffer) : Option Int :=
  if 0 < bufLen b then (bufBptr b).map (· + bufLen b - 1) else none

/-- The `BLEN(b)` bytes from `BPTR(b)`, as a call such as `hmac_ctx_update(ctx, BPTR(b), BLEN(b))`
reads them. -/
def bufContents (b : Buffer) : Option (List UInt8) :=
  match bufBptr b with
  | some p => b.load p (bufLen b)
  | none => some []

/-- `buf_size_valid` on a `size_t`. -/
def bufSizeValid (size : Nat) : Bool := decide ((size : Int) < bufSizeMax)

/-- `alloc_buf`: `size` zeroed bytes with an empty window at their start; `none` where
`buf_size_error` ends the process. -/
def allocBuf (size : Nat) : Option Buffer :=
  if bufSizeValid size then some ⟨size, 0, 0, some (List.replicate size 0)⟩ else none

/-- `buf_size_valid_signed`. -/
def bufSizeValidSigned (size : Int) : Bool := decide (-bufSizeMax ≤ size ∧ size < bufSizeMax)

/-- `buf_init` (`buf_init_dowork`). -/
def bufInit (b : Buffer) (offset : Int) : Buffer × Bool :=
  if offset < 0 ∨ b.capacity < offset ∨ b.data = none then (b, false)
  else ({ b with len := 0, offset := offset }, true)

/-- `buf_safe`: room to append `len` bytes. -/
def bufSafe (b : Buffer) (len : Nat) : Bool :=
  bufValid b && bufSizeValid len &&
    decide (toCInt (toCInt (b.offset + b.len) + toCInt len) ≤ b.capacity)

/-- `buf_safe_bidir`: room to grow or shrink the content by `len`. -/
def bufSafeBidir (b : Buffer) (len : Int) : Bool :=
  if bufValid b && bufSizeValidSigned len then
    decide (0 ≤ toCInt (b.len + len)) && decide (toCInt (b.offset + toCInt (b.len + len)) ≤ b.capacity)
  else false

/-- `buf_inc_len`. -/
def bufIncLen (b : Buffer) (inc : Int) : Buffer × Bool :=
  if bufSafeBidir b inc then ({ b with len := toCInt (b.len + inc) }, true) else (b, false)

/-- `buf_prepend`: the new first content byte, or `NULL`. -/
def bufPrepend (b : Buffer) (size : Int) : Buffer × Option Int :=
  if !bufValid b || decide (size < 0) || decide (b.offset < size) then (b, none)
  else
    let b' := { b with offset := toCInt (b.offset - size), len := toCInt (b.len + size) }
    (b', bufBptr b')

/-- `buf_advance`. -/
def bufAdvance (b : Buffer) (size : Int) : Buffer × Bool :=
  if !bufValid b || decide (size < 0) || decide (b.len < size) then (b, false)
  else ({ b with offset := toCInt (b.offset + size), len := toCInt (b.len - size) }, true)

/-- `buf_write_alloc`: the first of `size` appended bytes, or `NULL`. -/
def bufWriteAlloc (b : Buffer) (size : Nat) : Buffer × Option Int :=
  if !bufSafe b size then (b, none)
  else ({ b with len := toCInt (b.len + toCInt size) }, (bufBptr b).map (· + b.len))

/-- `buf_read_alloc`: the first of `size` consumed bytes, or `NULL`. -/
def bufReadAlloc (b : Buffer) (size : Int) : Buffer × Option Int :=
  if size < 0 ∨ b.len < size then (b, none)
  else ({ b with offset := toCInt (b.offset + size), len := toCInt (b.len - size) }, bufBptr b)

/-- `buf_write(dest, src, size)`, `src` pointing at index `srcStart` of the memory `srcMem`. -/
def bufWrite (dest : Buffer) (srcMem : List UInt8) (srcStart : Int) (size : Nat) :
    Option (Buffer × Bool) :=
  match bufWriteAlloc dest size with
  | (dest, none) => some (dest, false)
  | (dest, some cp) => do
      let bytes ← memRead srcMem srcStart size
      let dest ← dest.store cp bytes
      pure (dest, true)

/-- `buf_write_prepend(dest, src, size)`, `src` pointing at index `srcStart` of `srcMem`. -/
def bufWritePrepend (dest : Buffer) (srcMem : List UInt8) (srcStart : Int) (size : Int) :
    Option (Buffer × Bool) :=
  match bufPrepend dest size with
  | (dest, none) => some (dest, false)
  | (dest, some cp) => do
      let bytes ← memRead srcMem srcStart size
      let dest ← dest.store cp bytes
      pure (dest, true)

/-- `buf_read(src, dest, size)`: the bytes copied out, or `none` when it returns false. -/
def bufRead (src : Buffer) (size : Int) : Option (Buffer × Option (List UInt8)) :=
  match bufReadAlloc src size with
  | (src, none) => some (src, none)
  | (src, some cp) => (src.load cp size).map fun bytes => (src, some bytes)

/-- `buf_read_u8`: the byte, or `-1`. -/
def bufReadU8 (b : Buffer) : Option (Buffer × Int) :=
  if bufLen b < 1 then some (b, -1)
  else match bufBptr b with
    | some cp => (b.load cp 1).map fun bytes => ((bufAdvance b 1).1, BigEndian.decode bytes)
    | none => none

/-- `buf_read_u16`: the big-endian value, or `-1`. -/
def bufReadU16 (b : Buffer) : Option (Buffer × Int) :=
  (bufRead b 2).map fun r => match r.2 with
    | some bytes => (r.1, BigEndian.decode bytes)
    | none => (r.1, -1)

/-- `buf_read_u32`: the big-endian value and `*good`. -/
def bufReadU32 (b : Buffer) : Option (Buffer × Nat × Bool) :=
  (bufRead b 4).map fun r => match r.2 with
    | some bytes => (r.1, BigEndian.decode bytes, true)
    | none => (r.1, 0, false)

/-- `buf_copy`: `buf_write(dest, BPTR(src), BLEN(src))`. -/
def bufCopy (dest src : Buffer) : Option (Buffer × Bool) :=
  match bufBptr src, src.data with
  | some cp, some mem => bufWrite dest mem cp (bufLen src).toNat
  | _, _ => bufWrite dest [] 0 0

/-- `buf_copy_n`: `n` bytes consumed from `src` and appended to `dest`. -/
def bufCopyN (dest src : Buffer) (n : Int) : Option (Buffer × Buffer × Bool) :=
  match bufReadAlloc src n with
  | (src, none) => some (dest, src, false)
  | (src, some cp) =>
      match src.data with
      | some mem => (bufWrite dest mem cp n.toNat).map fun r => (r.1, src, r.2)
      | none => none

/-- `buf_copy_range`. -/
def bufCopyRange (dest : Buffer) (destIndex : Int) (src : Buffer) (srcIndex srcLen : Int) :
    Option (Buffer × Bool) :=
  if srcIndex < 0 ∨ srcLen < 0 ∨ src.len < toCInt (srcIndex + srcLen) ∨ destIndex < 0 ∨
      dest.capacity < toCInt (toCInt (dest.offset + destIndex) + srcLen) then
    some (dest, false)
  else do
    let bytes ← src.load (src.offset + srcIndex) srcLen
    let dest ← dest.store (dest.offset + destIndex) bytes
    let newLen := toCInt (destIndex + srcLen)
    pure (if dest.len < newLen then { dest with len := newLen } else dest, true)

/-- `(size_t)size`: reduction modulo `2^64`. -/
def sizeOfInt (size : Int) : Nat := (size % 2 ^ 64).toNat

/-- `buf_sub`: the parent buffer after the space is taken, and the sub-buffer of capacity `size`
over that space (its bytes, since the sub-buffer's writes are not followed back to the parent). -/
def bufSub (b : Buffer) (size : Int) (prepend : Bool) : Buffer × Buffer :=
  let r := if prepend then bufPrepend b size else bufWriteAlloc b (sizeOfInt size)
  match r.2 with
  | some cp => (r.1, ⟨size, 0, 0, r.1.load cp size⟩)
  | none => (r.1, ⟨0, 0, 0, none⟩)

/-- The last part of `buf_null_terminate`: make room if needed, then append a zero byte. -/
def bufNullTerminateAppend (b : Buffer) : Option Buffer :=
  let b := if !bufSafe b 1 then (bufIncLen b (-1)).1 else b
  (bufWrite b [0] 0 1).map (·.1)

/-- `buf_null_terminate`, truncating the last byte if there is no room for the zero. -/
def bufNullTerminate (b : Buffer) : Option Buffer :=
  match bufBlast b with
  | some last => do
      let c ← b.load last 1
      if c = [0] then pure b else bufNullTerminateAppend b
  | none => bufNullTerminateAppend b

/-- `char_class(c, CC_CRLF|CC_NULL)`. -/
def isCrlfOrNull (c : UInt8) : Bool := c = 0 || c = 10 || c = 13

/-- The loop of `buf_chomp`, with `fuel` passes: drop trailing `\r`, `\n` and `\0` bytes. -/
def bufChompLoop : Nat → Buffer → Option Buffer
  | 0, b => some b
  | fuel + 1, b =>
      match bufBlast b with
      | none => some b
      | some last => do
          let c ← b.load last 1
          if c.all isCrlfOrNull then
            match bufIncLen b (-1) with
            | (b', true) => bufChompLoop fuel b'
            | (_, false) => some b
          else some b

/-- `buf_chomp`; each pass of its loop drops a byte or stops, so `len + 1` passes suffice. -/
def bufChomp (b : Buffer) : Option Buffer := do
  let b ← bufChompLoop ((bufLen b).toNat + 1) b
  bufNullTerminate b

end OpenVpn
