import OpenVpn.Icmp6

/-! The compression framings of `comp.c`, `compstub.c`, `lzo.c` and `comp-lz4.c`. None of them
compresses on send any more: each only frames the packet, with a command byte in front (`stub`
and `lzo`), the first byte swapped to the end and a command byte in its place (`stub` with
`COMP_F_SWAP`, and `lz4`), or, in the v2 framings, nothing unless the packet starts with the v2
indicator `0x50`, which is then escaped. The receive side still decompresses what a peer
compressed; the library decompressors are parameters (`CompLibs`). -/

namespace OpenVpn

-- `NO_COMPRESS_BYTE`; `NO_COMPRESS_BYTE_SWAP`; `LZO_COMPRESS_BYTE`; `LZ4_COMPRESS_BYTE`;
-- `COMP_ALGV2_INDICATOR_BYTE`; `COMP_ALGV2_UNCOMPRESSED_BYTE`, the on-wire code of an uncompressed
-- v2 packet; `COMP_ALGV2_LZ4_BYTE`; `COMP_F_SWAP`, `1<<2`; `COMP_ALG_STUB`; `COMP_ALG_LZO`;
-- `COMP_ALG_LZ4`; `COMP_ALGV2_UNCOMPRESSED`, the number of the v2 stub algorithm in
-- `compress_options`; `COMP_ALGV2_LZ4`
def noCompressByte : UInt8 := 0xFA

def noCompressByteSwap : UInt8 := 0xFB

def lzoCompressByte : UInt8 := 0x66

def lz4CompressByte : UInt8 := 0x69

def compAlgv2IndicatorByte : UInt8 := 0x50

def compAlgv2UncompressedByte : UInt8 := 0

def compAlgv2Lz4Byte : UInt8 := 1

def compFSwap : Nat := 4

def compAlgStub : Nat := 1

def compAlgLzo : Nat := 2

def compAlgLz4 : Nat := 4

def compAlgv2Uncompressed : Nat := 10

def compAlgv2Lz4 : Nat := 11

/-- The `compress_alg` tables. -/
inductive CompAlg where
  | stub
  | stubv2
  | lzo
  | lz4
  | lz4v2
  deriving DecidableEq, Repr

/-- `struct compress_context`: the algorithm and the flags. -/
structure CompressContext where
  alg : CompAlg
  flags : Nat
  deriving DecidableEq, Repr

/-- What the decompressors read of the frame: `frame->buf.headroom` and `frame->buf.payload_size`. -/
structure CompFrame where
  headroom : Int
  payloadSize : Nat
  deriving DecidableEq, Repr

/-- The library decompressors, `LZO_DECOMPRESS` and `LZ4_decompress_safe`: the bytes they write,
given the input and the room, or `none` for an error. -/
structure CompLibs where
  lzoDecompress : List UInt8 → Nat → Option (List UInt8)
  lz4DecompressSafe : List UInt8 → Nat → Option (List UInt8)

/-- `comp_init(opt)` with its `compress_init`: the `lzo` init asserts that `COMP_F_SWAP` is off and
the `lz4` init that it is on. -/
def compInit (alg flags : Nat) : Option (Option CompressContext) :=
  if alg = compAlgStub then some (some ⟨.stub, flags⟩)
  else if alg = compAlgv2Uncompressed then some (some ⟨.stubv2, flags⟩)
  else if alg = compAlgLzo then
    if flags &&& compFSwap ≠ 0 then none else some (some ⟨.lzo, flags⟩)
  else if alg = compAlgLz4 then
    if flags &&& compFSwap ≠ 0 then some (some ⟨.lz4, flags⟩) else none
  else if alg = compAlgv2Lz4 then some (some ⟨.lz4v2, flags⟩)
  else some none

/-- `*p = byte` at a pointer `buf_prepend` or `BPTR` returned; `NULL` faults. -/
def storeByteAt (buf : Buffer) (p : Option Int) (byte : UInt8) : Option Buffer := do
  let p ← p
  buf.store p [byte]

/-- The swap of the first byte to the end on send: `*tail = *head; *head = byte`, after
`ASSERT(buf_safe(buf, 1))` and `++buf->len`. -/
def swapHeadToTail (buf : Buffer) (byte : UInt8) : Option Buffer := do
  let head ← bufBptr buf
  let tail := head + bufLen buf
  cAssert (bufSafe buf 1)
  let buf := { buf with len := buf.len + 1 }
  let h ← buf.load head 1
  let buf ← buf.store tail h
  buf.store head [byte]

/-- The swap back on receive: the command byte `c` is read, `--buf->len`, and the last byte goes
back to the front (`*head = *BEND(buf)`). -/
def swapTailToHead (buf : Buffer) : Option (UInt8 × Buffer) := do
  let head ← bufBptr buf
  let c ← buf.load head 1
  let buf := { buf with len := buf.len - 1 }
  let last ← buf.load (head + bufLen buf) 1
  let buf ← buf.store head last
  pure (c.headD 0, buf)

/-- `compv2_escape_data_ifneeded(buf)`: a packet starting with `0x50` gets two bytes in front,
`COMP_ALGV2_INDICATOR_BYTE` and `COMP_ALGV2_UNCOMPRESSED`, the algorithm's number. -/
def compv2EscapeDataIfneeded (buf : Buffer) : Option Buffer := do
  let head ← bufBptr buf
  let h ← buf.load head 1
  if h ≠ [compAlgv2IndicatorByte] then return buf
  let (buf, p) := bufPrepend buf 2
  let p ← p
  buf.store p [compAlgv2IndicatorByte, UInt8.ofNat compAlgv2Uncompressed]

/-- `stub_compress`. -/
def stubCompress (flags : Nat) (buf : Buffer) : Option Buffer :=
  if buf.len ≤ 0 then some buf
  else if flags &&& compFSwap ≠ 0 then swapHeadToTail buf noCompressByteSwap
  else
    let (buf, header) := bufPrepend buf 1
    storeByteAt buf header noCompressByte

/-- `stub_decompress`; a bad command byte empties the buffer. -/
def stubDecompress (flags : Nat) (buf : Buffer) : Option Buffer := do
  if buf.len ≤ 0 then return buf
  if flags &&& compFSwap ≠ 0 then
    let (c, buf) ← swapTailToHead buf
    if c ≠ noCompressByteSwap then return { buf with len := 0 }
    return buf
  else
    let head ← bufBptr buf
    let c ← buf.load head 1
    let (buf, ok) := bufAdvance buf 1
    cAssert ok
    if c ≠ [noCompressByte] then return { buf with len := 0 }
    return buf

/-- `stubv2_compress`. -/
def stubv2Compress (buf : Buffer) : Option Buffer :=
  if buf.len ≤ 0 then some buf else compv2EscapeDataIfneeded buf

/-- `stubv2_decompress`. -/
def stubv2Decompress (buf : Buffer) : Option Buffer := do
  if buf.len ≤ 0 then return buf
  let head ← bufBptr buf
  let h ← buf.load head 1
  -- no compression or packet to short
  if h ≠ [compAlgv2IndicatorByte] then return buf
  let (buf, _) := bufAdvance buf 1
  if buf.len ≤ 0 then return buf
  let head ← bufBptr buf
  let h ← buf.load head 1
  let (buf, _) := bufAdvance buf 1
  if h ≠ [compAlgv2UncompressedByte] then return { buf with len := 0 }
  return buf

/-- `lzo_compress`. -/
def lzoCompress (buf : Buffer) : Option Buffer :=
  let (buf, header) := bufPrepend buf 1
  storeByteAt buf header noCompressByte

/-- A library decompression into `work`, as `lzo_decompress` and `do_lz4_decompress` do it: the
room `zlen` is asserted, an error empties `buf`, and otherwise `buf` becomes `work` holding the
output. -/
def decompressInto (lib : List UInt8 → Nat → Option (List UInt8)) (zlen : Nat) (work buf : Buffer) :
    Option Buffer := do
  cAssert (bufSafe work zlen)
  let input ← bufContents buf
  match lib input zlen with
  | none => return { buf with len := 0 }
  | some out =>
      let wptr ← bufBptr work
      let work ← work.store wptr out
      cAssert (bufSafe work out.length)
      return { work with len := out.length }

/-- `lzo_decompress`. -/
def lzoDecompress (libs : CompLibs) (frame : CompFrame) (work buf : Buffer) : Option Buffer := do
  if buf.len ≤ 0 then return buf
  let (work, ok) := bufInit work frame.headroom
  cAssert ok
  let head ← bufBptr buf
  let c ← buf.load head 1
  let (buf, ok) := bufAdvance buf 1
  cAssert ok
  if c = [lzoCompressByte] then decompressInto libs.lzoDecompress frame.payloadSize work buf
  else if c = [noCompressByte] then return buf
  else return { buf with len := 0 }

/-- `lz4_compress`: the swap, always. -/
def lz4Compress (buf : Buffer) : Option Buffer :=
  if buf.len ≤ 0 then some buf else swapHeadToTail buf noCompressByteSwap

/-- `lz4v2_compress`. -/
def lz4v2Compress (buf : Buffer) : Option Buffer :=
  if buf.len ≤ 0 then some buf else compv2EscapeDataIfneeded buf

/-- `lz4_decompress`. -/
def lz4Decompress (libs : CompLibs) (frame : CompFrame) (work buf : Buffer) : Option Buffer := do
  if buf.len ≤ 0 then return buf
  let (work, ok) := bufInit work frame.headroom
  cAssert ok
  let (c, buf) ← swapTailToHead buf
  if c = lz4CompressByte then
    decompressInto libs.lz4DecompressSafe frame.payloadSize work buf
  else if c = noCompressByteSwap then return buf
  else return { buf with len := 0 }

/-- `lz4v2_decompress`. -/
def lz4v2Decompress (libs : CompLibs) (frame : CompFrame) (work buf : Buffer) : Option Buffer := do
  if buf.len ≤ 0 then return buf
  let (work, ok) := bufInit work frame.headroom
  cAssert ok
  let head ← bufBptr buf
  let c ← buf.load head 1
  -- not compressed
  if c ≠ [compAlgv2IndicatorByte] then return buf
  -- packet to short to make sense
  if buf.len ≤ 1 then return { buf with len := 0 }
  let c ← buf.load (head + 1) 1
  if c = [compAlgv2Lz4Byte] then
    let (buf, _) := bufAdvance buf 2
    decompressInto libs.lz4DecompressSafe frame.payloadSize work buf
  else if c = [compAlgv2UncompressedByte] then
    let (buf, _) := bufAdvance buf 2
    return buf
  else return { buf with len := 0 }

/-- The `compress` function of the context's algorithm, as `encrypt_sign` calls it. -/
def compCompress (ctx : CompressContext) (buf : Buffer) : Option Buffer :=
  match ctx.alg with
  | .stub => stubCompress ctx.flags buf
  | .stubv2 => stubv2Compress buf
  | .lzo => lzoCompress buf
  | .lz4 => lz4Compress buf
  | .lz4v2 => lz4v2Compress buf

/-- The `decompress` function of the context's algorithm, as `process_incoming_link_part2` calls
it. -/
def compDecompress (ctx : CompressContext) (libs : CompLibs) (frame : CompFrame) (work buf : Buffer) :
    Option Buffer :=
  match ctx.alg with
  | .stub => stubDecompress ctx.flags buf
  | .stubv2 => stubv2Decompress buf
  | .lzo => lzoDecompress libs frame work buf
  | .lz4 => lz4Decompress libs frame work buf
  | .lz4v2 => lz4v2Decompress libs frame work buf

end OpenVpn
