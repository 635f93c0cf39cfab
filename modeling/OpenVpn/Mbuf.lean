import OpenVpn.Hash
import OpenVpn.RingQueue

/-! `mbuf.c`: the queue of packets the server holds for its client instances. An `mbuf_set` is a
ring of `capacity` items, a power of two, of which the `len` items from `head` on are queued; an
item names a reference-counted `mbuf_buffer` and the instance it is for. When a client instance
closes, `mbuf_dereference_instance` releases its buffers and leaves their items in place with
both pointers `NULL`; `mbuf_extract_item` skips such items. A full queue makes room for a new item
by extracting the oldest one, and `ASSERT`s that it found one.

Buffers live on a heap, named by the number of their allocation: each has its `refcount`, or is
freed. The packet a buffer holds and its flags are not modelled: no function of `mbuf.c` reads
them. Reading or writing a freed buffer, or following a `NULL` buffer, is `none`, as a failed
`ASSERT` is. -/

namespace OpenVpn

/-- `struct mbuf_item`: the buffer and the instance (`instance`) it is queued for; a
dereferenced item has both `NULL`. -/
structure MbufItem (I : Type) where
  buffer : Option Nat
  inst : Option I
  deriving DecidableEq, Repr

/-- An item with both pointers `NULL`: what `mbuf_dereference_instance` leaves. -/
def MbufItem.null {I : Type} : MbufItem I := ⟨none, none⟩

/-- `struct mbuf_set`. -/
structure MbufSet (I : Type) where
  head : UInt32
  len : UInt32
  capacity : UInt32
  maxQueued : UInt32
  array : List (MbufItem I)
  deriving DecidableEq, Repr

/-- The `mbuf_buffer`s allocated so far: the `refcount` of each, `none` once it is freed. -/
structure MbufHeap where
  refcount : List (Option Int)
  deriving DecidableEq, Repr

variable {I : Type}

/-- `MBUF_INDEX(head, offset, size)`. -/
def mbufIndex (head offset size : UInt32) : UInt32 := (head + offset) &&& (size - 1)

-- `sizeof(struct mbuf_item)`: two pointers
def sizeofMbufItem : Nat := 16

/-- `mbuf_init(size)`: `capacity` is `adjust_power_of_2(size)` as an `unsigned int`, and
`ALLOC_ARRAY` stops the process when the array would pass `array_mult_safe`'s limit. The array is
not cleared; no item of it is read before it is written. -/
def mbufInit (size : UInt32) : Option (MbufSet I) := do
  let capacity := UInt32.ofNat (← adjustPowerOf2 size.toNat)
  let _ ← arrayMultSafe sizeofMbufItem capacity.toNat 0
  pure ⟨0, 0, capacity, 0, List.replicate capacity.toNat MbufItem.null⟩

/-- `mbuf_alloc_buf`: a new buffer with one reference, the caller's. -/
def mbufAllocBuf (heap : MbufHeap) : MbufHeap × Nat :=
  (⟨heap.refcount ++ [some 1]⟩, heap.refcount.length)

/-- `mbuf_free_buf(mb)`: drop a reference, and free the buffer when none is left. -/
def mbufFreeBuf (heap : MbufHeap) : Option Nat → Option MbufHeap
  | none => some heap
  | some b =>
      match heap.refcount[b]? with
      | some (some rc) =>
          if rc - 1 ≤ 0 then some ⟨heap.refcount.set b none⟩
          else some ⟨heap.refcount.set b (some (rc - 1))⟩
      | _ => none

/-- `++item->buffer->refcount`. -/
def mbufIncRef (heap : MbufHeap) : Option Nat → Option MbufHeap
  | none => none
  | some b =>
      match heap.refcount[b]? with
      | some (some rc) => some ⟨heap.refcount.set b (some (rc + 1))⟩
      | _ => none

/-- The loop of `mbuf_extract_item`: take the item at `head` and move `head` on while items are
queued, until an item with an instance. It runs at most `len` turns, each of which takes one item
off. -/
def mbufExtractLoop (ms : MbufSet I) : Nat → MbufSet I × Option (MbufItem I)
  | 0 => (ms, none)
  | fuel + 1 =>
      if ms.len = 0 then (ms, none)
      else
        let item := ms.array.getD ms.head.toNat MbufItem.null
        let ms := { ms with head := mbufIndex ms.head 1 ms.capacity, len := ms.len - 1 }
        -- ignore dereferenced instances
        if item.inst.isSome then (ms, some item) else mbufExtractLoop ms fuel

/-- `mbuf_extract_item(ms, &item)`: the item it returns `true` with. -/
def mbufExtractItem (ms : MbufSet I) : MbufSet I × Option (MbufItem I) :=
  mbufExtractLoop ms ms.len.toNat

/-- The start of `mbuf_add_item`: a full queue drops its oldest item ("MBUF: mbuf packet
dropped"), and `ASSERT`s that it found one. -/
def mbufMakeRoom (ms : MbufSet I) (heap : MbufHeap) : Option (MbufSet I × MbufHeap) :=
  if ms.len = ms.capacity then
    match mbufExtractItem ms with
    | (_, none) => none
    | (ms, some rm) => (mbufFreeBuf heap rm.buffer).map fun heap => (ms, heap)
  else some (ms, heap)

/-- The store of `mbuf_add_item`: the item goes after the last one, and `max_queued` follows
`len`. -/
def mbufStore (ms : MbufSet I) (item : MbufItem I) : MbufSet I :=
  let len := ms.len + 1
  { ms with array := ms.array.set (mbufIndex ms.head ms.len ms.capacity).toNat item, len := len,
            maxQueued := if len > ms.maxQueued then len else ms.maxQueued }

/-- `mbuf_add_item(ms, item)`: make room, `ASSERT(ms->len < ms->capacity)`, store the item and
take a reference to its buffer. -/
def mbufAddItem (ms : MbufSet I) (heap : MbufHeap) (item : MbufItem I) :
    Option (MbufSet I × MbufHeap) := do
  let (ms, heap) ← mbufMakeRoom ms heap
  if ¬ms.len < ms.capacity then none
  else (mbufIncRef heap item.buffer).map fun heap => (mbufStore ms item, heap)

/-- The slots `mbuf_dereference_instance` and `mbuf_peek_dowork` visit: `i` from 0 while
`i < (int) ms->len`. -/
def mbufOffsets (ms : MbufSet I) : List Nat := List.range (toCInt ms.len.toNat).toNat

/-- The loop of `mbuf_dereference_instance(ms, mi)` over the offsets left. -/
def mbufDereferenceLoop [DecidableEq I] (mi : I) (ms : MbufSet I) (heap : MbufHeap) :
    List Nat → Option (MbufSet I × MbufHeap)
  | [] => some (ms, heap)
  | i :: offsets =>
      let idx := (mbufIndex ms.head (UInt32.ofNat i) ms.capacity).toNat
      let item := ms.array.getD idx MbufItem.null
      if item.inst = some mi then do
        let heap ← mbufFreeBuf heap item.buffer
        mbufDereferenceLoop mi { ms with array := ms.array.set idx MbufItem.null } heap offsets
      else mbufDereferenceLoop mi ms heap offsets

/-- `mbuf_dereference_instance(ms, mi)`: every queued item for `mi` releases its buffer and
becomes a `NULL` item ("MBUF: dereferenced queued packet"). -/
def mbufDereferenceInstance [DecidableEq I] (ms : MbufSet I) (heap : MbufHeap) (mi : I) :
    Option (MbufSet I × MbufHeap) :=
  mbufDereferenceLoop mi ms heap (mbufOffsets ms)

/-- `mbuf_peek(ms)`: the instance of the first queued item that has one. -/
def mbufPeek (ms : MbufSet I) : Option I :=
  if ms.len = 0 then none
  else (mbufOffsets ms).findSome? fun i =>
    (ms.array.getD (mbufIndex ms.head (UInt32.ofNat i) ms.capacity).toNat MbufItem.null).inst

end OpenVpn
