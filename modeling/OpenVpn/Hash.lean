import OpenVpn.Buffer

/-! `list.c` and `list.h`: the chained hash table that maps clients by address, by virtual address
and by peer id. A table has `n_buckets` buckets, a power of two, and an element with hash value
`hv` lives in bucket `hv & mask`; each bucket is a list of elements chained by `next`, kept here
as a list, head first. A lookup moves the element it finds to the head of its bucket. An iterator
walks the buckets of a range in order; `hash_iterator_delete_element` only sets the key of the
element last returned to `NULL`, and the marked elements of a bucket are freed when the iterator
leaves it (`hash_iterator_unlock`). A pointer of the iterator into a bucket is kept as the
bucket's index and the element's position in it: while a bucket is locked its list keeps its
shape, since a delete only writes a key.

Keys and values are the caller's pointers, of types `K` and `V`; `hash_function` and
`compare_function` are functions of them. `compare_function` is never called with a `NULL` key
outside an iteration, where no table call runs (a marked key is freed before the iterator is
freed); the model compares a `NULL` key as unequal. The loop of `hash_remove_by_value` runs on a
fuel argument and returns `none` when it runs out, as a call returns `none` where an `ASSERT`
fails or `M_FATAL` exits. -/

namespace OpenVpn

/-- `struct hash_element`; `key` is `NULL` once `hash_iterator_delete_element` marked it. -/
structure HashElement (K V : Type) where
  value : V
  key : Option K
  hashValue : UInt32

/-- `struct hash`, with `buckets[i].list` as the list of bucket `i`. -/
structure Hash (K V : Type) where
  nBuckets : Int
  nElements : Int
  mask : Int
  iv : UInt32
  hashFunction : K → UInt32 → UInt32
  compareFunction : K → K → Bool
  buckets : List (List (HashElement K V))

-- `sizeof(struct hash_bucket)`: one pointer, on a 64-bit target
def sizeofHashBucket : Nat := 8

/-- `array_mult_safe(m1, m2, extra)`: the product, or `M_FATAL` above `0xFFFFFFFF`. -/
def arrayMultSafe (m1 m2 extra : Nat) : Option Nat :=
  let limit := 0xFFFFFFFF
  let res := m1 * m2 + extra
  if m1 > limit ∨ m2 > limit ∨ extra > limit ∨ res > limit then none else some res

/-- The loop of `adjust_power_of_2` on a `size_t`: double `ret` until it reaches `u`; the
`ASSERT(ret > 0)` fails once the shift leaves the 64 bits. Each turn doubles, so 64 turns reach
every `u` that the shift does not overflow on. -/
def adjustPowerOf2Loop (u ret : Nat) : Nat → Option Nat
  | 0 => none
  | fuel + 1 =>
      if ret < u then
        let ret := (ret <<< 1) % 2 ^ 64
        if ret > 0 then adjustPowerOf2Loop u ret fuel else none
      else some ret

/-- `adjust_power_of_2(u)`: the least power of two that is at least `u`. -/
def adjustPowerOf2 (u : Nat) : Option Nat := adjustPowerOf2Loop u 1 64

variable {K V : Type}

/-- `hash_init(n_buckets, iv, hash_function, compare_function)`. -/
def hashInit (nBuckets : Int) (iv : UInt32) (hashFunction : K → UInt32 → UInt32)
    (compareFunction : K → K → Bool) : Option (Hash K V) := do
  -- ASSERT(n_buckets > 0)
  if nBuckets ≤ 0 then none
  else
    let n := toCInt (← adjustPowerOf2 nBuckets.toNat)
    -- ALLOC_ARRAY(h->buckets, struct hash_bucket, h->n_buckets)
    let _ ← arrayMultSafe sizeofHashBucket (n % 2 ^ 64).toNat 0
    pure ⟨n, 0, toCInt (n - 1), iv, hashFunction, compareFunction, List.replicate n.toNat []⟩

namespace Hash

/-- `hash_value(hash, key)`. -/
def hashValue (h : Hash K V) (key : K) : UInt32 := h.hashFunction key h.iv

/-- The bucket `hv & hash->mask`, with the mask as the `unsigned int` it converts to. -/
def bucketIndex (h : Hash K V) (hv : UInt32) : Nat := hv.toNat &&& h.mask.toNat

/-- `hash->buckets[i].list`. -/
def bucket (h : Hash K V) (i : Nat) : List (HashElement K V) := h.buckets.getD i []

/-- `hash->buckets[i].list = b`. -/
def setBucket (h : Hash K V) (i : Nat) (b : List (HashElement K V)) : Hash K V :=
  { h with buckets := h.buckets.set i b }

/-- The test of the loops of `hash_lookup_fast` and `hash_remove_fast`:
`hv == he->hash_value && (*hash->compare_function)(key, he->key)`. -/
def keyMatches (h : Hash K V) (key : K) (hv : UInt32) (he : HashElement K V) : Bool :=
  hv == he.hashValue && he.key.any (h.compareFunction key)

end Hash

/-- The loop of `hash_lookup_fast` over the rest of a bucket, `prev` the elements passed: the
first element that matches moves to the head of the list. -/
def hashLookupFastLoop (p : HashElement K V → Bool) (prev : List (HashElement K V)) :
    List (HashElement K V) → List (HashElement K V) × Option (HashElement K V)
  | [] => (prev, none)
  | he :: rest =>
      -- move to head of list; with no `prev` the list is unchanged
      if p he then (he :: (prev ++ rest), some he)
      else hashLookupFastLoop p (prev ++ [he]) rest

/-- `hash_lookup_fast(hash, &hash->buckets[i], key, hv)`. -/
def hashLookupFast (h : Hash K V) (i : Nat) (key : K) (hv : UInt32) :
    Hash K V × Option (HashElement K V) :=
  let (b, he) := hashLookupFastLoop (h.keyMatches key hv) [] (h.bucket i)
  (h.setBucket i b, he)

/-- The loop of `hash_remove_fast`: the bucket without the first element that matches, if one
does. -/
def hashRemoveFastLoop (p : HashElement K V → Bool) (prev : List (HashElement K V)) :
    List (HashElement K V) → Option (List (HashElement K V))
  | [] => none
  | he :: rest => if p he then some (prev ++ rest) else hashRemoveFastLoop p (prev ++ [he]) rest

/-- `hash_remove_fast(hash, &hash->buckets[i], key, hv)`. -/
def hashRemoveFast (h : Hash K V) (i : Nat) (key : K) (hv : UInt32) : Hash K V × Bool :=
  match hashRemoveFastLoop (h.keyMatches key hv) [] (h.bucket i) with
  | some b => ({ h.setBucket i b with nElements := h.nElements - 1 }, true)
  | none => (h, false)

/-- `hash_add_fast(hash, &hash->buckets[i], key, hv, value)`: a new element at the head. -/
def hashAddFast (h : Hash K V) (i : Nat) (key : K) (hv : UInt32) (value : V) : Hash K V :=
  { h.setBucket i (⟨value, some key, hv⟩ :: h.bucket i) with nElements := h.nElements + 1 }

/-- `hash_add(hash, key, value, replace)`. -/
def hashAdd (h : Hash K V) (key : K) (value : V) (replace : Bool) : Hash K V × Bool :=
  let hv := h.hashValue key
  let i := h.bucketIndex hv
  match hashLookupFast h i key hv with
  | (h, some _) =>
      -- `he->value = value`: the element found is the head of its bucket now
      if replace then
        (h.setBucket i (match h.bucket i with
          | he :: rest => { he with value := value } :: rest
          | [] => []), true)
      else (h, false)
  | (h, none) => (hashAddFast h i key hv value, true)

/-- `hash_lookup(hash, key)`. -/
def hashLookup (h : Hash K V) (key : K) : Hash K V × Option V :=
  let hv := h.hashValue key
  let (h, he) := hashLookupFast h (h.bucketIndex hv) key hv
  (h, he.map HashElement.value)

/-- `hash_remove(hash, key)`. -/
def hashRemove (h : Hash K V) (key : K) : Hash K V × Bool :=
  let hv := h.hashValue key
  hashRemoveFast h (h.bucketIndex hv) key hv

/-! ### Iterators -/

/-- `struct hash_iterator`, its table apart: `elem` and `last` point at an element of the locked
bucket, by bucket index and position. -/
structure HashIterator where
  bucketIndex : Int
  bucket : Option Nat
  elem : Option (Nat × Nat)
  last : Option (Nat × Nat)
  bucketMarked : Bool
  bucketIndexStart : Int
  bucketIndexEnd : Int
  deriving DecidableEq, Repr

/-- The loop of `hash_remove_marked` over a bucket: the elements with a key, and how many were
freed. -/
def hashRemoveMarkedLoop : List (HashElement K V) → List (HashElement K V) × Nat
  | [] => ([], 0)
  | he :: rest =>
      let (rest, n) := hashRemoveMarkedLoop rest
      if he.key.isNone then (rest, n + 1) else (he :: rest, n)

/-- `hash_remove_marked(hash, &hash->buckets[b])`. -/
def hashRemoveMarked (h : Hash K V) (b : Nat) : Hash K V :=
  let (l, n) := hashRemoveMarkedLoop (h.bucket b)
  { h.setBucket b l with nElements := h.nElements - n }

/-- `hash_iterator_init_range(hash, hi, start_bucket, end_bucket)`. -/
def hashIteratorInitRange (h : Hash K V) (startBucket endBucket : Int) : Option HashIterator :=
  let endBucket := if endBucket > h.nBuckets then h.nBuckets else endBucket
  -- ASSERT(start_bucket >= 0 && start_bucket <= end_bucket)
  if 0 ≤ startBucket ∧ startBucket ≤ endBucket then
    some ⟨startBucket - 1, none, none, none, false, startBucket, endBucket⟩
  else none

/-- `hash_iterator_init(hash, hi)`. -/
def hashIteratorInit (h : Hash K V) : Option HashIterator :=
  hashIteratorInitRange h 0 h.nBuckets

/-- `hash_iterator_lock(hi, &hash->buckets[b])`. -/
def HashIterator.lock (hi : HashIterator) (b : Nat) : HashIterator :=
  { hi with bucket := some b, last := none, bucketMarked := false }

/-- `hash_iterator_unlock(hi)`: free the marked elements of the locked bucket. -/
def hashIteratorUnlock (h : Hash K V) (hi : HashIterator) : Hash K V × HashIterator :=
  match hi.bucket with
  | some b =>
      let (h, hi) :=
        if hi.bucketMarked then (hashRemoveMarked h b, { hi with bucketMarked := false })
        else (h, hi)
      (h, { hi with bucket := none, last := none })
  | none => (h, hi)

/-- `hash_iterator_advance(hi)`: `last` is the current element and `elem` the next in its
bucket. -/
def hashIteratorAdvance (h : Hash K V) (hi : HashIterator) : HashIterator :=
  { hi with
    last := hi.elem
    elem := match hi.elem with
      | some (b, p) => if p + 1 < (h.bucket b).length then some (b, p + 1) else none
      | none => none }

/-- `hash_iterator_free(hi)`. -/
def hashIteratorFree (h : Hash K V) (hi : HashIterator) : Hash K V × HashIterator :=
  hashIteratorUnlock h hi

/-- The loop of `hash_iterator_next` over the buckets, `n` the turns to `bucket_index_end`: on to
the next bucket and return its first element, or `NULL` past the range. -/
def hashIteratorNextLoop (h : Hash K V) (hi : HashIterator) :
    Nat → Hash K V × HashIterator × Option (HashElement K V)
  | 0 => (h, { hi with bucketIndex := hi.bucketIndex + 1 }, none)
  | n + 1 =>
      let hi := { hi with bucketIndex := hi.bucketIndex + 1 }
      if hi.bucketIndex < hi.bucketIndexEnd then
        let (h, hi) := hashIteratorUnlock h hi
        let b := hi.bucketIndex.toNat
        match h.bucket b with
        | [] => hashIteratorNextLoop h hi n
        | he :: _ => (h, hashIteratorAdvance h { hi.lock b with elem := some (b, 0) }, some he)
      else (h, hi, none)

/-- `hash_iterator_next(hi)`. -/
def hashIteratorNext (h : Hash K V) (hi : HashIterator) :
    Hash K V × HashIterator × Option (HashElement K V) :=
  match hi.elem with
  | some (b, p) => (h, hashIteratorAdvance h hi, (h.bucket b)[p]?)
  | none => hashIteratorNextLoop h hi (hi.bucketIndexEnd - hi.bucketIndex).toNat

/-- `hi->last->key = NULL`. -/
def Hash.markKey (h : Hash K V) (b p : Nat) : Hash K V :=
  h.setBucket b ((h.bucket b).modify p fun he => { he with key := none })

/-- `hash_iterator_delete_element(hi)`. -/
def hashIteratorDeleteElement (h : Hash K V) (hi : HashIterator) :
    Option (Hash K V × HashIterator) :=
  match hi.last with
  | some (b, p) => some (h.markKey b p, { hi with bucketMarked := true })
  -- ASSERT(hi->last)
  | none => none

/-- The loop of `hash_remove_by_value`: delete each element returned whose value is `value`. -/
def hashRemoveByValueLoop [DecidableEq V] (value : V) (h : Hash K V) (hi : HashIterator) :
    Nat → Option (Hash K V × HashIterator)
  | 0 => none
  | fuel + 1 =>
      match hashIteratorNext h hi with
      | (h, hi, some he) =>
          if he.value = value then do
            let (h, hi) ← hashIteratorDeleteElement h hi
            hashRemoveByValueLoop value h hi fuel
          else hashRemoveByValueLoop value h hi fuel
      | (h, hi, none) => some (h, hi)

/-- `hash_remove_by_value(hash, value)`. -/
def hashRemoveByValue [DecidableEq V] (h : Hash K V) (value : V) (fuel : Nat) :
    Option (Hash K V) := do
  let hi ← hashIteratorInit h
  let (h, hi) ← hashRemoveByValueLoop value h hi fuel
  pure (hashIteratorFree h hi).1

end OpenVpn
