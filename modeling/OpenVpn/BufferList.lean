import OpenVpn.BufParse

/-! The buffer list of `buffer.c`: a singly linked list of buffers with pointers to its first and
its last entry and a count. A list is the buffers from `head` along `next`; `tail` is kept as the
buffer it points at. `buffer_list_aggregate_separator` merges the leading entries that fit in
`max_len`, each followed by the separator, into one entry; a merged buffer that
`alloc_buf` refuses ends the process, which is `none` here. -/

namespace OpenVpn

/-- `struct buffer_list`: the buffers from `head` along `next`, the buffer `tail` points at, and
`size`. -/
structure BufferList where
  entries : List Buffer
  tail : Option Buffer
  size : Int

/-- `buffer_list_new`. -/
def bufferListNew : BufferList := ⟨[], none, 0⟩

/-- `buffer_list_reset`: every entry freed. -/
def bufferListReset (_ol : BufferList) : BufferList := ⟨[], none, 0⟩

/-- `buffer_list_push_data`: a new last entry holding the `size` bytes of `data`; `none` where
an `ASSERT` fires or `alloc_buf` ends the process. -/
def bufferListPushData (ol : BufferList) (data : List UInt8) : Option BufferList :=
  -- `ASSERT(ol->head)` under a tail, `ASSERT(!ol->head)` without one
  if ol.tail.isSome = !ol.entries.isEmpty then
    (allocBuf data.length).map fun buf =>
      let e : Buffer := { buf with len := data.length, data := some data }
      ⟨ol.entries ++ [e], some e, ol.size + 1⟩
  else none

/-- `buffer_list_push`: the C string `str` pushed with its `NUL`, which the length leaves out. -/
def bufferListPush (ol : BufferList) (str : List UInt8) : Option BufferList :=
  (bufferListPushData ol (str ++ [0])).map fun ol =>
    -- `e->buf.len = (int)len` on the entry just pushed, the tail
    let e : Buffer := { Buffer.ofBytes (str ++ [0]) with len := str.length }
    { ol with entries := ol.entries.dropLast ++ [e], tail := some e }

/-- `buffer_list_peek`. -/
def bufferListPeek (ol : BufferList) : Option Buffer := ol.entries.head?

/-- `buffer_list_pop`. -/
def bufferListPop (ol : BufferList) : BufferList :=
  match ol.entries with
  | [] => ol
  | _ :: rest => ⟨rest, if rest = [] then none else ol.tail, ol.size - 1⟩

/-- The counting loop of `buffer_list_aggregate_separator` from the entry `more`: how many more
entries fit in `max_len` with a separator each, and the bytes counted when it stops. -/
def aggregateCount (maxLen sepLen : Nat) : List Buffer → Nat → Nat × Nat
  | [], size => (0, size)
  | e :: more, size =>
      let extraLen := (bufLen e).toNat + sepLen
      if size + extraLen > maxLen then (0, size)
      else
        let r := aggregateCount maxLen sepLen more (size + extraLen)
        (r.1 + 1, r.2)

/-- The merge loop of `buffer_list_aggregate_separator`: each entry copied into `f` with
`buf_copy`, followed by the separator. -/
def aggregateMerge (sep : List UInt8) (f : Buffer) : List Buffer → Option Buffer
  | [] => some f
  | e :: es => do
      let (f, _) ← bufCopy f e
      let (f, _) ← bufWrite f sep 0 sep.length
      aggregateMerge sep f es

/-- `buffer_list_aggregate_separator(bl, max_len, sep)`, `sep` the bytes of the separator before
its `NUL`. -/
def bufferListAggregateSeparator (bl : BufferList) (maxLen : Nat) (sep : List UInt8) :
    Option BufferList :=
  let (count, size) := aggregateCount maxLen sep.length bl.entries 0
  if count ≥ 2 then do
    -- `alloc_buf(size + 1)`: the `+ 1` prevents a `0`-byte `malloc`
    let f ← allocBuf (size + 1)
    let f ← aggregateMerge sep f (bl.entries.take count)
    let more := bl.entries.drop count
    some ⟨f :: more, if more = [] then some f else bl.tail, bl.size - ((count : Int) - 1)⟩
  else some bl

/-- `buffer_list_aggregate`: no separator. -/
def bufferListAggregate (bl : BufferList) (max : Nat) : Option BufferList :=
  bufferListAggregateSeparator bl max []

/-- The invariant the list functions keep: `size` counts the entries and `tail` is the last one,
so `head` is `NULL` exactly when `tail` is; every entry is a buffer `alloc_buf` made. -/
structure BufferList.Inv (bl : BufferList) : Prop where
  size_eq : bl.size = bl.entries.length
  tail_eq : bl.tail = bl.entries.getLast?
  bounded : ∀ e ∈ bl.entries, BufBounded e

namespace BufBounded

variable {dest src : Buffer}

theorem length_content_toNat (hs : BufBounded src) : (src.content.length : Int) = src.len := by
  rw [hs.length_content, Int.toNat_of_nonneg hs.len_nonneg]

/-- `buf_copy` of a buffer that fits in the room after the content of `dest`. -/
theorem bufCopy_eq (hd : BufBounded dest) (hs : BufBounded src)
    (h : dest.offset + dest.len + src.len ≤ dest.capacity) :
    bufCopy dest src = some (dest.append src.content, true) := by
  have hread : memRead src.bytes src.offset ((bufLen src).toNat : Nat) = some src.content := by
    have hload := hs.load_content le_rfl hs.len_nonneg (show 0 + src.len ≤ src.len by omega)
    rw [Buffer.load, hs.data_eq, Option.bind_some, add_zero, Int.toNat_zero, List.drop_zero,
      ← hs.length_content, List.take_length] at hload
    rw [hs.bufLen_eq, Int.toNat_of_nonneg hs.len_nonneg, hload]
  have hlen := hs.length_content_toNat
  have hsmall : (src.content.length : Int) < bufSizeMax := by
    have := hs.len_le
    have := hs.offset_nonneg
    have := hs.capacity_lt
    omega
  unfold bufCopy
  rw [hs.bufBptr_eq, hs.data_eq]
  dsimp only
  rw [bufWrite_of_memRead hread, hd.bufWrite_eq_append hsmall (by rw [hlen]; exact h)]

end BufBounded

theorem allocBuf_of_lt {size : Nat} (h : (size : Int) < bufSizeMax) :
    allocBuf size = some ⟨size, 0, 0, some (List.replicate size 0)⟩ := by
  simp [allocBuf, bufSizeValid, h]

theorem allocBuf_of_le {size : Nat} (h : bufSizeMax ≤ (size : Int)) : allocBuf size = none := by
  simp [allocBuf, bufSizeValid, not_lt.mpr h]

/-! ### Aggregating -/

section Aggregate

variable (maxLen : Nat) (sep : List UInt8)

/-- The counting loop from a count `size` that fits: it stops at the first entry that does not
fit, so it counts the largest number of further entries that fit, and the bytes they take. -/
theorem aggregateCount_spec (sepLen : Nat) :
    ∀ (es : List Buffer) (size : Nat), size ≤ maxLen →
      (aggregateCount maxLen sepLen es size).1 ≤ es.length ∧
      (aggregateCount maxLen sepLen es size).2 = size +
        ((es.take (aggregateCount maxLen sepLen es size).1).map
          fun e => (bufLen e).toNat + sepLen).sum ∧
      ∀ n ≤ es.length, size + ((es.take n).map fun e => (bufLen e).toNat + sepLen).sum ≤ maxLen ↔
        n ≤ (aggregateCount maxLen sepLen es size).1 := by
  intro es
  induction es with
  | nil =>
      intro size hsize
      refine ⟨le_rfl, by simp [aggregateCount], fun n hn => ?_⟩
      simp only [List.length_nil, Nat.le_zero] at hn
      subst hn
      simp [aggregateCount, hsize]
  | cons e more ih =>
      intro size hsize
      simp only [aggregateCount]
      split_ifs with hfit
      · -- the first entry does not fit: none is counted
        refine ⟨Nat.zero_le _, by simp, fun n _ => ?_⟩
        cases n with
        | zero => simp [hsize]
        | succ n =>
            simp only [List.take_succ_cons, List.map_cons, List.sum_cons]
            omega
      · obtain ⟨hle, hsum, hiff⟩ := ih (size + ((bufLen e).toNat + sepLen)) (by omega)
        refine ⟨by simp only [List.length_cons]; omega, ?_, fun n hn => ?_⟩
        · rw [hsum, List.take_succ_cons, List.map_cons, List.sum_cons]
          omega
        · cases n with
          | zero => simp [hsize]
          | succ n =>
              have := hiff n (by simp only [List.length_cons] at hn; omega)
              rw [List.take_succ_cons, List.map_cons, List.sum_cons]
              omega

theorem length_flatMap_append (es : List Buffer) :
    (es.flatMap fun e => e.content ++ sep).length =
      (es.map fun e => e.content.length + sep.length).sum := by
  induction es with
  | nil => rfl
  | cons e es ih =>
      rw [List.flatMap_cons, List.length_append, List.length_append, ih, List.map_cons,
        List.sum_cons, Nat.add_assoc]

/-- The merge loop, with room in `f` for every entry and separator: `f` gets their bytes in
order. -/
theorem aggregateMerge_spec (hsep : (sep.length : Int) < bufSizeMax) :
    ∀ (es : List Buffer) (f : Buffer), BufBounded f → (∀ e ∈ es, BufBounded e) →
      f.offset + f.len + ((es.map fun e => e.content.length + sep.length).sum : Nat) ≤
        f.capacity →
      ∃ f', aggregateMerge sep f es = some f' ∧ BufBounded f' ∧
        f'.content = f.content ++ es.flatMap (fun e => e.content ++ sep) ∧
        f'.capacity = f.capacity := by
  intro es
  induction es with
  | nil => intro f hf _ _; exact ⟨f, rfl, hf, by simp, rfl⟩
  | cons e es ih =>
      intro f hf hes hroom
      have he := hes e List.mem_cons_self
      have hlen := he.length_content_toNat
      simp only [List.map_cons, List.sum_cons, Nat.cast_add] at hroom
      -- the entry, then the separator, each fits in what is left of `f`
      have hroom₁ : f.offset + f.len + e.len ≤ f.capacity := by omega
      have hf₁ := hf.append_bounded (show f.offset + f.len + e.content.length ≤ f.capacity by omega)
      have hroom₂ : (f.append e.content).offset + (f.append e.content).len + sep.length ≤
          (f.append e.content).capacity := by
        simp only [Buffer.offset_append, Buffer.len_append, Buffer.capacity_append]
        omega
      have hf₂ := hf₁.append_bounded hroom₂
      obtain ⟨f', hmerge, hb', hc', hcap'⟩ := ih _ hf₂ (fun e' he' => hes e' (List.mem_cons_of_mem e he'))
        (by simp only [Buffer.offset_append, Buffer.len_append, Buffer.capacity_append]; omega)
      refine ⟨f', ?_, hb', ?_, ?_⟩
      · rw [aggregateMerge, hf.bufCopy_eq he hroom₁]
        simp only [Option.bind_eq_bind, Option.bind_some]
        rw [hf₁.bufWrite_eq_append hsep hroom₂]
        exact hmerge
      · rw [hc', hf₁.content_append hroom₂,
          hf.content_append (show f.offset + f.len + e.content.length ≤ f.capacity by omega)]
        simp
      · rw [hcap']
        rfl

theorem getLast?_drop_of_ne_nil {α : Type} {l : List α} {k : Nat} (h : l.drop k ≠ []) :
    (l.drop k).getLast? = l.getLast? := by
  conv_rhs => rw [← List.take_append_drop k l]
  rw [List.getLast?_append_of_ne_nil _ h]

/-- The bytes the first `n` entries take, each followed by the separator. -/
def aggregateSize (es : List Buffer) (n : Nat) : Nat :=
  ((es.take n).map fun e => e.content.length + sep.length).sum

variable {bl : BufferList}

/-- The count of a list with the invariant, where `BLEN` of an entry is the length of its
content. -/
theorem aggregateCount_entries (hinv : bl.Inv) :
    (aggregateCount maxLen sep.length bl.entries 0).1 ≤ bl.entries.length ∧
    (aggregateCount maxLen sep.length bl.entries 0).2 =
      aggregateSize sep bl.entries (aggregateCount maxLen sep.length bl.entries 0).1 ∧
    ∀ n ≤ bl.entries.length, aggregateSize sep bl.entries n ≤ maxLen ↔
      n ≤ (aggregateCount maxLen sep.length bl.entries 0).1 := by
  have hw : ∀ n, ((bl.entries.take n).map fun e => (bufLen e).toNat + sep.length) =
      (bl.entries.take n).map fun e => e.content.length + sep.length := by
    intro n
    apply List.map_congr_left
    intro e he
    have he' := hinv.bounded e (List.mem_of_mem_take he)
    rw [he'.bufLen_eq, he'.length_content]
  obtain ⟨hk, hsize, hiff⟩ := aggregateCount_spec maxLen sep.length bl.entries 0 (Nat.zero_le _)
  simp only [hw, Nat.zero_add] at hsize hiff
  exact ⟨hk, hsize, hiff⟩

theorem bufferListAggregateSeparator_eq (bl : BufferList) :
    bufferListAggregateSeparator bl maxLen sep =
      if (aggregateCount maxLen sep.length bl.entries 0).1 ≥ 2 then
        (allocBuf ((aggregateCount maxLen sep.length bl.entries 0).2 + 1)).bind fun f =>
          (aggregateMerge sep f (bl.entries.take (aggregateCount maxLen sep.length bl.entries 0).1)).bind
            fun f =>
              let more := bl.entries.drop (aggregateCount maxLen sep.length bl.entries 0).1
              some ⟨f :: more, if more = [] then some f else bl.tail,
                bl.size - (((aggregateCount maxLen sep.length bl.entries 0).1 : Int) - 1)⟩
      else some bl :=
  rfl

/-- Two entries or more that fit, merged into a buffer `alloc_buf` gives: one entry with their
bytes and separators, in front of the rest, and the invariant kept. -/
theorem bufferListAggregateSeparator_merged (hinv : bl.Inv)
    (h2 : 2 ≤ (aggregateCount maxLen sep.length bl.entries 0).1)
    (hfits : (aggregateSize sep bl.entries (aggregateCount maxLen sep.length bl.entries 0).1 + 1 :
      Int) < bufSizeMax) :
    ∃ bl' f, bufferListAggregateSeparator bl maxLen sep = some bl' ∧ bl'.Inv ∧
      bl'.entries = f :: bl.entries.drop (aggregateCount maxLen sep.length bl.entries 0).1 ∧
      f.content = (bl.entries.take (aggregateCount maxLen sep.length bl.entries 0).1).flatMap
        (fun e => e.content ++ sep) := by
  obtain ⟨hk, hsize, -⟩ := aggregateCount_entries maxLen sep hinv
  rw [bufferListAggregateSeparator_eq, if_pos h2, hsize]
  generalize (aggregateCount maxLen sep.length bl.entries 0).1 = k at hk h2 hfits ⊢
  have htake : ∀ e ∈ bl.entries.take k, BufBounded e := fun e he =>
    hinv.bounded e (List.mem_of_mem_take he)
  -- two entries or more each carry the separator, so it is shorter than the merged buffer
  have hsep : (sep.length : Int) < bufSizeMax := by
    obtain ⟨e, es, hes⟩ : ∃ e es, bl.entries.take k = e :: es :=
      List.exists_cons_of_ne_nil (by
        intro hnil
        have := congrArg List.length hnil
        rw [List.length_take, List.length_nil] at this
        omega)
    have : sep.length ≤ aggregateSize sep bl.entries k := by
      rw [aggregateSize, hes, List.map_cons, List.sum_cons]
      omega
    omega
  rw [allocBuf_of_lt hfits, Option.bind_some]
  obtain ⟨f, hmerge, hf, hcontent, -⟩ := aggregateMerge_spec sep hsep (bl.entries.take k) _
    (allocBuf_bounded (allocBuf_of_lt hfits)) htake
    (by simp only [aggregateSize] at hfits ⊢; omega)
  rw [hmerge, Option.bind_some]
  refine ⟨_, f, rfl, ⟨?_, ?_, ?_⟩, rfl, by rw [hcontent]; simp [Buffer.content]⟩
  · dsimp only
    rw [hinv.size_eq, List.length_cons, List.length_drop]
    omega
  · by_cases hmore : bl.entries.drop k = []
    · rw [if_pos hmore, hmore]
      rfl
    · rw [if_neg hmore, hinv.tail_eq, getLast?_cons_of_ne_nil f hmore, getLast?_drop_of_ne_nil hmore]
  · intro e he
    rcases List.mem_cons.mp he with rfl | he
    · exact hf
    · exact hinv.bounded e (List.mem_of_mem_drop he)

theorem buffer_list_aggregate_separator_merges (hinv : bl.Inv) :
    ∃ k ≤ bl.entries.length,
      (∀ n ≤ bl.entries.length, aggregateSize sep bl.entries n ≤ maxLen ↔ n ≤ k) ∧
      (k < 2 → bufferListAggregateSeparator bl maxLen sep = some bl) ∧
      (2 ≤ k → (aggregateSize sep bl.entries k + 1 : Int) < bufSizeMax →
        ∃ bl' f, bufferListAggregateSeparator bl maxLen sep = some bl' ∧ bl'.Inv ∧
          bl'.entries = f :: bl.entries.drop k ∧
          f.content = (bl.entries.take k).flatMap (fun e => e.content ++ sep) ∧
          f.content.length ≤ maxLen) ∧
      (2 ≤ k → bufSizeMax ≤ (aggregateSize sep bl.entries k + 1 : Int) →
        bufferListAggregateSeparator bl maxLen sep = none) := by
  obtain ⟨hk, hsize, hiff⟩ := aggregateCount_entries maxLen sep hinv
  refine ⟨_, hk, hiff, fun h2 => ?_, fun h2 hfits => ?_, fun h2 hbig => ?_⟩
  · rw [bufferListAggregateSeparator_eq, if_neg (by omega)]
  · obtain ⟨bl', f, hagg, hinv', hentries, hcontent⟩ :=
      bufferListAggregateSeparator_merged maxLen sep hinv h2 hfits
    refine ⟨bl', f, hagg, hinv', hentries, hcontent, ?_⟩
    -- the merged bytes are the bytes the count found room for
    rw [hcontent, length_flatMap_append]
    exact (hiff _ hk).mpr le_rfl
  · rw [bufferListAggregateSeparator_eq, if_pos h2, hsize, allocBuf_of_le (by exact_mod_cast hbig),
      Option.bind_none]

/-- With a separator `,` and `max_len` `4`, the entries `1`, `2`, `3` merge as `1,2,` in front
of `3`. -/
theorem buffer_list_aggregate_separator_merges_first_two :
    BufferList.Inv ⟨[Buffer.ofBytes [1], Buffer.ofBytes [2], Buffer.ofBytes [3]],
      some (Buffer.ofBytes [3]), 3⟩ ∧
    ∃ bl' f, bufferListAggregateSeparator ⟨[Buffer.ofBytes [1], Buffer.ofBytes [2],
        Buffer.ofBytes [3]], some (Buffer.ofBytes [3]), 3⟩ 4 [44] = some bl' ∧
      bl'.entries = [f, Buffer.ofBytes [3]] ∧ f.content = [1, 44, 2, 44] := by
  have hinv : BufferList.Inv ⟨[Buffer.ofBytes [1], Buffer.ofBytes [2], Buffer.ofBytes [3]],
      some (Buffer.ofBytes [3]), 3⟩ :=
    ⟨rfl, rfl, fun e he => by
      simp only [List.mem_cons, List.mem_nil_iff, or_false] at he
      rcases he with rfl | rfl | rfl <;> exact bufBounded_ofBytes (by decide)⟩
  obtain ⟨k, -, hiff, -, hmerge, -⟩ := buffer_list_aggregate_separator_merges 4 [44] hinv
  -- two entries with their separators take the four bytes, three would take six
  have h2 : k = 2 := by
    have h₂ := (hiff 2 (by decide)).mp (by decide)
    have h₃ : ¬3 ≤ k := fun h => absurd ((hiff 3 le_rfl).mpr h) (by decide)
    omega
  subst h2
  obtain ⟨bl', f, hagg, -, hentries, hcontent, -⟩ := hmerge le_rfl (by decide)
  exact ⟨hinv, bl', f, hagg, hentries, by rw [hcontent]; decide⟩

/-- `max_len` of `1000000` has room for two entries of `500000` bytes, but the merged buffer needs
`alloc_buf(1000001)`, past `BUF_SIZE_MAX`: `buf_size_error` ends the process. -/
theorem buffer_list_aggregate_separator_past_buf_size_max :
    aggregateSize [] [Buffer.ofBytes (List.replicate 500000 0),
      Buffer.ofBytes (List.replicate 500000 0)] 2 ≤ 1000000 ∧
    bufferListAggregateSeparator ⟨[Buffer.ofBytes (List.replicate 500000 0),
      Buffer.ofBytes (List.replicate 500000 0)], some (Buffer.ofBytes (List.replicate 500000 0)), 2⟩
      1000000 [] = none := by
  -- the entries' bytes matter only through their length
  generalize hr : List.replicate 500000 (0 : UInt8) = r
  have hlen : r.length = 500000 := by rw [← hr, List.length_replicate]
  have hsize : aggregateSize [] [Buffer.ofBytes r, Buffer.ofBytes r] 2 = 1000000 := by
    norm_num [aggregateSize, hlen]
  have hb : BufBounded (Buffer.ofBytes r) := bufBounded_ofBytes (by rw [hlen]; norm_num [bufSizeMax])
  have hinv : BufferList.Inv ⟨[Buffer.ofBytes r, Buffer.ofBytes r], some (Buffer.ofBytes r), 2⟩ :=
    ⟨rfl, rfl, fun e he => by
      simp only [List.mem_cons, List.mem_nil_iff, or_false] at he
      rcases he with rfl | rfl <;> exact hb⟩
  obtain ⟨hk, hcount, hiff⟩ := aggregateCount_entries 1000000 [] hinv
  -- both entries fit, so the count is two
  have h2 : (aggregateCount 1000000 ([] : List UInt8).length
      [Buffer.ofBytes r, Buffer.ofBytes r] 0).1 = 2 :=
    le_antisymm hk ((hiff 2 le_rfl).mp hsize.le)
  refine ⟨hsize.le, ?_⟩
  rw [bufferListAggregateSeparator_eq, if_pos (by rw [h2]), hcount, h2, hsize,
    allocBuf_of_le (by norm_num [bufSizeMax]), Option.bind_none]

theorem bufferListAggregateSeparator_inv (hinv : bl.Inv) {bl' : BufferList}
    (h : bufferListAggregateSeparator bl maxLen sep = some bl') : bl'.Inv := by
  obtain ⟨-, hcount, -⟩ := aggregateCount_entries maxLen sep hinv
  by_cases h2 : 2 ≤ (aggregateCount maxLen sep.length bl.entries 0).1
  · by_cases hfits : (aggregateSize sep bl.entries (aggregateCount maxLen sep.length bl.entries 0).1 + 1 :
        Int) < bufSizeMax
    · obtain ⟨bl'', f, hagg, hinv'', -⟩ := bufferListAggregateSeparator_merged maxLen sep hinv h2 hfits
      rw [hagg] at h
      cases h
      exact hinv''
    · rw [bufferListAggregateSeparator_eq, if_pos h2, hcount,
        allocBuf_of_le (by push_cast at hfits ⊢; omega), Option.bind_none] at h
      cases h
  · rw [bufferListAggregateSeparator_eq, if_neg h2] at h
    cases h
    exact hinv

end Aggregate

/-! ### Runs of the list functions -/

section Run

variable {ol : BufferList}

theorem bufferListNew_inv : bufferListNew.Inv := ⟨rfl, rfl, fun _ he => by cases he⟩

/-- Under the invariant neither `ASSERT` of `buffer_list_push_data` fires: the data becomes the
last entry, and only data too long for `alloc_buf` ends the process. -/
theorem bufferListPushData_eq (hinv : ol.Inv) (data : List UInt8) :
    bufferListPushData ol data =
      if (data.length : Int) < bufSizeMax then
        some ⟨ol.entries ++ [Buffer.ofBytes data], some (Buffer.ofBytes data), ol.size + 1⟩
      else none := by
  have hassert : ol.tail.isSome = !ol.entries.isEmpty := by
    rw [hinv.tail_eq]
    cases ol.entries with
    | nil => rfl
    | cons e es => simp
  rw [bufferListPushData, if_pos hassert]
  split_ifs with hlen
  · rw [allocBuf_of_lt hlen]
    rfl
  · rw [allocBuf_of_le (not_lt.mp hlen)]
    rfl

theorem BufferList.Inv.append (hinv : ol.Inv) {e : Buffer} (he : BufBounded e) :
    BufferList.Inv ⟨ol.entries ++ [e], some e, ol.size + 1⟩ where
  size_eq := by rw [hinv.size_eq, List.length_append, List.length_singleton]; push_cast; rfl
  tail_eq := by rw [List.getLast?_append_of_ne_nil _ (List.cons_ne_nil e [])]; rfl
  bounded e' he' := by
    rcases List.mem_append.mp he' with he' | he'
    · exact hinv.bounded e' he'
    · rw [List.mem_singleton.mp he']
      exact he

theorem bufferListPushData_inv (hinv : ol.Inv) {data : List UInt8} {ol' : BufferList}
    (h : bufferListPushData ol data = some ol') : ol'.Inv := by
  rw [bufferListPushData_eq hinv] at h
  split_ifs at h with hlen
  cases h
  exact hinv.append (bufBounded_ofBytes hlen)

theorem bufferListPush_inv (hinv : ol.Inv) {str : List UInt8} {ol' : BufferList}
    (h : bufferListPush ol str = some ol') : ol'.Inv := by
  rw [bufferListPush, bufferListPushData_eq hinv] at h
  split_ifs at h with hlen
  · cases h
    -- the entry pushed last is the string with its `NUL` outside the content
    have he : BufBounded { Buffer.ofBytes (str ++ [0]) with len := str.length } :=
      (bufBounded_ofBytes hlen).window le_rfl (by omega)
        (by simp only [Buffer.ofBytes, List.length_append, List.length_singleton]; push_cast; omega)
    dsimp only
    rw [List.dropLast_concat]
    exact hinv.append he
  · cases h

theorem bufferListPop_inv (hinv : ol.Inv) : (bufferListPop ol).Inv := by
  unfold bufferListPop
  split
  · exact hinv
  · rename_i e rest hentries
    refine ⟨?_, ?_, fun e' he' => hinv.bounded e' (by rw [hentries]; exact List.mem_cons_of_mem e he')⟩
    · rw [hinv.size_eq, hentries, List.length_cons]
      push_cast
      ring
    · by_cases hrest : rest = []
      · rw [if_pos hrest, hrest]
        rfl
      · rw [if_neg hrest, hinv.tail_eq, hentries, getLast?_cons_of_ne_nil e hrest]

/-- A call of one of the list functions. -/
inductive BufferListOp where
  | pushData (data : List UInt8)
  | push (str : List UInt8)
  | pop
  | aggregateSeparator (maxLen : Nat) (sep : List UInt8)
  | reset

/-- One call on the list; `none` where the process ends. -/
def bufferListStep (ol : BufferList) : BufferListOp → Option BufferList
  | .pushData data => bufferListPushData ol data
  | .push str => bufferListPush ol str
  | .pop => some (bufferListPop ol)
  | .aggregateSeparator maxLen sep => bufferListAggregateSeparator ol maxLen sep
  | .reset => some (bufferListReset ol)

/-- The calls in order, from the list `ol`. -/
def bufferListRun (ol : BufferList) : List BufferListOp → Option BufferList
  | [] => some ol
  | op :: ops => (bufferListStep ol op).bind fun ol => bufferListRun ol ops

theorem bufferListStep_inv (hinv : ol.Inv) {op : BufferListOp} {ol' : BufferList}
    (h : bufferListStep ol op = some ol') : ol'.Inv := by
  cases op with
  | pushData data => exact bufferListPushData_inv hinv h
  | push str => exact bufferListPush_inv hinv h
  | pop => cases h; exact bufferListPop_inv hinv
  | aggregateSeparator maxLen sep => exact bufferListAggregateSeparator_inv maxLen sep hinv h
  | reset => cases h; exact bufferListNew_inv

/-- Every list the list functions build from `buffer_list_new`, in any order of calls that does
not end the process, keeps the invariant. -/
theorem buffer_list_run_keeps_invariant :
    ∀ (ops : List BufferListOp) (ol : BufferList) {ol' : BufferList}, ol.Inv →
      bufferListRun ol ops = some ol' → ol'.Inv := by
  intro ops
  induction ops with
  | nil => intro ol ol' hinv h; cases h; exact hinv
  | cons op ops ih =>
      intro ol ol' hinv h
      simp only [bufferListRun] at h
      obtain ⟨ol₁, h₁, h₂⟩ := Option.bind_eq_some_iff.mp h
      exact ih ol₁ (bufferListStep_inv hinv h₁) h₂

/-- A string pushed, one byte of data pushed, and the string popped. -/
theorem buffer_list_run_keeps_invariant_push_pop :
    bufferListRun bufferListNew [.push [104, 105], .pushData [1], .pop] =
        some ⟨[Buffer.ofBytes [1]], some (Buffer.ofBytes [1]), 1⟩ ∧
      BufferList.Inv ⟨[Buffer.ofBytes [1]], some (Buffer.ofBytes [1]), 1⟩ := by
  have hrun : bufferListRun bufferListNew [.push [104, 105], .pushData [1], .pop] =
      some ⟨[Buffer.ofBytes [1]], some (Buffer.ofBytes [1]), 1⟩ := rfl
  exact ⟨hrun, buffer_list_run_keeps_invariant _ _ bufferListNew_inv hrun⟩

end Run

end OpenVpn
