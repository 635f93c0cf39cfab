import OpenVpn.Mbuf
import OpenVpn.HashRun
import OpenVpn.BufferSpec

/-! What the functions of `mbuf.c` do to the queue an `mbuf_set` holds. Under the shape
`mbuf_init` leaves (`MbufSet.Wf`: a capacity that is a power of two, `0`, or small enough for
`ALLOC_ARRAY`), `MBUF_INDEX` is the ring index, and the queue is the ring's window
(`MbufSet.queue`). `mbuf_extract_item` skips the `NULL` items at the front and returns the first
item with an instance (`MbufSet.Extracts`), `mbuf_add_item` appends after making room, and
`mbuf_dereference_instance` turns the items of an instance into `NULL` items and releases their
buffers in queue order. -/

namespace OpenVpn

variable {I : Type}

/-- The shape of a set that `mbuf_init` returns and the functions keep: the capacity is a power
of two that `ALLOC_ARRAY` could allocate, or `0` when `adjust_power_of_2` passed the 32 bits of an
`unsigned int`; the head is a slot and the queue fits. -/
structure MbufSet.Wf (ms : MbufSet I) : Prop where
  pow : ms.capacity.toNat = 0 ∨ ∃ k, ms.capacity.toNat = 2 ^ k
  capacity_le : ms.capacity.toNat ≤ 2 ^ 27
  length_array : ms.array.length = ms.capacity.toNat
  head_lt : 0 < ms.capacity.toNat → ms.head.toNat < ms.capacity.toNat
  len_le : ms.len.toNat ≤ ms.capacity.toNat

/-- The queued items, oldest first: `len` slots of the ring from `head` on. -/
def MbufSet.queue (ms : MbufSet I) : List (MbufItem I) :=
  RingQueue.view ms.array MbufItem.null ms.head.toNat ms.capacity.toNat ms.len.toNat

/-- The queued items that still have an instance. -/
def mbufLive (q : List (MbufItem I)) : List (MbufItem I) := q.filter fun x => x.inst.isSome

/-- What `mbuf_dereference_instance(ms, mi)` leaves of an item. -/
def MbufItem.dereferenced [DecidableEq I] (mi : I) (x : MbufItem I) : MbufItem I :=
  if x.inst = some mi then MbufItem.null else x

/-- `mbuf_free_buf` of each buffer in turn. -/
def mbufFreeBufs (heap : MbufHeap) : List (Option Nat) → Option MbufHeap
  | [] => some heap
  | b :: bs => (mbufFreeBuf heap b).bind fun heap => mbufFreeBufs heap bs

@[simp] theorem length_queue (ms : MbufSet I) : ms.queue.length = ms.len.toNat := by
  simp [MbufSet.queue]

theorem mbufLive_append (p q : List (MbufItem I)) :
    mbufLive (p ++ q) = mbufLive p ++ mbufLive q := List.filter_append _ _

theorem mbufLive_eq_nil {q : List (MbufItem I)} (h : ∀ x ∈ q, x.inst = none) : mbufLive q = [] := by
  simp only [mbufLive, List.filter_eq_nil_iff]
  intro x hx
  simp [h x hx]

/-! ### The ring -/

section Ring

variable {ms : MbufSet I}

/-- `MBUF_INDEX` is the ring index: the sum does not wrap, and the mask of a power of two is the
remainder. -/
theorem toNat_mbufIndex (hw : ms.Wf) (hcap : 0 < ms.capacity.toNat) (offset : UInt32)
    (hoff : offset.toNat ≤ ms.capacity.toNat) :
    (mbufIndex ms.head offset ms.capacity).toNat =
      RingQueue.index ms.head.toNat offset.toNat ms.capacity.toNat := by
  obtain ⟨k, hk⟩ := hw.pow.resolve_left (by omega)
  have hhead := hw.head_lt hcap
  have hle := hw.capacity_le
  have hmask : (ms.capacity - 1).toNat = 2 ^ k - 1 := by
    rw [UInt32.toNat_sub_of_le _ _ (UInt32.le_iff_toNat_le.mpr (by simp; omega)), hk]
    rfl
  have hsum : (ms.head + offset).toNat = ms.head.toNat + offset.toNat := by
    rw [UInt32.toNat_add]
    exact Nat.mod_eq_of_lt (by omega)
  rw [mbufIndex, UInt32.toNat_and, hmask, hsum, Nat.and_two_pow_sub_one_eq_mod, RingQueue.index, hk]

theorem toNat_ofNat_offset (hw : ms.Wf) {i : Nat} (hi : i ≤ ms.capacity.toNat) :
    (UInt32.ofNat i).toNat = i :=
  UInt32.toNat_ofNat_of_lt' (Nat.lt_of_le_of_lt hi (lt_of_le_of_lt hw.capacity_le (by decide)))

theorem queue_of_len_zero (h : ms.len = 0) : ms.queue = [] := by
  simp [MbufSet.queue, h]

/-- Taking the head item: the queue loses its first item. -/
theorem queue_pop (hw : ms.Wf) (hlen : ms.len ≠ 0) :
    ms.queue = ms.array.getD ms.head.toNat MbufItem.null ::
      ({ ms with head := mbufIndex ms.head 1 ms.capacity, len := ms.len - 1 } : MbufSet I).queue ∧
    ({ ms with head := mbufIndex ms.head 1 ms.capacity, len := ms.len - 1 } : MbufSet I).Wf := by
  have hlen' : 0 < ms.len.toNat :=
    Nat.pos_of_ne_zero fun h => hlen (UInt32.toNat_inj.mp (h.trans UInt32.toNat_zero.symm))
  have hcap : 0 < ms.capacity.toNat := lt_of_lt_of_le hlen' hw.len_le
  have hhead := hw.head_lt hcap
  have hidx := toNat_mbufIndex hw hcap 1 (by simp; omega)
  have hsub : (ms.len - 1).toNat = ms.len.toNat - 1 := by
    rw [UInt32.toNat_sub_of_le _ _ (UInt32.le_iff_toNat_le.mpr (by simp; omega))]
    rfl
  constructor
  · simp only [MbufSet.queue, hidx, hsub, UInt32.toNat_one]
    rw [show ms.len.toNat = ms.len.toNat - 1 + 1 by omega, RingQueue.view_pop,
      RingQueue.index, Nat.add_zero, Nat.mod_eq_of_lt hhead]
    rfl
  · refine ⟨hw.pow, hw.capacity_le, hw.length_array, fun _ => ?_, ?_⟩
    · simp only [hidx]
      exact RingQueue.index_lt hcap _
    · simp only [hsub]
      have := hw.len_le
      omega

/-- The store of `mbuf_add_item` appends the item. -/
theorem mbufStore_queue (hw : ms.Wf) (hlt : ms.len < ms.capacity) (item : MbufItem I) :
    (mbufStore ms item).queue = ms.queue ++ [item] ∧ (mbufStore ms item).Wf := by
  rw [UInt32.lt_iff_toNat_lt] at hlt
  have hcap : 0 < ms.capacity.toNat := by omega
  have hidx := toNat_mbufIndex hw hcap ms.len hlt.le
  have hsucc : (ms.len + 1).toNat = ms.len.toNat + 1 := by
    rw [UInt32.toNat_add, UInt32.toNat_one]
    exact Nat.mod_eq_of_lt (by have := hw.capacity_le; omega)
  constructor
  · simp only [mbufStore, MbufSet.queue, hidx, hsucc]
    exact RingQueue.view_push item hw.length_array hlt
  · refine ⟨hw.pow, hw.capacity_le, ?_, hw.head_lt, ?_⟩
    · simp only [mbufStore, List.length_set]
      exact hw.length_array
    · simp only [mbufStore, hsucc]
      omega

end Ring

/-! ### `mbuf_init` -/

/-- What `ALLOC_ARRAY` lets through: a size within the 32-bit limit of `array_mult_safe`. -/
theorem arrayMultSafe_le {m1 m2 extra r : Nat} (h : arrayMultSafe m1 m2 extra = some r) :
    m1 * m2 + extra ≤ 0xFFFFFFFF := by
  dsimp only [arrayMultSafe] at h
  split at h
  · cases h
  · omega

/-- `mbuf_init` returns an empty queue of the shape the other functions keep. -/
theorem mbufInit_spec {size : UInt32} {ms : MbufSet I} (h : mbufInit size = some ms) :
    ms.Wf ∧ ms.queue = [] := by
  simp only [mbufInit, Option.bind_eq_bind, Option.bind_eq_some_iff, Option.pure_def,
    Option.some.injEq] at h
  obtain ⟨r, hr, c, hc, rfl⟩ := h
  obtain ⟨⟨m, rfl⟩, -⟩ := adjustPowerOf2Loop_spec _ 64 1 r hr ⟨0, rfl⟩ (Or.inl rfl)
  have hsafe := arrayMultSafe_le hc
  simp only [sizeofMbufItem, Nat.add_zero] at hsafe
  -- the capacity is `2 ^ m` below the 32 bits of an `unsigned int`, and `0` from there on
  have hpow : (UInt32.ofNat (2 ^ m)).toNat = 0 ∨
      ((UInt32.ofNat (2 ^ m)).toNat = 2 ^ m ∧ m < 28) := by
    rw [UInt32.toNat_ofNat']
    by_cases hm : m < 32
    · right
      rw [Nat.mod_eq_of_lt (Nat.pow_lt_pow_right (by decide) hm)]
      refine ⟨rfl, ?_⟩
      rw [UInt32.toNat_ofNat', Nat.mod_eq_of_lt (Nat.pow_lt_pow_right (by decide) hm)] at hsafe
      by_contra h28
      have := Nat.pow_le_pow_right (n := 2) (by decide) (Nat.le_of_not_lt h28)
      omega
    · left
      exact Nat.mod_eq_zero_of_dvd (Nat.pow_dvd_pow 2 (by omega))
  refine ⟨⟨?_, ?_, by simp, fun _ => ?_, by simp⟩, by simp [MbufSet.queue]⟩
  · rcases hpow with h0 | ⟨hm, -⟩
    · exact Or.inl h0
    · exact Or.inr ⟨m, hm⟩
  · rcases hpow with h0 | ⟨hm, h28⟩
    · simp only [h0, Nat.zero_le]
    · rw [hm]
      exact Nat.pow_le_pow_right (by decide) (by omega)
  · simp only [UInt32.toNat_zero]
    omega

/-! ### `mbuf_extract_item` -/

/-- What `mbuf_extract_item` does, from `ms` to `ms'` returning `r`: the queue loses the `NULL`
items at its front and then `r`, the first item with an instance; when there is none the queue is
left empty. The array, the capacity and `max_queued` stay. -/
structure MbufSet.Extracts (ms ms' : MbufSet I) (r : Option (MbufItem I)) : Prop where
  wf : ms'.Wf
  array_eq : ms'.array = ms.array
  capacity_eq : ms'.capacity = ms.capacity
  maxQueued_eq : ms'.maxQueued = ms.maxQueued
  split : ∃ skipped, (∀ x ∈ skipped, x.inst = none) ∧ ms.queue = skipped ++ r.toList ++ ms'.queue
  live : ∀ x ∈ r, x.inst.isSome
  empty : r = none → ms'.queue = []

theorem MbufSet.Extracts.skip {ms ms₁ ms' : MbufSet I} {r : Option (MbufItem I)} {x : MbufItem I}
    (hq : ms.queue = x :: ms₁.queue) (hx : x.inst = none) (hsame : ms₁.array = ms.array ∧
      ms₁.capacity = ms.capacity ∧ ms₁.maxQueued = ms.maxQueued) (h : ms₁.Extracts ms' r) :
    ms.Extracts ms' r := by
  obtain ⟨skipped, hnull, hsplit⟩ := h.split
  refine ⟨h.wf, h.array_eq.trans hsame.1, h.capacity_eq.trans hsame.2.1,
    h.maxQueued_eq.trans hsame.2.2, ⟨x :: skipped, ?_, ?_⟩, h.live, h.empty⟩
  · intro y hy
    rcases List.mem_cons.mp hy with rfl | hy
    · exact hx
    · exact hnull y hy
  · rw [hq, hsplit]
    rfl

/-- The loop of `mbuf_extract_item`, given fuel for every queued item. -/
theorem mbufExtractLoop_extracts :
    ∀ (fuel : Nat) (ms : MbufSet I), ms.Wf → ms.len.toNat ≤ fuel →
      ms.Extracts (mbufExtractLoop ms fuel).1 (mbufExtractLoop ms fuel).2
  | 0, ms, hw, hf => by
      have hq : ms.queue = [] := List.eq_nil_of_length_eq_zero (by simp; omega)
      show ms.Extracts ms none
      exact ⟨hw, rfl, rfl, rfl, ⟨[], by simp, by simp [hq]⟩, (by simp), fun _ => hq⟩
  | fuel + 1, ms, hw, hf => by
      by_cases hlen : ms.len = 0
      · have hq := queue_of_len_zero hlen
        simp only [mbufExtractLoop, if_pos hlen]
        exact ⟨hw, rfl, rfl, rfl, ⟨[], by simp, by simp [hq]⟩, (by simp), fun _ => hq⟩
      obtain ⟨hq, hw₁⟩ := queue_pop hw hlen
      simp only [mbufExtractLoop, if_neg hlen]
      split_ifs with hlive
      · exact ⟨hw₁, rfl, rfl, rfl, ⟨[], by simp, by simpa using hq⟩, (by simpa using hlive),
          (by simp)⟩
      · have hlen' : (ms.len - 1).toNat ≤ fuel := by
          have := congrArg List.length hq
          simp only [length_queue, List.length_cons] at this
          omega
        exact MbufSet.Extracts.skip hq (by simpa using hlive) ⟨rfl, rfl, rfl⟩
          (mbufExtractLoop_extracts fuel _ hw₁ hlen')

theorem mbufExtractItem_extracts {ms : MbufSet I} (hw : ms.Wf) :
    ms.Extracts (mbufExtractItem ms).1 (mbufExtractItem ms).2 :=
  mbufExtractLoop_extracts _ ms hw le_rfl

/-- Extracting takes the first live item off the live queue. -/
theorem MbufSet.Extracts.live_queue {ms ms' : MbufSet I} {r : Option (MbufItem I)}
    (h : ms.Extracts ms' r) : mbufLive ms.queue = r.toList ++ mbufLive ms'.queue := by
  obtain ⟨skipped, hnull, hsplit⟩ := h.split
  rw [hsplit, mbufLive_append, mbufLive_append, mbufLive_eq_nil hnull, List.nil_append]
  cases r with
  | none => rfl
  | some x => simp [mbufLive, h.live x rfl]

/-- `mbuf_extract_item` returns the first queued item with an instance. -/
theorem MbufSet.Extracts.eq_head {ms ms' : MbufSet I} {r : Option (MbufItem I)}
    (h : ms.Extracts ms' r) : r = (mbufLive ms.queue).head? := by
  rw [h.live_queue]
  cases r with
  | none => simp [h.empty rfl, mbufLive]
  | some x => rfl

/-! ### `mbuf_add_item` -/

section Add

variable {ms ms₁ : MbufSet I} {heap : MbufHeap} {item rm : MbufItem I}

/-- An extract from a queue that returns an item leaves room for one more. -/
theorem MbufSet.Extracts.len_lt (h : ms.Extracts ms₁ (some rm)) (hw : ms.Wf) :
    ms₁.len < ms₁.capacity := by
  obtain ⟨skipped, -, hsplit⟩ := h.split
  have hlen := congrArg List.length hsplit
  simp only [length_queue, List.length_append, Option.toList_some, List.length_singleton] at hlen
  rw [UInt32.lt_iff_toNat_lt, h.capacity_eq]
  have := hw.len_le
  omega

/-- `mbuf_add_item` on a queue with room: the item is stored and takes a reference. -/
theorem mbufAddItem_of_lt (hlt : ms.len < ms.capacity) :
    mbufAddItem ms heap item = (mbufIncRef heap item.buffer).map fun heap => (mbufStore ms item, heap) := by
  have hne : ms.len ≠ ms.capacity := fun h => absurd (h ▸ hlt) (UInt32.lt_irrefl _)
  simp only [mbufAddItem, mbufMakeRoom, if_neg hne, Option.bind_eq_bind, Option.bind_some,
    if_neg (not_not.mpr hlt)]

/-- A full queue whose items are all dereferenced makes `mbuf_add_item` fail its
`ASSERT(mbuf_extract_item(ms, &rm))`. -/
theorem mbufAddItem_of_full_null (hw : ms.Wf) (hfull : ms.len = ms.capacity)
    (hnull : mbufLive ms.queue = []) : mbufAddItem ms heap item = none := by
  have hex := mbufExtractItem_extracts hw
  have hr : (mbufExtractItem ms).2 = none := by rw [hex.eq_head, hnull]; rfl
  simp only [mbufAddItem, mbufMakeRoom, if_pos hfull]
  rcases hx : mbufExtractItem ms with ⟨ms₁, r⟩
  rw [hx] at hr
  subst hr
  rfl

end Add

/-! ### `mbuf_dereference_instance` and `mbuf_peek` -/

section Dereference

variable {ms : MbufSet I}

/-- The offsets `mbuf_dereference_instance` and `mbuf_peek_dowork` visit are those of the
queue: `(int) ms->len` is `len`. -/
theorem mbufOffsets_eq (hw : ms.Wf) : mbufOffsets ms = List.range ms.len.toNat := by
  have hle := hw.len_le
  have hcap := hw.capacity_le
  rw [mbufOffsets, toCInt_of_le (by omega) (by omega), Int.toNat_natCast]

/-- The item at offset `s` of the queue is the one `MBUF_INDEX(head, s, capacity)` names. -/
theorem getD_mbufIndex (hw : ms.Wf) {s : Nat} (hs : s < ms.len.toNat) :
    ms.array.getD (mbufIndex ms.head (UInt32.ofNat s) ms.capacity).toNat MbufItem.null =
      ms.queue.getD s MbufItem.null := by
  have hle := hw.len_le
  have hcap : 0 < ms.capacity.toNat := by omega
  have hoff := toNat_ofNat_offset hw (i := s) (by omega)
  rw [toNat_mbufIndex hw hcap _ (by omega), hoff]
  simp only [MbufSet.queue]
  rw [RingQueue.getD_view hs]

/-- Writing the slot of the item at offset `s` replaces that item. -/
theorem queue_set (hw : ms.Wf) {s : Nat} (hs : s < ms.len.toNat) (x : MbufItem I) :
    ({ ms with array := ms.array.set (mbufIndex ms.head (UInt32.ofNat s) ms.capacity).toNat x } :
        MbufSet I).queue = ms.queue.set s x ∧
      ({ ms with array := ms.array.set (mbufIndex ms.head (UInt32.ofNat s) ms.capacity).toNat x } :
        MbufSet I).Wf := by
  have hle := hw.len_le
  have hcap : 0 < ms.capacity.toNat := by omega
  have hoff := toNat_ofNat_offset hw (i := s) (by omega)
  rw [toNat_mbufIndex hw hcap _ (by omega), hoff]
  refine ⟨RingQueue.view_set x hw.length_array hle hs, hw.pow, hw.capacity_le, ?_, hw.head_lt,
    hw.len_le⟩
  simp only [List.length_set]
  exact hw.length_array

variable [DecidableEq I] (mi : I)

/-- The loop of `mbuf_dereference_instance` from offset `s` on: the items from `s` on that are
for `mi` release their buffers in order and become `NULL` items. -/
theorem mbufDereferenceLoop_spec :
    ∀ (k s : Nat) (ms : MbufSet I) (heap : MbufHeap), ms.Wf → s + k = ms.len.toNat →
      (mbufDereferenceLoop mi ms heap (List.range' s k)).map Prod.snd =
          mbufFreeBufs heap (((ms.queue.drop s).filter fun x => x.inst = some mi).map (·.buffer)) ∧
        ∀ r ∈ mbufDereferenceLoop mi ms heap (List.range' s k), r.1.Wf ∧ r.1.head = ms.head ∧
          r.1.len = ms.len ∧ r.1.capacity = ms.capacity ∧ r.1.maxQueued = ms.maxQueued ∧
          r.1.queue = ms.queue.take s ++ (ms.queue.drop s).map (MbufItem.dereferenced mi)
  | 0, s, ms, heap, hw, hs => by
      have hdrop : ms.queue.drop s = [] := List.drop_eq_nil_of_le (by simp; omega)
      refine ⟨by simp [mbufDereferenceLoop, hdrop, mbufFreeBufs], ?_⟩
      intro r hr
      simp only [List.range'_zero, mbufDereferenceLoop, Option.mem_def, Option.some.injEq] at hr
      subst hr
      refine ⟨hw, rfl, rfl, rfl, rfl, ?_⟩
      rw [hdrop, List.map_nil, List.append_nil, List.take_of_length_le (by simp; omega)]
  | k + 1, s, ms, heap, hw, hs => by
      have hslt : s < ms.len.toNat := by omega
      have hget := getD_mbufIndex hw hslt
      have hsq : s < ms.queue.length := by simp [hslt]
      have hdrop : ms.queue.drop s = ms.queue.getD s MbufItem.null :: ms.queue.drop (s + 1) := by
        rw [List.getD_eq_getElem _ _ hsq]
        exact List.drop_eq_getElem_cons hsq
      have htake : ms.queue.take (s + 1) = ms.queue.take s ++ [ms.queue.getD s MbufItem.null] := by
        rw [List.take_add_one, List.getD_eq_getElem?_getD, List.getElem?_eq_getElem hsq,
          Option.toList_some, Option.getD_some]
      rw [List.range'_succ]
      simp only [mbufDereferenceLoop]
      rw [hget]
      by_cases hmi : (ms.queue.getD s MbufItem.null).inst = some mi
      · rw [if_pos hmi]
        obtain ⟨hq₁, hw₁⟩ := queue_set hw hslt MbufItem.null
        have hdrop₁ : (ms.queue.set s MbufItem.null).drop (s + 1) = ms.queue.drop (s + 1) :=
          List.drop_set_of_lt (by omega)
        have htake₁ : (ms.queue.set s MbufItem.null).take (s + 1) =
            ms.queue.take s ++ [MbufItem.null] := by
          rw [List.take_add_one, List.take_set_of_le (le_refl s),
            List.getElem?_set_self (by simp [hslt]), Option.toList_some]
        have hfilter : (ms.queue.drop s).filter (fun x => x.inst = some mi) =
            ms.queue.getD s MbufItem.null ::
              (ms.queue.drop (s + 1)).filter (fun x => x.inst = some mi) := by
          rw [hdrop, List.filter_cons_of_pos (by simpa using hmi)]
        rcases hfree : mbufFreeBuf heap (ms.queue.getD s MbufItem.null).buffer with _ | heap₁
        · refine ⟨?_, fun r hr => ?_⟩
          · rw [hfilter, List.map_cons, mbufFreeBufs, hfree]
            rfl
          · simp at hr
        obtain ⟨ih₁, ih₂⟩ := mbufDereferenceLoop_spec k (s + 1) _ heap₁ hw₁ (by simp only; omega)
        simp only [Option.bind_eq_bind, Option.bind_some]
        refine ⟨?_, fun r hr => ?_⟩
        · rw [ih₁, hq₁, hdrop₁, hfilter, List.map_cons, mbufFreeBufs, hfree, Option.bind_some]
        · obtain ⟨h₁, h₂, h₃, h₄, h₅, h₆⟩ := ih₂ r hr
          refine ⟨h₁, h₂, h₃, h₄, h₅, ?_⟩
          rw [h₆, hq₁, htake₁, hdrop₁, hdrop, List.map_cons, MbufItem.dereferenced, if_pos hmi,
            List.append_assoc]
          rfl
      · rw [if_neg hmi]
        obtain ⟨ih₁, ih₂⟩ := mbufDereferenceLoop_spec k (s + 1) ms heap hw (by omega)
        refine ⟨?_, fun r hr => ?_⟩
        · rw [ih₁, hdrop, List.filter_cons_of_neg (by simpa using hmi)]
        · obtain ⟨h₁, h₂, h₃, h₄, h₅, h₆⟩ := ih₂ r hr
          refine ⟨h₁, h₂, h₃, h₄, h₅, ?_⟩
          rw [h₆, hdrop, htake, List.map_cons, MbufItem.dereferenced, if_neg hmi, List.append_assoc]
          rfl

/-- `mbuf_dereference_instance(ms, mi)` releases the buffers of the items for `mi` in queue order
and leaves those items `NULL`. -/
theorem mbufDereferenceInstance_spec (hw : ms.Wf) (heap : MbufHeap) :
    (mbufDereferenceInstance ms heap mi).map Prod.snd =
        mbufFreeBufs heap ((ms.queue.filter fun x => x.inst = some mi).map (·.buffer)) ∧
      ∀ r ∈ mbufDereferenceInstance ms heap mi, r.1.Wf ∧ r.1.len = ms.len ∧
        r.1.capacity = ms.capacity ∧ r.1.queue = ms.queue.map (MbufItem.dereferenced mi) := by
  obtain ⟨h₁, h₂⟩ := mbufDereferenceLoop_spec mi ms.len.toNat 0 ms heap hw (Nat.zero_add _)
  rw [mbufDereferenceInstance, mbufOffsets_eq hw, List.range_eq_range']
  refine ⟨by simpa using h₁, fun r hr => ?_⟩
  obtain ⟨hw', -, hlen, hcap, -, hq⟩ := h₂ r hr
  exact ⟨hw', hlen, hcap, by simpa using hq⟩

end Dereference

end OpenVpn
