import OpenVpn.MbufSpec
import OpenVpn.TagQueue

/-! The queue of `mbuf.c` under its caller, as `multi.c` drives it: `multi_unicast` and
`multi_bcast` allocate a buffer, add items for it and free their own reference;
`multi_get_queue` extracts an item and frees its buffer once the packet is sent; a closing
instance dereferences its items. Each call is a step of `MbufSystem`, which also keeps, as ghost
state no function of `mbuf.c` reads, the items added so far and the history of the queue over
them (`TagQueue`). Along every run the queue keeps its shape, the live items are the history's
queued items, what `mbuf_extract_item` returned is the history's popped items, and every buffer's
`refcount` is the number of references to it (`MbufSystem.Inv`). The one call that can fail is
`mbuf_add_item` on a full queue with no live item left, whose `ASSERT(mbuf_extract_item(...))`
stops the process; a run reaches it from every `mbuf_init`. -/

namespace OpenVpn

variable {I : Type}

/-! ### Reference counts -/

/-- How many of `items` hold buffer `b`. -/
def bufferCount (items : List (MbufItem I)) (b : Nat) : Nat := (items.map (·.buffer)).count (some b)

/-- A heap whose buffers have the reference counts `cnt`: a buffer is live with its count while
that count is positive and freed once it is `0`; a buffer past the heap has no reference. -/
structure HeapMatches (heap : MbufHeap) (cnt : Nat → Nat) : Prop where
  refcount : ∀ b < heap.refcount.length,
    heap.refcount[b]? = some (if cnt b = 0 then none else some (cnt b : Int))
  beyond : ∀ b, heap.refcount.length ≤ b → cnt b = 0

@[simp] theorem bufferCount_nil (b : Nat) : bufferCount ([] : List (MbufItem I)) b = 0 := rfl

@[simp] theorem bufferCount_append (p q : List (MbufItem I)) (b : Nat) :
    bufferCount (p ++ q) b = bufferCount p b + bufferCount q b := by
  simp [bufferCount, List.count_append]

@[simp] theorem bufferCount_singleton (x : MbufItem I) (b : Nat) :
    bufferCount [x] b = if x.buffer = some b then 1 else 0 := by
  simp [bufferCount, List.count_singleton]

@[simp] theorem bufferCount_cons (x : MbufItem I) (q : List (MbufItem I)) (b : Nat) :
    bufferCount (x :: q) b = bufferCount q b + if x.buffer = some b then 1 else 0 := by
  simp [bufferCount, List.count_cons]

theorem bufferCount_eq_zero {q : List (MbufItem I)} (h : ∀ x ∈ q, x.buffer = none) (b : Nat) :
    bufferCount q b = 0 := by
  simp only [bufferCount, List.count_eq_zero, List.mem_map, not_exists, not_and]
  intro x hx hb
  rw [h x hx] at hb
  cases hb

section Heap

variable {heap : MbufHeap} {cnt : Nat → Nat} {b : Nat}

theorem HeapMatches.congr (h : HeapMatches heap cnt) {cnt' : Nat → Nat} (he : ∀ b, cnt b = cnt' b) :
    HeapMatches heap cnt' :=
  funext he ▸ h

theorem HeapMatches.lt_of_pos (h : HeapMatches heap cnt) (hb : 0 < cnt b) :
    b < heap.refcount.length := by
  by_contra hle
  have := h.beyond b (Nat.le_of_not_lt hle)
  omega

theorem HeapMatches.getElem?_of_pos (h : HeapMatches heap cnt) (hb : 0 < cnt b) :
    heap.refcount[b]? = some (some (cnt b : Int)) := by
  rw [h.refcount b (h.lt_of_pos hb), if_neg (by omega)]

/-- Writing a buffer's new count keeps the heap matching the new counts. -/
theorem HeapMatches.set (h : HeapMatches heap cnt) {cnt' : Nat → Nat} (hb : b < heap.refcount.length)
    (hother : ∀ c ≠ b, cnt' c = cnt c) :
    HeapMatches ⟨heap.refcount.set b (if cnt' b = 0 then none else some (cnt' b : Int))⟩ cnt' := by
  refine ⟨fun c hc => ?_, fun c hc => ?_⟩
  · rw [List.length_set] at hc
    by_cases hcb : c = b
    · subst hcb
      rw [List.getElem?_set_self hc]
    · rw [List.getElem?_set_ne (Ne.symm hcb), h.refcount c hc, hother c hcb]
  · rw [List.length_set] at hc
    rw [hother c (by omega), h.beyond c hc]

/-- `mbuf_free_buf` of a buffer with a reference drops that reference. -/
theorem HeapMatches.freeBuf (h : HeapMatches heap cnt) (cnt' : Nat → Nat) (hb : cnt' b + 1 = cnt b)
    (hother : ∀ c ≠ b, cnt' c = cnt c) :
    ∃ heap', mbufFreeBuf heap (some b) = some heap' ∧
      heap'.refcount.length = heap.refcount.length ∧ HeapMatches heap' cnt' := by
  have hpos : 0 < cnt b := by omega
  refine ⟨_, ?_, List.length_set, h.set (h.lt_of_pos hpos) hother⟩
  simp only [mbufFreeBuf, h.getElem?_of_pos hpos]
  by_cases h0 : cnt' b = 0
  · rw [if_pos (by omega), if_pos h0]
  · have hsub : (cnt b : Int) - 1 = (cnt' b : Int) := by omega
    rw [if_neg (by omega), if_neg h0, hsub]

/-- `++item->buffer->refcount` on a buffer with a reference takes one more. -/
theorem HeapMatches.incRef (h : HeapMatches heap cnt) (cnt' : Nat → Nat) (hb : 0 < cnt b)
    (hcnt : cnt' b = cnt b + 1)
    (hother : ∀ c ≠ b, cnt' c = cnt c) :
    ∃ heap', mbufIncRef heap (some b) = some heap' ∧
      heap'.refcount.length = heap.refcount.length ∧ HeapMatches heap' cnt' := by
  refine ⟨_, ?_, List.length_set, h.set (h.lt_of_pos hb) hother⟩
  simp only [mbufIncRef, h.getElem?_of_pos hb, hcnt, if_neg (Nat.succ_ne_zero _), Nat.cast_add,
    Nat.cast_one]

/-- `mbuf_alloc_buf` adds a buffer with the caller's one reference. -/
theorem HeapMatches.allocBuf (h : HeapMatches heap cnt) (cnt' : Nat → Nat)
    (hnew : cnt' heap.refcount.length = 1)
    (hother : ∀ c ≠ heap.refcount.length, cnt' c = cnt c) :
    HeapMatches (mbufAllocBuf heap).1 cnt' := by
  refine ⟨fun c hc => ?_, fun c hc => ?_⟩
  · simp only [mbufAllocBuf, List.length_append, List.length_singleton] at hc ⊢
    by_cases hcl : c = heap.refcount.length
    · subst hcl
      rw [List.getElem?_append_right le_rfl, Nat.sub_self, hnew]
      rfl
    · rw [List.getElem?_append_left (by omega), h.refcount c (by omega), hother c hcl]
  · simp only [mbufAllocBuf, List.length_append, List.length_singleton] at hc
    rw [hother c (by omega), h.beyond c (by omega)]

theorem mbufFreeBufs_singleton (x : Option Nat) : mbufFreeBufs heap [x] = mbufFreeBuf heap x := by
  simp only [mbufFreeBufs]
  cases mbufFreeBuf heap x <;> rfl

/-- `mbuf_free_buf` of each buffer of `bs` in turn drops one reference for each. -/
theorem HeapMatches.freeBufs (cnt : Nat → Nat) :
    ∀ (bs : List (Option Nat)) {heap : MbufHeap},
      HeapMatches heap (fun b => cnt b + bs.count (some b)) →
      ∃ heap', mbufFreeBufs heap bs = some heap' ∧
        heap'.refcount.length = heap.refcount.length ∧ HeapMatches heap' cnt
  | [], heap, h => ⟨heap, rfl, rfl, by simpa using h⟩
  | x :: bs, heap, h => by
      -- the first buffer goes from its count with all of `bs` to its count with the rest
      have hfirst : ∃ heap₁, mbufFreeBuf heap x = some heap₁ ∧
          heap₁.refcount.length = heap.refcount.length ∧
          HeapMatches heap₁ (fun b => cnt b + bs.count (some b)) := by
        cases x with
        | none => exact ⟨heap, rfl, rfl, by simpa [List.count_cons] using h⟩
        | some c =>
            refine h.freeBuf _ ?_ fun b hb => ?_
            · simp
              omega
            · simp [Ne.symm hb]
      obtain ⟨heap₁, h₁, hl₁, hm₁⟩ := hfirst
      obtain ⟨heap', h', hl', hm'⟩ := HeapMatches.freeBufs cnt bs hm₁
      exact ⟨heap', by rw [mbufFreeBufs, h₁, Option.bind_some, h'], hl'.trans hl₁, hm'⟩

end Heap

/-! ### The caller -/

/-- The calls `multi.c` makes on the queue and its buffers. -/
inductive MbufOp (I : Type) where
  /-- `mbuf_alloc_buf(buf)` -/
  | alloc
  /-- `mbuf_add_item(ms, &item)` with `item = {b, mi}`, from `multi_add_mbuf` -/
  | add (b : Nat) (mi : I)
  /-- `mbuf_free_buf(mb)` of the reference `mbuf_alloc_buf` gave the caller -/
  | free (b : Nat)
  /-- `mbuf_extract_item(ms, &item)`, from `multi_get_queue` -/
  | extract
  /-- `mbuf_free_buf(item.buffer)` of the `k`-th extracted item the caller holds -/
  | release (k : Nat)
  /-- `mbuf_dereference_instance(ms, mi)`, when instance `mi` closes -/
  | dereference (mi : I)
  deriving DecidableEq, Repr

/-- The queue, the buffers and their caller: the buffers it has allocated and still holds a
reference to, and the extracted items it has not released. The items added so far, the history
of the queue over them and the items extracted so far are ghost state: no function reads them. -/
structure MbufSystem (I : Type) where
  ms : MbufSet I
  heap : MbufHeap
  own : List Nat
  held : List (MbufItem I)
  added : List (MbufItem I)
  tags : TagQueue
  returned : List (MbufItem I)

/-- The system right after `mbuf_init` returned `ms`. -/
def mbufStart (ms : MbufSet I) : MbufSystem I := ⟨ms, ⟨[]⟩, [], [], [], TagQueue.empty, []⟩

namespace MbufSystem

/-- `mb = mbuf_alloc_buf(buf)`: the caller holds the new buffer. -/
def alloc (s : MbufSystem I) : MbufSystem I :=
  { s with heap := (mbufAllocBuf s.heap).1, own := s.own ++ [(mbufAllocBuf s.heap).2] }

/-- `mbuf_add_item` of `{b, mi}`. In the history the item joins at the back, after the oldest
queued item was dropped when the queue was full. -/
def add (s : MbufSystem I) (b : Nat) (mi : I) : Option (MbufSystem I) :=
  (mbufAddItem s.ms s.heap ⟨some b, some mi⟩).map fun r =>
    { s with ms := r.1, heap := r.2, added := s.added ++ [⟨some b, some mi⟩],
             tags := (if s.ms.len = s.ms.capacity then s.tags.drop else s.tags).push }

/-- `mbuf_free_buf(mb)` of the caller's own reference. -/
def free (s : MbufSystem I) (b : Nat) : Option (MbufSystem I) :=
  (mbufFreeBuf s.heap (some b)).map fun heap => { s with heap := heap, own := s.own.erase b }

/-- `mbuf_extract_item(ms, &item)`: the caller holds the item it returns, and in the history
that item is popped. -/
def extract (s : MbufSystem I) : MbufSystem I :=
  { s with ms := (mbufExtractItem s.ms).1, held := s.held ++ (mbufExtractItem s.ms).2.toList,
           returned := s.returned ++ (mbufExtractItem s.ms).2.toList,
           tags := if (mbufExtractItem s.ms).2.isSome then s.tags.pop else s.tags }

/-- `mbuf_free_buf(item.buffer)` of the `k`-th item the caller holds, once it is sent. -/
def release (s : MbufSystem I) (k : Nat) : Option (MbufSystem I) :=
  (mbufFreeBuf s.heap (s.held.getD k MbufItem.null).buffer).map fun heap =>
    { s with heap := heap, held := s.held.eraseIdx k }

/-- `mbuf_dereference_instance(ms, mi)`: in the history the queued items for `mi` go. -/
def dereference [DecidableEq I] (s : MbufSystem I) (mi : I) : Option (MbufSystem I) :=
  (mbufDereferenceInstance s.ms s.heap mi).map fun r =>
    { s with ms := r.1, heap := r.2,
             tags := s.tags.removeWhere fun t => (s.added.getD t MbufItem.null).inst = some mi }

end MbufSystem

/-- One call; `none` when an `ASSERT` fails or a freed buffer is used. -/
def mbufStep [DecidableEq I] (s : MbufSystem I) : MbufOp I → Option (MbufSystem I)
  | .alloc => some s.alloc
  | .add b mi => s.add b mi
  | .free b => s.free b
  | .extract => some s.extract
  | .release k => s.release k
  | .dereference mi => s.dereference mi

/-- What the caller does, as `multi.c` does: it adds and frees only a buffer it holds a
reference to, and releases only an item it holds. -/
def MbufOp.Allowed (s : MbufSystem I) : MbufOp I → Prop
  | .alloc => True
  | .add b _ => b ∈ s.own
  | .free b => b ∈ s.own
  | .extract => True
  | .release k => k < s.held.length
  | .dereference _ => True

instance MbufOp.decidableAllowed (s : MbufSystem I) : (op : MbufOp I) → Decidable (op.Allowed s)
  | .alloc => isTrue trivial
  | .add b _ => inferInstanceAs (Decidable (b ∈ s.own))
  | .free b => inferInstanceAs (Decidable (b ∈ s.own))
  | .extract => isTrue trivial
  | .release k => inferInstanceAs (Decidable (k < s.held.length))
  | .dereference _ => isTrue trivial

/-- The calls `ops` in turn; `none` when one is not allowed or fails. -/
def mbufRun [DecidableEq I] (s : MbufSystem I) : List (MbufOp I) → Option (MbufSystem I)
  | [] => some s
  | op :: ops => if op.Allowed s then (mbufStep s op).bind fun s => mbufRun s ops else none

/-- `multi_unicast` to instance `mi`, `n` times: the `k`-th round allocates buffer `k`, adds it
for `mi` and frees the caller's reference. -/
def unicastRounds (mi : I) : Nat → List (MbufOp I)
  | 0 => []
  | k + 1 => unicastRounds mi k ++ [.alloc, .add k mi, .free k]

/-! ### The invariant -/

/-- The references to buffer `b`: the queue slots that hold it, the extracted items the caller
holds with it, and the caller's own references. -/
def mbufRefs (ms : MbufSet I) (held : List (MbufItem I)) (own : List Nat) (b : Nat) : Nat :=
  bufferCount ms.queue b + bufferCount held b + own.count b

/-- The references to each buffer in a system. -/
def MbufSystem.refs (s : MbufSystem I) : Nat → Nat := mbufRefs s.ms s.held s.own

/-- What holds along every run: the queue's shape; a queued item has a buffer exactly when it
has an instance; every buffer's `refcount` is its number of references; the history follows
the FIFO law, its queued items are the live items of the queue, and its popped items are what
`mbuf_extract_item` returned. -/
structure MbufSystem.Inv (s : MbufSystem I) : Prop where
  wf : s.ms.Wf
  shaped : ∀ x ∈ s.ms.queue, x.inst.isSome = x.buffer.isSome
  heap : HeapMatches s.heap s.refs
  tags : s.tags.Inv
  added : s.tags.n = s.added.length
  live : mbufLive s.ms.queue = s.tags.queued.map (s.added.getD · MbufItem.null)
  returned : s.returned = s.tags.out.map (s.added.getD · MbufItem.null)

section Calls

variable {s : MbufSystem I}

theorem buffer_eq_none_of_shaped {x : MbufItem I} (hx : x.inst.isSome = x.buffer.isSome)
    (hi : x.inst = none) : x.buffer = none := by
  rw [hi, Option.isSome_none] at hx
  exact Option.not_isSome_iff_eq_none.mp (by rw [← hx]; decide)

/-- Appending to the added items leaves the items of earlier numbers as they were. -/
theorem map_getD_append {ts : List Nat} {l : List (MbufItem I)} (x : MbufItem I)
    (h : ∀ t ∈ ts, t < l.length) :
    ts.map ((l ++ [x]).getD · MbufItem.null) = ts.map (l.getD · MbufItem.null) :=
  List.map_congr_left fun t ht => List.getD_append _ _ _ _ (h t ht)

/-- The system `mbuf_init` starts. -/
theorem inv_mbufStart {size : UInt32} {ms : MbufSet I} (hinit : mbufInit size = some ms) :
    (mbufStart ms).Inv := by
  obtain ⟨hw, hq⟩ := mbufInit_spec hinit
  have hrefs : ∀ b, (0 : Nat) = (mbufStart ms).refs b := by
    intro b
    simp [MbufSystem.refs, mbufRefs, mbufStart, hq]
  refine ⟨hw, by simp [mbufStart, hq], ?_, TagQueue.empty_inv, rfl, ?_, rfl⟩
  · exact HeapMatches.congr ⟨fun b hb => absurd hb (Nat.not_lt_zero _), fun _ _ => rfl⟩ hrefs
  · simp [mbufStart, hq, mbufLive, TagQueue.empty]

theorem MbufSystem.Inv.alloc (h : s.Inv) : s.alloc.Inv := by
  have hnew := h.heap.beyond s.heap.refcount.length le_rfl
  refine { h with heap := h.heap.allocBuf _ ?_ fun c hc => ?_ }
  · simp only [MbufSystem.refs, mbufRefs, MbufSystem.alloc, mbufAllocBuf, List.count_append,
      List.count_singleton, beq_self_eq_true, if_true] at hnew ⊢
    omega
  · simp [MbufSystem.refs, mbufRefs, MbufSystem.alloc, mbufAllocBuf, List.count_append, Ne.symm hc]

theorem MbufSystem.Inv.free (h : s.Inv) {b : Nat} (hb : b ∈ s.own) :
    ∃ s', s.free b = some s' ∧ s'.ms = s.ms ∧ s'.own = s.own.erase b ∧
      s'.heap.refcount.length = s.heap.refcount.length ∧ s'.Inv := by
  have hcount : 0 < s.own.count b := List.count_pos_iff.mpr hb
  have hdrop : mbufRefs s.ms s.held (s.own.erase b) b + 1 = s.refs b := by
    simp only [MbufSystem.refs, mbufRefs, List.count_erase_self]
    omega
  have hother : ∀ c ≠ b, mbufRefs s.ms s.held (s.own.erase b) c = s.refs c := by
    intro c hc
    simp only [MbufSystem.refs, mbufRefs, List.count_erase_of_ne hc]
  obtain ⟨heap', hfree, hlen, hm⟩ := h.heap.freeBuf _ hdrop hother
  exact ⟨{ s with heap := heap', own := s.own.erase b }, by rw [MbufSystem.free, hfree]; rfl,
    rfl, rfl, hlen, { h with heap := hm }⟩

/-- The store of `mbuf_add_item` on a queue with room: the buffer, which the caller holds, takes
one more reference, and the item joins the queue and the history at the back. -/
theorem MbufSystem.Inv.store (h : s.Inv) (hlt : s.ms.len < s.ms.capacity) {b : Nat}
    (hb : b ∈ s.own) (mi : I) :
    ∃ heap', mbufIncRef s.heap (some b) = some heap' ∧
      heap'.refcount.length = s.heap.refcount.length ∧
      ({ s with ms := mbufStore s.ms ⟨some b, some mi⟩, heap := heap',
                added := s.added ++ [⟨some b, some mi⟩], tags := s.tags.push } : MbufSystem I).Inv := by
  obtain ⟨hq, hw⟩ := mbufStore_queue h.wf hlt ⟨some b, some mi⟩
  have hpos : 0 < s.refs b := by
    have := List.count_pos_iff.mpr hb
    simp only [MbufSystem.refs, mbufRefs]
    omega
  have hone : mbufRefs (mbufStore s.ms ⟨some b, some mi⟩) s.held s.own b = s.refs b + 1 := by
    simp only [MbufSystem.refs, mbufRefs, hq, bufferCount_append, bufferCount_singleton, if_true]
    omega
  have hother : ∀ c ≠ b, mbufRefs (mbufStore s.ms ⟨some b, some mi⟩) s.held s.own c = s.refs c := by
    intro c hc
    simp [MbufSystem.refs, mbufRefs, hq, Ne.symm hc]
  obtain ⟨heap', hinc, hlen, hm⟩ := h.heap.incRef _ hpos hone hother
  refine ⟨heap', hinc, hlen, hw, ?_, hm, h.tags.push, ?_, ?_, ?_⟩
  · intro x hx
    rw [hq] at hx
    rcases List.mem_append.mp hx with hx | hx
    · exact h.shaped x hx
    · rw [List.mem_singleton.mp hx]
      rfl
  · show s.tags.n + 1 = (s.added ++ _).length
    simp [h.added]
  · dsimp only [TagQueue.push]
    rw [hq, mbufLive_append, h.live, List.map_append,
      map_getD_append _ fun t ht => h.added ▸ h.tags.lt_of_mem_queued ht]
    simp [mbufLive, h.added]
  · dsimp only [TagQueue.push]
    rw [map_getD_append _ fun t ht => h.added ▸ h.tags.lt_of_mem_out ht]
    exact h.returned

/-- The queued items that `mbuf_extract_item` skips hold no buffer. -/
theorem MbufSystem.Inv.bufferCount_skipped (h : s.Inv) {skipped rest : List (MbufItem I)}
    (hsplit : s.ms.queue = skipped ++ rest) (hnull : ∀ x ∈ skipped, x.inst = none) (c : Nat) :
    bufferCount skipped c = 0 :=
  bufferCount_eq_zero (fun x hx => buffer_eq_none_of_shaped
    (h.shaped x (by rw [hsplit]; exact List.mem_append_left _ hx)) (hnull x hx)) c

/-- On a full queue with a live item, `mbuf_add_item` drops the oldest live item and releases its
buffer ("MBUF: mbuf packet dropped"); in the history that item goes. -/
theorem MbufSystem.Inv.makeRoom (h : s.Inv) (hfull : s.ms.len = s.ms.capacity)
    (hlive : mbufLive s.ms.queue ≠ []) :
    ∃ ms₁ heap₁, mbufMakeRoom s.ms s.heap = some (ms₁, heap₁) ∧ ms₁.len < ms₁.capacity ∧
      heap₁.refcount.length = s.heap.refcount.length ∧
      ({ s with ms := ms₁, heap := heap₁, tags := s.tags.drop } : MbufSystem I).Inv := by
  have hx := mbufExtractItem_extracts h.wf
  obtain ⟨rm, hrm⟩ : ∃ rm, (mbufExtractItem s.ms).2 = some rm :=
    Option.isSome_iff_exists.mp (by rw [hx.eq_head]; exact List.isSome_head?.mpr hlive)
  have hx₁ : s.ms.Extracts (mbufExtractItem s.ms).1 (some rm) := hrm ▸ hx
  obtain ⟨skipped, hnull, hsplit⟩ := hx₁.split
  -- the history's first queued item is the one dropped
  have hlq := hx₁.live_queue
  rw [h.live] at hlq
  obtain ⟨t, rest, hqueued, -, hrest⟩ := List.map_eq_cons_iff.mp hlq
  have hcount : ∀ c, s.refs c =
      mbufRefs (mbufExtractItem s.ms).1 s.held s.own c + [rm.buffer].count (some c) := by
    intro c
    have hskip := h.bufferCount_skipped (hsplit.trans (List.append_assoc _ _ _)) hnull c
    simp only [MbufSystem.refs, mbufRefs, hsplit, bufferCount_append, Option.toList_some,
      bufferCount_singleton, List.count_singleton, beq_iff_eq, hskip]
    by_cases hc : rm.buffer = some c
    · simp only [hc, if_true]
      omega
    · simp only [hc, if_false]
      omega
  obtain ⟨heap₁, hfree, hlen, hm⟩ :=
    HeapMatches.freeBufs (mbufRefs (mbufExtractItem s.ms).1 s.held s.own) [rm.buffer]
      (h.heap.congr hcount)
  rw [mbufFreeBufs_singleton] at hfree
  refine ⟨(mbufExtractItem s.ms).1, heap₁, ?_, hx₁.len_lt h.wf, hlen, hx₁.wf, ?_, hm, h.tags.drop,
    h.added, ?_, h.returned⟩
  · simp only [mbufMakeRoom, if_pos hfull]
    rw [show mbufExtractItem s.ms = ((mbufExtractItem s.ms).1, some rm) from Prod.ext rfl hrm]
    simp [hfree]
  · intro x hx
    exact h.shaped x (by rw [hsplit]; simp [hx])
  · simpa [TagQueue.drop, hqueued] using hrest.symm

/-- `mbuf_add_item` of a buffer the caller holds: it fails, on its `ASSERT`, exactly on a full
queue with no live item, and otherwise keeps the invariant. -/
theorem MbufSystem.Inv.add (h : s.Inv) {b : Nat} (hb : b ∈ s.own) (mi : I) :
    (s.ms.len = s.ms.capacity ∧ mbufLive s.ms.queue = [] ∧ s.add b mi = none) ∨
      ∃ s', s.add b mi = some s' ∧ s'.Inv := by
  by_cases hfull : s.ms.len = s.ms.capacity
  · by_cases hlive : mbufLive s.ms.queue = []
    · left
      refine ⟨hfull, hlive, ?_⟩
      rw [MbufSystem.add, mbufAddItem_of_full_null h.wf hfull hlive]
      rfl
    · right
      obtain ⟨ms₁, heap₁, hroom, hlt, -, h₁⟩ := h.makeRoom hfull hlive
      obtain ⟨heap', hinc, -, h'⟩ := h₁.store hlt hb mi
      refine ⟨_, ?_, h'⟩
      simp only [MbufSystem.add, mbufAddItem, hroom, Option.bind_eq_bind, Option.bind_some,
        if_neg (not_not.mpr hlt), hinc, Option.map_some, if_pos hfull]
  · right
    have hlt : s.ms.len < s.ms.capacity :=
      UInt32.lt_iff_toNat_lt.mpr (lt_of_le_of_ne h.wf.len_le fun he => hfull (UInt32.toNat_inj.mp he))
    obtain ⟨heap', hinc, -, h'⟩ := h.store hlt hb mi
    refine ⟨_, ?_, h'⟩
    simp only [MbufSystem.add, mbufAddItem_of_lt hlt, hinc, Option.map_some, if_neg hfull]

/-- What `mbuf_extract_item` does keeps the invariant: the returned item moves from the queue to
the caller, and in the history it is popped. -/
theorem MbufSystem.Inv.of_extracts (h : s.Inv) {ms' : MbufSet I} {r : Option (MbufItem I)}
    (hx : s.ms.Extracts ms' r) :
    ({ s with ms := ms', held := s.held ++ r.toList, returned := s.returned ++ r.toList,
              tags := if r.isSome then s.tags.pop else s.tags } : MbufSystem I).Inv := by
  obtain ⟨skipped, hnull, hsplit⟩ := hx.split
  have hcount : ∀ c, s.refs c = mbufRefs ms' (s.held ++ r.toList) s.own c := by
    intro c
    have hskip := h.bufferCount_skipped (hsplit.trans (List.append_assoc _ _ _)) hnull c
    simp only [MbufSystem.refs, mbufRefs, hsplit, bufferCount_append, hskip]
    omega
  have hshaped : ∀ x ∈ ms'.queue, x.inst.isSome = x.buffer.isSome :=
    fun x hx' => h.shaped x (by rw [hsplit]; exact List.mem_append_right _ hx')
  have hlq := hx.live_queue
  rw [h.live] at hlq
  cases r with
  | none =>
      -- nothing was live: the history is left as it is, with nothing queued
      have hq : s.tags.queued = [] := by simpa [hx.empty rfl, mbufLive] using hlq
      refine ⟨hx.wf, hshaped, h.heap.congr hcount, h.tags, h.added, ?_, ?_⟩
      · simp [hx.empty rfl, hq, mbufLive]
      · simpa using h.returned
  | some x =>
      obtain ⟨t, rest, hqueued, rfl, hrest⟩ := List.map_eq_cons_iff.mp hlq
      refine ⟨hx.wf, hshaped, h.heap.congr hcount, h.tags.pop, h.added, ?_, ?_⟩
      · simpa [TagQueue.pop, hqueued] using hrest.symm
      · simp [TagQueue.pop, hqueued, h.returned]

theorem MbufSystem.Inv.extract (h : s.Inv) : s.extract.Inv :=
  h.of_extracts (mbufExtractItem_extracts h.wf)

/-- `mbuf_free_buf(item.buffer)` of an item the caller holds drops that item's reference. -/
theorem MbufSystem.Inv.release (h : s.Inv) {k : Nat} (hk : k < s.held.length) :
    ∃ s', s.release k = some s' ∧ s'.Inv := by
  have hsplit : s.held = s.held.take k ++ s.held.getD k MbufItem.null :: s.held.drop (k + 1) := by
    rw [List.getD_eq_getElem _ _ hk, ← List.drop_eq_getElem_cons hk, List.take_append_drop]
  have hcount : ∀ c, s.refs c = mbufRefs s.ms (s.held.eraseIdx k) s.own c +
      [(s.held.getD k MbufItem.null).buffer].count (some c) := by
    intro c
    have hheld := congrArg (bufferCount · c) hsplit
    simp only [MbufSystem.refs, mbufRefs, List.eraseIdx_eq_take_drop_succ, bufferCount_append,
      bufferCount_cons, List.count_singleton, beq_iff_eq] at hheld ⊢
    omega
  obtain ⟨heap', hfree, -, hm⟩ :=
    HeapMatches.freeBufs (mbufRefs s.ms (s.held.eraseIdx k) s.own) _ (h.heap.congr hcount)
  rw [mbufFreeBufs_singleton] at hfree
  exact ⟨{ s with heap := heap', held := s.held.eraseIdx k },
    by rw [MbufSystem.release, hfree]; rfl, { h with heap := hm }⟩

end Calls

section Dereference

variable [DecidableEq I] (mi : I)

/-- Dereferencing `mi` keeps the live items of other instances, in order. -/
theorem mbufLive_map_dereferenced (q : List (MbufItem I)) :
    mbufLive (q.map (MbufItem.dereferenced mi)) =
      (mbufLive q).filter fun x => !decide (x.inst = some mi) := by
  induction q with
  | nil => rfl
  | cons x q ih =>
      by_cases hx : x.inst = some mi
      · simpa [mbufLive, MbufItem.dereferenced, hx, MbufItem.null] using ih
      · cases hi : x.inst with
        | none => simpa [mbufLive, MbufItem.dereferenced, hx, hi] using ih
        | some j =>
            have hj : j ≠ mi := fun e => hx (hi.trans (congrArg some e))
            simpa [mbufLive, MbufItem.dereferenced, hi, hj] using ih

/-- The references of a queue are those left after dereferencing `mi` and those of the items
`mbuf_dereference_instance` frees. -/
theorem bufferCount_map_dereferenced (q : List (MbufItem I)) (b : Nat) :
    bufferCount q b = bufferCount (q.map (MbufItem.dereferenced mi)) b +
      ((q.filter fun x => x.inst = some mi).map (·.buffer)).count (some b) := by
  induction q with
  | nil => rfl
  | cons x q ih =>
      by_cases hx : x.inst = some mi
      · simp only [List.map_cons, bufferCount_cons, MbufItem.dereferenced, List.filter_cons, hx, decide_true, if_true, List.count_cons, beq_iff_eq]
        simp only [MbufItem.null, reduceCtorEq, if_false]
        omega
      · simp only [List.map_cons, bufferCount_cons, MbufItem.dereferenced, List.filter_cons, hx, decide_false, Bool.false_eq_true, if_false]
        omega

variable {s : MbufSystem I}

/-- `mbuf_dereference_instance(ms, mi)` releases the buffers of the items for `mi` and leaves them
`NULL`; in the history they go. -/
theorem MbufSystem.Inv.dereference (h : s.Inv) :
    ∃ s', s.dereference mi = some s' ∧ s'.ms.len = s.ms.len ∧ s'.ms.capacity = s.ms.capacity ∧
      s'.ms.queue = s.ms.queue.map (MbufItem.dereferenced mi) ∧ s'.own = s.own ∧
      s'.heap.refcount.length = s.heap.refcount.length ∧ s'.Inv := by
  obtain ⟨hheap, hms⟩ := mbufDereferenceInstance_spec mi h.wf s.heap
  -- the references left once the items for `mi` are `NULL`
  have hcount : ∀ c, s.refs c =
      (bufferCount (s.ms.queue.map (MbufItem.dereferenced mi)) c + bufferCount s.held c +
        s.own.count c) + ((s.ms.queue.filter fun x => x.inst = some mi).map (·.buffer)).count (some c) := by
    intro c
    simp only [MbufSystem.refs, mbufRefs, bufferCount_map_dereferenced mi s.ms.queue c]
    omega
  obtain ⟨heap', hfree, hlen, hm⟩ := HeapMatches.freeBufs _ _ (h.heap.congr hcount)
  rw [← hheap, Option.map_eq_some_iff] at hfree
  obtain ⟨⟨ms', heapR⟩, hr, hsnd⟩ := hfree
  subst hsnd
  obtain ⟨hw', hlen', hcap', hq'⟩ := hms _ hr
  dsimp only at hlen hm hw' hlen' hcap' hq'
  refine ⟨{ s with ms := ms', heap := heapR,
                   tags := s.tags.removeWhere fun t => (s.added.getD t MbufItem.null).inst = some mi },
    by rw [MbufSystem.dereference, hr]; rfl, hlen', hcap', hq', rfl, hlen, hw', ?_, ?_,
    h.tags.removeWhere _, h.added, ?_, h.returned⟩
  · intro x hx
    rw [hq', List.mem_map] at hx
    obtain ⟨y, hy, rfl⟩ := hx
    by_cases hym : y.inst = some mi
    · simp [MbufItem.dereferenced, hym, MbufItem.null]
    · simpa [MbufItem.dereferenced, hym] using h.shaped y hy
  · refine hm.congr fun c => ?_
    simp only [MbufSystem.refs, mbufRefs, hq']
  · dsimp only [TagQueue.removeWhere]
    rw [hq', mbufLive_map_dereferenced, h.live, List.filter_map]
    rfl

end Dereference

/-! ### Runs -/

section Runs

variable [DecidableEq I] {s : MbufSystem I}

/-- Every allowed call keeps the invariant. -/
theorem MbufSystem.Inv.step (h : s.Inv) {op : MbufOp I} (ha : op.Allowed s) {s' : MbufSystem I}
    (hs : mbufStep s op = some s') : s'.Inv := by
  cases op with
  | alloc =>
      cases hs
      exact h.alloc
  | add b mi =>
      rcases h.add ha mi with ⟨-, -, hn⟩ | ⟨s₁, hs₁, h₁⟩
      · simp only [mbufStep, hn, reduceCtorEq] at hs
      · simp only [mbufStep, hs₁, Option.some.injEq] at hs
        exact hs ▸ h₁
  | free b =>
      obtain ⟨s₁, hs₁, -, -, -, h₁⟩ := h.free ha
      simp only [mbufStep, hs₁, Option.some.injEq] at hs
      exact hs ▸ h₁
  | extract =>
      cases hs
      exact h.extract
  | release k =>
      obtain ⟨s₁, hs₁, h₁⟩ := h.release ha
      simp only [mbufStep, hs₁, Option.some.injEq] at hs
      exact hs ▸ h₁
  | dereference mi =>
      obtain ⟨s₁, hs₁, -, -, -, -, -, h₁⟩ := h.dereference mi
      simp only [mbufStep, hs₁, Option.some.injEq] at hs
      exact hs ▸ h₁

/-- The one allowed call that fails is `mbuf_add_item` on a full queue with no live item. -/
theorem MbufSystem.Inv.step_eq_none (h : s.Inv) {op : MbufOp I} (ha : op.Allowed s)
    (hn : mbufStep s op = none) :
    (∃ b mi, op = .add b mi) ∧ s.ms.len = s.ms.capacity ∧ mbufLive s.ms.queue = [] := by
  cases op with
  | alloc => cases hn
  | add b mi =>
      rcases h.add ha mi with ⟨hfull, hlive, -⟩ | ⟨s₁, hs₁, -⟩
      · exact ⟨⟨b, mi, rfl⟩, hfull, hlive⟩
      · simp only [mbufStep, hs₁, reduceCtorEq] at hn
  | free b =>
      obtain ⟨s₁, hs₁, -⟩ := h.free ha
      simp only [mbufStep, hs₁, reduceCtorEq] at hn
  | extract => cases hn
  | release k =>
      obtain ⟨s₁, hs₁, -⟩ := h.release ha
      simp only [mbufStep, hs₁, reduceCtorEq] at hn
  | dereference mi =>
      obtain ⟨s₁, hs₁, -⟩ := h.dereference mi
      simp only [mbufStep, hs₁, reduceCtorEq] at hn

/-- The invariant holds after every run. -/
theorem MbufSystem.Inv.run :
    ∀ (ops : List (MbufOp I)) {s s' : MbufSystem I}, s.Inv → mbufRun s ops = some s' → s'.Inv
  | [], _, _, h, hr => by
      cases hr
      exact h
  | op :: ops, s, s', h, hr => by
      simp only [mbufRun] at hr
      split_ifs at hr with ha
      obtain ⟨s₁, hs₁, hr₁⟩ := Option.bind_eq_some_iff.mp hr
      exact MbufSystem.Inv.run ops (h.step ha hs₁) hr₁

theorem mbufRun_append (s : MbufSystem I) (ops₁ ops₂ : List (MbufOp I)) :
    mbufRun s (ops₁ ++ ops₂) = (mbufRun s ops₁).bind fun s => mbufRun s ops₂ := by
  induction ops₁ generalizing s with
  | nil => rfl
  | cons op ops₁ ih =>
      simp only [List.cons_append, mbufRun]
      split_ifs
      · cases mbufStep s op with
        | none => rfl
        | some s₁ => exact ih s₁
      · rfl

/-- After `k` rounds of `multi_unicast` to `mi` on a queue with room for them, the queue holds
`k` items, all for `mi`, and the caller holds no buffer. -/
theorem mbufRun_unicastRounds {size : UInt32} {ms : MbufSet I} (hinit : mbufInit size = some ms)
    (mi : I) :
    ∀ k ≤ ms.capacity.toNat, ∃ s, mbufRun (mbufStart ms) (unicastRounds mi k) = some s ∧ s.Inv ∧
      s.ms.len.toNat = k ∧ s.ms.capacity = ms.capacity ∧ s.own = [] ∧
      s.heap.refcount.length = k ∧ ∀ x ∈ s.ms.queue, x.inst = some mi
  | 0, _ => by
      obtain ⟨-, hq⟩ := mbufInit_spec hinit
      have hlen := congrArg List.length hq
      rw [length_queue] at hlen
      exact ⟨mbufStart ms, rfl, inv_mbufStart hinit, hlen, rfl, rfl, rfl, by simp [mbufStart, hq]⟩
  | k + 1, hk => by
      obtain ⟨s, hrun, h, hlen, hcap, hown, hheap, hinst⟩ :=
        mbufRun_unicastRounds hinit mi k (by omega)
      -- `mbuf_alloc_buf` returns buffer `k`, and the queue has room for its item
      have hown₁ : s.alloc.own = [k] := by simp [MbufSystem.alloc, mbufAllocBuf, hown, hheap]
      have hlt : s.alloc.ms.len < s.alloc.ms.capacity := by
        rw [UInt32.lt_iff_toNat_lt]
        show s.ms.len.toNat < s.ms.capacity.toNat
        rw [hlen, hcap]
        omega
      obtain ⟨hq, -⟩ := mbufStore_queue h.alloc.wf hlt ⟨some k, some mi⟩
      obtain ⟨heap₂, hinc, hlen₂, h₂⟩ := h.alloc.store hlt (b := k) (by simp [hown₁]) mi
      have hne : s.alloc.ms.len ≠ s.alloc.ms.capacity := fun he => absurd (he ▸ hlt) (UInt32.lt_irrefl _)
      obtain ⟨s₃, hfree, hms₃, hown₃, hheap₃, h₃⟩ := h₂.free (b := k) (by simp [hown₁])
      have hq₃ : s₃.ms.queue = s.ms.queue ++ [⟨some k, some mi⟩] := by rw [hms₃]; exact hq
      refine ⟨s₃, ?_, h₃, ?_, by rw [hms₃]; exact hcap, by simp [hown₃, hown₁], ?_, ?_⟩
      · rw [unicastRounds, mbufRun_append, hrun, Option.bind_some]
        simp only [mbufRun, mbufStep, MbufOp.Allowed, hown₁, List.mem_singleton, if_true,
          Option.bind_some, MbufSystem.add, mbufAddItem_of_lt hlt, hinc, Option.map_some, if_neg hne]
        simp only [hown₁] at hfree
        simp [hfree]
      · have := congrArg List.length hq₃
        simp only [length_queue, List.length_append, List.length_singleton] at this
        omega
      · rw [hheap₃, hlen₂]
        simp [MbufSystem.alloc, mbufAllocBuf, hheap]
      · intro x hx
        rw [hq₃] at hx
        rcases List.mem_append.mp hx with hx | hx
        · exact hinst x hx
        · rw [List.mem_singleton.mp hx]

/-- The queue of `mbuf.c` under any allowed run of its caller from `mbuf_init`: its length stays
within the capacity; what `mbuf_extract_item` returned and what is still live are, in the order
they were added, the items not dropped for room or dereferenced; every buffer's `refcount` is its
number of queue slots, extracted items and caller references, and it is freed once that is `0`.
The one call that can fail is `mbuf_add_item` on a full queue with no live item, and a run
reaches it from every `mbuf_init`: `capacity` packets queued for one instance that then closes,
and one more packet, stop the process at `ASSERT(mbuf_extract_item(ms, &rm))`. -/
theorem mbuf_add_item_asserts_on_dereferenced_queue {size : UInt32} {ms : MbufSet I}
    (hinit : mbufInit size = some ms) :
    (∀ (ops : List (MbufOp I)) (s : MbufSystem I), mbufRun (mbufStart ms) ops = some s →
      s.ms.len.toNat ≤ s.ms.capacity.toNat ∧
      s.tags.out ++ s.tags.queued = (List.range s.added.length).filter (· ∉ s.tags.gone) ∧
      s.returned = s.tags.out.map (s.added.getD · MbufItem.null) ∧
      mbufLive s.ms.queue = s.tags.queued.map (s.added.getD · MbufItem.null) ∧
      HeapMatches s.heap s.refs ∧
      ∀ op, op.Allowed s → mbufStep s op = none →
        (∃ b mi, op = .add b mi) ∧ s.ms.len = s.ms.capacity ∧ mbufLive s.ms.queue = []) ∧
    ∀ mi mi' : I, ∃ s,
      mbufRun (mbufStart ms) (unicastRounds mi ms.capacity.toNat ++ [.dereference mi, .alloc]) =
        some s ∧
      (MbufOp.add ms.capacity.toNat mi').Allowed s ∧ mbufStep s (.add ms.capacity.toNat mi') = none := by
  refine ⟨fun ops s hr => ?_, fun mi mi' => ?_⟩
  · have h := MbufSystem.Inv.run ops (inv_mbufStart hinit) hr
    refine ⟨h.wf.len_le, ?_, h.returned, h.live, h.heap, fun op ha hn => h.step_eq_none ha hn⟩
    rw [← h.added]
    exact h.tags.order
  · obtain ⟨s, hrun, h, hlen, hcap, hown, hheap, hinst⟩ := mbufRun_unicastRounds hinit mi _ le_rfl
    obtain ⟨s₁, hs₁, hlen₁, hcap₁, hq₁, hown₁, hheap₁, h₁⟩ := h.dereference mi
    -- every queued item was for `mi`, so none is live, and the queue is still full
    have hdead : mbufLive s₁.ms.queue = [] := mbufLive_eq_nil fun x hx => by
      rw [hq₁, List.mem_map] at hx
      obtain ⟨y, hy, rfl⟩ := hx
      simp [MbufItem.dereferenced, hinst y hy, MbufItem.null]
    have hfull : s₁.ms.len = s₁.ms.capacity :=
      UInt32.toNat_inj.mp (by rw [hlen₁, hcap₁, hlen, hcap])
    have hown₂ : s₁.alloc.own = [ms.capacity.toNat] := by
      simp [MbufSystem.alloc, mbufAllocBuf, hown₁, hown, hheap₁, hheap]
    refine ⟨s₁.alloc, ?_, by simp [MbufOp.Allowed, hown₂], ?_⟩
    · rw [mbufRun_append, hrun, Option.bind_some]
      simp [mbufRun, mbufStep, hs₁, MbufOp.Allowed]
    · simp only [mbufStep, MbufSystem.add]
      rw [mbufAddItem_of_full_null h₁.alloc.wf hfull hdead]
      rfl

/-- A queue of one slot: one packet for instance `7`, which then closes, and a packet for `8`
stops the process. -/
theorem mbuf_add_item_asserts_capacity_one :
    mbufInit 1 = some (⟨0, 0, 1, 0, [MbufItem.null]⟩ : MbufSet Nat) ∧
      ∃ s, mbufRun (mbufStart (⟨0, 0, 1, 0, [MbufItem.null]⟩ : MbufSet Nat))
          (unicastRounds 7 1 ++ [.dereference 7, .alloc]) = some s ∧
        (MbufOp.add 1 8).Allowed s ∧ mbufStep s (.add 1 8) = none := by
  have hinit : mbufInit 1 = some (⟨0, 0, 1, 0, [MbufItem.null]⟩ : MbufSet Nat) := by decide
  exact ⟨hinit, (mbuf_add_item_asserts_on_dereferenced_queue hinit).2 7 8⟩

end Runs

end OpenVpn
