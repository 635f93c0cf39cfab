import OpenVpn.HashOps

/-! The iterators of `list.c` against the finite map. During an iteration the table `h` is the
table `h₀` of its start with elements marked or freed (`IterTable`): a delete marks the element
last returned, and leaving a bucket frees its marked elements. The pairs of the table are those
of `h₀` less the ones marked, so a sweep does not change them. The cursor of the iterator stands
for the elements it has still to return (`iterRem`), read in `h₀`: the rest of the locked bucket
and the buckets after `bucket_index` up to the end of the range. One `hash_iterator_next`
returns the head of that list and leaves its tail (`IterInv.next`), as a list iterator does. -/

namespace OpenVpn

open AssocMap

variable {K V : Type}

/-! ### Buckets swept and marked -/

theorem hashRemoveMarkedLoop_fst (l : List (HashElement K V)) :
    (hashRemoveMarkedLoop l).1 = l.filter fun he => he.key.isSome := by
  induction l with
  | nil => rfl
  | cons he l ih => cases hk : he.key <;> simp [hashRemoveMarkedLoop, hk, ih]

theorem hashRemoveMarkedLoop_length (l : List (HashElement K V)) :
    (hashRemoveMarkedLoop l).1.length + (hashRemoveMarkedLoop l).2 = l.length := by
  induction l with
  | nil => rfl
  | cons he l ih =>
      cases hk : he.key <;> simp [hashRemoveMarkedLoop, hk] <;> omega

/-- Freeing the marked elements of a bucket keeps its pairs. -/
theorem bucketEntries_filter_key (l : List (HashElement K V)) :
    bucketEntries (l.filter fun he => he.key.isSome) = bucketEntries l := by
  induction l with
  | nil => rfl
  | cons he l ih =>
      cases hk : he.key with
      | none => simpa [List.filter_cons, hk, bucketEntries, HashElement.entry] using ih
      | some k => simp [hk, bucketEntries_cons_of_key hk, ih]

/-- `he->key = NULL`. -/
def HashElement.mark (he : HashElement K V) : HashElement K V := { he with key := none }

theorem bucketEntries_cons_of_none {he : HashElement K V} (hk : he.key = none)
    (b : List (HashElement K V)) : bucketEntries (he :: b) = bucketEntries b := by
  simp [bucketEntries, HashElement.entry, hk]

/-- The elements of a bucket all have keys: one pair each. -/
theorem length_bucketEntries_of_keys {l : List (HashElement K V)}
    (hk : ∀ x ∈ l, x.key.isSome) : (bucketEntries l).length = l.length := by
  induction l with
  | nil => rfl
  | cons x l ih =>
      obtain ⟨k, hx⟩ := Option.isSome_iff_exists.mp (hk x (by simp))
      rw [bucketEntries_cons_of_key hx, List.length_cons, List.length_cons,
        ih fun y hy => hk y (by simp [hy])]

/-- Marking the element at `p` drops its pair from the bucket's. -/
theorem bucketEntries_modify_mark :
    ∀ (l : List (HashElement K V)) (p : Nat) {x : HashElement K V}, l[p]? = some x →
      ∀ {k : K}, x.key = some k →
        (bucketEntries l).Perm ((k, x.value) :: bucketEntries (l.modify p HashElement.mark))
  | [], _, _, hx, _, _ => by simp at hx
  | y :: l, 0, x, hx, k, hk => by
      simp only [List.getElem?_cons_zero, Option.some.injEq] at hx
      subst hx
      rw [List.modify_zero_cons, bucketEntries_cons_of_key hk, bucketEntries_cons_of_none rfl]
  | y :: l, p + 1, x, hx, k, hk => by
      simp only [List.getElem?_cons_succ] at hx
      have ih := bucketEntries_modify_mark l p hx hk
      rw [List.modify_succ_cons]
      cases hy : y.key with
      | none => simpa [bucketEntries, HashElement.entry, hy] using ih
      | some ky =>
          rw [bucketEntries_cons_of_key hy, bucketEntries_cons_of_key hy]
          exact (ih.cons _).trans (List.Perm.swap _ _ _)

theorem bucketEntries_modify_mark_sublist (l : List (HashElement K V)) (p : Nat) :
    (bucketEntries (l.modify p HashElement.mark)).Sublist (bucketEntries l) := by
  induction l generalizing p with
  | nil => simp
  | cons y l ih =>
      cases p with
      | zero =>
          rw [List.modify_zero_cons, bucketEntries_cons_of_none rfl]
          cases hy : y.key with
          | none => rw [bucketEntries_cons_of_none hy]
          | some ky =>
              rw [bucketEntries_cons_of_key hy]
              exact List.sublist_cons_self _ _
      | succ p =>
          rw [List.modify_succ_cons]
          cases hy : y.key with
          | none => simpa [bucketEntries, HashElement.entry, hy] using ih p
          | some ky =>
              rw [bucketEntries_cons_of_key hy, bucketEntries_cons_of_key hy]
              exact (ih p).cons_cons _

/-- An element of a bucket with one element marked is an element of the bucket, or that element
marked. -/
theorem mem_modify_mark {l : List (HashElement K V)} {p : Nat} {y : HashElement K V}
    (hy : y ∈ l.modify p HashElement.mark) : y ∈ l ∨ ∃ x ∈ l, y = x.mark := by
  obtain ⟨q, hq, rfl⟩ := List.mem_iff_getElem.mp hy
  have hq' : q < l.length := by simpa using hq
  have hget := List.getElem?_modify HashElement.mark p l q
  rw [List.getElem?_eq_getElem hq, List.getElem?_eq_getElem hq'] at hget
  simp only [Option.map_eq_map, Option.map_some, Option.some.injEq] at hget
  rw [hget]
  split_ifs
  · exact .inr ⟨l[q], List.getElem_mem hq', rfl⟩
  · exact .inl (List.getElem_mem hq')

/-- The positions after a marked one are the bucket's. -/
theorem drop_modify_mark (l : List (HashElement K V)) (p : Nat) :
    (l.modify p HashElement.mark).drop (p + 1) = l.drop (p + 1) := by
  apply List.ext_getElem?
  intro q
  simp [show ¬ p = p + 1 + q by omega]

/-! ### Lists of buckets -/

/-- The number of elements of the table. -/
def Hash.total (h : Hash K V) : Nat := (h.buckets.map List.length).sum

theorem sum_length_set {α : Type} :
    ∀ (l : List (List α)) {i : Nat}, i < l.length → ∀ b : List α,
      ((l.set i b).map List.length).sum + (l.getD i []).length = (l.map List.length).sum + b.length
  | [], _, hi, _ => by simp at hi
  | x :: l, 0, _, b => by simp; omega
  | x :: l, i + 1, hi, b => by
      have := sum_length_set l (by simpa using hi) b
      simp only [List.set_cons_succ, List.map_cons, List.sum_cons, List.getD_cons_succ]
      omega

theorem flatMap_set_sublist {α β : Type} (f : List α → List β) :
    ∀ (l : List (List α)) (i : Nat) (b : List α), (f b).Sublist (f (l.getD i [])) →
      ((l.set i b).flatMap f).Sublist (l.flatMap f)
  | [], _, _, _ => by simp
  | x :: l, 0, b, h => by
      simp only [List.set_cons_zero, List.flatMap_cons]
      exact List.Sublist.append_right (by simpa using h) _
  | x :: l, i + 1, b, h => by
      simp only [List.set_cons_succ, List.flatMap_cons]
      exact List.Sublist.append_left (flatMap_set_sublist f l i b (by simpa using h)) _

theorem flatMap_set_of_eq {α β : Type} (f : List α → List β) :
    ∀ (l : List (List α)) (i : Nat) (b : List α), f b = f (l.getD i []) →
      (l.set i b).flatMap f = l.flatMap f
  | [], _, _, _ => by simp
  | x :: l, 0, b, h => by simpa using h
  | x :: l, i + 1, b, h => by simpa using flatMap_set_of_eq f l i b (by simpa using h)

theorem Hash.total_setBucket (h : Hash K V) {i : Nat} (hi : i < h.buckets.length)
    (b : List (HashElement K V)) : (h.setBucket i b).total + (h.bucket i).length = h.total + b.length :=
  sum_length_set h.buckets hi b

theorem Hash.entries_setBucket_sublist (h : Hash K V) (i : Nat) {b : List (HashElement K V)}
    (hb : (bucketEntries b).Sublist (bucketEntries (h.bucket i))) :
    (h.setBucket i b).entries.Sublist h.entries :=
  flatMap_set_sublist bucketEntries h.buckets i b hb

theorem Hash.entries_setBucket_of_eq (h : Hash K V) (i : Nat) {b : List (HashElement K V)}
    (hb : bucketEntries b = bucketEntries (h.bucket i)) : (h.setBucket i b).entries = h.entries :=
  flatMap_set_of_eq bucketEntries h.buckets i b hb

/-- A table whose elements all have keys has as many pairs as elements. -/
theorem Hash.entries_length_of_keys (h : Hash K V)
    (hk : ∀ j, ∀ x ∈ h.bucket j, x.key.isSome) : h.entries.length = h.total := by
  rw [Hash.entries, Hash.total, List.length_flatMap]
  congr 1
  apply List.map_congr_left
  intro b hb
  obtain ⟨j, hj, rfl⟩ := List.mem_iff_getElem.mp hb
  exact length_bucketEntries_of_keys fun x hx =>
    hk j x (by simpa [Hash.bucket, List.getD_eq_getElem?_getD, hj] using hx)

/-! ### The table during an iteration -/

/-- `h` is the table `h₀` of an iteration's start with elements marked or freed: it has the
shape of `h₀`, each of its elements is one of `h₀`'s in the same bucket with its key or with a
`NULL` key, its pairs are some of `h₀`'s, `n_elements` counts its elements, and a marked element
lies in the bucket `locked`, with the flag `marked` set. -/
structure IterTable (h₀ h : Hash K V) (locked : Option Nat) (marked : Bool) : Prop where
  nBuckets : h.nBuckets = h₀.nBuckets
  mask : h.mask = h₀.mask
  iv : h.iv = h₀.iv
  hashFunction : h.hashFunction = h₀.hashFunction
  compareFunction : h.compareFunction = h₀.compareFunction
  length : h.buckets.length = h₀.buckets.length
  sub : ∀ j, ∀ x ∈ h.bucket j, ∃ x₀ ∈ h₀.bucket j, x.hashValue = x₀.hashValue ∧
    (x.key = x₀.key ∨ x.key = none)
  entries : h.entries.Sublist h₀.entries
  count : h.nElements = h.total
  marks : ∀ j, ∀ x ∈ h.bucket j, x.key = none → locked = some j ∧ marked = true

/-- The buckets of the range from `a` up to `e`, read in order. -/
def rangeBuckets (h : Hash K V) (a e : Nat) : List (HashElement K V) :=
  (List.range' a (e - a)).flatMap h.bucket

theorem rangeBuckets_of_lt (h : Hash K V) {a e : Nat} (ha : a < e) :
    rangeBuckets h a e = h.bucket a ++ rangeBuckets h (a + 1) e := by
  obtain ⟨n, hn⟩ := Nat.exists_eq_add_of_lt ha
  simp [rangeBuckets, show e - a = (e - (a + 1)) + 1 by omega, List.range'_succ]

theorem rangeBuckets_of_le (h : Hash K V) {a e : Nat} (ha : e ≤ a) : rangeBuckets h a e = [] := by
  simp [rangeBuckets, show e - a = 0 by omega]

/-- The elements an iterator has still to return, read in the table `h₀` of its start. -/
def iterRem (h₀ : Hash K V) (e : Nat) (hi : HashIterator) : List (HashElement K V) :=
  (match hi.elem with
    | some (b, p) => (h₀.bucket b).drop p
    | none => []) ++ rangeBuckets h₀ (hi.bucketIndex + 1).toNat e

/-- The invariant of an iteration over the buckets up to `e` of the table `h₀` it started on:
the table is `h₀` marked and freed, `elem` points into the locked bucket at the bucket index,
whose rest is as in `h₀`, `last` at the element before it, and the buckets after the index are
those of `h₀`. -/
structure IterInv (h₀ : Hash K V) (e : Nat) (h : Hash K V) (hi : HashIterator) : Prop
    extends IterTable h₀ h hi.bucket hi.bucketMarked where
  endEq : hi.bucketIndexEnd = e
  e_le : e ≤ h₀.buckets.length
  index : -1 ≤ hi.bucketIndex
  locked : ∀ c, hi.bucket = some c → c < e ∧ (c : Int) ≤ hi.bucketIndex ∧
    (hi.bucketIndex = c ∨ (e : Int) ≤ hi.bucketIndex)
  unlocked : hi.bucket = none → hi.bucketMarked = false
  elem : ∀ b p, hi.elem = some (b, p) → hi.bucket = some b ∧ hi.bucketIndex = b ∧
    p < (h.bucket b).length ∧ (h.bucket b).drop p = (h₀.bucket b).drop p
  last : ∀ b p, hi.last = some (b, p) → hi.bucket = some b ∧ p < (h.bucket b).length ∧
    (hi.elem = some (b, p + 1) ∨ hi.elem = none ∧ p + 1 = (h.bucket b).length)
  untouched : ∀ j : Nat, hi.bucketIndex < j → h.bucket j = h₀.bucket j


/-- What one `hash_iterator_next` from `h`, `hi` to `h'`, `hi'` returning `r` does: the invariant
holds after it, it returns the head of the remaining elements and leaves their tail, it keeps the
pairs, and `last` points at what it returned. -/
structure NextStep (h₀ : Hash K V) (e : Nat) (h : Hash K V) (hi : HashIterator) (h' : Hash K V)
    (hi' : HashIterator) (r : Option (HashElement K V)) : Prop where
  inv : IterInv h₀ e h' hi'
  ret : r = (iterRem h₀ e hi).head?
  rem : iterRem h₀ e hi' = (iterRem h₀ e hi).tail
  entries : h'.entries = h.entries
  last : ∀ x, r = some x → ∃ b p, hi'.last = some (b, p) ∧ (h'.bucket b)[p]? = some x

section Iter

variable {h₀ h : Hash K V} {e : Nat} {hi : HashIterator}

/-- A table marked and freed has the invariant of `h₀` once no element is marked. -/
theorem IterTable.hashInv (ht : IterTable h₀ h none false) (hinv : HashInv h₀) : HashInv h := by
  have hkeys : ∀ j, ∀ x ∈ h.bucket j, ∃ x₀ ∈ h₀.bucket j, x.hashValue = x₀.hashValue ∧
      x.key = x₀.key := fun j x hx => by
    obtain ⟨x₀, hx₀, hhv, hk | hk⟩ := ht.sub j x hx
    · exact ⟨x₀, hx₀, hhv, hk⟩
    · simpa using (ht.marks j x hx hk).1
  have hhash : h.hashValue = h₀.hashValue := by
    funext k
    simp [Hash.hashValue, ht.hashFunction, ht.iv]
  refine ⟨?_, ?_, ?_, ?_, ?_, fun j x hx => ?_, ?_, ?_⟩
  · rw [ht.compareFunction]; exact hinv.equiv
  · rw [ht.compareFunction, hhash]; exact hinv.compat
  · rw [ht.nBuckets]; exact hinv.pow
  · rw [ht.mask, ht.nBuckets]; exact hinv.mask
  · rw [ht.length, ht.nBuckets]; exact hinv.length
  · obtain ⟨x₀, hx₀, hhv, hk⟩ := hkeys j x hx
    obtain ⟨k, hk₀, hhv₀, hidx⟩ := hinv.placed j x₀ hx₀
    refine ⟨k, hk.trans hk₀, hhv.trans (hhv₀.trans (by rw [hhash])), ?_⟩
    simpa [Hash.bucketIndex, ht.mask, hhv] using hidx
  · rw [ht.compareFunction]; exact hinv.distinct.sublist ht.entries
  · rw [ht.count, h.entries_length_of_keys fun j x hx => ?_]
    obtain ⟨x₀, hx₀, -, hk⟩ := hkeys j x hx
    obtain ⟨k, hk₀, -⟩ := hinv.placed j x₀ hx₀
    simp [hk, hk₀]

/-- `hash_iterator_unlock`: the marked elements of the locked bucket are freed, and none is left
anywhere; the pairs and the other buckets stay. -/
theorem IterTable.unlock (ht : IterTable h₀ h hi.bucket hi.bucketMarked)
    (hlen : ∀ c, hi.bucket = some c → c < h.buckets.length)
    (hfree : hi.bucket = none → hi.bucketMarked = false ∧ hi.last = none) :
    IterTable h₀ (hashIteratorUnlock h hi).1 none false ∧
      (hashIteratorUnlock h hi).1.entries = h.entries ∧
      (∀ j, hi.bucket ≠ some j → (hashIteratorUnlock h hi).1.bucket j = h.bucket j) ∧
      (hashIteratorUnlock h hi).2 = { hi with bucket := none, last := none, bucketMarked := false } := by
  cases hb : hi.bucket with
  | none =>
      obtain ⟨hm, hl⟩ := hfree hb
      have hunlock : hashIteratorUnlock h hi = (h, hi) := by simp [hashIteratorUnlock, hb]
      rw [hunlock]
      refine ⟨{ ht with marks := fun j x hx hk => ?_ }, rfl, fun _ _ => rfl, ?_⟩
      · simpa [hb] using ht.marks j x hx hk
      · cases hi
        simp_all
  | some c =>
      have hc := hlen c hb
      cases hm : hi.bucketMarked with
      | false =>
          -- nothing was marked since the bucket was locked
          have hunlock : hashIteratorUnlock h hi = (h, { hi with bucket := none, last := none }) := by
            simp [hashIteratorUnlock, hb, hm]
          rw [hunlock]
          refine ⟨{ ht with marks := fun j x hx hk => ?_ }, rfl, fun _ _ => rfl, by simp [hm]⟩
          simpa [hb, hm] using ht.marks j x hx hk
      | true =>
          have hunlock : hashIteratorUnlock h hi = (hashRemoveMarked h c,
              { hi with bucket := none, last := none, bucketMarked := false }) := by
            simp [hashIteratorUnlock, hb, hm]
          rw [hunlock]
          have hfst := hashRemoveMarkedLoop_fst (h.bucket c)
          have hlen' := hashRemoveMarkedLoop_length (h.bucket c)
          have htotal := h.total_setBucket hc (hashRemoveMarkedLoop (h.bucket c)).1
          have hent : (h.setBucket c (hashRemoveMarkedLoop (h.bucket c)).1).entries = h.entries :=
            h.entries_setBucket_of_eq c (by rw [hfst, bucketEntries_filter_key])
          refine ⟨⟨ht.nBuckets, ht.mask, ht.iv, ht.hashFunction, ht.compareFunction,
            by simpa [hashRemoveMarked, Hash.setBucket] using ht.length, fun j x hx => ?_,
            hent ▸ ht.entries, ?_, fun j x hx hk => ?_⟩, hent, fun j hj => ?_, rfl⟩
          · change x ∈ (h.setBucket c _).bucket j at hx
            rw [h.bucket_setBucket hc] at hx
            split_ifs at hx with hjc
            · subst hjc
              rw [hfst] at hx
              exact ht.sub _ x (List.mem_of_mem_filter hx)
            · exact ht.sub j x hx
          · change h.nElements - _ = ((h.setBucket c _).total : Int)
            rw [ht.count]
            omega
          · change x ∈ (h.setBucket c _).bucket j at hx
            rw [h.bucket_setBucket hc] at hx
            split_ifs at hx with hjc
            · rw [hfst] at hx
              have hkey := (List.mem_filter.mp hx).2
              simp [hk] at hkey
            · have := (ht.marks j x hx hk).1
              rw [hb] at this
              exact absurd (Option.some.inj this) (Ne.symm hjc)
          · change (h.setBucket c _).bucket j = _
            rw [h.bucket_setBucket hc, if_neg (by rintro rfl; exact hj rfl)]

/-- A table with the invariant is the table of an iteration's start, nothing marked. -/
theorem HashInv.iterTable (hinv : HashInv h₀) : IterTable h₀ h₀ none false where
  nBuckets := rfl
  mask := rfl
  iv := rfl
  hashFunction := rfl
  compareFunction := rfl
  length := rfl
  sub j x hx := ⟨x, hx, rfl, .inl rfl⟩
  entries := List.Sublist.refl _
  count := by
    rw [hinv.count, h₀.entries_length_of_keys fun j x hx => ?_]
    obtain ⟨k, hk, -⟩ := hinv.placed j x hx
    simp [hk]
  marks j x hx hk := by
    obtain ⟨k, hk', -⟩ := hinv.placed j x hx
    simp [hk] at hk'

/-- The iterator `hash_iterator_init_range` builds over `s` up to `E`: nothing is returned yet and
the buckets of the range are to come. -/
theorem HashInv.iterInv_init (hinv : HashInv h₀) {s : Int} {E : Nat} (hs : 0 ≤ s)
    (hE : E ≤ h₀.buckets.length) :
    IterInv h₀ E h₀ ⟨s - 1, none, none, none, false, s, E⟩ ∧
      iterRem h₀ E ⟨s - 1, none, none, none, false, s, E⟩ = rangeBuckets h₀ s.toNat E := by
  refine ⟨⟨hinv.iterTable, rfl, hE, by dsimp only; omega, fun c hc => by simp at hc, fun _ => rfl,
    fun b p hbp => by simp at hbp, fun b p hbp => by simp at hbp, fun j _ => rfl⟩, ?_⟩
  simp [iterRem]

/-- Past the end of the range `hash_iterator_next` returns `NULL` and has nothing left. -/
theorem IterInv.past_end (hinv : IterInv h₀ e h hi) (hel : hi.elem = none)
    (hle : (e : Int) ≤ hi.bucketIndex + 1) :
    NextStep h₀ e h hi h { hi with bucketIndex := hi.bucketIndex + 1 } none := by
  have hrem : iterRem h₀ e hi = [] := by
    simp [iterRem, hel, rangeBuckets_of_le h₀ (show e ≤ (hi.bucketIndex + 1).toNat by omega)]
  refine ⟨⟨hinv.toIterTable, hinv.endEq, hinv.e_le, by dsimp only; have := hinv.index; omega,
    fun c hc => ?_, hinv.unlocked, fun b p hbp => by simp [hel] at hbp, fun b p hbp => ?_,
    fun j hj => hinv.untouched j (by dsimp only at hj; omega)⟩, by rw [hrem]; rfl, ?_, rfl,
    fun x hx => by simp at hx⟩
  · obtain ⟨hce, hci, -⟩ := hinv.locked c hc
    exact ⟨hce, by dsimp only; omega, .inr (by dsimp only; omega)⟩
  · obtain ⟨hb, hp, hel' | hel'⟩ := hinv.last b p hbp
    · simp [hel] at hel'
    · exact ⟨hb, hp, .inr hel'⟩
  · rw [hrem]
    simp [iterRem, hel, rangeBuckets_of_le h₀ (show e ≤ (hi.bucketIndex + 1 + 1).toNat by omega)]

/-- `hash_iterator_next` with an element to come in the locked bucket returns it. -/
theorem IterInv.next_elem (hinv : IterInv h₀ e h hi) {b p : Nat} (hel : hi.elem = some (b, p)) :
    NextStep h₀ e h hi h (hashIteratorAdvance h hi) (h.bucket b)[p]? := by
  obtain ⟨hb, hidx, hp, hdrop⟩ := hinv.elem b p hel
  have hlen : (h.bucket b).length = (h₀.bucket b).length := by
    have := congrArg List.length hdrop
    simp only [List.length_drop] at this
    omega
  have hget : (h.bucket b)[p]? = (h₀.bucket b)[p]? := by
    have := congrArg (·[0]?) hdrop
    simpa only [List.getElem?_drop, Nat.add_zero] using this
  have hcons : (h₀.bucket b).drop p = (h₀.bucket b)[p] :: (h₀.bucket b).drop (p + 1) :=
    List.drop_eq_getElem_cons (by omega)
  have hadv : hashIteratorAdvance h hi =
      { hi with
        last := some (b, p)
        elem := if p + 1 < (h.bucket b).length then some (b, p + 1) else none } := by
    simp only [hashIteratorAdvance, hel]
  have hrem : iterRem h₀ e hi = (h₀.bucket b)[p] :: ((h₀.bucket b).drop (p + 1) ++
      rangeBuckets h₀ (hi.bucketIndex + 1).toNat e) := by
    simp only [iterRem, hel]
    rw [hcons]
    rfl
  rw [hadv]
  refine ⟨{ hinv with elem := fun b' p' hbp => ?_, last := fun b' p' hbp => ?_ }, ?_, ?_, rfl,
    fun x hx => ⟨b, p, rfl, hx⟩⟩
  · -- the next position of the locked bucket, if any
    split_ifs at hbp with hnext
    · simp only [Option.some.injEq, Prod.mk.injEq] at hbp
      obtain ⟨rfl, rfl⟩ := hbp
      refine ⟨hb, hidx, hnext, ?_⟩
      rw [← List.drop_drop, hdrop, List.drop_drop]
  · simp only [Option.some.injEq, Prod.mk.injEq] at hbp
    obtain ⟨rfl, rfl⟩ := hbp
    refine ⟨hb, hp, ?_⟩
    split_ifs with hnext
    · exact .inl rfl
    · exact .inr ⟨rfl, by omega⟩
  · rw [hrem, hget, List.getElem?_eq_getElem (by omega)]
    rfl
  · rw [hrem]
    split_ifs with hnext
    · simp [iterRem]
    · simp [iterRem, List.drop_eq_nil_of_le (show (h₀.bucket b).length ≤ p + 1 by omega)]

theorem IterInv.locked_lt_length (hinv : IterInv h₀ e h hi) (c : Nat) (hc : hi.bucket = some c) :
    c < h.buckets.length := by
  have := (hinv.locked c hc).1
  have := hinv.e_le
  rw [hinv.length]
  omega

theorem IterInv.unlocked_last (hinv : IterInv h₀ e h hi) (hb : hi.bucket = none) :
    hi.bucketMarked = false ∧ hi.last = none := by
  refine ⟨hinv.unlocked hb, ?_⟩
  cases hl : hi.last with
  | none => rfl
  | some bp => simp [(hinv.last bp.1 bp.2 hl).1] at hb

/-- Leaving the bucket at the index for the next one frees its marked elements; the bucket entered
is as in `h₀`. -/
theorem IterInv.unlock_next (hinv : IterInv h₀ e h hi) (hel : hi.elem = none) {h' : Hash K V}
    {hi' : HashIterator}
    (hu : hashIteratorUnlock h { hi with bucketIndex := hi.bucketIndex + 1 } = (h', hi')) :
    IterInv h₀ e h' hi' ∧
      hi' = { hi with
        bucketIndex := hi.bucketIndex + 1, bucket := none, last := none, bucketMarked := false } ∧
      h'.entries = h.entries ∧
      h'.bucket (hi.bucketIndex + 1).toNat = h₀.bucket (hi.bucketIndex + 1).toNat := by
  have ht₀ : IterTable h₀ h ({ hi with bucketIndex := hi.bucketIndex + 1 } : HashIterator).bucket
      ({ hi with bucketIndex := hi.bucketIndex + 1 } : HashIterator).bucketMarked :=
    hinv.toIterTable
  obtain ⟨ht, hent, hoth, hhi⟩ := ht₀.unlock hinv.locked_lt_length hinv.unlocked_last
  rw [hu] at ht hent hoth hhi
  dsimp only at ht hent hoth hhi
  subst hhi
  -- the bucket just left lies at or before the index
  have hother : ∀ j : Nat, hi.bucketIndex < j → h'.bucket j = h.bucket j := fun j hj =>
    hoth j fun hc => by
      have := (hinv.locked j hc).2.1
      omega
  have := hinv.index
  refine ⟨⟨ht, hinv.endEq, hinv.e_le, by dsimp only; omega, fun c hc => by simp at hc,
    fun _ => rfl, fun b p hbp => by simp [hel] at hbp, fun b p hbp => by simp at hbp,
    fun j hj => ?_⟩, rfl, hent, ?_⟩
  · dsimp only at hj
    rw [hother j (by omega), hinv.untouched j (by omega)]
  · rw [hother _ (by omega), hinv.untouched _ (by omega)]

/-- Locking the bucket `b` at the index, whose first element is `x`: it is returned, the rest of
the bucket follows. -/
theorem IterInv.lock_first (hinv : IterInv h₀ e h hi) (hb : hi.bucket = none) {b : Nat}
    (hbi : hi.bucketIndex = b) (hlt : b < e) (hb₀ : h.bucket b = h₀.bucket b)
    {x : HashElement K V} {t : List (HashElement K V)} (hbk : h.bucket b = x :: t) :
    IterInv h₀ e h (hashIteratorAdvance h { hi.lock b with elem := some (b, 0) }) ∧
      iterRem h₀ e (hashIteratorAdvance h { hi.lock b with elem := some (b, 0) }) =
        t ++ rangeBuckets h₀ (b + 1) e := by
  have hm := hinv.unlocked hb
  have hadv : hashIteratorAdvance h { hi.lock b with elem := some (b, 0) } =
      { hi with
        bucket := some b, last := some (b, 0), bucketMarked := false
        elem := if 0 + 1 < t.length + 1 then some (b, 0 + 1) else none } := by
    simp only [hashIteratorAdvance, HashIterator.lock, hbk, List.length_cons]
  have ht : IterTable h₀ h (some b) false :=
    { hinv.toIterTable with
      marks := fun j y hy hk => by simpa [hb, hm] using hinv.marks j y hy hk }
  rw [hadv]
  refine ⟨⟨ht, hinv.endEq, hinv.e_le, hinv.index, fun c hc => ?_, fun hc => by simp at hc,
    fun b' p hbp => ?_, fun b' p hbp => ?_, hinv.untouched⟩, ?_⟩
  · simp only [Option.some.injEq] at hc
    subst hc
    dsimp only
    exact ⟨hlt, by omega, .inl hbi⟩
  · dsimp only at hbp
    split_ifs at hbp with hnext
    · simp only [Option.some.injEq, Prod.mk.injEq] at hbp
      obtain ⟨rfl, rfl⟩ := hbp
      exact ⟨rfl, hbi, by rwa [hbk], by rw [hb₀]⟩
  · simp only [Option.some.injEq, Prod.mk.injEq] at hbp
    obtain ⟨rfl, rfl⟩ := hbp
    refine ⟨rfl, by simp [hbk], ?_⟩
    dsimp only
    split_ifs with hnext
    · exact .inl rfl
    · exact .inr ⟨rfl, by simp only [hbk, List.length_cons]; omega⟩
  · have hidx : (hi.bucketIndex + 1).toNat = b + 1 := by omega
    simp only [iterRem, hidx]
    split_ifs with hnext
    · simp [← hb₀, hbk]
    · simp [show t = [] by simpa using hnext]

/-- A step from a state with the same elements to come and the same pairs. -/
theorem NextStep.of_rem_eq {h₁ h' : Hash K V} {hi₁ hi' : HashIterator}
    {r : Option (HashElement K V)} (hs : NextStep h₀ e h₁ hi₁ h' hi' r)
    (hrem : iterRem h₀ e hi = iterRem h₀ e hi₁) (hent : h₁.entries = h.entries) :
    NextStep h₀ e h hi h' hi' r :=
  ⟨hs.inv, hrem ▸ hs.ret, hrem ▸ hs.rem, hs.entries.trans hent, hs.last⟩

/-- Between buckets the elements to come are those of the next bucket and of the buckets after. -/
theorem IterInv.iterRem_of_elem_none (hinv : IterInv h₀ e h hi) (hel : hi.elem = none)
    (hlt : hi.bucketIndex + 1 < e) :
    iterRem h₀ e hi = h₀.bucket (hi.bucketIndex + 1).toNat ++
      rangeBuckets h₀ (hi.bucketIndex + 1 + 1).toNat e := by
  have := hinv.index
  rw [iterRem, hel, rangeBuckets_of_lt h₀ (by omega), show (hi.bucketIndex + 1 + 1).toNat =
    (hi.bucketIndex + 1).toNat + 1 by omega]
  rfl

/-- The loop of `hash_iterator_next` over the buckets, by induction on the turns left: each turn
leaves a bucket, and an empty one is passed over. -/
theorem IterInv.nextLoop : ∀ (n : Nat) {h : Hash K V} {hi : HashIterator}, IterInv h₀ e h hi →
    hi.elem = none → n = ((e : Int) - hi.bucketIndex).toNat →
    NextStep h₀ e h hi (hashIteratorNextLoop h hi n).1 (hashIteratorNextLoop h hi n).2.1
      (hashIteratorNextLoop h hi n).2.2
  | 0, h, hi, hinv, hel, hn => hinv.past_end hel (by omega)
  | n + 1, h, hi, hinv, hel, hn => by
      have hidx := hinv.index
      simp only [hashIteratorNextLoop]
      split_ifs with hlt
      · change hi.bucketIndex + 1 < hi.bucketIndexEnd at hlt
        rw [hinv.endEq] at hlt
        have hrem := hinv.iterRem_of_elem_none hel hlt
        rcases hu : hashIteratorUnlock h { hi with bucketIndex := hi.bucketIndex + 1 } with ⟨h', hi'⟩
        obtain ⟨hinv', rfl, hent, hb₀⟩ := hinv.unlock_next hel hu
        cases hbk : h'.bucket (hi.bucketIndex + 1).toNat with
        | nil =>
            -- an empty bucket: on to the next
            refine (IterInv.nextLoop n hinv' hel (by dsimp only; omega)).of_rem_eq ?_ hent
            rw [hrem, ← hb₀, hbk]
            simp [iterRem, hel]
        | cons x t =>
            obtain ⟨hinv'', hrem''⟩ := hinv'.lock_first rfl (b := (hi.bucketIndex + 1).toNat)
              (by dsimp only; omega) (by omega) hb₀ hbk
            refine ⟨hinv'', ?_, ?_, hent, fun y hy => ⟨(hi.bucketIndex + 1).toNat, 0, ?_, ?_⟩⟩
            · rw [hrem, ← hb₀, hbk]
              rfl
            · rw [hrem'', hrem, ← hb₀, hbk, show (hi.bucketIndex + 1 + 1).toNat =
                (hi.bucketIndex + 1).toNat + 1 by omega]
              rfl
            · simp [hashIteratorAdvance, HashIterator.lock]
            · simp only [Option.some.injEq] at hy
              simp [hbk, hy]
      · change ¬hi.bucketIndex + 1 < hi.bucketIndexEnd at hlt
        rw [hinv.endEq] at hlt
        exact hinv.past_end hel (by omega)

/-- `hash_iterator_next` returns the next element to come and leaves the rest. -/
theorem IterInv.next (hinv : IterInv h₀ e h hi) :
    NextStep h₀ e h hi (hashIteratorNext h hi).1 (hashIteratorNext h hi).2.1
      (hashIteratorNext h hi).2.2 := by
  cases hel : hi.elem with
  | none =>
      simp only [hashIteratorNext, hel]
      exact hinv.nextLoop _ hel (by rw [hinv.endEq])
  | some bp =>
      obtain ⟨b, p⟩ := bp
      simp only [hashIteratorNext, hel]
      exact hinv.next_elem hel

/-- `hash_iterator_delete_element` after an element `x` was returned marks it: its pair leaves the
table, the other pairs and the elements to come stay. -/
theorem IterInv.delete (hinv : IterInv h₀ e h hi) {b p : Nat} (hl : hi.last = some (b, p))
    {x : HashElement K V} (hx : (h.bucket b)[p]? = some x) {k : K} (hk : x.key = some k) :
    hashIteratorDeleteElement h hi = some (h.markKey b p, { hi with bucketMarked := true }) ∧
      IterInv h₀ e (h.markKey b p) { hi with bucketMarked := true } ∧
      h.entries.Perm ((k, x.value) :: (h.markKey b p).entries) := by
  obtain ⟨hb, hp, hnext⟩ := hinv.last b p hl
  have hblt := hinv.locked_lt_length b hb
  have hbi := (hinv.locked b hb).2.1
  have hmark : h.markKey b p = h.setBucket b ((h.bucket b).modify p HashElement.mark) := rfl
  have hbucket : ∀ j, (h.markKey b p).bucket j =
      if j = b then (h.bucket b).modify p HashElement.mark else h.bucket j := fun j => by
    rw [hmark, h.bucket_setBucket hblt]
  have ht : IterTable h₀ (h.markKey b p) (some b) true := by
    refine ⟨hinv.nBuckets, hinv.mask, hinv.iv, hinv.hashFunction, hinv.compareFunction,
      by simpa [hmark] using hinv.length, fun j y hy => ?_, ?_, ?_, fun j y hy hky => ?_⟩
    · rw [hbucket] at hy
      split_ifs at hy with hj
      · subst hj
        rcases mem_modify_mark hy with hy | ⟨x', hx', rfl⟩
        · exact hinv.sub _ y hy
        · obtain ⟨x₀, hx₀, hv, -⟩ := hinv.sub _ x' hx'
          exact ⟨x₀, hx₀, hv, .inr rfl⟩
      · exact hinv.sub j y hy
    · rw [hmark]
      exact (h.entries_setBucket_sublist b (bucketEntries_modify_mark_sublist _ p)).trans
        hinv.entries
    · have htotal := h.total_setBucket hblt ((h.bucket b).modify p HashElement.mark)
      rw [List.length_modify, ← hmark] at htotal
      change h.nElements = ((h.markKey b p).total : Int)
      rw [hinv.count]
      omega
    · rw [hbucket] at hy
      split_ifs at hy with hj
      · exact ⟨congrArg some hj.symm, rfl⟩
      · have := (hinv.marks j y hy hky).1
        rw [hb] at this
        exact absurd (Option.some.inj this).symm hj
  have hlen : ((h.markKey b p).bucket b).length = (h.bucket b).length := by
    rw [hbucket, if_pos rfl, List.length_modify]
  refine ⟨by simp [hashIteratorDeleteElement, hl], ⟨hb ▸ ht, hinv.endEq, hinv.e_le, hinv.index,
    hinv.locked, fun hc => by simp [hb] at hc, fun b' p' hbp => ?_, fun b' p' hbp => ?_,
    fun j hj => ?_⟩, ?_⟩
  · -- the element to come is the one after the marked one
    change hi.elem = some (b', p') at hbp
    obtain ⟨hb', hidx, hp', hdrop⟩ := hinv.elem b' p' hbp
    obtain rfl : b' = b := Option.some.inj (hb'.symm.trans hb)
    obtain rfl : p' = p + 1 := by
      rcases hnext with hnext | ⟨hnext, -⟩
      · rw [hbp] at hnext
        simp only [Option.some.injEq, Prod.mk.injEq] at hnext
        exact hnext.2
      · simp [hbp] at hnext
    refine ⟨hb, hidx, by rw [hlen]; exact hp', ?_⟩
    rw [hbucket, if_pos rfl, drop_modify_mark, hdrop]
  · obtain ⟨hb', hp', hn'⟩ := hinv.last b' p' hbp
    obtain ⟨rfl, rfl⟩ : b' = b ∧ p' = p := by simpa [hl] using hbp.symm
    exact ⟨hb', by omega, by rwa [hlen]⟩
  · have hjb : j ≠ b := by
      rintro rfl
      dsimp only at hj
      omega
    rw [hbucket, if_neg hjb]
    exact hinv.untouched j hj
  · have h1 := h.entries_perm_bucket hblt
    have h2 := h.entries_setBucket_perm hblt ((h.bucket b).modify p HashElement.mark)
    rw [← hmark] at h2
    exact h1.trans (((bucketEntries_modify_mark _ p hx hk).append_right _).trans (h2.symm.cons _))

/-- `hash_iterator_free` frees the marked elements: a table with none marked and the pairs of the
iteration. -/
theorem IterInv.free (hinv : IterInv h₀ e h hi) :
    IterTable h₀ (hashIteratorFree h hi).1 none false ∧
      (hashIteratorFree h hi).1.entries = h.entries := by
  obtain ⟨ht, hent, -, -⟩ :=
    IterTable.unlock hinv.toIterTable hinv.locked_lt_length hinv.unlocked_last
  exact ⟨ht, hent⟩

/-- Two tables of one iteration with the same pairs stand for the same map. -/
theorem IterTable.find_eq {h' : Hash K V} {l l' : Option Nat} {m m' : Bool}
    (ht : IterTable h₀ h l m) (ht' : IterTable h₀ h' l' m') (hent : h'.entries = h.entries) :
    h'.find = h.find := by
  rw [Hash.find, Hash.find, hent, ht.compareFunction, ht'.compareFunction]

end Iter

end OpenVpn
