import OpenVpn.HashIter

/-! The hash table over whole runs. A run from `hash_init` is any sequence of `hash_add`,
`hash_remove`, `hash_lookup`, `hash_remove_by_value` and iterations. An iteration (`hashIterate`)
is the loop a caller of the iterator interface writes: `hash_iterator_init` or
`hash_iterator_init_range`, one `hash_iterator_next` per decision, `hash_iterator_delete_element`
after a call that returned an element when the decision says so, then `hash_iterator_free`; no
other table call runs while it is open. Its meaning is a list iterator (`listIterate`) over the
elements of the buckets of the range. Each operation refines a step of the finite map the table
stands for (`MapStep`), and after each one the representation invariant holds and `n_elements` is
the size of the map. -/

namespace OpenVpn

open AssocMap

variable {K V : Type}

/-! ### The iteration as a list iterator -/

/-- A list iterator run under the decisions `ds`: each call returns the head of what is left, and
the decision `true` deletes what the call returned. The results of the calls, and the elements
deleted. -/
def listIterate {α : Type} : List α → List Bool → List (Option α) × List α
  | _, [] => ([], [])
  | l, d :: ds =>
      let r := listIterate l.tail ds
      (l.head? :: r.1, if d then l.head?.toList ++ r.2 else r.2)

/-! ### Iterations and `hash_remove_by_value` -/

/-- The calls of an iteration after its start: one `hash_iterator_next` per decision, then
`hash_iterator_delete_element` when the decision is `true` and an element was returned; the
results of the calls. -/
def hashIterateLoop (h : Hash K V) (hi : HashIterator) :
    List Bool → Option (Hash K V × HashIterator × List (Option (HashElement K V)))
  | [] => some (h, hi, [])
  | d :: ds =>
      let n := hashIteratorNext h hi
      let del := if d && n.2.2.isSome then hashIteratorDeleteElement n.1 n.2.1 else some (n.1, n.2.1)
      del.bind fun s => (hashIterateLoop s.1 s.2 ds).map fun t => (t.1, t.2.1, n.2.2 :: t.2.2)

/-- An iteration over the buckets of `range`, or of the whole table, under the decisions `ds`. -/
def hashIterate (h : Hash K V) (range : Option (Int × Int)) (ds : List Bool) :
    Option (Hash K V × List (Option (HashElement K V))) := do
  let hi ← match range with
    | some (s, e) => hashIteratorInitRange h s e
    | none => hashIteratorInit h
  let (h, hi, rs) ← hashIterateLoop h hi ds
  pure ((hashIteratorFree h hi).1, rs)

section Loops

variable {h₀ h : Hash K V} {e : Nat} {hi : HashIterator}

/-- The elements still to come are elements of the table of the start. -/
theorem mem_iterRem {x : HashElement K V} (hx : x ∈ iterRem h₀ e hi) : ∃ j, x ∈ h₀.bucket j := by
  simp only [iterRem, List.mem_append] at hx
  rcases hx with hx | hx
  · split at hx
    · exact ⟨_, List.mem_of_mem_drop hx⟩
    · simp at hx
  · obtain ⟨j, -, hj⟩ := List.mem_flatMap.mp hx
    exact ⟨j, hj⟩

/-- A call of `hash_iterator_next` keeps the map. -/
theorem NextStep.find_eq {h₁ : Hash K V} {hi₁ : HashIterator} {r : Option (HashElement K V)}
    (hinv : IterInv h₀ e h hi) (hs : NextStep h₀ e h hi h₁ hi₁ r) : h₁.find = h.find :=
  hinv.toIterTable.find_eq hs.inv.toIterTable hs.entries

/-- Deleting the element a call of `hash_iterator_next` returned erases its key from the map. -/
theorem NextStep.delete (hinv₀ : HashInv h₀) {h₁ : Hash K V} {hi₁ : HashIterator}
    {x : HashElement K V} (hs : NextStep h₀ e h hi h₁ hi₁ (some x)) :
    ∃ k h₂ hi₂, x.key = some k ∧ hashIteratorDeleteElement h₁ hi₁ = some (h₂, hi₂) ∧
      IterInv h₀ e h₂ hi₂ ∧ iterRem h₀ e hi₂ = iterRem h₀ e hi₁ ∧
      h₂.find = erase h₀.compareFunction h₁.find k := by
  obtain ⟨b, p, hl, hx⟩ := hs.last x rfl
  obtain ⟨j, hj⟩ := mem_iterRem (List.mem_of_mem_head? hs.ret.symm)
  obtain ⟨k, hk, -⟩ := hinv₀.placed j x hj
  obtain ⟨hdel, hinv₂, hperm⟩ := hs.inv.delete hl hx hk
  refine ⟨k, _, _, hk, hdel, hinv₂, rfl, ?_⟩
  -- the pairs after the mark are those before it less the pair of `x`
  have hdist : Distinct h₀.compareFunction h₁.entries := hinv₀.distinct.sublist hs.inv.entries
  rw [Hash.find, Hash.find, hinv₂.compareFunction, hs.inv.compareFunction]
  exact find_perm_cons_eq_erase hinv₀.equiv hdist hperm

/-- The calls of an iteration, by induction on the decisions: they return what the list iterator
over the elements to come returns, and the map loses the keys of the elements deleted. -/
theorem IterInv.iterateLoop (hinv₀ : HashInv h₀) :
    ∀ (ds : List Bool) {h : Hash K V} {hi : HashIterator}, IterInv h₀ e h hi →
      ∃ h' hi', hashIterateLoop h hi ds = some (h', hi', (listIterate (iterRem h₀ e hi) ds).1) ∧
        IterInv h₀ e h' hi' ∧
        h'.find = eraseList h₀.compareFunction h.find
          ((listIterate (iterRem h₀ e hi) ds).2.filterMap HashElement.key)
  | [], h, hi, hinv => ⟨h, hi, rfl, hinv, rfl⟩
  | d :: ds, h, hi, hinv => by
      have hs := hinv.next
      rcases hn : hashIteratorNext h hi with ⟨h₁, hi₁, r⟩
      rw [hn] at hs
      have hfind₁ := hs.find_eq hinv
      simp only [hashIterateLoop, hn]
      by_cases hdr : (d && r.isSome) = true
      · -- the element returned is deleted
        obtain ⟨rfl, x, rfl⟩ : d = true ∧ ∃ x, r = some x := by
          simpa only [Bool.and_eq_true, Option.isSome_iff_exists] using hdr
        obtain ⟨k, h₂, hi₂, hk, hdel, hinv₂, hrem₂, hfind₂⟩ := hs.delete hinv₀
        obtain ⟨h', hi', hloop, hinv', hfind'⟩ := IterInv.iterateLoop hinv₀ ds hinv₂
        rw [hrem₂, hs.rem] at hloop hfind'
        refine ⟨h', hi', ?_, hinv', ?_⟩
        · simp [hdel, hloop, listIterate, ← hs.ret]
        · rw [hfind', hfind₂, hfind₁]
          simp [listIterate, ← hs.ret, hk]
      · obtain ⟨h', hi', hloop, hinv', hfind'⟩ := IterInv.iterateLoop hinv₀ ds hs.inv
        rw [hs.rem] at hloop hfind'
        have hdel : (if d then r.toList ++ (listIterate (iterRem h₀ e hi).tail ds).2
            else (listIterate (iterRem h₀ e hi).tail ds).2) =
            (listIterate (iterRem h₀ e hi).tail ds).2 := by
          cases d <;> cases r <;> simp_all
        refine ⟨h', hi', ?_, hinv', ?_⟩
        · simp [hdr, hloop, listIterate, ← hs.ret]
        · rw [hfind', hfind₁]
          simp only [listIterate, ← hs.ret, hdel]

/-- `hash_iterator_init_range(s, e)` and the clamp of `e` to `n_buckets`. -/
theorem hashIteratorInitRange_eq {s e : Int} (hs : 0 ≤ s) (hse : s ≤ min e h.nBuckets) :
    hashIteratorInitRange h s e =
      some ⟨s - 1, none, none, none, false, s, min e h.nBuckets⟩ := by
  have hclamp : (if e > h.nBuckets then h.nBuckets else e) = min e h.nBuckets := by
    split_ifs <;> omega
  simp only [hashIteratorInitRange, hclamp]
  rw [if_pos ⟨hs, hse⟩]

/-- An iteration over the buckets from `s` up to `min e n_buckets`: its calls return the elements
of those buckets one by one, and it leaves a table with the invariant whose map has lost the keys
of the elements deleted. -/
theorem HashInv.iterate (hinv : HashInv h) {s e : Int} (hs : 0 ≤ s) (hse : s ≤ min e h.nBuckets)
    (ds : List Bool) :
    ∃ h', hashIterate h (some (s, e)) ds =
        some (h', (listIterate (rangeBuckets h s.toNat (min e h.nBuckets).toNat) ds).1) ∧
      HashInv h' ∧ h'.nBuckets = h.nBuckets ∧ h'.compareFunction = h.compareFunction ∧
      h'.find = eraseList h.compareFunction h.find
        ((listIterate (rangeBuckets h s.toNat (min e h.nBuckets).toNat) ds).2.filterMap
          HashElement.key) := by
  have hE : ((min e h.nBuckets).toNat : Int) = min e h.nBuckets := by omega
  have hlen : (min e h.nBuckets).toNat ≤ h.buckets.length := by
    rw [hinv.length]
    omega
  obtain ⟨hinit, hrem⟩ := hinv.iterInv_init (E := (min e h.nBuckets).toNat) hs hlen
  rw [hE] at hinit hrem
  obtain ⟨h', hi', hloop, hinv', hfind'⟩ := hinit.iterateLoop hinv ds
  obtain ⟨ht, hent⟩ := hinv'.free
  rw [hrem] at hloop hfind'
  refine ⟨(hashIteratorFree h' hi').1, ?_, ht.hashInv hinv, ht.nBuckets, ht.compareFunction, ?_⟩
  · simp [hashIterate, hashIteratorInitRange_eq hs hse, hloop]
  · rw [hinv'.toIterTable.find_eq ht hent, hfind']

/-- The loop of `hash_remove_by_value`, by induction on its fuel, enough for every element to come
and the last call: the map loses the keys of the elements to come with the value. -/
theorem IterInv.removeByValueLoop [DecidableEq V] (hinv₀ : HashInv h₀) (v : V) :
    ∀ (fuel : Nat) {h : Hash K V} {hi : HashIterator}, IterInv h₀ e h hi →
      (iterRem h₀ e hi).length < fuel →
      ∃ h' hi', hashRemoveByValueLoop v h hi fuel = some (h', hi') ∧ IterInv h₀ e h' hi' ∧
        h'.find = eraseList h₀.compareFunction h.find
          (((iterRem h₀ e hi).filter fun x => x.value = v).filterMap HashElement.key)
  | 0, _, _, _, hlt => absurd hlt (Nat.not_lt_zero _)
  | fuel + 1, h, hi, hinv, hlt => by
      have hs := hinv.next
      rcases hn : hashIteratorNext h hi with ⟨h₁, hi₁, r⟩
      rw [hn] at hs
      have hfind₁ := hs.find_eq hinv
      cases r with
      | none =>
          -- nothing is left: the loop ends
          have hnil : iterRem h₀ e hi = [] := List.head?_eq_none_iff.mp hs.ret.symm
          exact ⟨h₁, hi₁, by simp [hashRemoveByValueLoop, hn], hs.inv, by simp [hnil, hfind₁]⟩
      | some x =>
          have hcons : iterRem h₀ e hi = x :: iterRem h₀ e hi₁ := by
            rw [hs.rem]
            exact List.eq_cons_of_mem_head? hs.ret.symm
          have hlt₁ : (iterRem h₀ e hi₁).length < fuel := by
            rw [hcons, List.length_cons] at hlt
            omega
          by_cases hv : x.value = v
          · obtain ⟨k, h₂, hi₂, hk, hdel, hinv₂, hrem₂, hfind₂⟩ := hs.delete hinv₀
            obtain ⟨h', hi', hloop, hinv', hfind'⟩ :=
              IterInv.removeByValueLoop hinv₀ v fuel hinv₂ (hrem₂ ▸ hlt₁)
            refine ⟨h', hi', by simp [hashRemoveByValueLoop, hn, hv, hdel, hloop], hinv', ?_⟩
            rw [hfind', hfind₂, hfind₁, hrem₂, hcons]
            simp [hv, hk]
          · obtain ⟨h', hi', hloop, hinv', hfind'⟩ :=
              IterInv.removeByValueLoop hinv₀ v fuel hs.inv hlt₁
            refine ⟨h', hi', by simp [hashRemoveByValueLoop, hn, hv, hloop], hinv', ?_⟩
            rw [hfind', hfind₁, hcons]
            simp [hv]

end Loops

/-! ### The buckets of a range -/

theorem mem_rangeBuckets (h : Hash K V) (a e : Nat) (x : HashElement K V) :
    x ∈ rangeBuckets h a e ↔ ∃ j, a ≤ j ∧ j < e ∧ x ∈ h.bucket j := by
  simp only [rangeBuckets, List.mem_flatMap, List.mem_range'_1]
  constructor
  · rintro ⟨j, ⟨hj₁, hj₂⟩, hx⟩
    exact ⟨j, hj₁, by omega, hx⟩
  · rintro ⟨j, hj₁, hj₂, hx⟩
    exact ⟨j, ⟨hj₁, by omega⟩, hx⟩

/-- The buckets of the whole table are its lists, in order. -/
theorem rangeBuckets_all (h : Hash K V) : rangeBuckets h 0 h.buckets.length = h.buckets.flatten := by
  rw [rangeBuckets, Nat.sub_zero, ← List.range_eq_range', List.flatMap_def]
  congr 1
  apply List.ext_getElem (by simp)
  intro j hj _
  simp [Hash.bucket, List.getD_eq_getElem?_getD, List.getElem?_eq_getElem (by simpa using hj)]

/-- The buckets of the whole table hold its pairs. -/
theorem bucketEntries_rangeBuckets_all (h : Hash K V) :
    bucketEntries (rangeBuckets h 0 h.buckets.length) = h.entries := by
  rw [rangeBuckets_all, bucketEntries, List.filterMap_flatten]
  rfl

/-- The pairs of the buckets of a range are some of the table's. -/
theorem bucketEntries_rangeBuckets_sublist (h : Hash K V) {a e : Nat} (hae : a ≤ e)
    (he : e ≤ h.buckets.length) :
    (bucketEntries (rangeBuckets h a e)).Sublist h.entries := by
  have hsplit : List.range' 0 h.buckets.length =
      List.range' 0 a ++ (List.range' a (e - a) ++ List.range' e (h.buckets.length - e)) := by
    have h₁ := List.range'_append_1 (s := a) (m := e - a) (n := h.buckets.length - e)
    have h₂ := List.range'_append_1 (s := 0) (m := a) (n := h.buckets.length - a)
    rw [show a + (e - a) = e by omega, show e - a + (h.buckets.length - e) =
      h.buckets.length - a by omega] at h₁
    rw [Nat.zero_add, show a + (h.buckets.length - a) = h.buckets.length by omega] at h₂
    rw [h₁, h₂]
  have hall : rangeBuckets h 0 h.buckets.length = rangeBuckets h 0 a ++
      (rangeBuckets h a e ++ rangeBuckets h e h.buckets.length) := by
    simp only [rangeBuckets, Nat.sub_zero, hsplit, List.flatMap_append]
  rw [← bucketEntries_rangeBuckets_all, hall]
  exact ((List.sublist_append_left _ _).trans (List.sublist_append_right _ _)).filterMap _

section Table

variable {h : Hash K V}

theorem length_rangeBuckets_all (h : Hash K V) :
    (rangeBuckets h 0 h.buckets.length).length = h.total := by
  rw [rangeBuckets_all, List.length_flatten, Hash.total]

/-- The keys of the elements with the value `v` are, up to equivalence, those the map sends to
`v`. -/
theorem HashInv.any_keys_of_value [DecidableEq V] (hinv : HashInv h) (v : V) (k : K) :
    ((((rangeBuckets h 0 h.buckets.length).filter fun x => x.value = v).filterMap
      HashElement.key).any (h.compareFunction k)) = true ↔ h.find k = some v := by
  rw [Hash.find, find_eq_some_iff hinv.equiv hinv.distinct]
  simp only [List.any_eq_true, List.mem_filterMap, List.mem_filter, mem_rangeBuckets,
    decide_eq_true_eq]
  constructor
  · rintro ⟨k', ⟨x, ⟨⟨j, -, -, hx⟩, hv⟩, hk⟩, hkk'⟩
    exact ⟨k', (h.mem_entries _).mpr ⟨j, x, hx, by simp [HashElement.entry, hk, hv]⟩, hkk'⟩
  · rintro ⟨k', hmem, hkk'⟩
    obtain ⟨j, x, hx, hentry⟩ := (h.mem_entries _).mp hmem
    simp only [HashElement.entry, Option.map_eq_some_iff, Prod.mk.injEq] at hentry
    obtain ⟨k'', hk, rfl, hv⟩ := hentry
    -- a bucket with an element is a bucket of the table
    have hj : j < h.buckets.length := by
      by_contra hj
      simp only [Hash.bucket, List.getD_eq_getElem?_getD] at hx
      rw [List.getElem?_eq_none (by omega)] at hx
      simp at hx
    exact ⟨k'', ⟨x, ⟨⟨j, Nat.zero_le _, hj, hx⟩, hv⟩, hk⟩, hkk'⟩

/-- `hash_remove_by_value(v)`, with fuel for each element and the last call: the map loses every
key it sent to `v`. -/
theorem HashInv.removeByValue [DecidableEq V] (hinv : HashInv h) (v : V) {fuel : Nat}
    (hfuel : h.total < fuel) :
    ∃ h', hashRemoveByValue h v fuel = some h' ∧ HashInv h' ∧ h'.nBuckets = h.nBuckets ∧
      h'.compareFunction = h.compareFunction ∧
      h'.find = fun k => if h.find k = some v then none else h.find k := by
  have hpos : 0 < h.nBuckets := by
    obtain ⟨m, hm⟩ := hinv.pow
    rw [hm]
    exact pow_pos (by norm_num) m
  have hE : (h.buckets.length : Int) = h.nBuckets := by
    rw [hinv.length]
    omega
  have hinit : hashIteratorInit h = some ⟨0 - 1, none, none, none, false, 0, h.buckets.length⟩ := by
    rw [hashIteratorInit, hashIteratorInitRange_eq le_rfl (by omega), min_self, hE]
  obtain ⟨hinv₀, hrem⟩ := hinv.iterInv_init (s := 0) le_rfl le_rfl
  obtain ⟨h', hi', hloop, hinv', hfind'⟩ := hinv₀.removeByValueLoop hinv v fuel
    (by rw [hrem]; simpa [length_rangeBuckets_all] using hfuel)
  obtain ⟨ht, hent⟩ := hinv'.free
  refine ⟨(hashIteratorFree h' hi').1, ?_, ht.hashInv hinv,
    ht.nBuckets, ht.compareFunction, ?_⟩
  · simp only [hashRemoveByValue, hinit, Option.bind_eq_bind, Option.bind_some, hloop]
    rfl
  rw [hinv'.toIterTable.find_eq ht hent, hfind', hrem]
  funext k
  rw [eraseList_apply]
  simp only [Int.toNat_zero]
  rw [if_congr (hinv.any_keys_of_value v k) rfl rfl]

end Table

/-! ### `hash_init` -/

/-- The loop of `adjust_power_of_2` keeps `ret` a power of two, and below `2 u` once it doubled. -/
theorem adjustPowerOf2Loop_spec (u : Nat) :
    ∀ (fuel ret r : Nat), adjustPowerOf2Loop u ret fuel = some r → (∃ j, ret = 2 ^ j) →
      (ret = 1 ∨ ret < 2 * u) → (∃ m, r = 2 ^ m) ∧ (r = 1 ∨ r < 2 * u)
  | 0, _, _, hr, _, _ => by simp [adjustPowerOf2Loop] at hr
  | fuel + 1, ret, r, hr, ⟨j, hj⟩, hb => by
      simp only [adjustPowerOf2Loop] at hr
      split_ifs at hr with hlt hpos
      · -- the shift did not leave the 64 bits, so it doubled
        have hshift : ret <<< 1 = 2 ^ (j + 1) := by
          rw [Nat.shiftLeft_eq, hj, ← pow_add]
        have hj64 : j + 1 < 64 := by
          by_contra hj64
          rw [hshift, Nat.mod_eq_zero_of_dvd (Nat.pow_dvd_pow 2 (by omega))] at hpos
          exact absurd hpos (lt_irrefl 0)
        have hdouble : (ret <<< 1) % 2 ^ 64 = 2 ^ (j + 1) := by
          rw [hshift, Nat.mod_eq_of_lt (Nat.pow_lt_pow_right (by norm_num) hj64)]
        refine adjustPowerOf2Loop_spec u fuel _ r hr ⟨j + 1, hdouble⟩ (.inr ?_)
        rw [hdouble, pow_succ, ← hj]
        omega
      · cases hr
        exact ⟨⟨j, hj⟩, hb⟩

/-- A table of `2^m` empty buckets, for an equivalence that `hash_function` respects, has the
invariant and stands for the empty map. -/
theorem HashInv.empty {h : Hash K V} {m : Nat} (hn : h.nBuckets = 2 ^ m)
    (hmask : h.mask = h.nBuckets - 1) (hel : h.nElements = 0)
    (hb : h.buckets = List.replicate h.nBuckets.toNat [])
    (hequiv : Equivalence fun a b => h.compareFunction a b = true)
    (hcompat : ∀ a b, h.compareFunction a b = true → h.hashValue a = h.hashValue b) :
    HashInv h ∧ h.find = fun _ => none := by
  have hbucket : ∀ i, h.bucket i = [] := fun i => by
    simp only [Hash.bucket, hb, List.getD_eq_getElem?_getD, List.getElem?_replicate]
    split_ifs <;> rfl
  have hent : h.entries = [] := by
    simp [Hash.entries, hb]
  refine ⟨⟨hequiv, hcompat, ⟨m, hn⟩, hmask, by simp [hb], fun i he hhe => by simp [hbucket] at hhe,
    by simp [hent], by simp [hel, hent]⟩, ?_⟩
  funext k
  simp [Hash.find, hent]

/-- `hash_init` past its `ASSERT`, once `adjust_power_of_2` returned `r`: the table of `r` empty
buckets, when `ALLOC_ARRAY` succeeds. -/
theorem hashInit_eq {n : Int} (hn0 : 0 < n) {r : Nat} (hadj : adjustPowerOf2 n.toNat = some r)
    (iv : UInt32) (hf : K → UInt32 → UInt32) (cf : K → K → Bool) :
    (hashInit n iv hf cf : Option (Hash K V)) =
      (arrayMultSafe sizeofHashBucket ((toCInt r) % 2 ^ 64).toNat 0).bind fun _ =>
        some ⟨toCInt r, 0, toCInt (toCInt r - 1), iv, hf, cf, List.replicate (toCInt r).toNat []⟩ := by
  rw [hashInit, if_neg (by omega), hadj, Option.bind_eq_bind, Option.bind_some]
  rfl

/-- `hash_init(n, iv, hash_function, compare_function)` for an `int` `n`, when it returns: a
table with the invariant that stands for the empty map. -/
theorem hashInit_inv {n : Int} (hn : n < 2 ^ 31) {iv : UInt32} {hf : K → UInt32 → UInt32}
    {cf : K → K → Bool} (hequiv : Equivalence fun a b => cf a b = true)
    (hcompat : ∀ a b, cf a b = true → hf a iv = hf b iv) {h : Hash K V}
    (hinit : hashInit n iv hf cf = some h) :
    HashInv h ∧ h.compareFunction = cf ∧ h.find = fun _ => none := by
  by_cases hn0 : n ≤ 0
  · simp [hashInit, hn0] at hinit
  cases hadj : adjustPowerOf2 n.toNat with
  | none => simp [hashInit, hn0, hadj] at hinit
  | some r =>
      obtain ⟨⟨m, rfl⟩, hr⟩ := adjustPowerOf2Loop_spec n.toNat 64 1 _ hadj ⟨0, rfl⟩ (.inl rfl)
      rw [hashInit_eq (by omega) hadj] at hinit
      have hm32 : 2 ^ m < 2 ^ 32 := by omega
      rw [Nat.pow_lt_pow_iff_right (by norm_num)] at hm32
      cases hmul : arrayMultSafe sizeofHashBucket (toCInt ((2 ^ m : Nat) : Int) % 2 ^ 64).toNat 0 with
      | none =>
          rw [hmul, Option.bind_none] at hinit
          cases hinit
      | some a =>
          -- `2^31` turns negative as an `int`, and `ALLOC_ARRAY` fails on it
          have hm : m ≤ 30 := by
            by_contra hm
            obtain rfl : m = 31 := by omega
            have h31 : toCInt ((2 ^ 31 : Nat) : Int) = -2 ^ 31 := by
              simp only [toCInt, Int.bmod]
              norm_num
            have hbad : arrayMultSafe sizeofHashBucket ((-2 ^ 31 : Int) % 2 ^ 64).toNat 0 = none := by
              simp only [arrayMultSafe, sizeofHashBucket]
              norm_num
            rw [h31, hbad] at hmul
            cases hmul
          have hle : 2 ^ m ≤ 2 ^ 30 := Nat.pow_le_pow_right (by norm_num) hm
          have hpos : 0 < 2 ^ m := Nat.two_pow_pos m
          have hc : toCInt ((2 ^ m : Nat) : Int) = ((2 ^ m : Nat) : Int) := by
            simp only [toCInt, Int.bmod]
            omega
          have hc' : toCInt (((2 ^ m : Nat) : Int) - 1) = ((2 ^ m : Nat) : Int) - 1 := by
            simp only [toCInt, Int.bmod]
            omega
          rw [hmul, Option.bind_some, hc, hc'] at hinit
          cases hinit
          refine ⟨(HashInv.empty (m := m) ?_ rfl rfl rfl hequiv hcompat).1, rfl,
            (HashInv.empty (m := m) ?_ rfl rfl rfl hequiv hcompat).2⟩ <;>
          · push_cast
            rfl

/-! ### Runs -/

/-- The calls of a run on a table. -/
inductive HashOp (K V : Type)
  /-- `hash_add(hash, key, value, replace)` -/
  | add (key : K) (value : V) (replace : Bool)
  /-- `hash_remove(hash, key)` -/
  | remove (key : K)
  /-- `hash_lookup(hash, key)` -/
  | lookup (key : K)
  /-- `hash_remove_by_value(hash, value)` -/
  | removeByValue (value : V)
  /-- an iteration over the buckets of `range`, or of the whole table -/
  | iterate (range : Option (Int × Int)) (deletes : List Bool)

/-- What a call returns. -/
inductive HashResult (K V : Type)
  | added (ok : Bool)
  | removed (ok : Bool)
  | found (value : Option V)
  | removedByValue
  | iterated (elems : List (Option (HashElement K V)))

/-- The `ASSERT` of `hash_iterator_init_range` holds for a call on a table of `n` buckets. -/
def HashOp.rangeOk (n : Int) : HashOp K V → Bool
  | .iterate (some (s, e)) _ => decide (0 ≤ s ∧ s ≤ min e n)
  | _ => true

/-- One call on the table. The loop of `hash_remove_by_value` gets a turn for each element and
one for the last `hash_iterator_next`. -/
def hashStep [DecidableEq V] (h : Hash K V) : HashOp K V → Option (Hash K V × HashResult K V)
  | .add k v replace => some ((hashAdd h k v replace).1, .added (hashAdd h k v replace).2)
  | .remove k => some ((hashRemove h k).1, .removed (hashRemove h k).2)
  | .lookup k => some ((hashLookup h k).1, .found (hashLookup h k).2)
  | .removeByValue v => (hashRemoveByValue h v (h.total + 1)).map fun h => (h, .removedByValue)
  | .iterate range ds => (hashIterate h range ds).map fun r => (r.1, .iterated r.2)

/-- A run of calls, and what each returned. -/
def hashRun [DecidableEq V] (h : Hash K V) :
    List (HashOp K V) → Option (Hash K V × List (HashResult K V))
  | [] => some (h, [])
  | op :: ops => (hashStep h op).bind fun r => (hashRun r.1 ops).map fun s => (s.1, r.2 :: s.2)

/-- One call on the map `M` over the key classes of `r`, with what it returned, and the map after
it. An iteration returns the elements of a list `L` one call at a time (`listIterate`): the
elements of `L` are pairs of `M` with inequivalent keys, all of `M` for an iteration over the whole
table, and the map loses the keys of the elements deleted. -/
def MapStep [DecidableEq V] (r : K → K → Bool) (M : K → Option V) :
    HashOp K V → HashResult K V → (K → Option V) → Prop
  | .add k v replace, .added ok, M' =>
      ok = ((M k).isNone || replace) ∧ M' = if ok then update r M k v else M
  | .remove k, .removed ok, M' => ok = (M k).isSome ∧ M' = erase r M k
  | .lookup k, .found w, M' => w = M k ∧ M' = M
  | .removeByValue v, .removedByValue, M' => M' = fun k => if M k = some v then none else M k
  | .iterate range ds, .iterated rs, M' => ∃ L : List (HashElement K V),
      (∀ x ∈ L, ∃ k, x.key = some k ∧ M k = some x.value) ∧ Distinct r (bucketEntries L) ∧
      (range = none → find r (bucketEntries L) = M) ∧ rs = (listIterate L ds).1 ∧
      M' = eraseList r M ((listIterate L ds).2.filterMap HashElement.key)
  | _, _, _ => False

/-- A run of the map: each call a step of `MapStep` from the map the call before left. -/
inductive MapRun [DecidableEq V] (r : K → K → Bool) :
    (K → Option V) → List (HashOp K V) → List (HashResult K V) → (K → Option V) → Prop
  | nil (M : K → Option V) : MapRun r M [] [] M
  | cons {M M₁ M₂ : K → Option V} {op : HashOp K V} {res : HashResult K V}
      {ops : List (HashOp K V)} {rs : List (HashResult K V)} :
      MapStep r M op res M₁ → MapRun r M₁ ops rs M₂ → MapRun r M (op :: ops) (res :: rs) M₂

section Steps

variable {h : Hash K V}

/-- The elements of the buckets of a range are pairs of the map. -/
theorem HashInv.rangeBuckets_find (hinv : HashInv h) {a e : Nat} {x : HashElement K V}
    (hx : x ∈ rangeBuckets h a e) : ∃ k, x.key = some k ∧ h.find k = some x.value := by
  obtain ⟨j, -, -, hxj⟩ := (mem_rangeBuckets h a e x).mp hx
  obtain ⟨k, hk, -⟩ := hinv.placed j x hxj
  refine ⟨k, hk, (find_eq_some_iff hinv.equiv hinv.distinct).mpr ⟨k, ?_, hinv.equiv.refl k⟩⟩
  exact (h.mem_entries _).mpr ⟨j, x, hxj, by simp [HashElement.entry, hk]⟩

/-- An iteration over `s` up to `e` is a step of the map. -/
theorem HashInv.iterateStep [DecidableEq V] (hinv : HashInv h) {range : Option (Int × Int)} {s e : Int}
    (ds : List Bool) (hs : 0 ≤ s) (hse : s ≤ min e h.nBuckets)
    (hrange : hashIterate h range ds = hashIterate h (some (s, e)) ds)
    (hfull : range = none → s = 0 ∧ e = h.nBuckets) :
    ∃ h' rs, hashIterate h range ds = some (h', rs) ∧ HashInv h' ∧ h'.nBuckets = h.nBuckets ∧
      h'.compareFunction = h.compareFunction ∧
      MapStep h.compareFunction h.find (.iterate range ds) (.iterated rs) h'.find := by
  obtain ⟨h', hit, hinv', hn, hc, hfind⟩ := hinv.iterate hs hse ds
  have hlen : (min e h.nBuckets).toNat ≤ h.buckets.length := by
    rw [hinv.length]
    omega
  refine ⟨h', _, hrange.trans hit, hinv', hn, hc, _, fun x hx => hinv.rangeBuckets_find hx,
    hinv.distinct.sublist (bucketEntries_rangeBuckets_sublist h (by omega) hlen), fun hr => ?_,
    rfl, hfind⟩
  -- the whole table: its buckets hold all of its pairs
  obtain ⟨rfl, rfl⟩ := hfull hr
  have hall : (min h.nBuckets h.nBuckets).toNat = h.buckets.length := by
    rw [min_self, hinv.length]
  rw [hall, Int.toNat_zero, bucketEntries_rangeBuckets_all, Hash.find]

/-- One call of a run is a step of the map, and keeps the invariant and the shape of the table. -/
theorem HashInv.step [DecidableEq V] (hinv : HashInv h) (op : HashOp K V)
    (hop : op.rangeOk h.nBuckets = true) :
    ∃ h' res, hashStep h op = some (h', res) ∧ HashInv h' ∧ h'.nBuckets = h.nBuckets ∧
      h'.compareFunction = h.compareFunction ∧
      MapStep h.compareFunction h.find op res h'.find := by
  cases op with
  | add k v replace =>
      obtain ⟨hinv', hok, hfind⟩ := hashAdd_spec hinv k v replace
      obtain ⟨hn, hc⟩ := hashAdd_frame h k v replace
      exact ⟨_, _, rfl, hinv', hn, hc, hok, hfind⟩
  | remove k =>
      obtain ⟨hinv', hok, hfind⟩ := hashRemove_spec hinv k
      obtain ⟨hn, hc⟩ := hashRemove_frame h k
      exact ⟨_, _, rfl, hinv', hn, hc, hok, hfind⟩
  | lookup k =>
      obtain ⟨hinv', hfind, hv⟩ := hashLookup_spec hinv k
      obtain ⟨hn, hc⟩ := hashLookupFast_frame h (h.bucketIndex (h.hashValue k)) k (h.hashValue k)
      exact ⟨_, _, rfl, hinv', hn, hc, hv, hfind⟩
  | removeByValue v =>
      obtain ⟨h', hrbv, hinv', hn, hc, hfind⟩ := hinv.removeByValue v (Nat.lt_succ_self h.total)
      exact ⟨h', .removedByValue, by simp [hashStep, hrbv], hinv', hn, hc, hfind⟩
  | iterate range ds =>
      have hpos : 0 < h.nBuckets := by
        obtain ⟨m, hm⟩ := hinv.pow
        rw [hm]
        exact pow_pos (by norm_num) m
      -- `hash_iterator_init` is the range of all buckets
      obtain ⟨s, e, hs, hse, hrange, hfull⟩ : ∃ s e, 0 ≤ s ∧ s ≤ min e h.nBuckets ∧
          hashIterate h range ds = hashIterate h (some (s, e)) ds ∧
          (range = none → s = 0 ∧ e = h.nBuckets) := by
        cases range with
        | none => exact ⟨0, h.nBuckets, le_rfl, by omega, rfl, fun _ => ⟨rfl, rfl⟩⟩
        | some se =>
            obtain ⟨s, e⟩ := se
            have := of_decide_eq_true hop
            exact ⟨s, e, this.1, this.2, rfl, fun h => by cases h⟩
      obtain ⟨h', rs, hit, hinv', hn, hc, hmap⟩ := hinv.iterateStep ds hs hse hrange hfull
      exact ⟨h', _, by simp [hashStep, hit], hinv', hn, hc, hmap⟩

/-- A run, by induction on its calls: each call a step of the map from the map of the table
before it. -/
theorem HashInv.run [DecidableEq V] :
    ∀ (ops : List (HashOp K V)) {h : Hash K V}, HashInv h →
      (∀ op ∈ ops, op.rangeOk h.nBuckets = true) →
      ∃ h' rs, hashRun h ops = some (h', rs) ∧ HashInv h' ∧ h'.nBuckets = h.nBuckets ∧
        h'.compareFunction = h.compareFunction ∧ MapRun h.compareFunction h.find ops rs h'.find
  | [], h, hinv, _ => ⟨h, [], rfl, hinv, rfl, rfl, .nil _⟩
  | op :: ops, h, hinv, hops => by
      obtain ⟨h₁, res, hstep, hinv₁, hn₁, hc₁, hmap⟩ := hinv.step op (hops op List.mem_cons_self)
      obtain ⟨h', rs, hrun, hinv', hn', hc', hmr⟩ := HashInv.run ops hinv₁
        (fun op' hop' => hn₁ ▸ hops op' (List.mem_cons_of_mem _ hop'))
      rw [hc₁] at hmr
      exact ⟨h', res :: rs, by simp [hashRun, hstep, hrun], hinv', hn'.trans hn₁, hc'.trans hc₁,
        .cons hmap hmr⟩

end Steps

/-- The hash table refines a finite map over key classes: from `hash_init`, every run of
`hash_add`, `hash_remove`, `hash_lookup`, `hash_remove_by_value` and iterations (with the
`ASSERT` of `hash_iterator_init_range` kept) returns what the map returns, each call a step of the
map, and leaves a table with the representation invariant (each element in the bucket of its
hash value, no two equivalent keys) whose `n_elements` is the size of the map. -/
theorem hash_refines_finite_map [DecidableEq V] {n : Int} (hn : n < 2 ^ 31) {iv : UInt32}
    {hashFunction : K → UInt32 → UInt32} {compareFunction : K → K → Bool}
    (hequiv : Equivalence fun a b => compareFunction a b = true)
    (hcompat : ∀ a b, compareFunction a b = true → hashFunction a iv = hashFunction b iv)
    {h₀ : Hash K V} (hinit : hashInit n iv hashFunction compareFunction = some h₀)
    (ops : List (HashOp K V)) (hops : ∀ op ∈ ops, op.rangeOk h₀.nBuckets = true) :
    ∃ h rs, hashRun h₀ ops = some (h, rs) ∧
      MapRun compareFunction (fun _ => none) ops rs h.find ∧
      HashInv h ∧ h.nElements = size compareFunction h.find := by
  obtain ⟨hinv₀, hc₀, hfind₀⟩ := hashInit_inv hn hequiv hcompat hinit
  obtain ⟨h, rs, hrun, hinv, -, hc, hmr⟩ := hinv₀.run ops hops
  rw [hc₀, hfind₀] at hmr
  refine ⟨h, rs, hrun, hmr, hinv, ?_⟩
  have hdist := hinv.distinct
  rw [hc, hc₀] at hdist
  rw [hinv.count, Hash.find, hc, hc₀, size_find hequiv hdist]

/-- A table of four buckets: two additions, a lookup, an iteration over the whole table that
deletes the first element it returns, and a removal. -/
theorem hash_refines_finite_map_four_buckets :
    ∃ h rs, hashRun (⟨4, 0, 3, 0, fun k _ => k.toUInt32, fun a b => a == b, [[], [], [], []]⟩ :
        Hash Nat Nat) [.add 1 10 false, .add 5 50 false, .lookup 1, .iterate none [true, false],
        .remove 5] = some (h, rs) ∧
      MapRun (fun a b : Nat => a == b) (fun _ => none) [.add 1 10 false, .add 5 50 false,
        .lookup 1, .iterate none [true, false], .remove 5] rs h.find ∧
      HashInv h ∧ h.nElements = size (fun a b : Nat => a == b) h.find :=
  hash_refines_finite_map (by norm_num)
    ⟨fun a => by simp, fun hab => by simp_all, fun hab hbc => by simp_all⟩
    (fun a b hab => by simp only [beq_iff_eq] at hab; rw [hab])
    (show hashInit 4 0 (fun k _ => k.toUInt32) (fun a b : Nat => a == b) =
      some (⟨4, 0, 3, 0, fun k _ => k.toUInt32, fun a b => a == b, [[], [], [], []]⟩ :
        Hash Nat Nat) from rfl) _ (by decide)

end OpenVpn
