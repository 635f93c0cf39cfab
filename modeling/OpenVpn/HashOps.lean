import OpenVpn.HashSpec

/-! The calls `hash_lookup`, `hash_add` and `hash_remove` against the finite map of the table.
The loops over a bucket get one lemma each: what they return, and that the bucket they leave is
the old one reordered, or the old one less the element found. A bucket reordered keeps the table
and its map (`HashInv.setBucket_perm`); a write at the head of a bucket updates the map, and a
removal erases a class. Each call's lemma puts these together over the bucket of its key. -/

namespace OpenVpn

open AssocMap

variable {K V : Type}

/-! ### The loops over one bucket -/

theorem hashLookupFastLoop_snd (p : HashElement K V → Bool) (prev l : List (HashElement K V)) :
    (hashLookupFastLoop p prev l).2 = l.find? p := by
  induction l generalizing prev with
  | nil => rfl
  | cons he l ih => by_cases h : p he <;> simp [hashLookupFastLoop, h, ih]

/-- `hash_lookup_fast` only reorders the bucket. -/
theorem hashLookupFastLoop_perm (p : HashElement K V → Bool) (prev l : List (HashElement K V)) :
    (hashLookupFastLoop p prev l).1.Perm (prev ++ l) := by
  induction l generalizing prev with
  | nil => simp [hashLookupFastLoop]
  | cons he l ih =>
      by_cases h : p he
      · simp only [hashLookupFastLoop, h, if_true]
        exact List.perm_middle.symm
      · simp only [hashLookupFastLoop, h, Bool.false_eq_true, if_false]
        simpa using ih (prev ++ [he])

/-- The element `hash_lookup_fast` finds is the head of the bucket it leaves. -/
theorem hashLookupFastLoop_head (p : HashElement K V → Bool) (prev l : List (HashElement K V))
    {he : HashElement K V} (h : (hashLookupFastLoop p prev l).2 = some he) :
    ∃ rest, (hashLookupFastLoop p prev l).1 = he :: rest := by
  induction l generalizing prev with
  | nil => cases h
  | cons x l ih =>
      by_cases hx : p x
      · simp only [hashLookupFastLoop, hx, if_true, Option.some.injEq] at h ⊢
        subst h
        exact ⟨_, rfl⟩
      · simp only [hashLookupFastLoop, hx, Bool.false_eq_true, if_false] at h ⊢
        exact ih _ h

theorem hashRemoveFastLoop_eq_none_iff (p : HashElement K V → Bool)
    (prev l : List (HashElement K V)) : hashRemoveFastLoop p prev l = none ↔ l.find? p = none := by
  induction l generalizing prev with
  | nil => simp [hashRemoveFastLoop]
  | cons he l ih => by_cases h : p he <;> simp [hashRemoveFastLoop, h, ih]

/-- `hash_remove_fast` leaves the bucket less the element it finds. -/
theorem hashRemoveFastLoop_eq_some {p : HashElement K V → Bool} {prev l b : List (HashElement K V)}
    (h : hashRemoveFastLoop p prev l = some b) :
    ∃ he, l.find? p = some he ∧ (prev ++ l).Perm (he :: b) := by
  induction l generalizing prev with
  | nil => cases h
  | cons x l ih =>
      by_cases hx : p x
      · simp only [hashRemoveFastLoop, hx, if_true, Option.some.injEq] at h
        subst h
        exact ⟨x, by simp [hx], List.perm_middle⟩
      · simp only [hashRemoveFastLoop, hx, Bool.false_eq_true, if_false] at h
        obtain ⟨he, hf, hp⟩ := ih h
        exact ⟨he, by simp [hx, hf], by simpa using hp⟩

theorem hashLookupFast_eq (h : Hash K V) (i : Nat) (k : K) (hv : UInt32) :
    hashLookupFast h i k hv =
      (h.setBucket i (hashLookupFastLoop (h.keyMatches k hv) [] (h.bucket i)).1,
        (h.bucket i).find? (h.keyMatches k hv)) := by
  simp [hashLookupFast, hashLookupFastLoop_snd]

/-! ### One bucket rewritten -/

section Calls

variable {h : Hash K V}

/-- The pairs of the table, those of bucket `i` first. -/
theorem Hash.entries_perm_bucket (h : Hash K V) {i : Nat} (hi : i < h.buckets.length) :
    h.entries.Perm (bucketEntries (h.bucket i) ++ (h.setBucket i []).entries) := by
  have := h.entries_setBucket_perm hi (h.bucket i)
  rwa [h.setBucket_self hi] at this

/-- A bucket reordered keeps the invariant and the map. -/
theorem HashInv.setBucket_perm (hinv : HashInv h) {i : Nat} (hi : i < h.buckets.length)
    {b : List (HashElement K V)} (hb : b.Perm (h.bucket i)) :
    HashInv (h.setBucket i b) ∧ (h.setBucket i b).find = h.find := by
  have hent : (h.setBucket i b).entries.Perm h.entries :=
    (h.entries_setBucket_perm hi b).trans
      (((bucketEntries_perm hb).append_right _).trans (h.entries_perm_bucket hi).symm)
  have hinv' : HashInv { h.setBucket i b with nElements := h.nElements } :=
    hinv.setBucket hi (fun he hhe => hinv.placed i he (hb.mem_iff.mp hhe))
      ((hinv.distinct.perm hinv.equiv hent.symm).perm hinv.equiv (h.entries_setBucket_perm hi b))
      (by rw [hinv.count, ← hent.length_eq, (h.entries_setBucket_perm hi b).length_eq,
        List.length_append]; push_cast; rfl)
  refine ⟨hinv', funext fun k => ?_⟩
  exact (find_perm hinv.equiv hinv.distinct hent.symm k).symm

/-- What `hash_lookup_fast` finds in the bucket of `k` is the value of the map at `k`. -/
theorem HashInv.find?_bucket (hinv : HashInv h) (k : K) :
    ((h.bucket (h.bucketIndex (h.hashValue k))).find?
      (h.keyMatches k (h.hashValue k))).map HashElement.value = h.find k := by
  rw [hinv.find_eq, find_bucketEntries, List.find?_congr fun he hhe => hinv.keyMatches_eq hhe k]

/-- `he->value = value` at the head of a bucket, on an element whose key is equivalent to `k`:
the map is updated at `k`. -/
theorem HashInv.setBucket_value (hinv : HashInv h) {i : Nat} (hi : i < h.buckets.length)
    {he : HashElement K V} {rest : List (HashElement K V)} (hb : h.bucket i = he :: rest)
    {k k₀ : K} (hk₀ : he.key = some k₀) (hk : h.compareFunction k k₀ = true) (v : V) :
    HashInv (h.setBucket i ({ he with value := v } :: rest)) ∧
      (h.setBucket i ({ he with value := v } :: rest)).find =
        update h.compareFunction h.find k v := by
  set X := bucketEntries rest ++ (h.setBucket i []).entries
  have hold : h.entries.Perm ((k₀, he.value) :: X) := by
    have := h.entries_perm_bucket hi
    rwa [hb, bucketEntries_cons_of_key hk₀] at this
  have hnew : (h.setBucket i ({ he with value := v } :: rest)).entries.Perm ((k₀, v) :: X) := by
    have := h.entries_setBucket_perm hi ({ he with value := v } :: rest)
    rwa [bucketEntries_cons_of_key (show ({ he with value := v } : HashElement K V).key = some k₀
      from hk₀)] at this
  -- the keys are those of the old bucket
  have hdist : Distinct h.compareFunction ((k₀, v) :: X) := by
    have := distinct_cons.mp (hinv.distinct.perm hinv.equiv hold)
    exact distinct_cons.mpr this
  have hinv' : HashInv { h.setBucket i ({ he with value := v } :: rest) with
      nElements := h.nElements } := by
    refine hinv.setBucket hi (fun x hx => ?_) ?_ ?_
    · rcases List.mem_cons.mp hx with rfl | hx
      · exact hinv.placed i he (by simp [hb])
      · exact hinv.placed i x (by simp [hb, hx])
    · rwa [bucketEntries_cons_of_key (show ({ he with value := v } : HashElement K V).key = some k₀
        from hk₀)]
    · rw [hinv.count, hold.length_eq, bucketEntries_cons_of_key
        (show ({ he with value := v } : HashElement K V).key = some k₀ from hk₀)]
      simp [X]
      omega
  refine ⟨hinv', ?_⟩
  calc (h.setBucket i ({ he with value := v } :: rest)).find
      = AssocMap.find h.compareFunction ((k₀, v) :: X) :=
        funext (find_perm hinv.equiv (hdist.perm hinv.equiv hnew.symm) hnew)
    _ = update h.compareFunction (update h.compareFunction (AssocMap.find h.compareFunction X)
          k₀ he.value) k₀ v := by rw [find_cons_eq_update, update_update]
    _ = update h.compareFunction h.find k v := by
        rw [update_congr hinv.equiv _ hk, Hash.find,
          funext (find_perm hinv.equiv hinv.distinct hold), find_cons_eq_update]

/-- `hash_add_fast` of a key the map lacks: the map is updated at it and `n_elements` counts it. -/
theorem HashInv.addFast (hinv : HashInv h) {k : K} (hk : h.find k = none) (v : V) :
    HashInv (hashAddFast h (h.bucketIndex (h.hashValue k)) k (h.hashValue k) v) ∧
      (hashAddFast h (h.bucketIndex (h.hashValue k)) k (h.hashValue k) v).find =
        update h.compareFunction h.find k v := by
  have hi := hinv.bucketIndex_lt (h.hashValue k)
  set i := h.bucketIndex (h.hashValue k)
  set X := bucketEntries (h.bucket i) ++ (h.setBucket i []).entries
  have hold : h.entries.Perm X := h.entries_perm_bucket hi
  have hnew : (h.setBucket i (⟨v, some k, h.hashValue k⟩ :: h.bucket i)).entries.Perm
      ((k, v) :: X) := by
    have := h.entries_setBucket_perm hi (⟨v, some k, h.hashValue k⟩ :: h.bucket i)
    rwa [bucketEntries_cons_of_key rfl] at this
  -- no pair of the table has a key equivalent to `k`
  have hfresh : ∀ q ∈ X, h.compareFunction k q.1 = false := by
    rw [Hash.find, find_perm hinv.equiv hinv.distinct hold] at hk
    exact find_eq_none_iff.mp hk
  have hdist : Distinct h.compareFunction ((k, v) :: X) :=
    distinct_cons.mpr ⟨hfresh, hinv.distinct.perm hinv.equiv hold⟩
  refine ⟨hinv.setBucket hi (fun x hx => ?_) ?_ ?_, ?_⟩
  · rcases List.mem_cons.mp hx with rfl | hx
    · exact ⟨k, rfl, rfl, rfl⟩
    · exact hinv.placed i x hx
  · rwa [bucketEntries_cons_of_key rfl]
  · rw [hinv.count, hold.length_eq, bucketEntries_cons_of_key rfl]
    simp [X]
    omega
  · change AssocMap.find h.compareFunction (h.setBucket i _).entries =
      update h.compareFunction (AssocMap.find h.compareFunction h.entries) k v
    rw [funext (find_perm hinv.equiv (hdist.perm hinv.equiv hnew.symm) hnew),
      find_cons_eq_update, funext (find_perm hinv.equiv hinv.distinct hold)]

/-- A bucket less one element, with `n_elements` one down: the map loses its class. -/
theorem HashInv.removeFast (hinv : HashInv h) {i : Nat} (hi : i < h.buckets.length)
    {he : HashElement K V} {b : List (HashElement K V)} (hb : (h.bucket i).Perm (he :: b))
    {k₀ : K} (hk₀ : he.key = some k₀) :
    HashInv { h.setBucket i b with nElements := h.nElements - 1 } ∧
      (h.setBucket i b).find = erase h.compareFunction h.find k₀ := by
  set X := bucketEntries b ++ (h.setBucket i []).entries
  have hold : h.entries.Perm ((k₀, he.value) :: X) := by
    have := (h.entries_perm_bucket hi).trans ((bucketEntries_perm hb).append_right _)
    rwa [bucketEntries_cons_of_key hk₀] at this
  have hnew : (h.setBucket i b).entries.Perm X := h.entries_setBucket_perm hi b
  have hdist : Distinct h.compareFunction X :=
    (distinct_cons.mp (hinv.distinct.perm hinv.equiv hold)).2
  refine ⟨hinv.setBucket hi (fun x hx => hinv.placed i x (hb.mem_iff.mpr (.tail _ hx))) hdist ?_, ?_⟩
  · rw [hinv.count, hold.length_eq]
    simp [X]
  · change AssocMap.find h.compareFunction (h.setBucket i b).entries = _
    rw [funext (find_perm hinv.equiv (hdist.perm hinv.equiv hnew.symm) hnew)]
    exact find_perm_cons_eq_erase hinv.equiv hinv.distinct hold

end Calls

/-! ### The calls -/

section Spec

variable {h : Hash K V}

/-- The element that the test of `hash_lookup_fast` finds has a key equivalent to `k`. -/
theorem HashInv.key_of_find? (hinv : HashInv h) {k : K} {he : HashElement K V}
    (hf : (h.bucket (h.bucketIndex (h.hashValue k))).find? (h.keyMatches k (h.hashValue k)) =
      some he) :
    he ∈ h.bucket (h.bucketIndex (h.hashValue k)) ∧
      ∃ k₀, he.key = some k₀ ∧ h.compareFunction k k₀ = true := by
  have hmem := List.mem_of_find?_eq_some hf
  obtain ⟨k₀, hk₀, -⟩ := hinv.placed _ he hmem
  have hmatch : h.keyMatches k (h.hashValue k) he = true := List.find?_some hf
  rw [hinv.keyMatches_eq hmem, hk₀] at hmatch
  exact ⟨hmem, k₀, hk₀, by simpa using hmatch⟩

/-- `hash_lookup_fast` on the bucket of `k` reorders that bucket, and the element it finds is the
head of the bucket it leaves. -/
theorem HashInv.lookupFast (hinv : HashInv h) (k : K) :
    ∃ b, hashLookupFast h (h.bucketIndex (h.hashValue k)) k (h.hashValue k) =
        (h.setBucket (h.bucketIndex (h.hashValue k)) b,
          (h.bucket (h.bucketIndex (h.hashValue k))).find? (h.keyMatches k (h.hashValue k))) ∧
      HashInv (h.setBucket (h.bucketIndex (h.hashValue k)) b) ∧
      (h.setBucket (h.bucketIndex (h.hashValue k)) b).find = h.find ∧
      ∀ he, (h.bucket (h.bucketIndex (h.hashValue k))).find? (h.keyMatches k (h.hashValue k)) =
        some he → ∃ rest, b = he :: rest := by
  have hi := hinv.bucketIndex_lt (h.hashValue k)
  obtain ⟨hinv', hfind⟩ := hinv.setBucket_perm hi
    (by simpa using hashLookupFastLoop_perm (h.keyMatches k (h.hashValue k)) [] (h.bucket _))
  refine ⟨_, hashLookupFast_eq h _ k _, hinv', hfind, fun he hf => ?_⟩
  exact hashLookupFastLoop_head _ [] _ (by rw [hashLookupFastLoop_snd, hf])

/-- `hash_lookup(k)` returns the map's value at `k` and leaves the map as it is. -/
theorem hashLookup_spec (hinv : HashInv h) (k : K) :
    HashInv (hashLookup h k).1 ∧ (hashLookup h k).1.find = h.find ∧
      (hashLookup h k).2 = h.find k := by
  obtain ⟨b, hl, hinv', hfind, -⟩ := hinv.lookupFast k
  simp only [hashLookup, hl]
  exact ⟨hinv', hfind, hinv.find?_bucket k⟩

/-- `hash_add(k, v, replace)` returns true exactly when `k` is not in the map or `replace` is
set, and then the map sends `k` to `v`; otherwise the map is as it was. -/
theorem hashAdd_spec (hinv : HashInv h) (k : K) (v : V) (replace : Bool) :
    HashInv (hashAdd h k v replace).1 ∧
      (hashAdd h k v replace).2 = ((h.find k).isNone || replace) ∧
      (hashAdd h k v replace).1.find =
        if (hashAdd h k v replace).2 then update h.compareFunction h.find k v else h.find := by
  have hi := hinv.bucketIndex_lt (h.hashValue k)
  obtain ⟨b, hl, hinv₁, hfind₁, hhead⟩ := hinv.lookupFast k
  have hlook := hinv.find?_bucket k
  simp only [hashAdd, hl]
  cases hf : (h.bucket (h.bucketIndex (h.hashValue k))).find? (h.keyMatches k (h.hashValue k)) with
  | none =>
      -- a new element at the head of the bucket
      have hk : h.find k = none := by rw [← hlook, hf]; rfl
      obtain ⟨hinv₂, hfind₂⟩ := hinv₁.addFast (k := k) (by rw [hfind₁, hk]) v
      exact ⟨hinv₂, by simp [hk], by simpa [hfind₁] using hfind₂⟩
  | some he =>
      have hk : h.find k = some he.value := by rw [← hlook, hf]; rfl
      obtain ⟨rest, rfl⟩ := hhead he hf
      cases replace with
      | false => exact ⟨hinv₁, by simp [hk], by simpa using hfind₁⟩
      | true =>
          -- the value is written into the element found, now the head of its bucket
          obtain ⟨-, k₀, hk₀, hkk₀⟩ := hinv.key_of_find? hf
          have hb₁ : (h.setBucket (h.bucketIndex (h.hashValue k)) (he :: rest)).bucket
              (h.bucketIndex (h.hashValue k)) = he :: rest := by
            rw [h.bucket_setBucket hi, if_pos rfl]
          obtain ⟨hinv₂, hfind₂⟩ := hinv₁.setBucket_value (by simpa using hi) hb₁ hk₀ hkk₀ v
          simp only [hb₁, if_true]
          exact ⟨hinv₂, by simp, by simpa [hfind₁] using hfind₂⟩

/-- `hash_remove(k)` returns true exactly when `k` is in the map, and the map loses `k`. -/
theorem hashRemove_spec (hinv : HashInv h) (k : K) :
    HashInv (hashRemove h k).1 ∧ (hashRemove h k).2 = (h.find k).isSome ∧
      (hashRemove h k).1.find = erase h.compareFunction h.find k := by
  have hi := hinv.bucketIndex_lt (h.hashValue k)
  have hlook := hinv.find?_bucket k
  simp only [hashRemove, hashRemoveFast]
  cases hr : hashRemoveFastLoop (h.keyMatches k (h.hashValue k)) []
      (h.bucket (h.bucketIndex (h.hashValue k))) with
  | none =>
      have hf := (hashRemoveFastLoop_eq_none_iff _ _ _).mp hr
      have hk : h.find k = none := by rw [← hlook, hf]; rfl
      exact ⟨hinv, by simp [hk], (erase_find_of_eq_none hinv.equiv h.entries hk).symm⟩
  | some b =>
      obtain ⟨he, hf, hperm⟩ := hashRemoveFastLoop_eq_some hr
      obtain ⟨-, k₀, hk₀, hkk₀⟩ := hinv.key_of_find? hf
      have hk : h.find k = some he.value := by rw [← hlook, hf]; rfl
      obtain ⟨hinv', hfind'⟩ := hinv.removeFast hi (by simpa using hperm) hk₀
      exact ⟨hinv', by simp [hk], by rw [erase_congr hinv.equiv _ hkk₀]; exact hfind'⟩

end Spec

/-! ### Frames: the calls write buckets and `n_elements` only -/

theorem hashLookupFast_frame (h : Hash K V) (i : Nat) (k : K) (hv : UInt32) :
    (hashLookupFast h i k hv).1.nBuckets = h.nBuckets ∧
      (hashLookupFast h i k hv).1.compareFunction = h.compareFunction := by
  simp [hashLookupFast, Hash.setBucket]

theorem hashAdd_frame (h : Hash K V) (k : K) (v : V) (r : Bool) :
    (hashAdd h k v r).1.nBuckets = h.nBuckets ∧
      (hashAdd h k v r).1.compareFunction = h.compareFunction := by
  have hf := hashLookupFast_frame h (h.bucketIndex (h.hashValue k)) k (h.hashValue k)
  simp only [hashAdd]
  rcases hl : hashLookupFast h (h.bucketIndex (h.hashValue k)) k (h.hashValue k) with ⟨h₁, _ | he⟩
  all_goals rw [hl] at hf
  · simpa [hashAddFast, Hash.setBucket] using hf
  · cases r <;> simpa [Hash.setBucket] using hf

theorem hashRemove_frame (h : Hash K V) (k : K) :
    (hashRemove h k).1.nBuckets = h.nBuckets ∧
      (hashRemove h k).1.compareFunction = h.compareFunction := by
  simp only [hashRemove, hashRemoveFast]
  split <;> simp [Hash.setBucket]

end OpenVpn
