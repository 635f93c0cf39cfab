import OpenVpn.Hash
import OpenVpn.AssocMap

/-! The hash table as a finite map over key classes. `entries` reads the pairs of the live
elements, bucket after bucket, and `Hash.find` is the map they stand for under
`compare_function`. `HashInv` is the representation invariant: `compare_function` is an
equivalence that `hash_function` respects, every element sits in the bucket of its hash value,
no two elements have equivalent keys, no key is marked, and `n_elements` counts the elements.
A call changes one bucket only, so each spec lemma takes that bucket apart from the others
(`entries_setBucket_perm`), and a key is looked for in its own bucket only (`HashInv.find_eq`). -/

namespace OpenVpn

open AssocMap

variable {K V : Type}

/-- The pair a live element stands for. -/
def HashElement.entry (he : HashElement K V) : Option (K × V) :=
  he.key.map fun k => (k, he.value)

/-- The pairs of the live elements of a bucket. -/
def bucketEntries (b : List (HashElement K V)) : List (K × V) :=
  b.filterMap HashElement.entry

@[simp] theorem bucketEntries_nil : bucketEntries ([] : List (HashElement K V)) = [] := rfl

theorem bucketEntries_cons_of_key {he : HashElement K V} {k : K} (hk : he.key = some k)
    (b : List (HashElement K V)) : bucketEntries (he :: b) = (k, he.value) :: bucketEntries b := by
  simp [bucketEntries, HashElement.entry, hk]

theorem bucketEntries_perm {b b' : List (HashElement K V)} (h : b.Perm b') :
    (bucketEntries b).Perm (bucketEntries b') :=
  h.filterMap _

/-- Writing one list of a list of lists: its image is that of the new list beside the others. -/
theorem flatMap_set_perm {α β : Type} (f : List α → List β) (hf : f [] = []) :
    ∀ (l : List (List α)) {i : Nat}, i < l.length → ∀ b : List α,
      ((l.set i b).flatMap f).Perm (f b ++ (l.set i []).flatMap f)
  | [], _, hi, _ => by simp at hi
  | x :: l, 0, _, b => by simp [hf]
  | x :: l, i + 1, hi, b => by
      simp only [List.set_cons_succ, List.flatMap_cons]
      exact ((flatMap_set_perm f hf l (by simpa using hi) b).append_left _).trans
        (List.perm_append_comm_assoc _ _ _)

namespace Hash

/-- The pairs of the live elements, bucket after bucket. -/
def entries (h : Hash K V) : List (K × V) := h.buckets.flatMap bucketEntries

/-- The map the table stands for: the value of the element with a key equivalent to `k`. -/
def find (h : Hash K V) : K → Option V := AssocMap.find h.compareFunction h.entries

theorem bucket_setBucket (h : Hash K V) {i : Nat} (hi : i < h.buckets.length)
    (b : List (HashElement K V)) (j : Nat) :
    (h.setBucket i b).bucket j = if j = i then b else h.bucket j := by
  simp only [bucket, setBucket, List.getD_eq_getElem?_getD, List.getElem?_set]
  by_cases hj : j = i
  · subst hj
    simp [hi]
  · simp [Ne.symm hj, hj]

@[simp] theorem compareFunction_setBucket (h : Hash K V) (i : Nat) (b : List (HashElement K V)) :
    (h.setBucket i b).compareFunction = h.compareFunction := rfl

@[simp] theorem hashValue_setBucket (h : Hash K V) (i : Nat) (b : List (HashElement K V)) :
    (h.setBucket i b).hashValue = h.hashValue := rfl

@[simp] theorem bucketIndex_setBucket (h : Hash K V) (i : Nat) (b : List (HashElement K V)) :
    (h.setBucket i b).bucketIndex = h.bucketIndex := rfl

@[simp] theorem keyMatches_setBucket (h : Hash K V) (i : Nat) (b : List (HashElement K V)) :
    (h.setBucket i b).keyMatches = h.keyMatches := rfl

@[simp] theorem nElements_setBucket (h : Hash K V) (i : Nat) (b : List (HashElement K V)) :
    (h.setBucket i b).nElements = h.nElements := rfl

@[simp] theorem length_setBucket (h : Hash K V) (i : Nat) (b : List (HashElement K V)) :
    (h.setBucket i b).buckets.length = h.buckets.length := by
  simp [setBucket]

theorem setBucket_self (h : Hash K V) {i : Nat} (hi : i < h.buckets.length) :
    h.setBucket i (h.bucket i) = h := by
  simp [setBucket, bucket, List.getD_eq_getElem?_getD, List.getElem?_eq_getElem hi]

/-- A pair of the table is a pair of a live element of some bucket. -/
theorem mem_entries (h : Hash K V) (p : K × V) :
    p ∈ h.entries ↔ ∃ j, ∃ he ∈ h.bucket j, he.entry = some p := by
  simp only [entries, bucketEntries, List.mem_flatMap, List.mem_filterMap]
  constructor
  · rintro ⟨b, hb, he, hhe, hp⟩
    obtain ⟨j, hj, rfl⟩ := List.mem_iff_getElem.mp hb
    exact ⟨j, he, by simpa [bucket, List.getD_eq_getElem?_getD, hj] using hhe, hp⟩
  · rintro ⟨j, he, hhe, hp⟩
    by_cases hj : j < h.buckets.length
    · refine ⟨h.buckets[j], List.getElem_mem hj, he, ?_, hp⟩
      simpa [bucket, List.getD_eq_getElem?_getD, hj] using hhe
    · simp [bucket, List.getD_eq_getElem?_getD, hj] at hhe

/-- The pairs of the table are those of one bucket and those of the others. -/
theorem entries_setBucket_perm (h : Hash K V) {i : Nat} (hi : i < h.buckets.length)
    (b : List (HashElement K V)) :
    (h.setBucket i b).entries.Perm (bucketEntries b ++ (h.setBucket i []).entries) :=
  flatMap_set_perm bucketEntries rfl h.buckets hi b

end Hash

/-- The representation invariant of a table. -/
structure HashInv (h : Hash K V) : Prop where
  equiv : Equivalence fun a b => h.compareFunction a b = true
  compat : ∀ a b, h.compareFunction a b = true → h.hashValue a = h.hashValue b
  pow : ∃ m, h.nBuckets = 2 ^ m
  mask : h.mask = h.nBuckets - 1
  length : h.buckets.length = h.nBuckets.toNat
  placed : ∀ i, ∀ he ∈ h.bucket i, ∃ k, he.key = some k ∧ he.hashValue = h.hashValue k ∧
    h.bucketIndex he.hashValue = i
  distinct : Distinct h.compareFunction h.entries
  count : h.nElements = h.entries.length

section Inv

variable {h : Hash K V}

/-- Every hash value has its bucket. -/
theorem HashInv.bucketIndex_lt (hinv : HashInv h) (hv : UInt32) :
    h.bucketIndex hv < h.buckets.length := by
  obtain ⟨m, hm⟩ := hinv.pow
  have h2 : (2 : ℤ) ^ m = ((2 ^ m : ℕ) : ℤ) := by push_cast; rfl
  have hmask : h.mask.toNat = 2 ^ m - 1 := by
    rw [hinv.mask, hm, h2]
    omega
  rw [Hash.bucketIndex, hmask, Nat.and_two_pow_sub_one_eq_mod, hinv.length, hm, h2,
    Int.toNat_natCast]
  exact Nat.mod_lt _ (Nat.two_pow_pos m)

/-- In the table, the test of `hash_lookup_fast` is the test of `compare_function`. -/
theorem HashInv.keyMatches_eq (hinv : HashInv h) {j : Nat} {he : HashElement K V}
    (hhe : he ∈ h.bucket j) (k : K) :
    h.keyMatches k (h.hashValue k) he = he.key.any (h.compareFunction k) := by
  obtain ⟨k', hk', hhv, -⟩ := hinv.placed j he hhe
  rw [Hash.keyMatches, hk', hhv]
  cases hc : h.compareFunction k k'
  · simp [hc]
  · simp [hc, hinv.compat k k' hc]

/-- The map of a bucket, by the test of `compare_function`. -/
theorem find_bucketEntries (r : K → K → Bool) (b : List (HashElement K V)) (k : K) :
    AssocMap.find r (bucketEntries b) k = (b.find? fun he => he.key.any (r k)).map
      HashElement.value := by
  induction b with
  | nil => rfl
  | cons he b ih =>
      cases hk : he.key with
      | none => simp [bucketEntries, HashElement.entry, hk, ih] at ih ⊢
      | some k' =>
          rw [bucketEntries_cons_of_key hk, find_cons, List.find?_cons]
          by_cases hc : r k k' <;> simp [hk, hc, ih]

/-- A key is looked for in its own bucket: no other bucket has an equivalent key. -/
theorem HashInv.find_eq (hinv : HashInv h) (k : K) :
    h.find k = AssocMap.find h.compareFunction
      (bucketEntries (h.bucket (h.bucketIndex (h.hashValue k)))) k := by
  have hi := hinv.bucketIndex_lt (h.hashValue k)
  set i := h.bucketIndex (h.hashValue k)
  have hperm := h.entries_setBucket_perm hi (h.bucket i)
  rw [h.setBucket_self hi] at hperm
  have hothers : AssocMap.find h.compareFunction (h.setBucket i []).entries k = none := by
    refine find_eq_none_iff.mpr fun p hp => ?_
    obtain ⟨j, he, hhe, hp⟩ := ((h.setBucket i []).mem_entries p).mp hp
    rw [h.bucket_setBucket hi] at hhe
    split_ifs at hhe with hj
    · simp at hhe
    obtain ⟨k', hk', hhv, hidx⟩ := hinv.placed j he hhe
    simp only [HashElement.entry, hk', Option.map_some, Option.some.injEq] at hp
    subst hp
    -- an equivalent key would hash to bucket `i`
    cases hc : h.compareFunction k k'
    · rfl
    · exact absurd (hidx.symm.trans (by rw [hhv, ← hinv.compat k k' hc])) hj
  rw [Hash.find, find_perm hinv.equiv hinv.distinct hperm, find_append, hothers, Option.or_none]

/-- A table with one bucket written is a table with the invariant when the new bucket is placed,
the keys stay inequivalent and `n_elements` counts the elements. -/
theorem HashInv.setBucket (hinv : HashInv h) {i : Nat} (hi : i < h.buckets.length)
    {b : List (HashElement K V)}
    (hplaced : ∀ he ∈ b, ∃ k, he.key = some k ∧ he.hashValue = h.hashValue k ∧
      h.bucketIndex he.hashValue = i)
    (hdist : Distinct h.compareFunction (bucketEntries b ++ (h.setBucket i []).entries))
    {n : Int} (hn : n = (bucketEntries b).length + (h.setBucket i []).entries.length) :
    HashInv { h.setBucket i b with nElements := n } := by
  have hperm := h.entries_setBucket_perm hi b
  refine ⟨hinv.equiv, hinv.compat, hinv.pow, hinv.mask, by simpa [Hash.setBucket] using hinv.length,
    fun j he hhe => ?_, ?_, ?_⟩
  · change he ∈ (h.setBucket i b).bucket j at hhe
    rw [h.bucket_setBucket hi] at hhe
    split_ifs at hhe with hj
    · subst hj
      exact hplaced he hhe
    · exact hinv.placed j he hhe
  · exact hdist.perm hinv.equiv hperm.symm
  · change n = (h.setBucket i b).entries.length
    rw [hperm.length_eq, hn, List.length_append]
    push_cast
    rfl

end Inv

end OpenVpn
