import Mathlib.Data.Set.Card
import Mathlib.Data.List.Perm.Basic

/-! Finite maps kept as association lists whose keys are compared by a boolean relation `r`, an
equivalence in the results that need one: the map sends a key to the value of the first pair with
an equivalent key. A list whose keys are pairwise inequivalent (`Distinct`) stands for its map
whatever its order (`find_perm`), and its length is the number of key classes the map defines
(`size_find`). The operations of a finite map over key classes (`update`, `erase`, `size`) are
stated on functions, so that a refinement proof compares a list with the map it stands for. -/

namespace AssocMap

variable {K V : Type*} (r : K → K → Bool)

/-- The value of the first pair whose key is equivalent to `k`. -/
def find (l : List (K × V)) (k : K) : Option V :=
  (l.find? fun p => r k p.1).map Prod.snd

/-- The keys of `l` are pairwise inequivalent. -/
def Distinct (l : List (K × V)) : Prop :=
  l.Pairwise fun a b => r a.1 b.1 = false

/-- The map `M` with the class of `k` sent to `v`. -/
def update (M : K → Option V) (k : K) (v : V) : K → Option V :=
  fun k' => if r k' k then some v else M k'

/-- The map `M` without the class of `k`. -/
def erase (M : K → Option V) (k : K) : K → Option V :=
  fun k' => if r k' k then none else M k'

/-- The map `M` without the classes of the keys `ks`. -/
def eraseList (M : K → Option V) (ks : List K) : K → Option V :=
  ks.foldl (erase r) M

/-- The number of key classes that `M` maps to a value. -/
noncomputable def size (M : K → Option V) : ℕ :=
  Set.ncard {c : Quot fun a b => r a b = true | ∃ k, Quot.mk _ k = c ∧ M k ≠ none}

variable {r}

@[simp] theorem find_nil (k : K) : find r ([] : List (K × V)) k = none := rfl

@[simp] theorem find_cons (p : K × V) (l : List (K × V)) (k : K) :
    find r (p :: l) k = if r k p.1 then some p.2 else find r l k := by
  by_cases h : r k p.1 <;> simp [find, h]

theorem find_append (l₁ l₂ : List (K × V)) (k : K) :
    find r (l₁ ++ l₂) k = (find r l₁ k).or (find r l₂ k) := by
  induction l₁ with
  | nil => simp
  | cons p l₁ ih =>
      by_cases h : r k p.1 <;> simp [h, ih]

theorem find_eq_none_iff {l : List (K × V)} {k : K} :
    find r l k = none ↔ ∀ p ∈ l, r k p.1 = false := by
  simp [find, List.find?_eq_none]

@[simp] theorem distinct_nil : Distinct r ([] : List (K × V)) := List.Pairwise.nil

@[simp] theorem distinct_cons {p : K × V} {l : List (K × V)} :
    Distinct r (p :: l) ↔ (∀ q ∈ l, r p.1 q.1 = false) ∧ Distinct r l :=
  List.pairwise_cons

theorem Distinct.sublist {l l' : List (K × V)} (h : Distinct r l) (hs : l'.Sublist l) :
    Distinct r l' :=
  List.Pairwise.sublist hs h

/-- A new pair in front updates the map. -/
theorem find_cons_eq_update (l : List (K × V)) (k : K) (v : V) :
    find r ((k, v) :: l) = update r (find r l) k v := by
  funext k'
  simp [update]

theorem update_update (M : K → Option V) (k : K) (v w : V) :
    update r (update r M k v) k w = update r M k w := by
  funext k'
  by_cases h : r k' k <;> simp [update, h]

@[simp] theorem eraseList_nil (M : K → Option V) : eraseList r M [] = M := rfl

@[simp] theorem eraseList_cons (M : K → Option V) (k : K) (ks : List K) :
    eraseList r M (k :: ks) = eraseList r (erase r M k) ks := rfl

/-- A key is erased when one of the keys erased is equivalent to it. -/
theorem eraseList_apply (M : K → Option V) (ks : List K) (k' : K) :
    eraseList r M ks k' = if ks.any (r k') then none else M k' := by
  induction ks generalizing M with
  | nil => simp
  | cons k ks ih =>
      rw [eraseList_cons, ih]
      by_cases hk : r k' k <;> simp [erase, hk]

section Equiv

variable (hr : Equivalence fun a b => r a b = true)
include hr

theorem symm_false {a b : K} (h : r a b = false) : r b a = false := by
  cases hba : r b a
  · rfl
  · exact absurd (hr.symm hba) (by simp [h])

/-- Equivalent keys compare alike with every key, on either side. -/
theorem rel_left_congr {k k' : K} (hk : r k k' = true) (q : K) : r k q = r k' q := by
  cases h₁ : r k q <;> cases h₂ : r k' q
  · rfl
  · exact absurd (hr.trans hk h₂) (by simp [h₁])
  · exact absurd (hr.trans (hr.symm hk) h₁) (by simp [h₂])
  · rfl

theorem rel_right_congr {k k' : K} (hk : r k k' = true) (q : K) : r q k = r q k' := by
  cases h₁ : r q k <;> cases h₂ : r q k'
  · rfl
  · exact absurd (hr.trans h₂ (hr.symm hk)) (by simp [h₁])
  · exact absurd (hr.trans h₁ hk) (by simp [h₂])
  · rfl

theorem Distinct.perm {l l' : List (K × V)} (h : Distinct r l) (hp : l.Perm l') :
    Distinct r l' :=
  hp.pairwise h fun hab => symm_false hr hab

/-- In a list of inequivalent keys, `k` finds `v` exactly when a pair with a key equivalent to `k`
holds `v`. -/
theorem find_eq_some_iff {l : List (K × V)} (h : Distinct r l) {k : K} {v : V} :
    find r l k = some v ↔ ∃ k', (k', v) ∈ l ∧ r k k' = true := by
  induction l with
  | nil => simp
  | cons p l ih =>
      obtain ⟨hp, hl⟩ := distinct_cons.mp h
      rw [find_cons]
      by_cases hk : r k p.1
      · -- only the head has a key equivalent to `k`
        simp only [hk, if_true, Option.some.injEq, List.mem_cons]
        constructor
        · rintro rfl
          exact ⟨p.1, .inl rfl, hk⟩
        · rintro ⟨k', rfl | hmem, hkk'⟩
          · rfl
          · have := hp _ hmem
            simp only at this
            exact absurd (hr.trans (hr.symm hk) hkk') (by simp [this])
      · simp only [hk, Bool.false_eq_true, if_false, ih hl, List.mem_cons]
        constructor
        · rintro ⟨k', hmem, hkk'⟩
          exact ⟨k', .inr hmem, hkk'⟩
        · rintro ⟨k', rfl | hmem, hkk'⟩
          · exact absurd hkk' (by simp [hk])
          · exact ⟨k', hmem, hkk'⟩

/-- A list of inequivalent keys stands for its map whatever its order. -/
theorem find_perm {l l' : List (K × V)} (h : Distinct r l) (hp : l.Perm l') (k : K) :
    find r l k = find r l' k := by
  cases hf : find r l k with
  | none =>
      refine (find_eq_none_iff.mpr fun q hq => ?_).symm
      exact find_eq_none_iff.mp hf q (hp.mem_iff.mpr hq)
  | some v =>
      obtain ⟨k', hmem, hkk'⟩ := (find_eq_some_iff hr h).mp hf
      exact ((find_eq_some_iff hr (h.perm hr hp)).mpr ⟨k', hp.mem_iff.mp hmem, hkk'⟩).symm

/-- Equivalent keys find the same value. -/
theorem find_congr (l : List (K × V)) {k k' : K} (hk : r k k' = true) :
    find r l k = find r l k' := by
  induction l with
  | nil => rfl
  | cons p l ih => simp [rel_left_congr hr hk p.1, ih]

/-- Removing a pair of a list of inequivalent keys erases its class. -/
theorem find_perm_cons_eq_erase {l l' : List (K × V)} (h : Distinct r l) {p : K × V}
    (hp : l.Perm (p :: l')) : find r l' = erase r (find r l) p.1 := by
  funext k
  have hd := (h.perm hr hp)
  rw [erase, find_perm hr h hp, find_cons]
  by_cases hk : r k p.1
  · -- no other pair has a key of the class of `p`
    have hnone : find r l' k = none := find_eq_none_iff.mpr fun q hq => by
      cases hq' : r k q.1
      · rfl
      · have := (distinct_cons.mp hd).1 q hq
        exact absurd (hr.trans (hr.symm hk) hq') (by simp [this])
    simp [hk, hnone]
  · simp [hk]

/-- An update at equivalent keys is one update. -/
theorem update_congr (M : K → Option V) {k k' : K} (hk : r k k' = true) (v : V) :
    update r M k v = update r M k' v := by
  funext q
  simp [update, rel_right_congr hr hk q]

/-- An erase at equivalent keys is one erase. -/
theorem erase_congr (M : K → Option V) {k k' : K} (hk : r k k' = true) :
    erase r M k = erase r M k' := by
  funext q
  simp [erase, rel_right_congr hr hk q]

/-- Erasing a class the map lacks changes nothing. -/
theorem erase_find_of_eq_none (l : List (K × V)) {k : K} (hk : find r l k = none) :
    erase r (find r l) k = find r l := by
  funext q
  by_cases h : r q k
  · simp only [erase, h, if_true]
    rw [find_congr hr l h, hk]
  · simp [erase, h]

/-- The length of a list of inequivalent keys is the size of its map. -/
theorem size_find {l : List (K × V)} (h : Distinct r l) : size r (find r l) = l.length := by
  classical
  let q : K × V → Quot fun a b => r a b = true := fun p => Quot.mk _ p.1
  -- the classes of the map are those of the keys in the list, one per pair
  have hset : {c : Quot fun a b => r a b = true | ∃ k, Quot.mk _ k = c ∧ find r l k ≠ none} =
      q '' {p | p ∈ l} := by
    ext c
    induction c using Quot.ind with
    | mk k =>
        simp only [Set.mem_ofPred_eq, Set.mem_image]
        constructor
        · rintro ⟨k', hk', hne⟩
          obtain ⟨v, hv⟩ := Option.ne_none_iff_exists'.mp hne
          obtain ⟨k'', hmem, hrel⟩ := (find_eq_some_iff hr h).mp hv
          refine ⟨(k'', v), hmem, ?_⟩
          rw [← hk']
          exact Quot.sound (hr.symm hrel)
        · rintro ⟨p, hmem, hp⟩
          refine ⟨p.1, hp, fun hn => ?_⟩
          have := find_eq_none_iff.mp hn p hmem
          simp [hr.refl p.1] at this
  have hinj : Set.InjOn q {p | p ∈ l} := by
    intro a ha b hb hab
    by_contra hne
    have hrel : r a.1 b.1 = true := hr.eqvGen_iff.mp (Quot.eqvGen_exact hab)
    have : Std.Symm fun a b : K × V => r a.1 b.1 = false := ⟨fun _ _ hab => symm_false hr hab⟩
    have := h.forall ha hb hne
    simp [hrel] at this
  have hnd : l.Nodup := h.imp fun {a b} hab hEq => by
    subst hEq
    simp [hr.refl a.1] at hab
  rw [size, hset, hinj.ncard_image,
    show {p | p ∈ l} = (l.toFinset : Set (K × V)) by ext; simp, Set.ncard_coe_finset,
    List.toFinset_card_of_nodup hnd]

end Equiv

end AssocMap
