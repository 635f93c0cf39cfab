import Mathlib

/-! The circular list of `circ_list.h`. A list has `x_cap` slots, of which the `x_size` live items
start at slot `x_head` and wrap around. `CIRC_LIST_PUSH` moves the head back one slot before it
stores, so item `0` is always the newest one: read in item order the live items are a stack that
drops its oldest item once `x_cap` items are live. `toList` is that reading, and every macro is
related to a list operation on it. -/

namespace OpenVpn

/-- `CIRC_LIST(name, type)`: the slots `x_list`, the head slot `x_head`, the number `x_size` of live
items and the capacity `x_cap`. -/
structure CircList (α : Type) where
  cap : Nat
  head : Nat
  size : Nat
  list : Vector α cap
  head_lt : head < cap
  size_le : size ≤ cap

namespace CircList

variable {α : Type}

theorem cap_pos (c : CircList α) : 0 < c.cap :=
  Nat.lt_of_le_of_lt (Nat.zero_le _) c.head_lt

/-- `CIRC_LIST_ALLOC`: `cap` slots cleared by `memset`, no live item. -/
def alloc (cap : Nat) (hcap : 0 < cap) (zero : α) : CircList α :=
  ⟨cap, 0, 0, Vector.replicate cap zero, hcap, Nat.zero_le _⟩

/-- `CIRC_LIST_INDEX`: for an index `0 ≤ i < x_size` (the range `index_verify` lets through),
`modulo_add(x_head, i, x_cap)` is the remainder of `x_head + i`. -/
def index (c : CircList α) (i : Nat) : Nat := (c.head + i) % c.cap

theorem index_lt (c : CircList α) (i : Nat) : c.index i < c.cap :=
  Nat.mod_lt _ c.cap_pos

/-- `CIRC_LIST_ITEM` read as a value. -/
def item (c : CircList α) (i : Nat) : α := c.list.get ⟨c.index i, c.index_lt i⟩

/-- `CIRC_LIST_ITEM` assigned to. -/
def setItem (c : CircList α) (i : Nat) (x : α) : CircList α :=
  { c with list := c.list.set (c.index i) x (c.index_lt i) }

/-- `CIRC_LIST_PUSH`: the head moves back one slot (`modulo_add(x_head, -1, x_cap)`), the item is
stored there and the size grows, up to the capacity. -/
def push (c : CircList α) (x : α) : CircList α where
  cap := c.cap
  head := (c.head + c.cap - 1) % c.cap
  size := min (c.size + 1) c.cap
  list := c.list.set ((c.head + c.cap - 1) % c.cap) x (Nat.mod_lt _ c.cap_pos)
  head_lt := Nat.mod_lt _ c.cap_pos
  size_le := Nat.min_le_right _ _

/-- `CIRC_LIST_RESET`: no live item; the slots keep their contents. -/
def reset (c : CircList α) : CircList α :=
  { c with head := 0, size := 0, head_lt := c.cap_pos, size_le := Nat.zero_le _ }

/-- The live items in item order, newest first. -/
def toList (c : CircList α) : List α := List.ofFn fun i : Fin c.size => c.item i

@[simp] theorem cap_push (c : CircList α) (x : α) : (c.push x).cap = c.cap := rfl
@[simp] theorem size_push (c : CircList α) (x : α) : (c.push x).size = min (c.size + 1) c.cap := rfl
@[simp] theorem cap_setItem (c : CircList α) (i : Nat) (x : α) : (c.setItem i x).cap = c.cap := rfl
@[simp] theorem size_setItem (c : CircList α) (i : Nat) (x : α) : (c.setItem i x).size = c.size :=
  rfl
@[simp] theorem cap_reset (c : CircList α) : c.reset.cap = c.cap := rfl
@[simp] theorem size_reset (c : CircList α) : c.reset.size = 0 := rfl
@[simp] theorem cap_alloc (cap : Nat) (hcap : 0 < cap) (zero : α) : (alloc cap hcap zero).cap = cap :=
  rfl

@[simp] theorem length_toList (c : CircList α) : c.toList.length = c.size := by
  simp [toList]

@[simp] theorem getElem_toList (c : CircList α) {i : Nat} (h : i < c.toList.length) :
    c.toList[i] = c.item i := by
  simp [toList]

theorem getElem?_toList (c : CircList α) (i : Nat) :
    c.toList[i]? = if i < c.size then some (c.item i) else none := by
  split_ifs with h
  · rw [List.getElem?_eq_getElem (by simpa using h), getElem_toList]
  · exact List.getElem?_eq_none (by simpa using h)

theorem toList_eq_nil_iff (c : CircList α) : c.toList = [] ↔ c.size = 0 := by
  rw [← List.length_eq_zero_iff, length_toList]

@[simp] theorem toList_alloc (cap : Nat) (hcap : 0 < cap) (zero : α) :
    (alloc cap hcap zero).toList = [] := by
  simp [toList, alloc]

@[simp] theorem toList_reset (c : CircList α) : c.reset.toList = [] := by
  simp [toList, reset]

theorem length_toList_le (c : CircList α) : c.toList.length ≤ c.cap := by
  simpa using c.size_le

private theorem mod_of_lt_two_mul {a n : Nat} (h : a < 2 * n) :
    a % n = if a < n then a else a - n := by
  split_ifs with hlt
  · exact Nat.mod_eq_of_lt hlt
  · rw [Nat.mod_eq_sub_mod (by omega), Nat.mod_eq_of_lt (by omega)]

/-- Distinct live items sit in distinct slots. -/
theorem index_ne (c : CircList α) {i j : Nat} (hi : i < c.cap) (hj : j < c.cap) (hij : i ≠ j) :
    c.index i ≠ c.index j := by
  have hh := c.head_lt
  simp only [index]
  rw [mod_of_lt_two_mul (by omega), mod_of_lt_two_mul (a := c.head + j) (by omega)]
  split_ifs <;> omega

theorem item_setItem (c : CircList α) {i j : Nat} (x : α) (hi : i < c.cap) (hj : j < c.cap) :
    (c.setItem i x).item j = if j = i then x else c.item j := by
  change (c.list.set (c.index i) x (c.index_lt i)).get ⟨c.index j, c.index_lt j⟩ = _
  rw [Vector.get_eq_getElem]
  split_ifs with h
  · subst h
    exact Vector.getElem_set_self _
  · exact Vector.getElem_set_ne _ _ (c.index_ne hi hj (Ne.symm h))

theorem toList_setItem (c : CircList α) {i : Nat} (x : α) (hi : i < c.size) :
    (c.setItem i x).toList = c.toList.set i x := by
  have hcap := c.size_le
  apply List.ext_getElem
  · simp
  · intro j hj _
    have hj' : j < c.size := by simpa using hj
    rw [getElem_toList, item_setItem c x (by omega) (by omega), List.getElem_set]
    split_ifs with h1 h2 h2
    · rfl
    · exact absurd h1.symm h2
    · exact absurd h2.symm h1
    · exact (getElem_toList c _).symm

/-- After a push, item `k + 1` is the old item `k`, as long as it is not pushed out. -/
theorem item_push_succ (c : CircList α) (x : α) {k : Nat} (hk : k + 1 < c.cap) :
    (c.push x).item (k + 1) = c.item k := by
  have hh := c.head_lt
  have hslot : ((c.head + c.cap - 1) % c.cap + (k + 1)) % c.cap = c.index k := by
    rw [Nat.mod_add_mod, index, show c.head + c.cap - 1 + (k + 1) = c.head + k + c.cap by omega,
      Nat.add_mod_right]
  have hne : c.index k ≠ (c.head + c.cap - 1) % c.cap := by
    have := c.index_ne (i := k) (j := c.cap - 1) (by omega) (by omega) (by omega)
    rwa [index, index, show c.head + (c.cap - 1) = c.head + c.cap - 1 by omega] at this
  change (c.list.set _ x (Nat.mod_lt _ c.cap_pos)).get
      ⟨((c.head + c.cap - 1) % c.cap + (k + 1)) % c.cap, Nat.mod_lt _ c.cap_pos⟩ = _
  rw [Vector.get_eq_getElem]
  simp only [hslot]
  exact Vector.getElem_set_ne _ _ (Ne.symm hne)

theorem item_push_zero (c : CircList α) (x : α) : (c.push x).item 0 = x := by
  change (c.list.set _ x (Nat.mod_lt _ c.cap_pos)).get
      ⟨((c.head + c.cap - 1) % c.cap + 0) % c.cap, Nat.mod_lt _ c.cap_pos⟩ = x
  rw [Vector.get_eq_getElem]
  simp

/-- `CIRC_LIST_PUSH` is a bounded stack push. -/
theorem toList_push (c : CircList α) (x : α) :
    (c.push x).toList = (x :: c.toList).take c.cap := by
  apply List.ext_getElem?
  intro j
  rw [getElem?_toList, List.getElem?_take]
  cases j with
  | zero =>
      simp [item_push_zero, c.cap_pos]
  | succ k =>
      simp only [size_push, List.getElem?_cons_succ, getElem?_toList]
      by_cases hk : k + 1 < c.cap
      · rw [item_push_succ c x hk]
        by_cases hs : k < c.size
        · simp [hs, hk]
        · simp [hs, hk]
      · simp [hk]

end CircList

end OpenVpn
