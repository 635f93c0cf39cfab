import Mathlib.Data.List.Basic

/-! Fixed-size C arrays whose cells may never have been written. A cell is `none` until a store
reaches it; a store or a load that reaches past the end of the array is an access fault, `none`
from the operation. A `memcpy` between two such arrays copies unwritten cells as they are, so
what a function finally sends can be checked for bytes that were never initialised (`values`).
The lemmas say how stores and loads at known positions compose. -/

namespace OpenVpn

/-- An array of cells, `none` for a cell never written. -/
abbrev Cells (α : Type) := List (Option α)

namespace Cells

variable {α : Type}

/-- An automatic array of `n` cells without an initialiser. -/
def uninit (n : Nat) : Cells α := List.replicate n none

/-- Cells holding the values of `l`. -/
def ofList (l : List α) : Cells α := l.map some

/-- A store of `src` at `start`: `memcpy(&m[start], src, len)`, or a run of assignments. -/
def store (m : Cells α) (start : Nat) (src : Cells α) : Option (Cells α) :=
  if start + src.length ≤ m.length then some (m.take start ++ src ++ m.drop (start + src.length))
  else none

/-- A load of the `n` cells from `start`. -/
def load (m : Cells α) (start n : Nat) : Option (Cells α) :=
  if start + n ≤ m.length then some ((m.drop start).take n) else none

/-- The values of cells that were all written. -/
def values (c : Cells α) : Option (List α) := c.mapM id

@[simp] theorem length_uninit (n : Nat) : (uninit n : Cells α).length = n := List.length_replicate

@[simp] theorem length_ofList (l : List α) : (ofList l).length = l.length := List.length_map _

@[simp] theorem ofList_append (l l' : List α) : ofList (l ++ l') = ofList l ++ ofList l' :=
  List.map_append

theorem store_eq {m src : Cells α} {start : Nat} (h : start + src.length ≤ m.length) :
    m.store start src = some (m.take start ++ src ++ m.drop (start + src.length)) := by
  rw [store, if_pos h]

theorem store_of_lt {m src : Cells α} {start : Nat} (h : m.length < start + src.length) :
    m.store start src = none := by
  rw [store, if_neg (by omega)]

theorem load_eq {m : Cells α} {start n : Nat} (h : start + n ≤ m.length) :
    m.load start n = some ((m.drop start).take n) := by
  rw [load, if_pos h]

theorem load_of_lt {m : Cells α} {start n : Nat} (h : m.length < start + n) :
    m.load start n = none := by
  rw [load, if_neg (by omega)]

/-- A store that fits keeps the length of the array. -/
theorem store_some {m : Cells α} {n : Nat} (start : Nat) (src : Cells α) (hm : m.length = n)
    (h : start + src.length ≤ n) : ∃ m', m.store start src = some m' ∧ m'.length = n :=
  ⟨_, store_eq (by omega), by simp; omega⟩

/-- A store into an array cut at `a.length` that stays in the part before the cut. -/
theorem store_append_left {a b src : Cells α} {start : Nat} (h : start + src.length ≤ a.length) :
    (a ++ b).store start src = (a.store start src).map (· ++ b) := by
  rw [store_eq (by simp; omega), store_eq h, Option.map_some, List.take_append_of_le_length
    (by omega), List.drop_append_of_le_length h]
  simp only [List.append_assoc]

/-- A store into an array cut at `a.length` that stays in the part after the cut. -/
theorem store_append_right {a b src : Cells α} {start : Nat} (h : a.length ≤ start) :
    (a ++ b).store start src = (b.store (start - a.length) src).map (a ++ ·) := by
  by_cases hfit : start + src.length ≤ a.length + b.length
  · rw [store_eq (by simp; omega), store_eq (by omega), Option.map_some, List.take_append,
      List.take_of_length_le h, List.drop_append, List.drop_eq_nil_of_le (by omega),
      List.nil_append, show start + src.length - a.length = start - a.length + src.length by omega]
    simp only [List.append_assoc]
  · rw [store_of_lt (by simp; omega), store_of_lt (by omega), Option.map_none]

/-- A store that replaces a whole part of the array. -/
theorem store_append_exact (a : Cells α) {b c src : Cells α} {start : Nat} (hs : start = a.length)
    (h : src.length = b.length) : (a ++ b ++ c).store start src = some (a ++ src ++ c) := by
  subst hs
  have e : a ++ b ++ c = a ++ (b ++ c) := List.append_assoc a b c
  rw [store_eq (by simp; omega), e, List.take_left, List.drop_append, List.drop_eq_nil_of_le
    (by omega), List.nil_append, show a.length + src.length - a.length = b.length by omega,
    List.drop_left]

/-- A store of values inside a block of values between two other parts of the array. -/
theorem store_block (pre : Cells α) {post : Cells α} {b src : List α} (k : Nat) {start : Nat}
    (hk : start = pre.length + k) (h : k + src.length ≤ b.length) :
    (pre ++ ofList b ++ post).store start (ofList src) =
      some (pre ++ ofList (b.take k ++ src ++ b.drop (k + src.length)) ++ post) := by
  subst hk
  rw [store_append_left (by simp; omega), store_append_right (by omega), Nat.add_sub_cancel_left,
    store_eq (by simp; omega)]
  simp [ofList, List.map_take, List.map_drop]

/-- A load of a whole part of the array. -/
theorem load_append_exact (a b c : Cells α) : (a ++ b ++ c).load a.length b.length = some b := by
  rw [load_eq (by simp), List.append_assoc, List.drop_left, List.take_left]

/-- A load of the part at the start of the array. -/
theorem load_prefix (b c : Cells α) : (b ++ c).load 0 b.length = some b := by
  simpa using load_append_exact [] b c

@[simp] theorem values_nil : values ([] : Cells α) = some [] := rfl

@[simp] theorem values_ofList (l : List α) : values (ofList l) = some l := by
  induction l with
  | nil => rfl
  | cons a l ih =>
      simp only [values, ofList, List.map_cons, List.mapM_cons] at ih ⊢
      rw [ih]
      rfl

end Cells

end OpenVpn
