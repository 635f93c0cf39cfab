import Mathlib.Data.List.Basic

/-! A queue kept in a ring of `cap` slots: its items are the `count` slots from `head` on,
wrapping at the end of the ring, and a slot outside them may hold a stale value. Writing the slot
after the last item appends to the queue (`view_push`), moving the head one slot on pops the first
item (`view_pop`), and writing a slot inside the window replaces that item (`view_set`). -/

namespace RingQueue

variable {α : Type*}

/-- The slot `offset` places after `head` in a ring of `cap` slots. -/
def index (head offset cap : Nat) : Nat := (head + offset) % cap

/-- The `count` slots from `head` on, oldest first; `d` stands for a slot the list lacks. -/
def view (slots : List α) (d : α) (head cap : Nat) : Nat → List α
  | 0 => []
  | count + 1 => view slots d head cap count ++ [slots.getD (index head count cap) d]

variable {slots : List α} {d : α} {head cap : Nat}

@[simp] theorem view_zero : view slots d head cap 0 = [] := rfl

theorem view_succ (count : Nat) :
    view slots d head cap (count + 1) =
      view slots d head cap count ++ [slots.getD (index head count cap) d] := rfl

@[simp] theorem length_view (count : Nat) : (view slots d head cap count).length = count := by
  induction count with
  | zero => rfl
  | succ count ih => simp [view_succ, ih]

theorem view_eq_map_range (count : Nat) :
    view slots d head cap count = (List.range count).map fun i => slots.getD (index head i cap) d := by
  induction count with
  | zero => rfl
  | succ count ih => rw [view_succ, ih, List.range_succ, List.map_append, List.map_singleton]

theorem index_lt (hcap : 0 < cap) (offset : Nat) : index head offset cap < cap :=
  Nat.mod_lt _ hcap

/-- Offsets within one turn of the ring name distinct slots. -/
theorem index_ne {a b : Nat} (hab : a < b) (hb : b < cap) :
    index head a cap ≠ index head b cap := by
  unfold index
  intro h
  have h0 := Nat.sub_mod_eq_zero_of_mod_eq h.symm
  rw [show head + b - (head + a) = b - a by omega, Nat.mod_eq_of_lt (by omega)] at h0
  omega

theorem index_succ_head (offset : Nat) :
    index (index head 1 cap) offset cap = index head (offset + 1) cap := by
  unfold index
  rw [Nat.mod_add_mod, Nat.add_assoc, Nat.add_comm 1 offset]

theorem getD_view {count i : Nat} (hi : i < count) :
    (view slots d head cap count).getD i d = slots.getD (index head i cap) d := by
  rw [view_eq_map_range, List.getD_eq_getElem?_getD, List.getElem?_map, List.getElem?_range hi]
  rfl

/-- A write outside the window leaves the queue as it is. -/
theorem view_set_outside {j count : Nat} (x : α)
    (hout : ∀ offset < count, j ≠ index head offset cap) :
    view (slots.set j x) d head cap count = view slots d head cap count := by
  induction count with
  | zero => rfl
  | succ count ih =>
      rw [view_succ, view_succ, ih fun offset h => hout offset (by omega),
        List.getD_eq_getElem?_getD, List.getD_eq_getElem?_getD,
        List.getElem?_set_ne (hout count (by omega))]

/-- Writing the slot after the last item appends it. -/
theorem view_push {count : Nat} (x : α) (hlen : slots.length = cap) (hcount : count < cap) :
    view (slots.set (index head count cap) x) d head cap (count + 1) =
      view slots d head cap count ++ [x] := by
  have hlt : index head count cap < slots.length := hlen ▸ index_lt (by omega) count
  rw [view_succ, view_set_outside x fun offset h => (index_ne h hcount).symm,
    List.getD_eq_getElem?_getD, List.getElem?_set_self hlt, Option.getD_some]

/-- Moving the head one slot on pops the first item. -/
theorem view_pop (count : Nat) :
    view slots d head cap (count + 1) =
      slots.getD (index head 0 cap) d :: view slots d (index head 1 cap) cap count := by
  induction count with
  | zero => rfl
  | succ count ih =>
      rw [view_succ, ih, view_succ, index_succ_head]
      rfl

/-- Writing the slot of the item at `offset` replaces that item. -/
theorem view_set {count offset : Nat} (x : α) (hlen : slots.length = cap) (hcount : count ≤ cap)
    (hoff : offset < count) :
    view (slots.set (index head offset cap) x) d head cap count =
      (view slots d head cap count).set offset x := by
  induction count with
  | zero => omega
  | succ count ih =>
      have hlt : index head offset cap < slots.length := hlen ▸ index_lt (by omega) offset
      rw [view_succ, view_succ]
      by_cases hoc : offset < count
      · rw [ih (by omega) hoc, List.set_append_left _ _ (by simp [hoc]),
          List.getD_eq_getElem?_getD, List.getD_eq_getElem?_getD,
          List.getElem?_set_ne (index_ne hoc (by omega))]
      · have : offset = count := by omega
        subst this
        rw [view_set_outside x fun o h => (index_ne h (by omega)).symm,
          List.set_append_right _ _ (by simp), length_view, Nat.sub_self,
          List.getD_eq_getElem?_getD, List.getElem?_set_self hlt]
        rfl

end RingQueue
