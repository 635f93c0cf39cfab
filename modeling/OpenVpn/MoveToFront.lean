import Mathlib.Data.List.Basic

/-! A move-to-front list of capacity `k`: an entry goes to the front, leaving the place it held,
and the list keeps its first `k` entries. Over a list of distinct entries each push is one step of
`List.eraseDups`, which keeps first occurrences: pushing `a` onto the first `k` distinct entries of
`l` gives the first `k` distinct entries of `a :: l`. -/

namespace MoveToFront

variable {α : Type} [BEq α] [LawfulBEq α]

/-- Filtering commutes with dropping repeated entries. -/
theorem eraseDups_filter (p : α → Bool) : ∀ l : List α,
    (l.filter p).eraseDups = l.eraseDups.filter p
  | [] => rfl
  | b :: t => by
      have ih := eraseDups_filter p (t.filter fun c => !c == b)
      rw [List.eraseDups_cons]
      by_cases hb : p b = true
      · rw [List.filter_cons_of_pos hb, List.eraseDups_cons, List.filter_cons_of_pos hb, ← ih,
          List.filter_comm]
      · -- every entry that `p` keeps differs from `b`, so filtering out `b` first changes nothing
        have hkeep : (t.filter fun c => !c == b).filter p = t.filter p := by
          rw [List.filter_filter]
          apply List.filter_congr
          intro c _
          by_cases hc : p c = true
          · have hcb : (c == b) = false := beq_eq_false_iff_ne.mpr fun he => hb (he ▸ hc)
            simp [hc, hcb]
          · simp [hc]
        rw [List.filter_cons_of_neg hb, List.filter_cons_of_neg hb, ← ih, hkeep]
termination_by l => l.length
decreasing_by exact Nat.lt_succ_of_le (List.length_filter_le _ t)

theorem nodup_eraseDups : ∀ l : List α, l.eraseDups.Nodup
  | [] => List.nodup_nil
  | b :: t => by
      rw [List.eraseDups_cons, List.nodup_cons, List.mem_eraseDups, List.mem_filter]
      exact ⟨fun h => by simp at h, nodup_eraseDups _⟩
termination_by l => l.length
decreasing_by exact Nat.lt_succ_of_le (List.length_filter_le _ t)

theorem eraseDups_of_nodup : ∀ {l : List α}, l.Nodup → l.eraseDups = l
  | [], _ => rfl
  | b :: t, h => by
      obtain ⟨hb, ht⟩ := List.nodup_cons.mp h
      have hfilter : (t.filter fun c => !c == b) = t :=
        List.filter_eq_self.mpr fun c hc => by simpa using fun he : c = b => hb (he ▸ hc)
      rw [List.eraseDups_cons, hfilter, eraseDups_of_nodup ht]

/-- The first occurrence of `a` is the one `eraseDups` keeps; the rest of the list loses `a`. -/
theorem eraseDups_cons_erase (a : α) (l : List α) :
    (a :: l).eraseDups = a :: l.eraseDups.erase a := by
  rw [List.eraseDups_cons, eraseDups_filter, (nodup_eraseDups l).erase_eq_filter]
  rfl

/-- The first `k` entries after erasing `a` from the first `k + 1` are the first `k` entries after
erasing it from the whole list. -/
theorem take_erase_take {a : α} : ∀ {k : Nat} {l : List α},
    ((l.take (k + 1)).erase a).take k = (l.erase a).take k
  | 0, _ => by simp
  | _ + 1, [] => rfl
  | k + 1, x :: l => by
      rw [List.take_succ_cons]
      by_cases hx : x = a
      · rw [hx, List.erase_cons_head, List.erase_cons_head, List.take_take, Nat.min_def,
          if_pos (by omega)]
      · have hxa : (x == a) = false := beq_eq_false_iff_ne.mpr hx
        rw [List.erase_cons_tail (by simpa using hxa), List.erase_cons_tail (by simpa using hxa),
          List.take_succ_cons, List.take_succ_cons, take_erase_take]

/-- One push onto the first `k` distinct entries of `l` gives the first `k` distinct entries of
`a :: l`: the entry it erases lies among the first `k`, or the cut at `k` drops it anyway. -/
theorem push_take_eraseDups (k : Nat) (a : α) (l : List α) :
    (a :: (l.eraseDups.take k).erase a).take k = (a :: l).eraseDups.take k := by
  rw [eraseDups_cons_erase]
  cases k with
  | zero => rfl
  | succ k => rw [List.take_succ_cons, List.take_succ_cons, take_erase_take]

end MoveToFront
