import Mathlib.Data.List.Nodup

/-! The history of a queue whose items are numbered as they arrive: `n` items have been pushed,
numbered `0, …, n - 1`; `out` were popped, in order; `gone` left the queue without being popped;
`queued` are still in it, oldest first. The invariant `TagQueue.Inv` is the FIFO law as a
conservation equation: the items popped and then the items queued are, in the order they came,
the items that did not go. Each operation keeps it. -/

/-- A queue's history over numbered items. -/
structure TagQueue where
  n : Nat
  queued : List Nat
  out : List Nat
  gone : List Nat
  deriving DecidableEq, Repr

namespace TagQueue

/-- No item has come yet. -/
def empty : TagQueue := ⟨0, [], [], []⟩

/-- The next item joins at the back. -/
def push (q : TagQueue) : TagQueue := { q with n := q.n + 1, queued := q.queued ++ [q.n] }

/-- The front item is popped. -/
def pop (q : TagQueue) : TagQueue :=
  { q with queued := q.queued.tail, out := q.out ++ q.queued.head?.toList }

/-- The front item goes without being popped. -/
def drop (q : TagQueue) : TagQueue :=
  { q with queued := q.queued.tail, gone := q.gone ++ q.queued.head?.toList }

/-- The queued items that satisfy `p` go. -/
def removeWhere (p : Nat → Bool) (q : TagQueue) : TagQueue :=
  { q with queued := q.queued.filter (fun t => !p t), gone := q.gone ++ q.queued.filter p }

/-- The FIFO law, and no item goes before it comes. -/
structure Inv (q : TagQueue) : Prop where
  order : q.out ++ q.queued = (List.range q.n).filter (· ∉ q.gone)
  gone_lt : ∀ t ∈ q.gone, t < q.n

variable {q : TagQueue}

theorem empty_inv : empty.Inv := ⟨rfl, fun _ h => absurd h List.not_mem_nil⟩

theorem Inv.nodup (h : q.Inv) : (q.out ++ q.queued).Nodup := by
  rw [h.order]
  exact List.nodup_range.filter _

theorem Inv.mem_iff (h : q.Inv) {t : Nat} : t ∈ q.out ++ q.queued ↔ t < q.n ∧ t ∉ q.gone := by
  rw [h.order, List.mem_filter, List.mem_range, decide_eq_true_iff]

theorem Inv.lt_of_mem_queued (h : q.Inv) {t : Nat} (ht : t ∈ q.queued) : t < q.n :=
  (h.mem_iff.mp (List.mem_append_right _ ht)).1

theorem Inv.lt_of_mem_out (h : q.Inv) {t : Nat} (ht : t ∈ q.out) : t < q.n :=
  (h.mem_iff.mp (List.mem_append_left _ ht)).1

/-- Items that go from the queue leave the popped ones in place. -/
theorem Inv.filter_gone_append (h : q.Inv) {r : List Nat} (hr : ∀ t ∈ r, t ∈ q.queued) :
    (List.range q.n).filter (· ∉ q.gone ++ r) = q.out ++ q.queued.filter (· ∉ r) := by
  have hdisj := (List.nodup_append.mp h.nodup).2.2
  have hout : q.out.filter (· ∉ r) = q.out :=
    List.filter_eq_self.mpr fun t ht => decide_eq_true fun htr => hdisj t ht t (hr t htr) rfl
  rw [← hout, ← List.filter_append, h.order, List.filter_filter]
  refine List.filter_congr fun t _ => ?_
  simp only [List.mem_append, not_or, Bool.decide_and]
  exact Bool.and_comm _ _

theorem Inv.push (h : q.Inv) : q.push.Inv := by
  have hn : q.n ∉ q.gone := fun hg => Nat.lt_irrefl _ (h.gone_lt _ hg)
  constructor
  · show q.out ++ (q.queued ++ [q.n]) = (List.range (q.n + 1)).filter (· ∉ q.gone)
    rw [← List.append_assoc, h.order, List.range_succ, List.filter_append]
    simp [hn]
  · intro t ht
    exact Nat.lt_succ_of_lt (h.gone_lt t ht)

theorem Inv.pop (h : q.Inv) : q.pop.Inv := by
  obtain ⟨n, queued, out, gone⟩ := q
  cases queued with
  | nil => simpa [TagQueue.pop] using h
  | cons t rest =>
      refine ⟨?_, h.gone_lt⟩
      show (out ++ [t]) ++ rest = _
      rw [List.append_assoc]
      exact h.order

theorem Inv.drop (h : q.Inv) : q.drop.Inv := by
  obtain ⟨n, queued, out, gone⟩ := q
  cases queued with
  | nil => simpa [TagQueue.drop] using h
  | cons t rest =>
      have hrest : t ∉ rest := (List.nodup_cons.mp (List.nodup_append.mp h.nodup).2.1).1
      constructor
      · show out ++ rest = (List.range n).filter (· ∉ gone ++ [t])
        rw [h.filter_gone_append fun u hu => List.mem_cons.mpr (Or.inl (List.mem_singleton.mp hu))]
        congr 1
        rw [List.filter_cons_of_neg (by simp)]
        refine (List.filter_eq_self.mpr fun u hu => ?_).symm
        have hne : u ≠ t := fun hut => hrest (hut ▸ hu)
        simpa using hne
      · intro u hu
        rcases List.mem_append.mp hu with hu | hu
        · exact h.gone_lt u hu
        · rw [List.mem_singleton.mp hu]
          exact h.lt_of_mem_queued List.mem_cons_self

theorem Inv.removeWhere (h : q.Inv) (p : Nat → Bool) : (q.removeWhere p).Inv := by
  constructor
  · show q.out ++ q.queued.filter (fun t => !p t) =
      (List.range q.n).filter (· ∉ q.gone ++ q.queued.filter p)
    rw [h.filter_gone_append fun t ht => (List.mem_filter.mp ht).1]
    congr 1
    refine List.filter_congr fun t ht => ?_
    simp [ht]
  · intro t ht
    rcases List.mem_append.mp ht with ht | ht
    · exact h.gone_lt t ht
    · exact h.lt_of_mem_queued (List.mem_filter.mp ht).1

end TagQueue
