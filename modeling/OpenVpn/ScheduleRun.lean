import OpenVpn.ScheduleOps

/-! Runs of the scheduler's interface from `schedule_init` over zeroed entries. A run is a list of
`schedule_add_entry`, `schedule_remove_entry` and `schedule_get_earliest_wakeup` calls; `TreapInv`
holds at its start and each call keeps it (`scheduleStep_inv`), so it holds after every call, with
the tree holding the entries added and not removed since. What the invariant says in the terms of
`schedule.c` (reachable nodes, consistent links, the order and the heap order, the least entry) is
read off it in its own lemmas, and so is that the next call returns with enough fuel. -/

namespace OpenVpn

open LinkedTree Schedule

variable {E : Type}

/-- A call of the scheduler's interface. -/
inductive ScheduleOp (E : Type) where
  | addEntry (e : E) (tv : Timeval) (sigma : UInt32)
  | removeEntry (e : E)
  | getEarliestWakeup
  deriving Repr

/-! ### What the invariant says of the links -/

section Reading

variable {s : Schedule E} {T : BinaryTree E}

/-- The nodes reachable from `s->root` are those of the tree. -/
theorem TreapInv.reach_iff (h : TreapInv s T) (x : E) :
    Reach s.links s.root x ↔ x ∈ inorder T :=
  h.isTree.reach_iff

/-- The root has no parent. -/
theorem TreapInv.root_parent (h : TreapInv s T) {r : E} (hr : s.root = some r) :
    (s.entry r).parent = none := by
  obtain ⟨hrep, hroot⟩ := h.isTree
  cases hrep with
  | nil => simp [hroot] at hr
  | node hp _ _ _ _ =>
      cases hroot.symm.trans hr
      exact hp

/-- A node links to a child exactly when the child's parent link points back. -/
theorem TreapInv.child_iff_parent (h : TreapInv s T) (x y : E) :
    ((s.entry x).lt = some y ∨ (s.entry x).gt = some y) ↔ (s.entry y).parent = some x := by
  constructor
  · rintro (hy | hy)
    · -- an entry outside the tree has no child link
      by_cases hx : x ∈ inorder T
      · exact (h.isTree.1.lt_mem hx hy).2
      · simp [(h.detached x hx).2.1] at hy
    · by_cases hx : x ∈ inorder T
      · exact (h.isTree.1.gt_mem hx hy).2
      · simp [(h.detached x hx).2.2] at hy
  · intro hp
    by_cases hy : y ∈ inorder T
    · rcases h.isTree.1.parent_mem hy with ⟨hnone, -⟩ | ⟨x', -, hpx', hlink⟩
      · simp [hp] at hnone
      · cases hp.symm.trans hpx'
        exact hlink
    · simp [(h.detached y hy).1] at hp

/-- A node's priority is at most each child's. -/
theorem TreapInv.pri_le_child (h : TreapInv s T) {x y : E}
    (hy : (s.entry x).lt = some y ∨ (s.entry x).gt = some y) : (s.entry x).pri ≤ (s.entry y).pri := by
  have hx : x ∈ inorder T := by
    by_contra hx
    obtain ⟨-, hlt, hgt⟩ := h.detached x hx
    simp [hlt, hgt] at hy
  exact UInt32.le_iff_toNat_le.mpr (h.heap.le_child h.isTree.1 hx hy)

/-- The tree is empty exactly when `s->root` is `NULL`. -/
theorem TreapInv.inorder_eq_nil_iff (h : TreapInv s T) : inorder T = [] ↔ s.root = none := by
  rw [h.isTree.2]
  cases T <;> simp

/-- The first node in order comes before every other node. -/
theorem TreapInv.head_least (h : TreapInv s T) {m : E} (hm : (inorder T).head? = some m) :
    m ∈ inorder T ∧ ∀ y ∈ inorder T, y ≠ m → s.Before m y := by
  obtain ⟨rest, hT⟩ := List.head?_eq_some_iff.mp hm
  have hsort := h.sorted
  rw [hT, List.pairwise_cons] at hsort
  refine ⟨by simp [hT], fun y hy hym => hsort.1 y ?_⟩
  rw [hT, List.mem_cons] at hy
  exact hy.resolve_left hym

/-- `schedule_get_earliest_wakeup` returns the first node in order when its search has more fuel
than the tree has nodes. -/
theorem TreapInv.getEarliestWakeup_returns (h : TreapInv s T) {fuel : Nat}
    (hfuel : (inorder T).length < fuel) :
    ∃ s', scheduleGetEarliestWakeup s fuel = some (s', (inorder T).head?) := by
  rcases scheduleGetEarliestWakeup_spec fuel h with ⟨-, hle⟩ | ⟨s', hs', -⟩
  · omega
  · exact ⟨s', hs'⟩

end Reading

variable [DecidableEq E]

/-- Whether `x` is scheduled after `op`, given whether it was before. -/
def ScheduleOp.scheduled (x : E) (b : Bool) : ScheduleOp E → Bool
  | .addEntry e _ _ => if x = e then true else b
  | .removeEntry e => if x = e then false else b
  | .getEarliestWakeup => b

/-- Whether `x` is scheduled after `ops`: added and not removed since, or scheduled at the start
(`b`) and not removed since. -/
def ScheduleOp.scheduledAfter (x : E) (b : Bool) (ops : List (ScheduleOp E)) : Bool :=
  ops.foldl (fun b op => op.scheduled x b) b

/-- One call, with the random values `pris` left and the fuel of its loops. -/
def scheduleStep (s : Schedule E) (pris : List UInt32) (fuel : Nat) :
    ScheduleOp E → Option (Schedule E × List UInt32)
  | .addEntry e tv sigma => scheduleAddEntry s e tv sigma pris fuel
  | .removeEntry e => (scheduleRemoveEntry s e fuel).map fun s => (s, pris)
  | .getEarliestWakeup => (scheduleGetEarliestWakeup s fuel).map fun r => (r.1, pris)

/-- A run of calls; it stops at the first call that does not return. -/
def scheduleRun (s : Schedule E) (pris : List UInt32) (fuel : Nat) :
    List (ScheduleOp E) → Option (Schedule E × List UInt32)
  | [] => some (s, pris)
  | op :: ops => (scheduleStep s pris fuel op).bind fun r => scheduleRun r.1 r.2 fuel ops

/-! ### The invariant along a run -/

omit [DecidableEq E] in
/-- `schedule_init` over zeroed entries: the empty tree. -/
theorem treapInv_scheduleInit (entry : E → ScheduleEntry E)
    (hzero : ∀ x, (entry x).pri = 0 ∧ (entry x).parent = none ∧ (entry x).lt = none ∧
      (entry x).gt = none) :
    TreapInv (scheduleInit entry) .nil where
  isTree := ⟨.nil none, rfl⟩
  nodup := List.nodup_nil
  heap := trivial
  inTree x := by simp [scheduleInit, (hzero x).1]
  detached x _ := by simp [scheduleInit, hzero x]
  sorted := List.Pairwise.nil
  cache w hw := by cases hw

/-- One call keeps the invariant, over the tree of the entries it leaves scheduled. -/
theorem scheduleStep_inv {s s' : Schedule E} {T : BinaryTree E} {pris pris' : List UInt32}
    {fuel : Nat} {op : ScheduleOp E} (hinv : TreapInv s T)
    (h : scheduleStep s pris fuel op = some (s', pris')) :
    ∃ T', TreapInv s' T' ∧ ∀ x, x ∈ inorder T' ↔ op.scheduled x (decide (x ∈ inorder T)) = true := by
  cases op with
  | addEntry e tv sigma =>
      rcases scheduleAddEntry_spec tv sigma pris fuel hinv (e := e) with
        ⟨hn, -⟩ | ⟨s₁, pris₁, T₁, h₁, hinv₁, hmem₁⟩
      · simp [scheduleStep, hn] at h
      · rw [scheduleStep, h₁, Option.some_inj, Prod.mk.injEq] at h
        obtain ⟨rfl, rfl⟩ := h
        refine ⟨T₁, hinv₁, fun x => ?_⟩
        by_cases hx : x = e <;> simp [ScheduleOp.scheduled, hx, hmem₁]
  | removeEntry e =>
      rcases scheduleRemoveEntry_spec fuel hinv (e := e) with
        ⟨hn, -⟩ | ⟨s₁, T₁, h₁, hinv₁, hmem₁⟩
      · simp [scheduleStep, hn] at h
      · simp only [scheduleStep, h₁, Option.map_some, Option.some_inj, Prod.mk.injEq] at h
        obtain ⟨rfl, rfl⟩ := h
        refine ⟨T₁, hinv₁, fun x => ?_⟩
        by_cases hx : x = e <;> simp [ScheduleOp.scheduled, hx, hmem₁]
  | getEarliestWakeup =>
      rcases scheduleGetEarliestWakeup_spec fuel hinv with ⟨hn, -⟩ | ⟨s₁, h₁, hinv₁⟩
      · simp [scheduleStep, hn] at h
      · simp only [scheduleStep, h₁, Option.map_some, Option.some_inj, Prod.mk.injEq] at h
        obtain ⟨rfl, rfl⟩ := h
        exact ⟨T, hinv₁, fun x => by simp [ScheduleOp.scheduled]⟩

/-- A whole run keeps the invariant, over the tree of the entries scheduled after it. -/
theorem scheduleRun_inv {s s' : Schedule E} {T : BinaryTree E} {pris pris' : List UInt32}
    {fuel : Nat} {ops : List (ScheduleOp E)} (hinv : TreapInv s T)
    (h : scheduleRun s pris fuel ops = some (s', pris')) :
    ∃ T', TreapInv s' T' ∧
      ∀ x, x ∈ inorder T' ↔ ScheduleOp.scheduledAfter x (decide (x ∈ inorder T)) ops = true := by
  -- induction on the calls, from any state with the invariant
  induction ops generalizing s T pris with
  | nil =>
      simp only [scheduleRun, Option.some_inj, Prod.mk.injEq] at h
      obtain ⟨rfl, rfl⟩ := h
      exact ⟨T, hinv, fun x => by simp [ScheduleOp.scheduledAfter]⟩
  | cons op ops ih =>
      obtain ⟨⟨s₁, pris₁⟩, h₁, hrest⟩ := Option.bind_eq_some_iff.mp h
      obtain ⟨T₁, hinv₁, hmem₁⟩ := scheduleStep_inv hinv h₁
      obtain ⟨T', hinv', hmem'⟩ := ih hinv₁ hrest
      refine ⟨T', hinv', fun x => ?_⟩
      -- the first call moves the start of the fold to the membership in the tree it leaves
      have hstep : decide (x ∈ inorder T₁) = op.scheduled x (decide (x ∈ inorder T)) := by
        rw [Bool.eq_iff_iff, decide_eq_true_iff, hmem₁]
      simp only [hmem', ScheduleOp.scheduledAfter, List.foldl_cons, hstep]

/-! ### The next call returns -/

section Returns

variable {s : Schedule E} {T : BinaryTree E}

/-- `schedule_remove_entry` returns when its loop has more fuel than the tree has nodes. -/
theorem TreapInv.removeEntry_returns (h : TreapInv s T) (e : E) {fuel : Nat}
    (hfuel : (inorder T).length < fuel) : ∃ s', scheduleRemoveEntry s e fuel = some s' := by
  rcases scheduleRemoveEntry_spec fuel h (e := e) with ⟨-, hle⟩ | ⟨s', -, hs', -⟩
  · omega
  · exact ⟨s', hs'⟩

/-- `schedule_add_entry` returns when its loops have more fuel than the tree has nodes and the
first random value gives `e` a priority that no other node has. -/
theorem TreapInv.addEntry_returns (h : TreapInv s T) (e : E) (tv : Timeval) (sigma r : UInt32)
    (rest : List UInt32) {fuel : Nat} (hfuel : (inorder T).length < fuel)
    (hfresh : ∀ y ∈ inorder T, y ≠ e → (s.entry y).pri ≠ ((scheduleSetPri s e r).entry e).pri) :
    ∃ s' pris', scheduleAddEntry s e tv sigma (r :: rest) fuel = some (s', pris') := by
  rcases scheduleAddEntry_spec tv sigma (r :: rest) fuel h (e := e) with
    ⟨-, hle | hcoll⟩ | ⟨s', pris', -, hs', -⟩
  · omega
  · obtain ⟨y, hy, hye, hpri⟩ := hcoll r rest rfl
    exact absurd hpri (hfresh y hy hye)
  · exact ⟨s', pris', hs'⟩

end Returns

/-! ### Runs from `schedule_init` -/

/-- After every run of calls from `schedule_init` over zeroed entries: the links spell a tree of
distinct nodes, and the nodes reachable from the root are the entries added and not removed
since, which are the entries with a priority. The root has no parent, and a node links to a child
exactly when the child's parent link points back. The nodes are in increasing order under
`schedule_entry_compare`, and no child has a lower priority than its parent.
`schedule_get_earliest_wakeup` returns `NULL` exactly when the tree is empty, and otherwise a node
that comes before every other. Every next call returns when its loops have more fuel than the tree
has nodes, an insertion when its first random value gives a priority no other node has. -/
theorem schedule_treap_invariant (entry : E → ScheduleEntry E)
    (hzero : ∀ x, (entry x).pri = 0 ∧ (entry x).parent = none ∧ (entry x).lt = none ∧
      (entry x).gt = none) :
    ∀ pris fuel ops s pris', scheduleRun (scheduleInit entry) pris fuel ops = some (s, pris') →
      ∃ T, IsTree s.links s.root T ∧ (inorder T).Nodup ∧
        (∀ x, Reach s.links s.root x ↔ ScheduleOp.scheduledAfter x false ops = true) ∧
        (∀ x, Reach s.links s.root x ↔ (s.entry x).pri ≠ 0) ∧
        (∀ r, s.root = some r → (s.entry r).parent = none) ∧
        (∀ x y, ((s.entry x).lt = some y ∨ (s.entry x).gt = some y) ↔
          (s.entry y).parent = some x) ∧
        (inorder T).Pairwise (fun x y => scheduleEntryCompare (s.entry x) (s.entry y) = -1) ∧
        (∀ x y, ((s.entry x).lt = some y ∨ (s.entry x).gt = some y) →
          (s.entry x).pri ≤ (s.entry y).pri) ∧
        (∀ fuel', (inorder T).length < fuel' → ∃ s' w,
          scheduleGetEarliestWakeup s fuel' = some (s', w) ∧ (w = none ↔ s.root = none) ∧
          ∀ m, w = some m → m ∈ inorder T ∧
            ∀ y ∈ inorder T, y ≠ m → scheduleEntryCompare (s.entry m) (s.entry y) = -1) ∧
        (∀ e fuel', (inorder T).length < fuel' → ∃ s', scheduleRemoveEntry s e fuel' = some s') ∧
        ∀ e tv sigma r rest fuel', (inorder T).length < fuel' →
          (∀ y ∈ inorder T, y ≠ e → (s.entry y).pri ≠ ((scheduleSetPri s e r).entry e).pri) →
          ∃ s' pris', scheduleAddEntry s e tv sigma (r :: rest) fuel' = some (s', pris') := by
  intro pris fuel ops s pris' hrun
  obtain ⟨T, hinv, hmem⟩ := scheduleRun_inv (treapInv_scheduleInit entry hzero) hrun
  refine ⟨T, hinv.isTree, hinv.nodup, fun x => ?_, fun x => ?_, fun r => hinv.root_parent,
    hinv.child_iff_parent, hinv.sorted, fun x y => hinv.pri_le_child, fun fuel' hfuel => ?_,
    fun e fuel' => hinv.removeEntry_returns e, fun e tv sigma r rest fuel' =>
      hinv.addEntry_returns e tv sigma r rest⟩
  · rw [hinv.reach_iff, hmem]
    simp
  · rw [hinv.reach_iff, hinv.inTree]
  · obtain ⟨s', hs'⟩ := hinv.getEarliestWakeup_returns hfuel
    refine ⟨s', _, hs', by rw [List.head?_eq_none_iff, hinv.inorder_eq_nil_iff], ?_⟩
    intro m hm
    exact hinv.head_least hm

/-- Two timers added at different times, the first removed again, and a query: the run returns
and the invariant holds after it. -/
theorem schedule_treap_invariant_two_timers :
    (scheduleRun (scheduleInit fun _ : Fin 2 => ⟨⟨0, 0⟩, 0, none, none, none⟩) [5, 7] 4
        [.addEntry 0 ⟨1, 0⟩ 0, .addEntry 1 ⟨2, 0⟩ 0, .removeEntry 0, .getEarliestWakeup]).isSome ∧
      ∀ pris fuel ops s pris', scheduleRun (scheduleInit fun _ : Fin 2 =>
          ⟨⟨0, 0⟩, 0, none, none, none⟩) pris fuel ops = some (s, pris') →
        ∃ T, IsTree s.links s.root T ∧ (inorder T).Nodup ∧
          (∀ x, Reach s.links s.root x ↔ ScheduleOp.scheduledAfter x false ops = true) ∧
          (∀ x, Reach s.links s.root x ↔ (s.entry x).pri ≠ 0) ∧
          (∀ r, s.root = some r → (s.entry r).parent = none) ∧
          (∀ x y, ((s.entry x).lt = some y ∨ (s.entry x).gt = some y) ↔
            (s.entry y).parent = some x) ∧
          (inorder T).Pairwise (fun x y => scheduleEntryCompare (s.entry x) (s.entry y) = -1) ∧
          (∀ x y, ((s.entry x).lt = some y ∨ (s.entry x).gt = some y) →
            (s.entry x).pri ≤ (s.entry y).pri) ∧
          (∀ fuel', (inorder T).length < fuel' → ∃ s' w,
            scheduleGetEarliestWakeup s fuel' = some (s', w) ∧ (w = none ↔ s.root = none) ∧
            ∀ m, w = some m → m ∈ inorder T ∧
              ∀ y ∈ inorder T, y ≠ m → scheduleEntryCompare (s.entry m) (s.entry y) = -1) ∧
          (∀ e fuel', (inorder T).length < fuel' →
            ∃ s', scheduleRemoveEntry s e fuel' = some s') ∧
          ∀ e tv sigma r rest fuel', (inorder T).length < fuel' →
            (∀ y ∈ inorder T, y ≠ e → (s.entry y).pri ≠ ((scheduleSetPri s e r).entry e).pri) →
            ∃ s' pris', scheduleAddEntry s e tv sigma (r :: rest) fuel' = some (s', pris') :=
  ⟨by decide, schedule_treap_invariant _ fun _ => ⟨rfl, rfl, rfl, rfl⟩⟩

end OpenVpn
