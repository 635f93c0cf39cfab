import OpenVpn.ScheduleSpec

/-! The calls of `schedule.h` on a well-formed timer tree. `TreapShape` is what a new wakeup
time for one entry does not break: the links spell a tree of distinct nodes in heap order, the
entries in the tree are those with a priority, and the others have no links. `TreapInv` adds the
order of `schedule_entry_compare` and a cache that is empty or holds the first node. Each call
gets one lemma: it ran out of fuel (or of random values, after a collision) or it returned a
state with the invariant, over a tree with the nodes the call leaves in it. -/

namespace OpenVpn

open LinkedTree Schedule

variable {E : Type}

/-- The shape of the timer tree `T` in `s`. -/
structure TreapShape (s : Schedule E) (T : BinaryTree E) : Prop where
  isTree : IsTree s.links s.root T
  nodup : (inorder T).Nodup
  heap : HeapOrdered s.pri T
  inTree : ∀ x, x ∈ inorder T ↔ (s.entry x).pri ≠ 0
  detached : ∀ x, x ∉ inorder T →
    (s.entry x).parent = none ∧ (s.entry x).lt = none ∧ (s.entry x).gt = none

/-- The invariant of the timer tree `T` in `s`. -/
structure TreapInv (s : Schedule E) (T : BinaryTree E) : Prop extends TreapShape s T where
  sorted : (inorder T).Pairwise s.Before
  cache : ∀ w, s.earliestWakeup = some w → (inorder T).head? = some w

/-- The cache is no part of the shape. -/
theorem TreapShape.setCache {s : Schedule E} {T : BinaryTree E} (h : TreapShape s T)
    (w : Option E) : TreapShape { s with earliestWakeup := w } T :=
  ⟨h.isTree, h.nodup, h.heap, h.inTree, h.detached⟩

variable [DecidableEq E]

theorem links_setTv (s : Schedule E) (e : E) (tv : Timeval) : (s.setTv e tv).links = s.links := by
  simp only [links, Links.mk.injEq]
  refine ⟨funext fun z => ?_, funext fun z => ?_, funext fun z => ?_⟩ <;>
    by_cases hz : z = e <;> simp [hz]

theorem pri_setTv (s : Schedule E) (e : E) (tv : Timeval) : (s.setTv e tv).pri = s.pri := by
  funext z
  by_cases hz : z = e <;> simp [Schedule.pri, hz]

/-- A new wakeup time keeps the shape. -/
theorem TreapShape.setTv {s : Schedule E} {T : BinaryTree E} (h : TreapShape s T) (e : E)
    (tv : Timeval) : TreapShape (s.setTv e tv) T := by
  refine ⟨by rw [links_setTv]; exact h.isTree, h.nodup, by rw [pri_setTv]; exact h.heap,
    fun x => ?_, fun x hx => ?_⟩
  · by_cases hx : x = e
    · subst hx
      simpa using h.inTree x
    · simpa [hx] using h.inTree x
  · by_cases hxe : x = e
    · subst hxe
      simpa using h.detached x hx
    · simpa [hxe] using h.detached x hx

/-- A new wakeup time for `e` keeps the order of the other entries. -/
theorem pairwise_setTv {s : Schedule E} {l : List E} (h : l.Pairwise s.Before) (e : E)
    (tv : Timeval) : l.Pairwise fun x y => x ≠ e → y ≠ e → (s.setTv e tv).Before x y :=
  h.imp fun {x y} hxy hx hy => (before_congr (by simp [hx]) (by simp [hy])).mpr hxy

/-! ### `schedule_remove_node` -/

/-- `schedule_remove_node` on a node of the tree: it sinks, is detached and loses its priority.
The tree loses that node and keeps the order of the others. -/
theorem scheduleRemoveNode_spec {s : Schedule E} {T : BinaryTree E} {e : E} (fuel : Nat)
    (hsh : TreapShape s T) (he : e ∈ inorder T) :
    (scheduleRemoveNode s e fuel = none ∧ fuel ≤ (inorder T).length) ∨
      ∃ s₂ T' L₁ L₂, scheduleRemoveNode s e fuel = some (s₂.setPri e 0) ∧
        Relink s s₂ (· ∈ inorder T) ∧ inorder T = L₁ ++ e :: L₂ ∧ inorder T' = L₁ ++ L₂ ∧
        TreapShape (s₂.setPri e 0) T' := by
  obtain ⟨hrep, hroot⟩ := hsh.isTree
  obtain ⟨fs, a, b, hplug, hc, hr⟩ :=
    exists_focus hrep (show none = holeParent ([] : List (Frame E)) from rfl) hroot he
  have hT : inorder T = ctxLeft fs ++ inorder a ++ e :: inorder b ++ ctxRight fs := by
    rw [← show plug [] T = T from rfl, ← hplug, inorder_plug, inorder_node]
    simp
  have hnd : (inorder (plug fs (.node e a b))).Nodup := by
    rw [hplug]
    exact hsh.nodup
  have hsink : SinkInv s.pri fs (.node e a b) := .of_heapOrdered (by rw [hplug]; exact hsh.heap)
  rcases scheduleRemoveNodeLoop_spec fuel hc hr hnd hsink with
    ⟨hn, hle⟩ | ⟨s₁, fs', hs₁, hc₁, hr₁, hord, hsink₁, hrel₁⟩
  · refine .inl ⟨by simp [scheduleRemoveNode, hn], ?_⟩
    rw [hT]
    simp only [List.length_append, List.length_cons]
    omega
  obtain ⟨s₂, hdet, htree, hpe, hle, hge, hrel₂⟩ := scheduleDetachParent_spec hc₁ hr₁ (hord ▸ hnd)
  have hW : inorder (plug fs (.node e a b)) = inorder T := by rw [hplug]; rfl
  have hsplit : inorder T = ctxLeft fs' ++ e :: ctxRight fs' := by
    rw [← hW, ← hord, inorder_plug]
    simp
  have hrel : Relink s s₂ (· ∈ inorder T) := hW ▸ hrel₁.trans (hord ▸ hrel₂)
  have hnd' := hsh.nodup
  rw [hsplit] at hnd'
  have heT' : e ∉ ctxLeft fs' ++ ctxRight fs' := by
    simp only [List.nodup_append, List.nodup_cons, List.mem_append] at hnd' ⊢
    grind
  -- a node other than `e` is in the new tree exactly when it was in the old one
  have hmem : ∀ x, x ≠ e → (x ∈ ctxLeft fs' ++ ctxRight fs' ↔ x ∈ inorder T) := by
    intro x hx
    rw [hsplit]
    simp [hx]
  have hentry : ∀ x, x ≠ e → ((s₂.setPri e 0).entry x) = s₂.entry x := fun x hx => by simp [hx]
  refine .inr ⟨s₂, plug fs' .nil, ctxLeft fs', ctxRight fs', by simp [scheduleRemoveNode, hs₁, hdet],
    hrel, hsplit, by simp [inorder_plug], ⟨by rw [links_setPri]; exact htree, ?_, ?_, ?_, ?_⟩⟩
  · rw [inorder_plug]
    simp only [inorder_nil, List.append_nil]
    exact hnd'.sublist ((List.sublist_cons_self e _).append_left _)
  · have hheap := hsink₁.heapOrdered
    refine hheap.congr fun x hx => ?_
    have hxe : x ≠ e := fun h => heT' (by simpa [h, inorder_plug] using hx)
    simp [Schedule.pri, hxe, hrel.pri x]
  · intro x
    by_cases hxe : x = e
    · subst hxe
      simpa [inorder_plug] using heT'
    · rw [hentry x hxe, hrel.pri x, ← hsh.inTree x, ← hmem x hxe]
      simp [inorder_plug]
  · intro x hx
    by_cases hxe : x = e
    · subst hxe
      simpa using ⟨hpe, hle, hge⟩
    · have hxT : x ∉ inorder T := fun h => hx (by simpa [inorder_plug] using (hmem x hxe).mpr h)
      rw [hentry x hxe, hrel.frame x hxT]
      exact hsh.detached x hxT

/-- `schedule_remove_node` on an entry outside the tree changes nothing. -/
theorem scheduleRemoveNode_of_not_mem {s : Schedule E} {T : BinaryTree E} {e : E} (fuel : Nat)
    (hsh : TreapShape s T) (he : e ∉ inorder T) (hfuel : 0 < fuel) :
    scheduleRemoveNode s e fuel = some s := by
  obtain ⟨hpe, hle, hge⟩ := hsh.detached e he
  have hpri : (s.entry e).pri = 0 := by simpa using (hsh.inTree e).not.mp he
  have hroot : s.root ≠ some e := fun h =>
    he (mem_inorder_of_rootPtr (hsh.isTree.2 ▸ h))
  obtain ⟨n, rfl⟩ := Nat.exists_eq_add_of_lt hfuel
  have hset : s.setPri e 0 = s := hpri ▸ setPri_self s e
  simp [-setPri_eq, scheduleRemoveNode, scheduleRemoveNodeLoop, scheduleDetachParent, hpe, hle,
    hge, hroot, hset]

/-! ### `schedule_add_modify` -/

/-- The priority `schedule_set_pri` gives depends on the random value only. -/
theorem pri_scheduleSetPri (s s' : Schedule E) (e : E) (r : UInt32) :
    ((scheduleSetPri s e r).entry e).pri = ((scheduleSetPri s' e r).entry e).pri := by
  simp only [scheduleSetPri]
  split_ifs <;> simp_all

/-- An entry outside an ordered tree, with a new priority, is ready to be inserted. -/
theorem insertPre_of_shape {s : Schedule E} {T : BinaryTree E} {e : E} {v : UInt32}
    (hsh : TreapShape s T) (hsort : (inorder T).Pairwise s.Before) (he : e ∉ inorder T)
    (hv : v ≠ 0) : InsertPre (s.setPri e v) T e := by
  obtain ⟨hpe, hle, hge⟩ := hsh.detached e he
  refine ⟨hsh.nodup, hsort.imp_of_mem fun {x y} hx hy hxy => ?_, he, by simpa using hpe,
    by simpa using hle, by simpa using hge, by simpa using hv⟩
  exact (before_setPri_iff v (ne_of_mem_of_not_mem hx he) (ne_of_mem_of_not_mem hy he)).mpr hxy

/-- The first step of `schedule_add_modify`: an entry in the tree is removed from it, and the
tree then holds the other nodes, in order. -/
theorem scheduleAddModify_prepare {s : Schedule E} {T : BinaryTree E} {e : E} (fuel : Nat)
    (hsh : TreapShape s T)
    (hsort : (inorder T).Pairwise fun x y => x ≠ e → y ≠ e → s.Before x y) :
    ((if (s.entry e).pri ≠ 0 then scheduleRemoveNode s e fuel else some s) = none ∧
        fuel ≤ (inorder T).length) ∨
      ∃ s₁ T₁, (if (s.entry e).pri ≠ 0 then scheduleRemoveNode s e fuel else some s) = some s₁ ∧
        TreapShape s₁ T₁ ∧ (inorder T₁).Pairwise s₁.Before ∧ e ∉ inorder T₁ ∧
        (∀ x, x ≠ e → (x ∈ inorder T₁ ↔ x ∈ inorder T)) ∧
        (∀ y, y ≠ e → (s₁.entry y).pri = (s.entry y).pri) ∧
        (inorder T₁).length ≤ (inorder T).length := by
  by_cases hp : (s.entry e).pri ≠ 0
  · rw [if_pos hp]
    rcases scheduleRemoveNode_spec fuel hsh ((hsh.inTree e).mpr hp) with
      ⟨hn, hle⟩ | ⟨s₂, T', L₁, L₂, hrm, hrel, hsplit, hT', hsh'⟩
    · exact .inl ⟨hn, hle⟩
    have he' : e ∉ inorder T' := fun h => (hsh'.inTree e).mp h (by simp)
    have hsub : (L₁ ++ L₂).Sublist (inorder T) := by
      rw [hsplit]
      exact (List.sublist_cons_self e _).append_left _
    refine .inr ⟨s₂.setPri e 0, T', hrm, hsh', ?_, he', fun x hx => ?_, fun y hy => ?_, ?_⟩
    · rw [hT']
      refine ((hsort.sublist hsub).imp_of_mem fun {x y} hx hy hxy => ?_)
      have hxe : x ≠ e := fun h => he' (hT' ▸ h ▸ hx)
      have hye : y ≠ e := fun h => he' (hT' ▸ h ▸ hy)
      rw [before_setPri_iff 0 hxe hye, hrel.before_eq]
      exact hxy hxe hye
    · rw [hT', hsplit]
      simp [hx]
    · simp [hy, hrel.pri y]
    · rw [hT', hsplit]
      simp
  · rw [if_neg hp]
    have he : e ∉ inorder T := fun h => hp ((hsh.inTree e).mp h)
    refine .inr ⟨s, T, rfl, hsh, hsort.imp_of_mem fun {x y} hx hy hxy => ?_, he,
      fun _ _ => Iff.rfl, fun _ _ => rfl, le_rfl⟩
    exact hxy (ne_of_mem_of_not_mem hx he) (ne_of_mem_of_not_mem hy he)

/-- The insertion step of `schedule_add_modify`, into the tree or as its new root. -/
theorem scheduleAddModifyInsert_spec {s : Schedule E} {T : BinaryTree E} {e : E}
    (pris : List UInt32) (fuel : Nat) (pre : InsertPre s T e) (hT : IsTree s.links s.root T) :
    (scheduleAddModifyInsert s e pris fuel = none ∧
        (fuel ≤ (inorder T).length ∨
          ∃ y ∈ inorder T, entryKey (s.entry y) = entryKey (s.entry e))) ∨
      ∃ s' pris' fs' w, scheduleAddModifyInsert s e pris fuel = some (s', pris') ∧ w ≠ 0 ∧
        Relink (s.setPri e w) s' (fun z => z = e ∨ z ∈ inorder T) ∧
        Ctx s'.links s'.root (some e) fs' ∧ Rep s'.links (holeParent fs') (.node e .nil .nil) ∧
        plug fs' .nil = T ∧ Fits s'.Before e fs' := by
  obtain ⟨hrep, hroot⟩ := hT
  cases T with
  | nil =>
      refine .inr ⟨{ s with root := some e }, pris, [], (s.entry e).pri,
        by simp [scheduleAddModifyInsert, hroot], pre.pri, ?_, rfl,
        .node (by simpa using pre.parent) (by simpa using pre.lt) (by simpa using pre.gt)
          (.nil _) (.nil _), rfl, fits_nil e⟩
      rw [setPri_self]
      exact relink_root s _ _
  | node c l r =>
      have hins : scheduleAddModifyInsert s e pris fuel = scheduleInsertLoop s e c pris fuel := by
        simp [scheduleAddModifyInsert, scheduleInsert, hroot]
      rw [hins]
      exact scheduleInsertLoop_spec fuel pre (show Ctx s.links s.root (some c) [] from hroot) hrep rfl
        (fits_nil e)

/-- What the rotations after an insertion leave: the tree with `e` added, in heap order and in
order. -/
theorem scheduleAddModify_post {s₁ s₄ s₅ : Schedule E} {T₁ T₅ : BinaryTree E} {e : E}
    {w : UInt32} {fs : List (Frame E)} (hsh₁ : TreapShape s₁ T₁)
    (hsort₁ : (inorder T₁).Pairwise s₁.Before) (he₁ : e ∉ inorder T₁) (hw : w ≠ 0)
    (hrel₄ : Relink (s₁.setPri e w) s₄ (fun z => z = e ∨ z ∈ inorder T₁))
    (hplug : plug fs .nil = T₁) (hfits : Fits s₄.Before e fs)
    (htree₅ : IsTree s₅.links s₅.root T₅)
    (hord₅ : inorder T₅ = inorder (plug fs (.node e .nil .nil)))
    (hheap₅ : HeapOrdered s₄.pri T₅)
    (hrel₅ : Relink s₄ s₅ (· ∈ inorder (plug fs (.node e .nil .nil)))) :
    TreapShape s₅ T₅ ∧ (inorder T₅).Pairwise s₅.Before ∧
      ∀ x, x ∈ inorder T₅ ↔ x = e ∨ x ∈ inorder T₁ := by
  have hT₁ : inorder T₁ = ctxLeft fs ++ ctxRight fs := by
    rw [← hplug, inorder_plug]
    simp
  have hmem : ∀ x, x ∈ inorder T₅ ↔ x = e ∨ x ∈ inorder T₁ := by
    intro x
    rw [hord₅, hT₁, inorder_plug]
    simp only [inorder_node, inorder_nil, List.nil_append, List.mem_append, List.mem_cons,
      List.not_mem_nil, or_false]
    tauto
  -- the entries other than `e` keep their priority, and those outside the tree everything
  have hpri : ∀ x, x ≠ e → (s₅.entry x).pri = (s₁.entry x).pri := fun x hx => by
    rw [hrel₅.pri x, hrel₄.pri x]
    simp [hx]
  have hentry : ∀ x, x ∉ inorder T₅ → s₅.entry x = s₁.entry x := by
    intro x hx
    have hx' := (hmem x).not.mp hx
    simp only [not_or] at hx'
    rw [hrel₅.frame x (fun h => hx ((hord₅ ▸ h : x ∈ inorder T₅))),
      hrel₄.frame x (by tauto)]
    simp [hx'.1]
  refine ⟨⟨htree₅, hord₅ ▸ ?_, hrel₅.pri_eq ▸ hheap₅, fun x => ?_, fun x hx => ?_⟩, ?_, hmem⟩
  · rw [inorder_plug]
    simp only [inorder_node, inorder_nil, List.nil_append, List.append_assoc, List.cons_append]
    rw [List.nodup_middle]
    exact List.nodup_cons.mpr ⟨by rwa [← hT₁], hT₁ ▸ hsh₁.nodup⟩
  · by_cases hxe : x = e
    · subst hxe
      rw [hrel₅.pri x, hrel₄.pri x]
      simpa [hmem] using hw
    · rw [hmem, hpri x hxe, ← hsh₁.inTree x]
      simp [hxe]
  · rw [hentry x hx]
    exact hsh₁.detached x fun h => hx ((hmem x).mpr (.inr h))
  · rw [hord₅, hrel₅.before_eq]
    refine Fits.pairwise_leaf ?_ hfits
    rw [hplug, hrel₄.before_eq]
    refine hsort₁.imp_of_mem fun {x y} hx hy hxy => ?_
    exact (before_setPri_iff w (ne_of_mem_of_not_mem hx he₁) (ne_of_mem_of_not_mem hy he₁)).mpr hxy

/-- `schedule_add_modify` on an entry `e` of a tree in order but for `e`: the tree then holds
`e` and its old nodes, in heap order and in order. It fails only when the fuel runs out, when no
random value is left, or when the first random value gives `e` the priority of another node. -/
theorem scheduleAddModify_spec {s : Schedule E} {T : BinaryTree E} {e : E} (pris : List UInt32)
    (fuel : Nat) (hsh : TreapShape s T)
    (hsort : (inorder T).Pairwise fun x y => x ≠ e → y ≠ e → s.Before x y) :
    (scheduleAddModify s e pris fuel = none ∧
        (fuel ≤ (inorder T).length ∨ ∀ r rest, pris = r :: rest →
          ∃ y ∈ inorder T, y ≠ e ∧ (s.entry y).pri = ((scheduleSetPri s e r).entry e).pri)) ∨
      ∃ s' pris' T', scheduleAddModify s e pris fuel = some (s', pris') ∧ TreapShape s' T' ∧
        (inorder T').Pairwise s'.Before ∧ ∀ x, x ∈ inorder T' ↔ x = e ∨ x ∈ inorder T := by
  rcases scheduleAddModify_prepare fuel hsh hsort with
    ⟨h₁, hle⟩ | ⟨s₁, T₁, h₁, hsh₁, hsort₁, he₁, hmem₁, hpri₁, hlen₁⟩
  · exact .inl ⟨by rw [scheduleAddModify, h₁]; rfl, .inl hle⟩
  cases pris with
  | nil => exact .inl ⟨by rw [scheduleAddModify, h₁]; rfl, .inr fun _ _ h => by cases h⟩
  | cons r rest =>
      obtain ⟨v, hv, hset⟩ := scheduleSetPri_eq s₁ e r
      have hT₁ : IsTree (s₁.setPri e v).links (s₁.setPri e v).root T₁ := by
        rw [links_setPri]
        exact hsh₁.isTree
      rcases scheduleAddModifyInsert_spec rest fuel (insertPre_of_shape hsh₁ hsort₁ he₁ hv) hT₁ with
        ⟨h₃, hwhy⟩ | ⟨s₄, pris₄, fs, w, h₃, hw, hrel₄, hc₄, hr₄, hplug, hfits⟩
      · refine .inl ⟨by rw [scheduleAddModify, h₁]; simp [-setPri_eq, hset, h₃], ?_⟩
        rcases hwhy with hle | ⟨y, hy, hkey⟩
        · exact .inl (hle.trans hlen₁)
        · -- a collision: the new priority of `e` is that of another node
          have hye : y ≠ e := ne_of_mem_of_not_mem hy he₁
          refine .inr fun r' rest' h => ?_
          obtain ⟨rfl, rfl⟩ := List.cons.inj h
          refine ⟨y, (hmem₁ y hye).mp hy, hye, ?_⟩
          have := (entryKey_eq_iff.mp hkey).2
          rw [← hpri₁ y hye, pri_scheduleSetPri s s₁ e r, hset]
          simpa [hye] using this
      · have hrel₄' : Relink (s₁.setPri e w) s₄ (fun z => z = e ∨ z ∈ inorder T₁) := by
          rwa [setPri_setPri] at hrel₄
        have hT₁' : inorder T₁ = ctxLeft fs ++ ctxRight fs := by
          rw [← hplug, inorder_plug]
          simp
        have hnd : (inorder (plug fs (.node e .nil .nil))).Nodup := by
          rw [inorder_plug]
          simp only [inorder_node, inorder_nil, List.nil_append, List.append_assoc,
            List.cons_append]
          rw [List.nodup_middle]
          exact List.nodup_cons.mpr ⟨by rwa [← hT₁'], hT₁' ▸ hsh₁.nodup⟩
        have hheap : HeapOrdered s₄.pri (plug fs .nil) := by
          rw [hplug]
          refine hsh₁.heap.congr fun x hx => ?_
          have hxe : x ≠ e := ne_of_mem_of_not_mem hx he₁
          simp [Schedule.pri, hrel₄'.pri x, hxe]
        rcases scheduleAddModifyLoop_spec fuel hc₄ hr₄ hnd (.leaf hheap e) with
          ⟨h₅, hle₅⟩ | ⟨s₅, T₅, h₅, htree₅, hord₅, hheap₅, hrel₅⟩
        · refine .inl ⟨by rw [scheduleAddModify, h₁]; simp [-setPri_eq, hset, h₃, h₅], .inl ?_⟩
          calc fuel ≤ fs.length := hle₅
            _ ≤ (ctxLeft fs).length + (ctxRight fs).length := length_le_ctx fs
            _ = (inorder T₁).length := by rw [hT₁', List.length_append]
            _ ≤ (inorder T).length := hlen₁
        · obtain ⟨hsh₅, hsort₅, hmem₅⟩ := scheduleAddModify_post hsh₁ hsort₁ he₁ hw hrel₄' hplug
            hfits htree₅ hord₅ hheap₅ hrel₅
          refine .inr ⟨s₅, pris₄, T₅, by rw [scheduleAddModify, h₁]; simp [-setPri_eq, hset, h₃, h₅],
            hsh₅, hsort₅, fun x => ?_⟩
          rw [hmem₅]
          by_cases hxe : x = e
          · simp [hxe]
          · simp [hxe, hmem₁ x hxe]

/-! ### The public calls -/

/-- `schedule_add_entry`: `e` is in the tree afterwards, with the nodes it had, and the
invariant holds. It fails only as `schedule_add_modify` does. -/
theorem scheduleAddEntry_spec {s : Schedule E} {T : BinaryTree E} {e : E} (tv : Timeval)
    (sigma : UInt32) (pris : List UInt32) (fuel : Nat) (hinv : TreapInv s T) :
    (scheduleAddEntry s e tv sigma pris fuel = none ∧
        (fuel ≤ (inorder T).length ∨ ∀ r rest, pris = r :: rest →
          ∃ y ∈ inorder T, y ≠ e ∧ (s.entry y).pri = ((scheduleSetPri s e r).entry e).pri)) ∨
      ∃ s' pris' T', scheduleAddEntry s e tv sigma pris fuel = some (s', pris') ∧
        TreapInv s' T' ∧ ∀ x, x ∈ inorder T' ↔ x = e ∨ x ∈ inorder T := by
  by_cases hcond : (s.entry e).pri = 0 ∨ sigma = 0 ∨ tvWithinSigma tv (s.entry e).tv sigma = false
  · rcases scheduleAddModify_spec pris fuel (hinv.toTreapShape.setTv e tv)
      (pairwise_setTv hinv.sorted e tv) with
      ⟨h, hwhy⟩ | ⟨s', pris', T', h, hsh', hsort', hmem⟩
    · refine .inl ⟨by rw [scheduleAddEntry, if_pos hcond, h]; rfl,
        hwhy.imp id fun hc r rest hp => ?_⟩
      obtain ⟨y, hy, hye, hpri⟩ := hc r rest hp
      refine ⟨y, hy, hye, ?_⟩
      -- the new wakeup time changes neither the other priorities nor the one drawn for `e`
      rw [pri_scheduleSetPri s (s.setTv e tv) e r, ← hpri]
      simp [hye]
    · exact .inr ⟨{ s' with earliestWakeup := none }, pris', T',
        by rw [scheduleAddEntry, if_pos hcond, h]; rfl, ⟨hsh'.setCache none, hsort', by simp⟩,
        hmem⟩
  · -- rescheduled within `sigma` of its time: nothing changes
    have he : e ∈ inorder T := (hinv.inTree e).mpr fun h => hcond (.inl h)
    refine .inr ⟨s, pris, T, by simp [scheduleAddEntry, hcond], hinv, fun x => ?_⟩
    constructor
    · exact .inr
    · rintro (rfl | hx)
      · exact he
      · exact hx

/-- `schedule_remove_entry`: `e` is out of the tree afterwards, and the invariant holds. It fails
only when the fuel runs out. -/
theorem scheduleRemoveEntry_spec {s : Schedule E} {T : BinaryTree E} {e : E} (fuel : Nat)
    (hinv : TreapInv s T) :
    (scheduleRemoveEntry s e fuel = none ∧ fuel ≤ (inorder T).length) ∨
      ∃ s' T', scheduleRemoveEntry s e fuel = some s' ∧ TreapInv s' T' ∧
        ∀ x, x ∈ inorder T' ↔ x ≠ e ∧ x ∈ inorder T := by
  have hsh₀ := hinv.toTreapShape.setCache none
  by_cases he : e ∈ inorder T
  · rcases scheduleRemoveNode_spec fuel hsh₀ he with
      ⟨hn, hle⟩ | ⟨s₂, T', L₁, L₂, hrm, hrel, hsplit, hT', hsh'⟩
    · exact .inl ⟨hn, hle⟩
    have he' : e ∉ inorder T' := fun h => (hsh'.inTree e).mp h (by simp)
    refine .inr ⟨s₂.setPri e 0, T', hrm, ⟨hsh', ?_, fun w hw => ?_⟩, fun x => ?_⟩
    · rw [hT']
      have hsub : (L₁ ++ L₂).Sublist (inorder T) := by
        rw [hsplit]
        exact (List.sublist_cons_self e _).append_left _
      refine (hinv.sorted.sublist hsub).imp_of_mem fun {x y} hx hy hxy => ?_
      rw [before_setPri_iff 0 (ne_of_mem_of_not_mem hx (hT' ▸ he'))
        (ne_of_mem_of_not_mem hy (hT' ▸ he')), hrel.before_eq]
      exact hxy
    · simp [hrel.cache] at hw
    · by_cases hxe : x = e
      · simp [hxe, he']
      · rw [hT', hsplit]
        simp [hxe]
  · cases fuel with
    | zero => exact .inl ⟨by simp [scheduleRemoveEntry, scheduleRemoveNode, scheduleRemoveNodeLoop],
        Nat.zero_le _⟩
    | succ n =>
        refine .inr ⟨_, T, scheduleRemoveNode_of_not_mem _ hsh₀ he (Nat.succ_pos n),
          ⟨hsh₀, hinv.sorted, by simp⟩, fun x => ⟨fun hx => ⟨ne_of_mem_of_not_mem hx he, hx⟩,
            fun hx => hx.2⟩⟩

omit [DecidableEq E] in
/-- `schedule_get_earliest_wakeup` returns the first node in order, `NULL` for the empty tree, and
keeps the invariant. It fails only when the fuel runs out on a search. -/
theorem scheduleGetEarliestWakeup_spec {s : Schedule E} {T : BinaryTree E} (fuel : Nat)
    (hinv : TreapInv s T) :
    (scheduleGetEarliestWakeup s fuel = none ∧ fuel ≤ (inorder T).length) ∨
      ∃ s', scheduleGetEarliestWakeup s fuel = some (s', (inorder T).head?) ∧ TreapInv s' T := by
  cases hw : s.earliestWakeup with
  | none =>
      rcases scheduleFindLeast_spec hinv.isTree fuel with ⟨hn, hle⟩ | heq
      · exact .inl ⟨by simp [scheduleGetEarliestWakeup, hw, hn], hle⟩
      · exact .inr ⟨{ s with earliestWakeup := (inorder T).head? },
          by simp [scheduleGetEarliestWakeup, hw, heq],
          ⟨hinv.toTreapShape.setCache _, hinv.sorted, fun w hw' => hw'⟩⟩
  | some w =>
      exact .inr ⟨s, by simp [scheduleGetEarliestWakeup, hw, hinv.cache w hw], hinv⟩

end OpenVpn
