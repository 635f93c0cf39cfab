import OpenVpn.Schedule
import OpenVpn.LinkedTree

/-! What each function of `schedule.c` does to the tree its links spell. The links of the entries
are read as `LinkedTree.Links`, the order of `schedule_entry_compare` as the lexicographic order
on `(tv_sec, tv_usec, pri)`, and each function gets one lemma: the rotation moves the focus above
its parent's place and keeps the order of the nodes, the insertion loop finds the hole the new
entry fits, the two rotation loops keep the heap order of `LinkedTree.BubbleInv` and
`LinkedTree.SinkInv`, and the least entry is the first one in order. A loop's lemma says that it
either ran out of fuel (or of random values) or returned what it should. -/

namespace OpenVpn

open LinkedTree

variable {E : Type}

namespace Schedule

/-- The `parent`, `lt` and `gt` links of the entries. -/
def links (s : Schedule E) : Links E :=
  ⟨fun x => (s.entry x).parent, fun x => (s.entry x).lt, fun x => (s.entry x).gt⟩

/-- The treap priority of each entry. -/
def pri (s : Schedule E) (x : E) : Nat := (s.entry x).pri.toNat

@[simp] theorem links_parent (s : Schedule E) (x : E) : s.links.parent x = (s.entry x).parent :=
  rfl

@[simp] theorem links_lt (s : Schedule E) (x : E) : s.links.lt x = (s.entry x).lt := rfl

@[simp] theorem links_gt (s : Schedule E) (x : E) : s.links.gt x = (s.entry x).gt := rfl

/-- `s'` is `s` with other links at the nodes `W`, and perhaps another root: the wakeup times,
the priorities and the cache are kept, and so are the entries outside `W`. -/
structure Relink (s s' : Schedule E) (W : E → Prop) : Prop where
  tv : ∀ z, (s'.entry z).tv = (s.entry z).tv
  pri : ∀ z, (s'.entry z).pri = (s.entry z).pri
  cache : s'.earliestWakeup = s.earliestWakeup
  frame : ∀ z, ¬ W z → s'.entry z = s.entry z

theorem Relink.refl (s : Schedule E) (W : E → Prop) : Relink s s W :=
  ⟨fun _ => rfl, fun _ => rfl, rfl, fun _ _ => rfl⟩

theorem Relink.trans {s₁ s₂ s₃ : Schedule E} {W : E → Prop} (h₁ : Relink s₁ s₂ W)
    (h₂ : Relink s₂ s₃ W) : Relink s₁ s₃ W :=
  ⟨fun z => (h₂.tv z).trans (h₁.tv z), fun z => (h₂.pri z).trans (h₁.pri z),
    h₂.cache.trans h₁.cache, fun z hz => (h₂.frame z hz).trans (h₁.frame z hz)⟩

theorem Relink.mono {s s' : Schedule E} {W W' : E → Prop} (h : Relink s s' W)
    (hW : ∀ z, W z → W' z) : Relink s s' W' :=
  ⟨h.tv, h.pri, h.cache, fun z hz => h.frame z fun hw => hz (hW z hw)⟩

theorem relink_root (s : Schedule E) (W : E → Prop) (r : Option E) :
    Relink s { s with root := r } W :=
  ⟨fun _ => rfl, fun _ => rfl, rfl, fun _ _ => rfl⟩

theorem Relink.pri_eq {s s' : Schedule E} {W : E → Prop} (h : Relink s s' W) : s'.pri = s.pri :=
  funext fun z => congrArg UInt32.toNat (h.pri z)

theorem sameAt_of_entry {s s' : Schedule E} {z : E} (h : s'.entry z = s.entry z) :
    SameAt s.links s'.links z := by
  simp [SameAt, h]

section Writes

variable [DecidableEq E]

@[simp] theorem entry_modify_self (s : Schedule E) (e : E) (f : ScheduleEntry E → ScheduleEntry E) :
    (s.modify e f).entry e = f (s.entry e) := by
  simp [modify]

@[simp] theorem entry_modify_of_ne (s : Schedule E) {x e : E} (f : ScheduleEntry E → ScheduleEntry E)
    (h : x ≠ e) : (s.modify e f).entry x = s.entry x := by
  simp [modify, h]

@[simp] theorem root_modify (s : Schedule E) (e : E) (f : ScheduleEntry E → ScheduleEntry E) :
    (s.modify e f).root = s.root := rfl

@[simp] theorem earliestWakeup_modify (s : Schedule E) (e : E)
    (f : ScheduleEntry E → ScheduleEntry E) : (s.modify e f).earliestWakeup = s.earliestWakeup :=
  rfl

@[simp] theorem setParent_eq (s : Schedule E) (e : E) (v : Option E) :
    s.setParent e v = s.modify e fun x => { x with parent := v } := rfl

@[simp] theorem setLt_eq (s : Schedule E) (e : E) (v : Option E) :
    s.setLt e v = s.modify e fun x => { x with lt := v } := rfl

@[simp] theorem setGt_eq (s : Schedule E) (e : E) (v : Option E) :
    s.setGt e v = s.modify e fun x => { x with gt := v } := rfl

@[simp] theorem setPri_eq (s : Schedule E) (e : E) (v : UInt32) :
    s.setPri e v = s.modify e fun x => { x with pri := v } := rfl

@[simp] theorem setTv_eq (s : Schedule E) (e : E) (v : Timeval) :
    s.setTv e v = s.modify e fun x => { x with tv := v } := rfl

@[simp] theorem setParentOpt_none (s : Schedule E) (v : Option E) : s.setParentOpt none v = s :=
  rfl

@[simp] theorem setParentOpt_some (s : Schedule E) (c : E) (v : Option E) :
    s.setParentOpt (some c) v = s.setParent c v := rfl

theorem entry_setParentOpt_of_ne (s : Schedule E) {c : Option E} (v : Option E) {z : E}
    (h : ∀ y ∈ c, z ≠ y) : (s.setParentOpt c v).entry z = s.entry z := by
  cases c with
  | none => rfl
  | some y => simp [h y rfl]

@[simp] theorem root_setParentOpt (s : Schedule E) (c v : Option E) :
    (s.setParentOpt c v).root = s.root := by
  cases c <;> rfl

@[simp] theorem earliestWakeup_setParentOpt (s : Schedule E) (c v : Option E) :
    (s.setParentOpt c v).earliestWakeup = s.earliestWakeup := by
  cases c <;> rfl

theorem setPri_self (s : Schedule E) (e : E) : s.setPri e (s.entry e).pri = s := by
  obtain ⟨w, r, entry⟩ := s
  simp only [setPri_eq, modify, Schedule.mk.injEq, true_and]
  exact Function.update_eq_self_iff.mpr rfl

theorem setPri_setPri (s : Schedule E) (e : E) (v w : UInt32) :
    (s.setPri e v).setPri e w = s.setPri e w := by
  simp [modify, Function.update_idem]

theorem links_setPri (s : Schedule E) (e : E) (v : UInt32) :
    (s.setPri e v).links = s.links := by
  simp only [links, Links.mk.injEq]
  refine ⟨funext fun z => ?_, funext fun z => ?_, funext fun z => ?_⟩ <;>
    by_cases hz : z = e <;> simp [hz]

/-- A write to one node of `W` that keeps its wakeup time and priority. -/
theorem relink_modify (s : Schedule E) {W : E → Prop} {e : E} (he : W e)
    {f : ScheduleEntry E → ScheduleEntry E} (htv : ∀ x, (f x).tv = x.tv)
    (hpri : ∀ x, (f x).pri = x.pri) : Relink s (s.modify e f) W := by
  refine ⟨fun z => ?_, fun z => ?_, rfl, fun z hz => entry_modify_of_ne s _ fun h => hz (h ▸ he)⟩
  all_goals
    by_cases hz : z = e
    · subst hz
      simp [htv, hpri]
    · simp [hz]

theorem relink_setParent (s : Schedule E) {W : E → Prop} {e : E} (he : W e) (v : Option E) :
    Relink s (s.setParent e v) W :=
  relink_modify s he (fun _ => rfl) (fun _ => rfl)

theorem relink_setLt (s : Schedule E) {W : E → Prop} {e : E} (he : W e) (v : Option E) :
    Relink s (s.setLt e v) W :=
  relink_modify s he (fun _ => rfl) (fun _ => rfl)

theorem relink_setGt (s : Schedule E) {W : E → Prop} {e : E} (he : W e) (v : Option E) :
    Relink s (s.setGt e v) W :=
  relink_modify s he (fun _ => rfl) (fun _ => rfl)

theorem relink_setParentOpt (s : Schedule E) {W : E → Prop} {c : Option E} (hc : ∀ y ∈ c, W y)
    (v : Option E) : Relink s (s.setParentOpt c v) W := by
  cases c with
  | none => exact Relink.refl s W
  | some y => exact relink_setParent s (hc y rfl) v

end Writes

end Schedule

open Schedule

/-! ### The order of `schedule_entry_compare` -/

/-- The key that `schedule_entry_compare` orders entries by. -/
def entryKey (x : ScheduleEntry E) : ℤ ×ₗ ℤ ×ₗ ℕ :=
  toLex (x.tv.tvSec, toLex (x.tv.tvUsec, x.pri.toNat))

theorem scheduleEntryCompare_eq (a b : ScheduleEntry E) :
    scheduleEntryCompare a b =
      if entryKey a < entryKey b then -1 else if entryKey b < entryKey a then 1 else 0 := by
  simp only [scheduleEntryCompare, entryKey, Prod.Lex.toLex_lt_toLex, UInt32.lt_iff_toNat_lt]
  split_ifs <;> omega

theorem scheduleEntryCompare_eq_neg_one_iff (a b : ScheduleEntry E) :
    scheduleEntryCompare a b = -1 ↔ entryKey a < entryKey b := by
  rw [scheduleEntryCompare_eq]
  split_ifs with h h' <;> simp [h]

theorem scheduleEntryCompare_eq_one_iff (a b : ScheduleEntry E) :
    scheduleEntryCompare a b = 1 ↔ entryKey b < entryKey a := by
  rw [scheduleEntryCompare_eq]
  split_ifs with h h'
  · simp [lt_asymm h]
  · simp [h']
  · simp [h']

theorem entryKey_eq_iff {a b : ScheduleEntry E} :
    entryKey a = entryKey b ↔ a.tv = b.tv ∧ a.pri = b.pri := by
  obtain ⟨⟨s, u⟩, p, _, _, _⟩ := a
  obtain ⟨⟨s', u'⟩, p', _, _, _⟩ := b
  simp [entryKey, UInt32.toNat_inj, and_assoc]

/-- `x` comes before `y` in the order of the entries of `s`. -/
def Schedule.Before (s : Schedule E) (x y : E) : Prop :=
  scheduleEntryCompare (s.entry x) (s.entry y) = -1

theorem before_iff {s : Schedule E} {x y : E} :
    s.Before x y ↔ entryKey (s.entry x) < entryKey (s.entry y) :=
  scheduleEntryCompare_eq_neg_one_iff _ _

instance (s : Schedule E) : IsTrans E s.Before :=
  ⟨fun _ _ _ h₁ h₂ => before_iff.mpr ((before_iff.mp h₁).trans (before_iff.mp h₂))⟩

/-- The order of two nodes depends on their entries only. -/
theorem before_congr {s s' : Schedule E} {x y : E} (hx : s'.entry x = s.entry x)
    (hy : s'.entry y = s.entry y) : s'.Before x y ↔ s.Before x y := by
  simp only [Schedule.Before, hx, hy]

/-- Relinking keeps the order, which reads the wakeup times and priorities only. -/
theorem Schedule.Relink.before_eq {s s' : Schedule E} {W : E → Prop} (h : Relink s s' W) :
    s'.Before = s.Before := by
  funext x y
  simp only [Schedule.Before, scheduleEntryCompare, h.tv, h.pri]

/-- A change of one priority keeps the order of the other entries. -/
theorem before_setPri_iff [DecidableEq E] {s : Schedule E} {e x y : E} (v : UInt32) (hx : x ≠ e)
    (hy : y ≠ e) : (s.setPri e v).Before x y ↔ s.Before x y :=
  before_congr (by simp [hx]) (by simp [hy])

/-- `schedule_set_pri` sets a priority other than `0`. -/
theorem scheduleSetPri_eq [DecidableEq E] (s : Schedule E) (e : E) (r : UInt32) :
    ∃ v, v ≠ 0 ∧ scheduleSetPri s e r = s.setPri e v := by
  by_cases hr : r < 1
  · refine ⟨1, by decide, ?_⟩
    simp only [scheduleSetPri]
    rw [if_pos (by simpa using hr)]
    exact setPri_setPri s e r 1
  · refine ⟨r, fun h => hr (by simp [h]), ?_⟩
    simp only [scheduleSetPri]
    rw [if_neg (by simpa using hr)]

/-! ### Rotation -/

section Rotation

variable [DecidableEq E]

/-- The first step of a rotation: the link that pointed to `p`, from its parent or from the root,
now points to `x`. -/
theorem scheduleRelinkParent_spec {s : Schedule E} {p : E} (x : E) {fs : List (Frame E)}
    (hc : Ctx s.links s.root (some p) fs) (hp : p ∉ ctxRight fs)
    (hnd : (ctxLeft fs ++ ctxRight fs).Nodup) :
    ∃ s₁, scheduleRelinkParent s (holeParent fs) p x = some s₁ ∧
      Ctx s₁.links s₁.root (some x) fs ∧ Relink s s₁ (· ∈ ctxLeft fs ++ ctxRight fs) := by
  cases fs with
  | nil => exact ⟨_, rfl, rfl, relink_root s _ _⟩
  | cons f fs =>
      cases f with
      | left g r =>
          obtain ⟨hlt, hgt, hpar, hrep, hctx⟩ := hc
          simp only [links_lt, links_gt, links_parent] at hlt hgt hpar
          simp only [ctxLeft, ctxRight, List.cons_append, List.mem_cons, List.mem_append] at hp hnd
          have hne : (s.entry g).gt ≠ some p := by
            rw [hgt]
            exact fun h => hp (.inr (.inl (mem_inorder_of_rootPtr h)))
          have hg : ∀ y, y ∈ inorder r ∨ y ∈ ctxLeft fs ∨ y ∈ ctxRight fs → y ≠ g := by
            grind [List.nodup_append, List.nodup_cons]
          refine ⟨s.setLt g (some x), by simp [scheduleRelinkParent, Frame.node, hne, hlt], ⟨?_, ?_, ?_, ?_, ?_⟩,
            relink_setLt s (by simp [ctxRight]) _⟩
          · simp
          · simp [hgt]
          · simp [hpar]
          · exact hrep.frame fun y hy => sameAt_of_entry (by simp [hg y (.inl hy)])
          · exact hctx.frame fun y hy => sameAt_of_entry (by simp [hg y (.inr hy)])
      | right l g =>
          obtain ⟨hgt, hlt, hpar, hrep, hctx⟩ := hc
          simp only [links_lt, links_gt, links_parent] at hlt hgt hpar
          simp only [ctxLeft, ctxRight, List.append_assoc, List.singleton_append] at hnd
          have hg : ∀ y, y ∈ inorder l ∨ y ∈ ctxLeft fs ∨ y ∈ ctxRight fs → y ≠ g := by
            grind [List.nodup_append, List.nodup_cons]
          refine ⟨s.setGt g (some x), by simp [scheduleRelinkParent, Frame.node, hgt], ⟨?_, ?_, ?_, ?_, ?_⟩,
            relink_setGt s (by simp [ctxLeft]) _⟩
          · simp
          · simp [hlt]
          · simp [hpar]
          · exact hrep.frame fun y hy => sameAt_of_entry (by simp [hg y (.inl hy)])
          · exact hctx.frame fun y hy => sameAt_of_entry (by simp [hg y (.inr hy)])

/-- `schedule_rotate_up` at a left child `x` of `p`: the links now spell the tree with `x` in
`p`'s place and `p` as its right child, the path above is kept, and only links of the tree's nodes
change. -/
theorem scheduleRotateUp_left {s : Schedule E} {x p : E} {c a b : BinaryTree E}
    {fs : List (Frame E)} (hc : Ctx s.links s.root (some x) (.left p c :: fs))
    (hx : Rep s.links (some p) (.node x a b))
    (hnd : (inorder (plug (.left p c :: fs) (.node x a b))).Nodup) :
    ∃ s', scheduleRotateUp s x = some s' ∧ Ctx s'.links s'.root (some x) fs ∧
      Rep s'.links (holeParent fs) (.node x a (.node p b c)) ∧
      Relink s s' (· ∈ inorder (plug (.left p c :: fs) (.node x a b))) := by
  cases hx with
  | node hxp hxl hxg hra hrb =>
  simp only [links_lt, links_gt, links_parent] at hxp hxl hxg
  obtain ⟨hlp, hpg, hpp, hrc, hctx⟩ := hc
  simp only [links_lt, links_gt, links_parent] at hlp hpg hpp
  have hfsnd : (ctxLeft fs ++ ctxRight fs).Nodup := nodup_ctx (t := .node p (.node x a b) c) hnd
  simp only [inorder_plug, ctxLeft, ctxRight, inorder_node, List.append_assoc, List.cons_append,
    List.mem_append, List.mem_cons] at hnd hxp ⊢
  -- the nodes of `a`, `b`, `c` and of the path are apart
  obtain ⟨hxp', hbnd, hdc, hdac, hdb⟩ := apart_of_nodup hnd
  have hxctx : x ∉ ctxLeft fs ∧ x ∉ ctxRight fs :=
    ⟨fun h => (hdc x (.inl h)).1 rfl, fun h => (hdc x (.inr h)).1 rfl⟩
  have hpctx : p ∉ ctxLeft fs ∧ p ∉ ctxRight fs :=
    ⟨fun h => (hdc p (.inl h)).2.1 rfl, fun h => (hdc p (.inr h)).2.1 rfl⟩
  have hxc : (s.entry p).gt ≠ some x := by
    rw [hpg]
    exact fun h => (hdac x (.inr (mem_inorder_of_rootPtr h))).1 rfl
  have hyb : ∀ y ∈ rootPtr b, y ∈ inorder b := fun y hy => mem_inorder_of_rootPtr hy
  obtain ⟨s₁, hs₁, hctx₁, hrel₁⟩ := scheduleRelinkParent_spec x hctx hpctx.2 hfsnd
  have hs₁ctx : ∀ z, z ∉ ctxLeft fs → z ∉ ctxRight fs → s₁.entry z = s.entry z :=
    fun z h₁ h₂ => hrel₁.frame z (by simp [h₁, h₂])
  have hs₁x : s₁.entry x = s.entry x := hs₁ctx x hxctx.1 hxctx.2
  have hs₁p : s₁.entry p = s.entry p := hs₁ctx p hpctx.1 hpctx.2
  obtain ⟨s', hrot, rfl⟩ : ∃ s', scheduleRotateUp s x = some s' ∧
      s' = ((((s₁.setParent x (holeParent fs)).setParent p (some x)).setGt x (some p)).setLt p
        (rootPtr b)).setParentOpt (rootPtr b) (some p) :=
    ⟨_, by simp [scheduleRotateUp, hxp, hxl, hxg, hpp, hs₁, hs₁p, hxc, hlp, hxp'.symm], rfl⟩
  have eo : ∀ z, z ≠ x → z ≠ p → (∀ y ∈ rootPtr b, z ≠ y) →
      (((((s₁.setParent x (holeParent fs)).setParent p (some x)).setGt x (some p)).setLt p
        (rootPtr b)).setParentOpt (rootPtr b) (some p)).entry z = s₁.entry z := by
    intro z hzx hzp hzy
    rw [entry_setParentOpt_of_ne _ _ hzy]
    simp [hzx, hzp]
  have hnb : ∀ z, z ∉ inorder b → ∀ y ∈ rootPtr b, z ≠ y :=
    fun z hz y hy h => hz (by rw [h]; exact hyb y hy)
  have hxb : x ∉ inorder b := fun h => (hdb x h).1 rfl
  have hpb : p ∉ inorder b := fun h => (hdb p h).2.1 rfl
  refine ⟨_, hrot, ?_, ?_, ?_⟩
  · rw [root_setParentOpt]
    exact hctx₁.frame fun z hz => sameAt_of_entry
      (eo z (hdc z hz).1 (hdc z hz).2.1 (hnb z (hdc z hz).2.2))
  · -- `x` on top, `a` below it on the left, `p` on the right with `b` and `c` below it
    have hac : ∀ z, z ∈ inorder a ∨ z ∈ inorder c → SameAt s.links
        (((((s₁.setParent x (holeParent fs)).setParent p (some x)).setGt x (some p)).setLt p
          (rootPtr b)).setParentOpt (rootPtr b) (some p)).links z := fun z hz =>
      sameAt_of_entry ((eo z (hdac z hz).1 (hdac z hz).2.1 (hnb z (hdac z hz).2.2.1)).trans
        (hs₁ctx z (hdac z hz).2.2.2.1 (hdac z hz).2.2.2.2))
    refine .node ?_ ?_ ?_ (hra.frame fun z hz => hac z (.inl hz))
      (.node ?_ ?_ ?_ ?_ (hrc.frame fun z hz => hac z (.inr hz)))
    · simp [entry_setParentOpt_of_ne _ _ (hnb x hxb), hxp']
    · simp [entry_setParentOpt_of_ne _ _ (hnb x hxb), hxp', hs₁x, hxl]
    · simp [entry_setParentOpt_of_ne _ _ (hnb x hxb), hxp']
    · simp [entry_setParentOpt_of_ne _ _ (hnb p hpb), hxp'.symm]
    · simp [entry_setParentOpt_of_ne _ _ (hnb p hpb)]
    · simp [entry_setParentOpt_of_ne _ _ (hnb p hpb), hxp'.symm, hs₁p, hpg]
    · -- the root of `b` now hangs from `p`
      cases b with
      | nil => exact .nil _
      | node y b₁ b₂ =>
          simp only [inorder_node, List.nodup_append, List.nodup_cons,
            List.mem_cons] at hbnd
          have hy := hdb y (by simp)
          have hs₁y : s₁.entry y = s.entry y := hs₁ctx y hy.2.2.1 hy.2.2.2
          refine hrb.reparent (by simp) (by simp [hy.1, hy.2.1, hs₁y])
            (by simp [hy.1, hy.2.1, hs₁y]) fun z hz => sameAt_of_entry ?_
          have hz' := hdb z (by simp only [inorder_node, List.mem_append, List.mem_cons]; tauto)
          have hzy : z ≠ y := by grind
          exact (eo z hz'.1 hz'.2.1 (by simpa using hzy)).trans (hs₁ctx z hz'.2.2.1 hz'.2.2.2)
  · have hW : ∀ z, z ∈ ctxLeft fs ++ ctxRight fs → z ∈ ctxLeft fs ∨ z ∈ inorder a ∨ z = x ∨
        z ∈ inorder b ∨ z = p ∨ z ∈ inorder c ∨ z ∈ ctxRight fs := by
      simp only [List.mem_append]
      tauto
    exact ((((((hrel₁.mono hW).trans (relink_setParent _ (e := x) (by simp) _)).trans
      (relink_setParent _ (e := p) (by simp) _)).trans (relink_setGt _ (e := x) (by simp) _)).trans
      (relink_setLt _ (e := p) (by simp) _)).trans
      (relink_setParentOpt _ (c := rootPtr b) (fun y hy => by simp [hyb y hy]) _))

/-- `schedule_rotate_up` at a right child `x` of `p`: the mirror image of
`scheduleRotateUp_left`. -/
theorem scheduleRotateUp_right {s : Schedule E} {x p : E} {c a b : BinaryTree E}
    {fs : List (Frame E)} (hc : Ctx s.links s.root (some x) (.right c p :: fs))
    (hx : Rep s.links (some p) (.node x a b))
    (hnd : (inorder (plug (.right c p :: fs) (.node x a b))).Nodup) :
    ∃ s', scheduleRotateUp s x = some s' ∧ Ctx s'.links s'.root (some x) fs ∧
      Rep s'.links (holeParent fs) (.node x (.node p c a) b) ∧
      Relink s s' (· ∈ inorder (plug (.right c p :: fs) (.node x a b))) := by
  cases hx with
  | node hxp hxl hxg hra hrb =>
  simp only [links_lt, links_gt, links_parent] at hxp hxl hxg
  obtain ⟨hgp, hpl, hpp, hrc, hctx⟩ := hc
  simp only [links_lt, links_gt, links_parent] at hgp hpl hpp
  have hfsnd : (ctxLeft fs ++ ctxRight fs).Nodup := nodup_ctx (t := .node p c (.node x a b)) hnd
  simp only [inorder_plug, ctxLeft, ctxRight, inorder_node, List.append_assoc,
    List.cons_append, List.mem_append, List.mem_cons, List.mem_nil_iff, false_or] at hnd hxp ⊢
  -- the nodes of `a`, `b`, `c` and of the path are apart; in order `p` comes before `x` here
  obtain ⟨hpx, hand, hdc₀, hdbc₀, hda₀⟩ := apart_of_nodup hnd
  have hxp' : x ≠ p := hpx.symm
  have hdc : ∀ z, z ∈ ctxLeft fs ∨ z ∈ ctxRight fs → z ≠ x ∧ z ≠ p ∧ z ∉ inorder a :=
    fun z hz => and_left_comm.mp (hdc₀ z hz)
  have hdbc : ∀ z, z ∈ inorder b ∨ z ∈ inorder c →
      z ≠ x ∧ z ≠ p ∧ z ∉ inorder a ∧ z ∉ ctxLeft fs ∧ z ∉ ctxRight fs :=
    fun z hz => and_left_comm.mp (hdbc₀ z hz.symm)
  have hda : ∀ z, z ∈ inorder a → z ≠ x ∧ z ≠ p ∧ z ∉ ctxLeft fs ∧ z ∉ ctxRight fs :=
    fun z hz => and_left_comm.mp (hda₀ z hz)
  have hxctx : x ∉ ctxLeft fs ∧ x ∉ ctxRight fs :=
    ⟨fun h => (hdc x (.inl h)).1 rfl, fun h => (hdc x (.inr h)).1 rfl⟩
  have hpctx : p ∉ ctxLeft fs ∧ p ∉ ctxRight fs :=
    ⟨fun h => (hdc p (.inl h)).2.1 rfl, fun h => (hdc p (.inr h)).2.1 rfl⟩
  have hya : ∀ y ∈ rootPtr a, y ∈ inorder a := fun y hy => mem_inorder_of_rootPtr hy
  obtain ⟨s₁, hs₁, hctx₁, hrel₁⟩ := scheduleRelinkParent_spec x hctx hpctx.2 hfsnd
  have hs₁ctx : ∀ z, z ∉ ctxLeft fs → z ∉ ctxRight fs → s₁.entry z = s.entry z :=
    fun z h₁ h₂ => hrel₁.frame z (by simp [h₁, h₂])
  have hs₁x : s₁.entry x = s.entry x := hs₁ctx x hxctx.1 hxctx.2
  have hs₁p : s₁.entry p = s.entry p := hs₁ctx p hpctx.1 hpctx.2
  obtain ⟨s', hrot, rfl⟩ : ∃ s', scheduleRotateUp s x = some s' ∧
      s' = ((((s₁.setParent x (holeParent fs)).setParent p (some x)).setLt x (some p)).setGt p
        (rootPtr a)).setParentOpt (rootPtr a) (some p) :=
    ⟨_, by simp [scheduleRotateUp, hxp, hxl, hxg, hpp, hs₁, hs₁p, hgp, hxp'.symm], rfl⟩
  have eo : ∀ z, z ≠ x → z ≠ p → (∀ y ∈ rootPtr a, z ≠ y) →
      (((((s₁.setParent x (holeParent fs)).setParent p (some x)).setLt x (some p)).setGt p
        (rootPtr a)).setParentOpt (rootPtr a) (some p)).entry z = s₁.entry z := by
    intro z hzx hzp hzy
    rw [entry_setParentOpt_of_ne _ _ hzy]
    simp [hzx, hzp]
  have hna : ∀ z, z ∉ inorder a → ∀ y ∈ rootPtr a, z ≠ y :=
    fun z hz y hy h => hz (by rw [h]; exact hya y hy)
  have hxa : x ∉ inorder a := fun h => (hda x h).1 rfl
  have hpa : p ∉ inorder a := fun h => (hda p h).2.1 rfl
  refine ⟨_, hrot, ?_, ?_, ?_⟩
  · rw [root_setParentOpt]
    exact hctx₁.frame fun z hz => sameAt_of_entry
      (eo z (hdc z hz).1 (hdc z hz).2.1 (hna z (hdc z hz).2.2))
  · -- `x` on top, `p` below it on the left with `c` and `a` below it, `b` on the right
    have hbc : ∀ z, z ∈ inorder b ∨ z ∈ inorder c → SameAt s.links
        (((((s₁.setParent x (holeParent fs)).setParent p (some x)).setLt x (some p)).setGt p
          (rootPtr a)).setParentOpt (rootPtr a) (some p)).links z := fun z hz =>
      sameAt_of_entry ((eo z (hdbc z hz).1 (hdbc z hz).2.1 (hna z (hdbc z hz).2.2.1)).trans
        (hs₁ctx z (hdbc z hz).2.2.2.1 (hdbc z hz).2.2.2.2))
    refine .node ?_ ?_ ?_ (.node ?_ ?_ ?_ (hrc.frame fun z hz => hbc z (.inr hz)) ?_)
      (hrb.frame fun z hz => hbc z (.inl hz))
    · simp [entry_setParentOpt_of_ne _ _ (hna x hxa), hxp']
    · simp [entry_setParentOpt_of_ne _ _ (hna x hxa), hxp']
    · simp [entry_setParentOpt_of_ne _ _ (hna x hxa), hxp', hs₁x, hxg]
    · simp [entry_setParentOpt_of_ne _ _ (hna p hpa), hxp'.symm]
    · simp [entry_setParentOpt_of_ne _ _ (hna p hpa), hxp'.symm, hs₁p, hpl]
    · simp [entry_setParentOpt_of_ne _ _ (hna p hpa)]
    · -- the root of `a` now hangs from `p`
      cases a with
      | nil => exact .nil _
      | node y a₁ a₂ =>
          simp only [inorder_node, List.nodup_append, List.nodup_cons,
            List.mem_cons] at hand
          have hy := hda y (by simp)
          have hs₁y : s₁.entry y = s.entry y := hs₁ctx y hy.2.2.1 hy.2.2.2
          refine hra.reparent (by simp) (by simp [hy.1, hy.2.1, hs₁y])
            (by simp [hy.1, hy.2.1, hs₁y]) fun z hz => sameAt_of_entry ?_
          have hz' := hda z (by simp only [inorder_node, List.mem_append, List.mem_cons]; tauto)
          have hzy : z ≠ y := by grind
          exact (eo z hz'.1 hz'.2.1 (by simpa using hzy)).trans (hs₁ctx z hz'.2.2.1 hz'.2.2.2)
  · have hW : ∀ z, z ∈ ctxLeft fs ++ ctxRight fs → z ∈ ctxLeft fs ∨ z ∈ inorder c ∨ z = p ∨
        z ∈ inorder a ∨ z = x ∨ z ∈ inorder b ∨ z ∈ ctxRight fs := by
      simp only [List.mem_append]
      tauto
    exact ((((((hrel₁.mono hW).trans (relink_setParent _ (e := x) (by simp) _)).trans
      (relink_setParent _ (e := p) (by simp) _)).trans (relink_setLt _ (e := x) (by simp) _)).trans
      (relink_setGt _ (e := p) (by simp) _)).trans
      (relink_setParentOpt _ (c := rootPtr a) (fun y hy => by simp [hya y hy]) _))

/-- `schedule_rotate_up` at a focus `x` below the node of the frame `f`: the links now spell the
tree with `x` rotated above that node. -/
theorem scheduleRotateUp_spec {s : Schedule E} {x : E} {f : Frame E} {fs : List (Frame E)}
    {a b : BinaryTree E} (hc : Ctx s.links s.root (some x) (f :: fs))
    (hx : Rep s.links (some f.node) (.node x a b))
    (hnd : (inorder (plug (f :: fs) (.node x a b))).Nodup) :
    ∃ s', scheduleRotateUp s x = some s' ∧ Ctx s'.links s'.root (some x) fs ∧
      Rep s'.links (holeParent fs) (.node x (f.rotate a b).1 (f.rotate a b).2) ∧
      Relink s s' (· ∈ inorder (plug (f :: fs) (.node x a b))) := by
  cases f with
  | left p c => exact scheduleRotateUp_left hc hx hnd
  | right c p => exact scheduleRotateUp_right hc hx hnd

end Rotation

/-! ### Loops -/

section Loops

/-- `schedule_find_least` below a node follows the left links to the first node in order. -/
theorem scheduleFindLeastLoop_spec {s : Schedule E} {pp : Option E} {t : BinaryTree E}
    (h : Rep s.links pp t) (fuel : Nat) {c : E} (hc : rootPtr t = some c) :
    (scheduleFindLeastLoop s c fuel = none ∧ fuel ≤ (inorder t).length) ∨
      scheduleFindLeastLoop s c fuel = (inorder t).head? := by
  induction h generalizing fuel c with
  | nil => cases hc
  | @node pp x l r hp hl hr repl repr ihl ihr =>
      cases hc
      simp only [links_lt] at hl
      cases fuel with
      | zero => exact .inl ⟨rfl, Nat.zero_le _⟩
      | succ n =>
          cases l with
          | nil => exact .inr (by simp [scheduleFindLeastLoop, hl])
          | node y l₁ l₂ =>
              rcases ihl n rfl with ⟨hn, hle⟩ | heq
              · refine .inl ⟨by simp [scheduleFindLeastLoop, hl, hn], ?_⟩
                simp only [inorder_node, List.length_append, List.length_cons] at hle ⊢
                omega
              · refine .inr ?_
                rw [scheduleFindLeastLoop, hl, rootPtr_node]
                simp [heq]

/-- `schedule_find_least` from the root returns the first node in order, `NULL` for the empty
tree. -/
theorem scheduleFindLeast_spec {s : Schedule E} {T : BinaryTree E} (h : IsTree s.links s.root T)
    (fuel : Nat) :
    (scheduleFindLeast s s.root fuel = none ∧ fuel ≤ (inorder T).length) ∨
      scheduleFindLeast s s.root fuel = some (inorder T).head? := by
  obtain ⟨hrep, hroot⟩ := h
  cases T with
  | nil => exact .inr (by simp [scheduleFindLeast, hroot])
  | node c l r =>
      rcases scheduleFindLeastLoop_spec hrep fuel rfl with ⟨hn, hle⟩ | heq
      · exact .inl ⟨by simp [scheduleFindLeast, hroot, hn], hle⟩
      · refine .inr ?_
        simp [scheduleFindLeast, hroot, heq]

variable [DecidableEq E]

/-- The loop of `schedule_add_modify` rotates the focus up until its parent has no larger
priority; it runs out of fuel only before it has climbed as many frames as there are. -/
theorem scheduleAddModifyLoop_spec (fuel : Nat) :
    ∀ {s : Schedule E} {e : E} {fs : List (Frame E)} {a b : BinaryTree E},
      Ctx s.links s.root (some e) fs → Rep s.links (holeParent fs) (.node e a b) →
      (inorder (plug fs (.node e a b))).Nodup → BubbleInv s.pri fs (.node e a b) →
      (scheduleAddModifyLoop s e fuel = none ∧ fuel ≤ fs.length) ∨
        ∃ s' T, scheduleAddModifyLoop s e fuel = some s' ∧ IsTree s'.links s'.root T ∧
          inorder T = inorder (plug fs (.node e a b)) ∧ HeapOrdered s.pri T ∧
          Relink s s' (· ∈ inorder (plug fs (.node e a b))) := by
  induction fuel with
  | zero => exact fun _ _ _ _ => .inl ⟨rfl, Nat.zero_le _⟩
  | succ n ih =>
      intro s e fs a b hc hr hnd hb
      have hpe : (s.entry e).parent = holeParent fs := by
        cases hr with
        | node hp _ _ _ _ => exact hp
      cases fs with
      | nil =>
          refine .inr ⟨s, _, by simp [scheduleAddModifyLoop, hpe], hc.isTree hr, rfl,
            hb.heapOrdered (by simp), Relink.refl s _⟩
      | cons f fs =>
          by_cases hlt : (s.entry e).pri < (s.entry f.node).pri
          · -- the parent has a larger priority: rotate, and go on from the frame above
            obtain ⟨s₁, hrot, hc₁, hr₁, hrel₁⟩ := scheduleRotateUp_spec hc hr hnd
            have hstep : scheduleAddModifyLoop s e (n + 1) = scheduleAddModifyLoop s₁ e n := by
              simp [scheduleAddModifyLoop, hpe, hlt, hrot]
            have hord := inorder_plug_rotate f fs e a b
            have hb₁ : BubbleInv s₁.pri fs (.node e (f.rotate a b).1 (f.rotate a b).2) := by
              rw [hrel₁.pri_eq]
              exact hb.rotate (UInt32.lt_iff_toNat_lt.mp hlt).le
            rcases ih hc₁ hr₁ (hord ▸ hnd) hb₁ with ⟨hn, hle⟩ | ⟨s', T, hs', hT, hTord, hheap, hrel⟩
            · exact .inl ⟨hstep.trans hn, by simpa using hle⟩
            · refine .inr ⟨s', T, hstep.trans hs', hT, hTord.trans hord, ?_, ?_⟩
              · rwa [hrel₁.pri_eq] at hheap
              · exact hrel₁.trans (hord ▸ hrel)
          · -- the parent has no larger priority: the loop stops
            refine .inr ⟨s, _, by simp [scheduleAddModifyLoop, hpe, hlt], hc.isTree hr, rfl,
              hb.heapOrdered ?_, Relink.refl s _⟩
            intro p hp
            cases hp
            exact UInt32.le_iff_toNat_le.mp (UInt32.not_lt.mp hlt)

/-- `schedule_detach_parent` at a leaf: the link to it, from its parent or from the root, is
cleared, and so is its own parent link. -/
theorem scheduleDetachParent_spec {s : Schedule E} {e : E} {fs : List (Frame E)}
    (hc : Ctx s.links s.root (some e) fs) (hr : Rep s.links (holeParent fs) (.node e .nil .nil))
    (hnd : (inorder (plug fs (.node e .nil .nil))).Nodup) :
    ∃ s', scheduleDetachParent s e = some s' ∧ IsTree s'.links s'.root (plug fs .nil) ∧
      (s'.entry e).parent = none ∧ (s'.entry e).lt = none ∧ (s'.entry e).gt = none ∧
      Relink s s' (· ∈ inorder (plug fs (.node e .nil .nil))) := by
  cases hr with
  | node hpe hle hge _ _ =>
  simp only [links_lt, links_gt, links_parent, rootPtr_nil] at hpe hle hge
  cases fs with
  | nil =>
      have hroot : s.root = some e := hc
      exact ⟨{ s with root := none }, by simp [scheduleDetachParent, hpe, hroot], ⟨.nil _, rfl⟩,
        hpe, hle, hge, relink_root s _ _⟩
  | cons f fs =>
      cases f with
      | left p r =>
          obtain ⟨hlp, hgp, hpp, hrep, hctx⟩ := hc
          simp only [links_lt, links_gt, links_parent] at hlp hgp hpp
          simp only [plug, inorder_plug, inorder_node, inorder_nil, List.nil_append,
            List.append_assoc, List.cons_append, List.mem_append, List.mem_cons] at hnd ⊢
          simp only [List.nodup_append, List.nodup_cons, List.mem_append, List.mem_cons,
            ne_eq] at hnd
          have hep : e ≠ p := by grind
          have hother : ∀ z, z ∈ inorder r ∨ z ∈ ctxLeft fs ∨ z ∈ ctxRight fs → z ≠ e ∧ z ≠ p := by
            grind
          refine ⟨(s.setLt p none).setParent e none, by simp [scheduleDetachParent, Frame.node, hpe, hlp],
            Ctx.isTree (hctx.frame fun z hz => sameAt_of_entry ?_) (.node ?_ ?_ ?_ (.nil _)
              (hrep.frame fun z hz => sameAt_of_entry ?_)), by simp, by simp [hep, hle], by simp [hep, hge],
            (relink_setLt s (e := p) (by simp) _).trans (relink_setParent _ (e := e) (by simp) _)⟩
          · simp [(hother z (.inr hz)).1, (hother z (.inr hz)).2]
          · simp [hep.symm, hpp]
          · simp [hep.symm]
          · simp [hep.symm, hgp]
          · simp [(hother z (.inl hz)).1, (hother z (.inl hz)).2]
      | right l p =>
          obtain ⟨hgp, hlp, hpp, hrep, hctx⟩ := hc
          simp only [links_lt, links_gt, links_parent] at hlp hgp hpp
          simp only [plug, inorder_plug, inorder_node, inorder_nil, List.nil_append,
            List.append_assoc, List.cons_append, List.mem_append,
            List.mem_cons] at hnd ⊢
          simp only [List.nodup_append, List.nodup_cons, List.mem_append, List.mem_cons,
            ne_eq] at hnd
          have hep : e ≠ p := by grind
          have hother : ∀ z, z ∈ inorder l ∨ z ∈ ctxLeft fs ∨ z ∈ ctxRight fs → z ≠ e ∧ z ≠ p := by
            grind
          have hne : (s.entry p).lt ≠ some e := by
            rw [hlp]
            exact fun h => (hother e (.inl (mem_inorder_of_rootPtr h))).1 rfl
          refine ⟨(s.setGt p none).setParent e none, by simp [scheduleDetachParent, Frame.node, hpe, hne, hgp],
            Ctx.isTree (hctx.frame fun z hz => sameAt_of_entry ?_) (.node ?_ ?_ ?_
              (hrep.frame fun z hz => sameAt_of_entry ?_) (.nil _)), by simp, by simp [hep, hle],
            by simp [hep, hge],
            (relink_setGt s (e := p) (by simp) _).trans (relink_setParent _ (e := e) (by simp) _)⟩
          · simp [(hother z (.inr hz)).1, (hother z (.inr hz)).2]
          · simp [hep.symm, hpp]
          · simp [hep.symm, hlp]
          · simp [hep.symm]
          · simp [(hother z (.inl hz)).1, (hother z (.inl hz)).2]

/-- One rotation of `schedule_remove_node` with the left child `l` of the sinking focus `e`: `e`
is then the right child of `l`, with `l`'s right subtree on its left. -/
theorem scheduleRotateUp_sink_left {s : Schedule E} {e l : E} {a₁ a₂ b : BinaryTree E}
    {fs : List (Frame E)} (hc : Ctx s.links s.root (some e) fs)
    (hr : Rep s.links (holeParent fs) (.node e (.node l a₁ a₂) b))
    (hnd : (inorder (plug fs (.node e (.node l a₁ a₂) b))).Nodup) :
    ∃ s₁, scheduleRotateUp s l = some s₁ ∧ Ctx s₁.links s₁.root (some e) (.right a₁ l :: fs) ∧
      Rep s₁.links (holeParent (.right a₁ l :: fs)) (.node e a₂ b) ∧
      inorder (plug (.right a₁ l :: fs) (.node e a₂ b)) =
        inorder (plug fs (.node e (.node l a₁ a₂) b)) ∧
      Relink s s₁ (· ∈ inorder (plug fs (.node e (.node l a₁ a₂) b))) := by
  obtain ⟨hcl, hrl⟩ := hc.push_left hr
  obtain ⟨s₁, hrot, hc₁, hr₁, hrel₁⟩ := scheduleRotateUp_left hcl hrl hnd
  obtain ⟨hce, hre⟩ := hc₁.push_right hr₁
  exact ⟨s₁, hrot, hce, hre, by simp [plug, inorder_plug], hrel₁⟩

/-- One rotation of `schedule_remove_node` with the right child `g` of the sinking focus `e`. -/
theorem scheduleRotateUp_sink_right {s : Schedule E} {e g : E} {a b₁ b₂ : BinaryTree E}
    {fs : List (Frame E)} (hc : Ctx s.links s.root (some e) fs)
    (hr : Rep s.links (holeParent fs) (.node e a (.node g b₁ b₂)))
    (hnd : (inorder (plug fs (.node e a (.node g b₁ b₂)))).Nodup) :
    ∃ s₁, scheduleRotateUp s g = some s₁ ∧ Ctx s₁.links s₁.root (some e) (.left g b₂ :: fs) ∧
      Rep s₁.links (holeParent (.left g b₂ :: fs)) (.node e a b₁) ∧
      inorder (plug (.left g b₂ :: fs) (.node e a b₁)) =
        inorder (plug fs (.node e a (.node g b₁ b₂))) ∧
      Relink s s₁ (· ∈ inorder (plug fs (.node e a (.node g b₁ b₂)))) := by
  obtain ⟨hcg, hrg⟩ := hc.push_right hr
  obtain ⟨s₁, hrot, hc₁, hr₁, hrel₁⟩ := scheduleRotateUp_right hcg hrg hnd
  obtain ⟨hce, hre⟩ := hc₁.push_left hr₁
  exact ⟨s₁, hrot, hce, hre, by simp [plug, inorder_plug], hrel₁⟩

/-- One turn of the loop of `schedule_remove_node` at a focus with a child: the child of lesser
priority rotates above it, and the focus has one node fewer below it. -/
theorem scheduleRemoveNodeLoop_step {s : Schedule E} {e : E} {fs : List (Frame E)}
    {a b : BinaryTree E} (n : Nat) (hc : Ctx s.links s.root (some e) fs)
    (hr : Rep s.links (holeParent fs) (.node e a b)) (hnd : (inorder (plug fs (.node e a b))).Nodup)
    (hsink : SinkInv s.pri fs (.node e a b)) (hleaf : ¬(a = .nil ∧ b = .nil)) :
    ∃ s₁ fs₁ a' b', scheduleRemoveNodeLoop s e (n + 1) = scheduleRemoveNodeLoop s₁ e n ∧
      Ctx s₁.links s₁.root (some e) fs₁ ∧ Rep s₁.links (holeParent fs₁) (.node e a' b') ∧
      inorder (plug fs₁ (.node e a' b')) = inorder (plug fs (.node e a b)) ∧
      SinkInv s₁.pri fs₁ (.node e a' b') ∧ Relink s s₁ (· ∈ inorder (plug fs (.node e a b))) ∧
      (inorder a').length + (inorder b').length < (inorder a).length + (inorder b).length := by
  have ⟨hle, hge⟩ : (s.entry e).lt = rootPtr a ∧ (s.entry e).gt = rootPtr b := by
    cases hr with
    | node _ hl hr' _ _ => exact ⟨hl, hr'⟩
  -- the rotation with the left child, then the one with the right child
  have left : ∀ {l a₁ a₂}, a = .node l a₁ a₂ → (∀ y ∈ rootPtr b, s.pri l ≤ s.pri y) →
      scheduleRemoveNodeLoop s e (n + 1) = (scheduleRotateUp s l).bind
        (fun s => scheduleRemoveNodeLoop s e n) → ∃ s₁ fs₁ a' b',
        scheduleRemoveNodeLoop s e (n + 1) = scheduleRemoveNodeLoop s₁ e n ∧
        Ctx s₁.links s₁.root (some e) fs₁ ∧ Rep s₁.links (holeParent fs₁) (.node e a' b') ∧
        inorder (plug fs₁ (.node e a' b')) = inorder (plug fs (.node e a b)) ∧
        SinkInv s₁.pri fs₁ (.node e a' b') ∧ Relink s s₁ (· ∈ inorder (plug fs (.node e a b))) ∧
        (inorder a').length + (inorder b').length < (inorder a).length + (inorder b).length := by
    rintro l a₁ a₂ rfl hpri hloop
    obtain ⟨s₁, hrot, hc₁, hr₁, hord, hrel₁⟩ := scheduleRotateUp_sink_left hc hr hnd
    refine ⟨s₁, _, _, _, by rw [hloop, hrot]; rfl, hc₁, hr₁, hord, ?_, hrel₁,
      by simp only [inorder_node, List.length_append, List.length_cons]; omega⟩
    rw [hrel₁.pri_eq]
    exact hsink.sink_left hpri
  have right : ∀ {g b₁ b₂}, b = .node g b₁ b₂ → (∀ y ∈ rootPtr a, s.pri g ≤ s.pri y) →
      scheduleRemoveNodeLoop s e (n + 1) = (scheduleRotateUp s g).bind
        (fun s => scheduleRemoveNodeLoop s e n) → ∃ s₁ fs₁ a' b',
        scheduleRemoveNodeLoop s e (n + 1) = scheduleRemoveNodeLoop s₁ e n ∧
        Ctx s₁.links s₁.root (some e) fs₁ ∧ Rep s₁.links (holeParent fs₁) (.node e a' b') ∧
        inorder (plug fs₁ (.node e a' b')) = inorder (plug fs (.node e a b)) ∧
        SinkInv s₁.pri fs₁ (.node e a' b') ∧ Relink s s₁ (· ∈ inorder (plug fs (.node e a b))) ∧
        (inorder a').length + (inorder b').length < (inorder a).length + (inorder b).length := by
    rintro g b₁ b₂ rfl hpri hloop
    obtain ⟨s₁, hrot, hc₁, hr₁, hord, hrel₁⟩ := scheduleRotateUp_sink_right hc hr hnd
    refine ⟨s₁, _, _, _, by rw [hloop, hrot]; rfl, hc₁, hr₁, hord, ?_, hrel₁,
      by simp only [inorder_node, List.length_append, List.length_cons]; omega⟩
    rw [hrel₁.pri_eq]
    exact hsink.sink_right hpri
  cases a with
  | nil =>
      cases b with
      | nil => exact absurd ⟨rfl, rfl⟩ hleaf
      | node g b₁ b₂ =>
          exact right rfl (by simp) (by simp [scheduleRemoveNodeLoop, hle, hge])
  | node l a₁ a₂ =>
      cases b with
      | nil => exact left rfl (by simp) (by simp [scheduleRemoveNodeLoop, hle, hge])
      | node g b₁ b₂ =>
          by_cases hlg : (s.entry l).pri < (s.entry g).pri
          · refine left rfl (fun y hy => ?_) (by simp [scheduleRemoveNodeLoop, hle, hge, hlg])
            cases hy
            exact (UInt32.lt_iff_toNat_lt.mp hlg).le
          · refine right rfl (fun y hy => ?_) (by simp [scheduleRemoveNodeLoop, hle, hge, hlg])
            cases hy
            exact UInt32.le_iff_toNat_le.mp (UInt32.not_lt.mp hlg)

/-- The loop of `schedule_remove_node` sinks the focus to a leaf by rotations that keep the order
of the nodes; it runs out of fuel only while there are more nodes below the focus. -/
theorem scheduleRemoveNodeLoop_spec (fuel : Nat) :
    ∀ {s : Schedule E} {e : E} {fs : List (Frame E)} {a b : BinaryTree E},
      Ctx s.links s.root (some e) fs → Rep s.links (holeParent fs) (.node e a b) →
      (inorder (plug fs (.node e a b))).Nodup → SinkInv s.pri fs (.node e a b) →
      (scheduleRemoveNodeLoop s e fuel = none ∧
          fuel ≤ (inorder a).length + (inorder b).length) ∨
        ∃ s' fs', scheduleRemoveNodeLoop s e fuel = some s' ∧
          Ctx s'.links s'.root (some e) fs' ∧ Rep s'.links (holeParent fs') (.node e .nil .nil) ∧
          inorder (plug fs' (.node e .nil .nil)) = inorder (plug fs (.node e a b)) ∧
          SinkInv s.pri fs' (.node e .nil .nil) ∧
          Relink s s' (· ∈ inorder (plug fs (.node e a b))) := by
  induction fuel with
  | zero => exact fun _ _ _ _ => .inl ⟨rfl, Nat.zero_le _⟩
  | succ n ih =>
      intro s e fs a b hc hr hnd hsink
      by_cases hleaf : a = .nil ∧ b = .nil
      · obtain ⟨rfl, rfl⟩ := hleaf
        have ⟨hle, hge⟩ : (s.entry e).lt = none ∧ (s.entry e).gt = none := by
          cases hr with
          | node _ hl hr' _ _ => exact ⟨hl, hr'⟩
        exact .inr ⟨s, fs, by simp [scheduleRemoveNodeLoop, hle, hge], hc, hr, rfl, hsink,
          Relink.refl s _⟩
      · obtain ⟨s₁, fs₁, a', b', hstep, hc₁, hr₁, hord, hsink₁, hrel₁, hlt⟩ :=
          scheduleRemoveNodeLoop_step n hc hr hnd hsink hleaf
        rcases ih hc₁ hr₁ (hord ▸ hnd) hsink₁ with ⟨hn, hle⟩ | ⟨s', fs', hs', hc', hr', hord', hsink', hrel'⟩
        · exact .inl ⟨hstep.trans hn, by omega⟩
        · refine .inr ⟨s', fs', hstep.trans hs', hc', hr', hord'.trans hord, ?_, ?_⟩
          · rwa [hrel₁.pri_eq] at hsink'
          · exact hrel₁.trans (hord ▸ hrel')

/-- What the insertion of `e` into the tree `T` needs: the tree's nodes are distinct and in order,
and `e` is none of them and has no links. -/
structure InsertPre (s : Schedule E) (T : BinaryTree E) (e : E) : Prop where
  nodup : (inorder T).Nodup
  sorted : (inorder T).Pairwise s.Before
  fresh : e ∉ inorder T
  parent : (s.entry e).parent = none
  lt : (s.entry e).lt = none
  gt : (s.entry e).gt = none
  pri : (s.entry e).pri ≠ 0

/-- A new priority for `e` keeps what the insertion needs, and the tree. -/
theorem InsertPre.setPri {s : Schedule E} {T : BinaryTree E} {e : E} (h : InsertPre s T e)
    {v : UInt32} (hv : v ≠ 0) : InsertPre (s.setPri e v) T e := by
  refine ⟨h.nodup, h.sorted.imp_of_mem fun {x y} hx hy hxy => (before_setPri_iff v ?_ ?_).mpr hxy,
    h.fresh, by simpa using h.parent, by simpa using h.lt, by simpa using h.gt, by simpa using hv⟩
  · rintro rfl
    exact h.fresh hx
  · rintro rfl
    exact h.fresh hy

/-- `c->lt = e; e->parent = c` at the empty left link of `c`. -/
theorem scheduleInsert_leaf_left {s : Schedule E} {T : BinaryTree E} {e c : E} {r : BinaryTree E}
    {fs : List (Frame E)} (pre : InsertPre s T e) (hc : Ctx s.links s.root (some c) fs)
    (hr : Rep s.links (holeParent fs) (.node c .nil r)) (hplug : plug fs (.node c .nil r) = T) :
    Ctx ((s.setLt c (some e)).setParent e (some c)).links s.root (some e) (.left c r :: fs) ∧
      Rep ((s.setLt c (some e)).setParent e (some c)).links (some c) (.node e .nil .nil) ∧
      Relink s ((s.setLt c (some e)).setParent e (some c)) (fun z => z = e ∨ z ∈ inorder T) := by
  cases hr with
  | node hpc _ hgc _ hrr =>
  have hnd := pre.nodup
  have he := pre.fresh
  subst hplug
  simp only [inorder_plug, inorder_node, inorder_nil, List.nil_append, List.mem_append,
    List.mem_cons] at hnd he ⊢
  simp only [List.nodup_append, List.nodup_cons, List.mem_append, ne_eq] at hnd
  have hec : e ≠ c := by grind
  have hother : ∀ z, z ∈ inorder r ∨ z ∈ ctxLeft fs ∨ z ∈ ctxRight fs → z ≠ e ∧ z ≠ c := by
    grind
  refine ⟨⟨by simp [hec.symm], by simpa [hec.symm] using hgc, by simpa [hec.symm] using hpc,
      hrr.frame fun z hz => sameAt_of_entry ?_, hc.frame fun z hz => sameAt_of_entry ?_⟩,
    .node (by simp) (by simp [hec, pre.lt]) (by simp [hec, pre.gt]) (.nil _) (.nil _),
    (relink_setLt s (e := c) (by simp) _).trans (relink_setParent _ (e := e) (by simp) _)⟩
  · simp [(hother z (.inl hz)).1, (hother z (.inl hz)).2]
  · simp [(hother z (.inr hz)).1, (hother z (.inr hz)).2]

/-- `c->gt = e; e->parent = c` at the empty right link of `c`. -/
theorem scheduleInsert_leaf_right {s : Schedule E} {T : BinaryTree E} {e c : E} {l : BinaryTree E}
    {fs : List (Frame E)} (pre : InsertPre s T e) (hc : Ctx s.links s.root (some c) fs)
    (hr : Rep s.links (holeParent fs) (.node c l .nil)) (hplug : plug fs (.node c l .nil) = T) :
    Ctx ((s.setGt c (some e)).setParent e (some c)).links s.root (some e) (.right l c :: fs) ∧
      Rep ((s.setGt c (some e)).setParent e (some c)).links (some c) (.node e .nil .nil) ∧
      Relink s ((s.setGt c (some e)).setParent e (some c)) (fun z => z = e ∨ z ∈ inorder T) := by
  cases hr with
  | node hpc hlc _ hrl _ =>
  have hnd := pre.nodup
  have he := pre.fresh
  subst hplug
  simp only [inorder_plug, inorder_node, inorder_nil, List.mem_append, List.mem_cons] at hnd he ⊢
  simp only [List.nodup_append, List.nodup_cons, List.mem_append, List.mem_cons, ne_eq] at hnd
  have hec : e ≠ c := by grind
  have hother : ∀ z, z ∈ inorder l ∨ z ∈ ctxLeft fs ∨ z ∈ ctxRight fs → z ≠ e ∧ z ≠ c := by
    grind
  refine ⟨⟨by simp [hec.symm], by simpa [hec.symm] using hlc, by simpa [hec.symm] using hpc,
      hrl.frame fun z hz => sameAt_of_entry ?_, hc.frame fun z hz => sameAt_of_entry ?_⟩,
    .node (by simp) (by simp [hec, pre.lt]) (by simp [hec, pre.gt]) (.nil _) (.nil _),
    (relink_setGt s (e := c) (by simp) _).trans (relink_setParent _ (e := e) (by simp) _)⟩
  · simp [(hother z (.inl hz)).1, (hother z (.inl hz)).2]
  · simp [(hother z (.inr hz)).1, (hother z (.inr hz)).2]

/-- The loop of `schedule_insert` descends from `c` to the hole that `e` fits and hangs `e` there,
with a new priority for each collision of keys on the way. It fails only when the fuel runs out
below `c`, or after a collision, when the random values run out or a later descent does. -/
theorem scheduleInsertLoop_spec {T : BinaryTree E} {e : E} (fuel : Nat) :
    ∀ {s : Schedule E} {pris : List UInt32} {c : E} {fs : List (Frame E)} {l r : BinaryTree E},
      InsertPre s T e → Ctx s.links s.root (some c) fs → Rep s.links (holeParent fs) (.node c l r) →
      plug fs (.node c l r) = T → Fits s.Before e fs →
      (scheduleInsertLoop s e c pris fuel = none ∧
          (fuel ≤ (inorder (.node c l r)).length ∨
            ∃ y ∈ inorder T, entryKey (s.entry y) = entryKey (s.entry e))) ∨
        ∃ s' pris' fs' v, scheduleInsertLoop s e c pris fuel = some (s', pris') ∧ v ≠ 0 ∧
          Relink (s.setPri e v) s' (fun z => z = e ∨ z ∈ inorder T) ∧
          Ctx s'.links s'.root (some e) fs' ∧ Rep s'.links (holeParent fs') (.node e .nil .nil) ∧
          plug fs' .nil = T ∧ Fits s'.Before e fs' := by
  induction fuel with
  | zero => exact fun _ _ _ _ _ => .inl ⟨rfl, .inl (Nat.zero_le _)⟩
  | succ n ih =>
      intro s pris c fs l r pre hc hr hplug hfits
      have ⟨hlc, hgc⟩ : (s.entry c).lt = rootPtr l ∧ (s.entry c).gt = rootPtr r := by
        cases hr with
        | node _ hl hr' _ _ => exact ⟨hl, hr'⟩
      have hsorted : (inorder (plug fs (.node c l r))).Pairwise s.Before := hplug ▸ pre.sorted
      -- a descent to a child keeps the outcome, with one step of fuel more
      have descend : ∀ {c' : E} {fs' : List (Frame E)} {l' r' : BinaryTree E},
          scheduleInsertLoop s e c pris (n + 1) = scheduleInsertLoop s e c' pris n →
          (inorder (.node c' l' r')).length < (inorder (.node c l r)).length →
          Ctx s.links s.root (some c') fs' → Rep s.links (holeParent fs') (.node c' l' r') →
          plug fs' (.node c' l' r') = T → Fits s.Before e fs' →
          (scheduleInsertLoop s e c pris (n + 1) = none ∧
              (n + 1 ≤ (inorder (.node c l r)).length ∨
                ∃ y ∈ inorder T, entryKey (s.entry y) = entryKey (s.entry e))) ∨
            ∃ s' pris' fs' v, scheduleInsertLoop s e c pris (n + 1) = some (s', pris') ∧ v ≠ 0 ∧
              Relink (s.setPri e v) s' (fun z => z = e ∨ z ∈ inorder T) ∧
              Ctx s'.links s'.root (some e) fs' ∧
              Rep s'.links (holeParent fs') (.node e .nil .nil) ∧
              plug fs' .nil = T ∧ Fits s'.Before e fs' := by
        intro c' fs' l' r' hstep hlen hc' hr' hplug' hf'
        rw [hstep]
        rcases ih pre hc' hr' hplug' hf' with ⟨hn, hwhy⟩ | hpost
        · exact .inl ⟨hn, hwhy.imp (fun h => by omega) id⟩
        · exact .inr hpost
      by_cases h₁ : entryKey (s.entry e) < entryKey (s.entry c)
      · -- `e` goes to the left of `c`
        have hcmp : scheduleEntryCompare (s.entry e) (s.entry c) = -1 :=
          (scheduleEntryCompare_eq_neg_one_iff _ _).mpr h₁
        have hf := hfits.left hsorted hcmp
        cases l with
        | nil =>
            obtain ⟨hc', hr', hrel⟩ := scheduleInsert_leaf_left pre hc hr hplug
            refine .inr ⟨_, pris, _, _, by simp [scheduleInsertLoop, hcmp, hlc], pre.pri,
              by rw [setPri_self]; exact hrel, hc', hr', hplug, by rw [hrel.before_eq]; exact hf⟩
        | node l' l₁ l₂ =>
            obtain ⟨hcl, hrl⟩ := hc.push_left hr
            exact descend (by simp [scheduleInsertLoop, hcmp, hlc])
              (by simp only [inorder_node, List.length_append, List.length_cons]; omega)
              hcl hrl hplug hf
      · by_cases h₂ : entryKey (s.entry c) < entryKey (s.entry e)
        · -- `e` goes to the right of `c`
          have hcmp : scheduleEntryCompare (s.entry e) (s.entry c) = 1 :=
            (scheduleEntryCompare_eq_one_iff _ _).mpr h₂
          have hf := hfits.right hsorted (before_iff.mpr h₂)
          cases r with
          | nil =>
              obtain ⟨hc', hr', hrel⟩ := scheduleInsert_leaf_right pre hc hr hplug
              refine .inr ⟨_, pris, _, _, by simp [scheduleInsertLoop, hcmp, hgc], pre.pri,
                by rw [setPri_self]; exact hrel, hc', hr', hplug, by rw [hrel.before_eq]; exact hf⟩
          | node r' r₁ r₂ =>
              obtain ⟨hcr, hrr⟩ := hc.push_right hr
              exact descend (by simp [scheduleInsertLoop, hcmp, hgc])
                (by simp only [inorder_node, List.length_append, List.length_cons]; omega)
                hcr hrr hplug hf
        · -- a collision of keys: a new priority, and a new descent from the root
          have hcmp : scheduleEntryCompare (s.entry e) (s.entry c) = 0 := by
            rw [scheduleEntryCompare_eq, if_neg h₁, if_neg h₂]
          have hcoll : ∃ y ∈ inorder T, entryKey (s.entry y) = entryKey (s.entry e) :=
            ⟨c, by subst hplug; simp [inorder_plug], le_antisymm (not_lt.mp h₁) (not_lt.mp h₂)⟩
          cases pris with
          | nil => exact .inl ⟨by simp [scheduleInsertLoop, hcmp], .inr hcoll⟩
          | cons r₀ pris =>
              obtain ⟨hrepT, hrootT⟩ : IsTree s.links s.root T := hplug ▸ hc.isTree hr
              cases T with
              | nil => simp at hcoll
              | node root L R =>
                  obtain ⟨v, hv, hset⟩ := scheduleSetPri_eq s e r₀
                  have hstep : scheduleInsertLoop s e c (r₀ :: pris) (n + 1) =
                      scheduleInsertLoop (s.setPri e v) e root pris n := by
                    simp [scheduleInsertLoop, hcmp, hrootT, hset]
                  have hc₁ : Ctx (s.setPri e v).links (s.setPri e v).root (some root) [] := hrootT
                  rcases ih (pre.setPri hv) hc₁ (by rw [links_setPri]; exact hrepT) rfl (fits_nil e) with
                    ⟨hn, -⟩ | ⟨s', pris', fs', w, hs', hw, hrel, hc', hr', hplug', hf'⟩
                  · exact .inl ⟨hstep.trans hn, .inr hcoll⟩
                  · refine .inr ⟨s', pris', fs', w, hstep.trans hs', hw, ?_, hc', hr', hplug', hf'⟩
                    rwa [setPri_setPri] at hrel

end Loops

end OpenVpn
