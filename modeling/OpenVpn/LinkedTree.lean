import Mathlib.Data.Tree.Basic
import Mathlib.Order.Basic

/-! Binary trees kept as linked nodes, each with a parent link and two child links, as in an
intrusive search tree. `Rep L pp t` says that the links `L` spell the tree `t` below a parent link
`pp`; `Ctx` says the same of the path from the root down to a hole, kept as a list of frames (a
zipper), innermost first. A representation depends on the links of its own nodes only
(`Rep.frame`, `Ctx.frame`), so a write elsewhere keeps it, and `exists_focus` finds the frames
above any node. The second half states the facts of a treap over a zipper: the in-order sequence
and the heap order on priorities, and what a rotation at the focus keeps of them. -/

namespace LinkedTree

variable {E : Type*}

/-- The links of each node: its parent and its two children. -/
structure Links (E : Type*) where
  parent : E → Option E
  lt : E → Option E
  gt : E → Option E

/-- The nodes of a tree, in order. -/
def inorder : BinaryTree E → List E
  | .nil => []
  | .node x l r => inorder l ++ x :: inorder r

/-- The link that points to a tree: its root, or none. -/
def rootPtr : BinaryTree E → Option E
  | .nil => none
  | .node x _ _ => some x

@[simp] theorem inorder_nil : inorder (.nil : BinaryTree E) = [] := rfl

@[simp] theorem inorder_node (x : E) (l r : BinaryTree E) :
    inorder (.node x l r) = inorder l ++ x :: inorder r := rfl

@[simp] theorem rootPtr_nil : rootPtr (.nil : BinaryTree E) = none := rfl

@[simp] theorem rootPtr_node (x : E) (l r : BinaryTree E) : rootPtr (.node x l r) = some x := rfl

theorem mem_inorder_of_rootPtr {t : BinaryTree E} {x : E} (h : rootPtr t = some x) :
    x ∈ inorder t := by
  cases t with
  | nil => cases h
  | node y l r =>
      cases h
      simp

/-! ### Representation -/

/-- `Rep L pp t`: below the parent link `pp`, the links of `L` spell `t`. -/
inductive Rep (L : Links E) : Option E → BinaryTree E → Prop
  | nil (pp : Option E) : Rep L pp .nil
  | node {pp : Option E} {x : E} {l r : BinaryTree E} (hp : L.parent x = pp)
      (hl : L.lt x = rootPtr l) (hr : L.gt x = rootPtr r) (repl : Rep L (some x) l)
      (repr : Rep L (some x) r) : Rep L pp (.node x l r)

/-- `L'` has the links of `L` at the node `x`. -/
def SameAt (L L' : Links E) (x : E) : Prop :=
  L'.parent x = L.parent x ∧ L'.lt x = L.lt x ∧ L'.gt x = L.gt x

/-- A subtree's representation depends on the links of its own nodes only. -/
theorem Rep.frame {L L' : Links E} {pp : Option E} {t : BinaryTree E} (h : Rep L pp t)
    (same : ∀ x ∈ inorder t, SameAt L L' x) : Rep L' pp t := by
  induction h with
  | nil pp => exact .nil pp
  | @node pp x l r hp hl hr _ _ ihl ihr =>
      obtain ⟨sp, sl, sr⟩ := same x (by simp)
      exact .node (sp.trans hp) (sl.trans hl) (sr.trans hr)
        (ihl fun y hy => same y (by simp [hy])) (ihr fun y hy => same y (by simp [hy]))

/-- A node keeps its subtree under new links when its own child links and its children's links
are kept, whatever its parent link now is. -/
theorem Rep.reparent {L L' : Links E} {pp pp' : Option E} {x : E} {l r : BinaryTree E}
    (h : Rep L pp (.node x l r)) (hp : L'.parent x = pp') (hl : L'.lt x = L.lt x)
    (hr : L'.gt x = L.gt x) (same : ∀ y, y ∈ inorder l ∨ y ∈ inorder r → SameAt L L' y) :
    Rep L' pp' (.node x l r) := by
  cases h with
  | node _ hl' hr' repl repr =>
      exact .node hp (hl.trans hl') (hr.trans hr') (repl.frame fun y hy => same y (.inl hy))
        (repr.frame fun y hy => same y (.inr hy))

/-- A node's left link points into the tree, at a node whose parent link points back. -/
theorem Rep.lt_mem {L : Links E} {pp : Option E} {t : BinaryTree E} (h : Rep L pp t) {x y : E}
    (hx : x ∈ inorder t) (hy : L.lt x = some y) : y ∈ inorder t ∧ L.parent y = some x := by
  induction h with
  | nil => simp at hx
  | @node pp x' l r hp hl hr repl repr ihl ihr =>
      simp only [inorder_node, List.mem_append, List.mem_cons] at hx ⊢
      rcases hx with hx | rfl | hx
      · exact ⟨Or.inl (ihl hx).1, (ihl hx).2⟩
      · rw [hl] at hy
        cases l with
        | nil => cases hy
        | node z _ _ =>
            cases hy
            cases repl with
            | node hpz _ _ _ _ => exact ⟨Or.inl (by simp), hpz⟩
      · exact ⟨Or.inr (Or.inr (ihr hx).1), (ihr hx).2⟩

/-- A node's right link points into the tree, at a node whose parent link points back. -/
theorem Rep.gt_mem {L : Links E} {pp : Option E} {t : BinaryTree E} (h : Rep L pp t) {x y : E}
    (hx : x ∈ inorder t) (hy : L.gt x = some y) : y ∈ inorder t ∧ L.parent y = some x := by
  induction h with
  | nil => simp at hx
  | @node pp x' l r hp hl hr repl repr ihl ihr =>
      simp only [inorder_node, List.mem_append, List.mem_cons] at hx ⊢
      rcases hx with hx | rfl | hx
      · exact ⟨Or.inl (ihl hx).1, (ihl hx).2⟩
      · rw [hr] at hy
        cases r with
        | nil => cases hy
        | node z _ _ =>
            cases hy
            cases repr with
            | node hpz _ _ _ _ => exact ⟨Or.inr (Or.inr (by simp)), hpz⟩
      · exact ⟨Or.inr (Or.inr (ihr hx).1), (ihr hx).2⟩

/-- Every node's parent link is the outer parent link, at the root, or a node of the tree that
links to it. -/
theorem Rep.parent_mem {L : Links E} {pp : Option E} {t : BinaryTree E} (h : Rep L pp t) {y : E}
    (hy : y ∈ inorder t) :
    (L.parent y = pp ∧ rootPtr t = some y) ∨
      ∃ x ∈ inorder t, L.parent y = some x ∧ (L.lt x = some y ∨ L.gt x = some y) := by
  induction h with
  | nil => simp at hy
  | @node pp x l r hp hl hr repl repr ihl ihr =>
      simp only [inorder_node, List.mem_append, List.mem_cons] at hy
      rcases hy with hy | rfl | hy
      · rcases ihl hy with ⟨hpy, hroot⟩ | ⟨z, hz, hpz, hlink⟩
        · exact Or.inr ⟨x, by simp, hpy, Or.inl (hl.trans hroot)⟩
        · exact Or.inr ⟨z, by simp [hz], hpz, hlink⟩
      · exact Or.inl ⟨hp, rfl⟩
      · rcases ihr hy with ⟨hpy, hroot⟩ | ⟨z, hz, hpz, hlink⟩
        · exact Or.inr ⟨x, by simp, hpy, Or.inr (hr.trans hroot)⟩
        · exact Or.inr ⟨z, by simp [hz], hpz, hlink⟩

/-! ### Frames -/

/-- One step of the path from a hole up to the root: the hole is the left child of `x`, whose
right subtree is `r`, or the right child of `x`, whose left subtree is `l`. -/
inductive Frame (E : Type*)
  | left (x : E) (r : BinaryTree E)
  | right (l : BinaryTree E) (x : E)

/-- The node of a frame. -/
def Frame.node : Frame E → E
  | .left x _ => x
  | .right _ x => x

/-- The subtree of a frame on the other side of the hole. -/
def Frame.sib : Frame E → BinaryTree E
  | .left _ r => r
  | .right l _ => l

/-- The children of a node `e` once it is rotated above the node of the frame `f` it hangs from,
given its children `a` and `b`: the frame's node moves down on the far side and takes the child of
`e` that lay between them. -/
def Frame.rotate : Frame E → BinaryTree E → BinaryTree E → BinaryTree E × BinaryTree E
  | .left p c, a, b => (a, .node p b c)
  | .right c p, a, b => (.node p c a, b)

/-- The tree that the frames `fs`, innermost first, build around `t`. -/
def plug : List (Frame E) → BinaryTree E → BinaryTree E
  | [], t => t
  | .left x r :: fs, t => plug fs (.node x t r)
  | .right l x :: fs, t => plug fs (.node x l t)

/-- The parent link of the hole. -/
def holeParent (fs : List (Frame E)) : Option E := fs.head?.map Frame.node

/-- The nodes of the frames before the hole, in order. -/
def ctxLeft : List (Frame E) → List E
  | [] => []
  | .left _ _ :: fs => ctxLeft fs
  | .right l x :: fs => ctxLeft fs ++ inorder l ++ [x]

/-- The nodes of the frames after the hole, in order. -/
def ctxRight : List (Frame E) → List E
  | [] => []
  | .left x r :: fs => x :: inorder r ++ ctxRight fs
  | .right _ _ :: fs => ctxRight fs

@[simp] theorem holeParent_nil : holeParent ([] : List (Frame E)) = none := rfl

@[simp] theorem holeParent_cons (f : Frame E) (fs : List (Frame E)) :
    holeParent (f :: fs) = some f.node := rfl

theorem inorder_plug (fs : List (Frame E)) (t : BinaryTree E) :
    inorder (plug fs t) = ctxLeft fs ++ inorder t ++ ctxRight fs := by
  induction fs generalizing t with
  | nil => simp [plug, ctxLeft, ctxRight]
  | cons f fs ih =>
      cases f with
      | left x r => simp [plug, ctxLeft, ctxRight, ih]
      | right l x => simp [plug, ctxLeft, ctxRight, ih]

/-- `Ctx L root h fs`: the frames `fs` are linked as in the tree they build, and the link to the
hole, in its parent or in the root pointer `root`, holds `h`. -/
def Ctx (L : Links E) (root : Option E) : Option E → List (Frame E) → Prop
  | h, [] => root = h
  | h, .left x r :: fs => L.lt x = h ∧ L.gt x = rootPtr r ∧ L.parent x = holeParent fs ∧
      Rep L (some x) r ∧ Ctx L root (some x) fs
  | h, .right l x :: fs => L.gt x = h ∧ L.lt x = rootPtr l ∧ L.parent x = holeParent fs ∧
      Rep L (some x) l ∧ Ctx L root (some x) fs

/-- The links spell a whole tree `T` from the root pointer `root`. -/
def IsTree (L : Links E) (root : Option E) (T : BinaryTree E) : Prop :=
  Rep L none T ∧ root = rootPtr T

/-- The nodes of a context are distinct when those of a tree around the hole are. -/
theorem nodup_ctx {fs : List (Frame E)} {t : BinaryTree E} (h : (inorder (plug fs t)).Nodup) :
    (ctxLeft fs ++ ctxRight fs).Nodup := by
  rw [inorder_plug] at h
  exact h.sublist ((List.sublist_append_left _ _).append (List.Sublist.refl _))

/-- The parts of a duplicate-free list `L ++ A ++ u :: B ++ v :: C ++ R` are apart: what a
rotation of the adjacent nodes `u` and `v` needs of the subtree `B` between them and of the nodes
around them. -/
theorem apart_of_nodup {L A B C R : List E} {u v : E}
    (h : (L ++ (A ++ u :: (B ++ v :: (C ++ R)))).Nodup) :
    u ≠ v ∧ B.Nodup ∧
      (∀ z, z ∈ L ∨ z ∈ R → z ≠ u ∧ z ≠ v ∧ z ∉ B) ∧
      (∀ z, z ∈ A ∨ z ∈ C → z ≠ u ∧ z ≠ v ∧ z ∉ B ∧ z ∉ L ∧ z ∉ R) ∧
      (∀ z ∈ B, z ≠ u ∧ z ≠ v ∧ z ∉ L ∧ z ∉ R) := by
  simp only [List.nodup_append, List.nodup_cons, List.mem_append, List.mem_cons, ne_eq] at h
  grind

/-- Each frame has its own node, so the path is no longer than the nodes beside it. -/
theorem length_le_ctx (fs : List (Frame E)) :
    fs.length ≤ (ctxLeft fs).length + (ctxRight fs).length := by
  induction fs with
  | nil => simp
  | cons f fs ih =>
      cases f with
      | left x r =>
          simp only [ctxLeft, ctxRight, List.length_cons, List.length_append]
          omega
      | right l x =>
          simp only [ctxLeft, ctxRight, List.length_cons, List.length_append]
          omega

/-- Filling the hole of a represented context with a represented tree gives a whole tree. -/
theorem Ctx.isTree {L : Links E} {root : Option E} {fs : List (Frame E)} {t : BinaryTree E}
    (hc : Ctx L root (rootPtr t) fs) (ht : Rep L (holeParent fs) t) : IsTree L root (plug fs t) := by
  induction fs generalizing t with
  | nil => exact ⟨ht, hc⟩
  | cons f fs ih =>
      cases f with
      | left x r =>
          obtain ⟨hl, hr, hp, repr, hc'⟩ := hc
          exact ih hc' (.node hp hl hr ht repr)
      | right l x =>
          obtain ⟨hr, hl, hp, repl, hc'⟩ := hc
          exact ih hc' (.node hp hl hr repl ht)

/-- A context's representation depends on the links of its own nodes only. -/
theorem Ctx.frame {L L' : Links E} {root h : Option E} {fs : List (Frame E)}
    (hc : Ctx L root h fs) (same : ∀ x, x ∈ ctxLeft fs ∨ x ∈ ctxRight fs → SameAt L L' x) :
    Ctx L' root h fs := by
  induction fs generalizing h with
  | nil => exact hc
  | cons f fs ih =>
      cases f with
      | left x r =>
          obtain ⟨hl, hr, hp, repr, hc'⟩ := hc
          obtain ⟨sp, sl, sr⟩ := same x (by simp [ctxRight])
          refine ⟨sl.trans hl, sr.trans hr, sp.trans hp,
            repr.frame fun y hy => same y (by simp [ctxRight, hy]), ih hc' fun y hy => same y ?_⟩
          simp only [ctxLeft, ctxRight, List.mem_cons, List.mem_append]
          rcases hy with hy | hy
          · exact Or.inl hy
          · exact Or.inr (Or.inr hy)
      | right l x =>
          obtain ⟨hr, hl, hp, repl, hc'⟩ := hc
          obtain ⟨sp, sl, sr⟩ := same x (by simp [ctxLeft])
          refine ⟨sr.trans hr, sl.trans hl, sp.trans hp,
            repl.frame fun y hy => same y (by simp [ctxLeft, hy]), ih hc' fun y hy => same y ?_⟩
          simp only [ctxLeft, ctxRight, List.mem_append, List.mem_singleton]
          rcases hy with hy | hy
          · exact Or.inl (Or.inl (Or.inl hy))
          · exact Or.inr hy

/-- Going down from the focus to its left child. -/
theorem Ctx.push_left {L : Links E} {root : Option E} {x : E} {l r : BinaryTree E}
    {fs : List (Frame E)} (hc : Ctx L root (some x) fs) (hx : Rep L (holeParent fs) (.node x l r)) :
    Ctx L root (rootPtr l) (.left x r :: fs) ∧ Rep L (holeParent (.left x r :: fs)) l := by
  cases hx with
  | node hp hl hr repl repr => exact ⟨⟨hl, hr, hp, repr, hc⟩, repl⟩

/-- Going down from the focus to its right child. -/
theorem Ctx.push_right {L : Links E} {root : Option E} {x : E} {l r : BinaryTree E}
    {fs : List (Frame E)} (hc : Ctx L root (some x) fs) (hx : Rep L (holeParent fs) (.node x l r)) :
    Ctx L root (rootPtr r) (.right l x :: fs) ∧ Rep L (holeParent (.right l x :: fs)) r := by
  cases hx with
  | node hp hl hr repl repr => exact ⟨⟨hr, hl, hp, repl, hc⟩, repr⟩

/-- The frames above any node of a represented tree. -/
theorem exists_focus {L : Links E} {root : Option E} {e : E} :
    ∀ {pp : Option E} {t : BinaryTree E}, Rep L pp t → ∀ {fs : List (Frame E)},
      pp = holeParent fs → Ctx L root (rootPtr t) fs → e ∈ inorder t →
      ∃ fs' a b, plug fs' (.node e a b) = plug fs t ∧ Ctx L root (some e) fs' ∧
        Rep L (holeParent fs') (.node e a b) := by
  intro pp t ht
  induction ht with
  | nil => intro fs _ _ he; simp at he
  | @node pp x l r hp hl hr repl repr ihl ihr =>
      intro fs hpp hc he
      subst hpp
      simp only [inorder_node, List.mem_append, List.mem_cons] at he
      rcases he with he | rfl | he
      · exact @ihl (.left x r :: fs) rfl ⟨hl, hr, hp, repr, hc⟩ he
      · exact ⟨fs, l, r, rfl, hc, .node hp hl hr repl repr⟩
      · exact @ihr (.right l x :: fs) rfl ⟨hr, hl, hp, repl, hc⟩ he

/-! ### Reachability -/

/-- The nodes reachable from the root pointer along child links. -/
inductive Reach (L : Links E) (root : Option E) : E → Prop
  | root {x : E} : root = some x → Reach L root x
  | lt {x y : E} : Reach L root x → L.lt x = some y → Reach L root y
  | gt {x y : E} : Reach L root x → L.gt x = some y → Reach L root y

theorem Rep.reach {L : Links E} {pp : Option E} {t : BinaryTree E} (h : Rep L pp t)
    {root : Option E} (hroot : ∀ x, rootPtr t = some x → Reach L root x) :
    ∀ x ∈ inorder t, Reach L root x := by
  induction h with
  | nil => simp
  | @node pp x l r hp hl hr repl repr ihl ihr =>
      have hx : Reach L root x := hroot x rfl
      intro y hy
      simp only [inorder_node, List.mem_append, List.mem_cons] at hy
      rcases hy with hy | rfl | hy
      · exact ihl (fun z hz => .lt hx (hl.trans hz)) y hy
      · exact hx
      · exact ihr (fun z hz => .gt hx (hr.trans hz)) y hy

/-- The nodes reachable from the root are the nodes of the tree. -/
theorem IsTree.reach_iff {L : Links E} {root : Option E} {T : BinaryTree E} (h : IsTree L root T)
    {x : E} : Reach L root x ↔ x ∈ inorder T := by
  constructor
  · intro hx
    induction hx with
    | root h' => exact mem_inorder_of_rootPtr (h.2 ▸ h')
    | lt _ hy ih => exact (h.1.lt_mem ih hy).1
    | gt _ hy ih => exact (h.1.gt_mem ih hy).1
  · exact h.1.reach (fun x hx => .root (h.2.trans hx)) x

/-! ### Heap order -/

section Heap

variable {α : Type*} [Preorder α] (pri : E → α)

/-- Every node of the tree has priority at least `b` and at least its parent's. -/
def HeapFrom (b : α) : BinaryTree E → Prop
  | .nil => True
  | .node x l r => b ≤ pri x ∧ HeapFrom (pri x) l ∧ HeapFrom (pri x) r

/-- Every node has priority at least its parent's. -/
def HeapOrdered : BinaryTree E → Prop
  | .nil => True
  | .node x l r => HeapFrom pri (pri x) l ∧ HeapFrom pri (pri x) r

/-- The frames are heap ordered: each frame's other subtree lies below its node, and each node
lies below the next frame's. -/
def CtxHeap : List (Frame E) → Prop
  | [] => True
  | f :: fs => HeapFrom pri (pri f.node) f.sib ∧ (∀ g ∈ holeParent fs, pri g ≤ pri f.node) ∧
      CtxHeap fs

variable {pri}

theorem HeapFrom.mono {b b' : α} (hb : b' ≤ b) {t : BinaryTree E} (h : HeapFrom pri b t) :
    HeapFrom pri b' t := by
  cases t with
  | nil => trivial
  | node x l r => exact ⟨hb.trans h.1, h.2⟩

theorem HeapFrom.heapOrdered {b : α} {t : BinaryTree E} (h : HeapFrom pri b t) :
    HeapOrdered pri t := by
  cases t with
  | nil => trivial
  | node x l r => exact h.2

/-- The heap order of a tree reads the priorities of its own nodes only. -/
theorem HeapFrom.congr {pri' : E → α} {b : α} {t : BinaryTree E} (h : HeapFrom pri b t)
    (same : ∀ x ∈ inorder t, pri' x = pri x) : HeapFrom pri' b t := by
  induction t generalizing b with
  | nil => trivial
  | node x l r ihl ihr =>
      obtain ⟨hb, hl, hr⟩ := h
      have hx := same x (by simp)
      refine ⟨hx ▸ hb, ihl (hx ▸ hl) fun y hy => same y (by simp [hy]),
        ihr (hx ▸ hr) fun y hy => same y (by simp [hy])⟩

theorem HeapOrdered.congr {pri' : E → α} {t : BinaryTree E} (h : HeapOrdered pri t)
    (same : ∀ x ∈ inorder t, pri' x = pri x) : HeapOrdered pri' t := by
  cases t with
  | nil => trivial
  | node x l r =>
      have hx := same x (by simp)
      exact ⟨HeapFrom.congr (hx ▸ h.1) fun y hy => same y (by simp [hy]),
        HeapFrom.congr (hx ▸ h.2) fun y hy => same y (by simp [hy])⟩

/-- In a represented heap-ordered tree, a node's children have no smaller priority. -/
theorem HeapOrdered.le_child {L : Links E} {pp : Option E} {t : BinaryTree E} (hr : Rep L pp t)
    (h : HeapOrdered pri t) {x y : E} (hx : x ∈ inorder t) (hy : L.lt x = some y ∨ L.gt x = some y) :
    pri x ≤ pri y := by
  induction hr with
  | nil => simp at hx
  | @node pp x' l r hp hl hr' repl repr ihl ihr =>
      obtain ⟨hfl, hfr⟩ := h
      simp only [inorder_node, List.mem_append, List.mem_cons] at hx
      rcases hx with hx | rfl | hx
      · exact ihl hfl.heapOrdered hx
      · rcases hy with hy | hy
        · rw [hl] at hy
          cases l with
          | nil => cases hy
          | node z _ _ =>
              cases hy
              exact hfl.1
        · rw [hr'] at hy
          cases r with
          | nil => cases hy
          | node z _ _ =>
              cases hy
              exact hfr.1
      · exact ihr hfr.heapOrdered hx

theorem heapFrom_node_iff {b : α} {x : E} {l r : BinaryTree E} :
    HeapFrom pri b (.node x l r) ↔ b ≤ pri x ∧ HeapOrdered pri (.node x l r) := Iff.rfl

/-- A tree with a hole is heap ordered exactly when its frames are, and the tree in the hole is
heap ordered and lies below the hole's parent. -/
theorem heapOrdered_plug {fs : List (Frame E)} {t : BinaryTree E} :
    HeapOrdered pri (plug fs t) ↔
      CtxHeap pri fs ∧ (∀ p ∈ holeParent fs, HeapFrom pri (pri p) t) ∧ HeapOrdered pri t := by
  induction fs generalizing t with
  | nil => simp [plug, CtxHeap]
  | cons f fs ih =>
      cases f with
      | left x r =>
          rw [plug, ih]
          simp only [CtxHeap, Frame.node, Frame.sib, holeParent_cons, Option.mem_def,
            Option.some.injEq, forall_eq', HeapOrdered, heapFrom_node_iff]
          constructor
          · rintro ⟨hc, hp, ht, hr⟩
            exact ⟨⟨hr, fun g hg => (hp g hg).1, hc⟩, ht, ht.heapOrdered⟩
          · rintro ⟨⟨hr, hp, hc⟩, ht, -⟩
            exact ⟨hc, fun g hg => ⟨hp g hg, ht, hr⟩, ht, hr⟩
      | right l x =>
          rw [plug, ih]
          simp only [CtxHeap, Frame.node, Frame.sib, holeParent_cons, Option.mem_def,
            Option.some.injEq, forall_eq', HeapOrdered, heapFrom_node_iff]
          constructor
          · rintro ⟨hc, hp, hl, ht⟩
            exact ⟨⟨hl, fun g hg => (hp g hg).1, hc⟩, ht, ht.heapOrdered⟩
          · rintro ⟨⟨hl, hp, hc⟩, ht, -⟩
            exact ⟨hc, fun g hg => ⟨hp g hg, hl, ht⟩, hl, ht⟩

end Heap

/-! ### Rotations at the focus

Insertion adds the focus as a leaf and rotates it up while its parent has a larger priority; the
heap order then holds everywhere but between the focus and its parent, and the focus's parent
lies below the focus's children (`BubbleInv`). Deletion rotates the child with the smaller
priority above the focus until the focus is a leaf; the heap order then holds everywhere once the
focus is left out (`SinkInv`). -/

section Rotations

variable {α : Type*} [Preorder α] (pri : E → α)

/-- The heap order while the focus rises. -/
def BubbleInv (fs : List (Frame E)) : BinaryTree E → Prop
  | .nil => True
  | .node e a b => CtxHeap pri fs ∧ HeapFrom pri (pri e) a ∧ HeapFrom pri (pri e) b ∧
      ∀ p ∈ holeParent fs, HeapFrom pri (pri p) a ∧ HeapFrom pri (pri p) b

/-- The heap order while the focus sinks. -/
def SinkInv (fs : List (Frame E)) : BinaryTree E → Prop
  | .nil => True
  | .node _ a b => CtxHeap pri fs ∧ HeapOrdered pri a ∧ HeapOrdered pri b ∧
      ∀ p ∈ holeParent fs, HeapFrom pri (pri p) a ∧ HeapFrom pri (pri p) b

variable {pri}

/-- A new leaf in the hole of a heap-ordered tree starts rising. -/
theorem BubbleInv.leaf {fs : List (Frame E)} (h : HeapOrdered pri (plug fs .nil)) (e : E) :
    BubbleInv pri fs (.node e .nil .nil) :=
  ⟨(heapOrdered_plug.mp h).1, trivial, trivial, fun _ _ => ⟨trivial, trivial⟩⟩

/-- Rotating the focus above its parent of larger priority. -/
theorem BubbleInv.rotate {e : E} {f : Frame E} {a b : BinaryTree E} {fs : List (Frame E)}
    (h : BubbleInv pri (f :: fs) (.node e a b)) (hlt : pri e ≤ pri f.node) :
    BubbleInv pri fs (.node e (f.rotate a b).1 (f.rotate a b).2) := by
  obtain ⟨⟨hc, hgp, hfs⟩, ha, hb, hp⟩ := h
  obtain ⟨hpa, hpb⟩ := hp f.node rfl
  cases f with
  | left p c =>
      exact ⟨hfs, ha, ⟨hlt, hpb, hc⟩, fun g hg => ⟨hpa.mono (hgp g hg), ⟨hgp g hg, hpb, hc⟩⟩⟩
  | right c p =>
      exact ⟨hfs, ⟨hlt, hc, hpa⟩, hb, fun g hg => ⟨⟨hgp g hg, hc, hpa⟩, hpb.mono (hgp g hg)⟩⟩

/-- Once the focus's parent has no larger priority, the whole tree is heap ordered. -/
theorem BubbleInv.heapOrdered {e : E} {a b : BinaryTree E} {fs : List (Frame E)}
    (h : BubbleInv pri fs (.node e a b)) (hstop : ∀ p ∈ holeParent fs, pri p ≤ pri e) :
    HeapOrdered pri (plug fs (.node e a b)) :=
  heapOrdered_plug.mpr ⟨h.1, fun p hp => ⟨hstop p hp, h.2.1, h.2.2.1⟩, h.2.1, h.2.2.1⟩

/-- A node of a heap-ordered tree starts sinking. -/
theorem SinkInv.of_heapOrdered {e : E} {a b : BinaryTree E} {fs : List (Frame E)}
    (h : HeapOrdered pri (plug fs (.node e a b))) : SinkInv pri fs (.node e a b) := by
  obtain ⟨hc, hp, ⟨ha, hb⟩⟩ := heapOrdered_plug.mp h
  exact ⟨hc, ha.heapOrdered, hb.heapOrdered,
    fun p hp' => ⟨ha.mono (hp p hp').1, hb.mono (hp p hp').1⟩⟩

/-- Rotating the left child above the sinking focus, when it has no larger priority than the
right child. -/
theorem SinkInv.sink_left {e c : E} {a₁ a₂ b : BinaryTree E} {fs : List (Frame E)}
    (h : SinkInv pri fs (.node e (.node c a₁ a₂) b)) (hc : ∀ y ∈ rootPtr b, pri c ≤ pri y) :
    SinkInv pri (.right a₁ c :: fs) (.node e a₂ b) := by
  obtain ⟨hfs, ⟨ha₁, ha₂⟩, hb, hp⟩ := h
  refine ⟨⟨ha₁, fun g hg => (hp g hg).1.1, hfs⟩, ha₂.heapOrdered, hb, fun g hg => ⟨?_, ?_⟩⟩
  · cases hg
    exact ha₂
  · cases hg
    cases b with
    | nil => trivial
    | node y b₁ b₂ => exact ⟨hc y rfl, hb⟩

/-- Rotating the right child above the sinking focus, when it has no larger priority than the
left child. -/
theorem SinkInv.sink_right {e c : E} {a b₁ b₂ : BinaryTree E} {fs : List (Frame E)}
    (h : SinkInv pri fs (.node e a (.node c b₁ b₂))) (hc : ∀ y ∈ rootPtr a, pri c ≤ pri y) :
    SinkInv pri (.left c b₂ :: fs) (.node e a b₁) := by
  obtain ⟨hfs, ha, ⟨hb₁, hb₂⟩, hp⟩ := h
  refine ⟨⟨hb₂, fun g hg => (hp g hg).2.1, hfs⟩, ha, hb₁.heapOrdered, fun g hg => ⟨?_, ?_⟩⟩
  · cases hg
    cases a with
    | nil => trivial
    | node y a₁ a₂ => exact ⟨hc y rfl, ha⟩
  · cases hg
    exact hb₁

/-- Once the sinking focus is a leaf, the tree without it is heap ordered. -/
theorem SinkInv.heapOrdered {e : E} {fs : List (Frame E)}
    (h : SinkInv pri fs (.node e .nil .nil)) : HeapOrdered pri (plug fs .nil) :=
  heapOrdered_plug.mpr ⟨h.1, fun _ _ => trivial, trivial⟩

end Rotations

/-- A rotation keeps the order of the nodes. -/
theorem inorder_plug_rotate (f : Frame E) (fs : List (Frame E)) (e : E) (a b : BinaryTree E) :
    inorder (plug fs (.node e (f.rotate a b).1 (f.rotate a b).2)) =
      inorder (plug (f :: fs) (.node e a b)) := by
  cases f <;> simp [Frame.rotate, plug, inorder_plug]

/-! ### Search order -/

section Order

variable (before : E → E → Prop)

/-- `e` belongs in the hole: it comes after every node before the hole and before every node
after it. -/
def Fits (e : E) (fs : List (Frame E)) : Prop :=
  (∀ y ∈ ctxLeft fs, before y e) ∧ ∀ y ∈ ctxRight fs, before e y

variable {before}

theorem fits_nil (e : E) : Fits before e [] := ⟨by simp [ctxLeft], by simp [ctxRight]⟩

private theorem pairwise_mid {l₁ l₂ : List E} {a : E}
    (h : (l₁ ++ a :: l₂).Pairwise before) : (∀ b ∈ l₁, before b a) ∧ ∀ b ∈ l₂, before a b := by
  rw [List.pairwise_append, List.pairwise_cons] at h
  exact ⟨fun b hb => h.2.2 b hb a List.mem_cons_self, h.2.1.1⟩

private theorem inorder_plug_node (fs : List (Frame E)) (c : E) (l r : BinaryTree E) :
    inorder (plug fs (.node c l r)) = (ctxLeft fs ++ inorder l) ++ c :: (inorder r ++ ctxRight fs) := by
  simp [inorder_plug]

/-- Going down to the left child of `c`, for `e` before `c`. -/
theorem Fits.left [IsTrans E before] {e c : E} {l r : BinaryTree E} {fs : List (Frame E)}
    (hs : (inorder (plug fs (.node c l r))).Pairwise before) (h : Fits before e fs)
    (hec : before e c) : Fits before e (.left c r :: fs) := by
  rw [inorder_plug_node] at hs
  have hc := (pairwise_mid hs).2
  refine ⟨h.1, ?_⟩
  simp only [ctxRight, List.cons_append, List.mem_cons, List.mem_append]
  rintro y (rfl | hy | hy)
  · exact hec
  · exact trans_of before hec (hc y (List.mem_append_left _ hy))
  · exact h.2 y hy

/-- Going down to the right child of `c`, for `e` after `c`. -/
theorem Fits.right [IsTrans E before] {e c : E} {l r : BinaryTree E} {fs : List (Frame E)}
    (hs : (inorder (plug fs (.node c l r))).Pairwise before) (h : Fits before e fs)
    (hce : before c e) : Fits before e (.right l c :: fs) := by
  rw [inorder_plug_node] at hs
  have hc := (pairwise_mid hs).1
  refine ⟨?_, h.2⟩
  simp only [ctxLeft, List.mem_append, List.mem_singleton]
  rintro y ((hy | hy) | rfl)
  · exact h.1 y hy
  · exact trans_of before (hc y (List.mem_append_right _ hy)) hce
  · exact hce

/-- A node that fits the hole keeps the order when it fills it. -/
theorem Fits.pairwise_leaf {e : E} {fs : List (Frame E)}
    (hs : (inorder (plug fs .nil)).Pairwise before) (h : Fits before e fs) :
    (inorder (plug fs (.node e .nil .nil))).Pairwise before := by
  rw [inorder_plug] at hs
  rw [inorder_plug_node]
  simp only [inorder_nil, List.append_nil, List.nil_append] at hs ⊢
  obtain ⟨hl, hr, hlr⟩ := List.pairwise_append.mp hs
  refine List.pairwise_append.mpr ⟨hl, List.pairwise_cons.mpr ⟨h.2, hr⟩, ?_⟩
  intro y hy z hz
  rcases List.mem_cons.mp hz with rfl | hz
  · exact h.1 y hy
  · exact hlr y hy z hz

end Order

end LinkedTree
