import Mathlib.Data.List.Basic

/-! # Rose trees with keyed edges, and their occurrences

A syntax tree as most parsers hand it over: every node carries a label and an ordered list of
children, each under a key. Analyses of such a tree walk it top-down and look *up* from a node
(nearest enclosing node of some kind, the key a node hangs under), so the unit of reasoning is an
**occurrence**: a node together with the frames between it and the root.

* **`Occ.children` / `Occ.ancestors`**: one step down, every step up.
* **`walk t`**: the occurrences of `t` in breadth-first order, computed level by level;
  `mem_walk_iff` identifies it with the inductive `InTree`.
* **`preorder t`**: the same occurrences depth first, `mem_preorder_iff`. -/

namespace LocalSqlAgent

universe u v

/-- A finite tree: a label and an ordered list of keyed children. -/
inductive RoseTree (α : Type u) (κ : Type v) where
  | node (label : α) (children : List (κ × RoseTree α κ))

namespace RoseTree

variable {α : Type u} {κ : Type v}

/-- The label of the root. -/
def label : RoseTree α κ → α
  | .node a _ => a

/-- The keyed children of the root, in order. -/
def children : RoseTree α κ → List (κ × RoseTree α κ)
  | .node _ cs => cs

@[simp] theorem label_node (a : α) (cs : List (κ × RoseTree α κ)) :
    (RoseTree.node a cs).label = a := rfl

@[simp] theorem children_node (a : α) (cs : List (κ × RoseTree α κ)) :
    (RoseTree.node a cs).children = cs := rfl

/-- The children under one key, in order. -/
def slot [DecidableEq κ] (t : RoseTree α κ) (k : κ) : List (RoseTree α κ) :=
  (t.children.filter (·.1 = k)).map (·.2)

theorem mem_slot [DecidableEq κ] {t c : RoseTree α κ} {k : κ} :
    c ∈ t.slot k ↔ (k, c) ∈ t.children := by
  simp [slot]

mutual

/-- The number of levels of a tree. -/
def depth : RoseTree α κ → Nat
  | .node _ cs => depthList cs + 1

/-- The largest number of levels among a list of keyed trees. -/
def depthList : List (κ × RoseTree α κ) → Nat
  | [] => 0
  | (_, c) :: rest => max (depth c) (depthList rest)

end

theorem depth_eq (t : RoseTree α κ) : t.depth = depthList t.children + 1 := by
  cases t
  rfl

/-- A child is at most as deep as the list it stands in. -/
theorem depth_le_depthList {cs : List (κ × RoseTree α κ)} {k : κ} {c : RoseTree α κ}
    (h : (k, c) ∈ cs) : c.depth ≤ depthList cs := by
  induction cs with
  | nil => cases h
  | cons head rest ih =>
    obtain ⟨k', c'⟩ := head
    rw [depthList]
    rcases List.mem_cons.mp h with heq | hrest
    · cases heq
      exact Nat.le_max_left _ _
    · exact Nat.le_trans (ih hrest) (Nat.le_max_right _ _)

/-- A child has fewer levels than its parent. -/
theorem depth_lt_of_mem {t c : RoseTree α κ} {k : κ} (h : (k, c) ∈ t.children) :
    c.depth < t.depth := by
  rw [depth_eq t]
  exact Nat.lt_succ_of_le (depth_le_depthList h)

mutual

/-- The number of nodes with a property. -/
def countNodes (q : RoseTree α κ → Bool) : RoseTree α κ → Nat
  | .node a cs => (if q (.node a cs) then 1 else 0) + countNodesList q cs

/-- The number of nodes with a property among a list of keyed trees. -/
def countNodesList (q : RoseTree α κ → Bool) : List (κ × RoseTree α κ) → Nat
  | [] => 0
  | (_, c) :: rest => countNodes q c + countNodesList q rest

end

theorem countNodes_eq (q : RoseTree α κ → Bool) (t : RoseTree α κ) :
    t.countNodes q = (if q t then 1 else 0) + countNodesList q t.children := by
  cases t
  rfl

theorem countNodesList_append (q : RoseTree α κ → Bool) (cs ds : List (κ × RoseTree α κ)) :
    countNodesList q (cs ++ ds) = countNodesList q cs + countNodesList q ds := by
  induction cs with
  | nil => simp [countNodesList]
  | cons head rest ih =>
    obtain ⟨k, c⟩ := head
    rw [List.cons_append, countNodesList, countNodesList, ih, Nat.add_assoc]

theorem countNodesList_eq_zero_iff {q : RoseTree α κ → Bool} {cs : List (κ × RoseTree α κ)} :
    countNodesList q cs = 0 ↔ ∀ e ∈ cs, e.2.countNodes q = 0 := by
  induction cs with
  | nil => simp [countNodesList]
  | cons head rest ih =>
    obtain ⟨k, c⟩ := head
    rw [countNodesList, Nat.add_eq_zero_iff, ih, List.forall_mem_cons]

/-- Where a node with `p` has a node with `q` at or below it, no `q` means no `p`. -/
theorem countNodes_eq_zero_of {p q : RoseTree α κ → Bool}
    (hpq : ∀ t, p t = true → 0 < t.countNodes q) (t : RoseTree α κ) (h : t.countNodes q = 0) :
    t.countNodes p = 0 := by
  have hroot : p t = false := by
    by_contra hp
    have hpos := hpq t (by simpa using hp)
    omega
  have hbelow : ∀ e ∈ t.children, e.2.countNodes p = 0 := by
    rw [countNodes_eq, Nat.add_eq_zero_iff, countNodesList_eq_zero_iff] at h
    intro e he
    have hlt := depth_lt_of_mem (k := e.1) (c := e.2) he
    exact countNodes_eq_zero_of hpq e.2 (h.2 e he)
  rw [countNodes_eq, hroot, countNodesList_eq_zero_iff.mpr hbelow]
  rfl
termination_by t.depth

end RoseTree

/-! ## Occurrences -/

/-- One step of the path from a node up to the root: the parent, the key the node hangs under and
the children standing before it. -/
structure Frame (α : Type u) (κ : Type v) where
  /-- The parent node. -/
  parent : RoseTree α κ
  /-- The key under which the node hangs. -/
  key : κ
  /-- The parent's children before the node. -/
  before : List (κ × RoseTree α κ)

/-- **An occurrence**: a node and the frames from it up to the root, innermost first. -/
structure Occ (α : Type u) (κ : Type v) where
  /-- The subtree at this occurrence. -/
  node : RoseTree α κ
  /-- The frames above it. -/
  frames : List (Frame α κ)

namespace Occ

variable {α : Type u} {κ : Type v}

/-- The occurrence of a tree's own root. -/
def root (t : RoseTree α κ) : Occ α κ := ⟨t, []⟩

/-- The label at an occurrence. -/
def label (o : Occ α κ) : α := o.node.label

/-- The occurrences of a list of children of `o`, those in `before` already passed. -/
def childrenFrom (o : Occ α κ) (before : List (κ × RoseTree α κ)) :
    List (κ × RoseTree α κ) → List (Occ α κ)
  | [] => []
  | (k, c) :: rest => ⟨c, ⟨o.node, k, before⟩ :: o.frames⟩ ::
      childrenFrom o (before ++ [(k, c)]) rest

/-- The occurrences one level below `o`. -/
def children (o : Occ α κ) : List (Occ α κ) := o.childrenFrom [] o.node.children

theorem mem_childrenFrom {o c : Occ α κ} {before after : List (κ × RoseTree α κ)} :
    c ∈ o.childrenFrom before after ↔
      ∃ (k : κ) (n : RoseTree α κ) (pre post : List (κ × RoseTree α κ)),
        after = pre ++ (k, n) :: post ∧ c = ⟨n, ⟨o.node, k, before ++ pre⟩ :: o.frames⟩ := by
  induction after generalizing before with
  | nil => simp [childrenFrom]
  | cons head rest ih =>
    obtain ⟨k, n⟩ := head
    simp only [childrenFrom, List.mem_cons, ih]
    constructor
    · rintro (rfl | ⟨k', n', pre, post, rfl, rfl⟩)
      · exact ⟨k, n, [], rest, by simp, by simp⟩
      · exact ⟨k', n', (k, n) :: pre, post, by simp, by simp⟩
    · rintro ⟨k', n', pre, post, heq, rfl⟩
      cases pre with
      | nil =>
        simp only [List.nil_append, List.cons.injEq, Prod.mk.injEq] at heq
        obtain ⟨⟨rfl, rfl⟩, rfl⟩ := heq
        exact Or.inl (by simp)
      | cons p pre =>
        simp only [List.cons_append, List.cons.injEq] at heq
        obtain ⟨rfl, rfl⟩ := heq
        exact Or.inr ⟨k', n', pre, post, rfl, by simp⟩

/-- **One step down**: the children of an occurrence are its node's children, each with the frame
that leads back. -/
theorem mem_children {o c : Occ α κ} :
    c ∈ o.children ↔
      ∃ (k : κ) (n : RoseTree α κ) (pre post : List (κ × RoseTree α κ)),
        o.node.children = pre ++ (k, n) :: post ∧
          c = ⟨n, ⟨o.node, k, pre⟩ :: o.frames⟩ := by
  simp [children, mem_childrenFrom]

/-- The occurrences above a list of frames, innermost first. -/
def above : List (Frame α κ) → List (Occ α κ)
  | [] => []
  | f :: fs => ⟨f.parent, fs⟩ :: above fs

/-- **The strict ancestors** of an occurrence, innermost first. -/
def ancestors (o : Occ α κ) : List (Occ α κ) := above o.frames

/-- The parent of an occurrence; the root has none. -/
def parent? (o : Occ α κ) : Option (Occ α κ) :=
  match o.frames with
  | [] => none
  | f :: fs => some ⟨f.parent, fs⟩

/-- The key an occurrence hangs under; the root has none. -/
def key? (o : Occ α κ) : Option κ := o.frames.head?.map (·.key)

@[simp] theorem ancestors_root (t : RoseTree α κ) : (root t).ancestors = [] := rfl

theorem ancestors_cons (n : RoseTree α κ) (f : Frame α κ) (fs : List (Frame α κ)) :
    (Occ.mk n (f :: fs)).ancestors = ⟨f.parent, fs⟩ :: (Occ.mk f.parent fs).ancestors := rfl

end Occ

/-! ## The occurrences of a tree -/

variable {α : Type u} {κ : Type v}

/-- **The occurrences of `t`**: its root and every child of one of them. -/
inductive InTree (t : RoseTree α κ) : Occ α κ → Prop
  | root : InTree t (Occ.root t)
  | child {o c : Occ α κ} : InTree t o → c ∈ o.children → InTree t c

/-- Every ancestor of an occurrence of `t` is an occurrence of `t`. -/
theorem InTree.above {t n : RoseTree α κ} {f : Frame α κ} {fs : List (Frame α κ)}
    (h : InTree t ⟨n, f :: fs⟩) : InTree t ⟨f.parent, fs⟩ := by
  cases h with
  | child ho hc =>
    obtain ⟨k, n', pre, post, -, heq⟩ := Occ.mem_children.mp hc
    cases heq
    exact ho

theorem InTree.ancestor {t : RoseTree α κ} {o a : Occ α κ} (h : InTree t o)
    (ha : a ∈ o.ancestors) : InTree t a := by
  obtain ⟨n, fs⟩ := o
  induction fs generalizing n with
  | nil => cases ha
  | cons f fs ih =>
    rcases List.mem_cons.mp ha with rfl | ha
    · exact h.above
    · exact ih f.parent h.above ha

/-- The frame right above an occurrence of `t` is the parent's own child list, cut at the node. -/
theorem InTree.frame {t n : RoseTree α κ} {f : Frame α κ} {fs : List (Frame α κ)}
    (h : InTree t ⟨n, f :: fs⟩) :
    ∃ post, f.parent.children = f.before ++ (f.key, n) :: post := by
  cases h with
  | child ho hc =>
    obtain ⟨k, n', pre, post, hchildren, heq⟩ := Occ.mem_children.mp hc
    cases heq
    exact ⟨post, hchildren⟩

/-- A keyed child of an occurrence of `t` has an occurrence of its own, one frame deeper. -/
theorem InTree.exists_child {t c : RoseTree α κ} {o : Occ α κ} {k : κ} (h : InTree t o)
    (hc : (k, c) ∈ o.node.children) :
    ∃ pre, InTree t ⟨c, ⟨o.node, k, pre⟩ :: o.frames⟩ := by
  obtain ⟨pre, post, hsplit⟩ := List.append_of_mem hc
  exact ⟨pre, h.child (Occ.mem_children.mpr ⟨k, c, pre, post, hsplit, rfl⟩)⟩

/-! ## The breadth-first walk -/

/-- The occurrences exactly `n` levels below `o`, left to right. -/
def level : Nat → Occ α κ → List (Occ α κ)
  | 0, o => [o]
  | n + 1, o => o.children.flatMap (level n)

/-- **The breadth-first walk** of a tree: its levels, one after the other. -/
def walk (t : RoseTree α κ) : List (Occ α κ) :=
  (List.range t.depth).flatMap fun n => level n (Occ.root t)

/-- A level that is not empty lies within the depth of the tree. -/
theorem lt_depth_of_mem_level {n : Nat} {o c : Occ α κ} (h : c ∈ level n o) :
    n < o.node.depth := by
  induction n generalizing o with
  | zero =>
    rw [RoseTree.depth_eq]
    exact Nat.succ_pos _
  | succ n ih =>
    obtain ⟨d, hd, hc⟩ := List.mem_flatMap.mp h
    obtain ⟨k, m, pre, post, hchildren, rfl⟩ := Occ.mem_children.mp hd
    have hmem : (k, m) ∈ o.node.children := by simp [hchildren]
    have hlt := RoseTree.depth_lt_of_mem hmem
    have hn := ih hc
    simp only at hn
    omega

/-- A child of a level-`n` occurrence is on level `n + 1`. -/
theorem mem_level_succ {n : Nat} {o c d : Occ α κ} (hc : c ∈ level n o) (hd : d ∈ c.children) :
    d ∈ level (n + 1) o := by
  induction n generalizing o with
  | zero =>
    rw [level, List.mem_singleton] at hc
    subst hc
    simpa [level] using hd
  | succ n ih =>
    obtain ⟨e, he, hce⟩ := List.mem_flatMap.mp hc
    exact List.mem_flatMap.mpr ⟨e, he, ih hce⟩

/-- Every level of a tree consists of occurrences of it. -/
theorem InTree.of_mem_level {t : RoseTree α κ} {n : Nat} {o c : Occ α κ} (h : InTree t o)
    (hc : c ∈ level n o) : InTree t c := by
  induction n generalizing o with
  | zero =>
    rw [level, List.mem_singleton] at hc
    exact hc ▸ h
  | succ n ih =>
    obtain ⟨d, hd, hcd⟩ := List.mem_flatMap.mp hc
    exact ih (h.child hd) hcd

theorem mem_walk_of_mem_level {t : RoseTree α κ} {n : Nat} {o : Occ α κ}
    (h : o ∈ level n (Occ.root t)) : o ∈ walk t :=
  List.mem_flatMap.mpr ⟨n, List.mem_range.mpr (lt_depth_of_mem_level h), h⟩

/-- **The walk visits exactly the occurrences of the tree.** -/
theorem mem_walk_iff {t : RoseTree α κ} {o : Occ α κ} : o ∈ walk t ↔ InTree t o := by
  constructor
  · intro h
    obtain ⟨n, -, ho⟩ := List.mem_flatMap.mp h
    exact InTree.root.of_mem_level ho
  · intro h
    have hlevel : ∃ n, o ∈ level n (Occ.root t) := by
      induction h with
      | root => exact ⟨0, List.mem_singleton.mpr rfl⟩
      | child _ hc ih =>
        obtain ⟨n, hn⟩ := ih
        exact ⟨n + 1, mem_level_succ hn hc⟩
    obtain ⟨n, hn⟩ := hlevel
    exact mem_walk_of_mem_level hn

/-! ## The depth-first walk -/

mutual

/-- A node below some frames and everything below it, each node before its children. -/
def preorderBelow (fs : List (Frame α κ)) : RoseTree α κ → List (Occ α κ)
  | .node a cs => ⟨.node a cs, fs⟩ :: preorderChildren (.node a cs) fs [] cs

/-- The same for a list of children of `parent`, those in `before` already passed. -/
def preorderChildren (parent : RoseTree α κ) (fs : List (Frame α κ))
    (before : List (κ × RoseTree α κ)) : List (κ × RoseTree α κ) → List (Occ α κ)
  | [] => []
  | (k, c) :: rest => preorderBelow (⟨parent, k, before⟩ :: fs) c ++
      preorderChildren parent fs (before ++ [(k, c)]) rest

end

/-- **The depth-first walk** of a tree, parents first. -/
def preorder (t : RoseTree α κ) : List (Occ α κ) := preorderBelow [] t

theorem preorderChildren_eq (o : Occ α κ) (before cs : List (κ × RoseTree α κ)) :
    preorderChildren o.node o.frames before cs =
      (o.childrenFrom before cs).flatMap fun c => preorderBelow c.frames c.node := by
  induction cs generalizing before with
  | nil => rfl
  | cons head rest ih =>
    obtain ⟨k, c⟩ := head
    rw [preorderChildren, Occ.childrenFrom, List.flatMap_cons, ih]

/-- An occurrence comes before what is below its children. -/
theorem preorderBelow_eq (o : Occ α κ) :
    preorderBelow o.frames o.node =
      o :: o.children.flatMap fun c => preorderBelow c.frames c.node := by
  obtain ⟨⟨a, cs⟩, fs⟩ := o
  rw [preorderBelow]
  exact congrArg _ (preorderChildren_eq ⟨.node a cs, fs⟩ [] cs)

theorem self_mem_preorderBelow (o : Occ α κ) : o ∈ preorderBelow o.frames o.node := by
  rw [preorderBelow_eq]
  exact List.mem_cons_self

/-- The walk below an occurrence of a tree stays in the tree. -/
theorem InTree.of_mem_preorderBelow {t : RoseTree α κ} {o d : Occ α κ} (h : InTree t o)
    (hd : d ∈ preorderBelow o.frames o.node) : InTree t d := by
  rw [preorderBelow_eq, List.mem_cons, List.mem_flatMap] at hd
  rcases hd with rfl | ⟨c, hc, hd⟩
  · exact h
  · have hlt : c.node.depth < o.node.depth := by
      obtain ⟨k, n, pre, post, hchildren, rfl⟩ := Occ.mem_children.mp hc
      exact RoseTree.depth_lt_of_mem (k := k) (by simp [hchildren])
    exact (h.child hc).of_mem_preorderBelow hd
termination_by o.node.depth

/-- The walk below an occurrence goes on to the children of everything it visits. -/
theorem mem_preorderBelow_of_child {o d c : Occ α κ} (hd : d ∈ preorderBelow o.frames o.node)
    (hc : c ∈ d.children) : c ∈ preorderBelow o.frames o.node := by
  rw [preorderBelow_eq, List.mem_cons, List.mem_flatMap] at hd ⊢
  rcases hd with rfl | ⟨e, he, hd⟩
  · exact Or.inr ⟨c, hc, self_mem_preorderBelow c⟩
  · have hlt : e.node.depth < o.node.depth := by
      obtain ⟨k, n, pre, post, hchildren, rfl⟩ := Occ.mem_children.mp he
      exact RoseTree.depth_lt_of_mem (k := k) (by simp [hchildren])
    exact Or.inr ⟨e, he, mem_preorderBelow_of_child hd hc⟩
termination_by o.node.depth

/-- **The depth-first walk visits exactly the occurrences of the tree.** -/
theorem mem_preorder_iff {t : RoseTree α κ} {o : Occ α κ} : o ∈ preorder t ↔ InTree t o := by
  constructor
  · exact InTree.root.of_mem_preorderBelow
  · intro h
    induction h with
    | root => exact self_mem_preorderBelow (Occ.root t)
    | child _ hc ih => exact mem_preorderBelow_of_child (o := Occ.root t) ih hc

end LocalSqlAgent
