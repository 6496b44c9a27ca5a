import LocalSqlAgent.Lib.OrderedDict
import Mathlib.Algebra.Group.Action.Defs
import Mathlib.Algebra.GroupWithZero.Nat
import Mathlib.Algebra.Order.BigOperators.Group.List
import Mathlib.Algebra.Order.Group.Nat
import Mathlib.Data.List.Lex
import Mathlib.Data.List.Sort
import Mathlib.Data.Prod.Lex
import Mathlib.Logic.Relation

/-! # Best-first search for a path

Partial paths in a priority queue, ordered by the number of edges, then their penalties, then the names
on them. A node is left again only at the cost it was first left at, and the search ends when the queue
holds nothing as good as the best path found.

* **`PathRules`**: the graph, which nodes may be entered and left, and the longest path.
* **`Label`**: a partial path, with the order of the queue.
* **`Extends`**, **`Trail`**: one more edge, and the partial paths from the start.
* **`exchange`**: a cheaper way to a node leads to a cheaper way to wherever a dearer one leads.
* **`search`**: the loop; **`search_spec`**: it ends, and what it finds is the least trail to a goal. -/

namespace LocalSqlAgent

open Relation

universe u

variable {α : Type u}

/-- **What a path may do.** An edge has a penalty; a path does not go on from a goal. -/
structure PathRules (α : Type u) where
  edges : α → List (α × ℕ)
  mayLeave : α → Bool
  mayEnter : α → Bool
  goal : α → Bool
  bound : ℤ

/-- **A partial path**: the node it has come to, the nodes before, and what it cost. -/
structure Label (α : Type u) where
  steps : ℕ
  penalty : ℕ
  front : List α
  node : α
  deriving DecidableEq

namespace Label

/-- The nodes of the path. -/
def path (l : Label α) : List α := l.front ++ [l.node]

/-- The number of edges and the penalties. -/
def cost (l : Label α) : ℕ ×ₗ ℕ := toLex (l.steps, l.penalty)

/-- The path before its first edge. -/
def start (a : α) : Label α := ⟨0, 0, [], a⟩

/-- One more edge. -/
def extend (l : Label α) (edge : α × ℕ) : Label α :=
  ⟨l.steps + 1, l.penalty + edge.2, l.path, edge.1⟩

theorem cost_lt_extend (l : Label α) (edge : α × ℕ) : l.cost < (l.extend edge).cost :=
  Prod.Lex.toLex_lt_toLex.mpr (.inl (Nat.lt_succ_self _))

/-- The same edge keeps what is cheaper cheaper. -/
theorem extend_cost_lt {l l' : Label α} (h : l.cost < l'.cost) (edge : α × ℕ) :
    (l.extend edge).cost < (l'.extend edge).cost := by
  simp only [cost, Prod.Lex.toLex_lt_toLex, extend] at h ⊢
  omega

theorem steps_le_of_cost_lt {l l' : Label α} (h : l.cost < l'.cost) : l.steps ≤ l'.steps := by
  simp only [cost, Prod.Lex.toLex_lt_toLex] at h
  omega

/-- What the queue compares. -/
def key (l : Label α) : ℕ ×ₗ (ℕ ×ₗ List α) := toLex (l.steps, toLex (l.penalty, l.path))

theorem key_injective : Function.Injective (key (α := α)) := by
  intro l l' eq
  obtain ⟨steps, rest⟩ := Prod.mk.inj (toLex_inj.mp eq)
  obtain ⟨penalty, path⟩ := Prod.mk.inj (toLex_inj.mp rest)
  obtain ⟨front, node⟩ := List.append_inj' path rfl
  cases l
  cases l'
  simp_all

variable [LinearOrder α]

/-- The order of the queue. -/
instance : LinearOrder (Label α) := LinearOrder.lift' key key_injective

theorem lt_of_cost_lt {l l' : Label α} (h : l.cost < l'.cost) : l < l' := by
  show l.key < l'.key
  simp only [cost, Prod.Lex.toLex_lt_toLex] at h
  rw [key, key, Prod.Lex.toLex_lt_toLex]
  obtain h | ⟨eq, h⟩ := h
  · exact .inl h
  · exact .inr ⟨eq, Prod.Lex.toLex_lt_toLex.mpr (.inl h)⟩

theorem cost_le_of_le {l l' : Label α} (h : l ≤ l') : l.cost ≤ l'.cost :=
  not_lt.mp fun lt => absurd h (not_le.mpr (lt_of_cost_lt lt))

end Label

/-! ## Trails -/

/-- **One more edge**, along the rules, to a node that is not on the path yet. -/
structure Extends (R : PathRules α) (l l' : Label α) : Prop where
  short : (l.steps : ℤ) < R.bound
  leave : R.mayLeave l.node = true
  passing : R.goal l.node = false
  edge : ∃ e ∈ R.edges l.node, e.1 ∉ l.path ∧ R.mayEnter e.1 = true ∧ l' = l.extend e

/-- A partial path from the start. -/
def Trail (R : PathRules α) (a : α) : Label α → Prop := ReflTransGen (Extends R) (Label.start a)

/-- A path to a goal. -/
structure Arrives (R : PathRules α) (a : α) (l : Label α) : Prop where
  trail : Trail R a l
  goal : R.goal l.node = true

section
variable {R : PathRules α} {a : α} {l l' p q t : Label α}

theorem Extends.cost_lt (h : Extends R l l') : l.cost < l'.cost := by
  obtain ⟨e, -, -, -, rfl⟩ := h.edge
  exact l.cost_lt_extend e

/-- A path costs at least what a part of it does. -/
theorem cost_le_of_extends (h : ReflTransGen (Extends R) l l') : l.cost ≤ l'.cost := by
  induction h with
  | refl => exact le_rfl
  | tail _ last ih => exact ih.trans last.cost_lt.le

/-- A goal is not passed. -/
theorem eq_of_extends_of_goal (h : ReflTransGen (Extends R) l l') (goal : R.goal l.node = true) :
    l = l' := by
  cases h using ReflTransGen.head_induction_on with
  | refl => rfl
  | head first _ => exact absurd first.passing (by simp [goal])

/-- **Every node of a trail ends a trail that costs no more.** -/
theorem Trail.exists_of_mem (trail : Trail R a q) {b : α} (mem : b ∈ q.path) :
    ∃ q', Trail R a q' ∧ q'.node = b ∧ q'.cost ≤ q.cost := by
  induction trail with
  | refl => exact ⟨_, .refl, by simpa [Label.path, Label.start, eq_comm] using mem, le_rfl⟩
  | @tail m q trail last ih =>
    obtain ⟨e, edge, off, enter, rfl⟩ := last.edge
    obtain on | here := List.mem_append.mp mem
    · obtain ⟨q', trail', node, le⟩ := ih on
      exact ⟨q', trail', node, le.trans last.cost_lt.le⟩
    · exact ⟨_, trail.tail last, (List.mem_singleton.mp here).symm, le_rfl⟩

/-- **Exchange.** If a cheaper trail comes to the node of `p`, then wherever `p` goes on to there is a
trail cheaper than that way. Where the way of `p` meets the cheaper trail, the trail is cut short. -/
theorem exchange (onward : ReflTransGen (Extends R) p t) (trail : Trail R a q) (node : q.node = p.node)
    (cheaper : q.cost < p.cost) : ∃ t', Trail R a t' ∧ t'.node = t.node ∧ t'.cost < t.cost := by
  induction onward using ReflTransGen.head_induction_on generalizing q with
  | refl => exact ⟨q, trail, node, cheaper⟩
  | @head p p' first _ ih =>
    obtain ⟨e, edge, off, enter, rfl⟩ := first.edge
    by_cases on : e.1 ∈ q.path
    · obtain ⟨q', trail', node', le⟩ := trail.exists_of_mem on
      exact ih trail' node' (le.trans_lt (cheaper.trans first.cost_lt))
    · have steps := Label.steps_le_of_cost_lt cheaper
      have next : Extends R q (q.extend e) := {
        short := lt_of_le_of_lt (by exact_mod_cast steps) first.short
        leave := node ▸ first.leave
        passing := node ▸ first.passing
        edge := ⟨e, node ▸ edge, on, enter, rfl⟩ }
      exact ih (trail.tail next) rfl (Label.extend_cost_lt cheaper e)

end

/-! ## The search -/

/-- **The state of the loop.** -/
structure SearchState (α : Type u) where
  /-- The queue, least label first. -/
  heap : List (Label α)
  /-- What each node was left at. -/
  settled : OrderedDict α (ℕ ×ₗ ℕ)
  /-- The best path found. -/
  best : Option (Label α)

section
variable [LinearOrder α] (R : PathRules α)

/-- `heappush`. -/
def push (heap : List (Label α)) (l : Label α) : List (Label α) := heap.orderedInsert (· ≤ ·) l

/-- The labels that the edges of a node lead to. -/
def onward (l : Label α) : List (Label α) :=
  ((R.edges l.node).filter fun e => decide (e.1 ∉ l.path) && R.mayEnter e.1).map l.extend

/-- The better of the best path so far and another. -/
def better (best : Option (Label α)) (l : Label α) : Option (Label α) :=
  match best with
  | none => some l
  | some b => if l < b then some l else some b

/-- Whether a node was left at a lower cost. -/
def settledBelow (settled : OrderedDict α (ℕ ×ₗ ℕ)) (l : Label α) : Bool :=
  (settled.lookup l.node).any fun c => decide (c < l.cost)

/-- **One round of the loop**, on the label taken from the queue. -/
def visit (s : SearchState α) (l : Label α) (rest : List (Label α)) : SearchState α :=
  if R.goal l.node then { s with heap := rest, best := better s.best l }
  else if settledBelow s.settled l then { s with heap := rest }
  else if R.bound ≤ l.steps then { s with heap := rest, settled := s.settled.assign l.node l.cost }
  else if R.mayLeave l.node = false then
    { s with heap := rest, settled := s.settled.assign l.node l.cost }
  else { s with heap := (onward R l).foldl push rest, settled := s.settled.assign l.node l.cost }

/-- Whether the best path costs less than a label, so that nothing better is left in the queue. -/
def beaten (best : Option (Label α)) (l : Label α) : Bool := best.any fun b => decide (b.cost < l.cost)

/-- **The loop**, `none` when the rounds do not suffice. -/
def search : ℕ → SearchState α → Option (SearchState α)
  | 0, s => if s.heap = [] then some s else none
  | rounds + 1, s =>
    match s.heap with
    | [] => some s
    | l :: rest => if beaten s.best l then some s else search rounds (visit R s l rest)

variable {R} {a : α} {s : SearchState α} {l t : Label α} {rest : List (Label α)}

theorem search_nil {rounds : ℕ} (empty : s.heap = []) : search R rounds s = some s := by
  cases rounds with
  | zero => exact if_pos empty
  | succ rounds => rw [search, empty]

theorem search_cons {rounds : ℕ} (heap : s.heap = l :: rest) :
    search R (rounds + 1) s = if beaten s.best l then some s else search R rounds (visit R s l rest) := by
  rw [search, heap]

theorem mem_foldl_push {new heap : List (Label α)} :
    l ∈ new.foldl push heap ↔ l ∈ heap ∨ l ∈ new := by
  induction new generalizing heap with
  | nil => simp
  | cons m new ih =>
    rw [List.foldl_cons, ih, push, List.mem_orderedInsert, List.mem_cons]
    tauto

theorem sorted_foldl_push {new heap : List (Label α)} (sorted : heap.Pairwise (· ≤ ·)) :
    (new.foldl push heap).Pairwise (· ≤ ·) := by
  induction new generalizing heap with
  | nil => exact sorted
  | cons m new ih => exact ih (List.Pairwise.orderedInsert m heap sorted)

/-- The labels that are pushed are one edge further. -/
theorem extends_iff_mem_onward (short : (l.steps : ℤ) < R.bound) (leave : R.mayLeave l.node = true)
    (passing : R.goal l.node = false) {l' : Label α} : Extends R l l' ↔ l' ∈ onward R l := by
  rw [onward, List.mem_map]
  constructor
  · intro h
    obtain ⟨e, edge, off, enter, rfl⟩ := h.edge
    exact ⟨e, List.mem_filter.mpr ⟨edge, by simp [off, enter]⟩, rfl⟩
  · rintro ⟨e, mem, rfl⟩
    obtain ⟨edge, ok⟩ := List.mem_filter.mp mem
    rw [Bool.and_eq_true, decide_eq_true_eq] at ok
    exact ⟨short, leave, passing, e, edge, ok.1, ok.2, rfl⟩

/-- **What one round can do.** -/
theorem visit_cases (R : PathRules α) (s : SearchState α) (l : Label α) (rest : List (Label α)) :
    (R.goal l.node = true ∧ visit R s l rest = { s with heap := rest, best := better s.best l }) ∨
    (R.goal l.node = false ∧ settledBelow s.settled l = true ∧
      visit R s l rest = { s with heap := rest }) ∨
    (R.goal l.node = false ∧ (∀ l', ¬ Extends R l l') ∧
      visit R s l rest = { s with heap := rest, settled := s.settled.assign l.node l.cost }) ∨
    (R.goal l.node = false ∧ (∀ l', Extends R l l' ↔ l' ∈ onward R l) ∧
      visit R s l rest =
        { s with heap := (onward R l).foldl push rest, settled := s.settled.assign l.node l.cost }) := by
  unfold visit
  split_ifs with goal below far stay
  · exact .inl ⟨goal, rfl⟩
  · exact .inr (.inl ⟨Bool.eq_false_iff.mpr goal, below, rfl⟩)
  · exact .inr (.inr (.inl ⟨Bool.eq_false_iff.mpr goal, fun l' h => absurd h.short (not_lt.mpr far), rfl⟩))
  · exact .inr (.inr (.inl ⟨Bool.eq_false_iff.mpr goal, fun l' h => by simp [h.leave] at stay, rfl⟩))
  · exact .inr (.inr (.inr ⟨Bool.eq_false_iff.mpr goal, fun l' =>
      extends_iff_mem_onward (not_le.mp far) (Bool.of_not_eq_false stay) (Bool.eq_false_iff.mpr goal), rfl⟩))

/-! ### What the rounds keep -/

/-- The best path found is as good as a label. -/
def BestLe (best : Option (Label α)) (t : Label α) : Prop := ∃ b, best = some b ∧ b ≤ t

/-- **Nothing is lost**: the best path is as good, or the queue still leads to one as good. -/
def PathCovered (R : PathRules α) (s : SearchState α) (t : Label α) : Prop :=
  BestLe s.best t ∨ ∃ l ∈ s.heap, ∃ t', ReflTransGen (Extends R) l t' ∧ R.goal t'.node = true ∧ t' ≤ t

/-- **The invariant of the loop.** -/
structure SearchInvariant (R : PathRules α) (a : α) (s : SearchState α) : Prop where
  sorted : s.heap.Pairwise (· ≤ ·)
  trails : ∀ l ∈ s.heap, Trail R a l
  settled : ∀ v c, s.settled.lookup v = some c → ∃ q, Trail R a q ∧ q.node = v ∧ q.cost = c
  covered : ∀ t, Arrives R a t → PathCovered R s t

/-- Before the first round. -/
theorem searchInvariant_start (best : Option (Label α)) :
    SearchInvariant R a ⟨[Label.start a], ∅, best⟩ where
  sorted := List.pairwise_singleton _ _
  trails l mem := by
    obtain rfl := List.mem_singleton.mp mem
    exact .refl
  settled v c found := by simp at found
  covered t h := .inr ⟨_, List.mem_singleton_self _, t, h.trail, h.goal, le_rfl⟩

theorem bestLe_better (best : Option (Label α)) (l : Label α) : BestLe (better best l) l := by
  cases best with
  | none => exact ⟨l, rfl, le_rfl⟩
  | some b =>
    by_cases lt : l < b
    · exact ⟨l, if_pos lt, le_rfl⟩
    · exact ⟨b, if_neg lt, not_lt.mp lt⟩

theorem BestLe.better {best : Option (Label α)} (h : BestLe best t) (l : Label α) :
    BestLe (better best l) t := by
  obtain ⟨b, rfl, le⟩ := h
  by_cases lt : l < b
  · exact ⟨l, if_pos lt, lt.le.trans le⟩
  · exact ⟨b, if_neg lt, le⟩

theorem BestLe.trans {best : Option (Label α)} (h : BestLe best l) (le : l ≤ t) : BestLe best t := by
  obtain ⟨b, eq, le'⟩ := h
  exact ⟨b, eq, le'.trans le⟩

/-- What a node was left at stays the cost of a trail when another is recorded. -/
theorem settled_assign {settled : OrderedDict α (ℕ ×ₗ ℕ)}
    (h : ∀ v c, settled.lookup v = some c → ∃ q, Trail R a q ∧ q.node = v ∧ q.cost = c)
    (trail : Trail R a l) :
    ∀ v c, (settled.assign l.node l.cost).lookup v = some c →
      ∃ q, Trail R a q ∧ q.node = v ∧ q.cost = c := by
  intro v c found
  by_cases same : v = l.node
  · subst same
    rw [OrderedDict.lookup_assign_self] at found
    obtain rfl := Option.some.inj found
    exact ⟨l, trail, rfl, rfl⟩
  · rw [OrderedDict.lookup_assign_of_ne _ _ same] at found
    exact h v c found

theorem PathCovered.mono {t' : Label α} (h : PathCovered R s t) (le : t ≤ t') : PathCovered R s t' := by
  obtain best | ⟨l, mem, m, onward, goal, le'⟩ := h
  · exact .inl (best.trans le)
  · exact .inr ⟨l, mem, m, onward, goal, le'.trans le⟩

/-- What a round does to what is covered, when it keeps the rest of the queue: only the label that was
taken needs a look. -/
theorem PathCovered.of_head {s' : SearchState α} (h : PathCovered R s t) (heap : s.heap = l :: rest)
    (keeps : ∀ m ∈ rest, m ∈ s'.heap) (best : BestLe s.best t → BestLe s'.best t)
    (head : ∀ t', ReflTransGen (Extends R) l t' → R.goal t'.node = true → t' ≤ t → PathCovered R s' t) :
    PathCovered R s' t := by
  obtain found | ⟨m, mem, t', onward, goal, le⟩ := h
  · exact .inl (best found)
  · rw [heap] at mem
    obtain rfl | mem := List.mem_cons.mp mem
    · exact head t' onward goal le
    · exact .inr ⟨m, keeps m mem, t', onward, goal, le⟩

/-- **A round loses nothing.** A label that is dropped because its node was left at a lower cost is
replaced by the exchange; the induction is on the cost, since the cheaper path may need the same again. -/
theorem SearchInvariant.covered_visit (inv : SearchInvariant R a s) (heap : s.heap = l :: rest) :
    ∀ t, Arrives R a t → PathCovered R (visit R s l rest) t := by
  obtain ⟨goal, eq⟩ | ⟨passing, below, eq⟩ | ⟨passing, stuck, eq⟩ | ⟨passing, pushed, eq⟩ :=
    visit_cases R s l rest <;> rw [eq]
  · intro t arrives
    refine (inv.covered t arrives).of_head heap (fun m mem => mem) (fun h => h.better l) ?_
    intro t' onward _ le
    obtain rfl := eq_of_extends_of_goal onward goal
    exact .inl ((bestLe_better s.best l).trans le)
  · obtain ⟨c, found, lt⟩ := (Option.any_eq_true _ _).mp below
    obtain ⟨q, trail, node, rfl⟩ := inv.settled l.node c found
    have cheaper : q.cost < l.cost := of_decide_eq_true lt
    intro t
    induction cost : t.cost using WellFoundedLT.induction generalizing t with
    | _ _ ih =>
      intro arrives
      refine (inv.covered t arrives).of_head heap (fun m mem => mem) id ?_
      intro t' onward goal le
      obtain ⟨other, other_trail, same, less⟩ := exchange onward trail node cheaper
      have covered := ih other.cost (cost ▸ less.trans_le (Label.cost_le_of_le le)) other rfl
        ⟨other_trail, same ▸ goal⟩
      exact covered.mono ((Label.lt_of_cost_lt less).le.trans le)
  · intro t arrives
    refine (inv.covered t arrives).of_head heap (fun m mem => mem) id ?_
    intro t' onward goal _
    cases onward using ReflTransGen.head_induction_on with
    | refl => simp [passing] at goal
    | head first _ => exact absurd first (stuck _)
  · intro t arrives
    refine (inv.covered t arrives).of_head heap (fun m mem => mem_foldl_push.mpr (.inl mem)) id ?_
    intro t' onward goal le
    cases onward using ReflTransGen.head_induction_on with
    | refl => simp [passing] at goal
    | head first others =>
      exact .inr ⟨_, mem_foldl_push.mpr (.inr ((pushed _).mp first)), t', others, goal, le⟩

/-- **One round keeps the invariant.** -/
theorem SearchInvariant.visit (inv : SearchInvariant R a s) (heap : s.heap = l :: rest) :
    SearchInvariant R a (visit R s l rest) := by
  have covered := inv.covered_visit heap
  have sorted : rest.Pairwise (· ≤ ·) := (List.pairwise_cons.mp (heap ▸ inv.sorted)).2
  have trail : Trail R a l := inv.trails l (heap ▸ List.mem_cons_self)
  have trails : ∀ m ∈ rest, Trail R a m := fun m mem => inv.trails m (heap ▸ List.mem_cons_of_mem _ mem)
  have settled := settled_assign inv.settled trail
  obtain ⟨-, eq⟩ | ⟨-, -, eq⟩ | ⟨-, -, eq⟩ | ⟨-, pushed, eq⟩ := visit_cases R s l rest <;>
    rw [eq] at covered ⊢
  · exact ⟨sorted, trails, inv.settled, covered⟩
  · exact ⟨sorted, trails, inv.settled, covered⟩
  · exact ⟨sorted, trails, settled, covered⟩
  · refine ⟨sorted_foldl_push sorted, fun m mem => ?_, settled, covered⟩
    obtain mem | mem := mem_foldl_push.mp mem
    · exact trails m mem
    · exact trail.tail ((pushed m).mpr mem)

/-! ### The end of the loop -/

/-- Where the best path of a state comes from: it was there before, or it arrives at a goal. -/
def BestFrom (R : PathRules α) (a : α) (before after : Option (Label α)) : Prop :=
  ∀ b, after = some b → before = some b ∨ Arrives R a b

theorem better_eq_some {best : Option (Label α)} {b : Label α} (h : better best l = some b) :
    best = some b ∨ b = l := by
  cases best with
  | none => exact .inr (Option.some.inj h).symm
  | some c =>
    rw [better] at h
    split_ifs at h with lt
    · exact .inr (Option.some.inj h).symm
    · exact .inl h

/-- An empty queue leads nowhere. -/
theorem SearchInvariant.bestLe_of_empty (inv : SearchInvariant R a s) (empty : s.heap = []) (t : Label α)
    (arrives : Arrives R a t) : BestLe s.best t := by
  obtain best | ⟨l, mem, -⟩ := inv.covered t arrives
  · exact best
  · simp [empty] at mem

/-- **The early end**: the queue is sorted, so whatever it leads to costs more than the best path. -/
theorem SearchInvariant.bestLe_of_beaten (inv : SearchInvariant R a s) (heap : s.heap = l :: rest)
    (done : beaten s.best l = true) (t : Label α) (arrives : Arrives R a t) : BestLe s.best t := by
  obtain ⟨b, best, less⟩ := (Option.any_eq_true _ _).mp done
  have less : b.cost < l.cost := of_decide_eq_true less
  obtain found | ⟨m, mem, t', onward, -, le⟩ := inv.covered t arrives
  · exact found
  · have first : l ≤ m := by
      obtain rfl | mem := List.mem_cons.mp (heap ▸ mem)
      · exact le_rfl
      · exact (List.pairwise_cons.mp (heap ▸ inv.sorted)).1 m mem
    have cost : b.cost < t'.cost := calc
      b.cost < l.cost := less
      _ ≤ m.cost := Label.cost_le_of_le first
      _ ≤ t'.cost := cost_le_of_extends onward
    exact ⟨b, best, (Label.lt_of_cost_lt cost).le.trans le⟩

/-- What a round does to the best path. -/
theorem best_visit (trail : Trail R a l) (s : SearchState α) (rest : List (Label α)) :
    (∀ t, BestLe s.best t → BestLe (visit R s l rest).best t) ∧
      BestFrom R a s.best (visit R s l rest).best := by
  obtain ⟨goal, eq⟩ | ⟨-, -, eq⟩ | ⟨-, -, eq⟩ | ⟨-, -, eq⟩ := visit_cases R s l rest <;> rw [eq]
  · refine ⟨fun t h => h.better l, fun b h => ?_⟩
    obtain h | rfl := better_eq_some h
    · exact .inl h
    · exact .inr ⟨trail, goal⟩
  · exact ⟨fun t h => h, fun b h => .inl h⟩
  · exact ⟨fun t h => h, fun b h => .inl h⟩
  · exact ⟨fun t h => h, fun b h => .inl h⟩

/-- **The whole loop**: what it ends with is as good as every path to a goal and as what was there, and
is one of them. -/
theorem search_some {rounds : ℕ} {s' : SearchState α} (inv : SearchInvariant R a s)
    (run : search R rounds s = some s') :
    (∀ t, Arrives R a t ∨ BestLe s.best t → BestLe s'.best t) ∧ BestFrom R a s.best s'.best := by
  induction rounds generalizing s with
  | zero =>
    have empty : s.heap = [] := by
      by_contra some
      exact absurd run (by rw [show search R 0 s = none from if_neg some]; simp)
    rw [search_nil empty] at run
    obtain rfl := Option.some.inj run
    exact ⟨fun t h => h.elim (inv.bestLe_of_empty empty t) id, fun b h => .inl h⟩
  | succ rounds ih =>
    cases heap : s.heap with
    | nil =>
      rw [search_nil heap] at run
      obtain rfl := Option.some.inj run
      exact ⟨fun t h => h.elim (inv.bestLe_of_empty heap t) id, fun b h => .inl h⟩
    | cons l rest =>
      rw [search_cons heap] at run
      split_ifs at run with done
      · obtain rfl := Option.some.inj run
        exact ⟨fun t h => h.elim (inv.bestLe_of_beaten heap done t) id, fun b h => .inl h⟩
      · obtain ⟨least, found⟩ := ih (inv.visit heap) run
        have kept := best_visit (inv.trails l (heap ▸ List.mem_cons_self)) s rest
        refine ⟨fun t h => least t (h.imp_right (kept.1 t)), fun b h => ?_⟩
        exact (found b h).elim (kept.2 b) .inr

/-! ### How many rounds -/

/-- The rounds that a label can cost: the labels that can come of it. -/
def weight (R : PathRules α) (width : ℕ) (l : Label α) : ℕ := (width + 2) ^ (R.bound - l.steps).toNat

/-- The rounds that a queue can cost. -/
def potential (R : PathRules α) (width : ℕ) (heap : List (Label α)) : ℕ := (heap.map (weight R width)).sum

omit [LinearOrder α] in
theorem weight_pos (width : ℕ) (l : Label α) : 0 < weight R width l := Nat.pow_pos (Nat.succ_pos _)

omit [LinearOrder α] in
theorem potential_cons (width : ℕ) (l : Label α) (heap : List (Label α)) :
    potential R width (l :: heap) = weight R width l + potential R width heap := List.sum_cons

theorem potential_foldl_push (width : ℕ) (new heap : List (Label α)) :
    potential R width (new.foldl push heap) = potential R width new + potential R width heap := by
  induction new generalizing heap with
  | nil => exact (Nat.zero_add _).symm
  | cons l new ih =>
    have insert := ((List.perm_orderedInsert (· ≤ ·) l heap).map (weight R width)).sum_eq
    rw [List.foldl_cons, ih, potential_cons]
    have step : potential R width (push heap l) = weight R width l + potential R width heap := insert
    omega

/-- The labels one edge further cost less together than the one they come from. -/
theorem potential_onward_lt {width : ℕ} (narrow : ∀ v, (R.edges v).length ≤ width)
    (pushed : ∀ l', Extends R l l' ↔ l' ∈ onward R l) :
    potential R width (onward R l) < weight R width l := by
  by_cases short : (l.steps : ℤ) < R.bound
  · have each : ∀ w ∈ (onward R l).map (weight R width), w ≤ (width + 2) ^ (R.bound - (l.steps + 1)).toNat := by
      intro w mem
      obtain ⟨l', new, rfl⟩ := List.mem_map.mp mem
      obtain ⟨e, -, -, -, rfl⟩ := ((pushed l').mpr new).edge
      exact le_of_eq (by simp [weight, Label.extend])
    have total := List.sum_le_card_nsmul _ _ each
    have count : (onward R l).length ≤ width := by
      rw [onward, List.length_map]
      exact (List.length_filter_le _ _).trans (narrow l.node)
    have exponent : (R.bound - l.steps).toNat = (R.bound - (l.steps + 1)).toNat + 1 := by omega
    have positive : 0 < (width + 2) ^ (R.bound - (l.steps + 1)).toNat := Nat.pow_pos (Nat.succ_pos _)
    rw [List.length_map, smul_eq_mul] at total
    calc potential R width (onward R l)
        ≤ (onward R l).length * (width + 2) ^ (R.bound - (l.steps + 1)).toNat := total
      _ ≤ width * (width + 2) ^ (R.bound - (l.steps + 1)).toNat := Nat.mul_le_mul_right _ count
      _ < (width + 2) * (width + 2) ^ (R.bound - (l.steps + 1)).toNat :=
          Nat.mul_lt_mul_of_pos_right (by omega) positive
      _ = weight R width l := by rw [weight, exponent, pow_succ, mul_comm]
  · have none : onward R l = [] :=
      List.eq_nil_iff_forall_not_mem.mpr fun l' mem => short ((pushed l').mpr mem).short
    rw [none]
    exact weight_pos width l

/-- **Every round uses up a part of the queue.** -/
theorem potential_visit_lt {width : ℕ} (narrow : ∀ v, (R.edges v).length ≤ width)
    (heap : s.heap = l :: rest) :
    potential R width (visit R s l rest).heap < potential R width s.heap := by
  have positive := weight_pos (R := R) width l
  rw [heap, potential_cons]
  obtain ⟨-, eq⟩ | ⟨-, -, eq⟩ | ⟨-, -, eq⟩ | ⟨-, pushed, eq⟩ := visit_cases R s l rest <;> rw [eq]
  · exact Nat.lt_add_of_pos_left positive
  · exact Nat.lt_add_of_pos_left positive
  · exact Nat.lt_add_of_pos_left positive
  · rw [potential_foldl_push]
    exact Nat.add_lt_add_right (potential_onward_lt narrow pushed) _

/-- **The loop ends.** -/
theorem exists_search {width rounds : ℕ} (narrow : ∀ v, (R.edges v).length ≤ width)
    (enough : potential R width s.heap ≤ rounds) : ∃ s', search R rounds s = some s' := by
  induction rounds generalizing s with
  | zero =>
    cases heap : s.heap with
    | nil => exact ⟨s, search_nil heap⟩
    | cons l rest =>
      rw [heap, potential_cons] at enough
      have := weight_pos (R := R) width l
      omega
  | succ rounds ih =>
    cases heap : s.heap with
    | nil => exact ⟨s, search_nil heap⟩
    | cons l rest =>
      rw [search_cons heap]
      split_ifs
      · exact ⟨s, rfl⟩
      · have less := potential_visit_lt narrow heap
        exact ih (by omega)

/-- The rounds that a search from one node can take. -/
def roundsFor (R : PathRules α) (width : ℕ) : ℕ := (width + 2) ^ R.bound.toNat

/-- **A search from one node** ends with the best of what was there and of the paths to a goal. -/
theorem search_spec {width : ℕ} (narrow : ∀ v, (R.edges v).length ≤ width) (a : α)
    (before : Option (Label α)) :
    ∃ s', search R (roundsFor R width) ⟨[Label.start a], ∅, before⟩ = some s' ∧
      (∀ t, Arrives R a t ∨ BestLe before t → BestLe s'.best t) ∧ BestFrom R a before s'.best := by
  have enough : potential R width [Label.start a] ≤ roundsFor R width := by
    simp [potential, weight, roundsFor, Label.start]
  obtain ⟨s', run⟩ := exists_search (s := ⟨[Label.start a], ∅, before⟩) narrow enough
  obtain ⟨least, found⟩ := search_some (searchInvariant_start before) run
  exact ⟨s', run, least, found⟩

end

end LocalSqlAgent
