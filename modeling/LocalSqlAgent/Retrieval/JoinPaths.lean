import LocalSqlAgent.Database.Routing
import LocalSqlAgent.Lib.BestFirst
import Mathlib.Data.String.Basic

/-! # Paths on the foreign-key graph

`retrieval.join_paths`: the graph of the tables that can be joined, and the best path from one table to
any of others.

* **`JoinGraph`**: who is joined to whom, which joins were inferred, and where each table lives.
* **`bestPath`**: `_best_path`, one best-first search for each data source of the start.
* **`IsJoinPath`**: the paths the search is after, in the graph's own terms.
* **`bestPath_spec`**: the search finds a path when there is one, and the least of them. -/

namespace LocalSqlAgent

open Relation

/-- **`JoinGraph`.** A set of data sources is a list; a table with no foreign key has no entry. -/
structure JoinGraph where
  /-- Each table's neighbours, and whether the join to them is inferred. -/
  adjacency : OrderedDict String (List (String × Bool))
  /-- The data sources a table lives in; empty when only one source is configured. -/
  sources : OrderedDict String (List String)

namespace JoinGraph

/-- `graph.adjacency.get(table, ())`. -/
def neighbours (graph : JoinGraph) (table : String) : List (String × Bool) :=
  (graph.adjacency.lookup table).getD []

/-- `JoinGraph.degree`. -/
def degree (graph : JoinGraph) (table : String) : ℕ := (graph.neighbours table).length

/-- `graph.sources.get(table, frozenset())`. -/
def sourcesOf (graph : JoinGraph) (table : String) : List String := (graph.sources.lookup table).getD []

/-- The most neighbours that a table has. -/
def width (graph : JoinGraph) : ℕ := (graph.adjacency.entries.map fun e => e.2.length).foldr max 0

/-- **The rules of one search**: a hub is not passed, and with a data source every further table lives in
it. -/
def rules (graph : JoinGraph) (start : String) (targets : List String) (maxHops maxHubDegree : ℤ)
    (source : Option String) : PathRules String where
  edges node := (graph.neighbours node).map fun e => (e.1, e.2.toNat)
  mayLeave node := decide (node = start) || decide ((graph.degree node : ℤ) ≤ maxHubDegree)
  mayEnter node := source.all fun source => decide (source ∈ graph.sourcesOf node)
  goal node := decide (node ∈ targets) && decide (node ≠ start)
  bound := maxHops

/-- The data sources to search in: those of the start, or one search without any when the graph has none
for it. -/
def candidates (graph : JoinGraph) (start : String) : List (Option String) :=
  match graph.sources.lookup start with
  | none => [none]
  | some own => (sortedStrings own).map some

/-- The search in one data source, with the best path of those before. -/
def searchIn (graph : JoinGraph) (start : String) (targets : List String) (maxHops maxHubDegree : ℤ)
    (best : Option (Label String)) (source : Option String) : Option (Option (Label String)) :=
  let R := graph.rules start targets maxHops maxHubDegree source
  (search R (roundsFor R graph.width) ⟨[Label.start start], ∅, best⟩).map (·.best)

/-- The loop over the candidates. -/
def bestLabel (graph : JoinGraph) (start : String) (targets : List String) (maxHops maxHubDegree : ℤ)
    (best : Option (Label String)) (candidates : List (Option String)) : Option (Option (Label String)) :=
  candidates.foldlM (graph.searchIn start targets maxHops maxHubDegree) best

/-- **`_best_path`**; the outer option is `none` when a loop does not end in its rounds. -/
def bestPath (graph : JoinGraph) (start : String) (targets : List String) (maxHops maxHubDegree : ℤ) :
    Option (Option (List String)) :=
  (graph.bestLabel start targets maxHops maxHubDegree none (graph.candidates start)).map
    (·.map Label.path)

end JoinGraph

/-! ## The paths that are meant -/

/-- **A simple path from the start**, with the number of inferred joins on it. -/
inductive JoinTrail (graph : JoinGraph) (start : String) : List String → ℕ → Prop where
  /-- The start alone. -/
  | start : JoinTrail graph start [start] 0
  /-- One more join, to a table that is not on the path. -/
  | step {front : List String} {node next : String} {inferred : ℕ} {isInferred : Bool} :
    JoinTrail graph start (front ++ [node]) inferred →
    (next, isInferred) ∈ graph.neighbours node → next ∉ front ++ [node] →
    JoinTrail graph start (front ++ [node] ++ [next]) (inferred + isInferred.toNat)

/-- **The tables live in one data source that the start lives in.** A start that the graph lists no data
sources for is not restricted. -/
def JoinGraph.Together (graph : JoinGraph) (start : String) (path : List String) : Prop :=
  ∀ own, graph.sources.lookup start = some own →
    ∃ source ∈ own, ∀ table ∈ path.tail, source ∈ graph.sourcesOf table

/-- **A path that joins the start to a target.** -/
structure IsJoinPath (graph : JoinGraph) (start : String) (targets : List String)
    (maxHops maxHubDegree : ℤ) (path : List String) (inferred : ℕ) : Prop where
  trail : JoinTrail graph start path inferred
  arrives : ∃ target ∈ targets, target ≠ start ∧ path.getLast? = some target
  short : (path.length : ℤ) ≤ maxHops + 1
  no_hub : ∀ table ∈ path.tail.dropLast, (graph.degree table : ℤ) ≤ maxHubDegree
  together : graph.Together start path

/-- The order of paths: edges, inferred joins, names. -/
def pathKey (path : List String) (inferred : ℕ) : ℕ ×ₗ (ℕ ×ₗ List String) :=
  toLex (path.length, toLex (inferred, path))

section
variable {graph : JoinGraph} {start : String} {targets : List String} {maxHops maxHubDegree : ℤ}
  {source : Option String} {path : List String} {inferred : ℕ} {l : Label String}

/-! ## The trails of one search -/

/-- What a search may enter. -/
def Entered (graph : JoinGraph) (source : Option String) (path : List String) : Prop :=
  ∀ table ∈ path.tail, ∀ name, source = some name → name ∈ graph.sourcesOf table

/-- **A path that a search can take**, up to its last table. -/
structure Passable (graph : JoinGraph) (maxHops maxHubDegree : ℤ) (source : Option String)
    (path : List String) : Prop where
  short : path.length ≠ 1 → (path.length : ℤ) ≤ maxHops + 1
  no_hub : ∀ table ∈ path.tail.dropLast, (graph.degree table : ℤ) ≤ maxHubDegree
  entered : Entered graph source path

theorem mayEnter_iff {table : String} :
    (graph.rules start targets maxHops maxHubDegree source).mayEnter table = true ↔
      ∀ name, source = some name → name ∈ graph.sourcesOf table := by
  cases source with
  | none => simp [JoinGraph.rules]
  | some name => simp [JoinGraph.rules]

theorem goal_iff {table : String} :
    (graph.rules start targets maxHops maxHubDegree source).goal table = true ↔
      table ∈ targets ∧ table ≠ start := by
  simp [JoinGraph.rules]

theorem mayLeave_iff {table : String} :
    (graph.rules start targets maxHops maxHubDegree source).mayLeave table = true ↔
      table = start ∨ (graph.degree table : ℤ) ≤ maxHubDegree := by
  simp [JoinGraph.rules]

theorem mem_edges_iff {table next : String} {penalty : ℕ} :
    (next, penalty) ∈ (graph.rules start targets maxHops maxHubDegree source).edges table ↔
      ∃ isInferred, (next, isInferred) ∈ graph.neighbours table ∧ penalty = isInferred.toNat := by
  simp only [JoinGraph.rules, List.mem_map, Prod.mk.injEq, Prod.exists]
  constructor
  · rintro ⟨other, isInferred, mem, rfl, rfl⟩
    exact ⟨isInferred, mem, rfl⟩
  · rintro ⟨isInferred, mem, rfl⟩
    exact ⟨next, isInferred, mem, rfl, rfl⟩

/-- A path begins with its start. -/
theorem JoinTrail.head (trail : JoinTrail graph start path inferred) : path.head? = some start := by
  induction trail with
  | start => rfl
  | @step front node next inferred isInferred trail edge off ih =>
    cases front with
    | nil => exact ih
    | cons first front => exact ih

/-- No table is twice on a path. -/
theorem JoinTrail.nodup (trail : JoinTrail graph start path inferred) : path.Nodup := by
  induction trail with
  | start => exact List.nodup_singleton _
  | step trail edge off ih => exact List.nodup_append.mpr ⟨ih, List.nodup_singleton _, by
      rintro table mem other last rfl
      exact off (List.mem_singleton.mp last ▸ mem)⟩

/-- The last table of a path is its start, or comes after it and is another. -/
theorem JoinTrail.node_cases {front : List String} {node : String}
    (trail : JoinTrail graph start (front ++ [node]) inferred) :
    (front = [] ∧ node = start) ∨
      (node ≠ start ∧ (front ++ [node]).tail = (front ++ [node]).tail.dropLast ++ [node]) := by
  have head := trail.head
  have nodup := trail.nodup
  cases front with
  | nil => exact .inl ⟨rfl, Option.some.inj head⟩
  | cons first front =>
    obtain rfl : first = start := Option.some.inj head
    refine .inr ⟨?_, by simp⟩
    rintro rfl
    simp at nodup

/-- The tables that a longer path passes are those after the start. -/
theorem passed_append {front : List String} {node next : String} :
    (front ++ [node] ++ [next]).tail.dropLast = (front ++ [node]).tail := by
  cases front with
  | nil => rfl
  | cons first front => simp

/-- **A path that is passable one join further** is passable, and its last table can be left. -/
theorem Passable.prefix {front : List String} {node next : String}
    (h : Passable graph maxHops maxHubDegree source (front ++ [node] ++ [next])) :
    Passable graph maxHops maxHubDegree source (front ++ [node]) := by
  have tail : (front ++ [node] ++ [next]).tail = (front ++ [node]).tail ++ [next] := by
    cases front <;> rfl
  refine ⟨fun _ => ?_, fun table mem => h.no_hub table ?_, fun table mem => h.entered table ?_⟩
  · have := h.short (by simp)
    simp only [List.length_append, List.length_singleton] at this ⊢
    omega
  · rw [passed_append]
    exact List.dropLast_subset _ mem
  · rw [tail]
    exact List.mem_append_left _ mem

/-- **What a search takes is a path**, passable in it, and counted as the path is. -/
theorem joinTrail_of_trail (trail : Trail (graph.rules start targets maxHops maxHubDegree source) start l) :
    JoinTrail graph start l.path l.penalty ∧ l.path.length = l.steps + 1 ∧
      Passable graph maxHops maxHubDegree source l.path := by
  induction trail with
  | refl => exact ⟨.start, rfl, by simp [Label.path, Label.start], by simp [Label.path, Label.start],
      by simp [Entered, Label.path, Label.start]⟩
  | @tail l l' trail last ih =>
    obtain ⟨path_trail, length, passable⟩ := ih
    obtain ⟨⟨next, penalty⟩, edge, off, enter, rfl⟩ := last.edge
    obtain ⟨isInferred, mem, rfl⟩ := mem_edges_iff.mp edge
    have longer : (l.extend (next, isInferred.toNat)).path = l.front ++ [l.node] ++ [next] := rfl
    have tail : (l.front ++ [l.node] ++ [next]).tail = l.path.tail ++ [next] := by
      rw [Label.path]
      cases l.front <;> rfl
    refine ⟨.step path_trail mem off, ?_, ?_, ?_, ?_⟩
    · rw [longer, List.length_append, ← Label.path, length]
      rfl
    · intro _
      rw [longer, List.length_append, ← Label.path, length]
      have short : (l.steps : ℤ) < maxHops := last.short
      rw [List.length_singleton]
      omega
    · rw [longer, passed_append]
      intro table mem
      obtain ⟨front, -⟩ | ⟨other, tail⟩ := path_trail.node_cases
      · simp [front] at mem
      · rw [tail] at mem
        obtain mem | mem := List.mem_append.mp mem
        · exact passable.no_hub table mem
        · obtain rfl := List.mem_singleton.mp mem
          exact (mayLeave_iff.mp last.leave).resolve_left other
    · intro table mem
      rw [longer, tail] at mem
      obtain mem | mem := List.mem_append.mp mem
      · exact passable.entered table mem
      · obtain rfl := List.mem_singleton.mp mem
        exact mayEnter_iff.mp enter

/-- **A passable path is taken**, unless a trail to a target costs less: where the path comes to a target
before its end, the search stops. -/
theorem trail_of_joinTrail (targets : List String) (path_trail : JoinTrail graph start path inferred)
    (passable : Passable graph maxHops maxHubDegree source path) :
    ∃ l, Trail (graph.rules start targets maxHops maxHubDegree source) start l ∧
      (((graph.rules start targets maxHops maxHubDegree source).goal l.node = true ∧
          l.steps + 1 < path.length) ∨
        (l.path = path ∧ l.penalty = inferred)) := by
  induction path_trail with
  | start => exact ⟨_, .refl, .inr ⟨rfl, rfl⟩⟩
  | @step front node next inferred isInferred path_trail edge off ih =>
    obtain ⟨l, trail, ⟨goal, less⟩ | ⟨path_eq, rfl⟩⟩ := ih passable.prefix
    · refine ⟨l, trail, .inl ⟨goal, ?_⟩⟩
      rw [List.length_append]
      omega
    · obtain ⟨rfl, node_eq⟩ := List.append_inj' path_eq rfl
      obtain rfl : l.node = node := List.singleton_inj.mp node_eq
      have length := (joinTrail_of_trail trail).2.1
      by_cases goal : (graph.rules start targets maxHops maxHubDegree source).goal l.node = true
      · refine ⟨l, trail, .inl ⟨goal, ?_⟩⟩
        rw [List.length_append, ← Label.path, length]
        exact Nat.lt_succ_self _
      · have short : (l.steps : ℤ) < maxHops := by
          have := passable.short (by simp)
          rw [List.length_append, ← Label.path, length, List.length_singleton] at this
          omega
        have next_step : Extends (graph.rules start targets maxHops maxHubDegree source) l
            (l.extend (next, isInferred.toNat)) := {
          short := short
          leave := mayLeave_iff.mpr (by
            obtain ⟨-, here⟩ | ⟨-, tail⟩ := path_trail.node_cases
            · exact .inl here
            · refine .inr (passable.no_hub l.node ?_)
              rw [passed_append, tail]
              exact List.mem_append_right _ (List.mem_singleton_self _))
          passing := Bool.eq_false_iff.mpr goal
          edge := ⟨(next, isInferred.toNat), mem_edges_iff.mpr ⟨isInferred, edge, rfl⟩, off,
            mayEnter_iff.mpr (passable.entered next (by cases l.front <;> simp)), rfl⟩ }
        exact ⟨_, trail.tail next_step, .inr ⟨rfl, rfl⟩⟩

/-! ## Over the data sources -/

theorem candidates_of_none (none : graph.sources.lookup start = none) :
    graph.candidates start = [Option.none] := by
  rw [JoinGraph.candidates, none]

theorem candidates_of_some {own : List String} (some : graph.sources.lookup start = some own) :
    graph.candidates start = (sortedStrings own).map Option.some := by
  rw [JoinGraph.candidates, some]

/-- **What a search finds is a path that is meant.** -/
theorem isJoinPath_of_arrives (mem : source ∈ graph.candidates start)
    (arrives : Arrives (graph.rules start targets maxHops maxHubDegree source) start l) :
    IsJoinPath graph start targets maxHops maxHubDegree l.path l.penalty := by
  obtain ⟨trail, length, passable⟩ := joinTrail_of_trail arrives.trail
  obtain ⟨target, other⟩ := goal_iff.mp arrives.goal
  have longer : l.path.length ≠ 1 := by
    obtain ⟨-, here⟩ | ⟨-, tail⟩ := trail.node_cases
    · exact absurd here other
    · intro one
      have := congrArg List.length tail
      simp only [List.length_tail, List.length_append, List.length_dropLast, List.length_singleton] at this
      rw [Label.path, List.length_append, List.length_singleton] at one
      omega
  refine ⟨trail, ⟨l.node, target, other, by simp [Label.path]⟩, passable.short longer, passable.no_hub, ?_⟩
  intro own lives
  rw [candidates_of_some lives] at mem
  obtain ⟨name, listed, rfl⟩ := List.mem_map.mp mem
  exact ⟨name, (sortedStrings_perm own).mem_iff.mp listed, fun table on => passable.entered table on name rfl⟩

/-- **A path that is meant is found**, or one before it in the order. -/
theorem exists_arrives (h : IsJoinPath graph start targets maxHops maxHubDegree path inferred) :
    ∃ source ∈ graph.candidates start, ∃ l,
      Arrives (graph.rules start targets maxHops maxHubDegree source) start l ∧
        pathKey l.path l.penalty ≤ pathKey path inferred := by
  obtain ⟨source, mem, entered⟩ : ∃ source ∈ graph.candidates start, Entered graph source path := by
    cases lives : graph.sources.lookup start with
    | none =>
      rw [candidates_of_none lives]
      exact ⟨none, List.mem_singleton_self _, fun table on name h => by cases h⟩
    | some own =>
      obtain ⟨name, mem, all⟩ := h.together own lives
      rw [candidates_of_some lives]
      refine ⟨some name, List.mem_map_of_mem ((sortedStrings_perm own).mem_iff.mpr mem), ?_⟩
      intro table on other eq
      obtain rfl := Option.some.inj eq
      exact all table on
  obtain ⟨l, trail, ⟨goal, less⟩ | ⟨rfl, rfl⟩⟩ := trail_of_joinTrail targets h.trail
    ⟨fun _ => h.short, h.no_hub, entered⟩
  · have length := (joinTrail_of_trail trail).2.1
    exact ⟨source, mem, l, ⟨trail, goal⟩, (Prod.Lex.toLex_lt_toLex.mpr (.inl (length ▸ less))).le⟩
  · obtain ⟨target, wanted, other, last⟩ := h.arrives
    have here : l.node = target := by simpa [Label.path] using last
    exact ⟨source, mem, l, ⟨trail, goal_iff.mpr ⟨here ▸ wanted, here ▸ other⟩⟩, le_rfl⟩

theorem edges_length_le_width (graph : JoinGraph) (node : String) :
    ((graph.rules start targets maxHops maxHubDegree source).edges node).length ≤ graph.width := by
  have bounded : ∀ (lengths : List ℕ), ∀ n ∈ lengths, n ≤ lengths.foldr max 0 := by
    intro lengths n mem
    induction lengths with
    | nil => exact absurd mem List.not_mem_nil
    | cons m lengths ih =>
      obtain rfl | mem := List.mem_cons.mp mem
      · exact le_max_left _ _
      · exact (ih mem).trans (le_max_right _ _)
  show ((graph.neighbours node).map _).length ≤ _
  rw [List.length_map, JoinGraph.neighbours]
  cases found : graph.adjacency.lookup node with
  | none => exact Nat.zero_le _
  | some entry =>
    exact bounded _ _ (List.mem_map.mpr ⟨⟨node, entry⟩, List.of_mem_dlookup found, rfl⟩)

variable (graph start targets maxHops maxHubDegree) in
/-- **The loop over the candidates** ends with the least of what was there and of what the searches can
find. -/
theorem bestLabel_spec (candidates : List (Option String)) (before : Option (Label String)) :
    ∃ best, graph.bestLabel start targets maxHops maxHubDegree before candidates = some best ∧
      (∀ t, (∃ source ∈ candidates, Arrives (graph.rules start targets maxHops maxHubDegree source) start t) ∨
        BestLe before t → BestLe best t) ∧
      ∀ b, best = some b → before = some b ∨ ∃ source ∈ candidates,
        Arrives (graph.rules start targets maxHops maxHubDegree source) start b := by
  induction candidates generalizing before with
  | nil => exact ⟨before, rfl, fun t h => h.resolve_left (by simp), fun b h => .inl h⟩
  | cons source candidates ih =>
    obtain ⟨s', run, least, found⟩ := search_spec
      (R := graph.rules start targets maxHops maxHubDegree source) (edges_length_le_width graph) start before
    obtain ⟨best, rest, least', found'⟩ := ih s'.best
    refine ⟨best, ?_, fun t h => least' t ?_, fun b h => ?_⟩
    · have first : graph.searchIn start targets maxHops maxHubDegree before source = some s'.best :=
        congrArg (Option.map SearchState.best) run
      rw [JoinGraph.bestLabel, List.foldlM_cons, first]
      exact rest
    · obtain ⟨other, mem, arrives⟩ | old := h
      · obtain rfl | mem := List.mem_cons.mp mem
        · exact .inr (least t (.inl arrives))
        · exact .inl ⟨other, mem, arrives⟩
      · exact .inr (least t (.inr old))
    · obtain new | ⟨other, mem, arrives⟩ := found' b h
      · exact (found b new).imp_right fun arrives => ⟨source, List.mem_cons_self, arrives⟩
      · exact .inr ⟨other, List.mem_cons_of_mem _ mem, arrives⟩

variable (graph start targets maxHops maxHubDegree) in
/-- **The best label of all searches** is the least path that is meant, and is there when one is. -/
theorem bestLabel_least :
    ∃ best, graph.bestLabel start targets maxHops maxHubDegree none (graph.candidates start) = some best ∧
      (∀ b, best = some b → IsJoinPath graph start targets maxHops maxHubDegree b.path b.penalty) ∧
      ∀ path inferred, IsJoinPath graph start targets maxHops maxHubDegree path inferred →
        ∃ b, best = some b ∧ pathKey b.path b.penalty ≤ pathKey path inferred := by
  obtain ⟨best, run, least, found⟩ := bestLabel_spec graph start targets maxHops maxHubDegree
    (graph.candidates start) none
  have meant : ∀ b, best = some b → ∃ source ∈ graph.candidates start,
      Arrives (graph.rules start targets maxHops maxHubDegree source) start b := fun b h =>
    (found b h).resolve_left (by simp)
  refine ⟨best, run, fun b h => ?_, fun path inferred h => ?_⟩
  · obtain ⟨source, mem, arrives⟩ := meant b h
    exact isJoinPath_of_arrives mem arrives
  · obtain ⟨source, mem, l, arrives, le⟩ := exists_arrives h
    obtain ⟨b, eq, le'⟩ := least l (.inl ⟨source, mem, arrives⟩)
    obtain ⟨other, -, arrives'⟩ := meant b eq
    refine ⟨b, eq, le_trans ?_ le⟩
    -- a label counts one less than the tables on its path
    have key : b.key ≤ l.key := le'
    rw [pathKey, pathKey, (joinTrail_of_trail arrives'.trail).2.1, (joinTrail_of_trail arrives.trail).2.1]
    simp only [Label.key, Prod.Lex.toLex_le_toLex, Nat.add_lt_add_iff_right, Nat.add_right_cancel_iff] at key ⊢
    exact key

variable (graph start targets maxHops maxHubDegree) in
/-- The search ends, and what it gives is a path that is meant. -/
theorem exists_bestPath :
    ∃ result, graph.bestPath start targets maxHops maxHubDegree = some result ∧
      ∀ path, result = some path → ∃ inferred, IsJoinPath graph start targets maxHops maxHubDegree path inferred := by
  obtain ⟨best, run, meant, -⟩ := bestLabel_least graph start targets maxHops maxHubDegree
  refine ⟨best.map Label.path, by rw [JoinGraph.bestPath, run]; rfl, fun path h => ?_⟩
  obtain ⟨b, eq, rfl⟩ := Option.map_eq_some_iff.mp h
  exact ⟨b.penalty, meant b eq⟩

end

/-- **The search is optimal.** It ends; it gives no path exactly when there is none from the start to a
target other than the start; and the path it gives is the least by edges, inferred joins and names. -/
theorem bestPath_optimal (graph : JoinGraph) (start : String) (targets : List String)
    (maxHops maxHubDegree : ℤ) :
    ∃ result, graph.bestPath start targets maxHops maxHubDegree = some result ∧
      (result = none ↔
        ∀ path inferred, ¬ IsJoinPath graph start targets maxHops maxHubDegree path inferred) ∧
      ∀ path, result = some path → ∃ inferred,
        IsJoinPath graph start targets maxHops maxHubDegree path inferred ∧
        ∀ path' inferred', IsJoinPath graph start targets maxHops maxHubDegree path' inferred' →
          pathKey path inferred ≤ pathKey path' inferred' := by
  obtain ⟨best, run, meant, least⟩ := bestLabel_least graph start targets maxHops maxHubDegree
  refine ⟨best.map Label.path, by rw [JoinGraph.bestPath, run]; rfl, ⟨fun none path inferred h => ?_, fun none => ?_⟩,
    fun path h => ?_⟩
  · obtain ⟨b, rfl, -⟩ := least path inferred h
    cases none
  · cases best with
    | none => rfl
    | some b => exact absurd (meant b rfl) (none _ _)
  · obtain ⟨b, rfl, rfl⟩ := Option.map_eq_some_iff.mp h
    refine ⟨b.penalty, meant b rfl, fun path' inferred' h' => ?_⟩
    obtain ⟨b', eq, le⟩ := least path' inferred' h'
    obtain rfl := Option.some.inj eq
    exact le

/-- Two tables, of which the graph lists the data source of the second only. -/
def halfListed : JoinGraph where
  adjacency := OrderedDict.ofPairs [("A", [("B", false)]), ("B", [("A", false)])]
  sources := OrderedDict.ofPairs [("B", ["main"])]

/-- **Where the search is not after every path.** The start is not a target of its own, although the path
of one table ends in it; and a start without data sources is joined, although no data source has it. -/
theorem start_not_target_and_unlisted_joined :
    (∃ path inferred, JoinTrail halfListed "B" path inferred ∧ path.getLast? = some "B" ∧
      (path.length : ℤ) ≤ 0 + 1 ∧ path.tail.dropLast = [] ∧
      (∃ source ∈ halfListed.sourcesOf "B", ∀ table ∈ path, source ∈ halfListed.sourcesOf table)) ∧
    halfListed.bestPath "B" ["B"] 0 10 = some none ∧
    (¬ ∃ source ∈ halfListed.sourcesOf "A", ∀ table ∈ ["A", "B"], source ∈ halfListed.sourcesOf table) ∧
    halfListed.bestPath "A" ["B"] 1 10 = some (some ["A", "B"]) :=
  ⟨⟨["B"], 0, .start, rfl, by decide, rfl, by decide⟩, by decide, by decide, by decide⟩

end LocalSqlAgent
