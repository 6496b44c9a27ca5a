import LocalSqlAgent.Lib.Closure
import LocalSqlAgent.Retrieval.JoinPaths
import LocalSqlAgent.Retrieval.SourceSelector

/-! # Pruning the retrieved tables

`retrieval.pruning.prune_selection`: of the tables retrieval proposed, those with evidence of their own stay, and
those the join graph connects to one that stays. Scores are floats in the source; here they have any linearly
ordered type with a zero and a product.

* **`connectedWithin`**: `connected_within` of `retrieval.join_paths`.
* **`pruneSelection`**: the stages, in the source's order.
* **`Kept`**: what should stay, without stages: the least set with the anchors, the pairs that corroborate each
  other, and every candidate joined to one of its own.
* **`pruneSelection_keeps`**: the stages keep exactly that, in the order given. -/

namespace LocalSqlAgent

/-! ## Connected tables -/

/-- `connected_within`. -/
def JoinGraph.connectedWithin (graph : JoinGraph) (table : String) (anchors : List String) (hops maxHubDegree : ℤ) :
    Bool :=
  let targets := anchors.filter fun t => decide (t ≠ table)
  if hops < 1 ∨ targets = [] ∨ table ∉ graph.adjacency then false
  else (graph.bestPath table targets hops maxHubDegree).join.isSome

/-- **Two tables joined** by a path of at most `hops` foreign keys that passes no hub. -/
def JoinGraph.Joined (graph : JoinGraph) (hops maxHubDegree : ℤ) (table target : String) : Prop :=
  ∃ path inferred, IsJoinPath graph table [target] hops maxHubDegree path inferred

section Connected

variable {graph : JoinGraph} {hops maxHubDegree : ℤ} {table : String} {anchors : List String} {path : List String}
  {inferred : ℕ}

/-- A path to some target is a path to one of them. -/
theorem exists_isJoinPath_iff :
    (∃ path inferred, IsJoinPath graph table anchors hops maxHubDegree path inferred) ↔
      ∃ target ∈ anchors, graph.Joined hops maxHubDegree table target := by
  constructor
  · rintro ⟨path, inferred, h⟩
    obtain ⟨target, hmem, hne, hlast⟩ := h.arrives
    exact ⟨target, hmem, path, inferred, { h with arrives := ⟨target, List.mem_singleton.mpr rfl, hne, hlast⟩ }⟩
  · rintro ⟨target, hmem, path, inferred, h⟩
    obtain ⟨target', htarget, hne, hlast⟩ := h.arrives
    rw [List.mem_singleton] at htarget
    exact ⟨path, inferred, { h with arrives := ⟨target, hmem, htarget ▸ hne, htarget ▸ hlast⟩ }⟩

/-- A path to another table takes a join. -/
theorem IsJoinPath.leaves (h : IsJoinPath graph table anchors hops maxHubDegree path inferred) :
    1 ≤ hops ∧ table ∈ graph.adjacency := by
  obtain ⟨target, -, hne, hlast⟩ := h.arrives
  have hshort := h.short
  have hhead := h.trail.head
  have hedge : ∀ {p : List String} {k : ℕ}, JoinTrail graph table p k → p ≠ [table] → table ∈ graph.adjacency := by
    intro p k trail
    induction trail with
    | start => exact fun hne => absurd rfl hne
    | @step front node next k isInferred trail edge _ ih =>
      intro _
      by_cases hfirst : front ++ [node] = [table]
      · obtain ⟨-, hnode⟩ := List.append_eq_singleton_iff.mp hfirst |>.resolve_right (by simp)
        rw [List.cons.injEq] at hnode
        rw [JoinGraph.neighbours, hnode.1] at edge
        cases hlookup : graph.adjacency.lookup table with
        | none =>
          rw [hlookup] at edge
          exact absurd edge List.not_mem_nil
        | some entry => exact AList.lookup_isSome.mp (by rw [hlookup]; rfl)
      · exact ih hfirst
  have hlong : path ≠ [table] := by
    rintro rfl
    exact hne (Option.some_inj.mp hlast).symm
  refine ⟨?_, hedge h.trail hlong⟩
  have hlength : 2 ≤ path.length := by
    cases path with
    | nil => cases hhead
    | cons first rest =>
      cases rest with
      | nil =>
        cases hhead
        exact absurd rfl hlong
      | cons => simp
  omega

/-- **The search answers** whether a path to one of the anchors exists. -/
theorem connectedWithin_iff :
    graph.connectedWithin table anchors hops maxHubDegree = true ↔
      ∃ target ∈ anchors, graph.Joined hops maxHubDegree table target := by
  have hsearch : ∀ targets, (graph.bestPath table targets hops maxHubDegree).join.isSome = true ↔
      ∃ path inferred, IsJoinPath graph table targets hops maxHubDegree path inferred := by
    intro targets
    obtain ⟨best, hrun, hmeant, hleast⟩ := bestLabel_least graph table targets hops maxHubDegree
    rw [JoinGraph.bestPath, hrun]
    constructor
    · intro hsome
      cases best with
      | none => cases hsome
      | some b => exact ⟨b.path, b.penalty, hmeant b rfl⟩
    · rintro ⟨path, inferred, h⟩
      obtain ⟨b, rfl, -⟩ := hleast path inferred h
      rfl
  have hother : (∃ target ∈ anchors.filter fun t => decide (t ≠ table), graph.Joined hops maxHubDegree table target) ↔
      ∃ target ∈ anchors, graph.Joined hops maxHubDegree table target := by
    constructor
    · rintro ⟨target, hmem, hjoined⟩
      exact ⟨target, (List.mem_filter.mp hmem).1, hjoined⟩
    · rintro ⟨target, hmem, path, inferred, h⟩
      obtain ⟨target', htarget, hne, -⟩ := h.arrives
      rw [List.mem_singleton] at htarget
      exact ⟨target, List.mem_filter.mpr ⟨hmem, decide_eq_true (htarget ▸ hne)⟩, path, inferred, h⟩
  unfold JoinGraph.connectedWithin
  dsimp only
  split
  · rename_i hskip
    refine iff_of_false Bool.false_ne_true ?_
    rw [← hother]
    rintro ⟨target, hmem, path, inferred, h⟩
    obtain ⟨hhops, hknown⟩ := h.leaves
    obtain hlt | hnone | hunknown := hskip
    · omega
    · rw [hnone] at hmem
      exact absurd hmem List.not_mem_nil
    · exact hunknown hknown
  · rw [hsearch, exists_isJoinPath_iff, hother]

end Connected

/-! ## The evidence -/

/-- The settings that `prune_selection` reads. -/
structure PruneSettings (σ : Type*) where
  prune : Bool
  scoreRatio : σ
  connectHops : ℤ
  maxHubDegree : ℤ
  corroborate : Bool

/-- What is known about a question. -/
structure PruneEvidence (σ : Type*) where
  /-- `dict(rank_tables(question))`. -/
  ranked : OrderedDict String σ
  /-- The tables an alias or a fact pattern named. -/
  named : List String
  /-- `column_evidence(question)`. -/
  columns : OrderedDict String σ
  /-- `_FORCED_SCORE`. -/
  forcedScore : σ

/-- `tier`. -/
inductive EvidenceTier where
  | strong
  | column
  | lexical
  deriving DecidableEq, Repr

section Prune

variable {σ : Type*} [LinearOrder σ] [Zero σ] [Mul σ]
variable (graph : JoinGraph) (S : PruneSettings σ) (E : PruneEvidence σ)

/-- `tier(table)`. -/
def PruneEvidence.tier (table : String) : EvidenceTier :=
  if table ∈ E.named ∨ (E.ranked.lookup table).all (fun score => decide (E.forcedScore ≤ score)) then .strong
  else if 0 < (E.columns.lookup table).getD 0 then .column
  else .lexical

/-- The candidates in `scores`. -/
def PruneEvidence.scored (candidates : List String) : List String :=
  candidates.filter fun t => (E.ranked.lookup t).any fun score => decide (score < E.forcedScore)

/-- `ranked[t]`. -/
def PruneEvidence.score (table : String) : σ := (E.ranked.lookup table).getD 0

/-- The candidates with the best score. -/
def PruneEvidence.topScored (candidates : List String) : List String := highest E.score (E.scored candidates)

/-- `best`: the first by name of those. -/
def PruneEvidence.best (candidates : List String) : List String :=
  (sortedStrings (E.topScored candidates)).take 1

/-- Evidence of its own: strong, or by a column and not far below the best score. -/
def stands (candidates : List String) (table : String) : Bool :=
  match E.tier table with
  | .strong => true
  | .column => (E.topScored candidates).all fun top => decide (S.scoreRatio * E.score top ≤ E.score table)
  | .lexical => false

/-- `anchors`. -/
def anchors (candidates : List String) : List String :=
  let standing := candidates.filter (stands S E candidates)
  if standing = [] then E.best candidates else standing

/-- `connected_within(graph, t, kept, hops, max_hub_degree=hub)`. -/
def connected (t : String) (kept : List String) : Bool := graph.connectedWithin t kept S.connectHops S.maxHubDegree

/-- `rescue`: every pending table connected to a kept one, until a round finds none. -/
def rescueTables (kept pending : List String) : List String × List String :=
  rescue (connected graph S) pending.length kept pending

/-- The tables kept at the end. -/
def keptTables (candidates : List String) : List String :=
  let anchored := anchors S E candidates
  let (kept, pending) := rescueTables graph S anchored (candidates.filter fun t => decide (t ∉ anchored))
  if S.corroborate then
    let pairs := pending.filter fun t => connected graph S t (pending.filter fun u => decide (u ≠ t))
    (rescueTables graph S (kept ++ pairs) (pending.filter fun t => decide (t ∉ kept ++ pairs))).1
  else kept

/-- `list(dict.fromkeys([*entities, *facts]))`. -/
def pruneCandidates (entities facts : List String) : List String := (entities ++ facts).eraseDups

/-- Whether anything is pruned. -/
def prunes (entities facts : List String) : Bool :=
  S.prune && decide (2 ≤ (pruneCandidates entities facts).length) &&
    decide (E.scored (pruneCandidates entities facts) ≠ [])

/-- **`prune_selection`.** -/
def pruneSelection (entities facts : List String) : List String × List String :=
  if prunes S E entities facts then
    let kept := keptTables graph S E (pruneCandidates entities facts)
    (entities.filter fun t => decide (t ∈ kept), facts.filter fun t => decide (t ∈ kept))
  else (entities, facts)

/-! ## What should stay -/

/-- Joined within the configured number of foreign keys. -/
def Near (t u : String) : Prop := graph.Joined S.connectHops S.maxHubDegree t u

/-- **Evidence of its own**: strong, or by a column and at least the ratio of the best score. -/
def Stands (candidates : List String) (t : String) : Prop :=
  E.tier t = .strong ∨ (E.tier t = .column ∧ ∀ top ∈ E.scored candidates,
    (∀ u ∈ E.scored candidates, E.score u ≤ E.score top) → S.scoreRatio * E.score top ≤ E.score t)

/-- The best score, and the first name with it. -/
def IsBest (candidates : List String) (t : String) : Prop :=
  t ∈ E.scored candidates ∧
    ∀ u ∈ E.scored candidates, E.score u < E.score t ∨ (E.score u = E.score t ∧ t ≤ u)

/-- **An anchor**: a candidate with evidence of its own, or the best one when there is none such. -/
def IsAnchor (candidates : List String) (t : String) : Prop :=
  (t ∈ candidates ∧ Stands S E candidates t) ∨
    ((∀ u ∈ candidates, ¬ Stands S E candidates u) ∧ IsBest E candidates t)

/-- Held by the anchors alone. -/
def Anchored (candidates : List String) : String → Prop :=
  Supported (Near graph S) (· ∈ candidates) (IsAnchor S E candidates)

/-- **A pair**: two candidates the anchors do not hold, joined to each other. -/
def Corroborated (candidates : List String) (t : String) : Prop :=
  t ∈ candidates ∧ ¬ Anchored graph S E candidates t ∧
    ∃ u ∈ candidates, u ≠ t ∧ ¬ Anchored graph S E candidates u ∧ Near graph S t u

/-- **What should stay**: the least set with the anchors and, where they count, the pairs, that has every candidate
joined to one of its own. -/
def Kept (candidates : List String) : String → Prop :=
  Supported (Near graph S) (· ∈ candidates)
    fun t => IsAnchor S E candidates t ∨ (S.corroborate = true ∧ Corroborated graph S E candidates t)

end Prune

section Law

variable {σ : Type*} {graph : JoinGraph} {S : PruneSettings σ} {candidates kept pending : List String} {t : String}

/-- **One rescue** reaches what the kept tables support. -/
theorem mem_rescueTables_iff :
    t ∈ (rescueTables graph S kept pending).1 ↔ Supported (Near graph S) (· ∈ pending) (· ∈ kept) t :=
  mem_rescue_iff (fun _ _ => connectedWithin_iff) (le_refl _)

/-- The tables still to decide can be supported exactly as all candidates can. -/
theorem supported_pending_iff (candidates : List String)
    (hpending : ∀ t, t ∈ pending ↔ t ∈ candidates ∧ t ∉ kept) :
    Supported (Near graph S) (· ∈ pending) (· ∈ kept) t ↔
      Supported (Near graph S) (· ∈ candidates) (· ∈ kept) t := by
  constructor
  · exact fun h => h.mono (fun t ht => ((hpending t).mp ht).1) fun t ht => .base ht
  · refine fun h => h.least (fun t ht => .base ht) fun t u ht hu hnear => ?_
    by_cases hin : t ∈ kept
    · exact .base hin
    · exact .linked ((hpending t).mpr ⟨ht, hin⟩) hu hnear

variable [LinearOrder σ] [Zero σ] {E : PruneEvidence σ}

/-! ### The anchors -/

theorem mem_topScored_iff :
    t ∈ E.topScored candidates ↔
      t ∈ E.scored candidates ∧ ∀ u ∈ E.scored candidates, E.score u ≤ E.score t :=
  mem_highest_iff

/-- The first by name of the tables with the best score. -/
theorem mem_best_iff : t ∈ E.best candidates ↔ IsBest E candidates t := by
  unfold PruneEvidence.best IsBest
  have hsorted := sortedStrings_sorted (E.topScored candidates)
  have hmem : ∀ u, u ∈ sortedStrings (E.topScored candidates) ↔ u ∈ E.topScored candidates :=
    fun u => (sortedStrings_perm _).mem_iff
  constructor
  · intro h
    cases hlist : sortedStrings (E.topScored candidates) with
    | nil =>
      rw [hlist] at h
      cases h
    | cons first rest =>
      rw [hlist] at h hsorted hmem
      obtain rfl : t = first := List.mem_singleton.mp h
      obtain ⟨ht, htop⟩ := mem_topScored_iff.mp ((hmem t).mp List.mem_cons_self)
      refine ⟨ht, fun u hu => ?_⟩
      obtain hlt | heq := lt_or_eq_of_le (htop u hu)
      · exact .inl hlt
      · refine .inr ⟨heq, ?_⟩
        have hutop : u ∈ E.topScored candidates := mem_topScored_iff.mpr ⟨hu, fun v hv => heq ▸ htop v hv⟩
        obtain rfl | hrest := List.mem_cons.mp ((hmem u).mpr hutop)
        · exact le_refl _
        · exact (List.pairwise_cons.mp hsorted).1 u hrest
  · rintro ⟨ht, hbest⟩
    have htop : t ∈ E.topScored candidates := by
      refine mem_topScored_iff.mpr ⟨ht, fun u hu => ?_⟩
      obtain hlt | ⟨heq, -⟩ := hbest u hu
      · exact hlt.le
      · exact heq.le
    cases hlist : sortedStrings (E.topScored candidates) with
    | nil =>
      have hin := (hmem t).mpr htop
      rw [hlist] at hin
      cases hin
    | cons first rest =>
      have hin := (hmem t).mpr htop
      rw [hlist] at hin hsorted
      have hfirst := (hmem first).mp (by rw [hlist]; exact List.mem_cons_self)
      obtain ⟨hscored, hmax⟩ := mem_topScored_iff.mp hfirst
      obtain hlt | ⟨-, hle⟩ := hbest first hscored
      · exact absurd (hmax t ht) (not_le.mpr hlt)
      · obtain rfl | hrest := List.mem_cons.mp hin
        · exact List.mem_cons_self
        · have hge := (List.pairwise_cons.mp hsorted).1 t hrest
          rw [le_antisymm hle hge]
          exact List.mem_cons_self

/-- Of scored candidates one is the best. -/
theorem exists_isBest (h : E.scored candidates ≠ []) : ∃ t, IsBest E candidates t := by
  obtain ⟨u, hu⟩ : ∃ u, u ∈ E.topScored candidates := exists_mem_highest E.score h
  cases hlist : sortedStrings (E.topScored candidates) with
  | nil =>
    have hin := (sortedStrings_perm (E.topScored candidates)).mem_iff.mpr hu
    rw [hlist] at hin
    cases hin
  | cons first rest =>
    refine ⟨first, mem_best_iff.mp ?_⟩
    rw [PruneEvidence.best, hlist]
    exact List.mem_cons_self

variable [Mul σ]

theorem stands_iff : stands S E candidates t = true ↔ Stands S E candidates t := by
  unfold stands Stands
  cases E.tier t with
  | strong => simp
  | lexical => simp
  | column =>
    simp only [List.all_eq_true, decide_eq_true_eq, mem_topScored_iff, reduceCtorEq, true_and, false_or, and_imp]

theorem mem_anchors_iff : t ∈ anchors S E candidates ↔ IsAnchor S E candidates t := by
  unfold anchors IsAnchor
  dsimp only
  split
  · rename_i hnone
    have hstand : ∀ u ∈ candidates, ¬ Stands S E candidates u := by
      intro u hu h
      have hmem : u ∈ candidates.filter (stands S E candidates) := List.mem_filter.mpr ⟨hu, stands_iff.mpr h⟩
      rw [hnone] at hmem
      cases hmem
    rw [mem_best_iff]
    constructor
    · exact fun h => .inr ⟨hstand, h⟩
    · rintro (⟨ht, h⟩ | ⟨-, h⟩)
      · exact absurd h (hstand t ht)
      · exact h
  · rename_i hsome
    rw [List.mem_filter, stands_iff]
    constructor
    · exact fun h => .inl h
    · rintro (h | ⟨hstand, -⟩)
      · exact h
      · obtain ⟨u, hu⟩ := List.exists_mem_of_ne_nil _ hsome
        obtain ⟨hmem, h⟩ := List.mem_filter.mp hu
        exact absurd (stands_iff.mp h) (hstand u hmem)

/-- An anchor is a candidate. -/
theorem IsAnchor.mem (h : IsAnchor S E candidates t) : t ∈ candidates := by
  obtain ⟨ht, -⟩ | ⟨-, hscored, -⟩ := h
  · exact ht
  · exact (List.mem_filter.mp hscored).1

/-! ### The stages -/

/-- The first rescue holds what the anchors hold. -/
theorem mem_anchored_iff :
    t ∈ (rescueTables graph S (anchors S E candidates)
        (candidates.filter fun t => decide (t ∉ anchors S E candidates))).1 ↔ Anchored graph S E candidates t := by
  rw [mem_rescueTables_iff, supported_pending_iff candidates fun t => by
    rw [List.mem_filter, decide_eq_true_iff]]
  constructor
  · exact fun h => h.mono (fun _ ht => ht) fun t ht => .base (mem_anchors_iff.mp ht)
  · exact fun h => h.mono (fun _ ht => ht) fun t ht => .base (mem_anchors_iff.mpr ht)

/-- What the first rescue leaves pending. -/
theorem mem_pending_iff :
    t ∈ (rescueTables graph S (anchors S E candidates)
        (candidates.filter fun t => decide (t ∉ anchors S E candidates))).2 ↔
      t ∈ candidates ∧ ¬ Anchored graph S E candidates t := by
  have hpending : ∀ {kept pending : List String}, (∀ t ∈ pending, t ∉ kept) →
      (rescueTables graph S kept pending).2 =
        pending.filter fun t => decide (t ∉ (rescueTables graph S kept pending).1) :=
    fun hdisjoint => rescue_pending hdisjoint
  rw [hpending fun t ht => of_decide_eq_true (List.mem_filter.mp ht).2, List.mem_filter, decide_eq_true_iff,
    List.mem_filter, decide_eq_true_iff, mem_anchored_iff]
  constructor
  · rintro ⟨⟨ht, -⟩, hnot⟩
    exact ⟨ht, hnot⟩
  · rintro ⟨ht, hnot⟩
    exact ⟨⟨ht, fun hanchor => hnot (.base (mem_anchors_iff.mp hanchor))⟩, hnot⟩

/-- The pairs that corroborate each other. -/
theorem mem_pairs_iff {pending : List String}
    (hpending : ∀ t, t ∈ pending ↔ t ∈ candidates ∧ ¬ Anchored graph S E candidates t) :
    t ∈ (pending.filter fun t => connected graph S t (pending.filter fun u => decide (u ≠ t))) ↔
      Corroborated graph S E candidates t := by
  rw [List.mem_filter, hpending]
  unfold connected Corroborated
  rw [connectedWithin_iff]
  constructor
  · rintro ⟨⟨ht, hnot⟩, u, hu, hnear⟩
    obtain ⟨hu, hne⟩ := List.mem_filter.mp hu
    obtain ⟨hu, hnotu⟩ := (hpending u).mp hu
    exact ⟨ht, hnot, u, hu, of_decide_eq_true hne, hnotu, hnear⟩
  · rintro ⟨ht, hnot, u, hu, hne, hnotu, hnear⟩
    exact ⟨⟨ht, hnot⟩, u, List.mem_filter.mpr ⟨(hpending u).mpr ⟨hu, hnotu⟩, decide_eq_true hne⟩, hnear⟩

/-- **The stages keep what should stay.** -/
theorem mem_keptTables_iff : t ∈ keptTables graph S E candidates ↔ Kept graph S E candidates t := by
  have hfirst : ∀ t, t ∈ (rescueTables graph S (anchors S E candidates)
      (candidates.filter fun t => decide (t ∉ anchors S E candidates))).1 ↔ Anchored graph S E candidates t :=
    fun t => mem_anchored_iff
  have hsecond : ∀ t, t ∈ (rescueTables graph S (anchors S E candidates)
      (candidates.filter fun t => decide (t ∉ anchors S E candidates))).2 ↔
        t ∈ candidates ∧ ¬ Anchored graph S E candidates t :=
    fun t => mem_pending_iff
  unfold keptTables
  dsimp only
  generalize rescueTables graph S (anchors S E candidates)
    (candidates.filter fun t => decide (t ∉ anchors S E candidates)) = first at hfirst hsecond
  obtain ⟨kept, pending⟩ := first
  dsimp only at hfirst hsecond ⊢
  split
  · rename_i hcorroborate
    have hpairs : ∀ t, _ ↔ Corroborated graph S E candidates t := fun t => mem_pairs_iff hsecond
    rw [mem_rescueTables_iff, supported_pending_iff candidates]
    · constructor
      · refine fun h => h.mono (fun _ ht => ht) fun u hu => ?_
        obtain hu | hu := List.mem_append.mp hu
        · exact ((hfirst u).mp hu).mono (fun _ ht => ht) fun v hv => .base (.inl hv)
        · exact .base (.inr ⟨hcorroborate, (hpairs u).mp hu⟩)
      · refine fun h => h.mono (fun _ ht => ht) fun u hu => ?_
        obtain hu | ⟨-, hu⟩ := hu
        · exact .base (List.mem_append_left _ ((hfirst u).mpr (.base hu)))
        · exact .base (List.mem_append_right _ ((hpairs u).mpr hu))
    · intro u
      rw [List.mem_filter, hsecond, decide_eq_true_iff]
      constructor
      · rintro ⟨⟨hu, -⟩, hnot⟩
        exact ⟨hu, hnot⟩
      · rintro ⟨hu, hnot⟩
        exact ⟨⟨hu, fun h => hnot (List.mem_append_left _ ((hfirst u).mpr h))⟩, hnot⟩
  · rename_i hcorroborate
    rw [hfirst]
    constructor
    · exact fun h => h.mono (fun _ ht => ht) fun u hu => .base (.inl hu)
    · refine fun h => h.mono (fun _ ht => ht) fun u hu => ?_
      obtain hu | ⟨hc, -⟩ := hu
      · exact .base hu
      · exact absurd hc hcorroborate

/-- **What is pruned.** Where pruning applies, the tables that stay are those of the least set that has the anchors,
the pairs that corroborate each other when these count, and every candidate joined within the configured number of
foreign keys to one of the set; they stay in the order they were proposed in, and at least one does. A table that
is named, forced or unranked is an anchor, so it stays. Where it does not apply, all stay. -/
theorem pruneSelection_keeps (graph : JoinGraph) (S : PruneSettings σ) (E : PruneEvidence σ)
    (entities facts : List String) :
    ∃ kept : List String, (∀ t, t ∈ kept ↔ Kept graph S E (pruneCandidates entities facts) t) ∧
      pruneSelection graph S E entities facts =
        (if prunes S E entities facts then
          (entities.filter fun t => decide (t ∈ kept), facts.filter fun t => decide (t ∈ kept))
        else (entities, facts)) ∧
      (prunes S E entities facts = true → ∃ t ∈ entities ++ facts, t ∈ kept) ∧
      ∀ t ∈ entities ++ facts, E.tier t = .strong → t ∈ kept := by
  have hcandidates : ∀ t, t ∈ pruneCandidates entities facts ↔ t ∈ entities ++ facts := fun t => List.mem_eraseDups
  refine ⟨keptTables graph S E (pruneCandidates entities facts), fun t => mem_keptTables_iff, rfl, ?_, ?_⟩
  · intro hprunes
    simp only [prunes, Bool.and_eq_true, decide_eq_true_eq] at hprunes
    obtain ⟨t, hanchor⟩ : ∃ t, IsAnchor S E (pruneCandidates entities facts) t := by
      by_cases hstand : ∃ u ∈ pruneCandidates entities facts, Stands S E (pruneCandidates entities facts) u
      · obtain ⟨u, hu, h⟩ := hstand
        exact ⟨u, .inl ⟨hu, h⟩⟩
      · obtain ⟨u, hbest⟩ := exists_isBest hprunes.2
        exact ⟨u, .inr ⟨fun v hv h => hstand ⟨v, hv, h⟩, hbest⟩⟩
    exact ⟨t, (hcandidates t).mp hanchor.mem, mem_keptTables_iff.mpr (.base (.inl hanchor))⟩
  · intro t ht hstrong
    exact mem_keptTables_iff.mpr (.base (.inl (.inl ⟨(hcandidates t).mpr ht, .inl hstrong⟩)))

end Law

end LocalSqlAgent
