import LocalSqlAgent.Lib.Checks
import LocalSqlAgent.Lib.TextReplace
import LocalSqlAgent.SchemaData.Registry

/-! # The joins between the selected tables

`schema_data.registry` keeps the relationships of `schema.yaml` in a dictionary under the text
`from -> to`, and cuts that text again to see which tables an entry joins.

* **`SchemaConfig.relationshipsMap`**: the dictionary; the last of two entries with one text stays.
* **`getRelationships`**: the loop over it, with the error of the unpacking.
* **`SplitsBack`**: what two names are like whose text is cut between them.
* **`getRelationships_complete_iff`**: no entry is lost when the texts are distinct and each is cut where
  it was joined, and otherwise some selection shows it. -/

namespace LocalSqlAgent

/-- The separator of a relationship's key. -/
def arrow : List Char := [' ', '-', '>', ' ']

/-- The key of a relationship: `f"{from_table} -> {to_table}"`. -/
def RelationshipDefinition.key (rel : RelationshipDefinition) : String :=
  String.ofList (rel.fromTable.toList ++ (arrow ++ rel.toTable.toList))

/-- `name.split(" -> ")`. -/
def splitArrow (name : String) : List String := (pieces arrow 0 name.toList).map String.ofList

/-- `left, right = …` of a list: the pair, or the message of the `ValueError`. -/
def unpackPair {α : Type*} : List α → Except String (α × α)
  | [left, right] => .ok (left, right)
  | [] => .error "not enough values to unpack (expected 2, got 0)"
  | [_] => .error "not enough values to unpack (expected 2, got 1)"
  | _ :: _ :: _ :: _ => .error "too many values to unpack (expected 2)"

/-- The `relationships` of `_cache_entries`. -/
def SchemaConfig.relationshipsMap (S : SchemaConfig) : OrderedDict String String :=
  OrderedDict.ofPairs (S.relationships.map fun rel => (rel.key, rel.joinSql))

/-- One round of the loop of `get_relationships`. -/
def addJoin (selected result : List String) (e : DictEntry String String) : Except String (List String) :=
  (unpackPair (splitArrow e.1)).map fun sides =>
    if sides.1 ∈ selected ∧ sides.2 ∈ selected then result ++ [e.2] else result

/-- **`SchemaRegistry.get_relationships`.** -/
def getRelationships (S : SchemaConfig) (selectedTables : List String) : Except String (List String) :=
  S.relationshipsMap.entries.foldlM (addJoin selectedTables) []

/-- **What the selection should give**: the `JOIN` text of every entry between two selected tables, in
file order. -/
def SchemaConfig.joinsAmong (S : SchemaConfig) (selectedTables : List String) : List String :=
  (S.relationships.filter fun rel =>
    decide (rel.fromTable ∈ selectedTables) && decide (rel.toTable ∈ selectedTables)).map (·.joinSql)

/-- **The text is cut between the names**: the separator does not begin before the one that was put in,
and the second name does not hold another. -/
structure SplitsBack (left right : List Char) : Prop where
  left_apart : ¬ arrow <:+: left
  left_end : ¬ [' ', '-', '>'] <:+ left
  right_apart : ¬ arrow <:+: right

/-- The two names whose text is cut into the same two, the other way round. -/
def RelationshipDefinition.Mirrored (rel : RelationshipDefinition) : Prop :=
  rel.fromTable = "-> ->" ∧ rel.toTable = "->"

/-! ## Where the text is cut -/

variable {left right l r : List Char}

/-- **Two readings of one text**: at the earlier cut the separator is inside the first name, or it ends in
the first character of the one that was put in. -/
theorem arrow_overlap (eq : l ++ (arrow ++ r) = left ++ (arrow ++ right)) (lt : l.length < left.length) :
    (∃ middle, left = l ++ (arrow ++ middle) ∧ r = middle ++ (arrow ++ right)) ∨
      (left = l ++ [' ', '-', '>'] ∧ r = ['-', '>', ' '] ++ right) := by
  obtain ⟨front, rfl, back⟩ | ⟨front, rfl, -⟩ := List.append_eq_append_iff.mp eq
  · -- by how many characters the first name goes on after the earlier cut begins
    rcases front with _ | ⟨a, _ | ⟨b, _ | ⟨c, _ | ⟨d, front⟩⟩⟩⟩
    · simp at lt
    · simp [arrow] at back
    · simp [arrow] at back
    · simp only [arrow, List.cons_append, List.nil_append, List.cons.injEq] at back
      obtain ⟨rfl, rfl, rfl, -, rfl⟩ := back
      exact .inr ⟨rfl, rfl⟩
    · simp only [arrow, List.cons_append, List.nil_append, List.cons.injEq] at back
      obtain ⟨rfl, rfl, rfl, rfl, rfl⟩ := back
      exact .inl ⟨front, rfl, rfl⟩
  · rw [List.length_append] at lt
    omega

/-- **Cut where it was joined.** -/
theorem pieces_of_splitsBack (h : SplitsBack left right) :
    pieces arrow 0 (left ++ (arrow ++ right)) = [left, right] := by
  obtain ⟨p, ps, cut⟩ := List.exists_cons_of_ne_nil (pieces_ne_nil arrow 0 (left ++ (arrow ++ right)))
  have joined := joinPieces_pieces (show arrow ≠ [] by decide)
    (Nat.zero_le (left ++ (arrow ++ right)).length)
  have apart := not_infix_pieces (show arrow ≠ [] by decide) 0 (left ++ (arrow ++ right))
  rw [cut, List.drop_zero] at joined
  rw [cut] at apart
  cases ps with
  | nil =>
    -- a text that holds the separator has two pieces at least
    refine absurd ?_ (apart p List.mem_cons_self)
    rw [show p = left ++ (arrow ++ right) from joined]
    exact ⟨left, right, by rw [List.append_assoc]⟩
  | cons q rest =>
    rw [joinPieces_cons (List.cons_ne_nil q rest)] at joined
    have short := head_pieces_length_le cut (by decide)
    obtain lt | same := Nat.lt_or_eq_of_le short
    · obtain ⟨middle, inside, -⟩ | ⟨eq, -⟩ := arrow_overlap joined lt
      · exact absurd ⟨p, middle, by rw [inside, List.append_assoc]⟩ h.left_apart
      · exact absurd ⟨p, eq.symm⟩ h.left_end
    · obtain ⟨rfl, tail⟩ := List.append_inj joined same
      have last := List.append_cancel_left tail
      cases rest with
      | nil => rw [cut, show q = right from last]
      | cons s rest =>
        refine absurd ?_ h.right_apart
        rw [← last, joinPieces_cons (List.cons_ne_nil s rest)]
        exact ⟨q, _, by rw [List.append_assoc]⟩

/-- **Cut three characters early**: what the pieces are when the first name ends as the separator
begins. -/
structure Shifted (left right l r : List Char) : Prop where
  left_eq : left = l ++ [' ', '-', '>']
  right_eq : r = ['-', '>', ' '] ++ right
  right_start : ¬ ['-', '>', ' '] <+: right
  left_end : ¬ [' ', '-', '>'] <:+ l

/-- **A text that is cut into two** is cut where it was joined, or three characters early. -/
theorem splitsBack_or_shifted (cut : pieces arrow 0 (left ++ (arrow ++ right)) = [l, r]) :
    (l = left ∧ r = right ∧ SplitsBack left right) ∨ Shifted left right l r := by
  have joined := joinPieces_pieces (show arrow ≠ [] by decide)
    (Nat.zero_le (left ++ (arrow ++ right)).length)
  have apart := not_infix_pieces (show arrow ≠ [] by decide) 0 (left ++ (arrow ++ right))
  rw [cut, List.drop_zero] at joined
  rw [cut] at apart
  have joined : l ++ (arrow ++ r) = left ++ (arrow ++ right) := joined
  have l_apart : ¬ arrow <:+: l := apart l List.mem_cons_self
  have r_apart : ¬ arrow <:+: r := apart r (List.mem_cons_of_mem _ List.mem_cons_self)
  -- the separator does not begin before the cut, so the first piece does not end as it begins
  have l_end : ¬ [' ', '-', '>'] <:+ l := by
    rintro ⟨front, rfl⟩
    have early : left ++ (arrow ++ right) = front ++ (arrow ++ (['-', '>', ' '] ++ r)) := by
      rw [← joined]
      simp [arrow]
    have short := head_pieces_length_le (early ▸ cut) (by decide)
    rw [List.length_append, List.length_cons] at short
    omega
  have short := head_pieces_length_le cut (by decide)
  obtain lt | same := Nat.lt_or_eq_of_le short
  · obtain ⟨middle, -, inside⟩ | ⟨left_eq, right_eq⟩ := arrow_overlap joined lt
    · exact absurd ⟨middle, right, by rw [inside, List.append_assoc]⟩ r_apart
    · refine .inr ⟨left_eq, right_eq, ?_, l_end⟩
      rintro ⟨rest, rfl⟩
      refine r_apart ?_
      rw [right_eq]
      exact ⟨['-', '>'], rest, by simp [arrow]⟩
  · obtain ⟨rfl, tail⟩ := List.append_inj joined same
    obtain rfl := List.append_cancel_left tail
    exact .inl ⟨rfl, rfl, l_apart, l_end, r_apart⟩

/-! ## The loop over the dictionary -/

theorem unpackPair_ok_iff {α : Type*} {parts : List α} {sides : α × α} :
    unpackPair parts = .ok sides ↔ parts = [sides.1, sides.2] := by
  rcases parts with _ | ⟨a, _ | ⟨b, _ | ⟨c, rest⟩⟩⟩
  · simp [unpackPair]
  · simp [unpackPair]
  · obtain ⟨x, y⟩ := sides
    simp [unpackPair]
  · simp [unpackPair]

variable {selected : List String}

/-- Both sides of the text are selected. -/
def joinsSelected (selected : List String) (name : String) : Bool :=
  (splitArrow name).all fun side => decide (side ∈ selected)

/-- One round: the text is cut into two, and the join is added when both are selected. -/
theorem addJoin_ok_iff {e : DictEntry String String} {result next : List String} :
    addJoin selected result e = .ok next ↔ (splitArrow e.1).length = 2 ∧
      next = result ++ ([e].filter fun e => joinsSelected selected e.1).map (·.2) := by
  have singly : ([e].filter fun e => joinsSelected selected e.1).map (·.2) =
      if joinsSelected selected e.1 then [e.2] else [] := by
    rw [List.filter_singleton]
    cases joinsSelected selected e.1 <;> rfl
  rw [singly]
  unfold addJoin joinsSelected
  generalize splitArrow e.1 = parts
  rcases parts with _ | ⟨a, _ | ⟨b, _ | ⟨c, rest⟩⟩⟩
  · simp [unpackPair, Except.map]
  · simp [unpackPair, Except.map]
  · simp only [unpackPair, Except.map, Except.ok.injEq]
    rw [eq_comm]
    by_cases both : a ∈ selected ∧ b ∈ selected <;> simp [both]
  · simp [unpackPair, Except.map]

/-- **The whole loop**: it ends when every text is cut into two, with the joins of the selected ones. -/
theorem foldlM_addJoin_ok_iff {es : List (DictEntry String String)} {result out : List String} :
    es.foldlM (addJoin selected) result = .ok out ↔ (∀ e ∈ es, (splitArrow e.1).length = 2) ∧
      out = result ++ (es.filter fun e => joinsSelected selected e.1).map (·.2) := by
  induction es generalizing result with
  | nil =>
    rw [List.foldlM_nil]
    simp [pure, Except.pure, eq_comm]
  | cons e es ih =>
    rw [List.foldlM_cons, bind_ok_iff]
    constructor
    · rintro ⟨next, first, rest⟩
      obtain ⟨two, rfl⟩ := addJoin_ok_iff.mp first
      obtain ⟨all_two, rfl⟩ := ih.mp rest
      refine ⟨List.forall_mem_cons.mpr ⟨two, all_two⟩, ?_⟩
      rw [List.append_assoc, ← List.map_append, ← List.filter_append, List.singleton_append]
    · rintro ⟨all_two, rfl⟩
      obtain ⟨two, all_two⟩ := List.forall_mem_cons.mp all_two
      refine ⟨_, addJoin_ok_iff.mpr ⟨two, rfl⟩, ih.mpr ⟨all_two, ?_⟩⟩
      rw [List.append_assoc, ← List.map_append, ← List.filter_append, List.singleton_append]

/-! ## Distinct texts -/

/-- **A dictionary as long as its assignments** has them all: their keys were distinct. -/
theorem nodup_keys_of_length_le (pairs : List (String × String))
    (le : pairs.length ≤ (OrderedDict.ofPairs pairs).entries.length) : (pairs.map (·.1)).Nodup := by
  have inside : (OrderedDict.ofPairs pairs).keys ⊆ pairs.map (·.1) := by
    intro key mem
    obtain ⟨pair, assigned, rfl⟩ := OrderedDict.mem_ofPairs.mp mem
    exact List.mem_map_of_mem assigned
  have nodup : (OrderedDict.ofPairs pairs).keys.Nodup := (OrderedDict.ofPairs pairs).nodupKeys
  have sub := List.subperm_of_subset nodup inside
  have perm := sub.perm_of_length_le (by simpa [AList.keys, List.keys] using le)
  exact perm.nodup_iff.mp nodup

variable {S : SchemaConfig}

/-- What the loop gives when the texts are distinct. -/
theorem getRelationships_ok_iff (distinct : (S.relationships.map (·.key)).Nodup) {out : List String} :
    getRelationships S selected = .ok out ↔
      (∀ rel ∈ S.relationships, (splitArrow rel.key).length = 2) ∧
        out = (S.relationships.filter fun rel => joinsSelected selected rel.key).map (·.joinSql) := by
  have entries : S.relationshipsMap.entries = S.relationships.map fun rel => ⟨rel.key, rel.joinSql⟩ := by
    rw [SchemaConfig.relationshipsMap, OrderedDict.entries_ofPairs (by rwa [List.map_map]), List.map_map]
    rfl
  rw [getRelationships, foldlM_addJoin_ok_iff, entries, List.forall_mem_map, List.filter_map, List.map_map,
    List.nil_append]
  rfl

/-- Every table the relationships name. -/
def SchemaConfig.relatedTables (S : SchemaConfig) : List String :=
  S.relationships.flatMap fun rel => [rel.fromTable, rel.toTable]

/-- When no selection loses an entry, the texts are distinct: select every table. -/
theorem distinct_of_complete
    (complete : ∀ selected, getRelationships S selected = .ok (S.joinsAmong selected)) :
    (S.relationships.map (·.key)).Nodup := by
  have all := complete S.relatedTables
  obtain ⟨-, out⟩ := foldlM_addJoin_ok_iff.mp all
  have whole : S.joinsAmong S.relatedTables = S.relationships.map (·.joinSql) := by
    rw [SchemaConfig.joinsAmong, List.filter_eq_self.mpr]
    intro rel mem
    have named : ∀ name ∈ [rel.fromTable, rel.toTable], name ∈ S.relatedTables := fun name h =>
      List.mem_flatMap.mpr ⟨rel, mem, h⟩
    simp [named]
  have lengths := congrArg List.length out
  rw [whole, List.nil_append, List.length_map, List.length_map] at lengths
  have le := List.length_filter_le (fun e => joinsSelected S.relatedTables e.1) S.relationshipsMap.entries
  have nodup := nodup_keys_of_length_le (S.relationships.map fun rel => (rel.key, rel.joinSql))
    (by rw [List.length_map]; exact lengths ▸ le)
  rwa [List.map_map] at nodup

/-! ## Names that are cut elsewhere -/

/-- What the pieces of a key of two parts are. -/
theorem splitArrow_key_cases {rel : RelationshipDefinition} (two : (splitArrow rel.key).length = 2) :
    (splitArrow rel.key = [rel.fromTable, rel.toTable] ∧
        SplitsBack rel.fromTable.toList rel.toTable.toList) ∨
      ∃ l r : String, splitArrow rel.key = [l, r] ∧
        Shifted rel.fromTable.toList rel.toTable.toList l.toList r.toList := by
  unfold splitArrow RelationshipDefinition.key at two ⊢
  rw [List.length_map, String.toList_ofList] at two
  obtain ⟨l, r, cut⟩ := List.length_eq_two.mp two
  rw [String.toList_ofList, cut]
  obtain ⟨rfl, rfl, back⟩ | shifted := splitsBack_or_shifted cut
  · exact .inl ⟨by simp, back⟩
  · exact .inr ⟨String.ofList l, String.ofList r, rfl, by simpa using shifted⟩

/-- **Counts that agree**: where one property includes the other and as many elements have it, they are
the same. -/
theorem imp_of_countP_eq {α : Type*} {p q : α → Bool} {l : List α}
    (imp : ∀ x ∈ l, p x = true → q x = true) (eq : l.countP p = l.countP q) :
    ∀ x ∈ l, q x = true → p x = true := by
  induction l with
  | nil => exact fun x mem => absurd mem List.not_mem_nil
  | cons a l ih =>
    obtain ⟨first, rest⟩ := List.forall_mem_cons.mp imp
    have le := List.countP_mono_left rest
    rw [List.countP_cons, List.countP_cons] at eq
    have same : p a = q a := by
      cases hp : p a with
      | true => exact (first hp).symm
      | false =>
        cases hq : q a with
        | false => rfl
        | true =>
          -- the first of the two would be counted once on the right only
          rw [hp, hq, if_neg Bool.false_ne_true, if_pos rfl] at eq
          omega
    rw [same, Nat.add_right_cancel_iff] at eq
    exact List.forall_mem_cons.mpr ⟨fun hq => same.trans hq, ih rest eq⟩

/-- **As many relationships join selected tables by their texts as by their names**, whatever names are
selected. -/
theorem countP_sides (complete : ∀ selected, getRelationships S selected = .ok (S.joinsAmong selected))
    (good : String → Bool) :
    S.relationships.countP (fun rel => (splitArrow rel.key).all good) =
      S.relationships.countP fun rel => good rel.fromTable && good rel.toTable := by
  -- the names that are good, of the tables and of the pieces
  let names := S.relationships.flatMap fun rel => rel.fromTable :: rel.toTable :: splitArrow rel.key
  have chosen : ∀ rel ∈ S.relationships, ∀ name ∈ rel.fromTable :: rel.toTable :: splitArrow rel.key,
      decide (name ∈ names.filter good) = good name := by
    intro rel mem name named
    have mem_names : name ∈ names := List.mem_flatMap.mpr ⟨rel, mem, named⟩
    simp [List.mem_filter, mem_names]
  obtain ⟨-, out⟩ := (getRelationships_ok_iff (distinct_of_complete complete)).mp (complete (names.filter good))
  have lengths := congrArg List.length out
  rw [SchemaConfig.joinsAmong, List.length_map, List.length_map, ← List.countP_eq_length_filter,
    ← List.countP_eq_length_filter] at lengths
  calc S.relationships.countP (fun rel => (splitArrow rel.key).all good)
      = S.relationships.countP (fun rel => joinsSelected (names.filter good) rel.key) := by
        refine List.countP_congr fun rel mem => ?_
        rw [joinsSelected, List.all_eq_true, List.all_eq_true]
        refine forall₂_congr fun name h => ?_
        rw [chosen rel mem name (List.mem_cons_of_mem _ (List.mem_cons_of_mem _ h))]
    _ = S.relationships.countP (fun rel => decide (rel.fromTable ∈ names.filter good) &&
          decide (rel.toTable ∈ names.filter good)) := lengths.symm
    _ = S.relationships.countP (fun rel => good rel.fromTable && good rel.toTable) := by
        refine List.countP_congr fun rel mem => ?_
        rw [chosen rel mem _ List.mem_cons_self,
          chosen rel mem _ (List.mem_cons_of_mem _ List.mem_cons_self)]

/-- A prefix of three that reaches over the end of a shorter text. -/
theorem prefix_three_cases {a b c : Char} {u v : List Char} (h : [a, b, c] <+: u ++ v)
    (outside : ¬ [a, b, c] <+: u) :
    (u = [] ∧ [a, b, c] <+: v) ∨ (u = [a] ∧ [b, c] <+: v) ∨ (u = [a, b] ∧ [c] <+: v) := by
  rcases u with _ | ⟨x, _ | ⟨y, _ | ⟨z, u⟩⟩⟩
  · exact .inl ⟨rfl, h⟩
  · simp only [List.cons_append, List.nil_append, List.cons_prefix_cons] at h
    obtain ⟨rfl, h⟩ := h
    exact .inr (.inl ⟨rfl, h⟩)
  · simp only [List.cons_append, List.nil_append, List.cons_prefix_cons] at h
    exact .inr (.inr ⟨by rw [h.1, h.2.1], by simpa [List.cons_prefix_cons] using h.2.2⟩)
  · simp only [List.cons_append, List.cons_prefix_cons, List.nil_prefix, and_true] at h outside
    exact absurd h outside

/-- **The two names of a shifted cut, told by how they begin and end.** -/
theorem Shifted.mirrored (h : Shifted left right l r) (left_start : ['-', '>', ' '] <+: left)
    (r_end : [' ', '-', '>'] <:+ r) (l_start : ¬ ['-', '>', ' '] <+: l)
    (right_end : ¬ [' ', '-', '>'] <:+ right) :
    left = "-> ->".toList ∧ right = "->".toList := by
  rw [h.left_eq] at left_start
  rw [h.right_eq, ← List.reverse_prefix, List.reverse_append] at r_end
  rw [← List.reverse_prefix] at right_end
  have l_eq : l = ['-', '>'] := by
    obtain ⟨-, h⟩ | ⟨-, h⟩ | ⟨eq, -⟩ := prefix_three_cases left_start l_start
    · exact absurd h (by decide)
    · exact absurd h (by decide)
    · exact eq
  have right_eq : right.reverse = ['>', '-'] := by
    obtain ⟨-, h⟩ | ⟨-, h⟩ | ⟨eq, -⟩ := prefix_three_cases r_end right_end
    · exact absurd h (by decide)
    · exact absurd h (by decide)
    · exact eq
  constructor
  · rw [h.left_eq, l_eq]
    rfl
  · rw [← List.reverse_reverse right, right_eq]
    rfl

section
variable (complete : ∀ selected, getRelationships S selected = .ok (S.joinsAmong selected))
include complete

/-- A property of names that a shifted cut can only lose on the way to the pieces is kept by them. -/
theorem good_pieces (good : String → Prop) [DecidablePred good]
    (imp : ∀ f t l r : String, Shifted f.toList t.toList l.toList r.toList →
      good l ∧ good r → good f ∧ good t)
    {rel : RelationshipDefinition} (mem : rel ∈ S.relationships) {l r : String}
    (cut : splitArrow rel.key = [l, r]) (names : good rel.fromTable ∧ good rel.toTable) :
    good l ∧ good r := by
  obtain ⟨two, -⟩ := (getRelationships_ok_iff (distinct_of_complete complete)).mp (complete [])
  have back := imp_of_countP_eq (fun rel mem h => by
    obtain ⟨cut, -⟩ | ⟨l, r, cut, shifted⟩ := splitArrow_key_cases (two rel mem)
    · simpa [cut] using h
    · simpa using imp _ _ l r shifted (by simpa [cut] using h))
    (countP_sides complete fun name => decide (good name)) rel mem (by simpa using names)
  simpa [cut] using back

/-- A property of names that a shifted cut can only lose on the way from the pieces holds of the names. -/
theorem good_names (good : String → Prop) [DecidablePred good]
    (imp : ∀ f t l r : String, Shifted f.toList t.toList l.toList r.toList →
      good f ∧ good t → good l ∧ good r)
    {rel : RelationshipDefinition} (mem : rel ∈ S.relationships) {l r : String}
    (cut : splitArrow rel.key = [l, r]) (sides : good l ∧ good r) :
    good rel.fromTable ∧ good rel.toTable := by
  obtain ⟨two, -⟩ := (getRelationships_ok_iff (distinct_of_complete complete)).mp (complete [])
  have names := imp_of_countP_eq (fun rel mem h => by
    obtain ⟨cut, -⟩ | ⟨l, r, cut, shifted⟩ := splitArrow_key_cases (two rel mem)
    · simpa [cut] using h
    · simpa [cut] using imp _ _ l r shifted (by simpa using h))
    (countP_sides complete fun name => decide (good name)).symm rel mem (by simpa [cut] using sides)
  simpa using names

/-- **When no selection loses an entry, each text is cut where it was joined**, or into the same two
names. A shifted cut would change how many relationships there are among the names that begin, or do not
begin, or end, or do not end as the separator does. -/
theorem splitsBack_of_complete {rel : RelationshipDefinition} (mem : rel ∈ S.relationships) :
    SplitsBack rel.fromTable.toList rel.toTable.toList ∨ rel.Mirrored := by
  obtain ⟨two, -⟩ := (getRelationships_ok_iff (distinct_of_complete complete)).mp (complete [])
  obtain ⟨-, back⟩ | ⟨l, r, cut, shifted⟩ := splitArrow_key_cases (two rel mem)
  · exact .inl back
  · have r_begins : ∀ {f t l r : String}, Shifted f.toList t.toList l.toList r.toList →
        ['-', '>', ' '] <+: r.toList := fun h => h.right_eq ▸ List.prefix_append _ _
    have left_ends : ∀ {f t l r : String}, Shifted f.toList t.toList l.toList r.toList →
        [' ', '-', '>'] <:+ f.toList := fun h => h.left_eq ▸ List.suffix_append _ _
    have left_begins : ['-', '>', ' '] <+: rel.fromTable.toList := by
      by_contra none
      exact (good_pieces complete (fun name => ¬ ['-', '>', ' '] <+: name.toList)
        (fun _ _ _ _ h good => absurd (r_begins h) good.2) mem cut
        ⟨none, shifted.right_start⟩).2 (r_begins shifted)
    have r_ends : [' ', '-', '>'] <:+ r.toList := by
      by_contra none
      exact (good_names complete (fun name => ¬ [' ', '-', '>'] <:+ name.toList)
        (fun _ _ _ _ h good => absurd (left_ends h) good.1) mem cut
        ⟨shifted.left_end, none⟩).1 (left_ends shifted)
    have l_begins : ¬ ['-', '>', ' '] <+: l.toList := fun begins =>
      shifted.right_start (good_names complete (fun name => ['-', '>', ' '] <+: name.toList)
        (fun _ _ _ _ h good => absurd good.2 h.right_start) mem cut ⟨begins, r_begins shifted⟩).2
    have right_ends : ¬ [' ', '-', '>'] <:+ rel.toTable.toList := fun ends =>
      shifted.left_end (good_pieces complete (fun name => [' ', '-', '>'] <:+ name.toList)
        (fun _ _ _ _ h good => absurd good.1 h.left_end) mem cut ⟨left_ends shifted, ends⟩).1
    obtain ⟨left_eq, right_eq⟩ := shifted.mirrored left_begins r_ends l_begins right_ends
    exact .inr ⟨String.toList_inj.mp left_eq, String.toList_inj.mp right_eq⟩

end

/-- The texts that are cut into the two names select as the names do. -/
theorem joinsSelected_key (selected : List String) {rel : RelationshipDefinition}
    (h : SplitsBack rel.fromTable.toList rel.toTable.toList ∨ rel.Mirrored) :
    (splitArrow rel.key).length = 2 ∧ joinsSelected selected rel.key =
      (decide (rel.fromTable ∈ selected) && decide (rel.toTable ∈ selected)) := by
  obtain back | ⟨left, right⟩ := h
  · have cut : splitArrow rel.key = [rel.fromTable, rel.toTable] := by
      rw [splitArrow, RelationshipDefinition.key, String.toList_ofList, pieces_of_splitsBack back]
      simp
    rw [joinsSelected, cut]
    simp
  · have cut : splitArrow rel.key = [rel.toTable, rel.fromTable] := by
      rw [splitArrow, RelationshipDefinition.key, left, right]
      decide
    rw [joinsSelected, cut, Bool.and_comm]
    simp

/-- **No relationship is lost exactly when the texts are distinct and each is cut where it was joined.**
Two entries between the same two tables have one text, and a name that holds the separator, or ends as it
begins, moves the cut; some selection then shows it. -/
theorem getRelationships_complete_iff (S : SchemaConfig) :
    (∀ selected, getRelationships S selected = .ok (S.joinsAmong selected)) ↔
      (S.relationships.map (·.key)).Nodup ∧ ∀ rel ∈ S.relationships,
        SplitsBack rel.fromTable.toList rel.toTable.toList ∨ rel.Mirrored := by
  constructor
  · exact fun complete => ⟨distinct_of_complete complete, fun rel mem => splitsBack_of_complete complete mem⟩
  · rintro ⟨distinct, back⟩ selected
    refine (getRelationships_ok_iff distinct).mpr
      ⟨fun rel mem => (joinsSelected_key selected (back rel mem)).1, ?_⟩
    rw [SchemaConfig.joinsAmong, List.filter_congr fun rel mem =>
      ((joinsSelected_key selected (back rel mem)).2).symm]

/-- Two relationships between an order and its dates. -/
def twoDates : SchemaConfig where
  tables := ∅
  relationships := [⟨"Order", "Date", "JOIN [Date] ON [Order].[PlacedOn] = [Date].[ID]"⟩,
    ⟨"Order", "Date", "JOIN [Date] ON [Order].[ShippedOn] = [Date].[ID]"⟩]

/-- The first of two relationships between the same two tables is lost, in a file that is valid. -/
theorem first_join_lost : ¬ ∀ (N : NameReader) (S : SchemaConfig), S.Valid N → ∀ selected,
    getRelationships S selected = .ok (S.joinsAmong selected) := by
  intro complete
  have valid : twoDates.Valid ⟨fun key => ⟨[], key⟩, asciiCase⟩ :=
    ⟨fun e mem => absurd mem List.not_mem_nil, List.Pairwise.nil⟩
  have lost : getRelationships twoDates ["Order", "Date"] ≠
      .ok (twoDates.joinsAmong ["Order", "Date"]) := by decide
  exact lost (complete _ twoDates valid ["Order", "Date"])

end LocalSqlAgent
