import Mathlib.Data.List.Infix
import Mathlib.Data.List.MinMax
import Mathlib.Data.Prod.Lex
import Mathlib.Order.OrderDual
import LocalSqlAgent.Core.LetterForms
import LocalSqlAgent.Lib.RankedPairing

/-! # Choosing the data source of a question

`retrieval.source_selector`: with several data sources a question is answered from one of them. The words of
the question are counted against each source's keywords, the tables retrieval found are scored, and a
follow-up turn prefers the source of the turn before. Scores are floats in the source; here they have any
linearly ordered type with an addition.

* **`keywordHits`**, **`retrievalScores`**: the two counts.
* **`selectSource`**: the choice, in its four stages.
* **`Outranks`**: one order over the sources: hits, then the previous source, then the score, then the order of
  the configuration.
* **`selectSource_best`**: the four stages choose the first of that order, and list the others by hits, score
  and configuration. -/

namespace LocalSqlAgent

universe u

/-! ## Keywords -/

section Keywords

variable (T : CharTable) (isAlpha : Char → Bool)

/-- `_PLURAL_SUFFIXES`. -/
def pluralSuffixes : List (List Char) :=
  ["هایشان", "هایمان", "هایتان", "هایش", "هایم", "هایت", "هایی", "های", "ها"].map String.toList

/-- `strip_plural_suffix`; `isAlpha` is `str.isalpha` on one character. -/
def stripPluralSuffix (token : List Char) : List Char :=
  if token.all (·.toNat < 128) then token
  else
    match pluralSuffixes.find? (·.isSuffixOf token) with
    | none => token
    | some suffix =>
      let stem := token.take (token.length - suffix.length)
      if 3 ≤ stem.length ∧ stem.all isAlpha then stem else token

/-- `_WORD_RE.sub`: every run of word characters is replaced by what `f` makes of it; `word` is the run read so
far, reversed. -/
def mapWords (f : List Char → List Char) (word : List Char) : List Char → List Char
  | [] => if word = [] then [] else f word.reverse
  | c :: cs =>
    if T.isWord c then mapWords f (c :: word) cs
    else (if word = [] then [] else f word.reverse) ++ c :: mapWords f [] cs

/-- The pattern `(?<!\w)phrase(?!\w)` is found behind a character. -/
def occursAsWords (phrase : List Char) (b : Option Char) : List Char → Bool
  | [] => false
  | c :: cs =>
    (!b.any T.isWord && phrase.isPrefixOf (c :: cs) &&
      !((c :: cs).drop phrase.length).head?.any T.isWord) || occursAsWords phrase (some c) cs

/-- `keyword_hits` of one source; `fold` is `normalize_for_matching`. -/
def keywordHits (fold : List Char → List Char) (question : List Char) (phrases : List (List Char)) : ℕ :=
  let text := fold question
  let stemmed := mapWords T (stripPluralSuffix isAlpha) [] text
  phrases.countP fun phrase =>
    fold phrase ≠ [] && (occursAsWords T (fold phrase) none text || occursAsWords T (fold phrase) none stemmed)

example : keywordHits .ascii Char.isAlpha id "stock level today".toList
    ["stock level".toList, "bin".toList, "stock".toList, "lev".toList] = 2 := by decide

end Keywords

/-! ## Scores -/

section Scores

variable {σ : Type u} [Zero σ] [Add σ]

/-- `_table_of`: the table a key names, or the key without its last dotted part. -/
def tableOf (known : String → Bool) (identifier : String) : Option String :=
  if known identifier then some identifier
  else
    let head := String.ofList (identifier.toList.take ((rfindChar '.' identifier.toList).getD 0))
    if known head then some head else none

/-- The tables that give a point: those retrieval selected and those whose values matched. -/
def creditedTables (tableSets : String → Option (List String)) (selected resolved : List String) : List String :=
  selected.filter (fun t => (tableSets t).isSome) ++
    resolved.filterMap (tableOf fun t => (tableSets t).isSome)

/-- `retrieval_scores` of one source: a table gives `share n`, that is `1 / n`, to each of its `n` sources. -/
def retrievalScore (share : ℕ → σ) (tableSets : String → Option (List String)) (selected resolved : List String)
    (source : String) : σ :=
  (creditedTables tableSets selected resolved).foldl (fun score table =>
    let owners := (tableSets table).getD []
    owners.foldl (fun score owner => if owner = source then score + share owners.length else score) score) 0

end Scores

/-! ## The choice -/

/-- Why a source was chosen. -/
inductive SelectionReason where
  | keyword
  | session
  | retrieval
  | default
  deriving DecidableEq

/-- `SourceSelection`. -/
structure SourceSelection where
  /-- `chosen`. -/
  chosen : String
  /-- `reason`. -/
  reason : SelectionReason
  /-- `candidates`. -/
  candidates : List String
  deriving DecidableEq

section Choice

variable {σ : Type u} [LinearOrder σ] [Zero σ] (hits : String → ℕ) (score : String → σ) (sources : List String)
  (previous : Option String)

/-- The sources of a list with the highest value. -/
def highest {κ : Type*} [LinearOrder κ] (f : String → κ) (pool : List String) : List String :=
  pool.filter fun s => (pool.map f).maximum = f s

/-- `max(hits.values())`. -/
def bestHits : ℕ := (sources.map hits).maximum.unbotD 0

/-- What the keywords leave standing. -/
def keywordPool : List String := if 0 < bestHits hits sources then highest hits sources else sources

/-- `ranked`. -/
def rankedSources : List String :=
  sortByKey (fun s => toLex (OrderDual.toDual (hits s), toLex (OrderDual.toDual (score s), sources.idxOf s))) sources

/-- `finish`. -/
def finishSelection (chosen : String) (reason : SelectionReason) : SourceSelection where
  chosen := chosen
  reason := reason
  candidates := chosen :: (rankedSources hits score sources).filter (· ≠ chosen)

/-- The last two stages: the retrieval evidence, else the first of the leaders. -/
def byScore (pool : List String) : Option (String × SelectionReason) :=
  (highest score pool).head?.map fun s =>
    (s, if 0 < score s ∧ (highest score pool).length = 1 then .retrieval else .default)

/-- The source and the stage that decided. -/
def decideSource : Option (String × SelectionReason) :=
  let pool := keywordPool hits sources
  if 0 < bestHits hits sources ∧ pool.length = 1 then pool.head?.map fun s => (s, .keyword)
  else
    match previous.filter (· ∈ pool) with
    | some s => some (s, .session)
    | none => byScore score pool

/-- **`select_source`**; `none` where it raises, with no source. -/
def selectSource : Option SourceSelection :=
  (decideSource hits score sources previous).map fun decided =>
    finishSelection hits score sources decided.1 decided.2

end Choice

/-! ## One order -/

section Order

variable {σ : Type u} [LinearOrder σ] [Zero σ] {hits : String → ℕ} {score : String → σ} {sources pool : List String}
  {previous : Option String} {s : String}

variable (hits score sources previous) in
/-- **One source comes before another**: more hits; at equal hits, being the source of the previous turn; then
the higher score; then the earlier place in the configuration. -/
def Outranks (s t : String) : Prop :=
  hits t < hits s ∨ hits t = hits s ∧
    (previous = some s ∨ previous ≠ some t ∧
      (score t < score s ∨ score t = score s ∧ sources.idxOf s < sources.idxOf t))

theorem mem_highest_iff {κ : Type*} [LinearOrder κ] {f : String → κ} :
    s ∈ highest f pool ↔ s ∈ pool ∧ ∀ t ∈ pool, f t ≤ f s := by
  rw [highest, List.mem_filter, decide_eq_true_iff, List.maximum_eq_coe_iff, List.forall_mem_map]
  exact ⟨fun h => ⟨h.1, h.2.2⟩, fun h => ⟨h.1, List.mem_map_of_mem h.1, h.2⟩⟩

theorem exists_mem_highest {κ : Type*} [LinearOrder κ] (f : String → κ) (hpool : pool ≠ []) :
    ∃ s, s ∈ highest f pool := by
  obtain ⟨m, hm⟩ := WithBot.ne_bot_iff_exists.mp (mt List.maximum_eq_bot.mp (by simpa using hpool) :
    (pool.map f).maximum ≠ ⊥)
  obtain ⟨s, hs, hsm⟩ := List.mem_map.mp (List.maximum_mem hm.symm)
  refine ⟨s, List.mem_filter.mpr ⟨hs, decide_eq_true ?_⟩⟩
  rw [hsm, hm]

theorem le_bestHits (hs : s ∈ sources) : hits s ≤ bestHits hits sources := by
  unfold bestHits
  have hle := List.le_maximum_of_mem' (List.mem_map_of_mem (f := hits) hs)
  cases hmax : (sources.map hits).maximum with
  | bot => simp [hmax] at hle
  | coe m => simpa [hmax] using hle

/-- The pool holds the sources that no other has more hits than. -/
theorem mem_keywordPool_iff : s ∈ keywordPool hits sources ↔ s ∈ sources ∧ ∀ t ∈ sources, hits t ≤ hits s := by
  unfold keywordPool
  split
  · exact mem_highest_iff
  · rename_i hzero
    refine ⟨fun hs => ⟨hs, fun t ht => ?_⟩, fun h => h.1⟩
    exact (le_bestHits ht).trans ((Nat.le_of_not_lt hzero).trans (Nat.zero_le _))

theorem keywordPool_ne_nil (hsources : sources ≠ []) : keywordPool hits sources ≠ [] := by
  obtain ⟨s, hs⟩ := exists_mem_highest hits hsources
  exact List.ne_nil_of_mem (mem_keywordPool_iff.mpr (mem_highest_iff.mp hs))

/-- The first of a sublist stands before the others in the whole list. -/
theorem idxOf_lt_of_sublist {front : String} {l : List String} (hnodup : sources.Nodup)
    (hsub : (front :: l).Sublist sources) : ∀ t ∈ l, sources.idxOf front < sources.idxOf t := by
  intro t ht
  obtain ⟨before, behind, rfl, hfront, hl⟩ := List.cons_sublist_iff.mp hsub
  have htb : t ∈ behind := hl.mem ht
  have hta : t ∉ before := fun h => (List.nodup_append.mp hnodup).2.2 t h t htb rfl
  rw [List.idxOf_append_of_mem hfront, List.idxOf_append_of_notMem hta]
  have := List.idxOf_lt_length_of_mem hfront
  omega

theorem keywordPool_sublist : (keywordPool hits sources).Sublist sources := by
  unfold keywordPool highest
  split
  · exact List.filter_sublist
  · exact List.Sublist.refl _

/-- **The leaders by score**: the first of them comes before every other source of the pool. -/
theorem byScore_spec {reason : SelectionReason} (hnodup : sources.Nodup) (hsub : pool.Sublist sources)
    (h : byScore score pool = some (s, reason)) : s ∈ pool ∧ ∀ t ∈ pool, t ≠ s →
      score t < score s ∨ score t = score s ∧ sources.idxOf s < sources.idxOf t := by
  obtain ⟨first, hhead, heq⟩ := Option.map_eq_some_iff.mp h
  obtain rfl : first = s := congrArg Prod.fst heq
  obtain ⟨behind, hleaders⟩ := List.head?_eq_some_iff.mp hhead
  have hfirst : first ∈ highest score pool := by simp [hleaders]
  refine ⟨(mem_highest_iff.mp hfirst).1, fun t ht hne => ?_⟩
  have hle : score t ≤ score first := (mem_highest_iff.mp hfirst).2 t ht
  refine (lt_or_eq_of_le hle).imp_right fun heq => ⟨heq, ?_⟩
  have htop : t ∈ highest score pool :=
    mem_highest_iff.mpr ⟨ht, fun u hu => heq ▸ (mem_highest_iff.mp hfirst).2 u hu⟩
  have hleaderSub : (first :: behind).Sublist sources := by
    rw [← hleaders]
    exact List.filter_sublist.trans hsub
  rw [hleaders] at htop
  exact idxOf_lt_of_sublist hnodup hleaderSub t ((List.mem_cons.mp htop).resolve_left hne)

/-- **What the stages settle on**: a source of the pool, before every other one of it. -/
theorem decideSource_spec {reason : SelectionReason} (hnodup : sources.Nodup)
    (h : decideSource hits score sources previous = some (s, reason)) :
    s ∈ keywordPool hits sources ∧ ∀ t ∈ keywordPool hits sources, t ≠ s →
      previous = some s ∨ previous ≠ some t ∧
        (score t < score s ∨ score t = score s ∧ sources.idxOf s < sources.idxOf t) := by
  unfold decideSource at h
  dsimp only at h
  split at h
  · rename_i hsingle
    obtain ⟨first, hhead, heq⟩ := Option.map_eq_some_iff.mp h
    obtain rfl : first = s := congrArg Prod.fst heq
    obtain ⟨only, honly⟩ := List.length_eq_one_iff.mp hsingle.2
    rw [honly] at hhead ⊢
    cases hhead
    refine ⟨List.mem_singleton.mpr rfl, fun t ht hne => ?_⟩
    exact absurd (List.mem_singleton.mp ht) hne
  · split at h
    · rename_i found hfound
      cases h
      obtain ⟨hprevious, hpool⟩ := Option.filter_eq_some_iff.mp hfound
      exact ⟨of_decide_eq_true hpool, fun t _ _ => .inl hprevious⟩
    · rename_i hnone
      obtain ⟨hs, hbefore⟩ := byScore_spec hnodup keywordPool_sublist h
      refine ⟨hs, fun t ht hne => .inr ⟨?_, hbefore t ht hne⟩⟩
      rintro rfl
      simp [ht] at hnone

omit [Zero σ] in
theorem rankedSources_perm (hits : String → ℕ) (score : String → σ) (sources : List String) :
    (rankedSources hits score sources).Perm sources := sortByKey_perm _ _

omit [Zero σ] in
/-- The ranking is the order with no previous turn. -/
theorem rankedSources_pairwise (hnodup : sources.Nodup) :
    (rankedSources hits score sources).Pairwise (Outranks hits score sources none) := by
  have hperm := rankedSources_perm hits score sources
  refine List.Pairwise.imp_of_mem ?_ ((sortByKey_sorted _ sources).and (hperm.nodup_iff.mpr hnodup))
  rintro a b ha hb ⟨hle, hne⟩
  have hidx : sources.idxOf a ≠ sources.idxOf b :=
    fun heq => hne (List.idxOf_inj (hperm.mem_iff.mp ha) |>.mp heq)
  rw [Prod.Lex.toLex_le_toLex, Prod.Lex.toLex_le_toLex] at hle
  simp only [OrderDual.toDual_lt_toDual, OrderDual.toDual_inj] at hle
  rcases hle with hlt | ⟨heq, hlt | ⟨heq', hle⟩⟩
  · exact .inl hlt
  · exact .inr ⟨heq.symm, .inr ⟨by simp, .inl hlt⟩⟩
  · exact .inr ⟨heq.symm, .inr ⟨by simp, .inr ⟨heq'.symm, lt_of_le_of_ne hle hidx⟩⟩⟩

/-- **The choice is made in one order**: among distinct sources the one chosen comes before every other by the
number of its keywords in the question, then by having answered the previous turn, then by the tables retrieval
found, then by the configuration; and the candidates are all the sources, the others in that order with the
previous turn left aside. -/
theorem selectSource_best {selection : SourceSelection} (hnodup : sources.Nodup)
    (h : selectSource hits score sources previous = some selection) :
    selection.chosen ∈ sources ∧
      (∀ t ∈ sources, t ≠ selection.chosen → Outranks hits score sources previous selection.chosen t) ∧
      ∃ others, selection.candidates = selection.chosen :: others ∧
        selection.candidates.Perm sources ∧ others.Pairwise (Outranks hits score sources none) := by
  obtain ⟨⟨s, reason⟩, hdecided, rfl⟩ := Option.map_eq_some_iff.mp h
  obtain ⟨hpool, hbefore⟩ := decideSource_spec hnodup hdecided
  obtain ⟨hs, hmost⟩ := mem_keywordPool_iff.mp hpool
  refine ⟨hs, fun t ht hne => ?_, _, rfl, ?_, ?_⟩
  · refine (lt_or_eq_of_le (hmost t ht)).imp_right fun heq => ⟨heq, ?_⟩
    exact hbefore t (mem_keywordPool_iff.mpr ⟨ht, fun u hu => heq ▸ hmost u hu⟩) hne
  · have hranked := rankedSources_perm hits score sources
    refine .trans ?_ hranked
    rw [finishSelection, show (rankedSources hits score sources).filter (· ≠ s) =
      (rankedSources hits score sources).erase s by
        rw [(hranked.nodup_iff.mpr hnodup).erase_eq_filter]
        exact List.filter_congr fun t _ => by simp [bne, beq_eq_decide]]
    exact (List.perm_cons_erase (hranked.mem_iff.mpr hs)).symm
  · exact (rankedSources_pairwise hnodup).filter _

/-- The keywords single the source out. -/
def Singled (hits : String → ℕ) (sources : List String) (s : String) : Prop :=
  0 < hits s ∧ ∀ t ∈ sources, t ≠ s → hits t < hits s

/-- The evidence of retrieval singles the source out, among those with as many keywords. -/
def Evident (hits : String → ℕ) (score : String → σ) (sources : List String) (s : String) : Prop :=
  0 < score s ∧ ∀ t ∈ sources, t ≠ s → hits t = hits s → score t < score s

/-- **One source is left** exactly when its value is above that of every other. -/
theorem highest_single_iff {κ : Type*} [LinearOrder κ] {f : String → κ} (hnodup : pool.Nodup)
    (hs : s ∈ highest f pool) : (highest f pool).length = 1 ↔ ∀ t ∈ pool, t ≠ s → f t < f s := by
  obtain ⟨hpool, hmax⟩ := mem_highest_iff.mp hs
  constructor
  · intro hlength t ht hne
    obtain ⟨only, honly⟩ := List.length_eq_one_iff.mp hlength
    rw [honly, List.mem_singleton] at hs
    refine lt_of_le_of_ne (hmax t ht) fun heq => hne ?_
    have htop : t ∈ highest f pool := mem_highest_iff.mpr ⟨ht, fun u hu => heq ▸ hmax u hu⟩
    rw [honly, List.mem_singleton] at htop
    rw [htop, hs]
  · intro habove
    have hall : ∀ t ∈ highest f pool, t = s := by
      intro t ht
      by_contra hne
      obtain ⟨ht, hmax⟩ := mem_highest_iff.mp ht
      exact absurd (hmax s hpool) (not_le.mpr (habove t ht hne))
    have hperm : (highest f pool).Perm [s] := by
      refine (List.perm_ext_iff_of_nodup (hnodup.sublist List.filter_sublist) (List.nodup_singleton s)).mpr ?_
      intro t
      rw [List.mem_singleton]
      exact ⟨hall t, fun heq => heq ▸ hs⟩
    exact hperm.length_eq

theorem bestHits_eq (hs : s ∈ keywordPool hits sources) : bestHits hits sources = hits s := by
  obtain ⟨hmem, hmost⟩ := mem_keywordPool_iff.mp hs
  rw [bestHits, List.maximum_eq_coe_iff.mpr ⟨List.mem_map_of_mem hmem, List.forall_mem_map.mpr hmost⟩]
  rfl

theorem keywordPool_single_iff (hnodup : sources.Nodup) (hs : s ∈ keywordPool hits sources) :
    0 < bestHits hits sources ∧ (keywordPool hits sources).length = 1 ↔ Singled hits sources s := by
  rw [bestHits_eq hs, Singled]
  refine and_congr_right fun hpos => ?_
  have hpool : keywordPool hits sources = highest hits sources := by
    rw [keywordPool, bestHits_eq hs, if_pos hpos]
  rw [hpool] at hs ⊢
  exact highest_single_iff hnodup hs

/-- The sources of the pool are those with as many keywords. -/
theorem mem_keywordPool_iff_hits {t : String} (hs : s ∈ keywordPool hits sources) :
    t ∈ keywordPool hits sources ↔ t ∈ sources ∧ hits t = hits s := by
  obtain ⟨hmem, hmost⟩ := mem_keywordPool_iff.mp hs
  rw [mem_keywordPool_iff]
  refine and_congr_right fun ht => ⟨fun h => le_antisymm (hmost t ht) (h s hmem), fun heq u hu => ?_⟩
  exact heq ▸ hmost u hu

/-- **The recorded reason is the criterion that decided**: the keywords when they single the source out, else the
previous turn when it was answered from that source, else the evidence of retrieval when that singles it out. -/
theorem selectSource_reason {selection : SourceSelection} (hnodup : sources.Nodup)
    (h : selectSource hits score sources previous = some selection) :
    (selection.reason = .keyword ↔ Singled hits sources selection.chosen) ∧
    (selection.reason = .session ↔ ¬ Singled hits sources selection.chosen ∧ previous = some selection.chosen) ∧
    (selection.reason = .retrieval ↔ ¬ Singled hits sources selection.chosen ∧
      previous ≠ some selection.chosen ∧ Evident hits score sources selection.chosen) := by
  obtain ⟨⟨s, reason⟩, hdecided, rfl⟩ := Option.map_eq_some_iff.mp h
  obtain ⟨hpool, -⟩ := decideSource_spec hnodup hdecided
  change (reason = .keyword ↔ Singled hits sources s) ∧
    (reason = .session ↔ ¬ Singled hits sources s ∧ previous = some s) ∧
    (reason = .retrieval ↔ ¬ Singled hits sources s ∧ previous ≠ some s ∧ Evident hits score sources s)
  unfold decideSource at hdecided
  dsimp only at hdecided
  split at hdecided
  · rename_i hsingle
    have hsingled := (keywordPool_single_iff hnodup hpool).mp hsingle
    obtain ⟨first, -, heq⟩ := Option.map_eq_some_iff.mp hdecided
    cases heq
    simp [hsingled]
  · rename_i hsingle
    have hsingled := mt (keywordPool_single_iff hnodup hpool).mpr hsingle
    split at hdecided
    · rename_i found hfound
      cases hdecided
      have hprevious := (Option.filter_eq_some_iff.mp hfound).1
      simp [hsingled, hprevious]
    · rename_i hnone
      have hprevious : previous ≠ some s := by
        rintro rfl
        simp [hpool] at hnone
      obtain ⟨first, hhead, heq⟩ := Option.map_eq_some_iff.mp hdecided
      cases heq
      have hevident : 0 < score s ∧ (highest score (keywordPool hits sources)).length = 1 ↔
          Evident hits score sources s := by
        rw [highest_single_iff (hnodup.sublist keywordPool_sublist) (List.mem_of_head? hhead), Evident]
        refine and_congr_right fun _ => ⟨fun habove t ht hne heq => ?_, fun habove t ht hne => ?_⟩
        · exact habove t ((mem_keywordPool_iff_hits hpool).mpr ⟨ht, heq⟩) hne
        · obtain ⟨ht, heq⟩ := (mem_keywordPool_iff_hits hpool).mp ht
          exact habove t ht hne heq
      split
      · rename_i hscore
        simp [hsingled, hprevious, hevident.mp hscore]
      · rename_i hscore
        simp [hsingled, hprevious, mt hevident.mpr hscore]

/-- Two sources with as many keywords: the previous turn's has it. -/
theorem selectSource_reason_tied :
    ¬ Singled (fun s => if s = "archive" then 0 else 1) ["sales", "stock", "archive"] "stock" :=
  have hselected : selectSource (fun s => if s = "archive" then 0 else 1) (fun _ => (0 : ℤ))
      ["sales", "stock", "archive"] (some "stock") =
        some ⟨"stock", .session, ["stock", "sales", "archive"]⟩ := by
    decide
  ((selectSource_reason (by decide) hselected).2.1.mp rfl).1

end Order

end LocalSqlAgent
