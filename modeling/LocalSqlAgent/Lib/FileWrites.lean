import Mathlib.Logic.Function.Basic
import Mathlib.Data.List.Basic

/-! # Files written one after the other

A directory is a function from names to contents. `writeEach` writes the files of a list in turn; a write
may raise, leaving something in its file and the rest unwritten. `writeEach_fail` is the directory then,
`writeEach_fail_eq_iff` says when it is nonetheless the one that was to be written. -/

namespace LocalSqlAgent

universe u v

variable {α : Type u} {β : Type v} [DecidableEq α] {content dir : α → β} {a : α} {left : β} {names : List α}

/-- Write the files in turn; `fault` is the write that raises and what it leaves in its file. The result
says whether none raised, and what the directory holds. -/
def writeEach (content : α → β) (fault : Option (α × β)) : List α → (α → β) → Bool × (α → β)
  | [], dir => (true, dir)
  | a :: rest, dir =>
    match fault.filter fun p => p.1 = a with
    | some (_, left) => (false, Function.update dir a left)
    | none => writeEach content fault rest (Function.update dir a (content a))

/-- Nothing raises: every file is written. -/
theorem writeEach_none (names : List α) (dir : α → β) :
    writeEach content none names dir = (true, fun b => if b ∈ names then content b else dir b) := by
  induction names generalizing dir with
  | nil => rfl
  | cons a rest ih =>
    show writeEach content none rest (Function.update dir a (content a)) = _
    rw [ih]
    refine congrArg (Prod.mk true) (funext fun b => ?_)
    by_cases hrest : b ∈ rest
    · rw [if_pos hrest, if_pos (List.mem_cons_of_mem _ hrest)]
    · rw [if_neg hrest]
      by_cases hb : b = a
      · rw [hb, Function.update_self, if_pos List.mem_cons_self]
      · rw [Function.update_of_ne hb, if_neg]
        simp [hb, hrest]

/-- **One write raises**: the files before it are written, the ones after it are as they were. -/
theorem writeEach_fail (ha : a ∈ names) (dir : α → β) :
    writeEach content (some (a, left)) names dir =
      (false, fun b => if b = a then left else if b ∈ names.takeWhile (· ≠ a) then content b else dir b) := by
  induction names generalizing dir with
  | nil => cases ha
  | cons b rest ih =>
    unfold writeEach
    by_cases hb : a = b
    · subst hb
      rw [Option.filter_some, if_pos (decide_eq_true rfl)]
      refine congrArg (Prod.mk false) (funext fun c => ?_)
      by_cases hc : c = a
      · rw [hc, Function.update_self, if_pos rfl]
      · rw [Function.update_of_ne hc, if_neg hc, List.takeWhile_cons_of_neg (by simp), if_neg List.not_mem_nil]
    · have hrest : a ∈ rest := (List.mem_cons.mp ha).resolve_left hb
      rw [Option.filter_some, if_neg (by simpa using hb)]
      dsimp only
      rw [ih hrest, List.takeWhile_cons_of_pos (by simpa using Ne.symm hb)]
      refine congrArg (Prod.mk false) (funext fun c => ?_)
      by_cases hc : c = a
      · rw [if_pos hc, if_pos hc]
      · rw [if_neg hc, if_neg hc]
        by_cases hmem : c ∈ rest.takeWhile (· ≠ a)
        · rw [if_pos hmem, if_pos (List.mem_cons_of_mem _ hmem)]
        · rw [if_neg hmem]
          by_cases hcb : c = b
          · rw [hcb, Function.update_self, if_pos List.mem_cons_self]
          · rw [Function.update_of_ne hcb, if_neg]
            rw [List.mem_cons]
            exact not_or.mpr ⟨hcb, hmem⟩

/-- **A failed write does no harm** exactly when its file and all later ones hold their content anyway. -/
theorem writeEach_fail_eq_iff (hall : ∀ b, b ∈ names) :
    (writeEach content (some (a, left)) names dir).2 = content ↔
      left = content a ∧ ∀ b, b ∉ names.takeWhile (· ≠ a) → b ≠ a → dir b = content b := by
  rw [writeEach_fail (hall a), funext_iff]
  dsimp only
  constructor
  · intro heq
    refine ⟨?_, fun b hlater hne => ?_⟩
    · have := heq a
      rwa [if_pos rfl] at this
    · have := heq b
      rwa [if_neg hne, if_neg hlater] at this
  · rintro ⟨hleft, hlater⟩ b
    by_cases hb : b = a
    · rw [if_pos hb, hb, hleft]
    · rw [if_neg hb]
      split
      · rfl
      · exact hlater b ‹_› hb

end LocalSqlAgent
