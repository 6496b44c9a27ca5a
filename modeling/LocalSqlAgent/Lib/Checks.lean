import Mathlib.Data.List.Basic
import Mathlib.Data.List.Forall2

/-! # Fail-fast checks

A validator that walks its input and raises at the first violation is a `Except ε Unit` built from
three pieces: refuse under a condition, one check after another, one check per list element. Each
piece has a rule saying when it passes; together they turn "the validator accepted" into the
conjunction of what its pieces guarantee. `FailsOnly` bounds what a validator can raise, piece by
piece in the same way. -/

namespace LocalSqlAgent

universe u v

variable {ε : Type u} {α β : Type v}

/-- Raise `e` when `c` holds. -/
def refuseIf (c : Prop) [Decidable c] (e : ε) : Except ε Unit :=
  if c then .error e else .ok ()

@[simp] theorem refuseIf_ok_iff {c : Prop} [Decidable c] {e : ε} {u : Unit} :
    refuseIf c e = .ok u ↔ ¬ c := by
  by_cases h : c <;> simp [refuseIf, h]

/-- Raise `e a` when there is an offending `a`. -/
def refuseSome (x : Option α) (e : α → ε) : Except ε Unit :=
  match x with
  | some a => .error (e a)
  | none => .ok ()

@[simp] theorem refuseSome_ok_iff {x : Option α} {e : α → ε} {u : Unit} :
    refuseSome x e = .ok u ↔ x = none := by
  cases x <;> simp [refuseSome]

/-- Run a check on every element of a list, in order. -/
def checkAll (check : α → Except ε Unit) : List α → Except ε Unit
  | [] => .ok ()
  | a :: rest => do
    check a
    checkAll check rest

/-- **Sequencing checks**: the first one and then the rest. -/
theorem check_then_ok_iff {x y : Except ε Unit} {u : Unit} :
    (x >>= fun _ => y) = .ok u ↔ x = .ok () ∧ y = .ok () := by
  cases x with
  | error e => simp [Bind.bind, Except.bind]
  | ok u => simp [Bind.bind, Except.bind]

/-- **Sequencing**: a computation passes through `>>=` when both of its halves do. -/
@[simp] theorem bind_ok_iff {x : Except ε α} {f : α → Except ε β} {b : β} :
    (x >>= f) = .ok b ↔ ∃ a, x = .ok a ∧ f a = .ok b := by
  cases x with
  | error e => simp [Bind.bind, Except.bind]
  | ok a => simp [Bind.bind, Except.bind]

/-- **One check per element** passes when every element passes. -/
@[simp] theorem checkAll_ok_iff {check : α → Except ε Unit} {l : List α} {u : Unit} :
    checkAll check l = .ok u ↔ ∀ a ∈ l, check a = .ok () := by
  induction l with
  | nil => simp [checkAll]
  | cons a rest ih =>
    rw [checkAll, check_then_ok_iff, List.forall_mem_cons, ih]

/-- **One result per element**: the results of a list are those of its elements, in order. -/
theorem mapM_ok_iff {f : α → Except ε β} {l : List α} {results : List β} :
    l.mapM f = .ok results ↔ List.Forall₂ (fun a b => f a = .ok b) l results := by
  induction l generalizing results with
  | nil =>
    rw [List.mapM_nil, List.forall₂_nil_left_iff]
    exact ⟨fun h => (Except.ok.inj h).symm, fun h => congrArg Except.ok h.symm⟩
  | cons a rest ih =>
    rw [List.mapM_cons, bind_ok_iff]
    constructor
    · rintro ⟨b, hb, htail⟩
      obtain ⟨bs, hbs, hcons⟩ := bind_ok_iff.mp htail
      cases hcons
      exact .cons hb (ih.mp hbs)
    · intro h
      cases h with
      | cons hb hbs => exact ⟨_, hb, bind_ok_iff.mpr ⟨_, ih.mpr hbs, rfl⟩⟩

theorem exists_right_of_forall₂ {γ : Type u} {r : γ → β → Prop} {l : List γ} {l' : List β}
    (h : List.Forall₂ r l l') : ∀ a ∈ l, ∃ b ∈ l', r a b := by
  induction h with
  | nil => simp
  | cons hab _ ih =>
    refine List.forall_mem_cons.mpr ⟨⟨_, List.mem_cons_self, hab⟩, fun a ha => ?_⟩
    obtain ⟨b, hmem, hab⟩ := ih a ha
    exact ⟨b, List.mem_cons_of_mem _ hmem, hab⟩

theorem exists_left_of_forall₂ {γ : Type u} {r : γ → β → Prop} {l : List γ} {l' : List β}
    (h : List.Forall₂ r l l') : ∀ b ∈ l', ∃ a ∈ l, r a b := by
  induction h with
  | nil => simp
  | cons hab _ ih =>
    refine List.forall_mem_cons.mpr ⟨⟨_, List.mem_cons_self, hab⟩, fun b hb => ?_⟩
    obtain ⟨a, hmem, hab⟩ := ih b hb
    exact ⟨a, List.mem_cons_of_mem _ hmem, hab⟩

/-! ## What a validator can raise -/

/-- Every error of a computation satisfies a predicate. -/
def FailsOnly (p : ε → Prop) (x : Except ε α) : Prop := ∀ e, x = .error e → p e

variable {p q : ε → Prop}

theorem FailsOnly.mono {x : Except ε α} (h : FailsOnly p x) (hpq : ∀ e, p e → q e) :
    FailsOnly q x :=
  fun e he => hpq e (h e he)

@[simp] theorem failsOnly_ok {a : α} : FailsOnly p (.ok a : Except ε α) :=
  fun _ he => nomatch he

@[simp] theorem failsOnly_error {e : ε} : FailsOnly p (.error e : Except ε α) ↔ p e := by
  simp [FailsOnly]

@[simp] theorem failsOnly_refuseIf {c : Prop} [Decidable c] {e : ε} :
    FailsOnly p (refuseIf c e) ↔ (c → p e) := by
  by_cases h : c <;> simp [refuseIf, h]

@[simp] theorem failsOnly_refuseSome {x : Option α} {e : α → ε} :
    FailsOnly p (refuseSome x e) ↔ ∀ a, x = some a → p (e a) := by
  cases x <;> simp [refuseSome]

/-- **Sequencing** raises what either half raises. -/
theorem FailsOnly.bind {x : Except ε α} {f : α → Except ε β} (hx : FailsOnly p x)
    (hf : ∀ a, FailsOnly p (f a)) : FailsOnly p (x >>= f) := by
  cases x with
  | error e => exact fun e' he' => hx e' (by cases he'; rfl)
  | ok a => exact hf a

/-- **One check per element** raises what the elements' checks raise. -/
theorem FailsOnly.checkAll {check : α → Except ε Unit} {l : List α}
    (h : ∀ a ∈ l, FailsOnly p (check a)) : FailsOnly p (checkAll check l) := by
  induction l with
  | nil => exact failsOnly_ok
  | cons a rest ih =>
    obtain ⟨ha, hrest⟩ := List.forall_mem_cons.mp h
    exact ha.bind fun _ => ih hrest

end LocalSqlAgent
