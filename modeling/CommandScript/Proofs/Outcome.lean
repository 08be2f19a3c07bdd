import CommandScript.Error
import CommandScript.Outcome
import Mathlib.Data.List.Forall2

/-!
# Agreement of computations that can fail

A chain of steps succeeds exactly when every step does.  Two chains agree when
their steps do, be it that both fail or that both go on.
-/

namespace CommandScript

namespace Outcome

variable {ε α β γ : Type}

theorem exists_forall₂_iff {relates : α → β → Prop} {items : List α} :
    (∃ results, List.Forall₂ relates items results) ↔
      ∀ item ∈ items, ∃ result, relates item result := by
  induction items with
  | nil => simp
  | cons item items induction =>
      rw [List.forall_mem_cons, ← induction]
      constructor
      · intro related
        obtain ⟨results, related⟩ := related
        cases related with
        | cons first others => exact ⟨⟨_, first⟩, _, others⟩
      · intro related
        obtain ⟨⟨result, first⟩, results, others⟩ := related
        exact ⟨result :: results, .cons first others⟩

theorem exists_source {relates : α → β → Prop} {items : List α}
    {results : List β} (related : List.Forall₂ relates items results)
    {result : β} (member : result ∈ results) :
    ∃ item ∈ items, relates item result := by
  induction related with
  | nil => cases member
  | cons first _ induction =>
      cases member with
      | head => exact ⟨_, List.mem_cons_self, first⟩
      | tail _ later =>
          obtain ⟨item, inside, found⟩ := induction later
          exact ⟨item, List.mem_cons_of_mem _ inside, found⟩

theorem mapM_eq_ok_iff {step : α → Except ε β} {items : List α}
    {results : List β} :
    items.mapM step = .ok results ↔
      List.Forall₂ (fun item result => step item = .ok result) items
        results := by
  induction items generalizing results with
  | nil =>
      rw [List.mapM_nil, pure_eq_ok_iff, List.forall₂_nil_left_iff]
      exact eq_comm
  | cons item items induction =>
      simp only [List.mapM_cons, bind_eq_ok_iff, pure_eq_ok_iff, induction,
        List.forall₂_cons_left_iff]
      constructor
      · rintro ⟨result, first, results, others, rfl⟩
        exact ⟨result, results, first, others, rfl⟩
      · rintro ⟨result, results, first, others, rfl⟩
        exact ⟨result, first, results, others, rfl⟩

/-- Steps that can fail in one way only fail in that way together when one of
them does. -/
theorem mapM_eq_error {step : α → Except ε β} {items : List α} {failure : ε}
    (each : ∀ item ∈ items, (∃ result, step item = .ok result) ∨
      step item = .error failure)
    (failing : ∃ item ∈ items, step item = .error failure) :
    items.mapM step = .error failure := by
  induction items with
  | nil => simp at failing
  | cons item items induction =>
      obtain ⟨first, others⟩ := List.forall_mem_cons.mp each
      rw [List.mapM_cons]
      rcases first with success | failed
      · obtain ⟨result, success⟩ := success
        obtain ⟨source, member, failed⟩ := failing
        cases member with
        | head => cases success.symm.trans failed
        | tail _ later =>
            rw [success, induction others ⟨source, later, failed⟩]
            rfl
      · rw [failed]
        rfl

/-- Both computations fail, or both succeed, each time with related outcomes. -/
inductive Agree {φ : Type} (fails : ε → φ → Prop) (gives : α → β → Prop) :
    Except ε α → Except φ β → Prop where
  | error {left : ε} {right : φ} :
      fails left right → Agree fails gives (.error left) (.error right)
  | ok {left : α} {right : β} :
      gives left right → Agree fails gives (.ok left) (.ok right)

namespace Agree

variable {δ φ : Type} {fails : ε → φ → Prop} {gives : α → β → Prop}
  {left : Except ε α} {right : Except φ β}

theorem bind {results : γ → δ → Prop} {leftNext : α → Except ε γ}
    {rightNext : β → Except φ δ} (first : Agree fails gives left right)
    (next : ∀ leftValue rightValue, gives leftValue rightValue →
      Agree fails results (leftNext leftValue) (rightNext rightValue)) :
    Agree fails results (left >>= leftNext) (right >>= rightNext) := by
  cases first with
  | error failed => exact .error failed
  | ok given => exact next _ _ given

theorem map {results : γ → δ → Prop} {leftChange : α → γ} {rightChange : β → δ}
    (agree : Agree fails gives left right)
    (changed : ∀ leftValue rightValue, gives leftValue rightValue →
      results (leftChange leftValue) (rightChange rightValue)) :
    Agree fails results (left.map leftChange) (right.map rightChange) := by
  cases agree with
  | error failed => exact .error failed
  | ok given => exact .ok (changed _ _ given)

theorem map_right {results : α → δ → Prop} {change : β → δ}
    (agree : Agree fails gives left right)
    (changed : ∀ leftValue rightValue, gives leftValue rightValue →
      results leftValue (change rightValue)) :
    Agree fails results left (right.map change) := by
  cases agree with
  | error failed => exact .error failed
  | ok given => exact .ok (changed _ _ given)

theorem mono {weakFails : ε → φ → Prop} {weakGives : α → β → Prop}
    (agree : Agree fails gives left right)
    (failed : ∀ failure other, fails failure other → weakFails failure other)
    (given : ∀ value other, gives value other → weakGives value other) :
    Agree weakFails weakGives left right := by
  cases agree with
  | error related => exact .error (failed _ _ related)
  | ok related => exact .ok (given _ _ related)

theorem common {ψ : Type} {others : Except ψ δ} {alsoFails : ε → ψ → Prop}
    {alsoGives : α → δ → Prop} {failsBoth : φ → ψ → Prop}
    {givesBoth : β → δ → Prop} (agree : Agree fails gives left right)
    (also : Agree alsoFails alsoGives left others)
    (failed : ∀ failure one other, fails failure one → alsoFails failure other →
      failsBoth one other)
    (given : ∀ value one other, gives value one → alsoGives value other →
      givesBoth one other) :
    Agree failsBoth givesBoth right others := by
  cases agree with
  | error first =>
      cases also with
      | error second => exact .error (failed _ _ _ first second)
  | ok first =>
      cases also with
      | ok second => exact .ok (given _ _ _ first second)

theorem eq_ok (agree : Agree fails gives left right) {value : α}
    (success : left = .ok value) :
    ∃ other, right = .ok other ∧ gives value other := by
  subst success
  cases agree with
  | ok given => exact ⟨_, rfl, given⟩

theorem eq_error (agree : Agree fails gives left right) {failure : ε}
    (failed : left = .error failure) :
    ∃ other, right = .error other ∧ fails failure other := by
  subst failed
  cases agree with
  | error related => exact ⟨_, rfl, related⟩

end Agree

/-- The computation comes upon the failures in this order.  It fails with the
first of them, and it succeeds when there are none. -/
inductive Meets : Except ε α → List ε → Prop where
  | ok {value : α} : Meets (.ok value) []
  | error {failure : ε} {later : List ε} :
      Meets (.error failure) (failure :: later)

namespace Meets

variable {outcome : Except ε α} {failures others : List ε}

theorem bind {next : α → Except ε β} (first : Meets outcome failures)
    (second : ∀ value, outcome = .ok value → Meets (next value) others) :
    Meets (outcome >>= next) (failures ++ others) := by
  cases first with
  | ok => exact second _ rfl
  | error => exact .error

theorem bind_pure {change : α → β} (meets : Meets outcome failures) :
    Meets (outcome >>= fun value => pure (change value)) failures := by
  cases meets with
  | ok => exact .ok
  | error => exact .error

theorem mapM {step : α → Except ε β} {items : List α} {failing : α → List ε}
    (each : ∀ item ∈ items, Meets (step item) (failing item)) :
    Meets (items.mapM step) (items.flatMap failing) := by
  induction items with
  | nil => exact .ok
  | cons item items induction =>
      obtain ⟨first, others⟩ := List.forall_mem_cons.mp each
      rw [List.mapM_cons, List.flatMap_cons]
      apply first.bind
      intro result _
      exact (induction others).bind_pure

theorem eq_error_iff (meets : Meets outcome failures) {failure : ε} :
    outcome = .error failure ↔ failures.head? = some failure := by
  cases meets <;> simp

end Meets

end Outcome

end CommandScript
