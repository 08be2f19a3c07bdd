/-!
# Outcomes of computations that can fail

What it takes for a chain of steps to succeed, and what it takes for it to fail.
-/

namespace CommandScript

namespace Outcome

variable {ε α β : Type}

theorem map_eq_ok_iff {outcome : Except ε α} {change : α → β} {result : β} :
    outcome.map change = .ok result ↔
      ∃ inner, outcome = .ok inner ∧ change inner = result := by
  cases outcome <;> simp [Except.map]

theorem map_eq_error_iff {outcome : Except ε α} {change : α → β} {failure : ε} :
    outcome.map change = .error failure ↔ outcome = .error failure := by
  cases outcome <;> simp [Except.map]

theorem bind_eq_error_iff {outcome : Except ε α} {next : α → Except ε β}
    {failure : ε} :
    outcome >>= next = .error failure ↔
      outcome = .error failure ∨
        ∃ inner, outcome = .ok inner ∧ next inner = .error failure := by
  cases outcome <;> simp [bind, Except.bind]

theorem bind_eq_ok_iff {outcome : Except ε α} {next : α → Except ε β}
    {result : β} :
    outcome >>= next = .ok result ↔
      ∃ inner, outcome = .ok inner ∧ next inner = .ok result := by
  cases outcome <;> simp [bind, Except.bind]

theorem pure_eq_ok_iff {value result : α} :
    (pure value : Except ε α) = .ok result ↔ value = result := by
  simp [pure, Except.pure]

theorem exists_error_iff {outcome : Except ε α} :
    (∃ failure, outcome = .error failure) ↔ ¬ ∃ value, outcome = .ok value := by
  cases outcome <;> simp

end Outcome

end CommandScript
