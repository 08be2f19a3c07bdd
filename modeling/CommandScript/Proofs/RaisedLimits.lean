import CommandScript.Proofs.BraceBalance
import CommandScript.Script
import CommandScript.Settings

/-!
# Raising the limit on nesting

The limit is looked at only when a brace is opened.  So two groupings of the
same tokens under different limits go through the same states, until the smaller
limit refuses a brace that the larger one might let pass.  Whatever else is
wrong with a text is found under both, at the same place.

A brace that is refused stands right beyond the limit, and it is the first one
there: on the way to a deeper level every level in between is opened before.
-/

namespace CommandScript

namespace Grouping

/-- The token at an index opens a brace at a level, and none opens one there
before it. -/
structure FirstAtLevel (tokens : List Token) (level : Int) (index : Nat)
    (opening : Token) : Prop where
  found : tokens[index]? = some opening
  opens : opening.symbol = .openBrace
  here : levelAt tokens index + 1 = level
  first :
    ∀ earlier < index, tokens[earlier]?.map Token.symbol = some .openBrace →
      levelAt tokens earlier + 1 ≠ level

variable {limit larger : Int} {tokens : List Token} {token : Token}

/-- A larger limit changes a step only where the smaller one refuses a brace. -/
theorem step_raised (raised : limit ≤ larger) (state : Grouping)
    (token : Token) :
    step larger state token = step limit state token ∨
      step limit state token =
        .error (.nesting limit (some token.position)) := by
  unfold step
  cases token.symbol with
  | openBrace =>
      by_cases deep : limit < state.outer.length + 1
      · simp [deep]
      · have shallow : ¬ larger < state.outer.length + 1 := by omega
        simp [deep, shallow]
  | _ => exact .inl rfl

theorem foldlM_raised (raised : limit ≤ larger) (tokens : List Token)
    (state : Grouping) :
    tokens.foldlM (step larger) state = tokens.foldlM (step limit) state ∨
      ∃ position, tokens.foldlM (step limit) state =
        .error (.nesting limit position) := by
  induction tokens generalizing state with
  | nil => exact .inl rfl
  | cons token tokens induction =>
      rw [List.foldlM_cons, List.foldlM_cons]
      rcases step_raised raised state token with same | refused
      · rw [same]
        cases step limit state token with
        | ok next => exact induction next
        | error failure => exact .inl rfl
      · rw [refused]
        exact .inr ⟨_, rfl⟩

theorem levelAt_add_one {index : Nat} (here : tokens[index]? = some token) :
    levelAt tokens (index + 1) = levelAt tokens index +
      (if token.symbol = .openBrace then 1 else 0) -
      (if token.symbol = .closeBrace then 1 else 0) := by
  unfold levelAt
  rw [occurrences_take_add_one here, occurrences_take_add_one here]
  split <;> split <;> omega

/-- The level grows by one at a time, so it stays within the limit as long as no
brace is refused. -/
theorem levelAt_le (nonneg : 0 ≤ limit) {index : Nat}
    (fine : ∀ earlier < index, ∀ error, ¬ Offends limit tokens earlier error) :
    levelAt tokens index ≤ limit := by
  induction index with
  | zero => simpa [levelAt] using nonneg
  | succ index induction =>
      have before :=
        induction fun earlier less => fine earlier (Nat.lt_succ_of_lt less)
      cases here : tokens[index]? with
      | none =>
          unfold levelAt at before ⊢
          rwa [List.take_add_one, here, Option.toList_none, List.append_nil]
      | some token =>
          rw [levelAt_add_one here]
          by_cases opens : token.symbol = .openBrace
          · have shallow : ¬ limit < levelAt tokens index + 1 :=
              fun deep =>
                fine index (Nat.lt_succ_self index) _ (.deep here opens deep)
            rw [if_pos opens]
            split <;> omega
          · rw [if_neg opens]
            split <;> omega

/-- A brace that is refused is the first one right beyond the limit. -/
theorem FirstOffence.firstAtLevel (nonneg : 0 ≤ limit) {most : Int}
    {position : Option Int}
    (first : FirstOffence limit tokens (.nesting most position)) :
    most = limit ∧
      ∃ index opening, FirstAtLevel tokens (limit + 1) index opening ∧
        position = some opening.position := by
  obtain ⟨index, offends, earlier⟩ := first
  have within := levelAt_le nonneg earlier
  cases offends with
  | @deep opening found opens deep =>
      refine ⟨rfl, index, opening, ⟨found, opens, by omega, ?_⟩, rfl⟩
      intro sooner less opened beyond
      obtain ⟨brace, here, symbol⟩ := Option.map_eq_some_iff.mp opened
      exact earlier sooner less _ (.deep here symbol (by omega))

end Grouping

open Grouping

theorem Line.ofTokens_raised {limit larger : Int} (raised : limit ≤ larger)
    (tokens : List Token) :
    Line.ofTokens larger tokens = Line.ofTokens limit tokens ∨
      ∃ position,
        Line.ofTokens limit tokens = .error (.nesting limit position) := by
  unfold Line.ofTokens
  rcases foldlM_raised raised tokens {} with same | ⟨position, refused⟩
  · rw [same]
    exact .inl rfl
  · rw [refused]
    exact .inr ⟨position, rfl⟩

namespace Script

theorem parse_raised {limit larger : Int} (nonneg : 0 ≤ limit)
    (raised : limit ≤ larger) (text : String) :
    parse larger text = parse limit text ∨
      ∃ tokens index opening, Token.ofText text = .ok tokens ∧
        FirstAtLevel tokens (limit + 1) index opening ∧
        parse limit text = .error (.nesting limit (some opening.position)) := by
  cases read : Token.ofText text with
  | error failure =>
      left
      rw [parse, parse, read]
      rfl
  | ok tokens =>
      have grouped : ∀ most, parse most text = Line.ofTokens most tokens >>=
          Command.ofLines := by
        intro most
        rw [parse, read]
        rfl
      rw [grouped, grouped]
      rcases Line.ofTokens_raised raised tokens with same | ⟨position, refused⟩
      · rw [same]
        exact .inl rfl
      · right
        obtain first | ⟨_, _, _, _, differs⟩ :=
          Line.ofTokens_eq_error_iff.mp refused
        · obtain ⟨-, index, opening, found, place⟩ := first.firstAtLevel nonneg
          rw [refused, place]
          exact ⟨tokens, index, opening, rfl, found, rfl⟩
        · cases differs

/-- Raising the limit never changes what a text gives, commands or failure,
unless the text fails for its nesting.  A text that gives commands under the
larger limit gives the same commands under the smaller one, or fails at the
first brace right beyond it. -/
theorem parse_under_limits (limit larger : DepthLimit)
    (raised : limit.value ≤ larger.value) (text : String) :
    ((∀ most position,
      parse limit.value text ≠ .error (.nesting most position)) →
      parse larger.value text = parse limit.value text) ∧
    ∀ commands, parse larger.value text = .ok commands →
      parse limit.value text = .ok commands ∨
        ∃ tokens index opening, Token.ofText text = .ok tokens ∧
          FirstAtLevel tokens (limit.value + 1) index opening ∧
          parse limit.value text =
            .error (.nesting limit.value (some opening.position)) := by
  have positive := limit.one_le
  have outcome := parse_raised (by omega) raised text
  constructor
  · intro shallow
    apply outcome.resolve_right
    rintro ⟨_, _, _, _, _, refused⟩
    exact shallow _ _ refused
  · intro commands success
    exact outcome.imp_left fun same => same.symm.trans success

/-- A block inside a block needs the second level, and one block does not. -/
theorem parse_under_limits_nested :
    (∃ tokens index opening, Token.ofText "a \x7bb \x7bc\x7d\x7d" = .ok tokens ∧
      FirstAtLevel tokens 2 index opening ∧
      parse 1 "a \x7bb \x7bc\x7d\x7d" =
        .error (.nesting 1 (some opening.position))) ∧
    parse 2 "a \x7bb\x7d\x7d" = parse 1 "a \x7bb\x7d\x7d" := by
  let one : DepthLimit := ⟨1, by decide, by decide⟩
  let two : DepthLimit := ⟨2, by decide, by decide⟩
  have raised : one.value ≤ two.value := by decide
  have read : parse 2 "a \x7bb \x7bc\x7d\x7d" =
      .ok [{ name := "a", subs := [
        { name := "b", subs := [{ name := "c" }] }] }] := by
    decide +kernel
  have refused :
      parse 1 "a \x7bb \x7bc\x7d\x7d" = .error (.nesting 1 (some 5)) := by
    decide +kernel
  have unmatched : parse 1 "a \x7bb\x7d\x7d" =
      .error (.structural .unmatchedClose (some 5)) := by
    decide +kernel
  constructor
  · apply ((parse_under_limits one two raised _).2 _ read).resolve_left
    intro success
    cases refused.symm.trans success
  · apply (parse_under_limits one two raised _).1
    intro most position deep
    cases unmatched.symm.trans deep

end Script

end CommandScript
