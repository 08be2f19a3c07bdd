import CommandScript.Token.Continuation
import Mathlib.Data.List.Chain
import Mathlib.Logic.Relation

/-!
# Cancelling continuations by rewriting

Line continuations are cancelled from left to right: as long as there are
neighbours that cancel each other, the leftmost such pair is taken out.  The
stack of `Continuation.cancel` computes what is left in the end.
-/

namespace CommandScript

namespace Continuation

/-- No neighbours are left that cancel each other. -/
def Settled (tokens : List Token) : Prop :=
  tokens.IsChain fun left right => left.symbol.cancels right.symbol = false

/-- The leftmost pair of neighbours that cancel each other is taken out. -/
inductive Cancels : List Token → List Token → Prop where
  | pair {before after : List Token} {left right : Token} :
      Settled (before ++ [left]) → left.symbol.cancels right.symbol = true →
      Cancels (before ++ left :: right :: after) (before ++ after)

/-- Pairs are taken out, leftmost first, until none is left. -/
def Reduces (raw result : List Token) : Prop :=
  Relation.ReflTransGen Cancels raw result ∧ Settled result

theorem push_cancels {top token : Token} {below : List Token}
    (cancels : top.symbol.cancels token.symbol = true) :
    push (top :: below) token = below := by
  simp [push, cancels]

theorem push_of_apart {stack : List Token} {token : Token}
    (apart : ∀ top ∈ stack.head?, top.symbol.cancels token.symbol = false) :
    push stack token = token :: stack := by
  cases stack with
  | nil => rfl
  | cons top below => simp [push, apart top rfl]

theorem push_settles {stack : List Token} {token : Token}
    (settled : Settled (stack.reverse ++ [token])) :
    push stack token = token :: stack := by
  apply push_of_apart
  intro top member
  obtain ⟨below, rfl⟩ := List.head?_eq_some_iff.mp member
  rw [List.reverse_cons, List.append_assoc] at settled
  exact (List.isChain_append_cons_cons.mp settled).2.1

/-- Which tokens cancel is a matter of their symbols alone. -/
theorem push_map_symbol {token other : Token} {stack base : List Token}
    (same : token.symbol = other.symbol)
    (stacked : stack.map Token.symbol = base.map Token.symbol) :
    (push stack token).map Token.symbol =
      (push base other).map Token.symbol := by
  cases stack with
  | nil =>
      cases base with
      | nil => exact congrArg ([·]) same
      | cons bottom base => cases stacked
  | cons top stack =>
      cases base with
      | nil => cases stacked
      | cons bottom base =>
          obtain ⟨tops, below⟩ := List.cons.inj stacked
          rw [push, push, tops, same]
          split
          · exact below
          · simp only [List.map_cons, tops, same, below]

theorem foldl_push_map_symbol {tokens others stack base : List Token}
    (same : tokens.map Token.symbol = others.map Token.symbol)
    (stacked : stack.map Token.symbol = base.map Token.symbol) :
    (tokens.foldl push stack).map Token.symbol =
      (others.foldl push base).map Token.symbol := by
  induction tokens generalizing others stack base with
  | nil =>
      cases others with
      | nil => exact stacked
      | cons other others => cases same
  | cons token tokens induction =>
      cases others with
      | nil => cases same
      | cons other others =>
          obtain ⟨first, rest⟩ := List.cons.inj same
          rw [List.foldl_cons, List.foldl_cons]
          exact induction rest (push_map_symbol first stacked)

theorem cancel_map_symbol {tokens others : List Token}
    (same : tokens.map Token.symbol = others.map Token.symbol) :
    (cancel tokens).map Token.symbol = (cancel others).map Token.symbol := by
  rw [cancel, cancel, List.map_reverse, List.map_reverse,
    foldl_push_map_symbol same rfl]

theorem foldl_push_settled (tokens stack : List Token)
    (settled : Settled (stack.reverse ++ tokens)) :
    tokens.foldl push stack = tokens.reverse ++ stack := by
  induction tokens generalizing stack with
  | nil => rfl
  | cons token tokens induction =>
      have regrouped : Settled (stack.reverse ++ [token] ++ tokens) := by
        simpa using settled
      have first : Settled (stack.reverse ++ [token]) :=
        regrouped.left_of_append
      rw [List.foldl_cons, push_settles first, induction (token :: stack)]
      · simp
      · rw [List.reverse_cons]
        exact regrouped

theorem cancel_of_settled {tokens : List Token} (settled : Settled tokens) :
    cancel tokens = tokens := by
  rw [cancel, foldl_push_settled tokens [] settled]
  simp

/-- Stacking tokens up takes out the leftmost pairs, one after another, and
leaves none behind. -/
theorem reduces_foldl_push (tokens stack : List Token)
    (settled : Settled stack.reverse) :
    Reduces (stack.reverse ++ tokens) (tokens.foldl push stack).reverse := by
  induction tokens generalizing stack with
  | nil =>
      rw [List.append_nil]
      exact ⟨.refl, settled⟩
  | cons token tokens induction =>
      cases stack with
      | nil => exact induction [token] (List.isChain_singleton token)
      | cons top below =>
          rw [List.reverse_cons] at settled
          cases cancels : top.symbol.cancels token.symbol with
          | true =>
              have step : Cancels ((top :: below).reverse ++ token :: tokens)
                  (below.reverse ++ tokens) := by
                rw [List.reverse_cons, List.append_assoc]
                exact .pair settled cancels
              obtain ⟨steps, final⟩ := induction below settled.left_of_append
              rw [List.foldl_cons, push_cancels cancels]
              exact ⟨.head step steps, final⟩
          | false =>
              have grown : Settled ((top :: below).reverse ++ [token]) := by
                rw [List.reverse_cons, List.append_assoc]
                exact List.isChain_append_cons_cons.mpr
                  ⟨settled, cancels, List.isChain_singleton token⟩
              have following := induction (token :: top :: below) (by
                rw [List.reverse_cons]
                exact grown)
              rw [List.reverse_cons, List.append_assoc] at following
              rw [List.foldl_cons, push_settles grown]
              exact following

/-- Taking out the leftmost pair does not change what is left in the end. -/
theorem Cancels.cancel_eq {raw next : List Token} (step : Cancels raw next) :
    cancel raw = cancel next := by
  obtain @⟨before, after, left, right, settled, cancels⟩ := step
  have stacked := foldl_push_settled (before ++ [left]) [] settled
  have below := foldl_push_settled before [] settled.left_of_append
  rw [List.append_nil, List.reverse_append, List.reverse_singleton,
    List.singleton_append] at stacked
  rw [List.append_nil] at below
  have folded : (before ++ left :: right :: after).foldl push [] =
      (before ++ after).foldl push [] := by
    rw [List.append_cons, List.foldl_append, stacked, List.foldl_cons,
      push_cancels cancels, ← below, List.foldl_append]
  rw [cancel, cancel, folded]

/-- Cancelling with a stack is cancelling the leftmost pair until none is
left, and no other result can be reached. -/
theorem reduces_iff {raw result : List Token} :
    Reduces raw result ↔ cancel raw = result := by
  constructor
  · rintro ⟨steps, settled⟩
    have kept : cancel raw = cancel result := by
      clear settled
      induction steps with
      | refl => rfl
      | tail _ step induction => exact induction.trans step.cancel_eq
    rw [kept, cancel_of_settled settled]
  · rintro rfl
    exact reduces_foldl_push raw [] List.isChain_nil

theorem Cancels.sublist {raw next : List Token} (step : Cancels raw next) :
    next.Sublist raw := by
  obtain @⟨before, after, left, right, settled, cancels⟩ := step
  apply List.Sublist.append_left
  exact .cons left (.cons right (.refl after))

theorem Reduces.sublist {raw result : List Token}
    (reduces : Reduces raw result) :
    result.Sublist raw := by
  obtain ⟨steps, -⟩ := reduces
  induction steps with
  | refl => exact .refl raw
  | tail _ step induction => exact step.sublist.trans induction

end Continuation

end CommandScript
