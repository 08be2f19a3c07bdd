import CommandScript.Proofs.LexemeGrammar

/-!
# What continuations take out of a text

The tokens that cancelling takes out of a text stand in pairs, each of a
backslash and a line break or of a line break and an `&`.  Two pairs do not
cross, and all that stands between the members of a pair is taken out with it.
Every other token stays.

The tokens of a text stand at increasing offsets, so an offset tells which token
is meant, and being between two others is a matter of offsets.
-/

namespace CommandScript

namespace Token

/-- The two tokens join a line to the next one. -/
def Continues (left right : Token) : Prop :=
  left.symbol = .backslash ∧ right.symbol = .lineBreak ∨
    left.symbol = .lineBreak ∧ right.symbol = .and

def Before (left right : Token) : Prop :=
  left.position < right.position

variable {left right : Token}

theorem cancels_iff :
    left.symbol.cancels right.symbol = true ↔ left.Continues right := by
  unfold Continues Symbol.cancels
  split <;> simp_all

theorem not_cancels_iff :
    left.symbol.cancels right.symbol = false ↔ ¬ left.Continues right := by
  rw [← cancels_iff, Bool.not_eq_true]

theorem Before.asymm (before : left.Before right) : ¬ right.Before left :=
  Int.lt_asymm before

theorem Before.ne (before : left.Before right) : left ≠ right := by
  rintro rfl
  exact before.asymm before

end Token

namespace Continuation

def members (pairs : List (Token × Token)) : List Token :=
  pairs.flatMap fun pair => [pair.1, pair.2]

/-- The tokens of `raw` that are not kept are the members of the pairs, each of
them once.  Between the members of a pair nothing is kept, and no two pairs
cross. -/
structure Paired (raw kept : List Token)
    (pairs : List (Token × Token)) : Prop where
  continues : ∀ pair ∈ pairs, pair.1.Continues pair.2 ∧ pair.1.Before pair.2
  once : (members pairs).Nodup
  mem_members_iff : ∀ token, token ∈ members pairs ↔ token ∈ raw ∧ token ∉ kept
  between : ∀ pair ∈ pairs, ∀ token ∈ raw,
    pair.1.Before token → token.Before pair.2 → token ∉ kept
  uncrossed : ∀ pair ∈ pairs, ∀ other ∈ pairs,
    ¬ (pair.1.Before other.1 ∧ other.1.Before pair.2 ∧ pair.2.Before other.2)

variable {raw stack below : List Token} {token top : Token}
  {pair : Token × Token} {pairs : List (Token × Token)}

theorem members_cons :
    members (pair :: pairs) = pair.1 :: pair.2 :: members pairs := rfl

namespace Paired

theorem nil : Paired [] [] [] := by
  constructor <;> simp [members]

theorem second_mem (paired : Paired raw stack pairs) (inside : pair ∈ pairs) :
    pair.2 ∈ raw := by
  have member : pair.2 ∈ members pairs :=
    List.mem_flatMap.mpr ⟨pair, inside, by simp⟩
  exact ((paired.mem_members_iff pair.2).mp member).1

theorem push (paired : Paired raw stack pairs)
    (last : ∀ earlier ∈ raw, earlier.Before token) :
    Paired (raw ++ [token]) (token :: stack) pairs := by
  refine ⟨paired.continues, paired.once, ?_, ?_, paired.uncrossed⟩
  · intro other
    rw [paired.mem_members_iff, List.mem_append, List.mem_singleton,
      List.mem_cons, not_or]
    constructor
    · rintro ⟨inRaw, absent⟩
      exact ⟨.inl inRaw, (last other inRaw).ne, absent⟩
    · rintro ⟨inRaw | same, different, absent⟩
      · exact ⟨inRaw, absent⟩
      · exact absurd same different
  · intro pair inside other inRaw after before
    rcases List.mem_append.mp inRaw with earlier | same
    · have absent := paired.between pair inside other earlier after before
      exact List.not_mem_cons_of_ne_of_not_mem (last other earlier).ne absent
    · rw [List.mem_singleton.mp same] at before
      exact absurd before (last pair.2 (paired.second_mem inside)).asymm

theorem cancel (paired : Paired raw (top :: below) pairs)
    (last : ∀ earlier ∈ raw, earlier.Before token) (topIn : top ∈ raw)
    (above : ∀ lower ∈ below, lower.Before top)
    (continues : top.Continues token) :
    Paired (raw ++ [token]) below ((top, token) :: pairs) := by
  have topBefore := last top topIn
  have topAbsent : top ∉ below := fun lower => (above top lower).ne rfl
  have tokenAbsent : token ∉ below :=
    fun lower => (above token lower).asymm topBefore
  have old :
      ∀ other ∈ members pairs, other ∈ raw ∧ other ≠ top ∧ other ∉ below := by
    intro other member
    obtain ⟨inRaw, absent⟩ := (paired.mem_members_iff other).mp member
    exact ⟨inRaw, List.ne_and_not_mem_of_not_mem_cons absent⟩
  constructor
  case continues =>
    exact List.forall_mem_cons.mpr ⟨⟨continues, topBefore⟩, paired.continues⟩
  case once =>
    rw [members_cons, List.nodup_cons, List.nodup_cons]
    have topNew : top ∉ members pairs := fun member => (old top member).2.1 rfl
    refine ⟨List.not_mem_cons_of_ne_of_not_mem topBefore.ne topNew, ?_,
      paired.once⟩
    exact fun member => (last token (old token member).1).ne rfl
  case mem_members_iff =>
    intro other
    rw [members_cons, List.mem_cons, List.mem_cons, List.mem_append,
      List.mem_singleton]
    constructor
    · rintro (rfl | rfl | member)
      · exact ⟨.inl topIn, topAbsent⟩
      · exact ⟨.inr rfl, tokenAbsent⟩
      · exact ⟨.inl (old other member).1, (old other member).2.2⟩
    · rintro ⟨inRaw | same, absent⟩
      · by_cases same : other = top
        · exact .inl same
        · have removed := List.not_mem_cons_of_ne_of_not_mem same absent
          exact .inr
            (.inr ((paired.mem_members_iff other).mpr ⟨inRaw, removed⟩))
      · exact .inr (.inl same)
  case between =>
    intro pair inside other inRaw after before
    rcases List.mem_cons.mp inside with rfl | inside
    · exact fun lower => (above other lower).asymm after
    · rcases List.mem_append.mp inRaw with earlier | same
      · have absent := paired.between pair inside other earlier after before
        exact (List.ne_and_not_mem_of_not_mem_cons absent).2
      · rw [List.mem_singleton.mp same] at before
        exact absurd before (last pair.2 (paired.second_mem inside)).asymm
  case uncrossed =>
    intro pair inside other otherInside
    rintro ⟨first, second, third⟩
    rcases List.mem_cons.mp inside with rfl | inside <;>
      rcases List.mem_cons.mp otherInside with rfl | otherInside
    · exact first.ne rfl
    · exact (last other.2 (paired.second_mem otherInside)).asymm third
    · exact paired.between pair inside top topIn first second List.mem_cons_self
    · exact paired.uncrossed pair inside other otherInside
        ⟨first, second, third⟩

end Paired

/-- Taking one more token in keeps the stack in the order of the text and what
is missing from it in pairs. -/
theorem exists_paired_push (paired : Paired raw stack pairs)
    (ordered : stack.reverse.Sublist raw)
    (increasing : (raw ++ [token]).Pairwise Token.Before) :
    (push stack token).reverse.Sublist (raw ++ [token]) ∧
      ∃ all, Paired (raw ++ [token]) (push stack token) all := by
  obtain ⟨rawIncreasing, -, apart⟩ := List.pairwise_append.mp increasing
  have last : ∀ earlier ∈ raw, earlier.Before token :=
    fun earlier inRaw => apart earlier inRaw token (List.mem_singleton.mpr rfl)
  cases stack with
  | nil => exact ⟨ordered.append_right [token], pairs, paired.push last⟩
  | cons top below =>
      cases cancels : top.symbol.cancels token.symbol with
      | false =>
          rw [push, cancels, if_neg Bool.false_ne_true, List.reverse_cons]
          exact ⟨ordered.append_right [token], pairs, paired.push last⟩
      | true =>
          rw [push_cancels cancels]
          rw [List.reverse_cons] at ordered
          have topIn : top ∈ raw := ordered.subset (by simp)
          have above : ∀ lower ∈ below, lower.Before top := by
            intro lower inside
            have stacked :=
              (List.pairwise_append.mp (rawIncreasing.sublist ordered)).2.2
            exact stacked lower (List.mem_reverse.mpr inside) top
              (List.mem_singleton.mpr rfl)
          have remaining :=
            (List.sublist_append_left below.reverse [top]).trans ordered
          exact ⟨remaining.trans (List.sublist_append_left raw [token]), _,
            paired.cancel last topIn above (Token.cancels_iff.mp cancels)⟩

theorem exists_paired_foldl_push (tokens : List Token)
    (paired : Paired raw stack pairs) (ordered : stack.reverse.Sublist raw)
    (increasing : (raw ++ tokens).Pairwise Token.Before) :
    ∃ all, Paired (raw ++ tokens) (tokens.foldl push stack) all := by
  induction tokens generalizing raw stack pairs with
  | nil => exact ⟨pairs, by rwa [List.append_nil]⟩
  | cons token tokens induction =>
      rw [List.append_cons] at increasing ⊢
      obtain ⟨stillOrdered, all, stillPaired⟩ :=
        exists_paired_push paired ordered
        (increasing.sublist (List.sublist_append_left _ tokens))
      exact induction stillPaired stillOrdered increasing

theorem exists_paired_cancel {tokens : List Token}
    (increasing : tokens.Pairwise Token.Before) :
    ∃ pairs, Paired tokens (cancel tokens) pairs := by
  obtain ⟨pairs, paired⟩ :=
    exists_paired_foldl_push tokens .nil (List.Sublist.refl [])
    increasing
  refine ⟨pairs, paired.continues, paired.once, ?_, ?_, paired.uncrossed⟩
  · simpa [cancel] using paired.mem_members_iff
  · simpa [cancel] using paired.between

theorem Paired.kept {kept : List Token} (paired : Paired raw kept pairs)
    (inRaw : token ∈ raw)
    (lasting : token.symbol ≠ .backslash ∧ token.symbol ≠ .lineBreak ∧
      token.symbol ≠ .and) :
    token ∈ kept := by
  by_contra absent
  obtain ⟨pair, inside, member⟩ :=
    List.mem_flatMap.mp ((paired.mem_members_iff token).mpr ⟨inRaw, absent⟩)
  obtain ⟨notBackslash, notBreak, notAnd⟩ := lasting
  have continues := (paired.continues pair inside).1
  unfold Token.Continues at continues
  simp only [List.mem_cons, List.not_mem_nil, or_false] at member
  rcases member with rfl | rfl <;> simp_all

end Continuation

/-- The tokens of a text stand at increasing offsets. -/
theorem Lexeme.Divides.tokens_increasing {text : List Char}
    {lexemes : List Lexeme} (divides : Divides text lexemes) (offset : Nat) :
    (tokens offset lexemes).Pairwise Token.Before ∧
      ∀ token ∈ tokens offset lexemes, (offset : Int) ≤ token.position := by
  induction divides generalizing offset with
  | nil => simp [tokens]
  | @cons lexeme rest lexemes precedes _ _ induction =>
      obtain ⟨increasing, bound⟩ := induction (offset + lexeme.text.length)
      have positive := List.length_pos_of_ne_nil (text_ne_nil precedes)
      have later : ∀ token ∈ tokens (offset + lexeme.text.length) lexemes,
          (offset : Int) < token.position := by
        intro token inside
        have reached := bound token inside
        omega
      rw [tokens]
      cases lexeme.symbol? with
      | none =>
          exact ⟨increasing, fun token inside =>
            Int.le_of_lt (later token inside)⟩
      | some symbol =>
          refine ⟨List.pairwise_cons.mpr ⟨later, increasing⟩, ?_⟩
          rintro token (_ | ⟨_, inside⟩)
          · exact Int.le_refl _
          · exact Int.le_of_lt (later token inside)

namespace Token

open Continuation

/-- What is left of the tokens of a text after its continuations are
cancelled. -/
theorem ofText_continuations {text : String} {tokens : List Token}
    (success : ofText text = .ok tokens) :
    ∃ raw, lex text.toList = .ok raw ∧ raw.Pairwise Before ∧
      tokens.Sublist raw ∧ tokens.Pairwise Before ∧
      tokens.IsChain (fun left right => ¬ left.Continues right) ∧
      (∀ token ∈ raw, token.symbol.kind ∈
        [Kind.quoted, .unquoted, .andAnd, .openBrace, .closeBrace] →
          token ∈ tokens) ∧
      ∃ pairs, Paired raw tokens pairs := by
  obtain ⟨lexemes, divides⟩ := exists_divides_of_ofText success
  have reduces := (ofText_eq_ok_iff divides).mp success
  have increasing := (divides.tokens_increasing 0).1
  obtain ⟨pairs, paired⟩ := exists_paired_cancel increasing
  rw [reduces_iff.mp reduces] at paired
  refine ⟨_, divides.lexFrom 0, increasing, reduces.sublist,
    increasing.sublist reduces.sublist, ?_, ?_, pairs, paired⟩
  · exact reduces.2.imp fun _ _ apart => not_cancels_iff.mp apart
  · intro token inRaw lasting
    refine paired.kept inRaw ?_
    cases symbol : token.symbol <;> simp_all [Symbol.kind]

/-- Two backslashes take a line break each, the first of them the later one, and
the `&` takes the last. -/
theorem ofText_continuations_nested :
    ∃ raw pairs, lex "a \\\\\n\n\n& b".toList = .ok raw ∧
      Paired raw [⟨.unquoted "a", 0⟩, ⟨.unquoted "b", 9⟩] pairs := by
  have read : ofText "a \\\\\n\n\n& b" =
      .ok [⟨.unquoted "a", 0⟩, ⟨.unquoted "b", 9⟩] := by
    decide +kernel
  obtain ⟨raw, found, -, -, -, -, -, pairs, paired⟩ := ofText_continuations read
  exact ⟨raw, pairs, found, paired⟩

end Token

end CommandScript
