import CommandScript.Proofs.LineGrammar

/-!
# Braces and the failures of grouping

Grouping keeps the levels that are open, but whether it succeeds is a matter of
counting braces.  Up to any token there must not be more braces closed than
opened, in the end there must be as many, and in between no more than the limit
may be open.  Backslashes and `&` must not be left over.

A failure is that of the first token that breaks one of these rules.  If there
is none, a brace is left open, and the last such brace is named.
-/

namespace CommandScript

namespace Grouping

/-- How many of the tokens have the symbol. -/
def occurrences (symbol : Symbol) (tokens : List Token) : Nat :=
  tokens.countP fun token => token.symbol = symbol

/-- Braces pair up within the tokens. -/
structure Balanced (tokens : List Token) : Prop where
  closed_le : ∀ count,
    occurrences .closeBrace (tokens.take count) ≤
      occurrences .openBrace (tokens.take count)
  total : occurrences .openBrace tokens = occurrences .closeBrace tokens

/-- How many braces are open in front of the token at an index. -/
def levelAt (tokens : List Token) (index : Nat) : Int :=
  occurrences .openBrace (tokens.take index) -
    occurrences .closeBrace (tokens.take index)

/-- The close brace at one index ends what the open brace at the other one
starts. -/
structure Matches (tokens : List Token) (opening closing : Nat) : Prop where
  order : opening < closing
  opens : tokens[opening]?.map Token.symbol = some .openBrace
  closes : tokens[closing]?.map Token.symbol = some .closeBrace
  balanced : Balanced (tokens.extract (opening + 1) closing)

/-- The token at an index breaks a rule that it can be blamed for. -/
inductive Offends (limit : Int) (tokens : List Token) (index : Nat) :
    Error → Prop where
  | backslash {token : Token} :
      tokens[index]? = some token → token.symbol = .backslash →
      Offends limit tokens index
        (.structural .loneBackslash (some token.position))
  | and {token : Token} :
      tokens[index]? = some token → token.symbol = .and →
      Offends limit tokens index (.structural .loneAnd (some token.position))
  | close {token : Token} :
      tokens[index]? = some token → token.symbol = .closeBrace →
      levelAt tokens index = 0 →
      Offends limit tokens index
        (.structural .unmatchedClose (some token.position))
  | deep {token : Token} :
      tokens[index]? = some token → token.symbol = .openBrace →
      limit < levelAt tokens index + 1 →
      Offends limit tokens index (.nesting limit (some token.position))

/-- The error of the first token that breaks a rule. -/
def FirstOffence (limit : Int) (tokens : List Token) (error : Error) : Prop :=
  ∃ index, Offends limit tokens index error ∧
    ∀ earlier < index, ∀ other, ¬ Offends limit tokens earlier other

def Inoffensive (limit : Int) (tokens : List Token) : Prop :=
  ∀ index error, ¬ Offends limit tokens index error

/-- The brace at an index is never closed, and every later one is. -/
structure LastUnclosed (tokens : List Token) (index : Nat)
    (opening : Token) : Prop where
  found : tokens[index]? = some opening
  opens : opening.symbol = .openBrace
  unmatched : ∀ closing, ¬ Matches tokens index closing
  last :
    ∀ later, index < later → tokens[later]?.map Token.symbol = some .openBrace →
      ∃ closing, Matches tokens later closing

section

variable {tokens others inside : List Token} {token opening closing : Token}

@[simp]
theorem occurrences_nil (symbol : Symbol) : occurrences symbol [] = 0 := rfl

@[simp]
theorem occurrences_cons (symbol : Symbol) :
    occurrences symbol (token :: tokens) =
      occurrences symbol tokens + if token.symbol = symbol then 1 else 0 := by
  simp [occurrences, List.countP_cons]

@[simp]
theorem occurrences_append (symbol : Symbol) :
    occurrences symbol (tokens ++ others) =
      occurrences symbol tokens + occurrences symbol others :=
  List.countP_append

theorem occurrences_take_add_one {index : Nat}
    (here : tokens[index]? = some token) (symbol : Symbol) :
    occurrences symbol (tokens.take (index + 1)) =
      occurrences symbol (tokens.take index) +
        if token.symbol = symbol then 1 else 0 := by
  rw [List.take_add_one, here, occurrences_append, Option.toList_some,
    occurrences_cons, occurrences_nil, Nat.zero_add]

namespace Balanced

theorem nil : Balanced [] := by
  constructor <;> simp

theorem single (notOpen : token.symbol ≠ .openBrace)
    (notClose : token.symbol ≠ .closeBrace) :
    Balanced [token] := by
  constructor
  · intro count
    cases count <;> simp [notClose]
  · simp [notOpen, notClose]

theorem append (first : Balanced tokens) (second : Balanced others) :
    Balanced (tokens ++ others) := by
  constructor
  · intro count
    rw [List.take_append, occurrences_append, occurrences_append]
    exact Nat.add_le_add (first.closed_le count) (second.closed_le _)
  · rw [occurrences_append, occurrences_append, first.total, second.total]

theorem wrap (opens : opening.symbol = .openBrace)
    (closes : closing.symbol = .closeBrace) (balanced : Balanced inside) :
    Balanced (opening :: inside ++ [closing]) := by
  constructor
  · intro count
    cases count with
    | zero => exact Nat.le_refl _
    | succ count =>
        have within := balanced.closed_le count
        have last : occurrences .closeBrace
            ([closing].take (count - inside.length)) ≤ 1 :=
          Nat.le_trans List.countP_le_length (List.length_take_le' _ _)
        rw [List.cons_append, List.take_succ_cons, List.take_append]
        simp only [occurrences_cons, occurrences_append, opens, reduceCtorEq,
          if_true, if_false]
        omega
  · simp [opens, closes, balanced.total]

end Balanced

/-- Where more braces are closed than opened, some close brace has only balanced
braces before it. -/
theorem exists_close {count : Nat}
    (deficit : occurrences .openBrace (tokens.take count) <
      occurrences .closeBrace (tokens.take count)) :
    ∃ index, tokens[index]?.map Token.symbol = some .closeBrace ∧
      Balanced (tokens.take index) := by
  induction count using Nat.strongRecOn with
  | ind count induction =>
      by_cases earlier :
          ∃ fewer < count, occurrences .openBrace (tokens.take fewer) <
            occurrences .closeBrace (tokens.take fewer)
      · obtain ⟨fewer, less, sooner⟩ := earlier
        exact induction fewer less sooner
      have closed_le :
          ∀ fewer < count, occurrences .closeBrace (tokens.take fewer) ≤
            occurrences .openBrace (tokens.take fewer) :=
        fun fewer less => Nat.le_of_not_lt fun sooner =>
          earlier ⟨fewer, less, sooner⟩
      cases count with
      | zero => exact absurd deficit (Nat.lt_irrefl 0)
      | succ count =>
          -- The first brace too many closes behind equally many of both kinds.
          have before := closed_le count (Nat.lt_succ_self count)
          cases here : tokens[count]? with
          | none =>
              rw [List.take_add_one, here, Option.toList_none,
                List.append_nil] at deficit
              omega
          | some token =>
              rw [occurrences_take_add_one here,
                occurrences_take_add_one here] at deficit
              by_cases closes : token.symbol = .closeBrace
              · rw [if_pos closes] at deficit
                refine ⟨count, by simp [here, closes], ?_, by omega⟩
                intro fewer
                rw [List.take_take]
                exact closed_le _ (by omega)
              · rw [if_neg closes] at deficit
                omega

/-- Among balanced braces every open one is closed. -/
theorem Balanced.exists_matches {index : Nat} (balanced : Balanced tokens)
    (opens : tokens[index]?.map Token.symbol = some .openBrace) :
    ∃ closing, Matches tokens index closing := by
  obtain ⟨token, here, symbol⟩ := Option.map_eq_some_iff.mp opens
  have total := balanced.total
  have before := balanced.closed_le index
  have split := (List.take_append_drop (index + 1) tokens).symm
  rw [List.take_add_one, here, Option.toList_some] at split
  rw [split] at total
  simp only [occurrences_append, occurrences_cons, occurrences_nil, symbol,
    reduceCtorEq, if_true, if_false] at total
  have deficit :
      occurrences .openBrace ((tokens.drop (index + 1)).take tokens.length) <
        occurrences .closeBrace
          ((tokens.drop (index + 1)).take tokens.length) := by
    rw [List.take_of_length_le (by simp)]
    omega
  obtain ⟨behind, closes, inside⟩ := exists_close deficit
  rw [List.getElem?_drop] at closes
  refine ⟨index + 1 + behind, by omega, opens, closes, ?_⟩
  rw [List.extract_eq_take_drop, Nat.add_sub_cancel_left]
  exact inside

theorem Matches.append_left {first last : Nat} (front : List Token)
    (pair : Matches tokens first last) :
    Matches (front ++ tokens) (front.length + first) (front.length + last) := by
  obtain ⟨order, opens, closes, balanced⟩ := pair
  refine ⟨Nat.add_lt_add_left order _, ?_, ?_, ?_⟩
  · rwa [List.getElem?_append_right (Nat.le_add_right _ _),
      Nat.add_sub_cancel_left]
  · rwa [List.getElem?_append_right (Nat.le_add_right _ _),
      Nat.add_sub_cancel_left]
  · rw [List.extract_eq_take_drop] at balanced ⊢
    rw [Nat.add_assoc, List.drop_length_add_append, Nat.add_sub_add_left]
    exact balanced

end

/-- The braces at the given positions, innermost first, are left open by the
tokens. -/
inductive LeftOpen : List Token → List Int → Prop where
  | none {tokens : List Token} : Balanced tokens → LeftOpen tokens []
  | brace {before inside : List Token} {opening : Token}
      {positions : List Int} :
      LeftOpen before positions → opening.symbol = .openBrace →
      Balanced inside →
      LeftOpen (before ++ opening :: inside) (opening.position :: positions)

namespace LeftOpen

variable {tokens others : List Token} {token : Token} {position : Int}
  {positions : List Int}

theorem append (left : LeftOpen tokens positions) (balanced : Balanced others) :
    LeftOpen (tokens ++ others) positions := by
  cases left with
  | none inside => exact .none (inside.append balanced)
  | brace before opens inside =>
      rw [List.append_assoc, List.cons_append]
      exact .brace before opens (inside.append balanced)

theorem close (left : LeftOpen tokens (position :: positions))
    (closes : token.symbol = .closeBrace) :
    LeftOpen (tokens ++ [token]) positions := by
  cases left with
  | brace before opens inside =>
      rw [List.append_assoc]
      exact before.append (inside.wrap opens closes)

theorem total (left : LeftOpen tokens positions) :
    occurrences .openBrace tokens =
      occurrences .closeBrace tokens + positions.length := by
  induction left with
  | none balanced => exact balanced.total
  | brace _ opens balanced induction =>
      simp only [occurrences_append, occurrences_cons, opens, reduceCtorEq,
        if_true, if_false, induction, balanced.total, List.length_cons]
      omega

/-- The innermost brace that is left open is the last one that is never
closed. -/
theorem exists_lastUnclosed (left : LeftOpen tokens (position :: positions)) :
    ∃ index opening, LastUnclosed tokens index opening ∧
      opening.position = position := by
  cases left with
  | @brace before inside opening _ _ opens balanced =>
      have front : before.length + 1 = (before ++ [opening]).length := by simp
      refine ⟨before.length, opening, ⟨by simp, opens, ?_, ?_⟩, rfl⟩
      · rintro closing ⟨order, -, closes, between⟩
        obtain ⟨behind, rfl⟩ :=
          Nat.exists_eq_add_of_le (Nat.succ_le_of_lt order)
        rw [Nat.succ_eq_add_one, List.append_cons, front] at closes between
        rw [List.extract_eq_take_drop, List.drop_left,
          Nat.add_sub_cancel_left] at between
        rw [List.getElem?_append_right (Nat.le_add_right _ _),
          Nat.add_sub_cancel_left] at closes
        obtain ⟨closing, here, symbol⟩ := Option.map_eq_some_iff.mp closes
        have within := balanced.closed_le (behind + 1)
        have total := between.total
        rw [occurrences_take_add_one here, occurrences_take_add_one here,
          if_pos symbol, if_neg (by simp [symbol])] at within
        omega
      · intro later after opened
        obtain ⟨behind, rfl⟩ :=
          Nat.exists_eq_add_of_le (Nat.succ_le_of_lt after)
        rw [Nat.succ_eq_add_one, List.append_cons, front] at opened ⊢
        rw [List.getElem?_append_right (Nat.le_add_right _ _),
          Nat.add_sub_cancel_left] at opened
        obtain ⟨closing, pair⟩ := balanced.exists_matches opened
        exact ⟨_, pair.append_left (before ++ [opening])⟩

end LeftOpen

theorem LastUnclosed.unique {tokens : List Token} {index other : Nat}
    {opening otherOpening : Token} (last : LastUnclosed tokens index opening)
    (otherLast : LastUnclosed tokens other otherOpening) :
    opening = otherOpening := by
  have opened := Option.map_eq_some_iff.mpr ⟨_, last.found, last.opens⟩
  have otherOpened :=
    Option.map_eq_some_iff.mpr ⟨_, otherLast.found, otherLast.opens⟩
  rcases Nat.lt_trichotomy index other with before | rfl | after
  · obtain ⟨closing, pair⟩ := last.last other before otherOpened
    exact absurd pair (otherLast.unmatched closing)
  · exact Option.some.inj (last.found.symm.trans otherLast.found)
  · obtain ⟨closing, pair⟩ := otherLast.last index after opened
    exact absurd pair (last.unmatched closing)

section

variable {limit : Int} {tokens : List Token} {index : Nat} {state : Grouping}
  {error : Error}

/-- The level in front of a token is the number of braces that are left open
there. -/
theorem LeftOpen.levelAt_eq
    (left : LeftOpen (tokens.take index) (state.outer.map Prod.snd)) :
    levelAt tokens index = state.outer.length := by
  have total := left.total
  rw [List.length_map] at total
  unfold levelAt
  omega

theorem exists_step
    (left : LeftOpen (tokens.take index) (state.outer.map Prod.snd))
    {token : Token} (here : tokens[index]? = some token)
    (fine : ∀ error, ¬ Offends limit tokens index error) :
    ∃ next, step limit state token = .ok next ∧
      LeftOpen (tokens.take (index + 1)) (next.outer.map Prod.snd) := by
  have level := left.levelAt_eq
  obtain ⟨current, outer⟩ := state
  rw [List.take_add_one, here, Option.toList_some]
  cases symbol : token.symbol with
  | lineBreak | andAnd =>
      have single : Balanced [token] :=
        .single (by simp [symbol]) (by simp [symbol])
      exact ⟨_, step_separates (by simp [Separates, symbol]),
        left.append single⟩
  | quoted value | unquoted value =>
      have single : Balanced [token] :=
        .single (by simp [symbol]) (by simp [symbol])
      have content : IsContent token := by
        simp [IsContent, symbol, Symbol.kind, Kind.hasText]
      exact ⟨_, step_content content, left.append single⟩
  | backslash => exact absurd (.backslash here symbol) (fine _)
  | and => exact absurd (.and here symbol) (fine _)
  | openBrace =>
      have shallow : (outer.length + 1 : Nat) ≤ limit := by
        by_contra deep
        refine fine _ (.deep here symbol ?_)
        rw [level]
        simp only at deep ⊢
        omega
      exact ⟨_, step_open symbol shallow, .brace left symbol .nil⟩
  | closeBrace =>
      cases outer with
      | nil => exact absurd (.close here symbol level) (fine _)
      | cons enclosing outer => exact ⟨_, step_close symbol, left.close symbol⟩

theorem Offends.exists_step_eq (offends : Offends limit tokens index error)
    (left : LeftOpen (tokens.take index) (state.outer.map Prod.snd)) :
    ∃ token, tokens[index]? = some token ∧
      step limit state token = .error error := by
  have level := left.levelAt_eq
  obtain ⟨current, outer⟩ := state
  cases offends with
  | backslash here symbol => exact ⟨_, here, by simp [step, symbol]⟩
  | and here symbol => exact ⟨_, here, by simp [step, symbol]⟩
  | close here symbol outside =>
      rw [level] at outside
      have empty : outer = [] := by simpa using outside
      exact ⟨_, here, by simp [step, symbol, empty]⟩
  | deep here symbol deep =>
      rw [level] at deep
      exact ⟨_, here, by simp [step, symbol, deep]⟩

/-- Tokens that break no rule are taken in, and the braces they leave open are
kept. -/
theorem exists_foldlM_take
    (fine : ∀ earlier < index, ∀ error, ¬ Offends limit tokens earlier error) :
    ∃ state, (tokens.take index).foldlM (step limit) {} = .ok state ∧
      LeftOpen (tokens.take index) (state.outer.map Prod.snd) := by
  induction index with
  | zero => exact ⟨{}, rfl, .none .nil⟩
  | succ index induction =>
      obtain ⟨state, folded, left⟩ :=
        induction fun earlier less => fine earlier (Nat.lt_succ_of_lt less)
      cases here : tokens[index]? with
      | none =>
          rw [List.take_add_one, here, Option.toList_none, List.append_nil]
          exact ⟨state, folded, left⟩
      | some token =>
          obtain ⟨next, taken, stillLeft⟩ :=
            exists_step left here (fine index (Nat.lt_succ_self index))
          refine ⟨next, ?_, stillLeft⟩
          rw [List.take_add_one, here, Option.toList_some, List.foldlM_append,
            folded]
          change (step limit state token >>= _) = _
          rw [taken]
          rfl

theorem exists_firstOffence (offends : Offends limit tokens index error) :
    ∃ first, FirstOffence limit tokens first := by
  induction index using Nat.strongRecOn generalizing error with
  | ind index induction =>
      by_cases earlier :
          ∃ sooner < index, ∃ other, Offends limit tokens sooner other
      · obtain ⟨sooner, less, other, found⟩ := earlier
        exact induction sooner less found
      · exact ⟨error, index, offends,
          fun sooner less other found => earlier ⟨sooner, less, other, found⟩⟩

theorem inoffensive_or_exists_firstOffence (limit : Int) (tokens : List Token) :
    Inoffensive limit tokens ∨ ∃ error, FirstOffence limit tokens error := by
  by_cases found : ∃ index error, Offends limit tokens index error
  · obtain ⟨index, error, offends⟩ := found
    exact .inr (exists_firstOffence offends)
  · exact .inl fun index error offends => found ⟨index, error, offends⟩

theorem exists_foldlM (fine : Inoffensive limit tokens) :
    ∃ state, tokens.foldlM (step limit) {} = .ok state ∧
      LeftOpen tokens (state.outer.map Prod.snd) := by
  have taken :=
    @exists_foldlM_take limit tokens tokens.length fun index _ => fine index
  rwa [List.take_length] at taken

theorem balanced_or_exists_lastUnclosed (fine : Inoffensive limit tokens) :
    Balanced tokens ∨ ∃ index opening, LastUnclosed tokens index opening := by
  obtain ⟨⟨level, outer⟩, -, left⟩ := exists_foldlM fine
  cases outer with
  | nil =>
      cases left with
      | none balanced => exact .inl balanced
  | cons enclosing outer =>
      obtain ⟨index, opening, unclosed, -⟩ := left.exists_lastUnclosed
      exact .inr ⟨index, opening, unclosed⟩

theorem LastUnclosed.not_balanced {opening : Token}
    (last : LastUnclosed tokens index opening) :
    ¬ Balanced tokens := by
  intro balanced
  have opened := Option.map_eq_some_iff.mpr ⟨opening, last.found, last.opens⟩
  obtain ⟨closing, pair⟩ := balanced.exists_matches opened
  exact last.unmatched closing pair

theorem exists_ofTokens_of_balanced (fine : Inoffensive limit tokens)
    (balanced : Balanced tokens) :
    ∃ lines, Line.ofTokens limit tokens = .ok lines := by
  obtain ⟨state, folded, left⟩ := exists_foldlM fine
  have closed : state.outer = [] := by
    have total := left.total
    rw [balanced.total, List.length_map] at total
    exact List.eq_nil_of_length_eq_zero (by omega)
  rw [Line.ofTokens, folded]
  exact ⟨_, finish_eq_ok_iff.mpr ⟨closed, rfl⟩⟩

theorem ofTokens_of_lastUnclosed {opening : Token}
    (fine : Inoffensive limit tokens)
    (last : LastUnclosed tokens index opening) :
    Line.ofTokens limit tokens =
      .error (.structural .unclosedOpen (some opening.position)) := by
  obtain ⟨⟨level, outer⟩, folded, left⟩ := exists_foldlM fine
  rw [Line.ofTokens, folded]
  cases outer with
  | nil =>
      cases left with
      | none balanced => exact absurd balanced last.not_balanced
  | cons enclosing outer =>
      obtain ⟨_, innermost, unclosed, place⟩ := left.exists_lastUnclosed
      rw [last.unique unclosed, place]
      rfl

/-- A token that breaks a rule is refused before any later one is looked at. -/
theorem ofTokens_of_firstOffence (first : FirstOffence limit tokens error) :
    Line.ofTokens limit tokens = .error error := by
  obtain ⟨index, offends, earlier⟩ := first
  obtain ⟨state, folded, left⟩ := exists_foldlM_take earlier
  obtain ⟨token, here, refused⟩ := offends.exists_step_eq left
  obtain ⟨within, same⟩ := List.getElem?_eq_some_iff.mp here
  have split :
      tokens = tokens.take index ++ token :: tokens.drop (index + 1) := by
    rw [← same, ← List.drop_eq_getElem_cons within, List.take_append_drop]
  rw [Line.ofTokens, split, List.foldlM_append, folded]
  change ((step limit state token >>= _) >>= _) = _
  rw [refused]
  rfl

/-- Braces that never close too many and never open too many break no rule. -/
theorem inoffensive_iff (balanced : Balanced tokens) :
    Inoffensive limit tokens ↔
      (∀ token ∈ tokens, token.symbol ≠ .backslash ∧ token.symbol ≠ .and) ∧
      ∀ index, tokens[index]?.map Token.symbol = some .openBrace →
        levelAt tokens index + 1 ≤ limit := by
  constructor
  · intro fine
    refine ⟨?_, ?_⟩
    · intro token member
      obtain ⟨index, here⟩ := List.mem_iff_getElem?.mp member
      exact ⟨fun symbol => fine index _ (.backslash here symbol),
        fun symbol => fine index _ (.and here symbol)⟩
    · intro index opened
      obtain ⟨token, here, symbol⟩ := Option.map_eq_some_iff.mp opened
      by_contra deep
      exact fine index _ (.deep here symbol (Int.not_le.mp deep))
  · rintro ⟨joined, shallow⟩ index error offends
    cases offends with
    | backslash here symbol =>
        exact (joined _ (List.mem_of_getElem? here)).1 symbol
    | and here symbol => exact (joined _ (List.mem_of_getElem? here)).2 symbol
    | close here symbol outside =>
        have closed_le := balanced.closed_le (index + 1)
        rw [occurrences_take_add_one here, occurrences_take_add_one here,
          if_pos symbol, if_neg (by simp [symbol])] at closed_le
        unfold levelAt at outside
        omega
    | deep here symbol deep =>
        have bound :=
          shallow index (Option.map_eq_some_iff.mpr ⟨_, here, symbol⟩)
        omega

end

end Grouping

open Grouping

theorem Line.exists_ofTokens_iff {limit : Int} {tokens : List Token} :
    (∃ lines, Line.ofTokens limit tokens = .ok lines) ↔
      Inoffensive limit tokens ∧ Balanced tokens := by
  constructor
  · rintro ⟨lines, success⟩
    rcases inoffensive_or_exists_firstOffence limit tokens with
      fine | ⟨error, first⟩
    · rcases balanced_or_exists_lastUnclosed fine with
        balanced | ⟨index, opening, last⟩
      · exact ⟨fine, balanced⟩
      · cases success.symm.trans (ofTokens_of_lastUnclosed fine last)
    · cases success.symm.trans (ofTokens_of_firstOffence first)
  · rintro ⟨fine, balanced⟩
    exact exists_ofTokens_of_balanced fine balanced

theorem Line.ofTokens_eq_error_iff {limit : Int} {tokens : List Token}
    {error : Error} :
    Line.ofTokens limit tokens = .error error ↔
      FirstOffence limit tokens error ∨
        Inoffensive limit tokens ∧
          ∃ index opening, LastUnclosed tokens index opening ∧
            error = .structural .unclosedOpen (some opening.position) := by
  constructor
  · intro failed
    rcases inoffensive_or_exists_firstOffence limit tokens with
      fine | ⟨found, first⟩
    · rcases balanced_or_exists_lastUnclosed fine with
        balanced | ⟨index, opening, last⟩
      · obtain ⟨lines, success⟩ := exists_ofTokens_of_balanced fine balanced
        cases success.symm.trans failed
      · have found := ofTokens_of_lastUnclosed fine last
        exact .inr ⟨fine, index, opening, last,
          Except.error.inj (failed.symm.trans found)⟩
    · have same :=
        Except.error.inj (failed.symm.trans (ofTokens_of_firstOffence first))
      exact .inl (same ▸ first)
  · rintro (first | ⟨fine, index, opening, last, rfl⟩)
    · exact ofTokens_of_firstOffence first
    · exact ofTokens_of_lastUnclosed fine last

/-- Tokens are grouped exactly when nothing is left over that should have joined
lines, the braces are balanced and none is opened beyond the limit.  Otherwise
the failure is that of the first token that breaks a rule, or else of the last
brace that is never closed. -/
theorem Line.ofTokens_verdict (limit : Int) (tokens : List Token) :
    ((∃ lines, Line.ofTokens limit tokens = .ok lines) ↔
      (∀ token ∈ tokens, token.symbol ≠ .backslash ∧ token.symbol ≠ .and) ∧
      (∀ count, occurrences .closeBrace (tokens.take count) ≤
        occurrences .openBrace (tokens.take count)) ∧
      occurrences .openBrace tokens = occurrences .closeBrace tokens ∧
      ∀ index, tokens[index]?.map Token.symbol = some .openBrace →
        levelAt tokens index + 1 ≤ limit) ∧
    (∀ error, Line.ofTokens limit tokens = .error error ↔
      FirstOffence limit tokens error ∨
        Inoffensive limit tokens ∧
          ∃ index opening, LastUnclosed tokens index opening ∧
            error = .structural .unclosedOpen (some opening.position)) ∧
    StructuralReason.unclosedOpen.text = "Unclosed OpenBrace" := by
  refine ⟨?_, fun error => Line.ofTokens_eq_error_iff, rfl⟩
  rw [Line.exists_ofTokens_iff]
  constructor
  · rintro ⟨fine, balanced⟩
    obtain ⟨joined, shallow⟩ := (inoffensive_iff balanced).mp fine
    exact ⟨joined, balanced.closed_le, balanced.total, shallow⟩
  · rintro ⟨joined, closed_le, total, shallow⟩
    have balanced : Balanced tokens := ⟨closed_le, total⟩
    exact ⟨(inoffensive_iff balanced).mpr ⟨joined, shallow⟩, balanced⟩

end CommandScript
