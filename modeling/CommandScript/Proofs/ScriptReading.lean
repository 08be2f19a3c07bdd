import CommandScript.Proofs.LexemeComposition
import CommandScript.Proofs.ScriptGrammar
import CommandScript.Script

/-!
# Reading a script from its symbols

No continuation takes part in a script.  So a text whose lexemes already are a
script is read without any cancelling, and its commands are those of the script.
-/

namespace CommandScript

namespace Grammar

variable {limit : Int}

/-- The symbol can be cancelled together with its neighbour. -/
def Joins (symbol : Symbol) : Prop :=
  symbol = .backslash ∨ symbol = .and

theorem Word.not_joins (word : Word) : ¬ Joins word.symbol := by
  cases word <;> simp [Joins, Word.symbol]

theorem words_not_joins (words : List Word) :
    ∀ symbol ∈ words.map Word.symbol, ¬ Joins symbol := by
  intro symbol member
  obtain ⟨word, -, same⟩ := List.mem_map.mp member
  subst same
  exact Word.not_joins word

mutual

theorem IsScript.not_joins : ∀ {depth : Nat} {symbols : List Symbol}
    {commands : List Command}, IsScript limit depth symbols commands →
    ∀ symbol ∈ symbols, ¬ Joins symbol
  | _, _, _, .last line => line.not_joins
  | _, _, _, .more line separates script => by
      intro symbol member
      rcases List.mem_append.mp member with inside | behind
      · exact line.not_joins symbol inside
      · cases behind with
        | head => rcases separates with same | same <;> simp [Joins, same]
        | tail _ later => exact script.not_joins symbol later

theorem IsLine.not_joins : ∀ {depth : Nat} {symbols : List Symbol}
    {command : Option Command}, IsLine limit depth symbols command →
    ∀ symbol ∈ symbols, ¬ Joins symbol
  | _, _, _, .empty => by simp
  | _, _, _, .plain _ words => by
      intro symbol member
      cases member with
      | head => simp [Joins]
      | tail _ later => exact words_not_joins words symbol later
  | _, _, _, .nested _ words block => by
      intro symbol member
      cases member with
      | head => simp [Joins]
      | tail _ later =>
          rcases List.mem_append.mp later with word | inside
          · exact words_not_joins words symbol word
          · exact block.not_joins symbol inside

theorem IsBlock.not_joins : ∀ {depth : Nat} {symbols : List Symbol}
    {subs : List Command}, IsBlock limit depth symbols subs →
    ∀ symbol ∈ symbols, ¬ Joins symbol
  | _, _, _, .braces _ script => by
      intro symbol member
      rcases List.mem_append.mp member with front | closing
      · cases front with
        | head => simp [Joins]
        | tail _ inside => exact script.not_joins symbol inside
      · simp [Joins, List.mem_singleton.mp closing]

end

theorem IsScript.append {separator : Symbol}
    (separates : separator = .lineBreak ∨ separator = .andAnd) :
    ∀ {depth : Nat} {symbols following : List Symbol}
      {commands later : List Command},
      IsScript limit depth symbols commands →
      IsScript limit depth following later →
      IsScript limit depth (symbols ++ separator :: following)
        (commands ++ later)
  | _, _, _, _, _, .last line, others => .more line separates others
  | _, _, _, _, _, .more line between script, others => by
      rw [List.append_assoc, List.append_assoc]
      exact .more line between (script.append separates others)

end Grammar

open Grammar

theorem Symbol.cancels_eq_false {left right : Symbol} (first : ¬ Joins left)
    (second : ¬ Joins right) : left.cancels right = false := by
  cases cancels : left.cancels right with
  | false => rfl
  | true =>
      unfold Symbol.cancels at cancels
      split at cancels
      · exact absurd (.inl rfl) first
      · exact absurd (.inr rfl) second
      · cases cancels

theorem Continuation.settled_of_not_joins {tokens : List Token}
    (plain : ∀ token ∈ tokens, ¬ Joins token.symbol) : Settled tokens := by
  induction tokens with
  | nil => exact List.isChain_nil
  | cons token tokens induction =>
      obtain ⟨first, others⟩ := List.forall_mem_cons.mp plain
      apply List.isChain_cons.mpr
      constructor
      · intro next member
        exact Symbol.cancels_eq_false first
          (others next (List.mem_of_mem_head? member))
      · exact induction others

theorem Token.sublist_of_ofText {text : String} {symbols : List Symbol}
    {tokens : List Token} (reads : Reads text.toList symbols)
    (success : ofText text = .ok tokens) :
    (tokens.map Token.symbol).Sublist symbols := by
  obtain ⟨lexemes, divides, same⟩ := reads
  subst same
  have reduces := (ofText_eq_ok_iff divides).mp success
  rw [← Lexeme.tokens_map_symbol 0]
  exact reduces.sublist.map Token.symbol

namespace Script

variable {limit : Int} {text : String} {symbols : List Symbol}
  {commands : List Command}

theorem parse_eq_ok_iff :
    parse limit text = .ok commands ↔
      ∃ tokens, Token.ofText text = .ok tokens ∧
        IsScript limit 0 (tokens.map Token.symbol) commands := by
  simp only [parse, Outcome.bind_eq_ok_iff]
  constructor
  · intro success
    obtain ⟨tokens, read, lines, grouped, built⟩ := success
    exact ⟨tokens, read, isScript_of_ofLines grouped built⟩
  · intro success
    obtain ⟨tokens, read, script⟩ := success
    exact ⟨tokens, read, exists_lines_of_isScript script⟩

theorem parse_of_reads (reads : Reads text.toList symbols)
    (script : IsScript limit 0 symbols commands) :
    parse limit text = .ok commands := by
  obtain ⟨lexemes, divides, same⟩ := reads
  subst same
  rw [← Lexeme.tokens_map_symbol 0] at script
  have settled : Continuation.Settled (Lexeme.tokens 0 lexemes) := by
    apply Continuation.settled_of_not_joins
    intro token member
    exact script.not_joins _ (List.mem_map_of_mem member)
  apply parse_eq_ok_iff.mpr
  exact ⟨_, (Token.ofText_eq_ok_iff divides).mpr ⟨.refl, settled⟩, script⟩

end Script

end CommandScript
