import CommandScript.Command.OfLine
import CommandScript.Proofs.LineGrammar

/-!
# The grammar of scripts

A script consists of lines between separators.  A line is empty, or it is an
unquoted name, the words that follow it, and optionally a block, which holds a
script between braces.  Each line that is not empty gives the command of its
name and words, with the commands of its block below it.

Reading takes two passes: the first groups tokens into lines with blocks
anywhere, the second refuses blocks that are out of place.  Together they accept
exactly the sequences that the grammar derives, with the commands of the
derivation.
-/

namespace CommandScript

def Word.symbol : Word → Symbol
  | quoted value => .quoted value
  | unquoted value => .unquoted value

/-- The command called `name` with the operands that the words after its name
give. -/
def Command.ofWords (name : String) (named : name ≠ "") (words : List Word)
    (subs : List Command) : Command where
  name := name
  args := (Operands.ofWords words).args
  options := (Operands.ofWords words).options
  subs := subs
  name_ne_empty := named

namespace Grammar

mutual

/-- script := line (separator line)* -/
inductive IsScript (limit : Int) :
    (depth : Nat) → List Symbol → List Command → Prop where
  | last {depth : Nat} {line : List Symbol} {command : Option Command} :
      IsLine limit depth line command → IsScript limit depth line command.toList
  | more {depth : Nat} {line script : List Symbol} {separator : Symbol}
      {command : Option Command} {commands : List Command} :
      IsLine limit depth line command →
      separator = .lineBreak ∨ separator = .andAnd →
      IsScript limit depth script commands →
      IsScript limit depth (line ++ separator :: script)
        (command.toList ++ commands)

/-- line := empty | name word* | name word* block -/
inductive IsLine (limit : Int) :
    (depth : Nat) → List Symbol → Option Command → Prop where
  | empty {depth : Nat} : IsLine limit depth [] none
  | plain {depth : Nat} {name : String} (named : name ≠ "")
      (words : List Word) :
      IsLine limit depth (.unquoted name :: words.map Word.symbol)
        (some (.ofWords name named words []))
  | nested {depth : Nat} {name : String} {block : List Symbol}
      {subs : List Command} (named : name ≠ "") (words : List Word) :
      IsBlock limit depth block subs →
      IsLine limit depth (.unquoted name :: words.map Word.symbol ++ block)
        (some (.ofWords name named words subs))

/-- block := "{" script "}", one level deeper than the line it belongs to -/
inductive IsBlock (limit : Int) :
    (depth : Nat) → List Symbol → List Command → Prop where
  | braces {depth : Nat} {script : List Symbol} {commands : List Command} :
      (depth + 1 : Nat) ≤ limit → IsScript limit (depth + 1) script commands →
      IsBlock limit depth (.openBrace :: script ++ [.closeBrace]) commands

end

end Grammar

open Grouping Grammar

namespace Command

theorem ofLines_cons_eq_ok_iff {line : Line} {lines : List Line}
    {commands : List Command} :
    ofLines (line :: lines) = .ok commands ↔
      ∃ command others, ofLine line = .ok command ∧ ofLines lines = .ok others ∧
        command.toList ++ others = commands := by
  rw [ofLines, Outcome.bind_eq_ok_iff]
  simp only [Outcome.bind_eq_ok_iff, Outcome.pure_eq_ok_iff]
  constructor
  · rintro ⟨command, first, others, rest, same⟩
    exact ⟨command, others, first, rest, same⟩
  · rintro ⟨command, others, first, rest, same⟩
    exact ⟨command, first, others, rest, same⟩

theorem ofLines_kept (lines : List Line) :
    ofLines (kept lines) = ofLines lines := by
  induction lines with
  | nil => rfl
  | cons line lines induction =>
      cases line with
      | nil =>
          rw [ofLines, ofLine]
          change ofLines (kept lines) = _
          rw [induction]
          cases ofLines lines <;> rfl
      | cons item items =>
          change ofLines ((item :: items) :: kept lines) = _
          rw [ofLines, ofLines, induction]

theorem make_ofWords_eq_ok_iff {name : String} {words : List Word}
    {subs : List Command} {command : Command} :
    make name (Operands.ofWords words).args (Operands.ofWords words).options
        subs = .ok command ↔
      ∃ named : name ≠ "", ofWords name named words subs = command := by
  unfold make
  by_cases empty : name = ""
  · simp [empty]
  · simp [empty, ofWords]

theorem ofLine_unquoted_eq_ok_iff {token : Token} {name : String} {rest : Line}
    (symbol : token.symbol = .unquoted name) {command : Option Command} :
    ofLine (.token token :: rest) = .ok command ↔
      ∃ (named : name ≠ "") (subs : List Command), subsOfItems rest = .ok subs ∧
        some (ofWords name named (Word.ofLine rest) subs) = command := by
  rw [ofLine]
  simp only [symbol, Outcome.bind_eq_ok_iff, Outcome.pure_eq_ok_iff,
    make_ofWords_eq_ok_iff]
  constructor
  · rintro ⟨subs, below, _, ⟨named, rfl⟩, same⟩
    exact ⟨named, subs, below, same⟩
  · rintro ⟨named, subs, below, same⟩
    exact ⟨subs, below, _, ⟨named, rfl⟩, same⟩

theorem ofLine_token_eq_ok {token : Token} {rest : Line}
    {command : Option Command}
    (success : ofLine (.token token :: rest) = .ok command) :
    ∃ name, token.symbol = .unquoted name := by
  rw [ofLine] at success
  cases symbol : token.symbol with
  | unquoted name => exact ⟨name, rfl⟩
  | _ =>
      rw [symbol] at success
      cases success

theorem subsOfItems_block_eq_ok_iff {lines : List Line} {position : Int}
    {rest : Line} {subs : List Command} :
    subsOfItems (.block lines position :: rest) = .ok subs ↔
      ofLines lines = .ok subs ∧ rest = [] := by
  rw [subsOfItems, Outcome.bind_eq_ok_iff]
  cases rest with
  | nil => simp [Outcome.pure_eq_ok_iff]
  | cons next rest => simp

end Command

namespace Grouping

variable {limit : Int}

theorem IsContent.exists_word {token : Token} (content : IsContent token) :
    ∃ word : Word, token.symbol = word.symbol ∧
      Word.ofSymbol? token.symbol = some word := by
  unfold IsContent at content
  cases symbol : token.symbol with
  | quoted value => exact ⟨.quoted value, rfl, rfl⟩
  | unquoted value => exact ⟨.unquoted value, rfl, rfl⟩
  | _ =>
      rw [symbol] at content
      cases content

/-- The words `words`, and after them either nothing or a block that holds
`subs`. -/
def Follows (limit : Int) (depth : Nat) (tokens : List Token)
    (words : List Word) (subs : List Command) : Prop :=
  tokens.map Token.symbol = words.map Word.symbol ∧ subs = [] ∨
    ∃ block, tokens.map Token.symbol = words.map Word.symbol ++ block ∧
      IsBlock limit depth block subs

theorem Follows.cons {depth : Nat} {token : Token} {tokens : List Token}
    {word : Word} {words : List Word} {subs : List Command}
    (symbol : token.symbol = word.symbol)
    (follows : Follows limit depth tokens words subs) :
    Follows limit depth (token :: tokens) (word :: words) subs := by
  rcases follows with ⟨same, none⟩ | ⟨block, same, braces⟩
  · left
    exact ⟨by rw [List.map_cons, List.map_cons, symbol, same], none⟩
  · right
    refine ⟨block, ?_, braces⟩
    rw [List.map_cons, List.map_cons, List.cons_append, symbol, same]

theorem Follows.isLine {depth : Nat} {head : Token} {name : String}
    {tokens : List Token} {words : List Word} {subs : List Command}
    (symbol : head.symbol = .unquoted name) (named : name ≠ "")
    (follows : Follows limit depth tokens words subs) :
    IsLine limit depth ((head :: tokens).map Token.symbol)
      (some (.ofWords name named words subs)) := by
  rw [List.map_cons, symbol]
  rcases follows with ⟨same, rfl⟩ | ⟨block, same, braces⟩
  · rw [same]
    exact .plain named words
  · rw [same]
    exact .nested named words braces

mutual

theorem IsLines.isScript :
    ∀ {depth : Nat} {tokens : List Token} {lines : List Line},
      IsLines limit depth tokens lines →
      ∀ ⦃commands : List Command⦄, Command.ofLines lines = .ok commands →
        IsScript limit depth (tokens.map Token.symbol) commands
  | _, _, _, .last items => by
      intro _ success
      obtain ⟨command, _, first, none, rfl⟩ :=
        Command.ofLines_cons_eq_ok_iff.mp success
      rw [Command.ofLines] at none
      cases none
      rw [List.append_nil]
      exact .last (items.isLine first)
  | _, _, _, .more items separates following => by
      intro _ success
      obtain ⟨command, others, first, rest, rfl⟩ :=
        Command.ofLines_cons_eq_ok_iff.mp success
      rw [List.map_append, List.map_cons]
      exact .more (items.isLine first) separates (following.isScript rest)

theorem IsItems.isLine : ∀ {depth : Nat} {tokens : List Token} {items : Line},
    IsItems limit depth tokens items →
    ∀ ⦃command : Option Command⦄, Command.ofLine items = .ok command →
      IsLine limit depth (tokens.map Token.symbol) command
  | _, _, _, .nil => by
      intro _ success
      rw [Command.ofLine] at success
      cases success
      exact .empty
  | _, _, _, .content _ rest => by
      intro _ success
      obtain ⟨name, symbol⟩ := Command.ofLine_token_eq_ok success
      obtain ⟨named, subs, below, rfl⟩ :=
        (Command.ofLine_unquoted_eq_ok_iff symbol).mp success
      exact (rest.follows below).isLine symbol named
  | _, _, _, .block _ _ _ _ _ => by
      intro _ success
      rw [Command.ofLine] at success
      cases success

/-- The items after a name are words, and a block at most at the end. -/
theorem IsItems.follows : ∀ {depth : Nat} {tokens : List Token} {items : Line},
    IsItems limit depth tokens items →
    ∀ ⦃subs : List Command⦄, Command.subsOfItems items = .ok subs →
      Follows limit depth tokens (Word.ofLine items) subs
  | _, _, _, .nil => by
      intro _ success
      rw [Command.subsOfItems] at success
      cases success
      left
      exact ⟨rfl, rfl⟩
  | _, _, _, .content content rest => by
      intro _ success
      obtain ⟨word, symbol, carried⟩ := content.exists_word
      rw [Command.subsOfItems] at success
      rw [Word.ofLine, carried]
      exact (rest.follows success).cons symbol
  | _, _, _, @IsItems.block _ _ opening closing inside _ _ _ opens closes
      shallow inner rest => by
      intro _ success
      obtain ⟨below, rfl⟩ := Command.subsOfItems_block_eq_ok_iff.mp success
      cases rest
      rw [Command.ofLines_kept] at below
      right
      refine ⟨.openBrace :: inside.map Token.symbol ++ [.closeBrace], ?_, ?_⟩
      · simp [Word.ofLine, opens, closes]
      · exact .braces shallow (inner.isScript below)

end

theorem exists_word_of_symbol {token : Token} {word : Word}
    (symbol : token.symbol = word.symbol) :
    IsContent token ∧ Word.ofSymbol? token.symbol = some word := by
  unfold IsContent
  rw [symbol]
  cases word <;> exact ⟨rfl, rfl⟩

theorem IsItems.prepend_words {depth : Nat} {front tokens : List Token}
    {items : Line} {words : List Word}
    (same : front.map Token.symbol = words.map Word.symbol)
    (derivation : IsItems limit depth tokens items) :
    IsItems limit depth (front ++ tokens) (front.map Item.token ++ items) ∧
      Word.ofLine (front.map Item.token ++ items) = words ++ Word.ofLine items ∧
      Command.subsOfItems (front.map Item.token ++ items) =
        Command.subsOfItems items := by
  induction front generalizing words with
  | nil =>
      obtain rfl : words = [] := by simpa using same.symm
      exact ⟨derivation, rfl, rfl⟩
  | cons token front induction =>
      cases words with
      | nil => cases same
      | cons word words =>
          obtain ⟨symbol, same⟩ := List.cons.inj same
          obtain ⟨content, carried⟩ := exists_word_of_symbol symbol
          obtain ⟨grown, read, below⟩ := induction same
          refine ⟨.content content grown, ?_, ?_⟩
          · rw [List.map_cons, List.cons_append, Word.ofLine, carried, read]
            rfl
          · rw [List.map_cons, List.cons_append, Command.subsOfItems, below]

theorem exists_items_of_words {depth : Nat} {head : Token}
    {front tokens : List Token} {name : String} {words : List Word}
    {items : Line} {subs : List Command} (symbol : head.symbol = .unquoted name)
    (named : name ≠ "") (same : front.map Token.symbol = words.map Word.symbol)
    (derivation : IsItems limit depth tokens items)
    (wordless : Word.ofLine items = [])
    (below : Command.subsOfItems items = .ok subs) :
    ∃ line, IsItems limit depth (head :: (front ++ tokens)) line ∧
      Command.ofLine line = .ok (some (.ofWords name named words subs)) := by
  obtain ⟨grown, read, same⟩ := derivation.prepend_words same
  rw [wordless, List.append_nil] at read
  rw [below] at same
  have content : IsContent head := by
    unfold IsContent
    rw [symbol]
    rfl
  refine ⟨_, .content content grown, ?_⟩
  rw [Command.ofLine_unquoted_eq_ok_iff symbol]
  exact ⟨named, subs, same, by rw [read]⟩

end Grouping

namespace Grammar

variable {limit : Int}

mutual

/-- The tokens of a script are grouped into lines that give its commands. -/
theorem IsScript.exists_lines : ∀ {depth : Nat} {symbols : List Symbol}
    {commands : List Command}, IsScript limit depth symbols commands →
    ∀ ⦃tokens : List Token⦄, tokens.map Token.symbol = symbols →
      ∃ lines, IsLines limit depth tokens lines ∧
        Command.ofLines lines = .ok commands
  | _, _, _, .last line => by
      intro tokens same
      obtain ⟨items, derivation, command⟩ := line.exists_items same
      refine ⟨[items], .last derivation, ?_⟩
      rw [Command.ofLines_cons_eq_ok_iff]
      exact ⟨_, [], command, by rw [Command.ofLines], List.append_nil _⟩
  | _, _, _, .more line separates script => by
      intro tokens same
      obtain ⟨front, back, rfl, lineSame, backSame⟩ :=
        List.map_eq_append_iff.mp same
      obtain ⟨separator, rest, rfl, rfl, scriptSame⟩ :=
        List.map_eq_cons_iff.mp backSame
      obtain ⟨items, derivation, command⟩ := line.exists_items lineSame
      obtain ⟨lines, following, others⟩ := script.exists_lines scriptSame
      refine ⟨items :: lines, .more derivation separates following, ?_⟩
      rw [Command.ofLines_cons_eq_ok_iff]
      exact ⟨_, _, command, others, rfl⟩

theorem IsLine.exists_items : ∀ {depth : Nat} {symbols : List Symbol}
    {command : Option Command}, IsLine limit depth symbols command →
    ∀ ⦃tokens : List Token⦄, tokens.map Token.symbol = symbols →
      ∃ items, IsItems limit depth tokens items ∧
        Command.ofLine items = .ok command
  | _, _, _, .empty => by
      intro tokens same
      obtain rfl := List.map_eq_nil_iff.mp same
      exact ⟨[], .nil, by rw [Command.ofLine]⟩
  | _, _, _, .plain named words => by
      intro tokens same
      obtain ⟨head, front, rfl, symbol, frontSame⟩ :=
        List.map_eq_cons_iff.mp same
      have childless : Command.subsOfItems [] = .ok [] := by
        rw [Command.subsOfItems]
      rw [← List.append_nil front]
      exact exists_items_of_words symbol named frontSame .nil rfl childless
  | _, _, _, .nested named words block => by
      intro tokens same
      obtain ⟨head, rest, rfl, symbol, restSame⟩ := List.map_eq_cons_iff.mp same
      obtain ⟨front, back, rfl, frontSame, blockSame⟩ :=
        List.map_eq_append_iff.mp restSame
      obtain ⟨items, derivation, wordless, below⟩ :=
        block.exists_items blockSame
      exact exists_items_of_words symbol named frontSame derivation wordless
        below

theorem IsBlock.exists_items : ∀ {depth : Nat} {symbols : List Symbol}
    {subs : List Command}, IsBlock limit depth symbols subs →
    ∀ ⦃tokens : List Token⦄, tokens.map Token.symbol = symbols →
      ∃ items, IsItems limit depth tokens items ∧ Word.ofLine items = [] ∧
        Command.subsOfItems items = .ok subs
  | _, _, _, .braces shallow script => by
      intro tokens same
      obtain ⟨front, back, rfl, openSame, closeSame⟩ :=
        List.map_eq_append_iff.mp same
      obtain ⟨opening, inside, rfl, opens, insideSame⟩ :=
        List.map_eq_cons_iff.mp openSame
      obtain ⟨closing, none, rfl, closes, noneSame⟩ :=
        List.map_eq_cons_iff.mp closeSame
      obtain rfl := List.map_eq_nil_iff.mp noneSame
      obtain ⟨lines, derivation, commands⟩ := script.exists_lines insideSame
      refine ⟨_, .block opens closes shallow derivation .nil, rfl, ?_⟩
      rw [Command.subsOfItems_block_eq_ok_iff, Command.ofLines_kept]
      exact ⟨commands, rfl⟩

end

end Grammar

namespace Script

/-- Grouped tokens whose lines give commands are a script. -/
theorem isScript_of_ofLines {limit : Int} {tokens : List Token}
    {lines : List Line} {commands : List Command}
    (grouped : Line.ofTokens limit tokens = .ok lines)
    (success : Command.ofLines lines = .ok commands) :
    IsScript limit 0 (tokens.map Token.symbol) commands := by
  obtain ⟨all, derivation, rfl⟩ := Line.ofTokens_eq_ok_iff.mp grouped
  rw [Command.ofLines_kept] at success
  exact derivation.isScript success

theorem exists_lines_of_isScript {limit : Int} {tokens : List Token}
    {commands : List Command}
    (script : IsScript limit 0 (tokens.map Token.symbol) commands) :
    ∃ lines, Line.ofTokens limit tokens = .ok lines ∧
      Command.ofLines lines = .ok commands := by
  obtain ⟨all, derivation, success⟩ := script.exists_lines rfl
  refine ⟨kept all, Line.ofTokens_eq_ok_iff.mpr ⟨all, derivation, rfl⟩, ?_⟩
  rw [Command.ofLines_kept]
  exact success

/-- Tokens give commands exactly when they are a script, at any limit, and the
commands are those of the script. -/
theorem structural_grammar (limit : Int) (tokens : List Token)
    (commands : List Command) :
    (Line.ofTokens limit tokens >>= Command.ofLines) = .ok commands ↔
      IsScript limit 0 (tokens.map Token.symbol) commands := by
  rw [Outcome.bind_eq_ok_iff]
  constructor
  · rintro ⟨lines, grouped, success⟩
    exact isScript_of_ofLines grouped success
  · exact exists_lines_of_isScript

end Script

end CommandScript
