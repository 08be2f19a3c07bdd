import CommandScript.Proofs.ParsedCommands
import CommandScript.Proofs.Relocation
import CommandScript.Proofs.TextComposition
import CommandScript.Settings

/-!
# Scripts made of scripts

Scripts can be put one after another, with a separator between them, or inside a
block.  What is between them ends every term and every continuation that the
script before could have left open, so each part is read as it would be on its
own.  Where the part behind `&&` fails, the whole fails for the same reason, as
much further on as that part stands.
-/

namespace CommandScript

open Outcome Grouping

namespace Error

theorem Moved.eq_relocated {distance : Int} {error other : Error}
    (moved :
      error.Moved (fun source target => target = source + distance) other)
    (text : String) : other = error.relocated distance text := by
  cases moved with
  | structural place =>
      rw [place]
      rfl
  | nesting place =>
      rw [place]
      rfl
  | emptyName => rfl

end Error

theorem Token.shiftAll_moved (distance : Nat) (tokens : List Token) :
    List.Forall₂ (Token.Moved fun source target => target = source + distance)
      tokens (shiftAll distance tokens) := by
  rw [shiftAll, List.forall₂_map_right_iff, List.forall₂_same]
  intro token _
  exact ⟨rfl, rfl⟩

namespace Grammar

mutual

theorem IsScript.deeper {limit : Int} : ∀ {depth : Nat} {symbols : List Symbol}
    {commands : List Command}, IsScript limit depth symbols commands →
    IsScript (limit + 1) (depth + 1) symbols commands
  | _, _, _, .last line => .last line.deeper
  | _, _, _, .more line separates script =>
      .more line.deeper separates script.deeper

theorem IsLine.deeper {limit : Int} : ∀ {depth : Nat} {symbols : List Symbol}
    {command : Option Command}, IsLine limit depth symbols command →
    IsLine (limit + 1) (depth + 1) symbols command
  | _, _, _, .empty => .empty
  | _, _, _, .plain named words => .plain named words
  | _, _, _, .nested named words block => .nested named words block.deeper

theorem IsBlock.deeper {limit : Int} : ∀ {depth : Nat} {symbols : List Symbol}
    {subs : List Command}, IsBlock limit depth symbols subs →
    IsBlock (limit + 1) (depth + 1) symbols subs
  | _, _, _, .braces shallow script => by
      refine .braces ?_ script.deeper
      omega

end

end Grammar

namespace Grouping

variable {tokens : List Token}

theorem exists_words (content : ∀ token ∈ tokens, IsContent token) :
    ∃ words : List Word, tokens.map Token.symbol = words.map Word.symbol := by
  induction tokens with
  | nil => exact ⟨[], rfl⟩
  | cons token tokens induction =>
      obtain ⟨first, others⟩ := List.forall_mem_cons.mp content
      obtain ⟨word, same, -⟩ := first.exists_word
      obtain ⟨words, following⟩ := induction others
      refine ⟨word :: words, ?_⟩
      rw [List.map_cons, List.map_cons, same, following]

theorem exists_name_words {text name : String}
    (read : Token.ofText text = .ok tokens)
    (content : ∀ token ∈ tokens, IsContent token)
    (named : tokens.head?.map Token.symbol = some (.unquoted name)) :
    name ≠ "" ∧ ∃ words : List Word,
      tokens.map Token.symbol = .unquoted name :: words.map Word.symbol := by
  cases tokens with
  | nil => cases named
  | cons head rest =>
      have same : head.symbol = .unquoted name := by simpa using named
      obtain ⟨words, following⟩ :=
        exists_words (List.forall_mem_cons.mp content).2
      have writable : Spelling.WritableName name :=
        Token.writableName_of_ofText read
          (List.mem_map.mpr ⟨head, List.mem_cons_self, same⟩)
      constructor
      · intro empty
        subst empty
        obtain ⟨first, member, -⟩ := writable.bareFirst
        cases member
      · exact ⟨words, by rw [List.map_cons, same, following]⟩

end Grouping

namespace Script

open Grammar Command

variable {limit : Int} {first second whole : String}
  {commands later : List Command} {between : List Char} {lead : Nat}
  {symbol : Symbol}

/-- The tokens of a script that gives commands take no part in continuations. -/
theorem not_joins_of_parse {tokens : List Token}
    (read : Token.ofText first = .ok tokens)
    (success : parse limit first = .ok commands) :
    ∀ token ∈ tokens, ¬ Joins token.symbol := by
  obtain ⟨others, same, script⟩ := parse_eq_ok_iff.mp success
  rw [read] at same
  cases same
  intro token member
  exact script.not_joins _ (List.mem_map_of_mem member)

theorem last_not_cancels {tokens : List Token}
    (read : Token.ofText first = .ok tokens)
    (success : parse limit first = .ok commands) (plain : ¬ Joins symbol) :
    ∀ last ∈ tokens.getLast?, last.symbol.cancels symbol = false := by
  intro last member
  have lastPlain :=
    not_joins_of_parse read success last (List.mem_of_mem_getLast? member)
  exact Symbol.cancels_eq_false lastPlain plain

/-- Two scripts with a separator between them give the commands of both. -/
theorem parse_append (delimits : Delimits between lead symbol)
    (separates : symbol = .lineBreak ∨ symbol = .andAnd)
    (parts : whole.toList = first.toList ++ between ++ second.toList)
    (success : parse limit first = .ok commands)
    (successLater : parse limit second = .ok later) :
    parse limit whole = .ok (commands ++ later) := by
  obtain ⟨tokens, read, script⟩ := parse_eq_ok_iff.mp success
  obtain ⟨others, readLater, following⟩ := parse_eq_ok_iff.mp successLater
  have plain : ¬ Joins symbol := by
    rcases separates with same | same <;> simp [Joins, same]
  have behind : ∀ token ∈ others, symbol.cancels token.symbol = false := by
    intro token member
    exact Symbol.cancels_eq_false plain
      (not_joins_of_parse readLater successLater token member)
  have together := Token.ofText_append delimits parts read readLater
    (last_not_cancels read success plain) (fun same => plain (.inl same)) behind
  apply parse_eq_ok_iff.mpr
  refine ⟨_, together, ?_⟩
  rw [List.map_append, List.map_cons, Token.shiftAll_map_symbol]
  exact script.append separates following

/-- Where the script behind `&&` fails, both fail for the same reason. -/
theorem parse_append_error (delimits : Delimits between lead .andAnd)
    (parts : whole.toList = first.toList ++ between ++ second.toList)
    (success : parse limit first = .ok commands) {error : Error}
    (failed : parse limit second = .error error) :
    parse limit whole =
      .error (error.relocated
        (first.toList.length + between.length : Nat) whole) := by
  obtain ⟨tokens, read, script⟩ := parse_eq_ok_iff.mp success
  obtain ⟨lines, grouped, built⟩ := exists_lines_of_isScript script
  cases readLater : Token.ofText second with
  | error fault =>
      rw [parse, readLater] at failed
      cases failed
      rw [parse, Token.ofText_append_fault delimits parts read readLater]
      rfl
  | ok others =>
      have plain : ¬ Joins .andAnd := by simp [Joins]
      have together := Token.ofText_append delimits parts read readLater
        (last_not_cancels read success plain) (by decide) fun _ _ => rfl
      have separates :
          Separates ⟨.andAnd, (first.toList.length + lead : Nat)⟩ :=
        .inr rfl
      have moved :=
        Token.shiftAll_moved (first.toList.length + between.length) others
      have behaves := (Line.ofTokens_behind grouped separates moved).bind
        fun _ _ behind => Command.ofLines_behind built behind
      rw [parse, readLater] at failed
      obtain ⟨other, failedToo, same⟩ := behaves.eq_error failed
      rw [same.eq_relocated whole] at failedToo
      rw [parse, together]
      exact failedToo

/-- A line that consists of a name and words gives a command, and with a block
behind it the same command above those of the block. -/
theorem parse_nested {heading body name : String} {tokens : List Token}
    {subs : List Command} (read : Token.ofText heading = .ok tokens)
    (content : ∀ token ∈ tokens, IsContent token)
    (named : tokens.head?.map Token.symbol = some (.unquoted name))
    (shallow : 1 ≤ limit) (success : parse (limit - 1) body = .ok subs) :
    ∃ command, parse limit heading = .ok [command] ∧
      parse limit (heading ++ " \x7b" ++ body ++ "\x7d") =
        .ok [{ command with subs }] := by
  obtain ⟨nonempty, words, symbols⟩ := exists_name_words read content named
  obtain ⟨inner, readBody, script⟩ := parse_eq_ok_iff.mp success
  obtain ⟨all, together, allSymbols⟩ := Token.ofText_block read readBody
  refine ⟨.ofWords name nonempty words [], ?_, ?_⟩
  · apply parse_eq_ok_iff.mpr
    refine ⟨tokens, read, ?_⟩
    rw [symbols]
    exact .last (.plain nonempty words)
  · have inside := script.deeper
    rw [Int.sub_add_cancel] at inside
    have line := IsLine.nested nonempty words (.braces (by omega) inside)
    apply parse_eq_ok_iff.mpr
    refine ⟨all, together, ?_⟩
    rw [allSymbols, symbols]
    exact .last line

/-- What is read from texts that are put together.  Behind a text that gives
commands, a text after `&&` gives what it gives on its own, be it commands or a
failure further on.  The same holds of commands after a line end.  A block
behind a line of words gives its commands to the command of the line. -/
theorem parse_composition (limit : DepthLimit) :
    (∀ first second commands, parse limit.value first = .ok commands →
      (∀ later, parse limit.value second = .ok later →
        parse limit.value (first ++ " && " ++ second) =
          .ok (commands ++ later)) ∧
      (∀ error, parse limit.value second = .error error →
        parse limit.value (first ++ " && " ++ second) =
          .error
            (error.relocated (first.length + 4) (first ++ " && " ++ second))) ∧
      ∀ lineEnd ∈ ["\n", "\r\n"],
        ∀ later, parse limit.value second = .ok later →
          parse limit.value (first ++ lineEnd ++ second) =
            .ok (commands ++ later)) ∧
    ∀ heading body tokens subs, Token.ofText heading = .ok tokens →
      (∀ token ∈ tokens, IsContent token) →
      (∃ name, tokens.head?.map Token.symbol = some (.unquoted name)) →
      2 ≤ limit.value → parse (limit.value - 1) body = .ok subs →
      ∃ command, parse limit.value heading = .ok [command] ∧
        parse limit.value (heading ++ " \x7b" ++ body ++ "\x7d") =
          .ok [{ command with subs }] := by
  constructor
  · intro first second commands success
    refine ⟨?_, ?_, ?_⟩
    · intro later successLater
      exact parse_append .andAnd (.inr rfl) (by simp) success successLater
    · intro error failed
      have located : parse limit.value (first ++ " && " ++ second) =
          .error (error.relocated (first.toList.length + 4 : Nat) _) :=
        parse_append_error .andAnd (by simp) success failed
      rw [String.length_toList] at located
      exact located
    · intro lineEnd member later successLater
      obtain ⟨afterReturn, spelled⟩ :
          ∃ afterReturn,
            lineEnd.toList = (Lexeme.lineBreak afterReturn).text := by
        have feed : lineEnd = "\n" ∨ lineEnd = "\r\n" := by simpa using member
        rcases feed with same | same
        · exact ⟨false, congrArg String.toList same⟩
        · exact ⟨true, congrArg String.toList same⟩
      apply parse_append (.lineBreak afterReturn) (.inl rfl) _ success
        successLater
      rw [String.toList_append, String.toList_append, spelled]
  · intro heading body tokens subs read content named deep success
    obtain ⟨name, named⟩ := named
    exact parse_nested read content named (by omega) success

/-- The option at the end of the first part takes no value from the second one,
and the brace that stays open is the eleventh character of the whole. -/
theorem parse_composition_flag :
    parse 64 "a -k && b" =
        .ok [{ name := "a", options := [("-k", none)] }, { name := "b" }] ∧
      parse 64 "a -k && b \x7b" = .error (.structural .unclosedOpen (some 10)) ∧
      parse 64 "a -k \x7bb\x7d" =
        .ok [{ name := "a", options := [("-k", none)],
               subs := [{ name := "b" }] }] := by
  have composition := parse_composition DepthLimit.default
  have front :
      parse 64 "a -k" = .ok [{ name := "a", options := [("-k", none)] }] := by
    decide +kernel
  have back : parse 64 "b" = .ok [{ name := "b" }] := by decide +kernel
  have broken :
      parse 64 "b \x7b" = .error (.structural .unclosedOpen (some 2)) := by
    decide +kernel
  have inside : parse 63 "b" = .ok [{ name := "b" }] := by decide +kernel
  have heading : Token.ofText "a -k" =
      .ok [⟨.unquoted "a", 0⟩, ⟨.unquoted "-k", 2⟩] := by decide +kernel
  refine ⟨(composition.1 "a -k" "b" _ front).1 _ back, ?_, ?_⟩
  · exact (composition.1 "a -k" "b \x7b" _ front).2.1 _ broken
  · obtain ⟨command, line, nested⟩ := composition.2 "a -k" "b" _ _ heading
      (by simp [IsContent, Symbol.kind, Kind.hasText]) ⟨"a", rfl⟩
      (by decide) inside
    rw [show DepthLimit.default.value = 64 from rfl, front] at line
    cases line
    exact nested

end Script

end CommandScript
