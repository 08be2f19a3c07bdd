import CommandScript.Proofs.ScriptReading
import CommandScript.Proofs.Writability
import CommandScript.Proofs.WrittenTerms

/-!
# Written commands are read as lines

`Command.symbols` says which symbols a written command is read as, wherever it
ends up in the text: those of its terms, and those of its block.  They are a
line of the script grammar unless an option key is read as a separator, and
`Command.readBack` says which command the line gives.  It differs from the one
that was written where line ends are moved by the indentation, and where an
option key does not start with a dash.
-/

namespace CommandScript

open Grammar

namespace Style

def displacedOption (style : Style) (levels : Nat)
    (option : String × Option String) : String × Option String :=
  (style.displaced levels option.1, option.2.map (style.displaced levels))

theorem displaced_ne_empty {style : Style} {levels : Nat} {value : String}
    (nonempty : value ≠ "") : style.displaced levels value ≠ "" := by
  intro empty
  have lost : style.displace levels value.toList = [] := by
    simpa [displaced] using congrArg String.toList empty
  have same := style.head?_displace levels value.toList
  rw [lost] at same
  have none := List.head?_eq_none_iff.mp same.symm
  exact nonempty (by simpa using none)

theorem shift_blank {style : Style} {levels : Nat} {char : Char}
    (blank : isBlank char = true) (text : List Char) :
    style.shift levels (char :: text) = char :: style.shift levels text := by
  apply shift_cons
  intro feed
  subst feed
  exact absurd blank (by decide)

theorem shift_intercalate (style : Style) (levels : Nat) (separator : List Char)
    (texts : List (List Char)) :
    style.shift levels (separator.intercalate texts) =
      (style.shift levels separator).intercalate
        (texts.map (style.shift levels)) := by
  match texts with
  | [] => exact shift_of_not_mem List.not_mem_nil
  | [text] => simp
  | first :: second :: texts =>
      have others := shift_intercalate style levels separator (second :: texts)
      rw [List.map_cons] at others
      rw [List.intercalate_cons_cons, List.map_cons, List.map_cons,
        List.intercalate_cons_cons, shift_append, shift_append, others]

end Style

namespace Spelling

def optionWords (option : String × Option String) : List Word :=
  keyWords option.1 ++ (option.2.map valueWord).toList

/-- The words that arguments and options are written as. -/
def operandWords (args : List String)
    (options : List (String × Option String)) : List Word :=
  args.map valueWord ++ options.flatMap optionWords

/-- The terms, moved `levels` levels inside, are read as the symbols. -/
inductive TermsRead (style : Style) (levels : Nat) :
    List String → List Symbol → Prop where
  | nil : TermsRead style levels [] []
  | cons {term : String} {terms : List String} {front symbols : List Symbol} :
      Reads (style.shift levels term.toList) front →
      TermsRead style levels terms symbols →
      TermsRead style levels (term :: terms) (front ++ symbols)

namespace TermsRead

variable {style : Style} {levels : Nat} {terms others : List String}
  {symbols following : List Symbol}

theorem append (first : TermsRead style levels terms symbols)
    (second : TermsRead style levels others following) :
    TermsRead style levels (terms ++ others) (symbols ++ following) := by
  induction first with
  | nil => exact second
  | cons reads _ induction =>
      rw [List.append_assoc]
      exact .cons reads induction

theorem reads_ownText (read : TermsRead style levels terms symbols) :
    Reads (style.shift levels (Command.ownText terms)) symbols := by
  induction read with
  | nil =>
      rw [Style.shift_of_not_mem (by simp [Command.ownText])]
      exact Reads.nil
  | @cons term terms front symbols reads read induction =>
      cases terms with
      | nil =>
          cases read
          simpa [Command.ownText] using reads
      | cons next terms =>
          have spaced : Command.ownText (term :: next :: terms) =
              term.toList ++ ' ' :: Command.ownText (next :: terms) := by
            simp [Command.ownText, List.intercalate_cons_cons]
          rw [spaced, Style.shift_append, Style.shift_blank rfl]
          exact reads.append (induction.blank rfl) (boundary_cons.mpr rfl)

theorem values (style : Style) (levels : Nat) (values : List String) :
    TermsRead style levels (values.map (ofValue style.escapeBreaks))
      (((values.map (style.displaced levels)).map valueWord).map
        Word.asRead) := by
  induction values with
  | nil => exact .nil
  | cons value values induction =>
      exact .cons (reads_ofValue style levels value) induction

theorem option {pair : String × Option String} {terms : List String}
    (success : Command.optionTerms style pair = .ok terms) :
    TermsRead style levels terms
      ((optionWords (style.displacedOption levels pair)).map Word.asRead) := by
  obtain ⟨key, keyWritten, same⟩ := Command.optionTerms_eq_ok_iff.mp success
  subst same
  rw [optionWords, List.map_append]
  apply TermsRead.cons (reads_ofKey keyWritten)
  cases given : pair.2 with
  | none => simpa [Style.displacedOption, given] using TermsRead.nil
  | some value =>
      simpa [Style.displacedOption, given]
        using TermsRead.values style levels [value]

theorem options {pairs : List (String × Option String)}
    {termLists : List (List String)}
    (written : List.Forall₂
      (fun pair terms => Command.optionTerms style pair = .ok terms)
      pairs termLists) :
    TermsRead style levels termLists.flatten
      (((pairs.map (style.displacedOption levels)).flatMap optionWords).map
        Word.asRead) := by
  induction written with
  | nil => exact .nil
  | @cons pair terms pairs termLists success _ induction =>
      rw [List.flatten_cons, List.map_cons, List.flatMap_cons, List.map_append]
      exact (option success).append induction

end TermsRead

end Spelling

namespace Command

open Spelling

variable {style : Style} {limit : Int} {level : Nat}

/-- No option key is a separator when it is written as it is. -/
def KeysApart (command : Command) : Prop :=
  ∀ option ∈ command.options, option.1 ≠ "&" ∧ option.1 ≠ "&&"

/-- The words that a command is written as after its name. -/
def words (style : Style) (level : Nat) (command : Command) : List Word :=
  operandWords (command.args.map (style.displaced level))
    (command.options.map (style.displacedOption level))

theorem reads_ownText {command : Command} {terms : List String}
    (success :
      ownTerms style command.name command.args command.options = .ok terms) :
    Reads (style.shift level (ownText terms))
      (.unquoted (style.displaced level command.name) ::
        (command.words style level).map Word.asRead) := by
  obtain ⟨name, nameWritten, optionLists, options, same⟩ :=
    ownTerms_eq_ok_iff.mp success
  subst same
  apply TermsRead.reads_ownText
  rw [words, operandWords, List.map_append]
  have first : Reads (style.shift level name.toList) _ :=
    reads_ofName command.name_ne_empty nameWritten
  have values := TermsRead.values style level command.args
  exact .cons first (values.append (TermsRead.options options))

theorem asRead_keyWords {key : String} (notSingle : key ≠ "&")
    (notDouble : key ≠ "&&") :
    (keyWords key).map Word.asRead = (keyWords key).map Word.symbol := by
  unfold keyWords
  split
  · rfl
  · split
    · rw [List.map_singleton, List.map_singleton, Word.asRead,
        Symbol.ofTerm_of_ne notDouble notSingle]
      rfl
    · rfl

theorem displaced_ne_separator {key separator : String}
    (bare : isBareText separator = true) (apart : key ≠ separator) :
    style.displaced level key ≠ separator := by
  cases keyBare : isBareText key with
  | true => rwa [Style.displaced_of_isBareText keyBare]
  | false => exact displaced_ne_of_not_bare keyBare bare

theorem KeysApart.asRead_words {command : Command} (keys : command.KeysApart) :
    (command.words style level).map Word.asRead =
      (command.words style level).map Word.symbol := by
  apply List.map_congr_left
  have values : ∀ value, (valueWord value).asRead = (valueWord value).symbol :=
    asRead_valueWord
  have keyEach : ∀ option ∈ command.options,
      ∀ word ∈ keyWords (style.displaced level option.1),
        word.asRead = word.symbol := by
    intro option member
    obtain ⟨notSingle, notDouble⟩ := keys option member
    apply List.map_inj_left.mp
    exact asRead_keyWords (displaced_ne_separator rfl notSingle)
      (displaced_ne_separator rfl notDouble)
  simp only [words, operandWords, optionWords, Style.displacedOption,
    List.forall_mem_append, List.forall_mem_map, List.forall_mem_flatMap]
  constructor
  · intro arg _
    exact values _
  · intro option member
    refine ⟨keyEach option member, ?_⟩
    cases option.2 <;> simp [values]

mutual

/-- The command that is read where a command was written `level` levels deep. -/
def readBack (style : Style) (level : Nat) : Command → Command
  | ⟨name, args, options, subs, named⟩ =>
      .ofWords (style.displaced level name) (Style.displaced_ne_empty named)
        (operandWords (args.map (style.displaced level))
          (options.map (style.displacedOption level)))
        (readBackEach style (level + 1) subs)

def readBackEach (style : Style) (level : Nat) : List Command → List Command
  | [] => []
  | command :: commands =>
      readBack style level command :: readBackEach style level commands

end

theorem readBackEach_eq_map (style : Style) (level : Nat)
    (commands : List Command) :
    readBackEach style level commands =
      commands.map (readBack style level) := by
  induction commands with
  | nil => rfl
  | cons command commands induction =>
      rw [readBackEach, induction, List.map_cons]

theorem readBack_eq (style : Style) (level : Nat) (command : Command) :
    command.readBack style level =
      .ofWords (style.displaced level command.name)
        (Style.displaced_ne_empty command.name_ne_empty)
        (command.words style level)
        (command.subs.map (readBack style (level + 1))) := by
  cases command
  rw [readBack, readBackEach_eq_map]
  rfl

/-- The symbols of a block that holds commands with these symbols. -/
def blockSymbols (style : Style) (lines : List (List Symbol)) : List Symbol :=
  if style.multiline then
    [.openBrace, .lineBreak] ++ [.lineBreak].intercalate lines ++
      [.lineBreak, .closeBrace]
  else [.openBrace] ++ [.andAnd].intercalate lines ++ [.closeBrace]

mutual

/-- The symbols that a command is read as where it was written `level` levels
deep. -/
def symbols (style : Style) (level : Nat) : Command → List Symbol
  | ⟨name, args, options, subs, _⟩ =>
      .unquoted (style.displaced level name) ::
        (operandWords (args.map (style.displaced level))
          (options.map (style.displacedOption level))).map Word.asRead ++
        if subs.isEmpty then []
        else blockSymbols style (symbolsEach style (level + 1) subs)

def symbolsEach (style : Style) (level : Nat) :
    List Command → List (List Symbol)
  | [] => []
  | command :: commands =>
      symbols style level command :: symbolsEach style level commands

end

theorem symbolsEach_eq_map (style : Style) (level : Nat)
    (commands : List Command) :
    symbolsEach style level commands = commands.map (symbols style level) := by
  induction commands with
  | nil => rfl
  | cons command commands induction =>
      rw [symbolsEach, induction, List.map_cons]

theorem symbols_of_childless {command : Command}
    (childless : command.subs = []) :
    command.symbols style level =
      .unquoted (style.displaced level command.name) ::
        (command.words style level).map Word.asRead := by
  cases command
  subst childless
  rw [symbols, List.isEmpty_nil, if_pos rfl, List.append_nil]
  rfl

theorem symbols_of_subs {command : Command} (nonempty : command.subs ≠ []) :
    command.symbols style level =
      .unquoted (style.displaced level command.name) ::
        (command.words style level).map Word.asRead ++
        blockSymbols style (command.subs.map (symbols style (level + 1))) := by
  cases command
  rw [symbols, if_neg (by simpa using nonempty), symbolsEach_eq_map]
  rfl

/-- What stands between two commands is read as one separator. -/
structure SeparatorText (between : List Char) (separator : Symbol) : Prop where
  boundary : ∀ text, Boundary (between ++ text)
  reads : ∀ {text symbols}, Reads text symbols →
    Reads (between ++ text) (separator :: symbols)

theorem separatorText_lineBreak {blanks : List Char}
    (blank : ∀ char ∈ blanks, isBlank char = true) :
    SeparatorText ('\n' :: blanks) .lineBreak where
  boundary _ := boundary_cons.mpr rfl
  reads reads := Reads.control rfl (reads.blanks blank)

theorem separatorText_andAnd : SeparatorText [' ', '&', '&', ' '] .andAnd where
  boundary _ := boundary_cons.mpr rfl
  reads reads := by
    have term : Reads ['&', '&'] [.andAnd] :=
      Reads.bare (List.cons_ne_nil _ _) (List.all_eq_true.mp rfl)
    exact (term.append (reads.blank rfl) (boundary_cons.mpr rfl)).blank rfl

theorem reads_intercalate {between : List Char} {separator : Symbol}
    (separatorText : SeparatorText between separator) {texts : List (List Char)}
    {lines : List (List Symbol)} (each : List.Forall₂ Reads texts lines) :
    Reads (between.intercalate texts) ([separator].intercalate lines) := by
  induction each with
  | nil => exact Reads.nil
  | cons first others induction =>
      cases others with
      | nil => simpa using first
      | cons second rest =>
          rw [List.intercalate_cons_cons, List.intercalate_cons_cons,
            List.append_assoc, List.append_assoc]
          exact first.append (separatorText.reads induction)
            (separatorText.boundary _)

/-- Lines that give commands are a script with a separator between each two. -/
theorem isScript_intercalate {separator : Symbol}
    (separates : separator = .lineBreak ∨ separator = .andAnd)
    {lines : List (List Symbol)} {commands : List Command}
    (each : List.Forall₂
      (fun line command => IsLine limit level line (some command))
      lines commands) :
    IsScript limit level ([separator].intercalate lines) commands := by
  induction each with
  | nil => exact .last .empty
  | cons first others induction =>
      cases others with
      | nil =>
          rw [List.intercalate_singleton]
          exact .last first
      | cons second rest =>
          rw [List.intercalate_cons_cons, List.append_assoc]
          exact .more first separates induction

/-- A block over several lines, with every line behind the tabs of its level. -/
theorem shift_block_multiline (multiline : style.multiline = true) (level : Nat)
    (texts : List (List Char)) :
    style.shift level (block style texts) =
      ' ' :: '{' :: (('\n' :: (List.replicate level '\t' ++ ['\t'])) ++
        (('\n' :: (List.replicate level '\t' ++ ['\t'])).intercalate
            (texts.map (style.shift (level + 1))) ++
          '\n' :: (List.replicate level '\t' ++ ['}']))) := by
  have moved : (texts.map indent).map (style.shift level) =
      texts.map (style.shift (level + 1)) := by
    rw [List.map_map]
    apply List.map_congr_left
    intro text _
    exact Style.shift_indent multiline text
  have feed : ∀ char, char ≠ '\n' → style.shift level ['\n', char] =
      '\n' :: (List.replicate level '\t' ++ [char]) := by
    intro char visible
    have flat : '\n' ∉ [char] := by simpa using Ne.symm visible
    rw [Style.shift_lineBreak multiline, Style.shift_of_not_mem flat]
    rfl
  have front : style.shift level [' ', '{', '\n', '\t'] =
      [' ', '{'] ++ '\n' :: (List.replicate level '\t' ++ ['\t']) := by
    have flat : '\n' ∉ [' ', '{'] := by decide
    rw [← feed '\t' (by decide)]
    exact (Style.shift_append style level [' ', '{'] ['\n', '\t']).trans
      (by rw [Style.shift_of_not_mem flat])
  rw [block, if_pos multiline, Style.shift_append, Style.shift_append, front,
    Style.shift_intercalate, moved, feed '\t' (by decide), feed '}' (by decide)]
  simp

theorem blanks_replicate (level : Nat) :
    ∀ char ∈ List.replicate level '\t' ++ ['\t'], isBlank char = true := by
  intro char member
  rw [← List.replicate_succ'] at member
  rw [List.eq_of_mem_replicate member]
  rfl

theorem reads_block_multiline (multiline : style.multiline = true)
    {texts : List (List Char)} {lines : List (List Symbol)}
    (each : List.Forall₂ Reads (texts.map (style.shift (level + 1))) lines) :
    Reads (style.shift level (block style texts))
      (blockSymbols style lines) := by
  have between := separatorText_lineBreak (blanks_replicate level)
  have closing : Reads ('\n' :: (List.replicate level '\t' ++ ['}']))
      [.lineBreak, .closeBrace] := by
    apply Reads.control rfl
    apply Reads.blanks
    · intro char member
      exact blanks_replicate level char (List.mem_append_left _ member)
    · exact Reads.control rfl Reads.nil
  have inner :=
    (reads_intercalate between each).append closing (boundary_cons.mpr rfl)
  have read := Reads.control (rfl : Symbol.ofChar? '{' = some .openBrace)
    (between.reads inner)
  rw [shift_block_multiline multiline, blockSymbols, if_pos multiline]
  apply Reads.blank rfl
  simpa using read

theorem reads_block_single (single : style.multiline = false)
    {texts : List (List Char)} {lines : List (List Symbol)}
    (each : List.Forall₂ Reads (texts.map (style.shift (level + 1))) lines) :
    Reads (style.shift level (block style texts))
      (blockSymbols style lines) := by
  have still : ∀ levels text, style.shift levels text = text := by
    intro levels text
    simp [Style.shift, single]
  have same : style.shift (level + 1) = id := funext (still (level + 1))
  rw [same, List.map_id] at each
  have closing : Reads [' ', '}'] [.closeBrace] :=
    Reads.blank rfl (Reads.control rfl Reads.nil)
  have inner := (reads_intercalate separatorText_andAnd each).append closing
    (boundary_cons.mpr rfl)
  have read := Reads.control (rfl : Symbol.ofChar? '{' = some .openBrace)
    (inner.blank (rfl : isBlank ' ' = true))
  rw [still, block, blockSymbols, single, if_neg Bool.false_ne_true,
    if_neg Bool.false_ne_true]
  apply Reads.blank rfl
  simpa using read

theorem reads_block {texts : List (List Char)} {lines : List (List Symbol)}
    (each : List.Forall₂ Reads (texts.map (style.shift (level + 1))) lines) :
    Reads (style.shift level (block style texts))
      (blockSymbols style lines) := by
  cases layout : style.multiline with
  | true => exact reads_block_multiline layout each
  | false => exact reads_block_single layout each

theorem isBlock_blockSymbols (style : Style)
    (shallow : (level + 1 : Nat) ≤ limit) {lines : List (List Symbol)}
    {commands : List Command}
    (each : List.Forall₂
      (fun line command => IsLine limit (level + 1) line (some command))
      lines commands) :
    IsBlock limit level (blockSymbols style lines) commands := by
  unfold blockSymbols
  split
  · have script := isScript_intercalate (.inl rfl) each
    have opened : IsScript limit (level + 1)
        (.lineBreak :: [.lineBreak].intercalate lines) commands :=
      .more .empty (.inl rfl) script
    have closed := opened.append (.inl rfl) (.last .empty)
    rw [Option.toList_none, List.append_nil] at closed
    simpa using IsBlock.braces shallow closed
  · exact .braces shallow (isScript_intercalate (.inr rfl) each)

theorem boundary_block (style : Style) (level : Nat)
    (texts : List (List Char)) :
    Boundary (style.shift level (block style texts)) := by
  unfold block
  split
  · rw [List.append_assoc, List.cons_append, Style.shift_blank rfl]
    exact boundary_cons.mpr rfl
  · rw [List.append_assoc, List.cons_append, Style.shift_blank rfl]
    exact boundary_cons.mpr rfl

theorem reads_each {commands : List Command} {texts : List (List Char)}
    (each : ∀ command ∈ commands, ∀ {text},
      renderAt style level command = .ok text →
      Reads (style.shift level text) (command.symbols style level))
    (success : renderEachAt style level commands = .ok texts) :
    List.Forall₂ Reads (texts.map (style.shift level))
      (commands.map (symbols style level)) := by
  have written := renderEachAt_eq_ok_iff.mp success
  clear success
  induction written with
  | nil => exact .nil
  | cons first _ induction =>
      obtain ⟨head, others⟩ := List.forall_mem_cons.mp each
      exact .cons (head first) (induction others)

/-- A written command is read as its symbols, at the level where it was
written. -/
theorem reads_renderAt (command : Command) :
    ∀ {level : Nat} {text : List Char},
      renderAt style level command = .ok text →
      Reads (style.shift level text) (command.symbols style level) := by
  induction command using tree_induction with
  | node command induction =>
      intro level text success
      obtain ⟨terms, own, childless | ⟨nonempty, _, texts, subs, same⟩⟩ :=
        renderAt_eq_ok_iff.mp success
      · obtain ⟨childless, same⟩ := childless
        subst same
        rw [symbols_of_childless childless]
        exact reads_ownText own
      · subst same
        have each : List.Forall₂ Reads (texts.map (style.shift (level + 1)))
            (command.subs.map (symbols style (level + 1))) := by
          apply reads_each _ subs
          intro sub member text subWritten
          exact induction sub member subWritten
        rw [symbols_of_subs nonempty, Style.shift_append]
        exact (reads_ownText own).append (reads_block each)
          (boundary_block style level texts)

theorem isLine_symbols (style : Style) (command : Command) :
    ∀ {level : Nat}, command.Everywhere KeysApart →
      (level + command.depth : Nat) ≤ limit →
      IsLine limit level (command.symbols style level)
        (some (command.readBack style level)) := by
  induction command using tree_induction with
  | node command induction =>
      intro level keys reach
      obtain ⟨keysHere, keysBelow⟩ := everywhere_iff.mp keys
      by_cases childless : command.subs = []
      · rw [symbols_of_childless childless, readBack_eq, childless,
          keysHere.asRead_words]
        exact .plain _ _
      · have deeper : (level + 1 : Nat) ≤ limit := by
          have one := one_le_depth childless
          omega
        have below : ∀ sub ∈ command.subs,
            IsLine limit (level + 1) (sub.symbols style (level + 1))
              (some (sub.readBack style (level + 1))) := by
          intro sub member
          have reachBelow := depth_lt_of_mem_subs member
          exact induction sub member (keysBelow sub member) (by omega)
        rw [symbols_of_subs childless, readBack_eq, keysHere.asRead_words]
        apply IsLine.nested
        apply isBlock_blockSymbols style deeper
        rw [List.forall₂_map_left_iff, List.forall₂_map_right_iff,
          List.forall₂_same]
        exact below

end Command

end CommandScript
