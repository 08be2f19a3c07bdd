import CommandScript.Proofs.ScriptRoundTrip

/-!
# Data and structure

The texts that a command was given are its data, and what the reader finds
between them is structure.  A written command is read back as one command with
the same names in the same tree, and the data of each command as data of that
command, as long as no option key is `&` or `&&`.

Such a key is written bare and read as a separator.  What is lost then is found
by counting.  A script holds no more data and names than there are tokens with a
text, and the tokens of a written command have one text for each of its data and
names, apart from the keys that are read as separators.
-/

namespace CommandScript

namespace Operands

open Spelling

/-- The data of an option; an empty key leaves none. -/
def optionTexts (option : String × Option String) : List String :=
  (if option.1 = "" then [] else [option.1]) ++ option.2.toList

def texts (operands : Operands) : List String :=
  operands.args ++ operands.options.flatMap optionTexts

theorem texts_addArg (arg : String) (operands : Operands) :
    (operands.addArg arg).texts = arg :: operands.texts := rfl

theorem texts_addOption (key : String) (value : Option String)
    (operands : Operands) :
    (operands.addOption key value).texts.Perm
      (optionTexts (key, value) ++ operands.texts) := by
  rw [texts, addOption, List.flatMap_cons]
  exact List.perm_append_comm_assoc ..

theorem optionTexts_of_dash {key : String} (dash : startsWithDash key = true)
    (value : Option String) :
    optionTexts (key, value) = key :: value.toList := by
  have nonempty : key ≠ "" := ne_of_startsWithDash dash rfl
  simp [optionTexts, nonempty]

/-- The data that words give are the texts of all words, leaving out the first
mark after which every word is an argument. -/
theorem texts_ofWords (words : List Word) :
    (ofWords words).texts.Perm
      ((words.erase (.unquoted positionalMark)).map Word.value) := by
  fun_induction ofWords words with
  | case1 => exact .nil
  | case2 value rest induction =>
      rw [texts_addArg, List.erase_cons_tail (by simp)]
      exact induction.cons value
  | case3 rest =>
      rw [List.erase_cons_head]
      simp [texts]
  | case4 value notMark dash =>
      rw [List.erase_cons_tail (by simpa using notMark)]
      simp [texts, optionTexts_of_dash dash, Word.value]
  | case5 value notMark dash next others absorbable induction =>
      have nextNotMark : next ≠ .unquoted positionalMark := by
        intro same
        subst same
        exact absurd absorbable (by decide)
      rw [List.erase_cons_tail (by simpa using notMark),
        List.erase_cons_tail (by simpa using nextNotMark)]
      apply (texts_addOption ..).trans
      rw [optionTexts_of_dash dash]
      exact (induction.cons next.value).cons value
  | case6 value notMark dash next others kept induction =>
      rw [List.erase_cons_tail (by simpa using notMark)]
      apply (texts_addOption ..).trans
      rw [optionTexts_of_dash dash]
      exact induction.cons value
  | case7 value rest notMark notDash induction =>
      rw [texts_addArg, List.erase_cons_tail (by simpa using notMark)]
      exact induction.cons value

theorem length_texts_ofWords_le (words : List Word) :
    (ofWords words).texts.length ≤ words.length := by
  rw [(texts_ofWords words).length_eq, List.length_map]
  exact List.length_erase_le

theorem map_value_keyWords (key : String) :
    (keyWords key).map Word.value = if key = "" then [] else [key] := by
  unfold keyWords
  split
  · rfl
  · split <;> rfl

theorem map_value_operandWords (operands : Operands) :
    (operandWords operands.args operands.options).map Word.value =
      operands.texts := by
  have values : ∀ given : List String,
      (given.map valueWord).map Word.value = given := by
    intro given
    rw [List.map_map]
    exact List.map_id'' valueWord_value given
  have option :
      ∀ option, (optionWords option).map Word.value = optionTexts option := by
    intro option
    rw [optionWords, List.map_append, map_value_keyWords, optionTexts]
    cases option.2 <;> simp [valueWord_value]
  rw [operandWords, List.map_append, values, List.map_flatMap, texts]
  simp only [option]

theorem mark_not_mem_operandWords {operands : Operands}
    (keys : ∀ option ∈ operands.options, option.1 ≠ positionalMark) :
    .unquoted positionalMark ∉ operandWords operands.args operands.options := by
  have value : ∀ value, valueWord value ≠ .unquoted positionalMark := by
    intro value same
    have absorbable := valueWord_isAbsorbable value
    rw [same] at absorbable
    exact absurd absorbable (by decide)
  have key : ∀ key, key ≠ positionalMark →
      .unquoted positionalMark ∉ keyWords key := by
    intro key apart
    unfold keyWords
    split
    · exact List.not_mem_nil
    · split <;> simp [Ne.symm apart]
  intro member
  rcases List.mem_append.mp member with arg | option
  · obtain ⟨_, -, same⟩ := List.mem_map.mp arg
    exact value _ same
  · obtain ⟨option, inside, written⟩ := List.mem_flatMap.mp option
    rcases List.mem_append.mp written with ofKey | ofValue
    · exact key _ (keys option inside) ofKey
    · obtain ⟨_, -, same⟩ := by simpa using ofValue
      exact value _ same

theorem texts_ofWords_operandWords {operands : Operands}
    (keys : ∀ option ∈ operands.options, option.1 ≠ positionalMark) :
    operands.texts.Perm
      (ofWords (operandWords operands.args operands.options)).texts := by
  have read := texts_ofWords (operandWords operands.args operands.options)
  rw [List.erase_of_not_mem (mark_not_mem_operandWords keys),
    map_value_operandWords] at read
  exact read.symm

end Operands

namespace Command

open Spelling Grammar

/-- The data of a command, that of the commands below it apart. -/
def ownData (command : Command) : List String :=
  Operands.texts ⟨command.args, command.options⟩

mutual

/-- The same names in the same tree, and at each command the same data. -/
def SameData : Command → Command → Prop
  | ⟨name, args, options, subs, _⟩, other =>
      name = other.name ∧ (Operands.texts ⟨args, options⟩).Perm other.ownData ∧
        SameDataEach subs other.subs

def SameDataEach : List Command → List Command → Prop
  | [], [] => True
  | [], _ :: _ => False
  | _ :: _, [] => False
  | command :: commands, other :: others =>
      SameData command other ∧ SameDataEach commands others

end

theorem sameDataEach_iff {commands others : List Command} :
    SameDataEach commands others ↔ List.Forall₂ SameData commands others := by
  induction commands generalizing others with
  | nil => cases others <;> simp [SameDataEach]
  | cons command commands induction =>
      cases others with
      | nil => simp [SameDataEach]
      | cons other others => rw [SameDataEach, induction, List.forall₂_cons]

theorem sameData_iff {command other : Command} :
    command.SameData other ↔
      command.name = other.name ∧ command.ownData.Perm other.ownData ∧
        List.Forall₂ SameData command.subs other.subs := by
  cases command
  rw [SameData, sameDataEach_iff]
  rfl

variable {style : Style} {level : Nat}

theorem words_of_settled (settled : style.Settled) (command : Command)
    (level : Nat) :
    command.words style level = operandWords command.args command.options := by
  have still : ∀ value, style.displaced level value = value :=
    Style.displaced_of_settled settled
  have option : ∀ option, style.displacedOption level option = option := by
    intro option
    obtain ⟨key, value⟩ := option
    cases value <;> simp [Style.displacedOption, still]
  rw [words, List.map_id'' still, List.map_id'' option]

theorem sameData_readBack (settled : style.Settled) (command : Command) :
    ∀ {level : Nat}, command.Everywhere Writable →
      command.SameData (command.readBack style level) := by
  induction command using tree_induction with
  | node command induction =>
      intro level writable
      obtain ⟨writableHere, writableBelow⟩ := everywhere_iff.mp writable
      rw [sameData_iff, readBack_eq, words_of_settled settled]
      refine ⟨(Style.displaced_of_settled settled command.name).symm,
        Operands.texts_ofWords_operandWords writableHere.keys, ?_⟩
      rw [ofWords, List.forall₂_map_right_iff, List.forall₂_same]
      intro sub member
      exact induction sub member (writableBelow sub member)

end Command

open Command

/-- How many of the symbols carry a text. -/
def textCount (symbols : List Symbol) : Nat :=
  symbols.countP fun symbol => symbol.kind.hasText

theorem textCount_append (symbols others : List Symbol) :
    textCount (symbols ++ others) = textCount symbols + textCount others :=
  List.countP_append

theorem textCount_cons_unquoted (value : String) (symbols : List Symbol) :
    textCount (.unquoted value :: symbols) = textCount symbols + 1 :=
  List.countP_cons_of_pos rfl

theorem textCount_intercalate {separator : Symbol}
    (separates : separator.kind.hasText = false) (lines : List (List Symbol)) :
    textCount ([separator].intercalate lines) = textCount lines.flatten := by
  have none : textCount [separator] = 0 := by simp [textCount, separates]
  match lines with
  | [] => rfl
  | [line] => simp
  | first :: second :: lines =>
      have others := textCount_intercalate separates (second :: lines)
      rw [List.intercalate_cons_cons, textCount_append, textCount_append, none,
        others, Nat.add_zero, ← textCount_append]
      rfl

theorem textCount_blockSymbols (style : Style) (lines : List (List Symbol)) :
    textCount (blockSymbols style lines) = textCount lines.flatten := by
  unfold blockSymbols
  split
  · rw [textCount_append, textCount_append, textCount_intercalate rfl]
    simp [textCount, Symbol.kind, Kind.hasText]
  · rw [textCount_append, textCount_append, textCount_intercalate rfl]
    simp [textCount, Symbol.kind, Kind.hasText]

namespace Word

theorem textCount_map_symbol (words : List Word) :
    textCount (words.map symbol) = words.length := by
  rw [textCount, List.countP_map, List.countP_eq_length]
  intro word _
  cases word <;> rfl

/-- A word that is read as a separator when it is written as it stands. -/
def isSeparator (word : Word) : Bool :=
  !word.asRead.kind.hasText

theorem textCount_map_asRead (words : List Word) :
    textCount (words.map asRead) + words.countP isSeparator = words.length := by
  have separators : isSeparator = fun word =>
      decide ¬ word.asRead.kind.hasText = true := by
    funext word
    simp [isSeparator]
  rw [textCount, List.countP_map, separators]
  exact (List.length_eq_countP_add_countP _).symm

end Word

namespace Command

open Spelling

/-- How many texts a command has been given, its name included. -/
def ownSize (command : Command) : Nat :=
  command.ownData.length + 1

/-- How many words of a command are read as separators. -/
def ownSeparators (command : Command) : Nat :=
  (operandWords command.args command.options).countP Word.isSeparator

theorem textCount_flatten {symbolsOf : Command → List Symbol}
    {part whole : Command → Nat} {commands : List Command}
    (each : ∀ command ∈ commands,
      textCount (symbolsOf command) + command.total part =
        command.total whole) :
    textCount (commands.map symbolsOf).flatten + totalAmong part commands =
      totalAmong whole commands := by
  induction commands with
  | nil => rfl
  | cons command commands induction =>
      obtain ⟨first, others⟩ := List.forall_mem_cons.mp each
      have following := induction others
      rw [List.map_cons, List.flatten_cons, textCount_append, totalAmong,
        totalAmong]
      omega

theorem textCount_ownSymbols (command : Command) :
    textCount ((operandWords command.args command.options).map Word.asRead) +
        command.ownSeparators =
      command.ownData.length := by
  rw [ownSeparators, Word.textCount_map_asRead, ownData,
    ← Operands.map_value_operandWords, List.length_map]

/-- Written texts are read as texts, apart from those read as separators. -/
theorem textCount_symbols (settled : style.Settled) (command : Command) :
    ∀ level : Nat, textCount (command.symbols style level) +
      command.total ownSeparators = command.total ownSize := by
  induction command using tree_induction with
  | node command induction =>
      intro level
      have own := command.textCount_ownSymbols
      rw [total_eq, total_eq, ownSize]
      by_cases childless : command.subs = []
      · rw [symbols_of_childless childless, words_of_settled settled,
          textCount_cons_unquoted, childless, totalAmong, totalAmong]
        omega
      · have below :
            textCount (command.subs.map (symbols style (level + 1))).flatten +
              totalAmong ownSeparators command.subs =
                totalAmong ownSize command.subs :=
          textCount_flatten fun sub member => induction sub member (level + 1)
        rw [symbols_of_subs childless, words_of_settled settled,
          textCount_append, textCount_cons_unquoted, textCount_blockSymbols]
        omega

theorem ownSize_ofWords_le {name : String} (named : name ≠ "")
    (words : List Word) (subs : List Command) :
    (ofWords name named words subs).ownSize ≤ words.length + 1 := by
  have fewer := Operands.length_texts_ofWords_le words
  exact Nat.succ_le_succ fewer

mutual

theorem SameData.total_eq :
    ∀ {command other : Command}, command.SameData other →
      command.total ownSize = other.total ownSize
  | ⟨name, args, options, subs, named⟩, other, same => by
      obtain ⟨-, data, below⟩ := same
      have others := SameDataEach.totalAmong_eq below
      have lengths := data.length_eq
      rw [Command.total_eq, Command.total_eq, others]
      simp only [ownSize, ownData] at lengths ⊢
      omega

theorem SameDataEach.totalAmong_eq : ∀ {commands others : List Command},
    SameDataEach commands others →
    totalAmong ownSize commands = totalAmong ownSize others
  | [], [], _ => rfl
  | [], _ :: _, same => absurd same False.elim
  | _ :: _, [], same => absurd same False.elim
  | command :: commands, other :: others, same => by
      obtain ⟨first, following⟩ := same
      rw [totalAmong, totalAmong, SameData.total_eq first,
        SameDataEach.totalAmong_eq following]

end

end Command

namespace Grammar

variable {limit : Int}

mutual

/-- Every text of the commands of a script comes from a symbol of its own. -/
theorem IsScript.totalAmong_le : ∀ {depth : Nat} {symbols : List Symbol}
    {commands : List Command}, IsScript limit depth symbols commands →
    totalAmong ownSize commands ≤ textCount symbols
  | _, _, _, .last line => line.totalAmong_le
  | _, _, _, @IsScript.more _ _ line script separator command commands isLine
      separates isScript => by
      have first := isLine.totalAmong_le
      have others := isScript.totalAmong_le
      have further : textCount script ≤ textCount (separator :: script) :=
        (List.sublist_cons_self separator script).countP_le
      rw [textCount_append]
      cases command with
      | none =>
          rw [Option.toList_none, List.nil_append]
          omega
      | some command =>
          rw [Option.toList_some, List.singleton_append, totalAmong]
          rw [Option.toList_some, totalAmong, totalAmong] at first
          omega

theorem IsLine.totalAmong_le : ∀ {depth : Nat} {symbols : List Symbol}
    {command : Option Command}, IsLine limit depth symbols command →
    totalAmong ownSize command.toList ≤ textCount symbols
  | _, _, _, .empty => Nat.le_refl 0
  | _, _, _, .plain named words => by
      have own := ownSize_ofWords_le named words []
      rw [textCount_cons_unquoted, Word.textCount_map_symbol,
        Option.toList_some, totalAmong, totalAmong, Command.total_eq]
      exact own
  | _, _, _, @IsLine.nested _ _ _ block subs named words isBlock => by
      have own := ownSize_ofWords_le named words subs
      have below := isBlock.totalAmong_le
      rw [textCount_append, textCount_cons_unquoted, Word.textCount_map_symbol,
        Option.toList_some, totalAmong, totalAmong, Command.total_eq,
        Nat.add_zero]
      exact Nat.add_le_add own below

theorem IsBlock.totalAmong_le : ∀ {depth : Nat} {symbols : List Symbol}
    {subs : List Command}, IsBlock limit depth symbols subs →
    totalAmong ownSize subs ≤ textCount symbols
  | _, _, _, @IsBlock.braces _ _ script _ _ isScript => by
      have inside := isScript.totalAmong_le
      have within : script.Sublist (.openBrace :: script ++ [.closeBrace]) :=
        (List.sublist_cons_self _ script).trans (List.sublist_append_left _ _)
      exact inside.trans within.countP_le

end

end Grammar

namespace Command

open Spelling

/-- A key that is a separator is written as a word that is read as one. -/
theorem keysApart_of_ownSeparators {command : Command}
    (none : command.ownSeparators = 0) : command.KeysApart := by
  have apart : ∀ option ∈ command.options, ∀ separator,
      .unquoted separator ∈ keyWords separator →
      (Word.unquoted separator).isSeparator = true → option.1 ≠ separator := by
    intro option member separator written reads same
    subst same
    have inside :
        .unquoted option.1 ∈ operandWords command.args command.options :=
      List.mem_append_right _ (List.mem_flatMap.mpr
        ⟨option, member, List.mem_append_left _ written⟩)
    exact List.countP_eq_zero.mp none _ inside reads
  intro option member
  constructor
  · exact apart option member "&" (by decide) (by decide)
  · exact apart option member "&&" (by decide) (by decide)

end Command

namespace Script

open Grammar

/-- A command that was written is read back as one command with the same names
in the same tree and the same data at each command, exactly when no option key
in it is a separator. -/
theorem exists_parse_sameData_iff (style : Style) (settled : style.Settled)
    (command : Command) (text : String)
    (success : render style command = .ok text) :
    (∃ back, parse maxNesting text = .ok [back] ∧ command.SameData back) ↔
      command.Everywhere KeysApart := by
  have written := renderAll_singleton success
  obtain ⟨writable, shallow⟩ :=
    exists_renderAll_iff.mp ⟨text, written⟩ command List.mem_cons_self
  constructor
  · intro kept
    obtain ⟨back, read, same⟩ := kept
    obtain ⟨tokens, divided, script⟩ := parse_eq_ok_iff.mp read
    have reads : Reads text.toList (command.symbols style 0) := by
      simpa using reads_renderAll written
    have fewer : textCount (tokens.map Token.symbol) ≤
        textCount (command.symbols style 0) :=
      (Token.sublist_of_ofText reads divided).countP_le
    have enough : back.total ownSize ≤ textCount (tokens.map Token.symbol) :=
      script.totalAmong_le
    have balance := textCount_symbols settled command 0
    have sizes := same.total_eq
    have none : command.total ownSeparators = 0 := by omega
    exact (total_eq_zero_iff.mp none).mono fun _ => keysApart_of_ownSeparators
  · intro keys
    refine ⟨command.readBack style 0, ?_,
      sameData_readBack settled command writable⟩
    exact parse_renderAll written (by simpa using keys) (by simpa using shallow)

theorem exists_parse_sameData_run :
    ∃ back, parse 256 "run `&&` -k `a\\nb`" = .ok [back] ∧
      SameData
        { name := "run", args := ["&&"], options := [("-k", some "a\nb")] }
        back := by
  apply (exists_parse_sameData_iff {} (.inl rfl) _ _ rfl).mpr
  simp [Everywhere, EverywhereAmong, KeysApart]

/-- An option key that is a separator ends the command that it was given to. -/
theorem separatorKey_ends_command :
    render {} { name := "a", options := [("&&", some "b")] } = .ok "a && b" ∧
      parse 256 "a && b" = .ok [{ name := "a" }, { name := "b" }] ∧
      ¬ ∃ back, parse 256 "a && b" = .ok [back] ∧
        SameData { name := "a", options := [("&&", some "b")] } back := by
  have read : parse 256 "a && b" = .ok [{ name := "a" }, { name := "b" }] := by
    decide +kernel
  refine ⟨rfl, read, ?_⟩
  intro kept
  obtain ⟨back, single, -⟩ := kept
  rw [read] at single
  cases single

end Script

end CommandScript
