import CommandScript.Proofs.RenderedCommands
import CommandScript.Proofs.TextLines

/-!
# The layout of written commands

Where line ends are escaped, no term holds one, so every line end of a written
command comes from its layout.  On one line there are none.  Over several lines,
indenting the finished text of a block once for each level puts the same tabs in
front of its lines as `Command.linesAt` does, which writes each line at its
level and never looks at it again.
-/

namespace CommandScript

/-- The text has no line end, neither a line feed nor a carriage return. -/
def Unbroken (text : List Char) : Prop :=
  ∀ char ∈ text, char ≠ '\n' ∧ char ≠ '\r'

instance (text : List Char) : Decidable (Unbroken text) :=
  List.decidableBAll _ text

theorem Unbroken.append {text rest : List Char} (first : Unbroken text)
    (second : Unbroken rest) : Unbroken (text ++ rest) :=
  List.forall_mem_append.mpr ⟨first, second⟩

theorem Unbroken.lineBreak_not_mem {text : List Char}
    (unbroken : Unbroken text) :
    '\n' ∉ text :=
  fun member => (unbroken _ member).1 rfl

theorem Unbroken.return_not_mem {text : List Char} (unbroken : Unbroken text) :
    '\r' ∉ text :=
  fun member => (unbroken _ member).2 rfl

theorem unbroken_intercalate {between : List Char} {texts : List (List Char)}
    (apart : Unbroken between) (each : ∀ text ∈ texts, Unbroken text) :
    Unbroken (between.intercalate texts) := by
  match texts with
  | [] => simp [Unbroken]
  | [text] => simpa using each
  | first :: second :: texts =>
      obtain ⟨here, others⟩ := List.forall_mem_cons.mp each
      rw [List.intercalate_cons_cons]
      exact (here.append apart).append (unbroken_intercalate apart others)

theorem unbroken_replicate (count : Nat) {char : Char}
    (visible : Unbroken [char]) :
    Unbroken (List.replicate count char) := by
  intro member inside
  rw [List.eq_of_mem_replicate inside]
  exact visible char List.mem_cons_self

namespace Spelling

theorem unbroken_of_bare {text : List Char}
    (bare : ∀ char ∈ text, isBare char = true) :
    Unbroken text := by
  intro char member
  have visible := bare char member
  constructor
  · rintro rfl
    exact absurd visible (by decide)
  · rintro rfl
    exact absurd visible (by decide)

theorem unbroken_of_isBareText {text : String} (bare : isBareText text = true) :
    Unbroken text.toList :=
  unbroken_of_bare (List.all_eq_true.mp bare)

theorem unbroken_quoteChars (text : List Char) :
    Unbroken (quoteChars true text) := by
  intro char member
  rcases mem_quoteChars member with quote | backslash | inside
  · exact ⟨Ne.symm (ne_of_isQuoteMark quote rfl),
      Ne.symm (ne_of_isQuoteMark quote rfl)⟩
  · rw [backslash]
    decide
  · exact mem_escape_true inside

theorem unbroken_ofValue (value : String) :
    Unbroken (ofValue true value).toList := by
  unfold ofValue
  cases quotes : valueNeedsQuotes value with
  | true =>
      rw [if_pos rfl, quote, String.toList_ofList]
      exact unbroken_quoteChars _
  | false =>
      obtain ⟨-, -, -, -, bare⟩ := valueNeedsQuotes_eq_false_iff.mp quotes
      exact unbroken_of_isBareText bare

theorem unbroken_ofName {name written : String}
    (success : ofName true name = .ok written) :
    Unbroken written.toList := by
  unfold ofName at success
  split at success
  · cases success
  · split at success
    · rename_i bare
      cases success
      exact unbroken_of_isBareText bare
    · simp only at success
      split at success
      · cases success
      · cases success
        rw [String.toList_ofList]
        apply Unbroken.append _ (unbroken_quoteChars _)
        exact unbroken_of_bare fun char member => List.mem_takeWhile_imp member

theorem unbroken_ofKey {key written : String}
    (success : ofKey true key = .ok written) :
    Unbroken written.toList := by
  cases quotes : keyNeedsQuotes key with
  | false =>
      rw [ofKey_bare quotes success]
      exact unbroken_of_isBareText (keyNeedsQuotes_eq_false_iff.mp quotes).2
  | true =>
      have dashes (count : Nat) : Unbroken (List.replicate count '-') :=
        unbroken_replicate count (by decide)
      rw [ofKey_quoted quotes success]
      split
      · exact (dashes 2).append (unbroken_quoteChars _)
      · exact (dashes 1).append (unbroken_quoteChars _)
      · exact unbroken_quoteChars _

end Spelling

namespace Command

open Spelling

variable {style : Style} {level : Nat} {command : Command}

theorem unbroken_optionTerms {option : String × Option String}
    {terms : List String} (escaped : style.escapeBreaks = true)
    (success : optionTerms style option = .ok terms) :
    ∀ term ∈ terms, Unbroken term.toList := by
  obtain ⟨key, keyed, rfl⟩ := optionTerms_eq_ok_iff.mp success
  rw [escaped] at keyed ⊢
  intro term member
  cases member with
  | head => exact unbroken_ofKey keyed
  | tail _ later =>
      obtain ⟨value, -, rfl⟩ :=
        Option.map_eq_some_iff.mp (Option.mem_toList.mp later)
      exact unbroken_ofValue value

theorem unbroken_ownText {terms : List String}
    (escaped : style.escapeBreaks = true)
    (success :
      ownTerms style command.name command.args command.options = .ok terms) :
    Unbroken (ownText terms) := by
  obtain ⟨name, named, optionLists, options, rfl⟩ :=
    ownTerms_eq_ok_iff.mp success
  have optionsUnbroken :
      ∀ term ∈ optionLists.flatten, Unbroken term.toList := by
    intro term member
    obtain ⟨terms, inside, found⟩ := List.mem_flatten.mp member
    obtain ⟨option, -, written⟩ := Outcome.exists_source options inside
    exact unbroken_optionTerms escaped written term found
  rw [escaped] at named
  apply unbroken_intercalate (by decide)
  simp only [escaped, List.map_append, List.map_cons, List.map_map,
    List.forall_mem_append, List.forall_mem_cons, List.forall_mem_map]
  exact ⟨⟨unbroken_ofName named, fun value _ => unbroken_ofValue value⟩,
    optionsUnbroken⟩

theorem unbroken_block_single (single : style.multiline = false)
    {texts : List (List Char)} (each : ∀ text ∈ texts, Unbroken text) :
    Unbroken (block style texts) := by
  rw [block, single, if_neg Bool.false_ne_true]
  have front : Unbroken [' ', '{', ' '] := by decide
  have between : Unbroken [' ', '&', '&', ' '] := by decide
  exact (front.append (unbroken_intercalate between each)).append (by decide)

theorem unbroken_renderAt_single (escaped : style.escapeBreaks = true)
    (single : style.multiline = false) (command : Command) :
    ∀ {level : Nat} {text : List Char},
      renderAt style level command = .ok text →
      Unbroken text := by
  induction command using tree_induction with
  | node command induction =>
      intro level text success
      obtain ⟨terms, own, ⟨-, rfl⟩ | ⟨-, -, texts, subs, rfl⟩⟩ :=
        renderAt_eq_ok_iff.mp success
      · exact unbroken_ownText escaped own
      · apply (unbroken_ownText escaped own).append
        apply unbroken_block_single single
        intro text member
        obtain ⟨sub, below, written⟩ :=
          Outcome.exists_source (renderEachAt_eq_ok_iff.mp subs) member
        exact induction sub below written

def tabs (level : Nat) : List Char :=
  List.replicate level '\t'

mutual

/-- The lines of a command at a level: its own terms on one, and when commands
are below it an open brace behind them, the lines of each of these in turn, and
a close brace. -/
def linesAt (level : Nat) : Command → Except Error (List (List Char))
  | ⟨name, args, options, subs, _⟩ => do
      let terms ← ownTerms {} name args options
      if subs.isEmpty then return [tabs level ++ ownText terms]
      else
        let below ← linesEachAt (level + 1) subs
        return (tabs level ++ ownText terms ++ [' ', '{']) :: below.flatten ++
          [tabs level ++ ['}']]

def linesEachAt (level : Nat) :
    List Command → Except Error (List (List (List Char)))
  | [] => .ok []
  | command :: rest => do
      let lines ← linesAt level command
      let others ← linesEachAt level rest
      return lines :: others

end

theorem linesEachAt_eq_mapM (commands : List Command) :
    linesEachAt level commands = commands.mapM (linesAt level) := by
  induction commands with
  | nil => rfl
  | cons command commands induction =>
      rw [linesEachAt, List.mapM_cons, induction]

theorem linesAt_eq_ok_iff {lines : List (List Char)} :
    linesAt level command = .ok lines ↔
      ∃ terms, ownTerms {} command.name command.args command.options =
        .ok terms ∧
        (command.subs = [] ∧ [tabs level ++ ownText terms] = lines ∨
          command.subs ≠ [] ∧ ∃ below,
            List.Forall₂ (fun sub lines => linesAt (level + 1) sub = .ok lines)
              command.subs below ∧
            (tabs level ++ ownText terms ++ [' ', '{']) :: below.flatten ++
              [tabs level ++ ['}']] = lines) := by
  cases command with
  | mk name args options subs named =>
      rw [linesAt, Outcome.bind_eq_ok_iff]
      apply exists_congr
      intro terms
      apply and_congr_right
      intro _
      cases subs with
      | nil => simp [Outcome.pure_eq_ok_iff]
      | cons sub subs =>
          simp only [List.isEmpty_cons, Bool.false_eq_true, if_false,
            Outcome.bind_eq_ok_iff, linesEachAt_eq_mapM, Outcome.mapM_eq_ok_iff,
            Outcome.pure_eq_ok_iff]
          simp

/-- The line feeds that a command's own block takes: one behind the open brace
and one behind each of its commands. -/
def blockBreaks (command : Command) : Nat :=
  if command.subs = [] then 0 else command.subs.length + 1

theorem unbroken_linesAt (command : Command) :
    ∀ {level : Nat} {lines : List (List Char)},
      linesAt level command = .ok lines →
      ∀ line ∈ lines, Unbroken line := by
  have tabsUnbroken (level : Nat) : Unbroken (tabs level) :=
    unbroken_replicate level (by decide)
  induction command using tree_induction with
  | node command induction =>
      intro level lines success
      obtain ⟨terms, own, ⟨-, rfl⟩ | ⟨-, below, subs, rfl⟩⟩ :=
        linesAt_eq_ok_iff.mp success
      · have here := (tabsUnbroken level).append (unbroken_ownText rfl own)
        simpa using here
      · have here := (tabsUnbroken level).append (unbroken_ownText rfl own)
        simp only [List.forall_mem_append, List.forall_mem_cons]
        refine ⟨⟨here.append (by decide), ?_⟩,
          (tabsUnbroken level).append (by decide), List.forall_mem_nil _⟩
        intro line member
        obtain ⟨lines, inside, found⟩ := List.mem_flatten.mp member
        obtain ⟨sub, among, laidOut⟩ := Outcome.exists_source subs inside
        exact induction sub among laidOut line found

theorem length_flatten_lines {commands : List Command}
    {below : List (List (List Char))}
    (each : ∀ command ∈ commands, ∀ {lines}, linesAt level command = .ok lines →
      lines.length = command.total blockBreaks + 1)
    (laidOut : List.Forall₂ (fun command lines =>
      linesAt level command = .ok lines)
      commands below) :
    below.flatten.length =
      totalAmong blockBreaks commands + commands.length := by
  induction laidOut with
  | nil => rfl
  | cons first _ induction =>
      obtain ⟨head, others⟩ := List.forall_mem_cons.mp each
      rw [List.flatten_cons, List.length_append, head first, induction others,
        totalAmong, List.length_cons]
      omega

/-- Every block adds a line for each of its commands and one for its close
brace. -/
theorem length_linesAt (command : Command) :
    ∀ {level : Nat} {lines : List (List Char)},
      linesAt level command = .ok lines →
      lines.length = command.total blockBreaks + 1 := by
  induction command using tree_induction with
  | node command induction =>
      intro level lines success
      rw [total_eq]
      obtain ⟨terms, own, ⟨childless, rfl⟩ | ⟨nonempty, below, subs, rfl⟩⟩ :=
        linesAt_eq_ok_iff.mp success
      · simp [blockBreaks, childless, totalAmong]
      · have inside :=
          length_flatten_lines (fun sub member => induction sub member) subs
        rw [blockBreaks, if_neg nonempty]
        simp only [List.length_append, List.length_cons, List.length_nil,
          inside]
        omega

/-- What a command laid out at a level has to come to: its finished text,
indented once for each level, behind the tabs of the level. -/
def LaidOut (level : Nat) (text : List Char)
    (lines : List (List Char)) : Prop :=
  terminated lines = tabs level ++ Style.shift {} level text ++ ['\n']

theorem exists_below {commands : List Command} {texts : List (List Char)}
    (each : ∀ command ∈ commands, ∀ {text},
      renderAt {} level command = .ok text →
      ∃ lines, linesAt level command = .ok lines ∧ LaidOut level text lines)
    (written : List.Forall₂
      (fun command text => renderAt {} level command = .ok text)
      commands texts) :
    ∃ below,
      List.Forall₂ (fun command lines => linesAt level command = .ok lines)
        commands below ∧
      terminated below.flatten =
        (texts.map (Style.shift {} level)).flatMap fun text =>
          tabs level ++ text ++ ['\n'] := by
  induction written with
  | nil => exact ⟨[], .nil, rfl⟩
  | cons first _ induction =>
      obtain ⟨head, others⟩ := List.forall_mem_cons.mp each
      obtain ⟨lines, laidOut, same⟩ := head first
      obtain ⟨below, rest, restSame⟩ := induction others
      refine ⟨lines :: below, .cons laidOut rest, ?_⟩
      rw [List.flatten_cons, terminated_append, same, restSame, List.map_cons,
        List.flatMap_cons]

/-- The lines of a block stand behind the tabs of their level, its close brace
behind those of the level outside. -/
theorem shift_block_lines (level : Nat) {texts : List (List Char)}
    (some : texts ≠ []) :
    Style.shift {} level (block {} texts) ++ ['\n'] =
      [' ', '{', '\n'] ++
        ((texts.map (Style.shift {} (level + 1))).flatMap fun text =>
          tabs (level + 1) ++ text ++ ['\n']) ++
        (tabs level ++ ['}', '\n']) := by
  have margin : tabs (level + 1) = tabs level ++ ['\t'] := List.replicate_succ'
  have moved : texts.map (Style.shift {} (level + 1)) ≠ [] := by
    simpa using some
  have inner := intercalate_margin (tabs (level + 1)) moved
  rw [shift_block_multiline rfl, ← tabs, ← margin]
  calc
    _ = [' ', '{'] ++ (('\n' :: tabs (level + 1)) ++
          ('\n' :: tabs (level + 1)).intercalate
            (texts.map (Style.shift {} (level + 1))) ++ ['\n']) ++
          (tabs level ++ ['}', '\n']) := by simp
    _ = _ := by
      rw [inner]
      rfl

/-- Indenting finished blocks puts every line where it is laid out. -/
theorem exists_linesAt_renderAt (command : Command) :
    ∀ {level : Nat} {text : List Char}, renderAt {} level command = .ok text →
      ∃ lines, linesAt level command = .ok lines ∧
        LaidOut level text lines := by
  induction command using tree_induction with
  | node command induction =>
      intro level text success
      obtain ⟨terms, own, ⟨childless, rfl⟩ | ⟨nonempty, -, texts, subs, rfl⟩⟩ :=
        renderAt_eq_ok_iff.mp success
      · have flat := (unbroken_ownText rfl own).lineBreak_not_mem
        refine ⟨_, linesAt_eq_ok_iff.mpr ⟨terms, own, .inl ⟨childless, rfl⟩⟩,
          ?_⟩
        rw [LaidOut, Style.shift_of_not_mem flat, terminated_cons]
        rfl
      · have flat := (unbroken_ownText rfl own).lineBreak_not_mem
        have written := renderEachAt_eq_ok_iff.mp subs
        have some : texts ≠ [] := by
          rintro rfl
          exact nonempty (List.forall₂_nil_right_iff.mp written)
        obtain ⟨below, laidOut, same⟩ :=
          exists_below (fun sub member => induction sub member) written
        refine ⟨_, linesAt_eq_ok_iff.mpr
          ⟨terms, own, .inr ⟨nonempty, below, laidOut, rfl⟩⟩, ?_⟩
        rw [LaidOut, Style.shift_append, Style.shift_of_not_mem flat,
          ← List.append_assoc, List.append_assoc _ _ ['\n'],
          shift_block_lines level some, terminated_append, terminated_cons,
          same]
        simp [terminated]

theorem return_mem_intercalate_iff {lines : List (List Char)} :
    '\r' ∈ ['\n'].intercalate lines ↔ ∃ line ∈ lines, '\r' ∈ line := by
  cases lines with
  | nil => simp
  | cons first others =>
      have whole := terminated_eq_intercalate (List.cons_ne_nil first others)
      have behind : '\r' ∈ ['\n'].intercalate (first :: others) ↔
          '\r' ∈ terminated (first :: others) := by
        rw [whole, List.mem_append]
        simp
      rw [behind, terminated, List.mem_flatMap]
      simp

/-- Where line ends are escaped, a written command has no carriage return.  On
one line it has no line feed either.  Over several lines it is what the layout
of its tree says, with as many line feeds as its blocks take. -/
theorem render_layout (style : Style) (command : Command) (text : String)
    (escaped : style.escapeBreaks = true)
    (success : render style command = .ok text) :
    '\r' ∉ text.toList ∧
    (style.multiline = false → '\n' ∉ text.toList) ∧
    (style.multiline = true → ∃ lines, linesAt 0 command = .ok lines ∧
      text = String.ofList (['\n'].intercalate lines) ∧
      (∀ line ∈ lines, '\n' ∉ line) ∧
      text.toList.count '\n' = command.total blockBreaks) := by
  obtain ⟨chars, written, same⟩ := Outcome.bind_eq_ok_iff.mp success
  obtain rfl := Outcome.pure_eq_ok_iff.mp same
  rw [String.toList_ofList]
  cases layout : style.multiline with
  | false =>
      have unbroken := unbroken_renderAt_single escaped layout command written
      refine ⟨unbroken.return_not_mem, fun _ => unbroken.lineBreak_not_mem, ?_⟩
      intro multiline
      cases multiline
  | true =>
      obtain rfl : style = {} := by
        cases style
        simp_all
      obtain ⟨lines, laidOut, same⟩ := exists_linesAt_renderAt command written
      have each := unbroken_linesAt command laidOut
      have length := length_linesAt command laidOut
      have some : lines ≠ [] := List.length_pos_iff.mp (by omega)
      rw [LaidOut, Style.shift_zero, terminated_eq_intercalate some] at same
      have joined : ['\n'].intercalate lines = chars :=
        List.append_cancel_right same
      have flat : ∀ line ∈ lines, '\n' ∉ line :=
        fun line member => (each line member).lineBreak_not_mem
      have count := length_textLines chars
      rw [← joined, textLines_intercalate some flat, length] at count
      refine ⟨?_, nofun, fun _ => ⟨lines, laidOut, by rw [joined], flat, ?_⟩⟩
      · intro member
        rw [← joined, return_mem_intercalate_iff] at member
        obtain ⟨line, inside, found⟩ := member
        exact (each line inside).return_not_mem found
      · rw [← joined]
        omega

/-- Two levels of blocks; the line end of the argument is written as an
escape. -/
theorem render_layout_nested :
    ∃ lines,
      linesAt 0 { name := "a", subs :=
        [{ name := "b", args := ["x\ny"], subs := [{ name := "c" }] }] } =
        .ok lines ∧
      String.ofList (['\n'].intercalate lines) =
        "a \x7b\n\tb `x\\ny` \x7b\n\t\tc\n\t\x7d\n\x7d" := by
  obtain ⟨-, -, layout⟩ := render_layout {}
    { name := "a", subs :=
      [{ name := "b", args := ["x\ny"], subs := [{ name := "c" }] }] } _ rfl rfl
  obtain ⟨lines, laidOut, same, -⟩ := layout rfl
  refine ⟨lines, laidOut, ?_⟩
  rw [← same]
  decide +kernel

end Command

end CommandScript
