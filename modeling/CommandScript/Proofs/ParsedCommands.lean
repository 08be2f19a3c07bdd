import CommandScript.Proofs.OperandsRoundTrip

/-!
# What every command that is read is like

A name comes from a term, so it starts with a bare character and is not a
separator.  A key comes from a word that starts with a dash and is not `--`.
Blocks nest at most as deep as the limit allows.  All of this holds of every
command at every level, whatever text it was read from.
-/

namespace CommandScript

namespace Lexeme

open Spelling

theorem writableName_of_ofTerm {run value : List Char} {name : String}
    (nonempty : run ≠ []) (bare : ∀ char ∈ run, isBare char = true)
    (same : Symbol.ofTerm (String.ofList (run ++ value)) = .unquoted name) :
    WritableName name := by
  obtain ⟨first, run, rfl⟩ := List.exists_cons_of_ne_nil nonempty
  unfold Symbol.ofTerm at same
  split at same
  · cases same
  · rename_i notDouble
    split at same
    · cases same
    · rename_i notSingle
      cases same
      refine ⟨notSingle, notDouble, first, ?_, bare first List.mem_cons_self⟩
      rw [String.toList_ofList]
      rfl

theorem writableName_of_symbol? {lexeme : Lexeme} {rest : List Char}
    {name : String} (precedes : lexeme.Precedes rest)
    (same : lexeme.symbol? = some (.unquoted name)) : WritableName name := by
  cases lexeme with
  | term run fused =>
      cases fused with
      | none =>
          obtain ⟨nonempty, bare, -⟩ := precedes
          apply writableName_of_ofTerm nonempty bare
          rw [List.append_nil]
          exact Option.some.inj same
      | some quotation =>
          obtain ⟨nonempty, bare, -⟩ := precedes
          exact writableName_of_ofTerm nonempty bare (Option.some.inj same)
  | _ => cases same

end Lexeme

theorem Token.writableName_of_ofText {text : String} {tokens : List Token}
    (success : ofText text = .ok tokens) {name : String}
    (member : .unquoted name ∈ tokens.map Token.symbol) :
    Spelling.WritableName name := by
  obtain ⟨lexemes, divides⟩ := exists_divides_of_ofText success
  have kept := ((ofText_eq_ok_iff divides).mp success).sublist.map Token.symbol
  have raw := kept.subset member
  rw [Lexeme.tokens_map_symbol] at raw
  obtain ⟨lexeme, found, same⟩ := List.mem_filterMap.mp raw
  obtain ⟨rest, precedes⟩ := divides.exists_precedes lexeme found
  exact Lexeme.writableName_of_symbol? precedes same

namespace Grammar

open Command

variable {limit : Int} {admits : String → Prop} {motive : Nat → Command → Prop}

/-- A property of commands by level passes from the commands of a block to the
command of the line. -/
def LineStep (limit : Int) (admits : String → Prop)
    (motive : Nat → Command → Prop) : Prop :=
  ∀ depth name (named : name ≠ "") words subs, admits name →
    subs = [] ∨ (depth + 1 : Nat) ≤ limit →
    (∀ sub ∈ subs, motive (depth + 1) sub) →
    motive depth (.ofWords name named words subs)

mutual

theorem IsScript.forall_commands (step : LineStep limit admits motive) :
    ∀ {depth : Nat} {symbols : List Symbol} {commands : List Command},
      IsScript limit depth symbols commands →
      (∀ name, .unquoted name ∈ symbols → admits name) →
      ∀ command ∈ commands, motive depth command
  | _, _, _, .last line => by
      intro names command member
      exact line.forall_command step names command (Option.mem_toList.mp member)
  | _, _, _, .more line _ script => by
      intro names command member
      rcases List.mem_append.mp member with first | later
      · apply line.forall_command step _ command (Option.mem_toList.mp first)
        intro name inside
        exact names name (List.mem_append_left _ inside)
      · apply script.forall_commands step _ command later
        intro name behind
        exact names name
          (List.mem_append_right _ (List.mem_cons_of_mem _ behind))

theorem IsLine.forall_command (step : LineStep limit admits motive) :
    ∀ {depth : Nat} {symbols : List Symbol} {line : Option Command},
      IsLine limit depth symbols line →
      (∀ name, .unquoted name ∈ symbols → admits name) →
      ∀ command ∈ line, motive depth command
  | _, _, _, .empty => by
      intro _ command member
      cases member
  | depth, _, _, .plain named words => by
      intro names command member
      cases member
      apply step depth _ named words [] (names _ List.mem_cons_self) (.inl rfl)
      intro sub below
      cases below
  | depth, _, _, .nested named words block => by
      intro names command member
      cases member
      obtain ⟨shallow, below⟩ := block.forall_commands step fun name inside =>
        names name (List.mem_append_right _ inside)
      exact step depth _ named words _ (names _ (by simp)) (.inr shallow) below

theorem IsBlock.forall_commands (step : LineStep limit admits motive) :
    ∀ {depth : Nat} {symbols : List Symbol} {subs : List Command},
      IsBlock limit depth symbols subs →
      (∀ name, .unquoted name ∈ symbols → admits name) →
      (depth + 1 : Nat) ≤ limit ∧ ∀ sub ∈ subs, motive (depth + 1) sub
  | _, _, _, .braces shallow script => by
      intro names
      apply And.intro shallow
      apply script.forall_commands step
      intro name inside
      exact names name (by simp [inside])

end

theorem IsScript.everywhere {holds : Command → Prop} {depth : Nat}
    {symbols : List Symbol} {commands : List Command}
    (head : ∀ name (named : name ≠ "") words subs, admits name →
      holds (.ofWords name named words subs))
    (script : IsScript limit depth symbols commands)
    (names : ∀ name, .unquoted name ∈ symbols → admits name) :
    ∀ command ∈ commands, command.Everywhere holds := by
  have step :
      LineStep limit admits fun _ command => command.Everywhere holds := by
    intro _ name named words subs admitted _ below
    apply everywhere_iff.mpr
    exact ⟨head name named words subs admitted, below⟩
  exact script.forall_commands step names

theorem IsScript.depth_le {depth : Nat} {symbols : List Symbol}
    {commands : List Command} (script : IsScript limit depth symbols commands)
    (shallow : (depth : Int) ≤ limit) :
    ∀ command ∈ commands, (depth + command.depth : Nat) ≤ limit := by
  have step : LineStep limit (fun _ => True) fun depth command =>
      (depth : Int) ≤ limit → (depth + command.depth : Nat) ≤ limit := by
    intro depth name named words subs _ deeper below shallow
    rcases deeper with childless | deeper
    · rw [depth_of_subs_eq_nil childless]
      exact shallow
    · have bounded : (Command.ofWords name named words subs).depth ≤
          limit.toNat - depth := by
        apply depth_le_iff.mpr
        intro sub member
        have reach := below sub member deeper
        omega
      omega
  intro command member
  exact script.forall_commands step (fun _ _ => trivial) command member shallow

end Grammar

namespace Command

/-- Every option key starts with a dash. -/
def DashLed (command : Command) : Prop :=
  ∀ option ∈ command.options, startsWithDash option.1 = true

theorem dashLed_ofWords (name : String) (named : name ≠ "") (words : List Word)
    (subs : List Command) : (ofWords name named words subs).DashLed := by
  intro option member
  exact (Operands.isOptionKey_of_ofWords words option member).dash

theorem writable_ofWords (name : String) (named : name ≠ "") (words : List Word)
    (subs : List Command) (writable : Spelling.WritableName name) :
    (ofWords name named words subs).Writable := by
  refine ⟨writable, ?_⟩
  intro option member
  exact (Operands.isOptionKey_of_ofWords words option member).notMark

end Command

namespace Script

variable {limit : Int} {text : String} {commands : List Command}

theorem dashLed_of_parse (success : parse limit text = .ok commands) :
    ∀ command ∈ commands, command.Everywhere Command.DashLed := by
  obtain ⟨tokens, -, script⟩ := parse_eq_ok_iff.mp success
  have head : ∀ name (named : name ≠ "") words subs, True →
      (Command.ofWords name named words subs).DashLed :=
    fun name named words subs _ => Command.dashLed_ofWords name named words subs
  exact script.everywhere head fun _ _ => trivial

theorem writable_of_parse (success : parse limit text = .ok commands) :
    ∀ command ∈ commands, command.Everywhere Command.Writable := by
  obtain ⟨tokens, read, script⟩ := parse_eq_ok_iff.mp success
  apply script.everywhere Command.writable_ofWords
  intro name member
  exact Token.writableName_of_ofText read member

theorem depth_le_of_parse (nonneg : 0 ≤ limit)
    (success : parse limit text = .ok commands) :
    ∀ command ∈ commands, (command.depth : Int) ≤ limit := by
  obtain ⟨tokens, -, script⟩ := parse_eq_ok_iff.mp success
  intro command member
  have reach := script.depth_le (by simpa using nonneg) command member
  simpa using reach

end Script

end CommandScript
