import CommandScript.Proofs.OperandsRoundTrip
import CommandScript.Proofs.ScriptGrammar

/-!
# The role of each word of a line

Reading the words after a name takes a look ahead: a key takes the next word
away from the rest, and after the first bare `--` nothing is a key any more.
What a word becomes can still be told from the word itself, the one right before
it and the place of that mark.  An absorbed word never opens an option, since it
is quoted or has no dash, and never is the mark, so that skipping it hides
nothing from the words that follow.
-/

namespace CommandScript

namespace Word

def isDashed : Word → Bool
  | quoted _ => false
  | unquoted value => startsWithDash value

theorem isAbsorbable_eq_not_isDashed (word : Word) :
    word.isAbsorbable = !word.isDashed := by
  cases word <;> rfl

end Word

/-- The word that an item of a line carries; a block carries none. -/
def Item.word? : Item → Option Word
  | .token content => Word.ofSymbol? content.symbol
  | .block _ _ => none

/-- A block is the last item of a line that is accepted, so that no word is
behind one. -/
theorem Word.ofLine_eq_filterMap {items : Line} {subs : List Command}
    (accepted : Command.subsOfItems items = .ok subs) :
    ofLine items = items.filterMap Item.word? := by
  induction items with
  | nil => rfl
  | cons item items induction =>
      cases item with
      | token content =>
          rw [Command.subsOfItems] at accepted
          rw [ofLine, induction accepted, List.filterMap_cons, Item.word?]
          cases ofSymbol? content.symbol <;> rfl
      | block lines position =>
          obtain ⟨-, rfl⟩ := Command.subsOfItems_block_eq_ok_iff.mp accepted
          rfl

namespace Operands

/-- What a word of a line is used for.  A mark is dropped. -/
inductive Role where
  | key
  | value
  | mark
  | argument
  deriving DecidableEq

/-- The words give the operands when each is used once, in order, and for its
role.  A key is used together with the value right after it, if there is one,
and a value only together with the key right before it. -/
inductive Uses : List Word → List Role → Operands → Prop where
  | nil : Uses [] [] {}
  | argument {word : Word} {words : List Word} {roles : List Role}
      {operands : Operands} :
      Uses words roles operands →
      Uses (word :: words) (.argument :: roles) (operands.addArg word.value)
  | mark {word : Word} {words : List Word} {roles : List Role}
      {operands : Operands} :
      Uses words roles operands → Uses (word :: words) (.mark :: roles) operands
  | flag {key : Word} {words : List Word} {roles : List Role}
      {operands : Operands} :
      roles.head? ≠ some .value → Uses words roles operands →
      Uses (key :: words) (.key :: roles) (operands.addOption key.value none)
  | option {key value : Word} {words : List Word} {roles : List Role}
      {operands : Operands} :
      Uses words roles operands →
      Uses (key :: value :: words) (.key :: .value :: roles)
        (operands.addOption key.value (some value.value))

def givenArguments (used : List (Word × Role)) : List String :=
  (used.filter fun entry => entry.2 = .argument).map fun entry => entry.1.value

/-- The text of the first word, if it is a value. -/
def givenValue? : List (Word × Role) → Option String
  | (word, .value) :: _ => some word.value
  | _ => none

/-- The texts of the words that are keys, each with that of the value right
after it. -/
def givenOptions : List (Word × Role) → List (String × Option String)
  | [] => []
  | (word, .key) :: rest => (word.value, givenValue? rest) :: givenOptions rest
  | _ :: rest => givenOptions rest

variable {word : Word} {words : List Word} {roles : List Role}
  {operands : Operands} {index : Nat}

theorem Uses.args_eq (uses : Uses words roles operands) :
    operands.args = givenArguments (words.zip roles) := by
  induction uses with
  | nil => rfl
  | argument _ induction => exact congrArg (List.cons _) induction
  | mark _ induction => exact induction
  | flag _ _ induction => exact induction
  | option _ induction => exact induction

theorem givenValue?_zip_eq_none (flag : roles.head? ≠ some .value) :
    givenValue? (words.zip roles) = none := by
  cases words with
  | nil => rfl
  | cons word words =>
      cases roles with
      | nil => rfl
      | cons role roles =>
          cases role with
          | value => exact absurd rfl flag
          | _ => rfl

theorem Uses.options_eq (uses : Uses words roles operands) :
    operands.options = givenOptions (words.zip roles) := by
  induction uses with
  | nil => rfl
  | argument _ induction => exact induction
  | mark _ induction => exact induction
  | flag flag _ induction =>
      rw [List.zip_cons_cons, givenOptions, givenValue?_zip_eq_none flag,
        ← induction]
      rfl
  | option _ induction => exact congrArg (List.cons _) induction

/-- The place of the first bare `--`, or the end if there is none. -/
def markPlace (words : List Word) : Nat :=
  words.findIdx fun word => word = .unquoted positionalMark

/-- Roles that depend on the word, the word before it and the first mark
only. -/
structure Classifies (words : List Word) (roles : List Role) : Prop where
  length_eq : roles.length = words.length
  key_iff : ∀ index word, words[index]? = some word →
    (roles[index]? = some .key ↔ index < markPlace words ∧ word.isDashed = true)
  value_iff : ∀ index word, words[index]? = some word →
    (roles[index]? = some .value ↔ index < markPlace words ∧
      (∃ before, before + 1 = index ∧ roles[before]? = some .key) ∧
      word.isDashed = false)
  mark_iff : ∀ index, index < words.length →
    (roles[index]? = some .mark ↔ index = markPlace words)
  argument_iff : ∀ index, index < words.length →
    (roles[index]? = some .argument ↔ markPlace words < index ∨
      index < markPlace words ∧ roles[index]? ≠ some .key ∧
        roles[index]? ≠ some .value)

def dashedAt (words : List Word) (index : Nat) : Bool :=
  words[index]?.any Word.isDashed

/-- The role of the word at a place. -/
def roleAt (words : List Word) (index : Nat) : Role :=
  if markPlace words < index then .argument
  else if index = markPlace words then .mark
  else if dashedAt words index then .key
  else if 0 < index ∧ dashedAt words (index - 1) then .value
  else .argument

def rolesOf (words : List Word) : List Role :=
  (List.range words.length).map (roleAt words)

theorem rolesOf_getElem? (inside : index < words.length) :
    (rolesOf words)[index]? = some (roleAt words index) := by
  simp [rolesOf, inside]

theorem dashedAt_of_getElem? (found : words[index]? = some word) :
    dashedAt words index = word.isDashed := by
  rw [dashedAt, found, Option.any_some]

theorem roleAt_eq_key_iff :
    roleAt words index = .key ↔
      index < markPlace words ∧ dashedAt words index = true := by
  unfold roleAt
  split_ifs with behind atMark dashed absorbed
  · exact iff_of_false nofun fun both => Nat.lt_asymm behind both.1
  · exact iff_of_false nofun fun both => Nat.ne_of_lt both.1 atMark
  · exact iff_of_true rfl ⟨by omega, dashed⟩
  · exact iff_of_false nofun fun both => dashed both.2
  · exact iff_of_false nofun fun both => dashed both.2

theorem roleAt_eq_value_iff :
    roleAt words index = .value ↔ index < markPlace words ∧
      (∃ before, before + 1 = index ∧ roleAt words before = .key) ∧
      dashedAt words index = false := by
  rw [roleAt]
  split_ifs with behind atMark dashed absorbed
  · exact iff_of_false nofun fun all => Nat.lt_asymm behind all.1
  · exact iff_of_false nofun fun all => Nat.ne_of_lt all.1 atMark
  · exact iff_of_false nofun fun all =>
      Bool.false_ne_true (all.2.2.symm.trans dashed)
  · have key : roleAt words (index - 1) = .key :=
      roleAt_eq_key_iff.mpr ⟨by omega, absorbed.2⟩
    exact iff_of_true rfl
      ⟨by omega, ⟨index - 1, by omega, key⟩,
        Bool.eq_false_of_not_eq_true dashed⟩
  · refine iff_of_false nofun ?_
    rintro ⟨-, ⟨before, rfl, key⟩, -⟩
    exact absorbed ⟨Nat.succ_pos before, (roleAt_eq_key_iff.mp key).2⟩

theorem roleAt_eq_mark_iff :
    roleAt words index = .mark ↔ index = markPlace words := by
  unfold roleAt
  split_ifs with behind atMark dashed absorbed
  · exact iff_of_false nofun (Nat.ne_of_gt behind)
  · exact iff_of_true rfl atMark
  · exact iff_of_false nofun atMark
  · exact iff_of_false nofun atMark
  · exact iff_of_false nofun atMark

theorem roleAt_eq_argument_iff :
    roleAt words index = .argument ↔ markPlace words < index ∨
      index < markPlace words ∧ roleAt words index ≠ .key ∧
        roleAt words index ≠ .value := by
  rcases Nat.lt_trichotomy index (markPlace words) with ahead | atMark | behind
  · have notMark : roleAt words index ≠ .mark :=
      fun mark => Nat.ne_of_lt ahead (roleAt_eq_mark_iff.mp mark)
    have notBehind := Nat.lt_asymm ahead
    cases role : roleAt words index with
    | mark => exact absurd role notMark
    | _ => simp [ahead, notBehind]
  · rw [roleAt_eq_mark_iff.mpr atMark]
    simp [atMark]
  · rw [roleAt, if_pos behind]
    exact iff_of_true rfl (.inl behind)

theorem classifies_rolesOf (words : List Word) :
    Classifies words (rolesOf words) where
  length_eq := by rw [rolesOf, List.length_map, List.length_range]
  key_iff index word found := by
    obtain ⟨inside, -⟩ := List.getElem?_eq_some_iff.mp found
    rw [rolesOf_getElem? inside, Option.some_inj, roleAt_eq_key_iff,
      dashedAt_of_getElem? found]
  value_iff index word found := by
    obtain ⟨inside, -⟩ := List.getElem?_eq_some_iff.mp found
    have before_iff : ∀ before, before + 1 = index ∧
        (rolesOf words)[before]? = some .key ↔
          before + 1 = index ∧ roleAt words before = .key := by
      intro before
      apply and_congr_right
      intro next
      rw [rolesOf_getElem? (by omega), Option.some_inj]
    rw [rolesOf_getElem? inside, Option.some_inj, roleAt_eq_value_iff,
      dashedAt_of_getElem? found, exists_congr before_iff]
  mark_iff index inside := by
    rw [rolesOf_getElem? inside, Option.some_inj, roleAt_eq_mark_iff]
  argument_iff index inside := by
    rw [rolesOf_getElem? inside, ne_eq, ne_eq, Option.some_inj, Option.some_inj,
      Option.some_inj]
    exact roleAt_eq_argument_iff

theorem rolesOf_append (front : List Word)
    (same : ∀ index, index < words.length →
      roleAt (front ++ words) (front.length + index) = roleAt words index) :
    rolesOf (front ++ words) =
      (List.range front.length).map (roleAt (front ++ words)) ++
        rolesOf words := by
  rw [rolesOf, List.length_append, List.range_add, List.map_append,
    List.map_map]
  congr 1
  apply List.map_congr_left
  intro index member
  exact same index (List.mem_range.mp member)

theorem rolesOf_cons
    (same : ∀ index, index < words.length →
      roleAt (word :: words) (index + 1) = roleAt words index) :
    rolesOf (word :: words) = roleAt (word :: words) 0 :: rolesOf words := by
  apply rolesOf_append [word]
  intro index inside
  rw [List.length_singleton, Nat.add_comm]
  exact same index inside

theorem markPlace_cons (notMark : word ≠ .unquoted positionalMark) :
    markPlace (word :: words) = markPlace words + 1 := by
  simp [markPlace, List.findIdx_cons, notMark]

theorem markPlace_mark (words : List Word) :
    markPlace (.unquoted positionalMark :: words) = 0 := by
  simp [markPlace, List.findIdx_cons]

theorem ne_mark_of_isDashed_eq_false (plain : word.isDashed = false) :
    word ≠ .unquoted positionalMark := by
  rintro rfl
  cases plain

/-- A word other than the mark only matters to the word right after it, and to
that one only if the first has a dash and the second has none. -/
theorem roleAt_cons_succ (notMark : word ≠ .unquoted positionalMark)
    (apart : 0 < index ∨ word.isDashed = false ∨ dashedAt words index = true) :
    roleAt (word :: words) (index + 1) = roleAt words index := by
  have shifted (place : Nat) :
      dashedAt (word :: words) (place + 1) = dashedAt words place :=
    rfl
  unfold roleAt
  simp only [markPlace_cons notMark, shifted, Nat.add_sub_cancel,
    Nat.add_lt_add_iff_right, Nat.add_right_cancel_iff, Nat.succ_pos, true_and]
  cases index with
  | zero =>
      have first : dashedAt (word :: words) 0 = word.isDashed := rfl
      rcases apart with behind | plain | dashed
      · exact absurd behind (Nat.lt_irrefl 0)
      · simp [first, plain]
      · simp [dashed]
  | succ before => simp [shifted]

theorem rolesOf_plain (words : List Word) (plain : word.isDashed = false) :
    rolesOf (word :: words) = .argument :: rolesOf words := by
  have notMark := ne_mark_of_isDashed_eq_false plain
  rw [rolesOf_cons fun index _ => roleAt_cons_succ notMark (.inr (.inl plain))]
  have first : roleAt (word :: words) 0 = .argument := by
    simp [roleAt, markPlace_cons notMark, dashedAt, plain]
  rw [first]

theorem rolesOf_mark (words : List Word) :
    rolesOf (.unquoted positionalMark :: words) =
      .mark :: List.replicate words.length .argument := by
  rw [rolesOf, List.length_cons, List.range_succ_eq_map, List.map_cons,
    List.map_map]
  have first : roleAt (.unquoted positionalMark :: words) 0 = .mark := by
    simp [roleAt, markPlace_mark]
  rw [first, List.cons_inj_right, List.eq_replicate_iff]
  constructor
  · simp
  · intro role member
    obtain ⟨index, -, rfl⟩ := List.mem_map.mp member
    simp [roleAt, markPlace_mark]

theorem unquoted_ne_mark {key : String} (isKey : IsOptionKey key) :
    Word.unquoted key ≠ .unquoted positionalMark := by
  intro same
  exact isKey.notMark (Word.unquoted.inj same)

theorem roleAt_zero_of_isOptionKey {key : String} (words : List Word)
    (isKey : IsOptionKey key) : roleAt (.unquoted key :: words) 0 = .key := by
  rw [roleAt_eq_key_iff, markPlace_cons (unquoted_ne_mark isKey)]
  exact ⟨Nat.succ_pos _, isKey.dash⟩

theorem rolesOf_flag {key : String} (isKey : IsOptionKey key)
    (kept : ∀ next ∈ words.head?, next.isDashed = true) :
    rolesOf (.unquoted key :: words) = .key :: rolesOf words := by
  rw [rolesOf_cons, roleAt_zero_of_isOptionKey words isKey]
  intro index inside
  apply roleAt_cons_succ (unquoted_ne_mark isKey)
  cases index with
  | zero =>
      right
      right
      rw [dashedAt_of_getElem? (List.getElem?_eq_getElem inside)]
      apply kept
      rw [List.head?_eq_getElem?]
      exact List.getElem?_eq_getElem inside
  | succ before => exact .inl (Nat.succ_pos before)

theorem rolesOf_option {key : String} {next : Word} (words : List Word)
    (isKey : IsOptionKey key) (absorbed : next.isDashed = false) :
    rolesOf (.unquoted key :: next :: words) =
      .key :: .value :: rolesOf words := by
  have notMark := unquoted_ne_mark isKey
  have nextNotMark := ne_mark_of_isDashed_eq_false absorbed
  have first := roleAt_zero_of_isOptionKey (next :: words) isKey
  have second : roleAt (.unquoted key :: next :: words) 1 = .value := by
    rw [roleAt_eq_value_iff, markPlace_cons notMark, markPlace_cons nextNotMark]
    exact ⟨by omega, ⟨0, rfl, first⟩, absorbed⟩
  have behind : ∀ index, index < words.length →
      roleAt (.unquoted key :: next :: words) (2 + index) =
        roleAt words index := by
    intro index _
    calc roleAt (.unquoted key :: next :: words) (2 + index)
        = roleAt (.unquoted key :: next :: words) (index + 1 + 1) := by
          rw [Nat.add_comm]
      _ = roleAt (next :: words) (index + 1) :=
          roleAt_cons_succ notMark (.inl (Nat.succ_pos index))
      _ = roleAt words index :=
        roleAt_cons_succ nextNotMark (.inr (.inl absorbed))
  refine (rolesOf_append [.unquoted key, next] behind).trans ?_
  change [roleAt (.unquoted key :: next :: words) 0,
    roleAt (.unquoted key :: next :: words) 1] ++ _ = _
  rw [first, second]
  rfl

theorem uses_arguments (words : List Word) :
    Uses words (List.replicate words.length .argument)
      { args := words.map Word.value } := by
  induction words with
  | nil => exact .nil
  | cons word words induction => exact .argument induction

theorem head?_rolesOf (kept : ∀ next ∈ words.head?, next.isDashed = true) :
    (rolesOf words).head? ≠ some .value := by
  cases words with
  | nil => simp [rolesOf]
  | cons word words =>
      have first : (rolesOf (word :: words)).head? =
          some (roleAt (word :: words) 0) := by
        rw [List.head?_eq_getElem?]
        exact rolesOf_getElem? (Nat.succ_pos _)
      rw [first, ne_eq, Option.some_inj, roleAt_eq_value_iff]
      rintro ⟨-, -, plain⟩
      exact Bool.false_ne_true (plain.symm.trans (kept word rfl))

/-- Looking ahead uses each word for the role that its place gives it. -/
theorem uses_rolesOf (words : List Word) :
    Uses words (rolesOf words) (ofWords words) := by
  fun_induction ofWords words with
  | case1 => exact .nil
  | case2 value rest induction =>
      rw [rolesOf_plain rest rfl]
      exact .argument induction
  | case3 rest =>
      rw [rolesOf_mark]
      exact .mark (uses_arguments rest)
  | case4 value notMark dash =>
      rw [rolesOf_flag ⟨dash, notMark⟩ (by simp)]
      exact .flag (by simp) .nil
  | case5 value notMark dash next others absorbable induction =>
      rw [Word.isAbsorbable_eq_not_isDashed, Bool.not_eq_true'] at absorbable
      rw [rolesOf_option others ⟨dash, notMark⟩ absorbable]
      exact .option induction
  | case6 value notMark dash next others kept induction =>
      have dashed : ∀ word ∈ (next :: others).head?, word.isDashed = true := by
        simpa [Word.isAbsorbable_eq_not_isDashed] using kept
      rw [rolesOf_flag ⟨dash, notMark⟩ dashed]
      exact .flag (head?_rolesOf dashed) induction
  | case7 value rest notMark notDash induction =>
      rw [rolesOf_plain rest (by simpa [Word.isDashed] using notDash)]
      exact .argument induction

end Operands

/-- Each word of a line that is accepted is used once, in order, for a role that
depends on the word, the word right before it and the first bare `--` only. -/
theorem Command.ofLine_roles {line : Line} {result : Option Command}
    (accepted : ofLine line = .ok result) :
    line = [] ∧ result = none ∨
      ∃ (head : Token) (rest : Line) (command : Command)
        (roles : List Operands.Role),
        line = .token head :: rest ∧ result = some command ∧
        head.symbol = .unquoted command.name ∧
        let words := rest.filterMap Item.word?
        Operands.Classifies words roles ∧
        Operands.Uses words roles ⟨command.args, command.options⟩ ∧
        command.args = Operands.givenArguments (words.zip roles) ∧
        command.options = Operands.givenOptions (words.zip roles) := by
  cases line with
  | nil =>
      rw [ofLine] at accepted
      cases accepted
      exact .inl ⟨rfl, rfl⟩
  | cons item rest =>
      cases item with
      | block lines position =>
          rw [ofLine] at accepted
          cases accepted
      | token head =>
          right
          obtain ⟨name, symbol⟩ := ofLine_token_eq_ok accepted
          obtain ⟨named, subs, below, rfl⟩ :=
            (ofLine_unquoted_eq_ok_iff symbol).mp accepted
          have uses := Operands.uses_rolesOf (Word.ofLine rest)
          rw [Word.ofLine_eq_filterMap below] at uses ⊢
          refine ⟨head, rest, _, Operands.rolesOf (rest.filterMap Item.word?),
            rfl, rfl, symbol, ?_⟩
          exact ⟨Operands.classifies_rolesOf _, uses, uses.args_eq,
            uses.options_eq⟩

/-- A key absorbs a quoted word with a dash; the next key cannot absorb the
mark. -/
theorem Command.ofLine_roles_absorbed :
    ∃ roles,
      Operands.Classifies [.unquoted "a", .unquoted "-b", .quoted "-c",
        .unquoted "-f", .unquoted "--", .unquoted "-d"] roles ∧
      Operands.givenOptions
        (List.zip [.unquoted "a", .unquoted "-b", .quoted "-c",
          .unquoted "-f", .unquoted "--", .unquoted "-d"] roles) =
        [("-b", some "-c"), ("-f", none)] := by
  have accepted :
      ofLine [.token ⟨.unquoted "-x", 0⟩, .token ⟨.unquoted "a", 3⟩,
        .token ⟨.unquoted "-b", 5⟩, .token ⟨.quoted "-c", 8⟩,
        .token ⟨.unquoted "-f", 13⟩, .token ⟨.unquoted "--", 16⟩,
        .token ⟨.unquoted "-d", 19⟩, .block [] 22] =
        .ok (some {
          name := "-x"
          args := ["a", "-d"]
          options := [("-b", some "-c"), ("-f", none)] }) := by
    decide +kernel
  obtain ⟨empty, -⟩ | ⟨_, _, command, roles, same, built, -, classifies, -, -,
    options⟩ := ofLine_roles accepted
  · cases empty
  · cases same
    cases built
    exact ⟨roles, classifies, options.symm⟩

end CommandScript
