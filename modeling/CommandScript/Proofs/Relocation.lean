import CommandScript.Proofs.ScriptGrammar

/-!
# Tokens in other places

Positions are kept for messages only.  When the same tokens are read in other
places, they are grouped in the same way and give the same commands, and where
they fail, they fail for the same reason.  `moves` says which place may take the
place of which; it can be any relation.

The simulation of the grouping leaves room for lines that were finished before
the first of the tokens.  They stay in front of the lines of the outermost level
and change nothing else.
-/

namespace CommandScript

open Outcome

/-- The same token in another place. -/
structure Token.Moved (moves : Int → Int → Prop)
    (left right : Token) : Prop where
  symbol : left.symbol = right.symbol
  position : moves left.position right.position

namespace Item

mutual

/-- The same item in another place, at every depth. -/
inductive Moved (moves : Int → Int → Prop) : Item → Item → Prop where
  | token {left right : Token} :
      left.Moved moves right → Moved moves (.token left) (.token right)
  | block {left right : List Line} {source target : Int} :
      LinesMoved moves left right → moves source target →
      Moved moves (.block left source) (.block right target)

inductive LineMoved (moves : Int → Int → Prop) : Line → Line → Prop where
  | nil : LineMoved moves [] []
  | cons {left right : Item} {lefts rights : Line} :
      Moved moves left right → LineMoved moves lefts rights →
      LineMoved moves (left :: lefts) (right :: rights)

inductive LinesMoved (moves : Int → Int → Prop) :
    List Line → List Line → Prop where
  | nil : LinesMoved moves [] []
  | cons {left right : Line} {lefts rights : List Line} :
      LineMoved moves left right → LinesMoved moves lefts rights →
      LinesMoved moves (left :: lefts) (right :: rights)

end

variable {moves : Int → Int → Prop}

theorem LineMoved.append {left right : Line}
    (first : LineMoved moves left right) {lefts rights : Line}
    (second : LineMoved moves lefts rights) :
    LineMoved moves (left ++ lefts) (right ++ rights) := by
  match first with
  | .nil => exact second
  | .cons item others => exact .cons item (others.append second)

theorem LinesMoved.append {left right : List Line}
    (first : LinesMoved moves left right) {lefts rights : List Line}
    (second : LinesMoved moves lefts rights) :
    LinesMoved moves (left ++ lefts) (right ++ rights) := by
  match first with
  | .nil => exact second
  | .cons line others => exact .cons line (others.append second)

theorem LineMoved.isEmpty_eq {left right : Line}
    (moved : LineMoved moves left right) :
    left.isEmpty = right.isEmpty := by
  cases moved <;> rfl

theorem Moved.position {left right : Item} (moved : left.Moved moves right) :
    moves left.position right.position := by
  cases moved with
  | token same => exact same.position
  | block _ place => exact place

/-- The lines are found in other places, with `front` before them. -/
def LinesBehind (moves : Int → Int → Prop)
    (front left right : List Line) : Prop :=
  ∃ moved, LinesMoved moves left moved ∧ right = front ++ moved

theorem LinesBehind.moved {left right : List Line}
    (behind : LinesBehind moves [] left right) :
    LinesMoved moves left right := by
  obtain ⟨_, moved, rfl⟩ := behind
  exact moved

end Item

/-- The same failure in another place. -/
inductive Error.Moved (moves : Int → Int → Prop) : Error → Error → Prop where
  | structural {reason : StructuralReason} {source target : Int} :
      moves source target →
      Moved moves (.structural reason (some source))
        (.structural reason (some target))
  | nesting {limit source target : Int} :
      moves source target →
      Moved moves (.nesting limit (some source)) (.nesting limit (some target))
  | emptyName : Moved moves .emptyName .emptyName

/-- The same level in other places, behind the lines of `front`. -/
structure Level.Moved (moves : Int → Int → Prop) (front : List Line)
    (left right : Level) : Prop where
  lines : Item.LinesBehind moves front left.lines right.lines
  current : Item.LineMoved moves left.current right.current

namespace Level.Moved

open Item

variable {moves : Int → Int → Prop} {front : List Line} {left right : Level}

theorem add (moved : left.Moved moves front right) {item other : Item}
    (same : item.Moved moves other) :
    (left.add item).Moved moves front (right.add other) where
  lines := moved.lines
  current := moved.current.append (.cons same .nil)

theorem endLine (moved : left.Moved moves front right) :
    left.endLine.Moved moves front right.endLine := by
  unfold Level.endLine
  rw [← moved.current.isEmpty_eq]
  split
  · exact moved
  · obtain ⟨lines, linesMoved, same⟩ := moved.lines
    refine ⟨⟨lines ++ [right.current], ?_, ?_⟩, .nil⟩
    · exact linesMoved.append (.cons moved.current .nil)
    · rw [same, List.append_assoc]

theorem finish (moved : left.Moved moves front right) :
    LinesBehind moves front left.finish right.finish :=
  moved.endLine.lines

theorem empty : Level.Moved moves [] {} {} :=
  ⟨⟨[], .nil, rfl⟩, .nil⟩

end Level.Moved

namespace Grouping

open Item

/-- The same levels in other places, with the outermost one behind the lines of
`front`. -/
inductive Moved (moves : Int → Int → Prop) (front : List Line) :
    Grouping → Grouping → Prop where
  | outermost {left right : Level} :
      left.Moved moves front right → Moved moves front ⟨left, []⟩ ⟨right, []⟩
  | inside {left right leftEnclosing rightEnclosing : Level}
      {source target : Int} {leftOuter rightOuter : List (Level × Int)} :
      left.Moved moves [] right → moves source target →
      Moved moves front ⟨leftEnclosing, leftOuter⟩
        ⟨rightEnclosing, rightOuter⟩ →
      Moved moves front ⟨left, (leftEnclosing, source) :: leftOuter⟩
        ⟨right, (rightEnclosing, target) :: rightOuter⟩

variable {moves : Int → Int → Prop} {front : List Line} {limit : Int}

theorem Moved.outer_length {left right : Grouping}
    (moved : Moved moves front left right) :
    left.outer.length = right.outer.length := by
  induction moved with
  | outermost _ => rfl
  | inside _ _ _ induction => exact congrArg Nat.succ induction

/-- A change of the level that receives the tokens leaves the others alone. -/
theorem Moved.change {left right : Level}
    {leftOuter rightOuter : List (Level × Int)}
    (moved : Moved moves front ⟨left, leftOuter⟩ ⟨right, rightOuter⟩)
    {leftNew rightNew : Level}
    (change : ∀ front, left.Moved moves front right →
      leftNew.Moved moves front rightNew) :
    Moved moves front ⟨leftNew, leftOuter⟩ ⟨rightNew, rightOuter⟩ := by
  cases moved with
  | outermost level => exact .outermost (change _ level)
  | inside level place outer => exact .inside (change _ level) place outer

/-- One token in two places does the same to the same levels. -/
theorem Moved.step {left right : Grouping}
    (moved : Moved moves front left right) {token other : Token}
    (same : token.Moved moves other) :
    Agree (Error.Moved moves) (Moved moves front) (left.step limit token)
      (right.step limit other) := by
  obtain ⟨leftLevel, leftOuter⟩ := left
  obtain ⟨rightLevel, rightOuter⟩ := right
  unfold Grouping.step
  rw [← same.symbol]
  cases symbol : token.symbol with
  | lineBreak | andAnd => exact .ok (moved.change fun _ level => level.endLine)
  | backslash | and => exact .error (.structural same.position)
  | openBrace =>
      simp only [← moved.outer_length]
      split
      · exact .error (.nesting same.position)
      · exact .ok (.inside .empty same.position moved)
  | closeBrace =>
      cases moved with
      | outermost _ => exact .error (.structural same.position)
      | inside level place outer =>
          exact .ok (outer.change fun _ enclosing =>
            enclosing.add (.block level.finish.moved place))
  | quoted value | unquoted value =>
      exact .ok (moved.change fun _ level => level.add (.token same))

/-- The same tokens in two places do the same to the same levels. -/
theorem Moved.foldlM {tokens others : List Token}
    (same : List.Forall₂ (Token.Moved moves) tokens others)
    {left right : Grouping} (moved : Moved moves front left right) :
    Agree (Error.Moved moves) (Moved moves front)
      (tokens.foldlM (Grouping.step limit) left)
      (others.foldlM (Grouping.step limit) right) := by
  induction same generalizing left right with
  | nil => exact .ok moved
  | cons first _ induction =>
      rw [List.foldlM_cons, List.foldlM_cons]
      apply (moved.step first).bind
      intro _ _ next
      exact induction next

theorem Moved.finish {left right : Grouping}
    (moved : Moved moves front left right) :
    Agree (Error.Moved moves) (LinesBehind moves front) left.finish
      right.finish := by
  cases moved with
  | outermost level => exact .ok level.finish
  | inside _ place _ => exact .error (.structural place)

end Grouping

open Grouping Item

variable {moves : Int → Int → Prop}

namespace Word

theorem ofLine_moved {left right : Line} (moved : LineMoved moves left right) :
    ofLine left = ofLine right := by
  match moved with
  | .nil => rfl
  | .cons (.token same) others =>
      rw [ofLine, ofLine, same.symbol, ofLine_moved others]
  | .cons (.block _ _) _ => rfl

end Word

namespace Command

mutual

/-- A line gives the same command in every place. -/
theorem ofLine_moved : ∀ {left right : Line}, LineMoved moves left right →
    Agree (Error.Moved moves) (· = ·) (ofLine left) (ofLine right)
  | _, _, .nil => by
      rw [ofLine]
      exact .ok rfl
  | _, _, .cons (.block _ place) _ => by
      rw [ofLine, ofLine]
      exact .error (.structural place)
  | _, _, @LineMoved.cons _ _ _ lefts rights (.token same) others => by
      rw [ofLine, ofLine, ← same.symbol]
      split
      · rw [Word.ofLine_moved others]
        apply (subsOfItems_moved others).bind
        intro subs _ same
        subst same
        unfold make
        split
        · exact .error .emptyName
        · exact .ok rfl
      · exact .error (.structural same.position)

theorem subsOfItems_moved : ∀ {left right : Line}, LineMoved moves left right →
    Agree (Error.Moved moves) (· = ·) (subsOfItems left) (subsOfItems right)
  | _, _, .nil => by
      rw [subsOfItems]
      exact .ok rfl
  | _, _, .cons (.token _) others => by
      rw [subsOfItems, subsOfItems]
      exact subsOfItems_moved others
  | _, _, .cons (.block lines _) others => by
      rw [subsOfItems, subsOfItems]
      apply (ofLines_moved lines).bind
      intro subs _ same
      subst same
      cases others with
      | nil => exact .ok rfl
      | cons next _ => exact .error (.structural next.position)

theorem ofLines_moved :
    ∀ {left right : List Line}, LinesMoved moves left right →
      Agree (Error.Moved moves) (· = ·) (ofLines left) (ofLines right)
  | _, _, .nil => by
      rw [ofLines]
      exact .ok rfl
  | _, _, .cons line others => by
      rw [ofLines, ofLines]
      apply (ofLine_moved line).bind
      intro command _ sameCommand
      subst sameCommand
      apply (ofLines_moved others).bind
      intro commands _ sameCommands
      subst sameCommands
      exact .ok rfl

end

end Command

namespace Line

/-- The same tokens in other places form the same lines. -/
theorem ofTokens_moved {limit : Int} {tokens others : List Token}
    (same : List.Forall₂ (Token.Moved moves) tokens others) :
    Agree (Error.Moved moves) (LinesBehind moves []) (ofTokens limit tokens)
      (ofTokens limit others) := by
  have start : Grouping.Moved moves [] {} {} := .outermost .empty
  apply (start.foldlM same).bind
  intro _ _ moved
  exact moved.finish

/-- Tokens behind a separator are grouped as they would be on their own. -/
theorem ofTokens_behind {limit : Int} {first tokens others : List Token}
    {separator : Token} {front : List Line}
    (grouped : ofTokens limit first = .ok front)
    (separates : Separates separator)
    (same : List.Forall₂ (Token.Moved moves) tokens others) :
    Agree (Error.Moved moves) (LinesBehind moves front) (ofTokens limit tokens)
      (ofTokens limit (first ++ separator :: others)) := by
  obtain ⟨final, folded, finished⟩ := bind_eq_ok_iff.mp grouped
  obtain ⟨level, outer⟩ := final
  obtain ⟨closed, outermost⟩ := finish_eq_ok_iff.mp finished
  subst closed outermost
  have behind : ofTokens limit (first ++ separator :: others) =
      others.foldlM (Grouping.step limit) ⟨level.endLine, []⟩ >>=
        Grouping.finish := by
    rw [ofTokens, List.foldlM_append, folded]
    change (Grouping.step limit _ separator >>= _) >>= _ = _
    rw [step_separates separates]
    rfl
  have start : Grouping.Moved moves level.finish {} ⟨level.endLine, []⟩ := by
    apply Grouping.Moved.outermost
    refine ⟨⟨[], .nil, ?_⟩, ?_⟩
    · rw [List.append_nil]
      rfl
    · rw [Level.endLine_current]
      exact .nil
  rw [behind]
  apply (start.foldlM same).bind
  intro _ _ moved
  exact moved.finish

end Line

namespace Command

theorem ofLines_append {front : List Line} {commands : List Command}
    (built : ofLines front = .ok commands) (lines : List Line) :
    ofLines (front ++ lines) = (ofLines lines).map (commands ++ ·) := by
  induction front generalizing commands with
  | nil =>
      rw [ofLines] at built
      cases built
      change ofLines lines = (ofLines lines).map id
      cases ofLines lines <;> rfl
  | cons line front induction =>
      obtain ⟨command, others, first, rest, rfl⟩ :=
        ofLines_cons_eq_ok_iff.mp built
      rw [List.cons_append, ofLines, first, induction rest]
      cases ofLines lines with
      | error failure => rfl
      | ok later => simp [Except.map, bind, Except.bind, pure, Except.pure]

theorem ofLines_behind {front : List Line} {commands : List Command}
    (built : ofLines front = .ok commands) {left right : List Line}
    (behind : LinesBehind moves front left right) :
    Agree (Error.Moved moves) (fun later all => all = commands ++ later)
      (ofLines left) (ofLines right) := by
  obtain ⟨moved, linesMoved, rfl⟩ := behind
  rw [ofLines_append built]
  apply (ofLines_moved linesMoved).map_right
  intro later other same
  rw [same]

end Command

end CommandScript
