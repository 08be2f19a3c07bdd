import CommandScript.Proofs.Relocation
import CommandScript.Script

/-!
# Reading apart from places

Tokens, lines and blocks are compared without their places, at every depth.
What compares as the same is the same in other places, whatever the places are,
so the simulation of a reading by one in other places applies: tokens with the
same symbols form the same lines, and the same lines give the same commands.
Where one reading fails, the other one does too, and only the place in the
failure can differ.

This is what lets texts be compared that differ in their spacing.
-/

namespace CommandScript

open Outcome

namespace Error

/-- A failure without the place where it was found. -/
def placeless : Error → Error
  | lexical reason _ _ => lexical reason 0 none
  | structural reason _ => structural reason none
  | nesting limit _ => nesting limit none
  | error => error

theorem Moved.placeless_eq {moves : Int → Int → Prop} {error other : Error}
    (moved : error.Moved moves other) : other.placeless = error.placeless := by
  cases moved <;> rfl

end Error

theorem Outcome.Agree.placeless {moves : Int → Int → Prop} {α β : Type}
    {gives : α → β → Prop} {left : Except Error α} {right : Except Error β}
    (agree : Agree (Error.Moved moves) gives left right) :
    Agree (fun error other => other.placeless = error.placeless) gives
      left right := by
  apply agree.mono
  · exact fun _ _ failed => failed.placeless_eq
  · exact fun _ _ given => given

theorem Token.forall₂_moved_iff {tokens others : List Token} :
    List.Forall₂ (Token.Moved fun _ _ => True) tokens others ↔
      tokens.map Token.symbol = others.map Token.symbol := by
  rw [← List.forall₂_eq_eq_eq, List.forall₂_map_left_iff,
    List.forall₂_map_right_iff]
  constructor
  · exact fun moved => moved.imp fun _ _ same => same.symbol
  · exact fun same => same.imp fun _ _ symbol => ⟨symbol, trivial⟩

namespace Item

mutual

/-- Items compare as the same exactly when they are the same in some places. -/
theorem same_iff_moved : ∀ {left right : Item},
    left.same right = true ↔ left.Moved (fun _ _ => True) right
  | .token _, .token _ => by
      rw [same, beq_iff_eq]
      constructor
      · intro symbol
        exact .token ⟨symbol, trivial⟩
      · intro moved
        cases moved with
        | token same => exact same.symbol
  | .block _ _, .block _ _ => by
      rw [same, sameLines_iff_moved]
      constructor
      · intro lines
        exact .block lines trivial
      · intro moved
        cases moved with
        | block lines _ => exact lines
  | .token _, .block _ _ => ⟨nofun, nofun⟩
  | .block _ _, .token _ => ⟨nofun, nofun⟩

theorem sameLine_iff_moved : ∀ {left right : Line},
    sameLine left right = true ↔ LineMoved (fun _ _ => True) left right
  | [], [] => ⟨fun _ => .nil, fun _ => rfl⟩
  | _ :: _, _ :: _ => by
      rw [sameLine, Bool.and_eq_true, same_iff_moved, sameLine_iff_moved]
      constructor
      · intro both
        exact .cons both.1 both.2
      · intro moved
        cases moved with
        | cons item others => exact ⟨item, others⟩
  | [], _ :: _ => ⟨nofun, nofun⟩
  | _ :: _, [] => ⟨nofun, nofun⟩

theorem sameLines_iff_moved : ∀ {left right : List Line},
    sameLines left right = true ↔ LinesMoved (fun _ _ => True) left right
  | [], [] => ⟨fun _ => .nil, fun _ => rfl⟩
  | _ :: _, _ :: _ => by
      rw [sameLines, Bool.and_eq_true, sameLine_iff_moved, sameLines_iff_moved]
      constructor
      · intro both
        exact .cons both.1 both.2
      · intro moved
        cases moved with
        | cons line others => exact ⟨line, others⟩
  | [], _ :: _ => ⟨nofun, nofun⟩
  | _ :: _, [] => ⟨nofun, nofun⟩

end

end Item

theorem Line.ofTokens_placeless (limit : Int) {tokens others : List Token}
    (same : tokens.map Token.symbol = others.map Token.symbol) :
    Agree (fun error other => other.placeless = error.placeless)
      (fun lines found => Item.sameLines lines found = true)
      (ofTokens limit tokens) (ofTokens limit others) := by
  have moved := Token.forall₂_moved_iff.mpr same
  apply (ofTokens_moved moved).mono
  · intro _ _ failed
    exact failed.placeless_eq
  · intro _ _ behind
    exact Item.sameLines_iff_moved.mpr behind.moved

theorem Command.ofLines_placeless {lines others : List Line}
    (same : Item.sameLines lines others = true) :
    Agree (fun error other => other.placeless = error.placeless) (· = ·)
      (ofLines lines) (ofLines others) := by
  have moved := Item.sameLines_iff_moved.mp same
  exact (ofLines_moved moved).placeless

namespace Script

/-- Tokens with the same symbols give the same commands, or fail for the same
reason. -/
theorem placeless_of_map_symbol (limit : Int) {tokens others : List Token}
    (same : others.map Token.symbol = tokens.map Token.symbol) :
    Agree (fun error other => other.placeless = error.placeless) (· = ·)
      (Line.ofTokens limit tokens >>= Command.ofLines)
      (Line.ofTokens limit others >>= Command.ofLines) := by
  apply (Line.ofTokens_placeless limit same.symm).bind
  intro _ _ sameLines
  exact Command.ofLines_placeless sameLines

/-- Places have no influence on what is read.  Tokens that are the same apart
from their places form lines that are the same apart from places at every depth,
or they fail for the same reason and against the same limit; and lines that are
the same apart from places give the same command, or they fail for the same
reason. -/
theorem reading_ignores_places :
    (∀ (limit : Int) (tokens others : List Token),
      tokens.map Token.symbol = others.map Token.symbol →
      Agree (fun error other => other.placeless = error.placeless)
        (fun lines found => Item.sameLines lines found = true)
        (Line.ofTokens limit tokens) (Line.ofTokens limit others)) ∧
    ∀ line other : Line, Item.sameLine line other = true →
      Agree (fun error other => other.placeless = error.placeless) (· = ·)
        (Command.ofLine line) (Command.ofLine other) := by
  constructor
  · intro limit tokens others same
    exact Line.ofTokens_placeless limit same
  · intro line other same
    have moved := Item.sameLine_iff_moved.mp same
    exact (Command.ofLine_moved moved).placeless

/-- Spacing and the choice of quotes change the places of a block's tokens and
not its lines, nor why a smaller limit refuses it.  A line read behind another
text gives the same command. -/
theorem reading_ignores_places_spaced :
    (∃ tokens others lines error, Token.ofText "a \x7bb '-k'\x7d" = .ok tokens ∧
      Token.ofText "a\t\x7b b  \"\"\"-k\"\"\" \x7d" = .ok others ∧
      tokens.map Token.symbol = others.map Token.symbol ∧
      Line.ofTokens 1 others = .ok lines ∧
      Item.sameLines [[.token ⟨.unquoted "a", 0⟩,
        .block [[.token ⟨.unquoted "b", 3⟩, .token ⟨.quoted "-k", 5⟩]] 2]]
          lines = true ∧
      Line.ofTokens 0 others = .error error ∧
        error.placeless = .nesting 0 none) ∧
    Command.ofLine [.token ⟨.unquoted "a", 40⟩,
        .block [[.token ⟨.unquoted "b", 43⟩, .token ⟨.quoted "-k", 45⟩]] 42] =
      .ok (some
        { name := "a", subs := [{ name := "b", args := ["-k"] }] }) := by
  constructor
  · have read : Token.ofText "a \x7bb '-k'\x7d" = .ok [⟨.unquoted "a", 0⟩,
        ⟨.openBrace, 2⟩, ⟨.unquoted "b", 3⟩, ⟨.quoted "-k", 5⟩,
        ⟨.closeBrace, 9⟩] := by
      decide +kernel
    have spaced :
        Token.ofText "a\t\x7b b  \"\"\"-k\"\"\" \x7d" = .ok [⟨.unquoted "a", 0⟩,
          ⟨.openBrace, 2⟩, ⟨.unquoted "b", 4⟩, ⟨.quoted "-k", 7⟩,
          ⟨.closeBrace, 16⟩] := by
      decide +kernel
    have ignored := fun limit => reading_ignores_places.1 limit
      [⟨.unquoted "a", 0⟩, ⟨.openBrace, 2⟩, ⟨.unquoted "b", 3⟩,
        ⟨.quoted "-k", 5⟩, ⟨.closeBrace, 9⟩]
      [⟨.unquoted "a", 0⟩, ⟨.openBrace, 2⟩, ⟨.unquoted "b", 4⟩,
        ⟨.quoted "-k", 7⟩, ⟨.closeBrace, 16⟩] rfl
    obtain ⟨lines, grouped, same⟩ := (ignored 1).eq_ok rfl
    obtain ⟨error, refused, reason⟩ := (ignored 0).eq_error rfl
    exact ⟨_, _, lines, error, read, spaced, rfl, grouped, same, refused,
      reason⟩
  · have built : Command.ofLine [.token ⟨.unquoted "a", 0⟩,
        .block [[.token ⟨.unquoted "b", 3⟩, .token ⟨.quoted "-k", 5⟩]] 2] =
        .ok (some
          { name := "a", subs := [{ name := "b", args := ["-k"] }] }) := by
      decide +kernel
    have ignored := reading_ignores_places.2
      [.token ⟨.unquoted "a", 0⟩,
        .block [[.token ⟨.unquoted "b", 3⟩, .token ⟨.quoted "-k", 5⟩]] 2]
      [.token ⟨.unquoted "a", 40⟩,
        .block [[.token ⟨.unquoted "b", 43⟩, .token ⟨.quoted "-k", 45⟩]] 42] rfl
    obtain ⟨_, moved, rfl⟩ := ignored.eq_ok built
    exact moved

end Script

end CommandScript
