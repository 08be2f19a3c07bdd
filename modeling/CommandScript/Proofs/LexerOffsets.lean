import CommandScript.Proofs.LexerSteps
import CommandScript.Proofs.Outcome
import CommandScript.Proofs.QuotedGrammar

/-!
# Reading a text further on

The lexer is told where the text that it reads starts, and only adds to that
offset.  So the same text is read in the same way wherever it stands: its tokens
and its first fault are found as much further on as the text is.
-/

namespace CommandScript

open Outcome

/-- The same token, `distance` characters further on. -/
def Token.shift (distance : Nat) (token : Token) : Token :=
  { token with position := token.position + distance }

def Token.shiftAll (distance : Nat) (tokens : List Token) : List Token :=
  tokens.map (shift distance)

def LexicalFault.shift (distance : Nat) (fault : LexicalFault) : LexicalFault :=
  { fault with position := fault.position + distance }

def Scanned.shift (distance : Nat) (scanned : Scanned) : Scanned :=
  { scanned with stop := scanned.stop + distance }

/-- The first outcome is the second one, `distance` characters closer. -/
abbrev Outcome.Shifted {α : Type} (shift : Nat → α → α) (distance : Nat) :
    Except LexicalFault α → Except LexicalFault α → Prop :=
  Agree (fun fault other => other = fault.shift distance)
    (fun result other => other = shift distance result)

variable {distance : Nat}

namespace Quoted

theorem shifted_prepend {left right : Except LexicalFault Scanned}
    (shifted : Shifted Scanned.shift distance left right) (chars : List Char) :
    Shifted Scanned.shift distance (left.map (·.prepend chars))
      (right.map (·.prepend chars)) := by
  apply shifted.map
  intro scanned _ further
  subst further
  rfl

theorem scanBody_shifted (mark : Char) (width run offset : Nat)
    (text : List Char) :
    Shifted Scanned.shift distance (scanBody mark width run offset text)
      (scanBody mark width run (offset + distance) text) := by
  fun_induction scanBody mark width run offset text with
  | case1 => exact .error rfl
  | case2 run offset rest closes =>
      rw [scanBody_mark, if_pos closes, Nat.add_right_comm]
      exact .ok rfl
  | case3 run offset rest pending induction =>
      rw [scanBody_mark, if_neg pending, Nat.add_right_comm]
      exact induction
  | case4 run offset notMark =>
      rw [scanBody.eq_def]
      simp only [if_neg notMark, if_true]
      rw [Nat.add_right_comm]
      exact .error rfl
  | case5 run offset letter rest unknown notMark =>
      rw [scanBody.eq_def]
      simp only [if_neg notMark, if_true, unknown]
      rw [Nat.add_right_comm]
      exact .error rfl
  | case6 run offset letter rest decoded known notMark induction =>
      rw [scanBody_escape notMark known, Nat.add_right_comm]
      exact shifted_prepend induction _
  | case7 run offset char rest notMark notBackslash induction =>
      rw [scanBody_plain notMark notBackslash, Nat.add_right_comm]
      exact shifted_prepend induction _

theorem scan_shifted (mark : Char) (offset : Nat) (text : List Char) :
    Shifted Scanned.shift distance (scan mark offset text)
      (scan mark (offset + distance) text) := by
  simp only [scan, Nat.add_right_comm offset distance]
  split
  · exact .ok rfl
  · exact scanBody_shifted ..

end Quoted

namespace Term

theorem scan_shifted (first : Char) (offset : Nat) (text : List Char) :
    Shifted Scanned.shift distance (scan first offset text)
      (scan first (offset + distance) text) := by
  simp only [scan, Nat.add_right_comm offset distance]
  split
  · exact .ok rfl
  · split
    · exact Quoted.shifted_prepend (Quoted.scan_shifted ..) _
    · exact .ok rfl

end Term

namespace Token

theorem shifted_cons {left right : Except LexicalFault (List Token)}
    (shifted : Shifted Token.shiftAll distance left right)
    (symbol : Symbol) (offset : Nat) :
    Shifted Token.shiftAll distance
      (left.map (⟨symbol, offset⟩ :: ·))
      (right.map (⟨symbol, (offset + distance : Nat)⟩ :: ·)) := by
  apply shifted.map
  intro tokens _ further
  subst further
  rfl

/-- A text is read in the same way wherever it stands. -/
theorem lexFrom_shifted (touching : Bool) (offset : Nat) (text : List Char) :
    Shifted Token.shiftAll distance
      (lexFrom touching offset text)
      (lexFrom touching (offset + distance) text) := by
  fun_induction lexFrom touching offset text with
  | case1 =>
      rw [lexFrom_nil]
      exact .ok rfl
  | case2 touching offset char rest blank induction =>
      rw [lexFrom_blank blank, Nat.add_right_comm]
      exact induction
  | case3 touching offset char rest _ symbol control induction =>
      rw [lexFrom_control control, Nat.add_right_comm]
      exact shifted_cons induction symbol offset
  | case4 touching offset rest feed _ _ induction =>
      obtain ⟨rest, rfl⟩ := List.head?_eq_some_iff.mp feed
      rw [lexFrom_return, Nat.add_right_comm]
      exact shifted_cons induction .lineBreak offset
  | case5 touching offset rest lone =>
      rw [lexFrom_loneReturn lone]
      exact .error rfl
  | case6 offset char rest _ _ _ mark =>
      rw [lexFrom_mark mark, if_pos rfl]
      exact .error rfl
  | case7 touching offset char rest _ _ _ mark untouched fault scan =>
      obtain ⟨_, further, rfl⟩ :=
        (Quoted.scan_shifted char offset rest).eq_error scan
      rw [lexFrom_mark mark, if_neg untouched, further]
      exact .error rfl
  | case8 touching offset char rest _ _ _ mark untouched scanned scan
      induction =>
      obtain ⟨_, further, rfl⟩ :=
        (Quoted.scan_shifted char offset rest).eq_ok scan
      rw [lexFrom_mark mark, if_neg untouched, further]
      exact shifted_cons induction _ offset
  | case9 offset char rest _ _ _ _ bare =>
      rw [lexFrom_bare bare, if_pos rfl]
      exact .error rfl
  | case10 touching offset char rest _ _ _ _ bare untouched fault scan =>
      obtain ⟨_, further, rfl⟩ :=
        (Term.scan_shifted char offset rest).eq_error scan
      rw [lexFrom_bare bare, if_neg untouched, further]
      exact .error rfl
  | case11 touching offset char rest _ _ _ _ bare untouched scanned scan
      induction =>
      obtain ⟨_, further, rfl⟩ :=
        (Term.scan_shifted char offset rest).eq_ok scan
      rw [lexFrom_bare bare, if_neg untouched, further]
      exact shifted_cons induction _ offset
  | case12 touching offset char rest notBlank plain notReturn notMark notBare =>
      rw [lexFrom_strayChar notBlank plain notReturn notMark notBare]
      exact .error rfl

end Token

end CommandScript
