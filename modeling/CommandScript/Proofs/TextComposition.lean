import CommandScript.Proofs.LexemeComposition
import CommandScript.Proofs.LexerOffsets

/-!
# Tokens of texts that are put together

Between two texts a delimiter is put, which is read as one symbol wherever it
stands.  It ends every term before it, so the first text is divided as it would
be on its own, and the second one as it would be further on.  A symbol that
takes no part in a continuation keeps the continuations of the two texts apart.
-/

namespace CommandScript

open Outcome

namespace Continuation

variable {token : Token} {base stack : List Token}

theorem mem_push_of_lasting
    (lasting : ∀ symbol, token.symbol.cancels symbol = false)
    (member : token ∈ stack) (next : Token) : token ∈ push stack next := by
  cases stack with
  | nil => cases member
  | cons top below =>
      cases cancels : top.symbol.cancels next.symbol with
      | false =>
          rw [push, cancels]
          exact List.mem_cons_of_mem next member
      | true =>
          rw [push_cancels cancels]
          cases member with
          | head => exact absurd (lasting next.symbol) (by simp [cancels])
          | tail _ inside => exact inside

theorem mem_foldl_push_of_lasting
    (lasting : ∀ symbol, token.symbol.cancels symbol = false)
    (tokens : List Token) (member : token ∈ stack) :
    token ∈ tokens.foldl push stack := by
  induction tokens generalizing stack with
  | nil => exact member
  | cons next tokens induction =>
      exact induction (mem_push_of_lasting lasting member next)

theorem lasting_of_cancels {left right : Symbol}
    (notBackslash : left ≠ .backslash) (cancels : left.cancels right = true)
    (symbol : Symbol) : right.cancels symbol = false := by
  unfold Symbol.cancels at cancels
  split at cancels
  · exact absurd rfl notBackslash
  · rfl
  · cases cancels

/-- The top of the stack cancels none of the tokens that are left in the end. -/
def Clears (base left : List Token) : Prop :=
  ∀ top ∈ base.head?, top.symbol ≠ .backslash ∧
    ∀ token ∈ left, top.symbol.cancels token.symbol = false

/-- Tokens are stacked up in the same way on top of others that cancel none of
what is left of them. -/
theorem foldl_push_append (tokens : List Token)
    (clears : Clears base (tokens.foldl push stack)) :
    tokens.foldl push (stack ++ base) = tokens.foldl push stack ++ base := by
  induction tokens generalizing stack with
  | nil => rfl
  | cons token tokens induction =>
      have same : push (stack ++ base) token = push stack token ++ base := by
        cases stack with
        | cons top below =>
            rw [List.cons_append, push, push]
            split <;> rfl
        | nil =>
            cases base with
            | nil => rfl
            | cons top below =>
                obtain ⟨notBackslash, free⟩ := clears top rfl
                cases cancels : top.symbol.cancels token.symbol with
                | false => simp [push, cancels]
                | true =>
                    have stays := mem_foldl_push_of_lasting
                      (lasting_of_cancels notBackslash cancels) tokens
                      (List.mem_singleton.mpr rfl)
                    have kept := free token stays
                    rw [cancels] at kept
                    cases kept
      rw [List.foldl_cons, List.foldl_cons, same]
      exact induction clears

/-- A token that cancels nothing on either side stands between what is left of
the tokens before it and what is left of those behind it. -/
theorem cancel_append_cons {front back : List Token}
    (before : ∀ last ∈ (cancel front).getLast?,
      last.symbol.cancels token.symbol = false)
    (notBackslash : token.symbol ≠ .backslash)
    (behind : ∀ later ∈ cancel back,
      token.symbol.cancels later.symbol = false) :
    cancel (front ++ token :: back) = cancel front ++ token :: cancel back := by
  have pushed :
      push (front.foldl push []) token = token :: front.foldl push [] := by
    apply push_of_apart
    intro top member
    exact before top (by rwa [cancel, List.getLast?_reverse])
  have clears : Clears (token :: front.foldl push []) (back.foldl push []) := by
    intro top member
    cases member
    refine ⟨notBackslash, ?_⟩
    intro later inside
    exact behind later (List.mem_reverse.mpr inside)
  have stacked := foldl_push_append back clears
  rw [List.nil_append] at stacked
  rw [cancel, List.foldl_append, List.foldl_cons, pushed, stacked]
  simp [cancel]

theorem cancel_shiftAll (distance : Nat) (tokens : List Token) :
    cancel (Token.shiftAll distance tokens) =
      Token.shiftAll distance (cancel tokens) := by
  have push_shift : ∀ (stack : List Token) (token : Token),
      push (Token.shiftAll distance stack) (token.shift distance) =
        Token.shiftAll distance (push stack token) := by
    intro stack token
    cases stack with
    | nil => rfl
    | cons top below =>
        change (if top.symbol.cancels token.symbol then _ else _) = _
        rw [push]
        split <;> rfl
  have stacked : ∀ stack : List Token,
      (Token.shiftAll distance tokens).foldl push
        (Token.shiftAll distance stack) =
          Token.shiftAll distance (tokens.foldl push stack) := by
    induction tokens with
    | nil => exact fun _ => rfl
    | cons token tokens induction =>
        intro stack
        rw [List.foldl_cons, ← induction, ← push_shift]
        rfl
  have whole : (Token.shiftAll distance tokens).foldl push [] =
      Token.shiftAll distance (tokens.foldl push []) := stacked []
  rw [cancel, whole, Token.shiftAll, ← List.map_reverse]
  rfl

end Continuation

namespace Lexeme

variable {text other : List Char} {lexemes : List Lexeme}

/-- Behind a text that can be divided, a text that can stand there is read as it
would be at that offset. -/
theorem Divides.lexFrom_append (divides : Divides text lexemes)
    (joint : Joint lexemes other) (offset : Nat) :
    Token.lexFrom false offset (text ++ other) =
      (Token.lexFrom false (offset + text.length) other).map
        (tokens offset lexemes ++ ·) := by
  induction divides generalizing offset with
  | nil =>
      change Token.lexFrom false offset other =
        (Token.lexFrom false offset other).map id
      cases Token.lexFrom false offset other <;> rfl
  | @cons lexeme rest lexemes precedes apart divides induction =>
      have later : lexeme.isContent = true → Boundary (rest ++ other) := by
        intro content
        exact divides.boundary_append content (apart content) joint
      rw [List.append_assoc, lexFrom_text_append (precedes.exchange later)
        (fun content => ⟨rfl, later content⟩), induction joint.tail]
      rw [List.length_append, Nat.add_assoc]
      cases Token.lexFrom false (offset + (lexeme.text.length + rest.length))
        other with
      | error fault => rfl
      | ok later => simp [Except.map, tokens]

end Lexeme

/-- The text is read as one symbol, `lead` characters in, between any two
texts. -/
structure Delimits (text : List Char) (lead : Nat)
    (symbol : Symbol) : Prop where
  boundary : ∀ rest, Boundary (text ++ rest)
  lexFrom : ∀ offset rest, Token.lexFrom false offset (text ++ rest) =
    (Token.lexFrom false (offset + text.length) rest).map
      (⟨symbol, (offset + lead : Nat)⟩ :: ·)

namespace Delimits

theorem andAnd : Delimits [' ', '&', '&', ' '] 1 .andAnd where
  boundary _ := boundary_cons.mpr rfl
  lexFrom offset rest := by
    have term : (Lexeme.term ['&', '&'] none).Precedes (' ' :: rest) := by
      refine ⟨List.cons_ne_nil _ _, List.all_eq_true.mp rfl, ?_⟩
      intro char member
      cases member
      rfl
    have read :
        Token.lexFrom false (offset + 1) (['&', '&'] ++ ' ' :: rest) = _ :=
      Lexeme.lexFrom_text_append term fun _ => ⟨rfl, boundary_cons.mpr rfl⟩
    rw [Token.lexFrom_blank rfl] at read
    exact (Token.lexFrom_blank rfl).trans read

theorem lineBreak (afterReturn : Bool) :
    Delimits (Lexeme.lineBreak afterReturn).text 0 .lineBreak where
  boundary _ := Lexeme.boundary_of_not_isContent rfl trivial
  lexFrom _ _ := Lexeme.lexFrom_text_append trivial nofun

theorem openBrace : Delimits [' ', '{'] 1 .openBrace where
  boundary _ := boundary_cons.mpr rfl
  lexFrom _ _ := (Token.lexFrom_blank rfl).trans (Token.lexFrom_control rfl)

theorem closeBrace : Delimits ['}'] 0 .closeBrace where
  boundary _ := boundary_cons.mpr rfl
  lexFrom _ _ := Token.lexFrom_control rfl

end Delimits

/-- The failure of a part that starts `distance` characters into `text`. -/
def Error.relocated (distance : Int) (text : String) : Error → Error
  | .lexical reason position _ =>
      .lexical reason (position + distance)
        (some (Location.ofOffset text.toList (position + distance)))
  | .structural reason position =>
      .structural reason (position.map (· + distance))
  | .nesting limit position => .nesting limit (position.map (· + distance))
  | error => error

namespace Token

open Continuation

variable {between : List Char} {lead : Nat} {symbol : Symbol}

/-- The tokens of the first text and the delimiter come before those of the
second text. -/
theorem lex_append {first : List Char} {lexemes : List Lexeme}
    (divides : Lexeme.Divides first lexemes)
    (delimits : Delimits between lead symbol) (second : List Char) :
    lex (first ++ between ++ second) =
      (lexFrom false (first.length + between.length) second).map
        (Lexeme.tokens 0 lexemes ++
          ⟨symbol, (first.length + lead : Nat)⟩ :: ·) := by
  have joint : Lexeme.Joint lexemes (between ++ second) :=
    Lexeme.joint_of_boundary (delimits.boundary second)
  rw [lex, List.append_assoc, divides.lexFrom_append joint, Nat.zero_add,
    delimits.lexFrom]
  cases lexFrom false (first.length + between.length) second <;> rfl

theorem lex_shifted (distance : Nat) (text : List Char) :
    Shifted shiftAll distance (lex text) (lexFrom false distance text) := by
  have shifted : Shifted shiftAll distance (lexFrom false 0 text)
      (lexFrom false (0 + distance) text) := lexFrom_shifted false 0 text
  rwa [Nat.zero_add] at shifted

variable {first second whole : String} {tokens later : List Token}

/-- Two texts that can be read are read next to each other, unless the delimiter
takes part in a continuation. -/
theorem ofText_append (delimits : Delimits between lead symbol)
    (parts : whole.toList = first.toList ++ between ++ second.toList)
    (read : ofText first = .ok tokens) (readLater : ofText second = .ok later)
    (before : ∀ last ∈ tokens.getLast?, last.symbol.cancels symbol = false)
    (notBackslash : symbol ≠ .backslash)
    (behind : ∀ token ∈ later, symbol.cancels token.symbol = false) :
    ofText whole =
      .ok (tokens ++ ⟨symbol, (first.toList.length + lead : Nat)⟩ ::
        shiftAll (first.toList.length + between.length) later) := by
  obtain ⟨lexemes, divides, rfl⟩ := exists_cancel_of_ofText read
  obtain ⟨following, others, rfl⟩ := exists_cancel_of_ofText readLater
  obtain ⟨_, further, rfl⟩ :=
    (lex_shifted (first.toList.length + between.length) _).eq_ok
      (others.lexFrom 0)
  have apart : ∀ token ∈ cancel (shiftAll (first.toList.length + between.length)
      (Lexeme.tokens 0 following)), symbol.cancels token.symbol = false := by
    rw [cancel_shiftAll]
    intro token member
    obtain ⟨source, inside, rfl⟩ := List.mem_map.mp member
    exact behind source inside
  have cancelled : cancel (Lexeme.tokens 0 lexemes ++
      ⟨symbol, (first.toList.length + lead : Nat)⟩ :: shiftAll _ _) = _ :=
    cancel_append_cons before notBackslash apart
  rw [cancel_shiftAll] at cancelled
  rw [ofText, parts, lex_append divides delimits, further]
  exact congrArg Except.ok cancelled

theorem ofText_append_fault (delimits : Delimits between lead symbol)
    (parts : whole.toList = first.toList ++ between ++ second.toList)
    (read : ofText first = .ok tokens) {error : Error}
    (failed : ofText second = .error error) :
    ofText whole =
      .error (error.relocated
        (first.toList.length + between.length : Nat) whole) := by
  obtain ⟨lexemes, divides⟩ := exists_divides_of_ofText read
  unfold ofText at failed
  split at failed
  · rename_i fault unread
    obtain ⟨_, further, rfl⟩ :=
      (lex_shifted (first.toList.length + between.length) _).eq_error unread
    cases failed
    rw [ofText, parts, lex_append divides delimits, further]
    simp only [Except.map, Error.ofLexicalFault, Error.relocated,
      LexicalFault.shift, parts, Int.natCast_add]
  · cases failed

theorem shiftAll_map_symbol (distance : Nat) (tokens : List Token) :
    (shiftAll distance tokens).map Token.symbol = tokens.map Token.symbol := by
  rw [shiftAll, List.map_map]
  rfl

theorem ofText_empty : ofText "" = .ok [] := by
  rw [ofText, lex, String.toList_empty, lexFrom_nil]
  rfl

theorem ofText_block {heading body : String} {inner : List Token}
    (read : ofText heading = .ok tokens) (readBody : ofText body = .ok inner) :
    ∃ all, ofText (heading ++ " \x7b" ++ body ++ "\x7d") = .ok all ∧
      all.map Token.symbol = tokens.map Token.symbol ++
        (.openBrace :: inner.map Token.symbol ++ [.closeBrace]) := by
  have closes : ∀ left : Symbol, left.cancels .closeBrace = false := by
    intro left
    cases left <;> rfl
  have opens : ∀ left : Symbol, left.cancels .openBrace = false := by
    intro left
    cases left <;> rfl
  have closed : ofText (body ++ "\x7d") = .ok (inner ++ [⟨.closeBrace, _⟩]) :=
    ofText_append .closeBrace (by simp) readBody ofText_empty
      (fun _ _ => closes _) (by decide) (List.forall_mem_nil _)
  have together : ofText (heading ++ " \x7b" ++ body ++ "\x7d") = .ok _ :=
    ofText_append .openBrace (by simp) read closed
      (fun _ _ => opens _) (by decide) fun _ _ => rfl
  refine ⟨_, together, ?_⟩
  rw [List.map_append, List.map_cons, shiftAll_map_symbol, List.map_append]
  rfl

end Token

end CommandScript
