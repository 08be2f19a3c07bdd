import CommandScript.Proofs.PlacelessReading
import CommandScript.Proofs.ScriptComposition

/-!
# Continuations read as blanks

A backslash at the end of a line and an `&` at the start of one join the line to
its neighbour.  Behind any text that can be read, such a continuation can be
exchanged for a blank, and so can any run of blanks.  What follows is read as
the same tokens, or it fails for the same reason, as much further on as the
continuation is longer than the blank.

Only an `&` asks for something of the text before it: a backslash at its end
would take the line break away first.
-/

namespace CommandScript

open Outcome

/-- Spaces and tabs only. -/
def IsBlankText (text : String) : Prop :=
  ∀ char ∈ text.toList, isBlank char = true

instance (text : String) : Decidable (IsBlankText text) :=
  decidable_of_iff (text.toList.all isBlank = true) List.all_eq_true

/-- Behind tokens the last of which is `last?`, the text separates terms and
does nothing else. -/
inductive ReadsAsBlank (last? : Option Symbol) : String → Prop where
  | blanks {text : String} :
      IsBlankText text → text ≠ "" → ReadsAsBlank last? text
  | backslash {front lineEnd back : String} :
      IsBlankText front → lineEnd ∈ ["\n", "\r\n"] → IsBlankText back →
      ReadsAsBlank last? ("\\" ++ front ++ lineEnd ++ back)
  | ampersand {front lineEnd back : String} :
      last? ≠ some .backslash → IsBlankText front → lineEnd ∈ ["\n", "\r\n"] →
      IsBlankText back → ReadsAsBlank last? (lineEnd ++ front ++ "& " ++ back)

namespace Error

/-- The same failure to divide a text into tokens, `distance` characters further
on in `text`. -/
def LexicalMoved (distance : Int) (text : String)
    (error other : Error) : Prop :=
  ∃ reason position location, error = lexical reason position location ∧
    other = lexical reason (position + distance)
      (some (Location.ofOffset text.toList (position + distance)))

theorem LexicalMoved.placeless_eq {distance : Int} {text : String}
    {error other : Error} (moved : error.LexicalMoved distance text other) :
    other.placeless = error.placeless := by
  obtain ⟨reason, position, location, rfl, rfl⟩ := moved
  rfl

end Error

namespace Lexeme

variable {text rest : List Char} {lexemes : List Lexeme}

theorem Divides.blanks (blanks : ∀ char ∈ text, isBlank char = true)
    (divides : Divides rest lexemes) :
    Divides (text ++ rest) (text.map .blank ++ lexemes) := by
  induction text with
  | nil => exact divides
  | cons char text induction =>
      obtain ⟨first, others⟩ := List.forall_mem_cons.mp blanks
      have precedes : (Lexeme.blank char).Precedes (text ++ rest) := first
      exact .cons precedes nofun (induction others)

theorem divides_blanks (blanks : ∀ char ∈ text, isBlank char = true) :
    Divides text (text.map .blank) := by
  have divides := Divides.blanks blanks .nil
  rwa [List.append_nil, List.append_nil] at divides

theorem symbols_blanks (text : List Char) :
    (text.map Lexeme.blank).filterMap symbol? = [] := by
  rw [List.filterMap_map, List.filterMap_eq_nil_iff]
  exact fun _ _ => rfl

theorem closed_append {back : List Char} (nonempty : back ≠ [])
    (closed : Closed back) :
    Closed (text ++ back) := by
  intro char member
  rw [List.getLast?_append_of_ne_nil text nonempty] at member
  exact closed char member

theorem closed_append_blanks {back : List Char} (closed : Closed text)
    (blanks : ∀ char ∈ back, isBlank char = true) : Closed (text ++ back) := by
  intro char member
  rw [List.getLast?_append, Option.mem_def, Option.or_eq_some_iff] at member
  rcases member with last | ⟨-, last⟩
  · exact startsTerm_eq_false_of_isBlank
      (blanks char (List.mem_of_getLast? last))
  · exact closed char last

theorem closed_lineBreak (afterReturn : Bool) :
    Closed (lineBreak afterReturn).text := by
  intro char member
  cases afterReturn <;> cases member <;> decide

end Lexeme

namespace Continuation

variable {stack tokens : List Token}

theorem foldl_push_backslash_lineBreak
    (same : tokens.map Token.symbol = [.backslash, .lineBreak]) :
    tokens.foldl push stack = stack := by
  obtain ⟨escape, rest, rfl, escapes, rest⟩ := List.map_eq_cons_iff.mp same
  obtain ⟨feed, rest, rfl, feeds, rest⟩ := List.map_eq_cons_iff.mp rest
  obtain rfl := List.map_eq_nil_iff.mp rest
  have stays : push stack escape = escape :: stack := by
    apply push_of_apart
    intro top _
    rw [escapes]
    cases top.symbol <;> rfl
  rw [List.foldl_cons, stays, List.foldl_cons,
    push_cancels (by rw [escapes, feeds]; rfl)]
  rfl

theorem foldl_push_lineBreak_and
    (same : tokens.map Token.symbol = [.lineBreak, .and])
    (notBackslash : stack.head?.map Token.symbol ≠ some .backslash) :
    tokens.foldl push stack = stack := by
  obtain ⟨feed, rest, rfl, feeds, rest⟩ := List.map_eq_cons_iff.mp same
  obtain ⟨join, rest, rfl, joins, rest⟩ := List.map_eq_cons_iff.mp rest
  obtain rfl := List.map_eq_nil_iff.mp rest
  have stays : push stack feed = feed :: stack := by
    apply push_of_apart
    intro top member
    have other : top.symbol ≠ .backslash := by
      intro escapes
      exact notBackslash
        (by rw [Option.mem_def.mp member, Option.map_some, escapes])
    rw [feeds]
    cases symbol : top.symbol with
    | backslash => exact absurd symbol other
    | _ => rfl
  rw [List.foldl_cons, stays, List.foldl_cons,
    push_cancels (by rw [feeds, joins]; rfl)]
  rfl

end Continuation

/-- The text leaves nothing on the stack of tokens, whose top is `last?`. -/
structure Vanishes (last? : Option Symbol) (text : List Char)
    (lexemes : List Lexeme) : Prop where
  divides : Lexeme.Divides text lexemes
  nonempty : text ≠ []
  boundary : Boundary text
  closed : Lexeme.Closed text
  cancels : ∀ stack tokens : List Token, stack.head?.map Token.symbol = last? →
    tokens.map Token.symbol = lexemes.filterMap Lexeme.symbol? →
    tokens.foldl Continuation.push stack = stack

namespace ReadsAsBlank

open Lexeme Continuation

variable {last? : Option Symbol} {front back : List Char}

theorem vanishes_blanks (blanks : ∀ char ∈ front, isBlank char = true)
    (nonempty : front ≠ []) : Vanishes last? front (front.map .blank) where
  divides := divides_blanks blanks
  nonempty := nonempty
  boundary := by
    intro char member
    exact startsTerm_eq_false_of_isBlank
      (blanks char (List.mem_of_mem_head? member))
  closed := @closed_append_blanks [] _ nofun blanks
  cancels := by
    intro stack tokens _ same
    rw [symbols_blanks] at same
    rw [List.map_eq_nil_iff.mp same]
    rfl

theorem vanishes_backslash (afterReturn : Bool)
    (frontBlank : ∀ char ∈ front, isBlank char = true)
    (backBlank : ∀ char ∈ back, isBlank char = true) :
    Vanishes last? ('\\' :: front ++ (lineBreak afterReturn).text ++ back)
      (.backslash :: front.map .blank ++ .lineBreak afterReturn ::
        back.map .blank) where
  divides := by
    have feed := @Divides.cons (.lineBreak afterReturn) _ _ trivial nofun
      (divides_blanks backBlank)
    rw [List.append_assoc]
    exact @Divides.cons .backslash _ _ trivial nofun (feed.blanks frontBlank)
  nonempty := List.cons_ne_nil _ _
  boundary := boundary_cons.mpr (by decide)
  closed := by
    apply closed_append_blanks _ backBlank
    have nonempty := @text_ne_nil [] (.lineBreak afterReturn) trivial
    exact closed_append nonempty (closed_lineBreak afterReturn)
  cancels := by
    intro stack tokens _ same
    simp only [List.filterMap_append, List.filterMap_cons, symbol?,
      symbols_blanks, List.cons_append, List.nil_append] at same
    exact foldl_push_backslash_lineBreak same

theorem vanishes_ampersand (afterReturn : Bool)
    (notBackslash : last? ≠ some .backslash)
    (frontBlank : ∀ char ∈ front, isBlank char = true)
    (backBlank : ∀ char ∈ back, isBlank char = true) :
    Vanishes last? ((lineBreak afterReturn).text ++ front ++ ['&', ' '] ++ back)
      (.lineBreak afterReturn :: front.map .blank ++
        .term ['&'] none :: .blank ' ' :: back.map .blank) where
  divides := by
    have blank :=
      @Divides.cons (.blank ' ') _ _ rfl nofun (divides_blanks backBlank)
    have join := @Divides.cons (.term ['&'] none) _ _
      ⟨List.cons_ne_nil _ _, List.all_eq_true.mp rfl,
        fun _ member => by cases member; rfl⟩
      (fun _ _ member => by cases member; rfl) blank
    rw [List.append_assoc, List.append_assoc]
    exact @Divides.cons (.lineBreak afterReturn) _ _ trivial nofun
      (join.blanks frontBlank)
  nonempty := by simp
  boundary := by
    rw [List.append_assoc, List.append_assoc]
    exact @boundary_of_not_isContent _ (.lineBreak afterReturn) rfl trivial
  closed := by
    apply closed_append_blanks _ backBlank
    apply closed_append (List.cons_ne_nil _ _)
    intro char member
    cases member
    decide
  cancels := by
    intro stack tokens top same
    simp only [List.filterMap_append, List.filterMap_cons, symbol?,
      symbols_blanks, List.cons_append, List.nil_append] at same
    apply foldl_push_lineBreak_and same
    rw [top]
    exact notBackslash

theorem exists_vanishes {filler : String} (stands : ReadsAsBlank last? filler) :
    ∃ lexemes, Vanishes last? filler.toList lexemes := by
  have lineEnds : ∀ lineEnd ∈ ["\n", "\r\n"], ∃ afterReturn : Bool,
      lineEnd.toList = (lineBreak afterReturn).text := by
    rw [List.forall_mem_cons, List.forall_mem_singleton]
    exact ⟨⟨false, rfl⟩, ⟨true, rfl⟩⟩
  cases stands with
  | blanks blank nonempty =>
      exact ⟨_, vanishes_blanks blank (by simpa using nonempty)⟩
  | @backslash front lineEnd back frontBlank ends backBlank =>
      obtain ⟨afterReturn, spelled⟩ := lineEnds lineEnd ends
      rw [String.toList_append, String.toList_append, String.toList_append,
        spelled]
      exact ⟨_, vanishes_backslash afterReturn frontBlank backBlank⟩
  | @ampersand front lineEnd back notBackslash frontBlank ends backBlank =>
      obtain ⟨afterReturn, spelled⟩ := lineEnds lineEnd ends
      rw [String.toList_append, String.toList_append, String.toList_append,
        spelled]
      exact ⟨_, vanishes_ampersand afterReturn notBackslash frontBlank
        backBlank⟩

end ReadsAsBlank

namespace Token

open Lexeme Continuation

variable {before filler : String} {lexemes fillers : List Lexeme}

/-- Behind a text that can be read and one that vanishes there, a text is read
as it would be behind the first one alone. -/
theorem ofText_vanishes (divides : Divides before.toList lexemes)
    (vanishes : Vanishes
      ((cancel (Lexeme.tokens 0 lexemes)).getLast?.map Token.symbol)
      filler.toList fillers) (after : String) :
    Agree
      (fun fault error =>
        error = .ofLexicalFault (before ++ filler ++ after).toList
          (fault.shift (before.length + filler.length)))
      (fun later found => found.map Token.symbol =
        (cancel (Lexeme.tokens 0 lexemes ++ later)).map Token.symbol)
      (lex after.toList) (ofText (before ++ filler ++ after)) := by
  have front :=
    divides.append vanishes.divides (joint_of_boundary vanishes.boundary)
  have joint : Joint (lexemes ++ fillers) after.toList :=
    front.joint (closed_append vanishes.nonempty vanishes.closed)
  have read : lex (before ++ filler ++ after).toList =
      (lexFrom false (before.length + filler.length) after.toList).map
        (Lexeme.tokens 0 (lexemes ++ fillers) ++ ·) := by
    rw [lex, String.toList_append, String.toList_append,
      front.lexFrom_append joint, List.length_append, String.length_toList,
      String.length_toList, Nat.zero_add]
  have shifted := lex_shifted (before.length + filler.length) after.toList
  rw [ofText, read]
  cases alone : lex after.toList with
  | error fault =>
      obtain ⟨_, further, rfl⟩ := shifted.eq_error alone
      rw [further]
      exact .error rfl
  | ok later =>
      obtain ⟨_, further, rfl⟩ := shifted.eq_ok alone
      rw [further]
      apply Agree.ok
      have gone : (Lexeme.tokens 0 fillers).foldl push
          ((Lexeme.tokens 0 lexemes).foldl push []) =
            (Lexeme.tokens 0 lexemes).foldl push [] := by
        apply vanishes.cancels
        · rw [cancel, List.getLast?_reverse]
        · exact tokens_map_symbol 0 fillers
      have apart :
          cancel
            (Lexeme.tokens 0 lexemes ++ (Lexeme.tokens 0 fillers ++ later)) =
              cancel (Lexeme.tokens 0 lexemes ++ later) := by
        rw [cancel, cancel, List.foldl_append, List.foldl_append, gone,
          List.foldl_append]
      rw [← apart]
      apply cancel_map_symbol
      simp only [List.map_append, tokens_map_symbol, shiftAll_map_symbol,
        List.filterMap_append, List.append_assoc]

end Token

namespace Script

/-- Behind a text that can be read, whatever reads as a blank can take the place
of a blank.  The tokens are the same, or the same fault is found as much further
on as the text is longer; and so are the commands, at any limit, or the reason
why there are none. -/
theorem parse_readsAsBlank (before filler after : String) (tokens : List Token)
    (read : Token.ofText before = .ok tokens)
    (stands : ReadsAsBlank (tokens.getLast?.map Token.symbol) filler) :
    Agree (Error.LexicalMoved (filler.length - 1) (before ++ filler ++ after))
        (fun found others => others.map Token.symbol = found.map Token.symbol)
        (Token.ofText (before ++ " " ++ after))
        (Token.ofText (before ++ filler ++ after)) ∧
      ∀ limit : Int,
        Agree (fun error other => other.placeless = error.placeless) (· = ·)
          (parse limit (before ++ " " ++ after))
          (parse limit (before ++ filler ++ after)) := by
  obtain ⟨lexemes, divides, rfl⟩ := Token.exists_cancel_of_ofText read
  obtain ⟨fillers, vanishes⟩ := stands.exists_vanishes
  obtain ⟨blanks, blankVanishes⟩ : ∃ blanks, Vanishes _ " ".toList blanks :=
    ⟨_, ReadsAsBlank.vanishes_blanks (List.all_eq_true.mp rfl)
      (List.cons_ne_nil _ _)⟩
  have withBlank := Token.ofText_vanishes divides blankVanishes after
  have withFiller := Token.ofText_vanishes divides vanishes after
  have lexed :
      Agree (Error.LexicalMoved (filler.length - 1) (before ++ filler ++ after))
        (fun found others => others.map Token.symbol = found.map Token.symbol)
        (Token.ofText (before ++ " " ++ after))
        (Token.ofText (before ++ filler ++ after)) := by
    apply withBlank.common withFiller
    · intro fault error other failed further
      subst failed further
      refine ⟨fault.reason, _, _, rfl, ?_⟩
      have place :
          ((fault.position + (before.length + filler.length) : Nat) : Int) =
            (fault.position + (before.length + 1) : Nat) +
              (filler.length - 1 : Int) := by
        omega
      rw [Error.ofLexicalFault, LexicalFault.shift]
      simp only [place]
      rfl
    · intro later found others same sameToo
      rw [same, sameToo]
  refine ⟨lexed, ?_⟩
  intro limit
  have placeless :=
    lexed.mono (fun _ _ moved => moved.placeless_eq) fun _ _ same => same
  exact placeless.bind fun _ _ same => placeless_of_map_symbol limit same

/-- Behind an option key a continuation is read as a blank, so that the key
takes its value from the next line; a fault on that line is found as much
further on. -/
theorem parse_readsAsBlank_key :
    parse 64 "a -k\n\t& 1" =
      .ok [{ name := "a", options := [("-k", some "1")] }] ∧
      ∃ location, Token.ofText "a -k\\ \r\n'1" =
        .error (.lexical .endOfText 10 location) := by
  have read :
      Token.ofText "a -k" = .ok [⟨.unquoted "a", 0⟩, ⟨.unquoted "-k", 2⟩] := by
    decide +kernel
  have ampersand : ReadsAsBlank (some (.unquoted "-k")) "\n\t& " :=
    @ReadsAsBlank.ampersand _ "\t" "\n" "" (by decide) (by decide) (by decide)
      (by decide)
  have backslash : ReadsAsBlank (some (.unquoted "-k")) "\\ \r\n" :=
    @ReadsAsBlank.backslash _ " " "\r\n" "" (by decide) (by decide) (by decide)
  constructor
  · have blank : parse 64 "a -k 1" =
        .ok [{ name := "a", options := [("-k", some "1")] }] := by
      decide +kernel
    obtain ⟨_, success, rfl⟩ :=
      ((parse_readsAsBlank "a -k" "\n\t& " "1" _ read ampersand).2 64).eq_ok
        blank
    exact success
  · have blank : Token.ofText "a -k '1" =
        .error (.lexical .endOfText 7
          (some (Location.ofOffset "a -k '1".toList 7))) := by
      decide +kernel
    obtain ⟨_, failed, _, _, _, same, rfl⟩ :=
      (parse_readsAsBlank "a -k" "\\ \r\n" "'1" _ read backslash).1.eq_error
        blank
    cases same
    exact ⟨_, failed⟩

end Script

end CommandScript
