import CommandScript.Token.Continuation
import CommandScript.Token.Term

/-!
# Reading tokens

The lexer divides a text into blanks, which it drops, and tokens, each with the
offset where it starts.  A quoted string or term must not directly touch the
term before it.  `Token.lex` gives the tokens as they stand in the text, and
`Token.ofText` cancels the line continuations among them.
-/

namespace CommandScript

/-- The control symbol that a single character stands for. -/
def Symbol.ofChar? : Char → Option Symbol
  | '\n' => some .lineBreak
  | '\\' => some .backslash
  | '{' => some .openBrace
  | '}' => some .closeBrace
  | _ => none

namespace Token

/-- The tokens of `text`, which starts at `offset`.  `touching` tells whether a
quoted string or term ends right before it. -/
def lexFrom (touching : Bool) (offset : Nat) (text : List Char) :
    Except LexicalFault (List Token) :=
  match text with
  | [] => .ok []
  | char :: rest =>
      if isBlank char then lexFrom false (offset + 1) rest
      else
        match Symbol.ofChar? char with
        | some symbol =>
            (lexFrom false (offset + 1) rest).map (⟨symbol, offset⟩ :: ·)
        | none =>
            if char = '\r' then
              if rest.head? = some '\n' then
                (lexFrom false (offset + 2) rest.tail).map
                  (⟨.lineBreak, offset⟩ :: ·)
              else .error ⟨.loneReturn, offset⟩
            else if isQuoteMark char then
              if touching then .error ⟨.quotedAfterTerm, offset⟩
              else
                match _success : Quoted.scan char offset rest with
                | .error fault => .error fault
                | .ok scanned =>
                    (lexFrom true scanned.stop scanned.rest).map
                      (⟨.quoted (String.ofList scanned.value), offset⟩ :: ·)
            else if isBare char then
              if touching then .error ⟨.unquotedAfterTerm, offset⟩
              else
                match _success : Term.scan char offset rest with
                | .error fault => .error fault
                | .ok scanned =>
                    (lexFrom true scanned.stop scanned.rest).map
                      (⟨.ofTerm (String.ofList scanned.value), offset⟩ :: ·)
            else .error ⟨.strayChar, offset⟩
termination_by text.length
decreasing_by
  · simp
  · simp
  · simp only [List.length_tail, List.length_cons]
    omega
  · have shorter := Quoted.scan_rest_length _success
    simp only [List.length_cons]
    omega
  · have shorter := Term.scan_rest_length _success
    simp only [List.length_cons]
    omega

/-- The tokens of a text as they stand, or where the first fault is. -/
def lex (text : List Char) : Except LexicalFault (List Token) :=
  lexFrom false 0 text

/-- The tokens of a text after its line continuations are cancelled. -/
def ofText (text : String) : Except Error (List Token) :=
  match lex text.toList with
  | .error fault => .error (.ofLexicalFault text.toList fault)
  | .ok tokens => .ok (Continuation.cancel tokens)

/-- The decoded quoted string that starts at an offset of a text, and the
offset right after it.  The character there is taken as the mark, whatever it
is. -/
def quotedAt (text : String) (offset : Nat) : Except Error (String × Nat) :=
  match text.toList.drop offset with
  | [] => .error .offsetOutOfRange
  | mark :: rest =>
      match Quoted.scan mark offset rest with
      | .error fault => .error (.ofLexicalFault text.toList fault)
      | .ok scanned => .ok (String.ofList scanned.value, scanned.stop)

/-- The decoded term that starts at an offset of a text, and the offset right
after it.  The character there is taken as the first of the term, whatever it
is; past the end the term is empty. -/
def termAt (text : String) (offset : Nat) : Except Error (String × Nat) :=
  match text.toList.drop offset with
  | [] => .ok ("", offset + 1)
  | first :: rest =>
      match Term.scan first offset rest with
      | .error fault => .error (.ofLexicalFault text.toList fault)
      | .ok scanned => .ok (String.ofList scanned.value, scanned.stop)

end Token

end CommandScript
