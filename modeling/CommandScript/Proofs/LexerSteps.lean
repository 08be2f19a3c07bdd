import CommandScript.Token.Lexer

/-!
# One step of the lexer

What the lexer does at the front of a text depends on the class of the first
character.  The classes exclude each other, so each of the equations below
stands for one way in which a text can start.
-/

namespace CommandScript

theorem ne_of_isQuoteMark {mark char : Char} (quote : isQuoteMark mark = true)
    (other : isQuoteMark char = false) : char ≠ mark := by
  intro same
  rw [same, quote] at other
  cases other

theorem isBare_eq_false_of_isQuoteMark {mark : Char}
    (quote : isQuoteMark mark = true) :
    isBare mark = false := by
  cases bare : isBare mark with
  | false => rfl
  | true =>
      rw [isQuoteMark_eq_false_of_isBare bare] at quote
      cases quote

/-- Whether a quoted string or a term can start with a character. -/
def startsTerm (char : Char) : Bool :=
  isQuoteMark char || isBare char

theorem startsTerm_eq_false_of_isBlank {char : Char}
    (blank : isBlank char = true) : startsTerm char = false := by
  rcases (isBlank_iff char).mp blank with rfl | rfl <;> decide

theorem isBlank_eq_false_of_startsTerm {char : Char}
    (starts : startsTerm char = true) : isBlank char = false := by
  cases blank : isBlank char with
  | false => rfl
  | true => simp [startsTerm_eq_false_of_isBlank blank] at starts

/-- No term or quoted string starts at the front of the text. -/
def Boundary (text : List Char) : Prop :=
  ∀ char ∈ text.head?, startsTerm char = false

theorem boundary_nil : Boundary [] := by
  simp [Boundary]

theorem boundary_cons {char : Char} {text : List Char} :
    Boundary (char :: text) ↔ startsTerm char = false := by
  simp [Boundary]

theorem Boundary.head?_ne {text : List Char} (boundary : Boundary text)
    {mark : Char} (starts : startsTerm mark = true) :
    text.head? ≠ some mark := by
  intro first
  have stopped := boundary mark first
  rw [starts] at stopped
  cases stopped

namespace Symbol

theorem ofChar?_eq_some {char : Char} {symbol : Symbol}
    (control : ofChar? char = some symbol) :
    char = '\n' ∧ symbol = .lineBreak ∨ char = '\\' ∧ symbol = .backslash ∨
      char = '{' ∧ symbol = .openBrace ∨ char = '}' ∧ symbol = .closeBrace := by
  unfold ofChar? at control
  split at control <;> simp_all

theorem startsTerm_eq_false_of_ofChar? {char : Char} {symbol : Symbol}
    (control : ofChar? char = some symbol) : startsTerm char = false := by
  rcases ofChar?_eq_some control with
    ⟨rfl, _⟩ | ⟨rfl, _⟩ | ⟨rfl, _⟩ | ⟨rfl, _⟩ <;>
    decide

theorem isBlank_eq_false_of_ofChar? {char : Char} {symbol : Symbol}
    (control : ofChar? char = some symbol) : isBlank char = false := by
  rcases ofChar?_eq_some control with
    ⟨rfl, _⟩ | ⟨rfl, _⟩ | ⟨rfl, _⟩ | ⟨rfl, _⟩ <;>
    decide

theorem ofChar?_eq_none_of_startsTerm {char : Char}
    (starts : startsTerm char = true) : ofChar? char = none := by
  cases control : ofChar? char with
  | none => rfl
  | some symbol => simp [startsTerm_eq_false_of_ofChar? control] at starts

end Symbol

namespace Token

variable {touching : Bool} {offset : Nat} {char : Char} {rest : List Char}

theorem lexFrom_touching (boundary : Boundary rest) :
    lexFrom touching offset rest = lexFrom false offset rest := by
  cases rest with
  | nil => rw [lexFrom, lexFrom]
  | cons char rest =>
      have stopped := boundary_cons.mp boundary
      simp only [startsTerm, Bool.or_eq_false_iff] at stopped
      rw [lexFrom, lexFrom]
      simp [stopped.1, stopped.2]

theorem lexFrom_nil : lexFrom touching offset [] = .ok [] := by
  rw [lexFrom]

theorem lexFrom_blank (blank : isBlank char = true) :
    lexFrom touching offset (char :: rest) =
      lexFrom false (offset + 1) rest := by
  rw [lexFrom, if_pos blank]

theorem lexFrom_control {symbol : Symbol}
    (control : Symbol.ofChar? char = some symbol) :
    lexFrom touching offset (char :: rest) =
      (lexFrom false (offset + 1) rest).map (⟨symbol, offset⟩ :: ·) := by
  rw [lexFrom]
  simp [Symbol.isBlank_eq_false_of_ofChar? control, control]

theorem lexFrom_return :
    lexFrom touching offset ('\r' :: '\n' :: rest) =
      (lexFrom false (offset + 2) rest).map (⟨.lineBreak, offset⟩ :: ·) := by
  rw [lexFrom]
  simp [isBlank, Symbol.ofChar?]

/-- A quote mark opens a quoted string, where none may not touch a term. -/
theorem lexFrom_mark (mark : isQuoteMark char = true) :
    lexFrom touching offset (char :: rest) =
      if touching then .error ⟨.quotedAfterTerm, offset⟩
      else Quoted.scan char offset rest >>= fun scanned =>
        (lexFrom true scanned.stop scanned.rest).map
          (⟨.quoted (String.ofList scanned.value), offset⟩ :: ·) := by
  have starts : startsTerm char = true := by simp [startsTerm, mark]
  have notReturn : char ≠ '\r' := by
    rintro rfl
    exact absurd mark (by decide)
  rw [lexFrom, if_neg (by simp [isBlank_eq_false_of_startsTerm starts]),
    Symbol.ofChar?_eq_none_of_startsTerm starts]
  simp only [if_neg notReturn, if_pos mark]
  split
  · rfl
  · split <;> rename_i scan <;> rw [scan] <;> rfl

theorem lexFrom_bare (bare : isBare char = true) :
    lexFrom touching offset (char :: rest) =
      if touching then .error ⟨.unquotedAfterTerm, offset⟩
      else Term.scan char offset rest >>= fun scanned =>
        (lexFrom true scanned.stop scanned.rest).map
          (⟨.ofTerm (String.ofList scanned.value), offset⟩ :: ·) := by
  have starts : startsTerm char = true := by simp [startsTerm, bare]
  have notReturn : char ≠ '\r' := by
    rintro rfl
    exact absurd bare (by decide)
  have notMark := isQuoteMark_eq_false_of_isBare bare
  rw [lexFrom, if_neg (by simp [isBlank_eq_false_of_startsTerm starts]),
    Symbol.ofChar?_eq_none_of_startsTerm starts]
  simp only [if_neg notReturn, notMark, bare, Bool.false_eq_true, if_false,
    if_true]
  split
  · rfl
  · split <;> rename_i scan <;> rw [scan] <;> rfl

theorem lexFrom_quoted {scanned : Scanned} (mark : isQuoteMark char = true)
    (success : Quoted.scan char offset rest = .ok scanned) :
    lexFrom false offset (char :: rest) =
      (lexFrom true scanned.stop scanned.rest).map
        (⟨.quoted (String.ofList scanned.value), offset⟩ :: ·) := by
  rw [lexFrom_mark mark, if_neg Bool.false_ne_true, success]
  rfl

theorem lexFrom_term {scanned : Scanned} (bare : isBare char = true)
    (success : Term.scan char offset rest = .ok scanned) :
    lexFrom false offset (char :: rest) =
      (lexFrom true scanned.stop scanned.rest).map
        (⟨.ofTerm (String.ofList scanned.value), offset⟩ :: ·) := by
  rw [lexFrom_bare bare, if_neg Bool.false_ne_true, success]
  rfl

theorem lexFrom_loneReturn (lone : rest.head? ≠ some '\n') :
    lexFrom touching offset ('\r' :: rest) = .error ⟨.loneReturn, offset⟩ := by
  rw [lexFrom]
  simp [isBlank, Symbol.ofChar?, lone]

theorem lexFrom_strayChar (notBlank : ¬ isBlank char = true)
    (plain : Symbol.ofChar? char = none) (notReturn : char ≠ '\r')
    (notMark : ¬ isQuoteMark char = true) (notBare : ¬ isBare char = true) :
    lexFrom touching offset (char :: rest) = .error ⟨.strayChar, offset⟩ := by
  rw [lexFrom]
  simp [notBlank, plain, notReturn, notMark, notBare]

end Token

end CommandScript
