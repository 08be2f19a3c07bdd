import CommandScript.Proofs.ContinuationRewriting
import CommandScript.Proofs.Outcome
import CommandScript.Proofs.TermScan

/-!
# The lexical grammar

A text that can be read is a sequence of lexemes: blanks, line breaks, the three
control characters, quoted strings and terms.  `Lexeme.Divides` says so without
a scanner.  A quoted string or term may not stand directly behind another one,
which is what makes the division unique.

The lexer accepts exactly the texts that can be divided, and its tokens are the
lexemes other than blanks, each with the offset where it starts, after the line
continuations among them are cancelled.
-/

namespace CommandScript

/-- A quoted string as it stands in a text, and the characters it stands for. -/
structure Quotation where
  spelled : List Char
  value : List Char

/-- A piece of a text; a term may end in a quoted string. -/
inductive Lexeme where
  | blank (char : Char)
  | lineBreak (afterReturn : Bool)
  | backslash
  | openBrace
  | closeBrace
  | quoted (quotation : Quotation)
  | term (run : List Char) (fused : Option Quotation)

/-- The quotation is a quoted string when `rest` follows it; in particular its
opening run of marks is as long as the text allows. -/
def Quotation.Precedes (rest : List Char) (quotation : Quotation) : Prop :=
  ∃ mark, isQuoteMark mark = true ∧
    Quoted.Spells mark (quotation.spelled ++ rest) quotation.value rest

namespace Quotation

theorem Precedes.scan {quotation : Quotation} {rest : List Char} (offset : Nat)
    (precedes : quotation.Precedes rest) :
    ∃ mark more, isQuoteMark mark = true ∧
      quotation.spelled ++ rest = mark :: more ∧
      Quoted.scan mark offset more =
        .ok ⟨quotation.value, offset + quotation.spelled.length, rest⟩ := by
  obtain ⟨mark, quote, spells⟩ := precedes
  obtain ⟨more, whole⟩ := List.head?_eq_some_iff.mp spells.head?
  have lengths := congrArg List.length whole
  rw [List.length_append, List.length_cons] at lengths
  rw [whole] at spells
  obtain ⟨stop, success⟩ := Quoted.scan_complete offset spells
  have place := (Quoted.scan_sound success).2
  obtain rfl : stop = offset + quotation.spelled.length := by
    simp only at place
    omega
  exact ⟨mark, more, quote, whole, success⟩

theorem Precedes.unique {left right : Quotation}
    {leftRest rightRest : List Char} (leftPrecedes : left.Precedes leftRest)
    (rightPrecedes : right.Precedes rightRest)
    (same : left.spelled ++ leftRest = right.spelled ++ rightRest) :
    left = right ∧ leftRest = rightRest := by
  obtain ⟨mark, more, -, leftWhole, leftScan⟩ := leftPrecedes.scan 0
  obtain ⟨_, _, -, rightWhole, rightScan⟩ := rightPrecedes.scan 0
  rw [leftWhole, rightWhole] at same
  obtain ⟨rfl, rfl⟩ := List.cons.inj same
  rw [leftScan] at rightScan
  simp only [Except.ok.injEq, Scanned.mk.injEq] at rightScan
  obtain ⟨value, -, rfl⟩ := rightScan
  have spelled : left.spelled = right.spelled :=
    List.append_cancel_right (leftWhole.trans rightWhole.symm)
  cases left
  cases right
  simp_all

theorem Precedes.spelled_ne_nil {quotation : Quotation} {rest : List Char}
    (precedes : quotation.Precedes rest) : quotation.spelled ≠ [] := by
  obtain ⟨mark, more, -, whole, success⟩ := precedes.scan 0
  have shorter := Quoted.scan_rest_length success
  intro empty
  rw [empty, List.nil_append] at whole
  simp only [whole, List.length_cons] at shorter
  omega

theorem Precedes.not_boundary {quotation : Quotation} {rest : List Char}
    (precedes : quotation.Precedes rest) :
    ¬ Boundary (quotation.spelled ++ rest) := by
  obtain ⟨mark, more, quote, whole, -⟩ := precedes.scan 0
  rw [whole, boundary_cons]
  simp [startsTerm, quote]

theorem Precedes.maximal {quotation : Quotation} {rest : List Char}
    (precedes : quotation.Precedes rest) :
    ∀ char ∈ (quotation.spelled ++ rest).head?, isBare char = false := by
  obtain ⟨mark, more, quote, whole, -⟩ := precedes.scan 0
  rw [whole]
  intro char member
  cases member
  exact isBare_eq_false_of_isQuoteMark quote

theorem exists_of_scan {mark : Char} {offset : Nat} {more : List Char}
    {scanned : Scanned} (quote : isQuoteMark mark = true)
    (success : Quoted.scan mark offset more = .ok scanned) :
    ∃ quotation : Quotation, quotation.value = scanned.value ∧
      quotation.Precedes scanned.rest ∧
      quotation.spelled ++ scanned.rest = mark :: more ∧
      scanned.stop = offset + quotation.spelled.length := by
  obtain ⟨spells, place⟩ := Quoted.scan_sound success
  obtain ⟨spelled, whole⟩ := spells.suffix
  have lengths := congrArg List.length whole
  rw [List.length_append, List.length_cons] at lengths
  refine ⟨⟨spelled, scanned.value⟩, rfl, ⟨mark, quote, ?_⟩, whole, ?_⟩
  · rw [whole]
    exact spells
  · simp only
    omega

end Quotation

namespace Lexeme

def text : Lexeme → List Char
  | blank char => [char]
  | lineBreak false => ['\n']
  | lineBreak true => ['\r', '\n']
  | backslash => ['\\']
  | openBrace => ['{']
  | closeBrace => ['}']
  | quoted quotation => quotation.spelled
  | term run none => run
  | term run (some quotation) => run ++ quotation.spelled

/-- The symbol that a lexeme is read as; blanks leave none. -/
def symbol? : Lexeme → Option Symbol
  | blank _ => none
  | lineBreak _ => some .lineBreak
  | backslash => some .backslash
  | openBrace => some .openBrace
  | closeBrace => some .closeBrace
  | quoted quotation => some (.quoted (String.ofList quotation.value))
  | term run none => some (.ofTerm (String.ofList run))
  | term run (some quotation) =>
      some (.ofTerm (String.ofList (run ++ quotation.value)))

def isContent : Lexeme → Bool
  | quoted _ | term _ _ => true
  | _ => false

/-- The lexeme is what it claims to be when `rest` follows it; in particular
the run of bare characters of a term is as long as the text allows. -/
def Precedes (rest : List Char) : Lexeme → Prop
  | blank char => isBlank char = true
  | lineBreak _ | backslash | openBrace | closeBrace => True
  | quoted quotation => quotation.Precedes rest
  | term run none =>
      run ≠ [] ∧ (∀ char ∈ run, isBare char = true) ∧
        ∀ char ∈ rest.head?, isBare char = false
  | term run (some quotation) =>
      run ≠ [] ∧ (∀ char ∈ run, isBare char = true) ∧ quotation.Precedes rest

/-- A sequence of lexemes does not start with a quoted string or term. -/
def Apart (lexemes : List Lexeme) : Prop :=
  ∀ next ∈ lexemes.head?, next.isContent = false

/-- The text is the concatenation of the lexemes, and no quoted string or term
is directly followed by another one. -/
inductive Divides : List Char → List Lexeme → Prop where
  | nil : Divides [] []
  | cons {lexeme : Lexeme} {rest : List Char} {lexemes : List Lexeme} :
      lexeme.Precedes rest → (lexeme.isContent = true → Apart lexemes) →
      Divides rest lexemes → Divides (lexeme.text ++ rest) (lexeme :: lexemes)

/-- The tokens of a sequence of lexemes that starts at `offset`. -/
def tokens : (offset : Nat) → List Lexeme → List Token
  | _, [] => []
  | offset, lexeme :: lexemes =>
      (lexeme.symbol?.map (⟨·, offset⟩)).toList ++
        tokens (offset + lexeme.text.length) lexemes

variable {rest : List Char} {lexeme : Lexeme} {lexemes : List Lexeme}

theorem boundary_of_not_isContent (control : lexeme.isContent = false)
    (precedes : lexeme.Precedes rest) : Boundary (lexeme.text ++ rest) := by
  cases lexeme with
  | blank char =>
      exact boundary_cons.mpr (startsTerm_eq_false_of_isBlank precedes)
  | lineBreak afterReturn =>
      cases afterReturn <;> exact boundary_cons.mpr (by decide)
  | backslash => exact boundary_cons.mpr (by decide)
  | openBrace => exact boundary_cons.mpr (by decide)
  | closeBrace => exact boundary_cons.mpr (by decide)
  | quoted quotation => cases control
  | term run fused => cases control

theorem Divides.boundary (divides : Divides rest lexemes)
    (apart : Apart lexemes) :
    Boundary rest := by
  cases divides with
  | nil => exact boundary_nil
  | cons precedes _ _ => exact boundary_of_not_isContent (apart _ rfl) precedes

/-- One lexeme at the front of a text is read as one step of the lexer. -/
theorem lexFrom_text_append {touching : Bool} {offset : Nat}
    (precedes : lexeme.Precedes rest)
    (apart : lexeme.isContent = true → touching = false ∧ Boundary rest) :
    Token.lexFrom touching offset (lexeme.text ++ rest) =
      (Token.lexFrom false (offset + lexeme.text.length) rest).map
        ((lexeme.symbol?.map (⟨·, offset⟩)).toList ++ ·) := by
  cases lexeme with
  | blank char =>
      have same : (Token.lexFrom false (offset + 1) rest).map ([] ++ ·) =
          Token.lexFrom false (offset + 1) rest := by
        cases Token.lexFrom false (offset + 1) rest <;> rfl
      exact (Token.lexFrom_blank precedes).trans same.symm
  | lineBreak afterReturn =>
      cases afterReturn with
      | false => exact Token.lexFrom_control rfl
      | true => exact Token.lexFrom_return
  | backslash => exact Token.lexFrom_control rfl
  | openBrace => exact Token.lexFrom_control rfl
  | closeBrace => exact Token.lexFrom_control rfl
  | quoted quotation =>
      obtain ⟨rfl, boundary⟩ := apart rfl
      obtain ⟨mark, more, quote, whole, success⟩ := precedes.scan offset
      rw [text, whole, Token.lexFrom_quoted quote success,
        Token.lexFrom_touching boundary]
      rfl
  | term run fused =>
      obtain ⟨rfl, boundary⟩ := apart rfl
      cases fused with
      | none =>
          obtain ⟨nonempty, bare, -⟩ := precedes
          obtain ⟨first, run, rfl⟩ := List.exists_cons_of_ne_nil nonempty
          obtain ⟨firstBare, bare⟩ := List.forall_mem_cons.mp bare
          rw [text, List.cons_append,
            Token.lexFrom_term firstBare (Term.scan_bare bare boundary),
            Token.lexFrom_touching boundary]
          rfl
      | some quotation =>
          obtain ⟨nonempty, bare, quoted⟩ := precedes
          obtain ⟨first, run, rfl⟩ := List.exists_cons_of_ne_nil nonempty
          obtain ⟨firstBare, bare⟩ := List.forall_mem_cons.mp bare
          obtain ⟨mark, more, quote, whole, success⟩ :=
            quoted.scan (offset + (run.length + 1))
          have fusion : Term.scan first offset (run ++ mark :: more) =
              .ok ⟨first :: run ++ quotation.value,
                offset + (run.length + 1) + quotation.spelled.length,
                rest⟩ := by
            rw [Term.scan_fused bare quote, success]
            rfl
          rw [text, List.append_assoc, whole, List.cons_append,
            Token.lexFrom_term firstBare fusion,
            Token.lexFrom_touching boundary]
          simp only [symbol?, List.length_append, List.length_cons,
            Nat.add_assoc]
          rfl

theorem Divides.lexFrom {text : List Char} (divides : Divides text lexemes)
    (offset : Nat) :
    Token.lexFrom false offset text = .ok (tokens offset lexemes) := by
  induction divides generalizing offset with
  | nil => exact Token.lexFrom_nil
  | @cons lexeme rest lexemes precedes apart divides induction =>
      rw [lexFrom_text_append precedes
        (fun content => ⟨rfl, divides.boundary (apart content)⟩), induction]
      rfl

theorem exists_of_termScan {first : Char} {offset : Nat} {more : List Char}
    {scanned : Scanned} (bare : isBare first = true)
    (success : Term.scan first offset more = .ok scanned) :
    ∃ run fused, (term run fused).symbol? =
        some (.ofTerm (String.ofList scanned.value)) ∧
      (term run fused).Precedes scanned.rest ∧
      (term run fused).text ++ scanned.rest = first :: more ∧
      scanned.stop = offset + (term run fused).text.length := by
  obtain ⟨run, rest, rfl, runBare, boundary | ⟨mark, tail, rfl, quote⟩⟩ :=
    Term.exists_bareRun_boundary_or_mark more
  · rw [Term.scan_bare runBare boundary] at success
    cases success
    refine ⟨first :: run, none, rfl, ⟨List.cons_ne_nil _ _, ?_, ?_⟩, rfl, rfl⟩
    · exact List.forall_mem_cons.mpr ⟨bare, runBare⟩
    · intro char member
      have stopped := boundary char member
      simp only [startsTerm, Bool.or_eq_false_iff] at stopped
      exact stopped.2
  · rw [Term.scan_fused runBare quote] at success
    obtain ⟨inner, innerSuccess, rfl⟩ := Outcome.map_eq_ok_iff.mp success
    obtain ⟨quotation, value, precedes, whole, stop⟩ :=
      Quotation.exists_of_scan quote innerSuccess
    refine ⟨first :: run, some quotation, ?_, ?_, ?_, ?_⟩
    · simp [symbol?, value, Scanned.prepend]
    · exact ⟨List.cons_ne_nil _ _, List.forall_mem_cons.mpr ⟨bare, runBare⟩,
        precedes⟩
    · rw [text, List.append_assoc, Scanned.prepend_rest, whole]
      rfl
    · rw [Scanned.prepend_stop, stop]
      simp only [text, List.length_append, List.length_cons]
      omega

/-- The tokens found from `offset` on are those of a division of the text. -/
def Accounts (touching : Bool) (offset : Nat) (text : List Char)
    (found : List Token) : Prop :=
  ∃ lexemes, Divides text lexemes ∧ found = tokens offset lexemes ∧
    (touching = true → Apart lexemes)

theorem Accounts.extend {touching : Bool} {offset : Nat} {found : List Token}
    (lexeme : Lexeme) (precedes : lexeme.Precedes rest)
    (free : touching = true → lexeme.isContent = false)
    (following :
      Accounts lexeme.isContent (offset + lexeme.text.length) rest found) :
    Accounts touching offset (lexeme.text ++ rest)
      ((lexeme.symbol?.map (⟨·, offset⟩)).toList ++ found) := by
  obtain ⟨lexemes, divides, rfl, apart⟩ := following
  refine ⟨lexeme :: lexemes, .cons precedes apart divides, rfl, ?_⟩
  intro touched next member
  cases member
  exact free touched

theorem accounts_of_lexFrom {touching : Bool} {offset : Nat} {text : List Char}
    {found : List Token}
    (success : Token.lexFrom touching offset text = .ok found) :
    Accounts touching offset text found := by
  fun_induction Token.lexFrom touching offset text generalizing found with
  | case1 =>
      cases success
      exact ⟨[], .nil, rfl, fun _ _ member => by cases member⟩
  | case2 touching offset char rest blank induction =>
      exact Accounts.extend (.blank char) blank
        (fun _ => rfl) (induction success)
  | case3 touching offset char rest _ symbol control induction =>
      obtain ⟨found, innerSuccess, rfl⟩ := Outcome.map_eq_ok_iff.mp success
      have following := induction innerSuccess
      rcases Symbol.ofChar?_eq_some control with
        ⟨rfl, rfl⟩ | ⟨rfl, rfl⟩ | ⟨rfl, rfl⟩ | ⟨rfl, rfl⟩
      · exact Accounts.extend (.lineBreak false) trivial
          (fun _ => rfl) following
      · exact Accounts.extend .backslash trivial (fun _ => rfl) following
      · exact Accounts.extend .openBrace trivial (fun _ => rfl) following
      · exact Accounts.extend .closeBrace trivial (fun _ => rfl) following
  | case4 touching offset rest feed _ _ induction =>
      obtain ⟨rest, rfl⟩ := List.head?_eq_some_iff.mp feed
      obtain ⟨found, innerSuccess, rfl⟩ := Outcome.map_eq_ok_iff.mp success
      exact Accounts.extend (.lineBreak true) trivial (fun _ => rfl)
        (induction innerSuccess)
  | case5 => cases success
  | case6 => cases success
  | case7 => cases success
  | case8 touching offset char rest _ _ _ quote untouched scanned scan
      induction =>
      obtain ⟨found, innerSuccess, rfl⟩ := Outcome.map_eq_ok_iff.mp success
      obtain ⟨quotation, value, precedes, whole, stop⟩ :=
        Quotation.exists_of_scan quote scan
      have following := induction innerSuccess
      rw [stop] at following
      rw [← whole, ← value]
      exact Accounts.extend (.quoted quotation) precedes
        (fun touched => absurd touched untouched) following
  | case9 => cases success
  | case10 => cases success
  | case11 touching offset char rest _ _ _ _ bare untouched scanned scan
      induction =>
      obtain ⟨found, innerSuccess, rfl⟩ := Outcome.map_eq_ok_iff.mp success
      have following := induction innerSuccess
      obtain ⟨run, fused, symbol, precedes, whole, stop⟩ :=
        exists_of_termScan bare scan
      rw [stop] at following
      have extended := Accounts.extend (.term run fused) precedes
        (fun touched => absurd touched untouched) following
      rw [symbol, whole] at extended
      exact extended
  | case12 => cases success

theorem lexFrom_eq_ok_iff {offset : Nat} {text : List Char}
    {found : List Token} :
    Token.lexFrom false offset text = .ok found ↔
      ∃ lexemes, Divides text lexemes ∧ found = tokens offset lexemes := by
  constructor
  · intro success
    obtain ⟨lexemes, divides, same, -⟩ := accounts_of_lexFrom success
    exact ⟨lexemes, divides, same⟩
  · rintro ⟨lexemes, divides, rfl⟩
    exact divides.lexFrom offset

/-- The lexemes that are neither quoted strings nor terms. -/
def controls : List Lexeme :=
  [.blank ' ', .blank '\t', .lineBreak false, .lineBreak true, .backslash,
    .openBrace, .closeBrace]

theorem mem_controls (control : lexeme.isContent = false)
    (precedes : lexeme.Precedes rest) : lexeme ∈ controls := by
  cases lexeme with
  | blank char =>
      rcases (isBlank_iff char).mp precedes with rfl | rfl <;> simp [controls]
  | lineBreak afterReturn => cases afterReturn <;> simp [controls]
  | quoted quotation => cases control
  | term run fused => cases control
  | _ => simp [controls]

theorem eq_of_mem_controls {left right : Lexeme}
    {leftRest rightRest : List Char} (leftControl : left ∈ controls)
    (rightControl : right ∈ controls)
    (same : left.text ++ leftRest = right.text ++ rightRest) :
    left = right := by
  simp only [controls, List.mem_cons, List.not_mem_nil, or_false] at *
  rcases leftControl with rfl | rfl | rfl | rfl | rfl | rfl | rfl <;>
    rcases rightControl with rfl | rfl | rfl | rfl | rfl | rfl | rfl <;>
    simp_all [text]

theorem not_boundary_of_isContent (content : lexeme.isContent = true)
    (precedes : lexeme.Precedes rest) : ¬ Boundary (lexeme.text ++ rest) := by
  cases lexeme with
  | quoted quotation => exact Quotation.Precedes.not_boundary precedes
  | term run fused =>
      have starts : ∀ tail, run ≠ [] → (∀ char ∈ run, isBare char = true) →
          ¬ Boundary (run ++ tail) := by
        intro tail nonempty bare
        obtain ⟨first, run, rfl⟩ := List.exists_cons_of_ne_nil nonempty
        rw [List.cons_append, boundary_cons]
        simp [startsTerm, bare first List.mem_cons_self]
      cases fused with
      | none => exact starts rest precedes.1 precedes.2.1
      | some quotation =>
          rw [text, List.append_assoc]
          exact starts _ precedes.1 precedes.2.1
  | _ => cases content

theorem term_unique {leftRun rightRun leftRest rightRest : List Char}
    {leftFused rightFused : Option Quotation}
    (left : (term leftRun leftFused).Precedes leftRest)
    (right : (term rightRun rightFused).Precedes rightRest)
    (leftBoundary : Boundary leftRest) (rightBoundary : Boundary rightRest)
    (same : (term leftRun leftFused).text ++ leftRest =
      (term rightRun rightFused).text ++ rightRest) :
    term leftRun leftFused = term rightRun rightFused ∧
      leftRest = rightRest := by
  cases leftFused with
  | none =>
      obtain ⟨-, leftBare, leftMaximal⟩ := left
      cases rightFused with
      | none =>
          obtain ⟨-, rightBare, rightMaximal⟩ := right
          obtain ⟨rfl, rfl⟩ := Term.bareRun_unique leftBare leftMaximal
            rightBare rightMaximal same
          exact ⟨rfl, rfl⟩
      | some rightQuoted =>
          obtain ⟨-, rightBare, rightPrecedes⟩ := right
          rw [text, text, List.append_assoc] at same
          obtain ⟨-, rfl⟩ := Term.bareRun_unique leftBare leftMaximal
            rightBare rightPrecedes.maximal same
          exact absurd leftBoundary rightPrecedes.not_boundary
  | some leftQuoted =>
      obtain ⟨-, leftBare, leftPrecedes⟩ := left
      rw [text, List.append_assoc] at same
      cases rightFused with
      | none =>
          obtain ⟨-, rightBare, rightMaximal⟩ := right
          obtain ⟨-, rfl⟩ := Term.bareRun_unique leftBare leftPrecedes.maximal
            rightBare rightMaximal same
          exact absurd rightBoundary leftPrecedes.not_boundary
      | some rightQuoted =>
          obtain ⟨-, rightBare, rightPrecedes⟩ := right
          rw [text, List.append_assoc] at same
          obtain ⟨rfl, tails⟩ :=
            Term.bareRun_unique leftBare leftPrecedes.maximal
            rightBare rightPrecedes.maximal same
          obtain ⟨rfl, rfl⟩ := leftPrecedes.unique rightPrecedes tails
          exact ⟨rfl, rfl⟩

theorem quoted_text_ne_term {quotation : Quotation}
    {run leftRest rightRest : List Char} {fused : Option Quotation}
    (left : quotation.Precedes leftRest)
    (right : (term run fused).Precedes rightRest) :
    quotation.spelled ++ leftRest ≠ (term run fused).text ++ rightRest := by
  obtain ⟨first, tail, same, bare⟩ : ∃ first tail,
      (term run fused).text ++ rightRest = first :: tail ∧
        isBare first = true := by
    cases fused with
    | none =>
        obtain ⟨first, run, rfl⟩ := List.exists_cons_of_ne_nil right.1
        exact ⟨first, run ++ rightRest, rfl, right.2.1 first List.mem_cons_self⟩
    | some quotation =>
        obtain ⟨first, run, rfl⟩ := List.exists_cons_of_ne_nil right.1
        exact ⟨first, _, rfl, right.2.1 first List.mem_cons_self⟩
  intro whole
  have stopped := left.maximal first (by rw [whole, same]; rfl)
  rw [bare] at stopped
  cases stopped

/-- The first lexeme of a text is determined by the text. -/
theorem first_unique {left right : Lexeme} {leftRest rightRest : List Char}
    (leftPrecedes : left.Precedes leftRest)
    (rightPrecedes : right.Precedes rightRest)
    (leftApart : left.isContent = true → Boundary leftRest)
    (rightApart : right.isContent = true → Boundary rightRest)
    (same : left.text ++ leftRest = right.text ++ rightRest) :
    left = right ∧ leftRest = rightRest := by
  cases leftContent : left.isContent with
  | false =>
      cases rightContent : right.isContent with
      | false =>
          obtain rfl := eq_of_mem_controls
            (mem_controls leftContent leftPrecedes)
            (mem_controls rightContent rightPrecedes) same
          exact ⟨rfl, List.append_cancel_left same⟩
      | true =>
          have boundary := boundary_of_not_isContent leftContent leftPrecedes
          rw [same] at boundary
          exact absurd boundary
            (not_boundary_of_isContent rightContent rightPrecedes)
  | true =>
      have leftBoundary := leftApart leftContent
      cases rightContent : right.isContent with
      | false =>
          have boundary := boundary_of_not_isContent rightContent rightPrecedes
          rw [← same] at boundary
          exact absurd boundary
            (not_boundary_of_isContent leftContent leftPrecedes)
      | true =>
          have rightBoundary := rightApart rightContent
          cases left with
          | quoted leftQuoted =>
              cases right with
              | quoted rightQuoted =>
                  obtain ⟨rfl, rfl⟩ := Quotation.Precedes.unique leftPrecedes
                    rightPrecedes same
                  exact ⟨rfl, rfl⟩
              | term run fused =>
                  exact absurd same
                    (quoted_text_ne_term leftPrecedes rightPrecedes)
              | _ => cases rightContent
          | term run fused =>
              cases right with
              | quoted rightQuoted =>
                  exact absurd same.symm
                    (quoted_text_ne_term rightPrecedes leftPrecedes)
              | term otherRun otherFused =>
                  exact term_unique leftPrecedes rightPrecedes leftBoundary
                    rightBoundary same
              | _ => cases rightContent
          | _ => cases leftContent

theorem text_ne_nil (precedes : lexeme.Precedes rest) : lexeme.text ≠ [] := by
  cases lexeme with
  | lineBreak afterReturn => cases afterReturn <;> exact List.cons_ne_nil _ _
  | quoted quotation => exact Quotation.Precedes.spelled_ne_nil precedes
  | term run fused =>
      cases fused with
      | none => exact precedes.1
      | some quotation => exact List.append_ne_nil_of_left_ne_nil precedes.1 _
  | _ => exact List.cons_ne_nil _ _

theorem Divides.exists_precedes {text : List Char} {lexemes : List Lexeme}
    (divides : Divides text lexemes) :
    ∀ lexeme ∈ lexemes, ∃ rest, lexeme.Precedes rest := by
  induction divides with
  | nil => simp
  | @cons lexeme rest lexemes precedes _ _ induction =>
      intro other member
      cases member with
      | head => exact ⟨rest, precedes⟩
      | tail _ later => exact induction other later

/-- A text can be divided in one way only. -/
theorem Divides.unique {text : List Char} {others : List Lexeme}
    (divides : Divides text lexemes) (otherwise : Divides text others) :
    lexemes = others := by
  induction divides generalizing others with
  | nil =>
      generalize whole : ([] : List Char) = text at otherwise
      cases otherwise with
      | nil => rfl
      | cons precedes _ _ =>
          exact absurd (List.append_eq_nil_iff.mp whole.symm).1
            (text_ne_nil precedes)
  | @cons lexeme rest lexemes precedes apart divides induction =>
      generalize whole : lexeme.text ++ rest = text at otherwise
      cases otherwise with
      | nil =>
          exact absurd (List.append_eq_nil_iff.mp whole).1
            (text_ne_nil precedes)
      | cons otherPrecedes otherApart otherDivides =>
          obtain ⟨rfl, rfl⟩ := first_unique precedes otherPrecedes
            (fun content => divides.boundary (apart content))
            (fun content => otherDivides.boundary (otherApart content)) whole
          rw [induction otherDivides]

end Lexeme

namespace Token

/-- A quoted string can be read at an offset exactly when one is spelled out
there, up to the offset that is reported. -/
theorem quotedAt_eq_ok_iff {text value : String} {offset stop : Nat} :
    quotedAt text offset = .ok (value, stop) ↔
      stop ≤ text.toList.length ∧
        ∃ mark, Quoted.Spells mark (text.toList.drop offset) value.toList
          (text.toList.drop stop) := by
  cases whole : text.toList.drop offset with
  | nil =>
      constructor
      · intro success
        simp [quotedAt, whole] at success
      · rintro ⟨-, mark, spells⟩
        exact absurd spells.head? (by simp)
  | cons first rest =>
      have lengths := congrArg List.length whole
      rw [List.length_drop, List.length_cons] at lengths
      constructor
      · intro success
        simp only [quotedAt, whole] at success
        split at success
        · cases success
        · rename_i scanned scan
          obtain ⟨rfl, rfl⟩ : String.ofList scanned.value = value ∧
              scanned.stop = stop := by simpa using success
          obtain ⟨spells, place⟩ := Quoted.scan_sound scan
          have behind : scanned.rest <:+ text.toList := by
            have inside := spells.suffix
            rw [← whole] at inside
            exact inside.trans (List.drop_suffix offset text.toList)
          have shorter := behind.length_le
          have place :
              scanned.stop = text.toList.length - scanned.rest.length := by
            omega
          refine ⟨by omega, first, ?_⟩
          rw [String.toList_ofList, place, ← List.suffix_iff_eq_drop.mp behind]
          exact spells
      · rintro ⟨inside, mark, spells⟩
        obtain rfl : first = mark := by simpa using spells.head?
        have scan : Quoted.scan first offset rest =
            .ok ⟨value.toList, stop, text.toList.drop stop⟩ := by
          refine Quoted.scan_eq_ok_iff.mpr ⟨spells, ?_⟩
          simp only [List.length_drop]
          omega
        simp [quotedAt, whole, scan]

theorem ofText_eq_ok_iff {text : String} {lexemes : List Lexeme}
    {tokens : List Token} (divides : Lexeme.Divides text.toList lexemes) :
    ofText text = .ok tokens ↔
      Continuation.Reduces (Lexeme.tokens 0 lexemes) tokens := by
  rw [ofText, lex, divides.lexFrom 0, Continuation.reduces_iff]
  simp

theorem exists_divides_of_ofText {text : String} {tokens : List Token}
    (success : ofText text = .ok tokens) :
    ∃ lexemes, Lexeme.Divides text.toList lexemes := by
  unfold ofText lex at success
  split at success
  · cases success
  · rename_i read
    obtain ⟨lexemes, divides, -⟩ := Lexeme.lexFrom_eq_ok_iff.mp read
    exact ⟨lexemes, divides⟩

theorem exists_cancel_of_ofText {text : String} {tokens : List Token}
    (success : ofText text = .ok tokens) :
    ∃ lexemes, Lexeme.Divides text.toList lexemes ∧
      Continuation.cancel (Lexeme.tokens 0 lexemes) = tokens := by
  obtain ⟨lexemes, divides⟩ := exists_divides_of_ofText success
  have reduces := (ofText_eq_ok_iff divides).mp success
  exact ⟨lexemes, divides, Continuation.reduces_iff.mp reduces⟩

/-- A text can be read exactly when it can be divided into lexemes.  The
division is unique, and the tokens are its lexemes other than blanks, after the
leftmost continuations have been cancelled one by one.  Quoted strings are those
that can be read on their own. -/
theorem ofText_lexical_grammar (text : String) :
    ((∃ tokens, ofText text = .ok tokens) ↔
      ∃ lexemes, Lexeme.Divides text.toList lexemes) ∧
    (∀ lexemes, Lexeme.Divides text.toList lexemes →
      (∀ others, Lexeme.Divides text.toList others → others = lexemes) ∧
      ∀ tokens, ofText text = .ok tokens ↔
        Continuation.Reduces (Lexeme.tokens 0 lexemes) tokens) ∧
    ∀ offset value stop, quotedAt text offset = .ok (value, stop) ↔
      stop ≤ text.toList.length ∧
        ∃ mark, Quoted.Spells mark (text.toList.drop offset) value.toList
          (text.toList.drop stop) := by
  refine ⟨⟨?_, ?_⟩, ?_, fun _ _ _ => quotedAt_eq_ok_iff⟩
  · rintro ⟨tokens, success⟩
    exact exists_divides_of_ofText success
  · rintro ⟨lexemes, divides⟩
    exact ⟨_, (ofText_eq_ok_iff divides).mpr (Continuation.reduces_iff.mpr rfl)⟩
  · intro lexemes divides
    exact ⟨fun others otherwise => otherwise.unique divides,
      fun tokens => ofText_eq_ok_iff divides⟩

/-- A fused term, and a line break that the backslash before it cancels, not the
`&` after it. -/
theorem ofText_fused_continued :
    ofText "a'b' \\\n&" = .ok [⟨.unquoted "ab", 0⟩, ⟨.and, 7⟩] := by
  have quotation : Quotation.Precedes [' ', '\\', '\n', '&']
      ⟨['\'', 'b', '\''], ['b']⟩ :=
    ⟨'\'', rfl, .delimited Nat.one_pos (by decide) (by decide)
      (.plain (by decide) (by decide) (.close _))⟩
  have divides : Lexeme.Divides "a'b' \\\n&".toList
      [.term ['a'] (some ⟨['\'', 'b', '\''], ['b']⟩), .blank ' ', .backslash,
        .lineBreak false, .term ['&'] none] := by
    have last := @Lexeme.Divides.cons (.term ['&'] none) [] []
      ⟨List.cons_ne_nil _ _, List.all_eq_true.mp rfl, nofun⟩
      (fun _ => nofun) .nil
    have feed := @Lexeme.Divides.cons (.lineBreak false) _ _ trivial nofun last
    have escape := @Lexeme.Divides.cons .backslash _ _ trivial nofun feed
    have blank := @Lexeme.Divides.cons (.blank ' ') _ _ rfl nofun escape
    exact @Lexeme.Divides.cons
      (.term ['a'] (some ⟨['\'', 'b', '\''], ['b']⟩)) _ _
      ⟨List.cons_ne_nil _ _, List.all_eq_true.mp rfl, quotation⟩
      (fun _ _ member => by cases member; rfl) blank
  exact (((ofText_lexical_grammar _).2.1 _ divides).2 _).mpr
    (Continuation.reduces_iff.mpr (by decide))

end Token

end CommandScript
