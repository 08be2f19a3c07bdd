import CommandScript.Proofs.LexemeGrammar

/-!
# Where tokens and faults are found

A fault of the scanner lies in the text or right behind it, also where an escape
is cut off by the end of the text.  A token stands where its lexeme starts, so
the character there tells what kind of token it is.
-/

namespace CommandScript

namespace Quoted

variable {mark : Char} {width run offset : Nat} {text : List Char}
  {fault : LexicalFault}

theorem scanBody_fault
    (failed : scanBody mark width run offset text = .error fault) :
    fault.position ≤ offset + text.length := by
  fun_induction scanBody mark width run offset text with
  | case1 =>
      cases failed
      exact Nat.le_add_right _ _
  | case2 => cases failed
  | case3 run offset rest pending induction =>
      have bound := induction failed
      rw [List.length_cons]
      omega
  | case4 =>
      cases failed
      exact Nat.le_refl _
  | case5 =>
      cases failed
      simp only [List.length_cons]
      omega
  | case6 run offset letter rest decoded known notMark induction =>
      have bound := induction (Outcome.map_eq_error_iff.mp failed)
      simp only [List.length_cons]
      omega
  | case7 run offset char rest notMark notBackslash induction =>
      have bound := induction (Outcome.map_eq_error_iff.mp failed)
      rw [List.length_cons]
      omega

theorem scan_fault (failed : scan mark offset text = .error fault) :
    fault.position ≤ offset + 1 + text.length := by
  obtain ⟨count, body, rfl, maximal⟩ := exists_run mark text
  rw [scan_run count maximal] at failed
  split at failed
  · cases failed
  · have bound := scanBody_fault failed
    rw [List.length_append, List.length_replicate]
    omega

end Quoted

theorem Term.scan_fault {first : Char} {offset : Nat} {text : List Char}
    {fault : LexicalFault} (failed : scan first offset text = .error fault) :
    fault.position ≤ offset + 1 + text.length := by
  obtain ⟨run, rest, rfl, bare, boundary | ⟨mark, tail, rfl, quote⟩⟩ :=
    exists_bareRun_boundary_or_mark text
  · rw [scan_bare bare boundary] at failed
    cases failed
  · rw [scan_fused bare quote] at failed
    have bound := Quoted.scan_fault (Outcome.map_eq_error_iff.mp failed)
    rw [List.length_append, List.length_cons]
    omega

theorem Token.lexFrom_fault {touching : Bool} {offset : Nat} {text : List Char}
    {fault : LexicalFault}
    (failed : lexFrom touching offset text = .error fault) :
    fault.position ≤ offset + text.length := by
  fun_induction lexFrom touching offset text with
  | case1 => cases failed
  | case2 touching offset char rest blank induction =>
      have bound := induction failed
      rw [List.length_cons]
      omega
  | case3 touching offset char rest _ symbol control induction =>
      have bound := induction (Outcome.map_eq_error_iff.mp failed)
      rw [List.length_cons]
      omega
  | case4 touching offset rest feed _ _ induction =>
      obtain ⟨rest, rfl⟩ := List.head?_eq_some_iff.mp feed
      have bound := induction (Outcome.map_eq_error_iff.mp failed)
      simp only [List.tail_cons, List.length_cons] at bound ⊢
      omega
  | case7 touching offset char rest _ _ _ quote untouched fault scan =>
      cases failed
      have bound := Quoted.scan_fault scan
      rw [List.length_cons]
      omega
  | case8 touching offset char rest _ _ _ quote untouched scanned scan
      induction =>
      have bound := induction (Outcome.map_eq_error_iff.mp failed)
      have place := (Quoted.scan_sound scan).2
      rw [List.length_cons]
      omega
  | case10 touching offset char rest _ _ _ _ bare untouched fault scan =>
      cases failed
      have bound := Term.scan_fault scan
      rw [List.length_cons]
      omega
  | case11 touching offset char rest _ _ _ _ bare untouched scanned scan
      induction =>
      have bound := induction (Outcome.map_eq_error_iff.mp failed)
      obtain ⟨run, fused, -, -, whole, stop⟩ :=
        Lexeme.exists_of_termScan bare scan
      have lengths := congrArg List.length whole
      rw [List.length_append] at lengths
      omega
  | case5 | case6 | case9 | case12 =>
      cases failed
      exact Nat.le_add_right _ _

/-- The characters with which a symbol can start in a text. -/
def Symbol.Begins : Symbol → Char → Prop
  | lineBreak, char => char = '\n' ∨ char = '\r'
  | andAnd, char | and, char => char = '&'
  | backslash, char => char = '\\'
  | openBrace, char => char = '{'
  | closeBrace, char => char = '}'
  | quoted _, char => isQuoteMark char = true
  | unquoted _, char => isBare char = true

namespace Lexeme

variable {lexeme : Lexeme} {lexemes : List Lexeme} {text rest : List Char}
  {symbol : Symbol}

theorem begins_ofTerm {first : Char} {others : List Char}
    (bare : isBare first = true) :
    (Symbol.ofTerm (String.ofList (first :: others))).Begins first := by
  unfold Symbol.ofTerm
  split
  · rename_i double
    have spelled := congrArg String.toList double
    rw [String.toList_ofList] at spelled
    exact (List.cons.inj spelled).1
  · split
    · rename_i single
      have spelled := congrArg String.toList single
      rw [String.toList_ofList] at spelled
      exact (List.cons.inj spelled).1
    · exact bare

/-- What a lexeme is read as can be told from its first character. -/
theorem exists_text_eq_cons (precedes : lexeme.Precedes rest)
    (read : lexeme.symbol? = some symbol) :
    ∃ char tail, lexeme.text = char :: tail ∧ symbol.Begins char := by
  cases lexeme with
  | blank char => cases read
  | lineBreak afterReturn =>
      cases read
      cases afterReturn with
      | false => exact ⟨'\n', [], rfl, .inl rfl⟩
      | true => exact ⟨'\r', ['\n'], rfl, .inr rfl⟩
  | backslash | openBrace | closeBrace =>
      cases read
      exact ⟨_, [], rfl, rfl⟩
  | quoted quotation =>
      cases read
      obtain ⟨first, tail, whole⟩ :=
        List.exists_cons_of_ne_nil (Quotation.Precedes.spelled_ne_nil precedes)
      obtain ⟨mark, _, quote, same, -⟩ := Quotation.Precedes.scan 0 precedes
      rw [whole] at same
      obtain ⟨rfl, -⟩ := List.cons.inj same
      exact ⟨first, tail, whole, quote⟩
  | term run fused =>
      cases fused with
      | none =>
          obtain ⟨nonempty, bare, -⟩ := precedes
          obtain ⟨first, run, rfl⟩ := List.exists_cons_of_ne_nil nonempty
          cases read
          exact ⟨first, run, rfl, begins_ofTerm (bare first List.mem_cons_self)⟩
      | some quotation =>
          obtain ⟨nonempty, bare, -⟩ := precedes
          obtain ⟨first, run, rfl⟩ := List.exists_cons_of_ne_nil nonempty
          cases read
          exact ⟨first, _, rfl, begins_ofTerm (bare first List.mem_cons_self)⟩

theorem Divides.flatMap_text (divides : Divides text lexemes) :
    lexemes.flatMap Lexeme.text = text := by
  induction divides with
  | nil => rfl
  | cons _ _ _ induction => rw [List.flatMap_cons, induction]

/-- A lexeme of the text that is read as the symbol starts at the offset. -/
def StartsAt (text : List Char) (offset : Nat) (symbol : Symbol) : Prop :=
  ∃ front lexeme back, Divides text (front ++ lexeme :: back) ∧
    (front.flatMap Lexeme.text).length = offset ∧ lexeme.symbol? = some symbol

theorem StartsAt.exists_begins {offset : Nat}
    (starts : StartsAt text offset symbol) :
    ∃ char, text[offset]? = some char ∧ symbol.Begins char := by
  obtain ⟨front, lexeme, back, divides, rfl, read⟩ := starts
  obtain ⟨rest, precedes⟩ := divides.exists_precedes lexeme (by simp)
  obtain ⟨char, tail, whole, begins⟩ := exists_text_eq_cons precedes read
  refine ⟨char, ?_, begins⟩
  rw [← divides.flatMap_text, List.flatMap_append, List.flatMap_cons, whole]
  simp

theorem exists_of_mem_tokens {offset : Nat} {token : Token}
    (member : token ∈ tokens offset lexemes) :
    ∃ front lexeme back, lexemes = front ++ lexeme :: back ∧
      token.position = (offset + (front.flatMap Lexeme.text).length : Nat) ∧
      lexeme.symbol? = some token.symbol := by
  induction lexemes generalizing offset with
  | nil => cases member
  | cons lexeme lexemes induction =>
      rw [tokens, List.mem_append] at member
      rcases member with here | behind
      · obtain ⟨symbol, read, rfl⟩ : ∃ symbol, lexeme.symbol? = some symbol ∧
            (⟨symbol, offset⟩ : Token) = token := by
          simpa using here
        exact ⟨[], lexeme, lexemes, rfl, rfl, read⟩
      · obtain ⟨front, found, back, rfl, place, read⟩ := induction behind
        refine ⟨lexeme :: front, found, back, rfl, ?_, read⟩
        rw [place, List.flatMap_cons, List.length_append, Nat.add_assoc]

end Lexeme

/-- Every token that is left of a text stands where a lexeme of the text
starts. -/
theorem Token.startsAt_of_ofText {text : String} {tokens : List Token}
    (success : ofText text = .ok tokens) {token : Token}
    (member : token ∈ tokens) :
    ∃ offset : Nat, token.position = offset ∧
      Lexeme.StartsAt text.toList offset token.symbol := by
  obtain ⟨lexemes, divides⟩ := exists_divides_of_ofText success
  have raw := ((ofText_eq_ok_iff divides).mp success).sublist.subset member
  obtain ⟨front, lexeme, back, rfl, place, read⟩ :=
    Lexeme.exists_of_mem_tokens raw
  rw [Nat.zero_add] at place
  exact ⟨_, place, front, lexeme, back, divides, rfl, read⟩

end CommandScript
