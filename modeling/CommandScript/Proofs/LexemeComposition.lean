import CommandScript.Proofs.LexemeGrammar

/-!
# Putting divided texts together

A lexeme looks at what follows it only to see that it does not go on there.  So
two texts that can be divided can be put together, unless a term or quoted
string starts the second one, and the result is divided into the lexemes of
both.  `Reads` forgets the lexemes and keeps the symbols, which is all that
matters to the later stages.
-/

namespace CommandScript

namespace Quoted

variable {mark : Char} {width : Nat} {text value rest : List Char}

theorem Body.exists_inside (positive : 0 < width)
    (body : Body mark width text value rest) :
    ∃ inside, inside ≠ [] ∧ text = inside ++ rest ∧
      ∀ other, Body mark width (inside ++ other) value other := by
  induction body with
  | close rest =>
      refine ⟨List.replicate width mark, ?_, rfl, fun other => .close other⟩
      simpa using Nat.ne_of_gt positive
  | @plain char text value rest notMark notBackslash _ induction =>
      obtain ⟨inside, _, rfl, exchange⟩ := induction
      exact ⟨char :: inside, List.cons_ne_nil _ _, rfl,
        fun other => .plain notMark notBackslash (exchange other)⟩
  | @escape letter decoded text value rest notMark known _ induction =>
      obtain ⟨inside, _, rfl, exchange⟩ := induction
      exact ⟨'\\' :: letter :: inside, List.cons_ne_nil _ _, rfl,
        fun other => .escape notMark known (exchange other)⟩
  | @run count text value rest some shorter maximal _ induction =>
      obtain ⟨inside, nonempty, rfl, exchange⟩ := induction
      obtain ⟨first, inside, rfl⟩ := List.exists_cons_of_ne_nil nonempty
      refine ⟨List.replicate count mark ++ first :: inside, by simp, by simp,
        ?_⟩
      intro other
      rw [List.append_assoc]
      exact .run some shorter maximal (exchange other)

/-- An opening delimiter that is not directly followed by the closing one
delimits some characters. -/
theorem Body.value_ne_nil (positive : 0 < width)
    (apart : text.head? ≠ some mark) (body : Body mark width text value rest) :
    value ≠ [] := by
  cases body with
  | close =>
      obtain ⟨count, rfl⟩ : ∃ count, width = count + 1 := ⟨width - 1, by omega⟩
      exact absurd rfl apart
  | plain _ _ _ => exact List.cons_ne_nil _ _
  | escape _ _ _ => exact List.cons_ne_nil _ _
  | @run count text value rest some _ _ _ =>
      obtain ⟨count, rfl⟩ : ∃ before, count = before + 1 :=
        ⟨count - 1, by omega⟩
      exact absurd rfl apart

theorem Spells.head?_ne_of_empty (spells : Spells mark text [] rest) :
    rest.head? ≠ some mark := by
  cases spells with
  | empty apart => exact apart
  | delimited positive _ apart body =>
      exact absurd rfl (body.value_ne_nil positive apart)

/-- What stands behind a quoted string can be exchanged, but a third mark must
not follow the two marks of the empty string. -/
theorem Spells.exists_spelled (spells : Spells mark text value rest) :
    ∃ spelled, text = spelled ++ rest ∧
      ∀ other : List Char, (value = [] → other.head? ≠ some mark) →
        Spells mark (spelled ++ other) value other := by
  cases spells with
  | empty _ => exact ⟨[mark, mark], rfl, fun other apart => .empty (apart rfl)⟩
  | @delimited width text value rest positive notTwo maximal body =>
      obtain ⟨inside, nonempty, rfl, exchange⟩ := body.exists_inside positive
      obtain ⟨first, inside, rfl⟩ := List.exists_cons_of_ne_nil nonempty
      refine ⟨List.replicate width mark ++ first :: inside, by simp, ?_⟩
      intro other _
      rw [List.append_assoc]
      exact .delimited positive notTwo maximal (exchange other)

theorem Body.getLast? (positive : 0 < width)
    (body : Body mark width text value []) :
    text.getLast? = some mark := by
  generalize behind : ([] : List Char) = rest at body
  induction body with
  | close rest =>
      subst behind
      obtain ⟨count, rfl⟩ : ∃ count, width = count + 1 := ⟨width - 1, by omega⟩
      simp [List.replicate_succ']
  | plain _ _ _ induction => simp [List.getLast?_cons, induction behind]
  | escape _ _ _ induction => simp [List.getLast?_cons, induction behind]
  | run _ _ _ _ induction => simp [List.getLast?_append, induction behind]

theorem Spells.getLast? (spells : Spells mark text value []) :
    text.getLast? = some mark := by
  cases spells with
  | empty _ => rfl
  | delimited positive _ _ body =>
      simp [List.getLast?_append, body.getLast? positive]

end Quoted

theorem Quotation.Precedes.exchange {quotation : Quotation}
    {rest other : List Char} (precedes : quotation.Precedes rest)
    (boundary : Boundary other) :
    quotation.Precedes other := by
  obtain ⟨mark, quote, spells⟩ := precedes
  obtain ⟨spelled, same, exchange⟩ := spells.exists_spelled
  obtain rfl := List.append_cancel_right same
  have apart : other.head? ≠ some mark :=
    boundary.head?_ne (by simp [startsTerm, quote])
  exact ⟨mark, quote, exchange other fun _ => apart⟩

namespace Lexeme

variable {lexeme : Lexeme} {text rest other : List Char}
  {lexemes following : List Lexeme}

theorem Precedes.exchange (precedes : lexeme.Precedes rest)
    (boundary : lexeme.isContent = true → Boundary other) :
    lexeme.Precedes other := by
  cases lexeme with
  | quoted quotation =>
      exact Quotation.Precedes.exchange precedes (boundary rfl)
  | term run fused =>
      cases fused with
      | none =>
          refine ⟨precedes.1, precedes.2.1, ?_⟩
          intro char member
          have stopped := boundary rfl char member
          simp only [startsTerm, Bool.or_eq_false_iff] at stopped
          exact stopped.2
      | some quotation =>
          exact ⟨precedes.1, precedes.2.1, precedes.2.2.exchange (boundary rfl)⟩
  | _ => exact precedes

theorem Divides.apart (divides : Divides text lexemes)
    (boundary : Boundary text) :
    Apart lexemes := by
  cases divides with
  | nil => exact fun _ member => by cases member
  | @cons lexeme rest lexemes precedes _ _ =>
      intro next member
      cases member
      cases content : lexeme.isContent with
      | false => rfl
      | true =>
          exact absurd boundary (not_boundary_of_isContent content precedes)

/-- The text can stand behind the lexemes: where a quoted string or term ends
them, none starts the text. -/
def Joint (lexemes : List Lexeme) (other : List Char) : Prop :=
  ∀ last ∈ lexemes.getLast?, last.isContent = true → Boundary other

theorem joint_of_boundary (boundary : Boundary other) : Joint lexemes other :=
  fun _ _ _ => boundary

/-- No quoted string or term can end at the back of the text. -/
def Closed (text : List Char) : Prop :=
  ∀ char ∈ text.getLast?, startsTerm char = false

theorem exists_getLast?_of_bare {run : List Char} (nonempty : run ≠ [])
    (bare : ∀ char ∈ run, isBare char = true) :
    ∃ char ∈ run.getLast?, startsTerm char = true := by
  refine ⟨run.getLast nonempty, List.getLast_mem_getLast? nonempty, ?_⟩
  simp [startsTerm, bare _ (List.getLast_mem nonempty)]

theorem exists_getLast?_of_isContent (content : lexeme.isContent = true)
    (precedes : lexeme.Precedes []) :
    ∃ char ∈ lexeme.text.getLast?, startsTerm char = true := by
  have quoted : ∀ quotation : Quotation, quotation.Precedes [] →
      ∃ char ∈ quotation.spelled.getLast?, startsTerm char = true := by
    intro quotation precedes
    obtain ⟨mark, quote, spells⟩ := precedes
    rw [List.append_nil] at spells
    exact ⟨mark, spells.getLast?, by simp [startsTerm, quote]⟩
  cases lexeme with
  | quoted quotation => exact quoted quotation precedes
  | term run fused =>
      cases fused with
      | none => exact exists_getLast?_of_bare precedes.1 precedes.2.1
      | some quotation =>
          obtain ⟨char, last, starts⟩ := quoted quotation precedes.2.2
          refine ⟨char, ?_, starts⟩
          simp [text, List.getLast?_append, Option.mem_def.mp last]
  | _ => cases content

/-- Anything can stand behind a text at whose back no term can end. -/
theorem Divides.joint (divides : Divides text lexemes) (closed : Closed text) :
    Joint lexemes other := by
  induction divides with
  | nil => exact fun _ member => by cases member
  | @cons lexeme rest lexemes precedes apart divides induction =>
      intro last member content
      cases divides with
      | nil =>
          cases member
          obtain ⟨char, final, starts⟩ :=
            exists_getLast?_of_isContent content precedes
          rw [List.append_nil] at closed
          rw [closed char final] at starts
          cases starts
      | @cons next rest others nextPrecedes _ _ =>
          apply induction _ last member content
          intro char final
          apply closed char
          simp [List.getLast?_append, Option.mem_def.mp final]

theorem Joint.tail (joint : Joint (lexeme :: lexemes) other) :
    Joint lexemes other := by
  intro last member
  apply joint last
  simp [List.getLast?_cons, Option.mem_def.mp member]

theorem Divides.boundary_append (divides : Divides text lexemes)
    (content : lexeme.isContent = true) (apart : Apart lexemes)
    (joint : Joint (lexeme :: lexemes) other) : Boundary (text ++ other) := by
  cases divides with
  | nil => exact joint lexeme rfl content
  | @cons first rest lexemes precedes _ _ =>
      have boundary := boundary_of_not_isContent (apart first rfl) precedes
      obtain ⟨char, tail, whole⟩ :=
        List.exists_cons_of_ne_nil (text_ne_nil precedes)
      rw [whole, List.cons_append, boundary_cons] at boundary
      rw [whole, List.cons_append, List.cons_append, boundary_cons]
      exact boundary

theorem Divides.append (divides : Divides text lexemes)
    (others : Divides other following) (joint : Joint lexemes other) :
    Divides (text ++ other) (lexemes ++ following) := by
  induction divides with
  | nil => exact others
  | @cons lexeme rest lexemes precedes apart divides induction =>
      have touches : lexeme.isContent = true → Boundary (rest ++ other) := by
        intro content
        exact divides.boundary_append content (apart content) joint
      have later := induction joint.tail
      rw [List.append_assoc]
      exact .cons (precedes.exchange touches)
        (fun content => later.apart (touches content)) later

theorem tokens_map_symbol (offset : Nat) (lexemes : List Lexeme) :
    (tokens offset lexemes).map Token.symbol = lexemes.filterMap symbol? := by
  induction lexemes generalizing offset with
  | nil => rfl
  | cons lexeme lexemes induction =>
      rw [tokens, List.map_append, induction, List.filterMap_cons]
      cases lexeme.symbol? <;> rfl

end Lexeme

/-- The text can be divided into lexemes, which are read as the symbols. -/
def Reads (text : List Char) (symbols : List Symbol) : Prop :=
  ∃ lexemes, Lexeme.Divides text lexemes ∧
    lexemes.filterMap Lexeme.symbol? = symbols

namespace Reads

variable {text other : List Char} {symbols following : List Symbol}

theorem nil : Reads [] [] := ⟨[], .nil, rfl⟩

theorem append (reads : Reads text symbols) (others : Reads other following)
    (boundary : Boundary other) :
    Reads (text ++ other) (symbols ++ following) := by
  obtain ⟨lexemes, divides, rfl⟩ := reads
  obtain ⟨later, otherDivides, rfl⟩ := others
  exact ⟨lexemes ++ later,
    divides.append otherDivides (Lexeme.joint_of_boundary boundary),
    List.filterMap_append⟩

theorem single {lexeme : Lexeme} (precedes : lexeme.Precedes []) :
    Reads lexeme.text lexeme.symbol?.toList := by
  refine ⟨[lexeme], ?_, ?_⟩
  · have divides :=
      Lexeme.Divides.cons precedes (fun _ _ member => by cases member) .nil
    rwa [List.append_nil] at divides
  · rw [List.filterMap_cons]
    cases lexeme.symbol? <;> rfl

theorem cons (lexeme : Lexeme) (control : lexeme.isContent = false)
    (precedes : lexeme.Precedes text) (reads : Reads text symbols) :
    Reads (lexeme.text ++ text) (lexeme.symbol?.toList ++ symbols) := by
  obtain ⟨lexemes, divides, rfl⟩ := reads
  refine ⟨lexeme :: lexemes, .cons precedes ?_ divides, ?_⟩
  · intro content
    rw [control] at content
    cases content
  · rw [List.filterMap_cons]
    cases lexeme.symbol? <;> rfl

theorem blank {char : Char} (blank : isBlank char = true)
    (reads : Reads text symbols) :
    Reads (char :: text) symbols :=
  reads.cons (.blank char) rfl blank

theorem control {char : Char} {symbol : Symbol}
    (control : Symbol.ofChar? char = some symbol) (reads : Reads text symbols) :
    Reads (char :: text) (symbol :: symbols) := by
  rcases Symbol.ofChar?_eq_some control with
    ⟨rfl, rfl⟩ | ⟨rfl, rfl⟩ | ⟨rfl, rfl⟩ | ⟨rfl, rfl⟩
  · exact reads.cons (.lineBreak false) rfl trivial
  · exact reads.cons .backslash rfl trivial
  · exact reads.cons .openBrace rfl trivial
  · exact reads.cons .closeBrace rfl trivial

theorem blanks {front : List Char}
    (blanks : ∀ char ∈ front, isBlank char = true)
    (reads : Reads text symbols) : Reads (front ++ text) symbols := by
  induction front with
  | nil => exact reads
  | cons char front induction =>
      obtain ⟨first, blanks⟩ := List.forall_mem_cons.mp blanks
      exact (induction blanks).blank first

end Reads

end CommandScript
