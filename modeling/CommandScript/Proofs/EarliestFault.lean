import CommandScript.Proofs.LexemeComposition

/-!
# The earliest fault

The lexer reports a fault as soon as there is one.  What stands before the fault
could have been completed to a text that can be read.  Together with the
character at the fault and the one behind it, which decides whether a carriage
return stands alone, it can not: every text that starts like this has the same
fault at the same place.

Both are proved from the place of the fault towards the front of the text.  A
step of the lexer or of a scanner takes characters away from the front, and what
it makes of them does not change when the text behind them does, as long as that
still starts with the same character or with none that would continue a term.
-/

namespace CommandScript

/-- The other text can stand wherever the first one does without being taken for
a continuation of a term that the first one does not continue. -/
def Replaces (other text : List Char) : Prop :=
  other.head? = text.head? ∨ Boundary other

namespace Replaces

variable {other text : List Char}

theorem boundary (replaces : Replaces other text) (boundary : Boundary text) :
    Boundary other := by
  rcases replaces with same | apart
  · intro char member
    exact boundary char (by rwa [← same])
  · exact apart

theorem head?_ne {mark : Char} (replaces : Replaces other text)
    (quote : isQuoteMark mark = true) (apart : text.head? ≠ some mark) :
    other.head? ≠ some mark := by
  rcases replaces with same | boundary
  · rwa [same]
  · exact boundary.head?_ne (by simp [startsTerm, quote])

theorem append (lead : List Char) (replaces : Replaces other text) :
    Replaces (lead ++ other) (lead ++ text) := by
  cases lead with
  | nil => exact replaces
  | cons char lead => exact .inl rfl

end Replaces

/-- The reader finds the fault between `front` and `back`.  The front can be
completed to a text that it takes as a whole, and with the first two characters
of the back it always finds the same fault. -/
structure FaultBetween {α : Type} (reader : List Char → Except LexicalFault α)
    (whole : α → Prop) (fault : LexicalFault)
    (front back : List Char) : Prop where
  completed : ∃ tail result, Replaces (front ++ tail) (front ++ back) ∧
    reader (front ++ tail) = .ok result ∧ whole result
  lasting : ∀ char next rest other, back = char :: next :: rest →
    reader (front ++ char :: next :: other) = .error fault

/-- The reader finds a fault in a text that starts at `offset` as early as it
can. -/
def FoundEarly {α : Type} (reader : List Char → Except LexicalFault α)
    (whole : α → Prop) (offset : Nat) (text : List Char)
    (fault : LexicalFault) : Prop :=
  ∃ front back, text = front ++ back ∧ fault.position = offset + front.length ∧
    FaultBetween reader whole fault front back

namespace FoundEarly

variable {α β : Type} {reader : List Char → Except LexicalFault α}
  {next : List Char → Except LexicalFault β} {whole : α → Prop}
  {nextWhole : β → Prop} {text : List Char} {offset place : Nat}
  {fault : LexicalFault}

/-- Some characters are read before the text in which the fault is found early,
and the result for that text is taken up. -/
theorem behind (lead : List Char) (after : β → Except LexicalFault α)
    (early : FoundEarly next nextWhole place text fault)
    (reached : place = offset + lead.length)
    (read : ∀ other, Replaces other text →
      reader (lead ++ other) = next other >>= after)
    (kept : ∀ result, nextWhole result →
      ∃ final, after result = .ok final ∧ whole final) :
    FoundEarly reader whole offset (lead ++ text) fault := by
  obtain ⟨front, back, rfl, found, ⟨tail, result, replaces, success, taken⟩,
    lasting⟩ := early
  refine ⟨lead ++ front, back, (List.append_assoc ..).symm, ?_, ?_, ?_⟩
  · rw [found, reached, List.length_append, Nat.add_assoc]
  · obtain ⟨final, finished, takenWhole⟩ := kept result taken
    refine ⟨tail, final, ?_, ?_, takenWhole⟩
    · rw [List.append_assoc, List.append_assoc]
      exact replaces.append lead
    · rw [List.append_assoc, read _ replaces, success]
      exact finished
  · rintro char following rest other rfl
    have replaces : Replaces (front ++ char :: following :: other)
        (front ++ char :: following :: rest) :=
      Replaces.append front (.inl rfl)
    rw [List.append_assoc, read _ replaces,
      lasting char following rest other rfl]
    rfl

theorem behind_same {later : List Char → Except LexicalFault α}
    (lead : List Char) (early : FoundEarly later whole place text fault)
    (reached : place = offset + lead.length)
    (read : ∀ other, Replaces other text →
      reader (lead ++ other) = later other) :
    FoundEarly reader whole offset (lead ++ text) fault :=
  early.behind lead .ok reached
    (fun other replaces =>
      (read other replaces).trans (bind_pure (later other)).symm)
    (fun result taken => ⟨result, rfl, taken⟩)

theorem behind_map (lead : List Char) (change : β → α)
    (early : FoundEarly next nextWhole place text fault)
    (reached : place = offset + lead.length)
    (read : ∀ other, Replaces other text →
      reader (lead ++ other) = (next other).map change)
    (kept : ∀ result, nextWhole result → whole (change result)) :
    FoundEarly reader whole offset (lead ++ text) fault :=
  early.behind lead (fun result => .ok (change result)) reached
    (fun other replaces =>
      (read other replaces).trans (map_eq_pure_bind change (next other)))
    (fun result taken => ⟨change result, rfl, kept result taken⟩)

/-- The fault is found at the front of a text, in whose place one could have
stood that is taken as a whole. -/
theorem at_front {tail : List Char} {result : α}
    (place : fault.position = offset) (boundary : Boundary tail)
    (completed : reader tail = .ok result) (taken : whole result)
    (lasting : ∀ char next rest other, text = char :: next :: rest →
      reader (char :: next :: other) = .error fault) :
    FoundEarly reader whole offset text fault :=
  ⟨[], text, rfl, place, ⟨tail, result, .inr boundary, completed, taken⟩,
    lasting⟩

end FoundEarly

/-- A scanner takes a text as a whole when it leaves nothing of it. -/
def Scanned.Whole (scanned : Scanned) : Prop :=
  scanned.rest = []

/-- The scanned characters end where `scanned` says, and the scanner takes them
in the same way from every text in which another replaces what stands behind
them. -/
def Scanned.Exchangeable (scan : List Char → Except LexicalFault Scanned)
    (offset : Nat) (text : List Char) (scanned : Scanned) : Prop :=
  ∃ inside, text = inside ++ scanned.rest ∧
    scanned.stop = offset + (inside.length + 1) ∧
    ∀ other, Replaces other scanned.rest →
      scan (inside ++ other) = .ok { scanned with rest := other }

theorem FoundEarly.behind_prepend
    {reader next : List Char → Except LexicalFault Scanned} {text : List Char}
    {offset place : Nat} {fault : LexicalFault} (lead chars : List Char)
    (early : FoundEarly next Scanned.Whole place text fault)
    (reached : place = offset + lead.length)
    (read : ∀ other, Replaces other text →
      reader (lead ++ other) = (next other).map (·.prepend chars)) :
    FoundEarly reader Scanned.Whole offset (lead ++ text) fault :=
  early.behind_map lead _ reached read fun _ taken => taken

namespace Quoted

variable {mark : Char} {width run offset : Nat} {text : List Char}
  {fault : LexicalFault}

/-- What stands behind a scanned string can be exchanged when it does not add a
mark to the pair of the empty string. -/
theorem scan_exchangeable {scanned : Scanned} (quote : isQuoteMark mark = true)
    (success : scan mark offset text = .ok scanned) :
    scanned.Exchangeable (scan mark offset) offset text := by
  obtain ⟨spells, place⟩ := scan_sound success
  obtain ⟨spelled, split, exchange⟩ := spells.exists_spelled
  have shorter := scan_rest_length success
  rcases List.cons_eq_append_iff.mp split with ⟨rfl, same⟩ | ⟨inside, rfl, rfl⟩
  · rw [same, List.length_cons] at shorter
    omega
  · rw [List.length_append] at place
    refine ⟨inside, rfl, by omega, ?_⟩
    intro other replaces
    have further := exchange other fun empty =>
      replaces.head?_ne quote (Spells.head?_ne_of_empty (empty ▸ spells))
    refine scan_eq_ok_iff.mpr ⟨further, ?_⟩
    simp only [List.length_append]
    omega

theorem scanBody_closes (positive : 0 < width) :
    scanBody mark width 0 offset (List.replicate width mark) =
      .ok ⟨[], offset + width, []⟩ := by
  obtain ⟨count, rfl⟩ : ∃ count, width = count + 1 := ⟨width - 1, by omega⟩
  rw [← List.append_nil (List.replicate _ mark)]
  exact scanBody_close count (Nat.zero_add _)

/-- The backslash of an escape that is not known could have been the first of
two. -/
theorem scanBody_escape_early (notMark : '\\' ≠ mark) (positive : 0 < width)
    (unknown : ∀ letter ∈ text.head?, unescape? letter = none) :
    FoundEarly (scanBody mark width run offset) Scanned.Whole offset
      ('\\' :: text) ⟨.unknownEscape, offset + 1⟩ := by
  have completed :
      scanBody mark width run offset
        ('\\' :: '\\' :: List.replicate width mark) =
        .ok (.prepend (List.replicate run mark ++ ['\\'])
          ⟨[], offset + 2 + width, []⟩) := by
    rw [scanBody_escape notMark rfl, scanBody_closes positive]
    rfl
  refine ⟨['\\'], text, rfl, rfl, ?_, ?_⟩
  · exact ⟨'\\' :: List.replicate width mark, _, .inl rfl, completed, rfl⟩
  · rintro char next rest other rfl
    simp [scanBody, notMark, unknown char rfl]

/-- The scanner of a string's inside finds a fault as early as it can.  The
cases are those of the scanner. -/
theorem scanBody_early (quote : isQuoteMark mark = true) (positive : 0 < width)
    (failed : scanBody mark width run offset text = .error fault) :
    FoundEarly (scanBody mark width run offset) Scanned.Whole offset text
      fault := by
  have notMark : '\\' ≠ mark := ne_of_isQuoteMark quote (by decide)
  fun_induction scanBody mark width run offset text with
  | case1 run offset =>
      cases failed
      -- The blank keeps the closing marks apart from those that are pending.
      have notMark : ' ' ≠ mark := ne_of_isQuoteMark quote (by decide)
      have completed :
          scanBody mark width run offset (' ' :: List.replicate width mark) =
          .ok (.prepend (List.replicate run mark ++ [' '])
            ⟨[], offset + 1 + width, []⟩) := by
        rw [scanBody_plain notMark (by decide), scanBody_closes positive]
        rfl
      refine .at_front rfl ?_ completed rfl ?_
      · exact boundary_cons.mpr (by decide)
      · exact fun _ _ _ _ more => by cases more
  | case2 => cases failed
  | case3 run offset rest opened induction =>
      refine (induction failed).behind_same [mark] rfl ?_
      intro other _
      rw [List.singleton_append, scanBody_mark, if_neg opened]
  | case4 run offset =>
      cases failed
      exact scanBody_escape_early notMark positive
        (fun _ member => by cases member)
  | case5 run offset letter rest unknown =>
      cases failed
      refine scanBody_escape_early notMark positive ?_
      rintro _ ⟨⟩
      exact unknown
  | case6 run offset letter rest decoded known _ induction =>
      have early := induction (Outcome.map_eq_error_iff.mp failed)
      apply early.behind_prepend ['\\', letter]
        (List.replicate run mark ++ [decoded]) rfl
      exact fun other _ => scanBody_escape notMark known
  | case7 run offset char rest notMark notBackslash induction =>
      have early := induction (Outcome.map_eq_error_iff.mp failed)
      apply early.behind_prepend [char] (List.replicate run mark ++ [char]) rfl
      exact fun other _ => scanBody_plain notMark notBackslash

theorem scan_early (quote : isQuoteMark mark = true)
    (failed : scan mark offset text = .error fault) :
    FoundEarly (scan mark offset) Scanned.Whole (offset + 1) text fault := by
  obtain ⟨count, body, rfl, maximal⟩ := exists_run mark text
  rw [scan_run count maximal] at failed
  split at failed
  · cases failed
  · rename_i notTwo
    have early := scanBody_early quote (Nat.succ_pos count) failed
    refine early.behind_same (List.replicate count mark) ?_ ?_
    · rw [List.length_replicate, Nat.add_assoc, Nat.add_comm 1]
    · intro other replaces
      rw [scan_run count (replaces.head?_ne quote maximal), if_neg notTwo]

end Quoted

namespace Term

variable {first : Char} {offset : Nat} {text : List Char} {fault : LexicalFault}

theorem scan_early (failed : scan first offset text = .error fault) :
    FoundEarly (scan first offset) Scanned.Whole (offset + 1) text fault := by
  obtain ⟨run, rest, rfl, bare, boundary | ⟨mark, tail, rfl, quote⟩⟩ :=
    exists_bareRun_boundary_or_mark text
  · rw [scan_bare bare boundary] at failed
    cases failed
  · rw [scan_fused bare quote] at failed
    have early := Quoted.scan_early quote (Outcome.map_eq_error_iff.mp failed)
    rw [List.append_cons]
    refine early.behind_prepend (run ++ [mark]) (first :: run) ?_ ?_
    · simp only [List.length_append, List.length_singleton]
      omega
    · intro other _
      rw [← List.append_cons]
      exact scan_fused bare quote

theorem scan_exchangeable {scanned : Scanned}
    (success : scan first offset text = .ok scanned) :
    scanned.Exchangeable (scan first offset) offset text := by
  obtain ⟨run, rest, rfl, bare, boundary | ⟨mark, tail, rfl, quote⟩⟩ :=
    exists_bareRun_boundary_or_mark text
  · rw [scan_bare bare boundary] at success
    cases success
    exact ⟨run, rfl, rfl, fun other replaces =>
      scan_bare bare (replaces.boundary boundary)⟩
  · rw [scan_fused bare quote] at success
    obtain ⟨inner, innerSuccess, rfl⟩ := Outcome.map_eq_ok_iff.mp success
    obtain ⟨inside, rfl, stop, exchange⟩ :=
      Quoted.scan_exchangeable quote innerSuccess
    refine ⟨run ++ mark :: inside, ?_, ?_, ?_⟩
    · simp
    · simp only [Scanned.prepend_stop, List.length_append, List.length_cons]
      omega
    · intro other replaces
      rw [List.append_assoc, List.cons_append, scan_fused bare quote,
        exchange other replaces]
      rfl

end Term

namespace Token

variable {touching : Bool} {offset : Nat} {text : List Char}
  {fault : LexicalFault}

theorem early_behind_token {next : List Char → Except LexicalFault (List Token)}
    {place : Nat} (lead : List Char) (token : Token)
    (early : FoundEarly next (fun _ => True) place text fault)
    (reached : place = offset + lead.length)
    (read : ∀ other, Replaces other text →
      lexFrom touching offset (lead ++ other) = (next other).map (token :: ·)) :
    FoundEarly (lexFrom touching offset) (fun _ => True) offset (lead ++ text)
      fault :=
  early.behind_map lead _ reached read fun _ _ => trivial

theorem early_at_front {char : Char} (place : fault.position = offset)
    (lasting : ∀ next rest other, text = next :: rest →
      lexFrom touching offset (char :: next :: other) = .error fault) :
    FoundEarly (lexFrom touching offset) (fun _ => True) offset (char :: text)
      fault := by
  refine .at_front place boundary_nil lexFrom_nil trivial ?_
  rintro char next rest other ⟨⟩
  exact lasting next rest other rfl

section

variable {char : Char} {scan : List Char → Except LexicalFault Scanned}
  (symbol : String → Symbol)
  (read : ∀ other, lexFrom touching offset (char :: other) =
    scan other >>= fun scanned =>
      (lexFrom true scanned.stop scanned.rest).map
        (⟨symbol (String.ofList scanned.value), offset⟩ :: ·))

include read

theorem early_of_scan
    (early : FoundEarly scan Scanned.Whole (offset + 1) text fault) :
    FoundEarly (lexFrom touching offset) (fun _ => True) offset (char :: text)
      fault := by
  refine early.behind [char] _ rfl (fun other _ => read other) ?_
  intro scanned taken
  rw [show scanned.rest = [] from taken, lexFrom_nil]
  exact ⟨_, rfl, trivial⟩

theorem early_behind_scan {scanned : Scanned}
    (exchangeable : scanned.Exchangeable scan offset text)
    (early : FoundEarly (lexFrom true scanned.stop) (fun _ => True) scanned.stop
      scanned.rest fault) :
    FoundEarly (lexFrom touching offset) (fun _ => True) offset (char :: text)
      fault := by
  obtain ⟨inside, rfl, stop, exchange⟩ := exchangeable
  refine early_behind_token (char :: inside)
    ⟨symbol (String.ofList scanned.value), offset⟩ early stop ?_
  intro other replaces
  rw [List.cons_append, read, exchange other replaces]
  rfl

end

/-- The lexer finds a fault as early as it can.  The cases are those of the
lexer. -/
theorem lexFrom_early (failed : lexFrom touching offset text = .error fault) :
    FoundEarly (lexFrom touching offset) (fun _ => True) offset text fault := by
  fun_induction lexFrom touching offset text with
  | case1 => cases failed
  | case2 touching offset char rest blank induction =>
      refine (induction failed).behind_same [char] rfl ?_
      exact fun other _ => lexFrom_blank blank
  | case3 touching offset char rest _ symbol control induction =>
      have early := induction (Outcome.map_eq_error_iff.mp failed)
      exact early_behind_token [char] _ early rfl fun other _ =>
        lexFrom_control control
  | case4 touching offset rest feed _ _ induction =>
      obtain ⟨rest, rfl⟩ := List.head?_eq_some_iff.mp feed
      have early := induction (Outcome.map_eq_error_iff.mp failed)
      exact early_behind_token ['\r', '\n'] _ early rfl fun other _ =>
        lexFrom_return
  | case5 touching offset rest lone =>
      cases failed
      refine early_at_front rfl ?_
      rintro next after other rfl
      exact lexFrom_loneReturn lone
  | case6 offset char rest _ _ _ mark =>
      cases failed
      exact early_at_front rfl
        fun next after other _ => by rw [lexFrom_mark mark, if_pos rfl]
  | case7 touching offset char rest _ _ _ mark untouched fault scan =>
      cases failed
      have early := Quoted.scan_early mark scan
      exact early_of_scan .quoted
        (fun other => by rw [lexFrom_mark mark, if_neg untouched]) early
  | case8 touching offset char rest _ _ _ mark untouched scanned scan
      induction =>
      have early := induction (Outcome.map_eq_error_iff.mp failed)
      have exchangeable := Quoted.scan_exchangeable mark scan
      exact early_behind_scan .quoted
        (fun other => by rw [lexFrom_mark mark, if_neg untouched])
        exchangeable early
  | case9 offset char rest _ _ _ _ bare =>
      cases failed
      exact early_at_front rfl
        fun next after other _ => by rw [lexFrom_bare bare, if_pos rfl]
  | case10 touching offset char rest _ _ _ _ bare untouched fault scan =>
      cases failed
      have early := Term.scan_early scan
      exact early_of_scan .ofTerm
        (fun other => by rw [lexFrom_bare bare, if_neg untouched]) early
  | case11 touching offset char rest _ _ _ _ bare untouched scanned scan
      induction =>
      have early := induction (Outcome.map_eq_error_iff.mp failed)
      have exchangeable := Term.scan_exchangeable scan
      exact early_behind_scan .ofTerm
        (fun other => by rw [lexFrom_bare bare, if_neg untouched])
        exchangeable early
  | case12 touching offset char rest notBlank plain notReturn notMark notBare =>
      cases failed
      apply early_at_front rfl
      intro next after other _
      exact lexFrom_strayChar notBlank plain notReturn notMark notBare

theorem ofText_eq_error_iff {text : String} {error : Error} :
    ofText text = .error error ↔
      ∃ fault, lex text.toList = .error fault ∧
        error = .ofLexicalFault text.toList fault := by
  rw [ofText]
  cases lex text.toList with
  | error fault => simp [eq_comm]
  | ok tokens => simp

/-- A text that cannot be read has an earliest fault, and that is the one
reported.  The characters before it start some text that can be read.  When
another character follows the one at the fault, every text that starts with the
characters up to and including that one has the same fault at the same
offset. -/
theorem ofText_earliest_fault {text : String} {error : Error}
    (failed : ofText text = .error error) :
    ∃ fault : LexicalFault, error = .ofLexicalFault text.toList fault ∧
      (∃ (completed : String) (tokens : List Token),
        text.toList.take fault.position <+: completed.toList ∧
          ofText completed = .ok tokens) ∧
      (fault.position + 1 < text.toList.length → ∀ other : String,
        text.toList.take (fault.position + 2) <+: other.toList →
          ofText other = .error (.ofLexicalFault other.toList fault)) := by
  obtain ⟨fault, found, rfl⟩ := ofText_eq_error_iff.mp failed
  obtain ⟨front, back, whole, place, ⟨tail, tokens, _, success, _⟩, lasting⟩ :=
    lexFrom_early found
  rw [Nat.zero_add] at place
  refine ⟨fault, rfl,
    ⟨String.ofList (front ++ tail), Continuation.cancel tokens, ?_, ?_⟩, ?_⟩
  · rw [whole, place, List.take_left, String.toList_ofList]
    exact List.prefix_append front tail
  · rw [ofText, String.toList_ofList, lex, success]
  · rw [whole, place, List.length_append, Nat.add_lt_add_iff_left]
    rintro more other ⟨rest, starts⟩
    rcases back with _ | ⟨char, _ | ⟨next, after⟩⟩
    · simp at more
    · simp at more
    · rw [List.take_length_add_append, List.append_assoc] at starts
      refine ofText_eq_error_iff.mpr ⟨fault, ?_, rfl⟩
      rw [← starts]
      exact lasting char next after rest rfl

/-- Behind an escape that is not known, nothing can make the string readable,
but with another letter it could have been. -/
theorem ofText_earliest_fault_escape :
    (∃ (completed : String) (tokens : List Token),
      "a 'b\\".toList <+: completed.toList ∧ ofText completed = .ok tokens) ∧
    ∀ other : String, "a 'b\\qc".toList <+: other.toList →
      ofText other =
        .error (.ofLexicalFault other.toList ⟨.unknownEscape, 5⟩) := by
  have failed : ofText "a 'b\\qc' d" =
      .error (.ofLexicalFault "a 'b\\qc' d".toList ⟨.unknownEscape, 5⟩) := by
    decide +kernel
  obtain ⟨⟨reason, position⟩, found, completed, lasting⟩ :=
    ofText_earliest_fault failed
  obtain ⟨rfl, place, _⟩ := Error.lexical.inj found
  obtain rfl : 5 = position := Int.ofNat.inj place
  exact ⟨completed, lasting (by decide)⟩

end Token

end CommandScript
