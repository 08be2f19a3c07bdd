import CommandScript.Proofs.LexemeGrammar
import CommandScript.Spelling.Quote

/-!
# Quoted texts read back

Whatever a text holds, the writer finds a way to quote it that spells out this
text and nothing else.  If some mark does not occur in the text, a single one on
each side will do.  Otherwise three marks delimit it, and no three of them may
stand together inside.  Breaking them up from the left leaves at most two in a
row before any other character, and the mark is chosen so that none stands next
to a delimiter.
-/

namespace CommandScript

namespace Spelling

variable {escapeBreaks : Bool} {mark char : Char} {text rest : List Char}

theorem escapeChar_of_isQuoteMark (quote : isQuoteMark mark = true) :
    escapeChar escapeBreaks mark = [mark] := by
  rcases (isQuoteMark_iff mark).mp quote with rfl | rfl | rfl <;>
    simp [escapeChar]

theorem escapeChar_cases (escapeBreaks : Bool) (char : Char) :
    escapeChar escapeBreaks char = [char] ∧ char ≠ '\\' ∨
      ∃ letter ∈ ['\\', 'r', 'n'],
        escapeChar escapeBreaks char = ['\\', letter] ∧
        Quoted.unescape? letter = some char := by
  unfold escapeChar
  split
  · rename_i backslash
    subst char
    right
    exact ⟨'\\', by simp, rfl, rfl⟩
  · rename_i notBackslash
    split
    · rename_i carriage
      obtain ⟨-, rfl⟩ : escapeBreaks = true ∧ char = '\r' := by
        simpa using carriage
      right
      exact ⟨'r', by simp, rfl, rfl⟩
    · split
      · rename_i feed
        obtain ⟨-, rfl⟩ : escapeBreaks = true ∧ char = '\n' := by
          simpa using feed
        right
        exact ⟨'n', by simp, rfl, rfl⟩
      · left
        exact ⟨rfl, notBackslash⟩

theorem ne_of_mem_escapeChar (quote : isQuoteMark mark = true)
    (other : char ≠ mark) {written : Char}
    (member : written ∈ escapeChar escapeBreaks char) :
    written ≠ mark := by
  rcases escapeChar_cases escapeBreaks char with
    ⟨plain, -⟩ | ⟨letter, known, escaped, -⟩
  · rw [plain, List.mem_singleton] at member
    rw [member]
    exact other
  · rw [escaped] at member
    simp only [List.mem_cons, List.not_mem_nil, or_false] at member known
    apply ne_of_isQuoteMark quote
    rcases member with rfl | rfl
    · rfl
    · rcases known with rfl | rfl | rfl <;> rfl

theorem escapeChar_ne_nil : escapeChar escapeBreaks char ≠ [] := by
  rcases escapeChar_cases escapeBreaks char with
    ⟨plain, -⟩ | ⟨letter, -, escaped, -⟩
  · rw [plain]
    exact List.cons_ne_nil _ _
  · rw [escaped]
    exact List.cons_ne_nil _ _

theorem escape_cons (char : Char) (text : List Char) :
    escape escapeBreaks (char :: text) =
      escapeChar escapeBreaks char ++ escape escapeBreaks text :=
  List.flatMap_cons

theorem escape_append (text rest : List Char) :
    escape escapeBreaks (text ++ rest) =
      escape escapeBreaks text ++ escape escapeBreaks rest :=
  List.flatMap_append

theorem escape_replicate_mark (quote : isQuoteMark mark = true) (count : Nat) :
    escape escapeBreaks (List.replicate count mark) =
      List.replicate count mark := by
  induction count with
  | zero => rfl
  | succ count induction =>
      rw [List.replicate_succ, escape_cons, escapeChar_of_isQuoteMark quote,
        induction]
      rfl

theorem mark_mem_escape (quote : isQuoteMark mark = true)
    (member : mark ∈ text) :
    mark ∈ escape escapeBreaks text := by
  refine List.mem_flatMap.mpr ⟨mark, member, ?_⟩
  rw [escapeChar_of_isQuoteMark quote]
  exact List.mem_singleton_self mark

theorem head?_escape_ne (quote : isQuoteMark mark = true)
    (apart : text.head? ≠ some mark) :
    (escape escapeBreaks text).head? ≠ some mark := by
  cases text with
  | nil => exact apart
  | cons char text =>
      have other : char ≠ mark := by simpa using apart
      intro first
      rw [escape_cons, List.head?_append_of_ne_nil _ escapeChar_ne_nil] at first
      exact ne_of_mem_escapeChar quote other (List.mem_of_mem_head? first) rfl

theorem head?_ne_of_escape (quote : isQuoteMark mark = true)
    (apart : (escape escapeBreaks text).head? ≠ some mark) :
    text.head? ≠ some mark := by
  intro first
  obtain ⟨text, rfl⟩ := List.head?_eq_some_iff.mp first
  rw [escape_cons, escapeChar_of_isQuoteMark quote] at apart
  exact apart rfl

theorem getLast?_ne_of_escape (quote : isQuoteMark mark = true)
    (apart : (escape escapeBreaks text).getLast? ≠ some mark) :
    text.getLast? ≠ some mark := by
  intro last
  obtain ⟨text, rfl⟩ := List.getLast?_eq_some_iff.mp last
  rw [escape_append, escape_cons, escapeChar_of_isQuoteMark quote] at apart
  exact apart (by simp [escape])

theorem breakTriples_cons (notMark : char ≠ mark) (text : List Char) :
    breakTriples mark (char :: text) = char :: breakTriples mark text := by
  match text with
  | [] | [_] => rfl
  | second :: third :: text => simp [breakTriples, notMark]

theorem breakTriples_append (notMarks : ∀ char ∈ text, char ≠ mark)
    (rest : List Char) :
    breakTriples mark (text ++ rest) = text ++ breakTriples mark rest := by
  induction text with
  | nil => rfl
  | cons char text induction =>
      obtain ⟨first, others⟩ := List.forall_mem_cons.mp notMarks
      rw [List.cons_append, breakTriples_cons first, induction others]
      rfl

theorem breakTriples_triple (text : List Char) :
    breakTriples mark (mark :: mark :: mark :: text) =
      mark :: mark :: '\\' :: mark :: breakTriples mark text := by
  simp [breakTriples]

theorem breakTriples_mark (apart : text.head? ≠ some mark) :
    breakTriples mark (mark :: text) = mark :: breakTriples mark text := by
  match text with
  | [] | [_] => rfl
  | second :: third :: text =>
      have notMark : second ≠ mark := by simpa using apart
      simp [breakTriples, notMark]

/-- A run of less than three marks is left as it is. -/
theorem breakTriples_run {count : Nat} (few : count < 3)
    (apart : text.head? ≠ some mark) :
    breakTriples mark (List.replicate count mark ++ text) =
      List.replicate count mark ++ breakTriples mark text := by
  match count, few with
  | 0, _ => rfl
  | 1, _ => exact breakTriples_mark apart
  | 2, _ =>
      have single := breakTriples_mark apart
      match text with
      | [] => rfl
      | third :: text =>
          have notMark : third ≠ mark := by simpa using apart
          change breakTriples mark (mark :: mark :: third :: text) = _
          rw [breakTriples]
          simp [notMark, single]

/-- Texts are built from single other characters, triples of the mark, and runs
of one or two marks that another character ends. -/
theorem markRuns_induction {motive : List Char → Prop} (mark : Char)
    (nil : motive [])
    (plain : ∀ char text, char ≠ mark → motive text → motive (char :: text))
    (triple : ∀ text, motive text → motive (mark :: mark :: mark :: text))
    (few : ∀ count text, 0 < count → count < 3 → text.head? ≠ some mark →
      motive text → motive (List.replicate count mark ++ text))
    (text : List Char) : motive text := by
  match text with
  | [] => exact nil
  | char :: text =>
      by_cases same : char = mark
      · subst char
        obtain ⟨count, rest, whole, apart⟩ := Quoted.exists_run mark text
        rw [whole]
        match count with
        | 0 =>
            exact few 1 rest (by decide) (by decide) apart
              (markRuns_induction mark nil plain triple few rest)
        | 1 =>
            exact few 2 rest (by decide) (by decide) apart
              (markRuns_induction mark nil plain triple few rest)
        | count + 2 =>
            exact triple _ (markRuns_induction mark nil plain triple few
              (List.replicate count mark ++ rest))
      · exact plain char text same
          (markRuns_induction mark nil plain triple few text)
termination_by text.length
decreasing_by
  · simp only [whole, List.length_cons, List.length_append,
      List.length_replicate]
    omega
  · simp only [whole, List.length_cons, List.length_append,
      List.length_replicate]
    omega
  · simp only [whole, List.length_cons, List.length_append,
      List.length_replicate]
    omega
  · simp only [List.length_cons]
    omega

open Quoted (Body)

theorem body_escapeChar {width : Nat} {value : List Char}
    (quote : isQuoteMark mark = true) (other : char ≠ mark)
    (body : Body mark width text value rest) :
    Body mark width (escapeChar escapeBreaks char ++ text) (char :: value)
      rest := by
  have notMark : '\\' ≠ mark := ne_of_isQuoteMark quote rfl
  rcases escapeChar_cases escapeBreaks char with
    ⟨plain, notBackslash⟩ | ⟨letter, -, escaped, known⟩
  · rw [plain]
    exact .plain other notBackslash body
  · rw [escaped]
    exact .escape notMark known body

/-- A text without the mark can stand between single marks. -/
theorem body_single (quote : isQuoteMark mark = true) (absent : mark ∉ text) :
    Body mark 1 (escape escapeBreaks text ++ [mark]) text [] := by
  induction text with
  | nil => exact .close []
  | cons char text induction =>
      obtain ⟨other, others⟩ : mark ≠ char ∧ mark ∉ text := by
        simpa using absent
      rw [escape_cons, List.append_assoc]
      exact body_escapeChar quote (Ne.symm other) (induction others)

/-- A text that does not end with the mark can stand between triples of it, once
the triples inside are broken up. -/
theorem body_triple (quote : isQuoteMark mark = true)
    (last : text.getLast? ≠ some mark) :
    Body mark 3 (breakTriples mark (escape escapeBreaks text) ++
      List.replicate 3 mark) text [] := by
  have notMark : '\\' ≠ mark := ne_of_isQuoteMark quote rfl
  have itself : Quoted.unescape? mark = some mark := by
    rcases (isQuoteMark_iff mark).mp quote with rfl | rfl | rfl <;> rfl
  induction text using markRuns_induction mark with
  | nil => exact .close []
  | plain char text other induction =>
      have lastLater : text.getLast? ≠ some mark := by
        intro later
        exact last (by rw [List.getLast?_cons, later]; rfl)
      have written : ∀ written ∈ escapeChar escapeBreaks char, written ≠ mark :=
        fun _ member => ne_of_mem_escapeChar quote other member
      rw [escape_cons, breakTriples_append written, List.append_assoc]
      exact body_escapeChar quote other (induction lastLater)
  | triple text induction =>
      have lastLater : text.getLast? ≠ some mark := by
        intro later
        exact last (by simp [List.getLast?_cons, later])
      have broken := Body.escape notMark itself (induction lastLater)
      have pending :=
        @Body.pending mark 3 2 _ _ _ (by decide) (by simpa using notMark) broken
      rw [escape_cons, escape_cons, escape_cons,
        escapeChar_of_isQuoteMark quote]
      change Body mark 3 (breakTriples mark (mark :: mark :: mark ::
        escape escapeBreaks text) ++ _) _ _
      rw [breakTriples_triple]
      exact pending
  | few count text positive few apart induction =>
      cases text with
      | nil =>
          obtain ⟨count, rfl⟩ : ∃ before, count = before + 1 :=
            ⟨count - 1, by omega⟩
          exact absurd (by simp [List.replicate_succ']) last
      | cons char text =>
          have lastLater : (char :: text).getLast? ≠ some mark := by
            intro later
            exact last (by simp [later])
          have other : char ≠ mark := by simpa using apart
          have body := induction lastLater
          have apartWritten : (escape escapeBreaks (char :: text)).head? ≠
              some mark := head?_escape_ne quote apart
          rw [escape_append, escape_replicate_mark quote,
            breakTriples_run few apartWritten, List.append_assoc]
          refine Body.pending few ?_ body
          have written : ∀ written ∈ escapeChar escapeBreaks char,
              written ≠ mark :=
            fun _ member => ne_of_mem_escapeChar quote other member
          rw [escape_cons, breakTriples_append written, List.append_assoc,
            List.head?_append_of_ne_nil _ escapeChar_ne_nil]
          intro first
          exact written mark (List.mem_of_mem_head? first) rfl

theorem isQuoteMark_tripleMark (text : List Char) :
    isQuoteMark (tripleMark text) = true := by
  unfold tripleMark
  cases found : ['"', '\''].find? fun mark =>
      text.head? != some mark && text.getLast? != some mark with
  | none => rfl
  | some mark =>
      have member := List.mem_of_find?_eq_some found
      simp only [List.mem_cons, List.not_mem_nil, or_false] at member
      rcases member with rfl | rfl <;> rfl

/-- A text that starts and ends with the other two marks leaves the backquote,
so neither of its ends is the mark that is chosen. -/
theorem ends_ne_tripleMark (text : List Char) :
    text.head? ≠ some (tripleMark text) ∧
      text.getLast? ≠ some (tripleMark text) := by
  unfold tripleMark
  cases found : ['"', '\''].find? fun mark =>
      text.head? != some mark && text.getLast? != some mark with
  | none =>
      have taken := List.find?_eq_none.mp found
      have double := taken '"' (by simp)
      have single := taken '\'' (by simp)
      simp only [bne_iff_ne, Bool.and_eq_true, not_and_or,
        not_not] at double single
      constructor
      · intro first
        simp only [Option.getD_none] at first
        simp_all
      · intro last
        simp only [Option.getD_none] at last
        simp_all
  | some mark =>
      have free := List.find?_some found
      simpa using free

theorem absentMark?_some (found : absentMark? text = some mark) :
    isQuoteMark mark = true ∧ mark ∉ text := by
  constructor
  · have member := List.mem_of_find?_eq_some found
    simp only [preferredMarks, List.mem_cons, List.not_mem_nil,
      or_false] at member
    rcases member with rfl | rfl | rfl <;> rfl
  · have free := List.find?_some found
    simpa using free

theorem head?_breakTriples (text : List Char) :
    (breakTriples mark text).head? = text.head? := by
  match text with
  | [] | [_] | [_, _] => rfl
  | first :: second :: third :: text =>
      rw [breakTriples]
      split
      · rename_i triple
        rw [triple.1]
        rfl
      · rfl

theorem escape_ne_nil (nonempty : text ≠ []) :
    escape escapeBreaks text ≠ [] := by
  obtain ⟨char, text, rfl⟩ := List.exists_cons_of_ne_nil nonempty
  rw [escape_cons]
  exact List.append_ne_nil_of_left_ne_nil escapeChar_ne_nil _

theorem quoteChars_single
    (found : absentMark? (escape escapeBreaks text) = some mark) :
    quoteChars escapeBreaks text = [mark] ++ escape escapeBreaks text ++
      [mark] := by
  simp [quoteChars, found]

theorem quoteChars_triple
    (found : absentMark? (escape escapeBreaks text) = none)
    (chosen : tripleMark (escape escapeBreaks text) = mark) :
    quoteChars escapeBreaks text = List.replicate 3 mark ++
      breakTriples mark (escape escapeBreaks text) ++
        List.replicate 3 mark := by
  simp [quoteChars, found, chosen]

theorem spells_single (quote : isQuoteMark mark = true) (absent : mark ∉ text) :
    Quoted.Spells mark ([mark] ++ escape escapeBreaks text ++ [mark]) text
      [] := by
  cases text with
  | nil => exact .empty (by simp)
  | cons char text =>
      have apart : (char :: text).head? ≠ some mark := by
        intro first
        exact absent (List.mem_of_mem_head? first)
      rw [List.append_assoc]
      refine .delimited Nat.one_pos (by decide) ?_ (body_single quote absent)
      rw [List.head?_append_of_ne_nil _ (escape_ne_nil (List.cons_ne_nil _ _))]
      exact head?_escape_ne quote apart

theorem spells_triple (quote : isQuoteMark mark = true) (nonempty : text ≠ [])
    (first : text.head? ≠ some mark) (last : text.getLast? ≠ some mark) :
    Quoted.Spells mark
      (List.replicate 3 mark ++ breakTriples mark (escape escapeBreaks text) ++
        List.replicate 3 mark) text [] := by
  have same : (breakTriples mark (escape escapeBreaks text)).head? = _ :=
    head?_breakTriples _
  have broken : breakTriples mark (escape escapeBreaks text) ≠ [] := by
    intro empty
    rw [empty] at same
    exact escape_ne_nil nonempty (List.head?_eq_none_iff.mp same.symm)
  rw [List.append_assoc]
  refine .delimited (by decide) (by decide) ?_ (body_triple quote last)
  rw [List.head?_append_of_ne_nil _ broken, same]
  exact head?_escape_ne quote first

/-- A text between quote marks is a quoted string for that text. -/
theorem spells_quoteChars (escapeBreaks : Bool) (text : List Char) :
    ∃ mark, isQuoteMark mark = true ∧
      Quoted.Spells mark (quoteChars escapeBreaks text) text [] := by
  cases found : absentMark? (escape escapeBreaks text) with
  | some mark =>
      obtain ⟨quote, absent⟩ := absentMark?_some found
      refine ⟨mark, quote, ?_⟩
      rw [quoteChars_single found]
      exact spells_single quote fun member =>
        absent (mark_mem_escape quote member)
  | none =>
      have nonempty : text ≠ [] := by
        rintro rfl
        cases found
      have quote := isQuoteMark_tripleMark (escape escapeBreaks text)
      obtain ⟨first, last⟩ := ends_ne_tripleMark (escape escapeBreaks text)
      refine ⟨_, quote, ?_⟩
      rw [quoteChars_triple found rfl]
      exact spells_triple quote nonempty (head?_ne_of_escape quote first)
        (getLast?_ne_of_escape quote last)

theorem precedes_quoteChars (escapeBreaks : Bool) (text : List Char) :
    Quotation.Precedes [] ⟨quoteChars escapeBreaks text, text⟩ := by
  obtain ⟨mark, quote, spells⟩ := spells_quoteChars escapeBreaks text
  exact ⟨mark, quote, by rwa [List.append_nil]⟩

end Spelling

end CommandScript
