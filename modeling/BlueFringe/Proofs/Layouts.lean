import BlueFringe.Proofs.Blanks
import BlueFringe.Proofs.Traversals
import BlueFringe.Sample

/-!
# Layouts of samples

The same traces can be laid out in many ways: with blanks around the lines and between the labels,
with blank lines and with comments. Reading finds the traces of every layout. It fails at the first
line that is neither ignored nor starts with a sign, and at no other text.
-/

namespace BlueFringe

open Text

/-- What a trace is written with in front of its labels. -/
def Outcome.sign : Outcome → Char
  | .accept => '+'
  | .reject => '-'

namespace Sample

/-- The line starts with this character, apart from blanks. -/
def OpensWith (c : Char) (line : List Char) : Prop :=
  ∃ lead rest, line = lead ++ c :: rest ∧ AllBlank lead

/-- The line is blank or a comment. -/
def Ignored (line : List Char) : Prop := AllBlank line ∨ OpensWith '#' line

/-- The line is the sign of the trace and its labels, with blanks in front and between them. -/
def Spells (trace : Trace String) (line : List Char) : Prop :=
  ∃ lead rest, line = lead ++ trace.outcome.sign :: rest ∧ AllBlank lead ∧
    Spaced (trace.word.map String.toList) rest

/-- The line counts, but it starts with neither sign. -/
def Stray (line : List Char) : Prop :=
  ¬ Ignored line ∧ ¬ OpensWith '+' line ∧ ¬ OpensWith '-' line

/-- The lines spell these traces in order, with ignored lines anywhere between them. -/
inductive Layout : List (Trace String) → List (List Char) → Prop where
  | done : Layout [] []
  | ignored {traces : List (Trace String)} {line : List Char} {lines : List (List Char)} :
      Ignored line → Layout traces lines → Layout traces (line :: lines)
  | spelled {trace : Trace String} {traces : List (Trace String)} {line : List Char}
      {lines : List (List Char)} :
      Spells trace line → Layout traces lines → Layout (trace :: traces) (line :: lines)

variable {line : List Char} {lines : List (List Char)} {trace : Trace String}
  {traces : List (Trace String)} {c : Char} {e : LineError} {text : String}

/-! ### One line -/

/-- What a line adds to the sample. -/
def readLine (line : List Char) : Except LineError (Option (Trace String)) :=
  if isTraceLine (trim line) then some <$> Trace.ofTrimmed (trim line) else .ok none

theorem exists_trim_eq (opens : OpensWith c line) (first : isBlank c = false) :
    ∃ body, trim line = c :: body := by
  obtain ⟨lead, rest, rfl, blank⟩ := opens
  obtain ⟨body, _, _, _, trimmed⟩ := exists_trimmed_cons blank first rest
  exact ⟨body, trim_of_trimmed trimmed⟩

theorem readLine_of_ignored (ignored : Ignored line) : readLine line = .ok none := by
  rcases ignored with blank | comment
  · rw [readLine, trim_of_trimmed blank.trimmed]
    rfl
  · obtain ⟨body, trimmed⟩ := exists_trim_eq comment (by decide)
    rw [readLine, trimmed]
    rfl

theorem readLine_of_spells (spells : Spells trace line) : readLine line = .ok (some trace) := by
  obtain ⟨word, outcome⟩ := trace
  obtain ⟨lead, rest, rfl, blank, spaced⟩ := spells
  have first : isBlank outcome.sign = false := by cases outcome <;> decide
  obtain ⟨body, trail, rfl, back, trimmed⟩ := exists_trimmed_cons blank first rest
  have labels : Trace.labelsOf body = word := by
    have found := fields_of_spaced spaced
    rw [fields_trail back] at found
    rw [Trace.labelsOf, found, List.map_map]
    simp [Function.comp_def]
  rw [readLine, trim_of_trimmed trimmed, ← labels]
  cases outcome <;> rfl

theorem readLine_of_stray (stray : Stray line) :
    readLine line = .error (.missingOutcome (String.ofList (trim line))) := by
  obtain ⟨counts, positive, negative⟩ := stray
  rcases allBlank_or_exists line with blank | ⟨lead, c, rest, rfl, blank, first⟩
  · exact absurd (.inl blank) counts
  · obtain ⟨body, _, _, _, trimmed⟩ := exists_trimmed_cons blank first rest
    have opens : OpensWith c (lead ++ c :: rest) := ⟨lead, rest, rfl, blank⟩
    have comment : c ≠ '#' := fun same => counts (.inr (same ▸ opens))
    have plus : c ≠ '+' := fun same => positive (same ▸ opens)
    have minus : c ≠ '-' := fun same => negative (same ▸ opens)
    rw [readLine, trim_of_trimmed trimmed]
    simp [isTraceLine, Trace.ofTrimmed, comment, plus, minus]

/-- Every line is of one of three kinds. -/
theorem line_cases (line : List Char) :
    Ignored line ∨ (∃ trace, Spells trace line) ∨ Stray line := by
  have spelled : ∀ outcome : Outcome, OpensWith outcome.sign line → ∃ trace, Spells trace line := by
    rintro outcome ⟨lead, rest, rfl, blank⟩
    refine ⟨⟨(fields rest).map String.ofList, outcome⟩, lead, rest, rfl, blank, ?_⟩
    simpa [Function.comp_def] using fields_eq_iff.mp rfl
  by_cases ignored : Ignored line
  · exact .inl ignored
  · by_cases positive : OpensWith '+' line
    · exact .inr (.inl (spelled .accept positive))
    · by_cases negative : OpensWith '-' line
      · exact .inr (.inl (spelled .reject negative))
      · exact .inr (.inr ⟨ignored, positive, negative⟩)

theorem readLine_eq_none : readLine line = .ok none ↔ Ignored line := by
  refine ⟨fun nothing => ?_, readLine_of_ignored⟩
  rcases line_cases line with ignored | ⟨trace, spells⟩ | stray
  · exact ignored
  · cases nothing.symm.trans (readLine_of_spells spells)
  · cases nothing.symm.trans (readLine_of_stray stray)

theorem readLine_eq_some : readLine line = .ok (some trace) ↔ Spells trace line := by
  refine ⟨fun found => ?_, readLine_of_spells⟩
  rcases line_cases line with ignored | ⟨trace', spells⟩ | stray
  · cases found.symm.trans (readLine_of_ignored ignored)
  · cases found.symm.trans (readLine_of_spells spells)
    exact spells
  · cases found.symm.trans (readLine_of_stray stray)

theorem readLine_eq_error : readLine line = .error e ↔
    Stray line ∧ ∃ core, Trimmed line core ∧ e = .missingOutcome (String.ofList core) := by
  constructor
  · intro failed
    rcases line_cases line with ignored | ⟨trace, spells⟩ | stray
    · cases failed.symm.trans (readLine_of_ignored ignored)
    · cases failed.symm.trans (readLine_of_spells spells)
    · cases failed.symm.trans (readLine_of_stray stray)
      exact ⟨stray, trim line, trim_eq_iff.mp rfl, rfl⟩
  · rintro ⟨stray, core, trimmed, rfl⟩
    rw [readLine_of_stray stray, trim_of_trimmed trimmed]

/-! ### All lines -/

/-- The traces of the lines that count. -/
def readLines (lines : List (List Char)) : Except LineError (List (Trace String)) :=
  ((lines.map trim).filter isTraceLine).mapM Trace.ofTrimmed

theorem readLines_cons : readLines (line :: lines) = (readLine line >>= fun found =>
    readLines lines >>= fun rest => .ok (found.toList ++ rest)) := by
  unfold readLines readLine
  rw [List.map_cons, List.filter_cons]
  split
  · rw [List.mapM_cons]
    cases Trace.ofTrimmed (trim line) <;> rfl
  · cases ((lines.map trim).filter isTraceLine).mapM Trace.ofTrimmed <;> rfl

theorem readLines_eq_ok : readLines lines = .ok traces ↔ Layout traces lines := by
  induction lines generalizing traces with
  | nil =>
      constructor
      · intro read
        cases read
        exact .done
      · intro layout
        cases layout
        rfl
  | cons line lines ih =>
      rw [readLines_cons, bind_eq_ok]
      constructor
      · rintro ⟨found, read, made⟩
        obtain ⟨rest, read', made⟩ := bind_eq_ok.mp made
        cases made
        cases found with
        | none => exact .ignored (readLine_eq_none.mp read) (ih.mp read')
        | some trace => exact .spelled (readLine_eq_some.mp read) (ih.mp read')
      · intro layout
        cases layout with
        | ignored ignored rest =>
            exact ⟨none, readLine_of_ignored ignored, bind_eq_ok.mpr ⟨_, ih.mpr rest, rfl⟩⟩
        | spelled spells rest =>
            exact ⟨some _, readLine_of_spells spells, bind_eq_ok.mpr ⟨_, ih.mpr rest, rfl⟩⟩

/-- Lines are read up to the first one that fails. -/
theorem readLines_eq_error : readLines lines = .error e ↔
    ∃ before line after, lines = before ++ line :: after ∧ (∀ l ∈ before, ¬ Stray l) ∧
      readLine line = .error e := by
  induction lines with
  | nil => exact iff_of_false nofun (by simp)
  | cons line lines ih =>
      rw [readLines_cons, exists_first_cons, ← ih]
      cases read : readLine line with
      | error e' =>
          have stray : Stray line := (readLine_eq_error.mp read).1
          rw [or_iff_left fun later => later.1 stray]
          simp [bind, Except.bind]
      | ok found =>
          have calm : ¬ Stray line :=
            fun stray => by cases read.symm.trans (readLine_of_stray stray)
          rw [or_iff_right nofun, and_iff_right calm]
          cases readLines lines <;> simp [bind, Except.bind]

theorem Layout.not_stray (layout : Layout traces lines) : ∀ line ∈ lines, ¬ Stray line := by
  induction layout with
  | done => simp
  | ignored ignored _ ih => exact List.forall_mem_cons.mpr ⟨fun stray => stray.1 ignored, ih⟩
  | spelled spells _ ih =>
      refine List.forall_mem_cons.mpr ⟨fun stray => ?_, ih⟩
      cases (readLine_of_stray stray).symm.trans (readLine_of_spells spells)

theorem ofText_eq (joins : Joins lines text.toList) :
    ofText text = (readLines lines >>= fun traces => .ok ⟨traces⟩) := by
  rw [← lines_eq_iff.mpr joins]
  rfl

/-- A text is read as some traces just if its lines are a layout of them. It is not read at all just
if some line neither is ignored nor starts with a sign, and the error shows the first such line
without the blanks around it. -/
theorem reading_exact (text : String) (lines : List (List Char))
    (joins : Joins lines text.toList) :
    (∀ traces, ofText text = .ok ⟨traces⟩ ↔ Layout traces lines) ∧
      ((∃ e, ofText text = .error e) ↔ ∃ line ∈ lines, Stray line) ∧
      ∀ e, ofText text = .error e ↔ ∃ before line after core,
        lines = before ++ line :: after ∧ (∀ l ∈ before, ¬ Stray l) ∧ Stray line ∧
          Trimmed line core ∧ e = .missingOutcome (String.ofList core) := by
  have whole : ∀ traces, ofText text = .ok ⟨traces⟩ ↔ Layout traces lines := by
    intro traces
    rw [ofText_eq joins, bind_eq_ok, ← readLines_eq_ok]
    simp
  have first : ∀ e, ofText text = .error e ↔ readLines lines = .error e := by
    intro e
    rw [ofText_eq joins]
    cases readLines lines <;> simp [bind, Except.bind]
  refine ⟨whole, ⟨?_, ?_⟩, fun e => ?_⟩
  · rintro ⟨e, failed⟩
    obtain ⟨before, line, after, rfl, _, failed⟩ := readLines_eq_error.mp ((first e).mp failed)
    exact ⟨line, by simp, (readLine_eq_error.mp failed).1⟩
  · rintro ⟨line, mem, stray⟩
    cases read : ofText text with
    | error e => exact ⟨e, rfl⟩
    | ok s => exact absurd stray (((whole s.traces).mp read).not_stray line mem)
  · rw [first, readLines_eq_error]
    simp only [readLine_eq_error]
    constructor
    · rintro ⟨before, line, after, split, calm, stray, core, trimmed, same⟩
      exact ⟨before, line, after, core, split, calm, stray, trimmed, same⟩
    · rintro ⟨before, line, after, core, split, calm, stray, trimmed, same⟩
      exact ⟨before, line, after, split, calm, stray, core, trimmed, same⟩

/-- A comment, a blank line, and two traces with blanks of several kinds. -/
def diary : List (List Char) :=
  [['#', ' ', '+', 'a'], ['\t'], [' ', '+', 'a', '\u3000', '#', 'b', '\r'],
    ['-', '\u2028', '+', ' ', ' ', 'a']]

theorem diary_read :
    let text := String.ofList (['\n'].intercalate diary)
    let torn := String.ofList (['\n'].intercalate (diary ++ [[' ', 'a', ' '], ['b']]))
    Layout [.accepted ["a", "#b"], .rejected ["+", "a"]] diary ∧
      ofText text = .ok ⟨[.accepted ["a", "#b"], .rejected ["+", "a"]]⟩ ∧
      ofText torn = .error (.missingOutcome "a") := by
  intro text torn
  have joins : Joins diary text.toList := ⟨by decide, by decide, String.toList_ofList.symm⟩
  have joins' : Joins (diary ++ [[' ', 'a', ' '], ['b']]) torn.toList :=
    ⟨by decide, by decide, String.toList_ofList.symm⟩
  obtain ⟨reads, _, _⟩ := reading_exact text diary joins
  obtain ⟨_, _, fails⟩ := reading_exact torn _ joins'
  have layout : Layout [.accepted ["a", "#b"], .rejected ["+", "a"]] diary :=
    readLines_eq_ok.mp (by decide +kernel)
  have stray : Stray [' ', 'a', ' '] ∧ ∃ core, Trimmed [' ', 'a', ' '] core ∧
      LineError.missingOutcome "a" = .missingOutcome (String.ofList core) :=
    readLine_eq_error.mp (by decide +kernel)
  obtain ⟨stray, core, trimmed, shown⟩ := stray
  refine ⟨layout, (reads _).mpr layout, (fails _).mpr ?_⟩
  exact ⟨diary, _, [['b']], core, rfl, layout.not_stray, stray, trimmed, shown⟩

end Sample

end BlueFringe
