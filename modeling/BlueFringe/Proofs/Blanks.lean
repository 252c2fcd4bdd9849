import BlueFringe.Text.Blank
import Mathlib.Data.List.DropRight

/-!
# Lines, trimmed lines and fields

What the three ways to cut a text find, said without the cutting: the lines are joined by line
feeds, a trimmed line has blanks around it and none at its ends, and fields stand in order with
blanks around and between them. In each case the text leaves no choice.
-/

namespace BlueFringe.Text

/-- All characters are blank; there may be none. -/
def AllBlank (cs : List Char) : Prop := ∀ c ∈ cs, isBlank c = true

/-- There are characters, and none of them is blank. -/
def IsField (cs : List Char) : Prop := cs ≠ [] ∧ ∀ c ∈ cs, isBlank c = false

/-- The text is these lines with line feeds between them. -/
structure Joins (lines : List (List Char)) (text : List Char) : Prop where
  nonempty : lines ≠ []
  unbroken : ∀ line ∈ lines, '\n' ∉ line
  joined : ['\n'].intercalate lines = text

/-- The line is this text with blanks in front and behind, and the text has none at its ends. -/
def Trimmed (line core : List Char) : Prop :=
  ∃ lead trail, line = lead ++ core ++ trail ∧ AllBlank lead ∧ AllBlank trail ∧
    (∀ c ∈ core.head?, isBlank c = false) ∧ ∀ c ∈ core.getLast?, isBlank c = false

/-- The text holds these fields in order. There may be blanks in front of each field, and what
follows one is a blank or the end of the text. -/
inductive Spaced : List (List Char) → List Char → Prop where
  | blank {gap : List Char} : AllBlank gap → Spaced [] gap
  | field {gap w rest : List Char} {ws : List (List Char)} : AllBlank gap → IsField w →
      (∀ c ∈ rest.head?, isBlank c = true) → Spaced ws rest → Spaced (w :: ws) (gap ++ w ++ rest)

variable {cs gap w lead line core rest : List Char} {ws : List (List Char)} {c : Char}

theorem AllBlank.nil : AllBlank [] := by
  simp [AllBlank]

/-! ### Lines -/

theorem pieces_eq_splitOnP (cut : Char → Bool) (cs : List Char) :
    pieces cut cs = cs.splitOnP cut := by
  induction cs with
  | nil => simp [pieces]
  | cons c cs ih =>
      rw [pieces, List.splitOnP_cons_eq_if_modifyHead, ← ih]
      cases found : pieces cut cs with
      | nil => exact absurd found (pieces_ne_nil cut cs)
      | cons piece rest => rfl

theorem lines_eq_iff : lines cs = ws ↔ Joins ws cs := by
  have split : lines cs = cs.splitOn '\n' := pieces_eq_splitOnP _ cs
  constructor
  · rintro rfl
    refine ⟨pieces_ne_nil _ cs, fun line mem feed => ?_, ?_⟩
    · simpa using not_cut_of_mem_pieces mem feed
    · rw [split, List.intercalate_splitOn]
  · rintro ⟨nonempty, unbroken, rfl⟩
    rw [split, List.splitOn_intercalate '\n' unbroken nonempty]

/-! ### Trimmed lines -/

theorem dropWhile_lead (blank : AllBlank lead) (start : ∀ c ∈ cs.head?, isBlank c = false) :
    (lead ++ cs).dropWhile isBlank = cs := by
  rw [List.dropWhile_append_of_pos blank]
  cases cs with
  | nil => rfl
  | cons c cs => simp [start c rfl]

theorem trim_of_trimmed (trimmed : Trimmed line core) : trim line = core := by
  obtain ⟨lead, trail, rfl, front, back, start, stop⟩ := trimmed
  have back' : AllBlank trail.reverse := fun c hc => back c (List.mem_reverse.mp hc)
  have stop' : ∀ c ∈ core.reverse.head?, isBlank c = false := by
    rwa [List.head?_reverse]
  unfold trim
  cases core with
  | nil =>
      have all : AllBlank (lead ++ [] ++ trail) := by
        simpa [AllBlank, or_imp, forall_and] using And.intro front back
      rw [List.dropWhile_eq_nil_iff.mpr all]
      rfl
  | cons c core =>
      rw [List.append_assoc, dropWhile_lead front (by simpa using start), List.reverse_append,
        dropWhile_lead back' stop', List.reverse_reverse]

/-- Taking blanks off the end leaves a text that does not end in one. -/
theorem exists_trail (cs : List Char) : ∃ body trail, cs = body ++ trail ∧ AllBlank trail ∧
    ∀ c ∈ body.getLast?, isBlank c = false := by
  refine ⟨cs.rdropWhile isBlank, cs.rtakeWhile isBlank, List.rdropWhile_append_rtakeWhile.symm,
    fun c => List.mem_rtakeWhile_imp, fun c last => ?_⟩
  obtain ⟨nonempty, rfl⟩ := List.mem_getLast?_eq_getLast last
  simpa using List.rdropWhile_last_not isBlank cs nonempty

theorem AllBlank.trimmed (blank : AllBlank cs) : Trimmed cs [] :=
  ⟨cs, [], by simp, blank, .nil, by simp, by simp⟩

/-- A line is trimmed to a text that starts with its first character that is not blank. -/
theorem exists_trimmed_cons (blank : AllBlank lead) (first : isBlank c = false)
    (rest : List Char) : ∃ body trail, rest = body ++ trail ∧ AllBlank trail ∧
      Trimmed (lead ++ c :: rest) (c :: body) := by
  obtain ⟨body, trail, rfl, back, stop⟩ := exists_trail rest
  refine ⟨body, trail, rfl, back, lead, trail, by simp, blank, back, ?_, ?_⟩
  · simpa using first
  · intro d last
    cases body with
    | nil =>
        obtain rfl : c = d := by simpa using last
        exact first
    | cons b body => exact stop d (by simpa using last)

/-- Either all characters of a line are blank, or there is a first one that is not. -/
theorem allBlank_or_exists (cs : List Char) : AllBlank cs ∨
    ∃ lead c rest, cs = lead ++ c :: rest ∧ AllBlank lead ∧ isBlank c = false := by
  induction cs with
  | nil => exact .inl .nil
  | cons c cs ih =>
      cases blank : isBlank c with
      | false => exact .inr ⟨[], c, cs, rfl, .nil, blank⟩
      | true =>
          rcases ih with all | ⟨lead, d, rest, rfl, all, first⟩
          · exact .inl (List.forall_mem_cons.mpr ⟨blank, all⟩)
          · exact .inr ⟨c :: lead, d, rest, rfl, List.forall_mem_cons.mpr ⟨blank, all⟩, first⟩

theorem trim_eq_iff : trim line = core ↔ Trimmed line core := by
  constructor
  · intro trimmed
    obtain ⟨core', found⟩ : ∃ core', Trimmed line core' := by
      rcases allBlank_or_exists line with all | ⟨lead, c, rest, rfl, blank, first⟩
      · exact ⟨[], all.trimmed⟩
      · obtain ⟨body, _, _, _, found⟩ := exists_trimmed_cons blank first rest
        exact ⟨c :: body, found⟩
    rwa [← trimmed, trim_of_trimmed found]
  · exact trim_of_trimmed

/-! ### Fields -/

theorem fields_append_blank (blank : isBlank c = true) (cs rest : List Char) :
    fields (cs ++ c :: rest) = fields cs ++ fields rest := by
  unfold fields
  rw [pieces_eq_splitOnP, pieces_eq_splitOnP, pieces_eq_splitOnP,
    List.splitOnP_append_cons cs rest blank, List.filter_append]

/-- Blanks in front of a text belong to no field. -/
theorem fields_gap (blank : AllBlank gap) (cs : List Char) : fields (gap ++ cs) = fields cs := by
  induction gap with
  | nil => rfl
  | cons c gap ih =>
      obtain ⟨first, blank⟩ := List.forall_mem_cons.mp blank
      have none_before := fields_append_blank first [] (gap ++ cs)
      rw [List.nil_append] at none_before
      rw [List.cons_append, none_before, ih blank]
      rfl

theorem fields_of_blank (blank : AllBlank cs) : fields cs = [] := by
  have none_behind := fields_gap blank []
  rwa [List.append_nil] at none_behind

theorem fields_trail (blank : AllBlank gap) (cs : List Char) : fields (cs ++ gap) = fields cs := by
  cases gap with
  | nil => rw [List.append_nil]
  | cons c gap =>
      obtain ⟨first, blank⟩ := List.forall_mem_cons.mp blank
      rw [fields_append_blank first, fields_of_blank blank, List.append_nil]

theorem fields_of_isField (field : IsField w) : fields w = [w] := by
  obtain ⟨nonempty, solid⟩ := field
  rw [fields, pieces_eq_splitOnP, List.splitOnP_eq_singleton solid]
  simp [nonempty]

theorem fields_of_spaced (spaced : Spaced ws cs) : fields cs = ws := by
  induction spaced with
  | blank all => exact fields_of_blank all
  | @field gap w rest ws all field behind _ ih =>
      rw [List.append_assoc, fields_gap all]
      cases rest with
      | nil => rw [List.append_nil, fields_of_isField field, ← ih, fields_of_blank .nil]
      | cons c rest =>
          have first : isBlank c = true := behind c rfl
          have skipped : fields (c :: rest) = fields rest := fields_append_blank first [] rest
          rw [fields_append_blank first, fields_of_isField field, ← skipped, ih]
          rfl

/-- The first field of a text goes up to the next blank. -/
theorem exists_spaced (cs : List Char) : ∃ ws, Spaced ws cs := by
  induction size : cs.length using Nat.strong_induction_on generalizing cs with
  | _ n ih =>
      rcases allBlank_or_exists cs with all | ⟨gap, c, rest, rfl, all, first⟩
      · exact ⟨[], .blank all⟩
      · let w := rest.takeWhile fun d => !isBlank d
        let behind := rest.dropWhile fun d => !isBlank d
        have split : w ++ behind = rest := List.takeWhile_append_dropWhile
        have shorter : behind.length < n := by
          have lengths := congrArg List.length split
          simp only [List.length_append, List.length_cons] at lengths size
          omega
        obtain ⟨ws, spaced⟩ := ih behind.length shorter behind rfl
        have field : IsField (c :: w) := by
          refine ⟨by simp, List.forall_mem_cons.mpr ⟨first, fun d mem => ?_⟩⟩
          simpa using List.mem_takeWhile_imp mem
        have next : ∀ d ∈ behind.head?, isBlank d = true := by
          intro d start
          have stop := List.head?_dropWhile_not (fun d => !isBlank d) rest
          rw [Option.mem_def.mp start] at stop
          simpa using stop
        have whole := Spaced.field all field next spaced
        rw [List.append_assoc, List.cons_append, split] at whole
        exact ⟨_, whole⟩

theorem fields_eq_iff : fields cs = ws ↔ Spaced ws cs := by
  constructor
  · rintro rfl
    obtain ⟨ws, spaced⟩ := exists_spaced cs
    rwa [fields_of_spaced spaced]
  · exact fields_of_spaced

end BlueFringe.Text
