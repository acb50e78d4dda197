import ScriptLens.Proofs.Layout.Normal
import ScriptLens.Proofs.Layout.Rows

/-!
# Layout by rows

Laying out a text is three things one after the other: finding its rows, finishing each row by itself, and
indenting the finished rows.  Finishing a row twice is finishing it once, and the rows of what was laid
out are the finished rows again, whatever the indentation was.

Main statements: `formatChars_eq_indent` and `rows_unlines_indent`.
-/

namespace ScriptLens.Layout

open Text

/-! ### Finishing a line -/

/-- A line is finished by canonical spacing alone, or gets a semicolon behind it. -/
theorem visible_finishLine (line : List Char) :
    (lacksSemicolon (normalize line) = false ∧ visible (finishLine line) = visible line) ∨
      (lacksSemicolon (normalize line) = true ∧
        visible (finishLine line) = visible line ++ [';']) := by
  cases h : lacksSemicolon (normalize line) with
  | false => simp [finishLine, h, visible_normalize]
  | true =>
      refine Or.inr ⟨rfl, ?_⟩
      rw [finishLine, if_pos h, visible_normalize, visible_append, visible_normalize]
      rfl

theorem trim_finishLine (line : List Char) : trim (finishLine line) = finishLine line := by
  rw [finishLine]
  split <;> exact trim_normalize _

theorem mem_finishLine {c : Char} {line : List Char} (h : c ∈ finishLine line) :
    c = ' ' ∨ c = ';' ∨ c ∈ line := by
  have hspaced : c ∈ normalize line → c = ' ' ∨ c = ';' ∨ c ∈ line := by
    intro hc
    exact (mem_normalize hc).imp id Or.inr
  rw [finishLine] at h
  split at h
  · rcases mem_normalize h with hspace | hc
    · exact Or.inl hspace
    · rcases List.mem_append.mp hc with hc | hc
      · exact hspaced hc
      · exact Or.inr (Or.inl (by simpa using hc))
  · exact hspaced h

/-- A finished line ends with its last visible character. -/
theorem getLast?_finishLine (line : List Char) :
    (finishLine line).getLast? = (visible (finishLine line)).getLast? := by
  rw [← getLast?_trim, trim_finishLine]

/-- A finished line needs nothing more. -/
theorem finishLine_finishLine (line : List Char) :
    finishLine (finishLine line) = finishLine line := by
  have hnormal : normalize (finishLine line) = finishLine line := by
    rw [finishLine]
    split <;> exact normalize_normalize _
  have hdone : lacksSemicolon (finishLine line) = false := by
    rcases visible_finishLine line with ⟨hnot, -⟩ | ⟨-, hvisible⟩
    · simp [finishLine, hnot]
    · have hlast : (finishLine line).getLast? = some ';' := by
        rw [getLast?_finishLine, hvisible, List.getLast?_concat]
      simp [lacksSemicolon, hlast]
  rw [finishLine, hnormal]
  simp [hdone]

/-- Finishing a line keeps its beginning. -/
theorem head?_finishLine {line : List Char} (ht : trim line = line) (hne : line ≠ []) :
    (finishLine line).head? = line.head? := by
  have hfinished : (finishLine line).head? = (visible (finishLine line)).head? := by
    rw [← head?_trim, trim_finishLine]
  have hline : line.head? = (visible line).head? := by rw [← head?_trim, ht]
  obtain ⟨c, cs, hcs⟩ : ∃ c cs, visible line = c :: cs := by
    obtain ⟨c, cs, rfl⟩ := List.exists_cons_of_ne_nil hne
    exact ⟨c, List.head?_eq_some_iff.mp hline.symm⟩
  rw [hfinished, hline]
  rcases visible_finishLine line with ⟨-, hvisible⟩ | ⟨-, hvisible⟩
  · rw [hvisible]
  · rw [hvisible, hcs]
    rfl

theorem finishLine_ne_nil {line : List Char} (ht : trim line = line) (hne : line ≠ []) :
    finishLine line ≠ [] := by
  intro hnil
  have hhead := head?_finishLine ht hne
  rw [hnil] at hhead
  exact hne (List.head?_eq_none_iff.mp hhead.symm)

/-! ### Rows with text -/

namespace IsRow

theorem trim_eq {row : List Char} (h : IsRow row) : trim row = row := by
  simpa using h.trim_append .none

theorem of_trim {row : List Char} (ht : trim row = row) (hne : row ≠ []) (hf : '\n' ∉ row) :
    IsRow row where
  head := by
    obtain ⟨c, rest, rfl⟩ := List.exists_cons_of_ne_nil hne
    have hhead : (visible (c :: rest)).head? = some c := by
      rw [← head?_trim, ht]
      rfl
    exact ⟨c, rest, rfl, isBlank_of_mem_visible (List.mem_of_head? hhead)⟩
  last := by
    have hlast : (visible row).getLast? = some (row.getLast hne) := by
      rw [← getLast?_trim, ht, List.getLast?_eq_some_getLast hne]
    exact ⟨row.dropLast, row.getLast hne, (List.dropLast_concat_getLast hne).symm,
      isBlank_of_mem_visible (List.mem_of_getLast? hlast)⟩
  feed := hf

theorem finishLine {row : List Char} (h : IsRow row) : IsRow (finishLine row) := by
  refine of_trim (trim_finishLine row) (finishLine_ne_nil h.trim_eq h.ne_nil) fun hfeed => ?_
  rcases mem_finishLine hfeed with hspace | hsemicolon | hrow
  · exact absurd hspace (by decide)
  · exact absurd hsemicolon (by decide)
  · exact h.feed hrow

end IsRow

/-- Rows as the formatter has them: each is blank or has text, the first has text, and no two blank rows
follow each other. -/
structure Tidy (ls : List (List Char)) : Prop where
  row : ∀ row ∈ ls, row = [] ∨ IsRow row
  squeezed : squeeze false ls = ls

theorem squeeze_squeeze (afterText : Bool) (ls : List (List Char)) :
    squeeze afterText (squeeze afterText ls) = squeeze afterText ls := by
  induction ls generalizing afterText with
  | nil => rfl
  | cons first rest ih =>
      by_cases hfirst : first = []
      · subst hfirst
        cases afterText <;> simp [ih]
      · simp [hfirst, ih]

/-- Blank rows can be dropped before or after each row is changed. -/
theorem squeeze_map {f : List Char → List Char} {ls : List (List Char)}
    (h : ∀ row ∈ ls, f row = [] ↔ row = []) (afterText : Bool) :
    squeeze afterText (ls.map f) = (squeeze afterText ls).map f := by
  induction ls generalizing afterText with
  | nil => rfl
  | cons first rest ih =>
      have hrest := fun b => ih (fun row hrow => h row (List.mem_cons_of_mem _ hrow)) b
      have hfirst := h first List.mem_cons_self
      by_cases hblank : first = []
      · subst hblank
        cases afterText <;> simp [hrest, hfirst.mpr rfl]
      · have hf : f first ≠ [] := fun hf => hblank (hfirst.mp hf)
        simp [hblank, hf, hrest]

/-! ### Finishing and indenting rows -/

/-- The final text of a row. -/
def finishRow (row : List Char) : List Char :=
  if row.isEmpty then [] else finishLine row

/-- Indent rows, given the level of indentation that was reached. -/
def indent (tab : Nat) : (level : Nat) → List (List Char) → List (List Char)
  | _, [] => []
  | level, row :: rest =>
      if row.isEmpty then [] :: indent tab level rest
      else
        let here := if startsWithCloser row then level - 1 else level
        let below := if endsWithOpener row then here + 1 else here
        (List.replicate (here * tab) ' ' ++ row) :: indent tab below rest

@[simp] theorem finishRow_nil : finishRow [] = [] := rfl

@[simp] theorem finishRow_text {row : List Char} (h : row ≠ []) : finishRow row = finishLine row := by
  simp [finishRow, h]

theorem finishRow_eq_nil_iff {row : List Char} (ht : trim row = row) :
    finishRow row = [] ↔ row = [] := by
  by_cases h : row = []
  · simp [h]
  · simp [h, finishLine_ne_nil ht h]

theorem finishRow_finishRow {row : List Char} (ht : trim row = row) :
    finishRow (finishRow row) = finishRow row := by
  by_cases h : row = []
  · simp [h]
  · rw [finishRow_text h, finishRow_text (finishLine_ne_nil ht h), finishLine_finishLine]

/-- Laying out lines is finding their rows, finishing them and indenting them. -/
theorem arrange_eq_indent (tab level : Nat) (afterText : Bool) (raws : List (List Char)) :
    arrange tab level afterText raws =
      indent tab level ((squeeze afterText (raws.map trim)).map finishRow) := by
  induction raws generalizing level afterText with
  | nil => rfl
  | cons raw rest ih =>
      rw [arrange, List.map_cons]
      by_cases h : trim raw = []
      · cases afterText <;> simp [h, ih, indent]
      · have hfinish := finishLine_ne_nil (trim_trim raw) h
        have hcloser : startsWithCloser (finishLine (trim raw)) = startsWithCloser (trim raw) := by
          rw [startsWithCloser, head?_finishLine (trim_trim raw) h, startsWithCloser]
        simp [h, ih, indent, hfinish, hcloser]

theorem formatChars_eq_indent (tab : Nat) (source : List Char) :
    formatChars tab source =
      unlines (indent tab 0 ((rows (breakAtBraces source)).map finishRow)) := by
  rw [formatChars, arrange_eq_indent, rows]

theorem mem_indent {tab level : Nat} {line : List Char} {ls : List (List Char)}
    (h : line ∈ indent tab level ls) : ∃ n, ∃ row ∈ ls, line = List.replicate n ' ' ++ row := by
  induction ls generalizing level with
  | nil => simp [indent] at h
  | cons row rest ih =>
      have hrest : ∀ l, line ∈ indent tab l rest →
          ∃ n, ∃ r ∈ row :: rest, line = List.replicate n ' ' ++ r := by
        intro l hl
        obtain ⟨n, r, hr, hline⟩ := ih hl
        exact ⟨n, r, List.mem_cons_of_mem _ hr, hline⟩
      by_cases hblank : row = []
      · rw [indent, if_pos (by simp [hblank])] at h
        rcases List.mem_cons.mp h with rfl | h
        · exact ⟨0, row, List.mem_cons_self, by simp [hblank]⟩
        · exact hrest _ h
      · rw [indent, if_neg (by simp [hblank])] at h
        rcases List.mem_cons.mp h with rfl | h
        · exact ⟨_, row, List.mem_cons_self, rfl⟩
        · exact hrest _ h

/-- Trimming takes the indentation away. -/
theorem map_trim_indent {tab level : Nat} {ls : List (List Char)}
    (h : ∀ row ∈ ls, row = [] ∨ IsRow row) : (indent tab level ls).map trim = ls := by
  induction ls generalizing level with
  | nil => rfl
  | cons row rest ih =>
      have hrest : ∀ l, (indent tab l rest).map trim = rest :=
        fun l => ih fun r hr => h r (List.mem_cons_of_mem _ hr)
      rcases h row List.mem_cons_self with rfl | hrow
      · have hnil : trim [] = [] := rfl
        simp [indent, hrest, hnil]
      · have htrim : ∀ n, trim (List.replicate n ' ' ++ row) = row := by
          intro n
          have hspaces : ∀ c ∈ List.replicate n ' ', isBlank c = true := by
            intro c hc
            rw [(List.mem_replicate.mp hc).2]
            decide
          rw [trim, Gap.trimLeft_append ⟨_, hspaces⟩, ← trim, hrow.trim_eq]
        simp [indent, hrow.ne_nil, hrest, htrim]

theorem Tidy.feed_not_mem_indent {ls : List (List Char)} (h : Tidy ls) {tab level : Nat}
    {line : List Char} (hline : line ∈ indent tab level ls) : '\n' ∉ line := by
  obtain ⟨n, row, hrow, rfl⟩ := mem_indent hline
  rcases h.row row hrow with rfl | hrow
  · simp
  · simp [hrow.feed]

/-- The rows of indented rows are those rows. -/
theorem rows_unlines_indent {ls : List (List Char)} (h : Tidy ls) (tab : Nat) :
    rows (unlines (indent tab 0 ls)) = ls := by
  cases ls with
  | nil => rfl
  | cons row rest =>
      have hne : indent tab 0 (row :: rest) ≠ [] := by
        rw [indent]
        split <;> simp
      rw [rows, lines_unlines hne fun line hline => h.feed_not_mem_indent hline, map_trim_indent h.row,
        h.squeezed]

/-! ### Tidy rows -/

theorem Spaced.isRow_rowsFrom (t : Spaced) {current : List Char} (hc : IsRow current) :
    ∀ row ∈ t.rowsFrom current, row = [] ∨ IsRow row := by
  induction t generalizing current with
  | last g =>
      rw [Spaced.rowsFrom]
      split <;> simp [hc]
  | next g c v rest ih =>
      rw [Spaced.rowsFrom]
      split
      · rename_i hg
        exact ih (hc.append hg v)
      · split <;> simpa [hc] using ih (IsRow.singleton v)

/-- The rows of a text are tidy. -/
theorem tidy_rows (text : List Char) : Tidy (rows text) where
  row := by
    rw [← Spaced.text_ofChars text]
    cases Spaced.ofChars text with
    | last g =>
        rw [rows_last]
        simp
    | next g c v rest =>
        rw [rows_next]
        exact rest.isRow_rowsFrom (IsRow.singleton v)
  squeezed := squeeze_squeeze false _

theorem Tidy.trim_eq {ls : List (List Char)} (h : Tidy ls) {row : List Char} (hr : row ∈ ls) :
    trim row = row := by
  rcases h.row row hr with rfl | hrow
  · rfl
  · exact hrow.trim_eq

/-- Finished rows are tidy. -/
theorem Tidy.finish {ls : List (List Char)} (h : Tidy ls) : Tidy (ls.map finishRow) where
  row := by
    intro row hrow
    obtain ⟨line, hline, rfl⟩ := List.mem_map.mp hrow
    rcases h.row line hline with rfl | hline
    · exact Or.inl rfl
    · rw [finishRow_text hline.ne_nil]
      exact Or.inr hline.finishLine
  squeezed := by
    rw [squeeze_map (fun row hrow => finishRow_eq_nil_iff (h.trim_eq hrow)), h.squeezed]

/-- Finished rows stay as they are. -/
theorem Tidy.finish_finish {ls : List (List Char)} (h : Tidy ls) :
    (ls.map finishRow).map finishRow = ls.map finishRow := by
  rw [List.map_map]
  exact List.map_congr_left fun row hrow => finishRow_finishRow (h.trim_eq hrow)

end ScriptLens.Layout
