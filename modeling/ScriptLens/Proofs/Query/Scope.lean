import ScriptLens.Proofs.Symbol.Positions
import ScriptLens.Query.Completion

/-!
# What a line can use

The completions for a line come from a list into which symbols are put one after the other.  A symbol takes the place
of the one with its name, so each name stays where it first came, with the symbol that came last.  The built-in symbols
come first, and then the declarations above the line.  Declarations that are in the order of their lines only ever add
names at the end as the line moves down.

Main statement: `scope_completions`.
-/

namespace ScriptLens.Query

/-! ### One symbol -/

/-- A symbol adds its name at the end of the list that it is put into, unless the name is there already. -/
theorem names_place (s : Symbol) (table : List Symbol) :
    (place s table).map Symbol.name =
      if s.name ∈ table.map Symbol.name then table.map Symbol.name
      else table.map Symbol.name ++ [s.name] := by
  induction table with
  | nil => rfl
  | cons t rest ih =>
      by_cases hsame : t.name = s.name
      · simp [place, hsame]
      · have hother : s.name ≠ t.name := Ne.symm hsame
        rw [place, if_neg hsame, List.map_cons, ih]
        simp only [List.map_cons, List.mem_cons, hother, false_or]
        split <;> rfl

/-- Afterwards the name means the symbol, and any other name means what it meant before. -/
theorem find?_place (s : Symbol) (table : List Symbol) (name : String) :
    Symbol.find? (place s table) name = if s.name = name then some s else Symbol.find? table name := by
  unfold Symbol.find?
  induction table with
  | nil => by_cases hs : s.name = name <;> simp [place, hs]
  | cons t rest ih =>
      by_cases hsame : t.name = s.name
      · by_cases hs : s.name = name <;> simp [place, hsame, hs]
      · rw [place, if_neg hsame]
        by_cases ht : t.name = name
        · have hs : s.name ≠ name := fun hs => hsame (ht.trans hs.symm)
          simp [ht, hs]
        · simp [ht, ih]

theorem nodup_place (s : Symbol) {table : List Symbol} (h : (table.map Symbol.name).Nodup) :
    ((place s table).map Symbol.name).Nodup := by
  rw [names_place]
  split
  · exact h
  · rename_i hnew
    rw [List.nodup_append]
    refine ⟨h, by simp, ?_⟩
    rintro name hname other hother rfl
    rw [List.mem_singleton] at hother
    rw [hother] at hname
    exact hnew hname

/-! ### Several symbols -/

/-- Put symbols into a list, one after the other. -/
def placeAll (symbols table : List Symbol) : List Symbol :=
  symbols.foldl (fun table s => place s table) table

/-- The names that are not known yet, each where it comes first. -/
def newNames (known names : List String) : List String :=
  (names.filter fun name => name ∉ known).eraseDups

theorem newNames_cons_of_mem {known : List String} {name : String} (h : name ∈ known) (names : List String) :
    newNames known (name :: names) = newNames known names := by
  simp [newNames, h]

theorem newNames_cons_of_not_mem {known : List String} {name : String} (h : name ∉ known) (names : List String) :
    newNames known (name :: names) = name :: newNames (known ++ [name]) names := by
  have hrest : (names.filter fun n => n ∉ known).filter (fun n => !n == name) =
      names.filter fun n => n ∉ known ++ [name] := by
    rw [List.filter_filter]
    refine List.filter_congr fun n _ => ?_
    by_cases hn : n = name <;> simp [hn]
  rw [newNames, List.filter_cons_of_pos (by simpa using h), List.eraseDups_cons, hrest, newNames]

/-- The names of the list stay where they are, and the new ones follow. -/
theorem names_placeAll (symbols table : List Symbol) :
    (placeAll symbols table).map Symbol.name =
      table.map Symbol.name ++ newNames (table.map Symbol.name) (symbols.map Symbol.name) := by
  induction symbols generalizing table with
  | nil => simp [placeAll, newNames]
  | cons s rest ih =>
      have hstep : placeAll (s :: rest) table = placeAll rest (place s table) := rfl
      rw [hstep, ih, names_place, List.map_cons]
      by_cases hknown : s.name ∈ table.map Symbol.name
      · rw [if_pos hknown, newNames_cons_of_mem hknown]
      · rw [if_neg hknown, newNames_cons_of_not_mem hknown, List.append_assoc, List.singleton_append]

theorem nodup_placeAll (symbols : List Symbol) {table : List Symbol} (h : (table.map Symbol.name).Nodup) :
    ((placeAll symbols table).map Symbol.name).Nodup := by
  induction symbols generalizing table with
  | nil => exact h
  | cons s rest ih => exact ih (nodup_place s h)

/-- A name means the last symbol that was put in with it, or else what it meant before. -/
theorem find?_placeAll (symbols table : List Symbol) (name : String) :
    Symbol.find? (placeAll symbols table) name =
      (Symbol.find? symbols.reverse name).or (Symbol.find? table name) := by
  induction symbols generalizing table with
  | nil => rfl
  | cons s rest ih =>
      have hstep : placeAll (s :: rest) table = placeAll rest (place s table) := rfl
      have hlast : Symbol.find? (s :: rest).reverse name =
          (Symbol.find? rest.reverse name).or (if s.name = name then some s else none) := by
        rw [List.reverse_cons, Symbol.find?, List.find?_append]
        by_cases hs : s.name = name <;> simp [Symbol.find?, hs]
      rw [hstep, ih, find?_place, hlast, Option.or_assoc]
      by_cases hs : s.name = name <;> simp [hs]

/-- In a list of different names each symbol is what its name means. -/
theorem find?_of_mem {table : List Symbol} (h : (table.map Symbol.name).Nodup) {s : Symbol} (hs : s ∈ table) :
    Symbol.find? table s.name = some s := by
  obtain ⟨before, behind, rfl⟩ := List.append_of_mem hs
  have hbefore : ∀ t ∈ before, t.name ≠ s.name := by
    intro t ht hsame
    rw [List.map_append, List.map_cons, List.nodup_append] at h
    exact h.2.2 t.name (List.mem_map_of_mem ht) s.name List.mem_cons_self hsame
  rw [Symbol.find?, List.find?_eq_some_iff_append]
  exact ⟨by simp, before, behind, rfl, fun t ht => by simpa using hbefore t ht⟩

/-! ### Declarations above a line -/

/-- The symbols that are declared above a line. -/
def earlier (line : Int) (locals : List Symbol) : List Symbol :=
  locals.filter fun s => decide (s.line < line)

/-- A symbol is the last one of a list with its name. -/
def LastNamed (symbols : List Symbol) (name : String) (s : Symbol) : Prop :=
  s.name = name ∧ ∃ before behind, symbols = before ++ s :: behind ∧ ∀ t ∈ behind, t.name ≠ name

theorem lastNamed_of_find? {symbols : List Symbol} {name : String} {s : Symbol}
    (h : Symbol.find? symbols.reverse name = some s) : LastNamed symbols name s := by
  rw [Symbol.find?, List.find?_eq_some_iff_append] at h
  obtain ⟨hname, behind, before, hcut, hbehind⟩ := h
  refine ⟨by simpa using hname, before.reverse, behind.reverse, ?_, ?_⟩
  · rw [← List.reverse_reverse symbols, hcut]
    simp
  · intro t ht
    simpa using hbehind t (List.mem_reverse.mp ht)

theorem visible_eq (line : Int) (locals : List Symbol) :
    visible line locals = placeAll (earlier line locals) Builtin.symbols :=
  rfl

theorem nodup_builtin : (Builtin.symbols.map Symbol.name).Nodup := by
  decide

theorem labels_eq (line : Int) (locals : List Symbol) :
    (scopeItems line locals).map CompletionItem.label = (visible line locals).map Symbol.name := by
  rw [scopeItems, List.map_map]
  rfl

/-- In the order of their lines, the declarations above a line come before all others. -/
theorem earlier_isPrefix {locals : List Symbol} (h : locals.Pairwise fun s t => s.line ≤ t.line)
    {line later : Int} (hle : line ≤ later) : earlier line locals <+: earlier later locals := by
  induction locals with
  | nil => exact List.prefix_rfl
  | cons s rest ih =>
      obtain ⟨hfirst, hrest⟩ := List.pairwise_cons.mp h
      by_cases hs : s.line < line
      · have hs' : s.line < later := by omega
        rw [earlier, earlier, List.filter_cons_of_pos (by simpa using hs), List.filter_cons_of_pos (by simpa using hs'),
          List.prefix_cons_inj]
        exact ih hrest
      · -- nothing below the first declaration is above the line either
        have hnone : earlier line (s :: rest) = [] := by
          refine List.filter_eq_nil_iff.mpr fun t ht => ?_
          rcases List.mem_cons.mp ht with rfl | ht
          · simpa using hs
          · have := hfirst t ht
            simp
            omega
        rw [hnone]
        exact List.nil_prefix

/-- The completions for a line have different labels.  First come the names of the built-in symbols in their order, and
then the other names that are declared above the line, each where it is declared first.  The completion under a name is
that of the last symbol with the name that is declared above the line, or else that of the built-in symbol.  If the
declarations are in the order of their lines, as they are in every program that was read from a text, the labels for a
line are the first ones for any line below it. -/
theorem scope_completions (line : Int) (locals : List Symbol) :
    ((scopeItems line locals).map CompletionItem.label).Nodup ∧
    (scopeItems line locals).map CompletionItem.label =
      Builtin.symbols.map Symbol.name ++
        newNames (Builtin.symbols.map Symbol.name) ((earlier line locals).map Symbol.name) ∧
    (∀ item ∈ scopeItems line locals, ∃ s, item = s.toCompletion ∧
      (LastNamed (earlier line locals) item.label s ∨
        (∀ t ∈ earlier line locals, t.name ≠ item.label) ∧ Builtin.find? item.label = some s)) ∧
    ((locals.Pairwise fun s t => s.line ≤ t.line) → ∀ later, line ≤ later →
      (scopeItems line locals).map CompletionItem.label <+: (scopeItems later locals).map CompletionItem.label) ∧
    ∀ (source : String) (file : Option String) (p : Program), Syntax.read source file = .ok p →
      p.symbols.Pairwise fun s t => s.line ≤ t.line := by
  have hnodup : ((visible line locals).map Symbol.name).Nodup := nodup_placeAll _ nodup_builtin
  refine ⟨?_, ?_, ?_, ?_, ?_⟩
  · rw [labels_eq]
    exact hnodup
  · rw [labels_eq]
    exact names_placeAll _ _
  · intro item hitem
    obtain ⟨s, hs, rfl⟩ := List.mem_map.mp hitem
    have hmeans : Symbol.find? (visible line locals) s.name = some s := find?_of_mem hnodup hs
    rw [visible_eq, find?_placeAll, Option.or_eq_some_iff] at hmeans
    refine ⟨s, rfl, ?_⟩
    rcases hmeans with hlocal | ⟨hnone, hbuiltin⟩
    · exact Or.inl (lastNamed_of_find? hlocal)
    · refine Or.inr ⟨fun t ht => ?_, hbuiltin⟩
      rw [Symbol.find?, List.find?_eq_none] at hnone
      have hother : t.name ≠ s.name := by simpa using hnone t (List.mem_reverse.mpr ht)
      exact hother
  · intro hsorted later hle
    obtain ⟨added, hadded⟩ := earlier_isPrefix hsorted hle
    have hlater : visible later locals = placeAll added (visible line locals) := by
      rw [visible_eq, ← hadded, placeAll, List.foldl_append]
      rfl
    rw [labels_eq, labels_eq, hlater, names_placeAll]
    exact List.prefix_append _ _
  · intro source file p h
    refine (ascending_symbols h).imp fun {s t} hst => ?_
    omega

/-- A text that hides a built-in function and declares a name twice. -/
theorem scope_completions_shadowed :
    ∃ p, Syntax.read "let print; let a\nconst a = 1\nlet b" none = .ok p ∧
      (p.symbols.Pairwise fun s t => s.line ≤ t.line) ∧
      (scopeItems 4 p.symbols).map CompletionItem.label = Builtin.symbols.map Symbol.name ++ ["a", "b"] ∧
      (scopeItems 2 p.symbols).map CompletionItem.label <+: (scopeItems 4 p.symbols).map CompletionItem.label ∧
      ((scopeItems 4 p.symbols).find? fun item => item.label = "a").map CompletionItem.detail =
        some (some "(constant: number)") := by
  have hcompletions : ((Syntax.read "let print; let a\nconst a = 1\nlet b" none).toOption.map fun p =>
      ((scopeItems 4 p.symbols).map CompletionItem.label,
        ((scopeItems 4 p.symbols).find? fun item => item.label = "a").map CompletionItem.detail)) =
      some (Builtin.symbols.map Symbol.name ++ ["a", "b"], some (some "(constant: number)")) := by
    decide +kernel
  cases hread : Syntax.read "let print; let a\nconst a = 1\nlet b" none with
  | error failure =>
      rw [hread] at hcompletions
      cases hcompletions
  | ok p =>
      rw [hread] at hcompletions
      obtain ⟨hlabels, hdetail⟩ := Prod.mk.inj (Option.some.inj hcompletions)
      obtain ⟨-, -, -, hgrows, hordered⟩ := scope_completions 2 p.symbols
      have hlines := hordered _ _ p hread
      exact ⟨p, rfl, hlines, hlabels, hgrows hlines 4 (by decide), hdetail⟩

end ScriptLens.Query
