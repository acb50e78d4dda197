import ScriptLens.Proofs.Symbol.Positions
import ScriptLens.Proofs.Syntax.Leaves

/-!
# How far symbols reach

A symbol stands at its declaration, but its name may be that of another token: a parameter stands where its function
does, and an imported name at the word of the import.  Such a name is written behind the place of the symbol.  So the
name, laid out from the column of the symbol, still ends within the length of the text.

Main statement: `inside_of_mem_symbols`.
-/

namespace ScriptLens

open Text
open scoped List

/-! ### Statements in statements -/

mutual

/-- The leaves of a statement in a statement are among its leaves, in their order. -/
theorem Stmt.leaves_sublist : ∀ s u : Stmt, u ∈ s.walk → u.leaves true <+ s.leaves true
  | .declare _ _ _ _ _, u, h => by
      obtain rfl := List.mem_singleton.mp h
      exact List.Sublist.refl _
  | .function name parameters body doc loc, u, h => by
      rw [Stmt.walk] at h
      rcases List.mem_cons.mp h with rfl | hbody
      · exact List.Sublist.refl _
      · rw [Stmt.leaves]
        exact ((walkOf_leaves_sublist body u hbody).trans (List.sublist_append_right _ _)).cons _
  | .imports names source loc, u, h => by
      obtain rfl := List.mem_singleton.mp h
      exact List.Sublist.refl _
  | .conditional condition body none loc, u, h => by
      rw [Stmt.walk] at h
      rcases List.mem_cons.mp h with rfl | hbody
      · exact List.Sublist.refl _
      · rw [Stmt.leaves]
        exact (walkOf_leaves_sublist body u hbody).trans (List.sublist_append_right _ _)
  | .conditional condition body (some otherwise) loc, u, h => by
      rw [Stmt.walk] at h
      rcases List.mem_cons.mp h with rfl | hinner
      · exact List.Sublist.refl _
      · rw [Stmt.leaves]
        rcases List.mem_append.mp hinner with hbody | hotherwise
        · exact ((walkOf_leaves_sublist body u hbody).trans (List.sublist_append_right _ _)).trans
            (List.sublist_append_left _ _)
        · exact (walkOf_leaves_sublist otherwise u hotherwise).trans (List.sublist_append_right _ _)
  | .loop condition body loc, u, h => by
      rw [Stmt.walk] at h
      rcases List.mem_cons.mp h with rfl | hbody
      · exact List.Sublist.refl _
      · rw [Stmt.leaves]
        exact (walkOf_leaves_sublist body u hbody).trans (List.sublist_append_right _ _)
  | .result value loc, u, h => by
      obtain rfl := List.mem_singleton.mp h
      exact List.Sublist.refl _
  | .expression value loc, u, h => by
      obtain rfl := List.mem_singleton.mp h
      exact List.Sublist.refl _
  | .foreign body thenBranch elseBranch loc, u, h => by
      rw [Stmt.walk] at h
      rcases List.mem_cons.mp h with rfl | hinner
      · exact List.Sublist.refl _
      · rw [Stmt.leaves]
        rcases List.mem_append.mp hinner with hfront | helse
        · rcases List.mem_append.mp hfront with hbody | hthen
          · exact ((Slot.leaves_sublist body u hbody).trans (List.sublist_append_left _ _)).trans
              (List.sublist_append_left _ _)
          · exact ((Slot.leaves_sublist thenBranch u hthen).trans (List.sublist_append_right _ _)).trans
              (List.sublist_append_left _ _)
        · exact (Slot.leaves_sublist elseBranch u helse).trans (List.sublist_append_right _ _)

theorem Slot.leaves_sublist : ∀ (s : Slot) (u : Stmt), u ∈ s.walk → u.leaves true <+ s.leaves true
  | .absent, u, h => by simp [Slot.walk] at h
  | .text _, u, h => by simp [Slot.walk] at h
  | .statements body, u, h => walkOf_leaves_sublist body u h

theorem walkOf_leaves_sublist : ∀ (body : List Stmt) (u : Stmt), u ∈ walkOf body → u.leaves true <+ stmtLeaves true body
  | [], u, h => by simp [walkOf] at h
  | s :: rest, u, h => by
      rw [stmtLeaves]
      rcases List.mem_append.mp h with hs | hrest
      · exact (Stmt.leaves_sublist s u hs).trans (List.sublist_append_left _ _)
      · exact (walkOf_leaves_sublist rest u hrest).trans (List.sublist_append_right _ _)

end

/-! ### Heads of declarations -/

/-- The leaves of the head of a declaration: what it stands at, and the names that it lists. -/
def Stmt.head : Stmt → List Leaf
  | .declare _ name _ _ loc => [.name name loc]
  | .function name parameters _ _ loc => .name name loc :: parameters.map .listed
  | .imports names _ loc => .importWord loc :: names.map .listed
  | _ => []

/-- A declaration starts with its head. -/
theorem Stmt.head_sublist (u : Stmt) : u.head <+ u.leaves true := by
  cases u with
  | declare constant name value doc loc =>
      cases value with
      | none => exact List.Sublist.refl _
      | some value => exact (List.nil_sublist _).cons_cons _
  | function name parameters body doc loc => exact (List.sublist_append_left _ _).cons_cons _
  | imports names source loc => exact List.sublist_append_left _ _
  | _ => exact List.nil_sublist _

/-- A symbol of a declaration stands at the first leaf of its head, and the name is that leaf or one that is listed
behind it. -/
theorem head_of_mem_ownSymbols {u : Stmt} {s : Symbol} (h : s ∈ u.ownSymbols) :
    ∃ first rest loc, u.head = first :: rest ∧ first.location? = some loc ∧
      s.line = lineOf loc ∧ s.column = columnOf loc ∧ (first = .name s.name loc ∨ .listed s.name ∈ rest) := by
  cases u with
  | declare constant name value doc loc =>
      obtain rfl := List.mem_singleton.mp h
      exact ⟨_, _, loc, rfl, rfl, rfl, rfl, .inl rfl⟩
  | function name parameters body doc loc =>
      rcases List.mem_cons.mp h with rfl | hparameter
      · exact ⟨_, _, loc, rfl, rfl, rfl, rfl, .inl rfl⟩
      · obtain ⟨parameter, hmem, rfl⟩ := List.mem_map.mp hparameter
        exact ⟨_, _, loc, rfl, rfl, rfl, rfl, .inr (List.mem_map_of_mem hmem)⟩
  | imports names source loc =>
      obtain ⟨name, hmem, rfl⟩ := List.mem_map.mp h
      exact ⟨_, _, loc, rfl, rfl, rfl, rfl, .inr (List.mem_map_of_mem hmem)⟩
  | _ => cases h

/-! ### The tokens of a head -/

/-- Some of the leaves are written by as many of the tokens. -/
theorem Leaf.exists_written_sublist {leaves part : List Leaf} {tokens : List Token} (hsub : part <+ leaves)
    (h : List.Forall₂ Leaf.WrittenBy leaves tokens) :
    ∃ ts, ts <+ tokens ∧ List.Forall₂ Leaf.WrittenBy part ts := by
  induction hsub generalizing tokens with
  | slnil =>
      cases h
      exact ⟨[], .slnil, .nil⟩
  | cons leaf hsub ih =>
      cases h with
      | cons hleaf hrest =>
          obtain ⟨ts, hts, hwritten⟩ := ih hrest
          exact ⟨ts, hts.cons _, hwritten⟩
  | cons_cons leaf hsub ih =>
      cases h with
      | cons hleaf hrest =>
          obtain ⟨ts, hts, hwritten⟩ := ih hrest
          exact ⟨_ :: ts, hts.cons_cons _, .cons hleaf hwritten⟩

theorem Leaf.exists_written_of_mem {leaves : List Leaf} {tokens : List Token} {leaf : Leaf}
    (h : List.Forall₂ Leaf.WrittenBy leaves tokens) (hmem : leaf ∈ leaves) : ∃ t ∈ tokens, leaf.WrittenBy t := by
  obtain ⟨ts, hts, hwritten⟩ := exists_written_sublist (List.singleton_sublist.mpr hmem) h
  obtain ⟨t, rest, hleaf, -, rfl⟩ := List.forall₂_cons_left_iff.mp hwritten
  exact ⟨t, hts.subset List.mem_cons_self, hleaf⟩

/-- A name is written before the end of the text. -/
theorem Token.name_le {source : String} {file : Option String} {tokens : List Token}
    (h : tokenize source file = .ok tokens) {t : Token} (ht : t ∈ tokens) {name : String}
    (hkind : t.kind = .identifier name) : t.location.offset + name.length ≤ source.length := by
  have hend : t.kind ≠ .eof := by
    rw [hkind]
    simp
  obtain ⟨before, c, cs, width, hsource, hloc, hscan⟩ := scan_of_mem_tokensFrom (tokensFrom_of_tokenize h) ht hend
  have hname : name.length ≤ (c :: cs).length := by
    rw [← String.length_toList]
    exact ((isPrefix_of_scan hscan).1 name hkind).length_le
  have hlength : source.length = before.length + (c :: cs).length := by
    rw [← String.length_toList, hsource, List.length_append]
  rw [hloc, Location.offset_after_start]
  omega

/-- A line and a column count no more than what stands before the place. -/
theorem Located.le_offset {source : List Char} {loc : Location} (h : Located source loc) :
    1 ≤ loc.line ∧ loc.line ≤ loc.offset + 1 ∧ 1 ≤ loc.column ∧ loc.column ≤ loc.offset + 1 := by
  obtain ⟨before, behind, -, hoffset, hline, hcolumn⟩ := (located_iff source loc).mp h
  have hcount : before.count '\n' ≤ before.length := List.count_le_length
  have hwidth := lastWidth_le before
  omega

/-! ### Symbols -/

/-- A symbol stands in a text of so many characters, and so does its name from the column of the symbol on. -/
structure Symbol.Inside (s : Symbol) (length : Nat) : Prop where
  line : 1 ≤ s.line ∧ s.line ≤ length + 1
  column : 1 ≤ s.column
  name : s.column - 1 + s.name.length ≤ length

/-- The symbols of a program stand in the text that it was read from. -/
theorem inside_of_mem_symbols {source : String} {file : Option String} {p : Program}
    (h : Syntax.read source file = .ok p) {s : Symbol} (hs : s ∈ p.symbols) : s.Inside source.length := by
  obtain ⟨tokens, htokens, hprogram⟩ := Syntax.tokens_of_read h
  have hplaced := Token.placed_tokenize htokens
  rw [p.symbols_eq] at hs
  obtain ⟨u, hu, hown⟩ := List.mem_flatMap.mp hs
  obtain ⟨first, rest, loc, hhead, hloc, hline, hcolumn, hname⟩ := head_of_mem_ownSymbols hown
  -- the tokens of the head stand in the text in the same order
  have hleaves := Syntax.leaves_of_programOf true (Syntax.ended_tokenize htokens) hprogram
  obtain ⟨ts, hts, hwritten⟩ := Leaf.exists_written_sublist (u.head_sublist.trans (walkOf_leaves_sublist p.body u hu)) hleaves
  rw [hhead] at hwritten
  obtain ⟨t, behind, hfirst, hrest, rfl⟩ := List.forall₂_cons_left_iff.mp hwritten
  have hsub := hts.trans (Syntax.ImportStage.kept_sublist true .outside false tokens)
  obtain rfl := hfirst.location loc hloc
  obtain ⟨n, hn, hkind, hle⟩ : ∃ n ∈ tokens, n.kind = .identifier s.name ∧ t.location.offset ≤ n.location.offset := by
    rcases hname with rfl | hlisted
    · exact ⟨t, hsub.subset List.mem_cons_self, hfirst.kind, Int.le_refl _⟩
    · obtain ⟨n, hn, hlisted⟩ := Leaf.exists_written_of_mem hrest hlisted
      have hordered := hplaced.ordered.sublist hsub
      have hlt := (List.pairwise_cons.mp hordered).1 n hn
      exact ⟨n, hsub.subset (List.mem_cons_of_mem t hn), hlisted.kind, Int.le_of_lt hlt⟩
  have hend := Token.name_le htokens hn hkind
  have hplace := (hplaced.located t (hsub.subset List.mem_cons_self)).le_offset
  have hline' : s.line = t.location.line := hline
  have hcolumn' : s.column = t.location.column := hcolumn
  refine ⟨?_, ?_, ?_⟩ <;> omega

end ScriptLens
