import ScriptLens.Proofs.Layout.Tokens

/-!
# The comments of a formatted text

A line comment ends where its row ends, with the semicolon that may be added there in it.  A block comment ends
where it did, whatever was done to the rows in it.

Main statements: `Behind.line` and `Behind.block`.
-/

namespace ScriptLens.Layout

open Text Token

variable {added : Nat → Prop} {s : LineState} {c : Char} {cs out : List Char}

/-! ### Ends of rows -/

theorem RowEnd.feed_not_mem {p : Prop} {ending : List Char} (h : RowEnd p ending) :
    '\n' ∉ ending := by
  cases h <;> decide

theorem RowEnd.eq_nil {p : Prop} {ending : List Char} (h : RowEnd p ending) (hp : ¬p) :
    ending = [] := by
  cases h with
  | bare => rfl
  | semicolon h => exact absurd h hp
  | spaced h => exact absurd h hp

theorem RowEnd.mem {p : Prop} {ending : List Char} (h : RowEnd p ending) {d : Char} (hd : d ∈ ending) :
    isBlank d = true ∨ d = ';' := by
  have hspace : isBlank ' ' = true := by decide
  cases h with
  | bare => cases hd
  | semicolon _ => exact Or.inr (List.mem_singleton.mp hd)
  | spaced _ =>
      rcases List.mem_cons.mp hd with rfl | hd
      · exact Or.inl hspace
      · exact Or.inr (List.mem_singleton.mp hd)

/-- The places of a text are not before it. -/
theorem Laid.bounded {t : Spaced} (h : Laid added s t out) :
    Laid (fun m => added m ∧ m ≤ t.size) s t out := by
  induction h with
  | last hend hbelow => exact .last (hend.imp fun h => ⟨h, Nat.le_refl 0⟩) hbelow
  | stay hfeeds _ ih =>
      refine .stay hfeeds (ih.imp fun m hm => ⟨hm.1, ?_⟩)
      exact Nat.le_succ_of_le hm.2
  | feed k hfeeds hend _ ih =>
      refine .feed k hfeeds (hend.imp fun h => ⟨h, Nat.le_refl _⟩) (ih.imp fun m hm => ⟨hm.1, ?_⟩)
      exact Nat.le_succ_of_le hm.2

/-- A gap before another. -/
def Gap.append (g k : Gap) : Gap :=
  ⟨g.chars ++ k.chars, fun c hc => (List.mem_append.mp hc).elim (g.blank c) (k.blank c)⟩

theorem Gap.feeds_append {g : Gap} (h : '\n' ∉ g.chars) (k : Gap) : (g.append k).feeds = k.feeds := by
  simp [feeds, append, List.count_eq_zero.mpr h]

/-- Before a line feed a row ends. -/
theorem feedsBefore_of_feed {k : Gap} {v : isBlank c = false} {rest : Spaced}
    (h : ∀ d, (Spaced.next k c v rest).text.head? = some d → d = '\n') :
    (∃ k' : Gap, k.chars = '\n' :: k'.chars) ∧ ∀ before, feedsBefore before k c ≠ 0 := by
  have hfeed : ∃ k' : Gap, k.chars = '\n' :: k'.chars := by
    cases hk : k.chars with
    | nil =>
        have hc := h c (by rw [Spaced.text_next, hk]; rfl)
        rw [hc] at v
        exact absurd v (by decide)
    | cons b bs =>
        obtain rfl := h b (by rw [Spaced.text_next, hk]; rfl)
        exact ⟨⟨bs, fun d hd => k.blank d (by rw [hk]; exact List.mem_cons_of_mem _ hd)⟩, rfl⟩
  refine ⟨hfeed, fun before => ?_⟩
  obtain ⟨k', hk'⟩ := hfeed
  unfold feedsBefore
  split
  · exact Nat.one_ne_zero
  · exact Nat.ne_of_gt (List.count_pos_iff.mpr (by rw [hk']; exact List.mem_cons_self))

/-- Behind the last visible character of a line a row ends, and nothing that matters is lost if the blanks up to
the end of the line are. -/
theorem Laid.line_end {t : Spaced} (h : Laid added s t out) {g : Gap} {v : List Char}
    (ht : t.text = g.chars ++ v) (hg : '\n' ∉ g.chars) (hv : ∀ d, v.head? = some d → d = '\n') :
    ∃ ending out', out = ending ++ out' ∧ RowEnd (added (visible v).length) ending ∧
      (∀ d, out'.head? = some d → d = '\n') ∧
      Laid (fun m => added m ∧ m ≠ (visible v).length) s (.ofChars v) out' := by
  have hlead : t = (Spaced.ofChars v).setLead (g.append (Spaced.ofChars v).lead) := by
    refine Spaced.text_inj ?_
    have hv := Spaced.text_eq_lead (Spaced.ofChars v)
    rw [Spaced.text_ofChars] at hv
    rw [ht, Spaced.text_setLead, Gap.append, List.append_assoc, ← hv]
  have hsize : (visible v).length = (Spaced.ofChars v).size := by
    conv => lhs; rw [← Spaced.text_ofChars v, Spaced.visible_text, Spaced.length_letters]
  have htext := Spaced.text_ofChars v
  rw [hsize]
  generalize Spaced.ofChars v = t' at hlead htext
  subst hlead
  cases t' with
  | last k =>
      cases h with
      | @last _ _ ending below hend hbelow =>
          refine ⟨ending, below, rfl, hend, ?_, .last .bare hbelow⟩
          rcases hbelow with rfl | rfl <;> simp
  | next k c vc rest =>
      have hpos := (feedsBefore_of_feed (htext ▸ hv)).2 s.before
      have hfeeds : feedsBefore s.before (g.append k) c = feedsBefore s.before k c := by
        rw [feedsBefore, Gap.feeds_append hg, feedsBefore]
      cases h with
      | stay hstay hrest => exact absurd (hfeeds ▸ hstay) hpos
      | @feed _ _ _ _ _ ending out n hbreak hend hrest =>
          rw [Spaced.lead, hfeeds]
          refine ⟨ending, _, rfl, hend, by simp, .feed n hpos .bare (hrest.bounded.imp fun m hm => ?_)⟩
          refine ⟨hm.1, fun hm' => ?_⟩
          have hle := hm.2
          rw [hm', Spaced.size] at hle
          omega

/-- Blanks and a line feed do not start with an equals sign. -/
theorem head?_ne_equals (g : Gap) {v : List Char} (hv : ∀ d, v.head? = some d → d = '\n') :
    (g.chars ++ v).head? ≠ some '=' := by
  cases hchars : g.chars with
  | nil =>
      intro hequals
      exact absurd (hv _ hequals) (by decide)
  | cons b bs =>
      intro hequals
      obtain rfl : b = '=' := by simpa using hequals
      exact absurd (g.blank '=' (by simp [hchars])) (by decide)

/-! ### Line comments -/

theorem lineWidth_append {line below : List Char} (hline : '\n' ∉ line)
    (hbelow : ∀ d, below.head? = some d → d = '\n') : lineWidth (line ++ below) = line.length := by
  have hrun : ∀ d ∈ line, decide (d ≠ '\n') = true := by
    intro d hd
    have hne : d ≠ '\n' := by
      rintro rfl
      exact hline hd
    simpa using hne
  rw [lineWidth, takeWhile_append_stop hrun fun d hd => by simpa using hbelow d hd]

/-- The rest of a line in which no row has to end is laid out on one line, with what was laid out from the lines
below behind it. -/
theorem Laid.exists_line {t : Spaced} (h : Laid added s t out) (haligned : Aligned s t)
    {line below : List Char} (hcut : t.text = line ++ below) (hfeed : '\n' ∉ line)
    (hbelow : ∀ d, below.head? = some d → d = '\n')
    (hrow : ∀ r : Spaced, r.text = line → r.Unbroken s.before) :
    ∃ written out', out = written ++ out' ∧ '\n' ∉ written ∧ (∀ d, out'.head? = some d → d = '\n') ∧
      Between (fun m => added m ∧ m ≠ (visible below).length) below out' := by
  obtain ⟨r, t', g, rfl, hr, ht', hg⟩ := Spaced.exists_append_gap hcut
  have hhead : t'.text.head? ≠ some '=' := by
    rw [ht']
    exact head?_ne_equals g hbelow
  have hseam : r.Seam s.before t' := fun d _ _ => hhead
  obtain ⟨out', rfl, hbehind⟩ := h.exists_of_append (hrow r hr) hseam
  obtain ⟨ending, out'', rfl, hend, hnext, hrest⟩ :=
    hbehind.line_end ht' (fun hmem => hfeed (hg _ hmem)) hbelow
  refine ⟨((r.respace lineSpacer s).setLast .none).text ++ ending, out'',
    (List.append_assoc _ _ _).symm, ?_, hnext, .ofChars below, _, Spaced.text_ofChars below, hrest,
    (haligned.final hseam).ready hhead⟩
  intro hmem
  rcases List.mem_append.mp hmem with hmem | hmem
  · rcases mem_respace_line hmem with hspace | hmem
    · exact absurd hspace (by decide)
    · exact hfeed (hr ▸ hmem)
  · exact hend.feed_not_mem hmem

/-- A line comment of a text with no line left to break ends with its row. -/
theorem Behind.line {rest : List Char} (h : Behind added '/' ('/' :: rest) out)
    (hdoc : rest.head? ≠ some '/')
    (hbraces : breakAtBraces ('/' :: '/' :: rest) = '/' :: '/' :: rest) :
    ∃ width, scan '/' out = .gap width ∧
      Between (fun m => added m ∧ m ≠ (visible (rest.drop (lineWidth rest))).length)
        (rest.drop (lineWidth rest)) (('/' :: out).drop width) := by
  have v : isBlank '/' = false := by decide
  have hslash : isPlain '/' = true := by decide
  obtain ⟨t, s, htext, hlaid, hbegun⟩ := h
  obtain ⟨t, rfl, rfl⟩ := Spaced.exists_next htext v
  obtain ⟨out, rfl, hlaid', -⟩ := hlaid.plain_next hslash hslash hbegun.before
    (hbegun.mark_apart (by decide))
  obtain ⟨line, below, hcut, hline, hstop⟩ := exists_run (· ≠ '\n') t.text
  have hfeed : '\n' ∉ line := fun hmem => by simpa using hline _ hmem
  have hbelow : ∀ d, below.head? = some d → d = '\n' := fun d hd => by simpa using hstop d hd
  have hrow : ∀ r : Spaced, r.text = line →
      r.Unbroken (lineSpacer.advance s .none '/' t).before := by
    intro r hr
    have hsuffix := breakAtBraces_suffix hbraces (List.suffix_cons '/' _)
    rw [hcut] at hsuffix
    exact Spaced.unbroken_of_breakAtBraces v hsuffix hfeed hr
  obtain ⟨written, out', rfl, hwritten, hnext, hbetween⟩ :=
    hlaid'.exists_line hbegun.aligned.advance hcut hfeed hbelow hrow
  refine ⟨lineWidth (written ++ out') + 2, scan_line fun hthird => ?_, ?_⟩
  · exact hdoc ((hlaid'.loose hthird).resolve_right (by decide))
  · rw [hcut, lineWidth_append hfeed hbelow, lineWidth_append hwritten hnext, List.drop_left,
      List.drop_succ_cons, List.drop_succ_cons, List.drop_left]
    exact hbetween

/-! ### Block comments -/

theorem blockCommentWidth?_cons {d : Char} {ds : List Char}
    (h : d = '*' → ds.head? ≠ some '/') :
    blockCommentWidth? (d :: ds) = (blockCommentWidth? ds).map (· + 1) := by
  rw [blockCommentWidth?]
  rintro rest rfl rfl
  exact h rfl rfl

theorem blockCommentWidth?_append {skip : List Char} (h : ∀ d ∈ skip, d ≠ '*') (ds : List Char) :
    blockCommentWidth? (skip ++ ds) = (blockCommentWidth? ds).map (· + skip.length) := by
  induction skip with
  | nil => simp
  | cons d skip ih =>
      have hd : d ≠ '*' := h d List.mem_cons_self
      rw [List.cons_append, blockCommentWidth?_cons fun hstar => absurd hstar hd,
        ih fun e he => h e (List.mem_cons_of_mem d he), Option.map_map, List.length_cons]
      rfl

/-- What stands before the next visible character is blank, up to a semicolon. -/
theorem Laid.exists_next {g : Gap} {v : isBlank c = false} {rest : Spaced}
    (h : Laid added s (.next g c v rest) out) :
    ∃ skip s' out', out = skip ++ c :: out' ∧ (∀ d ∈ skip, isBlank d = true ∨ d = ';') ∧
      Laid added s' rest out' ∧ (s.Ready → s'.Begun c rest) ∧
      (Aligned s (.next g c v rest) → Aligned s' rest) := by
  have hspace : isBlank ' ' = true := by decide
  have hfeed : isBlank '\n' = true := by decide
  cases h with
  | stay hfeeds hrest =>
      refine ⟨_, _, _, rfl, fun d hd => Or.inl ?_, hrest, fun hs => hs.begun g c rest, Aligned.advance⟩
      exact (lineSpacer.between s g c rest).blank d hd
  | @feed _ _ _ _ _ ending out k hfeeds hend hrest =>
      have hbegun := ready_start.begun .none c rest
      refine ⟨ending ++ '\n' :: ((if feedsBefore s.before g c = 1 then [] else ['\n']) ++
        List.replicate k ' '), _, out, by simp, ?_, hrest, fun _ => hbegun, fun _ => hbegun.aligned⟩
      intro d hd
      rcases List.mem_append.mp hd with hd | hd
      · exact hend.mem hd
      · rcases List.mem_cons.mp hd with rfl | hd
        · exact Or.inl hfeed
        · rcases mem_indentation hd with rfl | rfl
          · exact Or.inl hfeed
          · exact Or.inl hspace

/-- A block comment ends where it did. -/
theorem Laid.block {t : Spaced} (h : Laid added s t out) (haligned : Aligned s t) {width : Nat}
    (hwidth : blockCommentWidth? t.text = some width) :
    ∃ width', blockCommentWidth? out = some width' ∧
      Between added (t.text.drop width) (out.drop width') := by
  have hblank : ∀ d, isBlank d = true → d ≠ '*' := by
    rintro d hd rfl
    exact absurd hd (by decide)
  have hslash : isBlank '/' = false := by decide
  induction t generalizing s out width with
  | last g =>
      have hnone := blockCommentWidth?_append (fun d hd => hblank d (g.blank d hd)) []
      rw [List.append_nil] at hnone
      rw [Spaced.text_last, hnone] at hwidth
      cases hwidth
  | next g c v rest ih =>
      obtain ⟨skip, s', out', rfl, hskip, hlaid, hbegun, hnext⟩ := h.exists_next
      have hsource : ∀ d ∈ g.chars, d ≠ '*' := fun d hd => hblank d (g.blank d hd)
      have hformatted : ∀ d ∈ skip, d ≠ '*' := by
        intro d hd
        rcases hskip d hd with hd | rfl
        · exact hblank d hd
        · decide
      rw [Spaced.text_next, blockCommentWidth?_append hsource] at hwidth
      rw [blockCommentWidth?_append hformatted, Spaced.text_next]
      by_cases hend : c = '*' ∧ rest.text.head? = some '/'
      · obtain ⟨rfl, hhead⟩ := hend
        obtain ⟨more, hmore⟩ := List.head?_eq_some_iff.mp hhead
        obtain ⟨rest', rfl, rfl⟩ := Spaced.exists_next hmore hslash
        have hready : s.Ready := by
          refine haligned.ready fun hequals => ?_
          obtain ⟨_, _, _, hcontra, -⟩ := (head?_text_eq_iff _).mp hequals
          cases hcontra
        obtain ⟨out'', rfl, hlaid', hmark⟩ := hlaid.plain_next (by decide) (by decide)
          (hbegun hready).before ((hbegun hready).mark_apart (by decide))
        obtain rfl : 2 + g.chars.length = width := by simpa [blockCommentWidth?] using hwidth
        refine ⟨2 + skip.length, rfl, rest', _, ?_, ?_, ready_of_apart hmark⟩
        · simp [Nat.add_comm 2]
        · simpa [Nat.add_comm 2] using hlaid'
      · have hpass : c = '*' → rest.text.head? ≠ some '/' := fun hc hhead => hend ⟨hc, hhead⟩
        have hpass' : c = '*' → out'.head? ≠ some '/' := by
          intro hc hhead
          exact hpass hc ((hlaid.loose hhead).resolve_right (by decide))
        rw [blockCommentWidth?_cons hpass] at hwidth
        rw [blockCommentWidth?_cons hpass']
        cases hinner : blockCommentWidth? rest.text with
        | none =>
            rw [hinner] at hwidth
            cases hwidth
        | some inner =>
            obtain ⟨inner', hinner', hbetween⟩ := ih hlaid (hnext haligned) hinner
            obtain rfl : inner + 1 + g.chars.length = width := by simpa [hinner] using hwidth
            refine ⟨inner' + 1 + skip.length, by rw [hinner']; rfl, ?_⟩
            have hdrop : ∀ (front : List Char) (ds : List Char) (n : Nat),
                (front ++ c :: ds).drop (n + 1 + front.length) = ds.drop n := by
              intro front ds n
              rw [Nat.add_comm, ← List.drop_drop, List.drop_left, List.drop_succ_cons]
            rw [hdrop, hdrop]
            exact hbetween

theorem Behind.block {rest : List Char} (h : Behind added '/' ('*' :: rest) out) {width : Nat}
    (hwidth : blockCommentWidth? rest = some width) :
    ∃ width', scan '/' out = .gap width' ∧
      Between added (rest.drop width) (('/' :: out).drop width') := by
  have v : isBlank '*' = false := by decide
  obtain ⟨t, s, htext, hlaid, hbegun⟩ := h
  obtain ⟨t, rfl, rfl⟩ := Spaced.exists_next htext v
  obtain ⟨out, rfl, hlaid', -⟩ := hlaid.plain_next (b := '/') (by decide) (by decide) hbegun.before
    (hbegun.mark_apart (by decide))
  obtain ⟨inner, hinner, hbetween⟩ := hlaid'.block hbegun.aligned.advance hwidth
  refine ⟨inner + 2, ?_, hbetween⟩
  have hspace : isSpace '/' = false := by decide
  simp [scan, hspace, hinner]

end ScriptLens.Layout
