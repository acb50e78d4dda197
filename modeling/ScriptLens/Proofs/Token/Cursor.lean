import ScriptLens.Proofs.Text.Display
import ScriptLens.Proofs.Token.Remarks

/-!
# Reading with a cursor

A cursor is where reading stands in a text: the number of characters before it, its line and its column, and where
the line starts.  It moves by one character at a time.  Behind each line of documentation the cursor is saved and
moved on, over the end of the line and the blanks below it, to look for another such line.  If there is none, the
cursor is put back.

A scan knows no cursor, only how wide the thing at the front of a text is.  Both ways lead to the same tokens at the
same locations, and a fault quotes the same line.

Main statements: `readDoc_behind` and `readAll_start`.
-/

namespace ScriptLens.Token

open Text Layout

/-- Where reading stands in a text. -/
structure Cursor where
  offset : Nat
  line : Nat
  column : Nat
  lineStart : Nat
deriving DecidableEq, Repr

namespace Cursor

/-! ### Moving -/

/-- The start of a text. -/
def start : Cursor :=
  ⟨0, 1, 1, 0⟩

/-- The location of a cursor. -/
def location (cursor : Cursor) (file : Option String) : Location :=
  ⟨cursor.line, cursor.column, cursor.offset, file⟩

variable (source : List Char)

/-- The character some places ahead. -/
def peek (cursor : Cursor) (ahead : Nat) : Option Char :=
  source[cursor.offset + ahead]?

/-- Move over a character.  Behind a line feed a line starts. -/
def advance (cursor : Cursor) : Cursor :=
  match cursor.peek source 0 with
  | none => cursor
  | some c =>
      if c = '\n' then ⟨cursor.offset + 1, cursor.line + 1, 1, cursor.offset + 1⟩
      else { cursor with offset := cursor.offset + 1, column := cursor.column + 1 }

/-- Move over some characters. -/
def advanceBy (cursor : Cursor) : Nat → Cursor
  | 0 => cursor
  | count + 1 => (cursor.advance source).advanceBy count

/-- The line that a cursor is on. -/
def lineText (cursor : Cursor) : List Char :=
  (source.drop cursor.lineStart).takeWhile (· ≠ '\n')

theorem offset_le_advance (cursor : Cursor) : cursor.offset ≤ (cursor.advance source).offset := by
  unfold advance
  split
  · exact Nat.le_refl _
  · split <;> exact Nat.le_succ _

theorem offset_le_advanceBy (cursor : Cursor) (count : Nat) :
    cursor.offset ≤ (cursor.advanceBy source count).offset := by
  induction count generalizing cursor with
  | zero => exact Nat.le_refl _
  | succ count ih => exact Nat.le_trans (cursor.offset_le_advance source) (ih _)

variable {source}

/-- A cursor before a character moves. -/
theorem offset_advance {cursor : Cursor} {c : Char} (h : cursor.peek source 0 = some c) :
    (cursor.advance source).offset = cursor.offset + 1 := by
  unfold advance
  rw [h]
  dsimp only
  split <;> rfl

theorem offset_lt_length {cursor : Cursor} {c : Char} (h : cursor.peek source 0 = some c) :
    cursor.offset < source.length :=
  (List.getElem?_eq_some_iff.mp h).1

/-- A cursor before a character has less text before it when it has moved. -/
theorem offset_advanceBy {cursor : Cursor} {c : Char} (h : cursor.peek source 0 = some c) {count : Nat}
    (hcount : 1 ≤ count) :
    source.length - (cursor.advanceBy source count).offset < source.length - cursor.offset := by
  obtain ⟨more, rfl⟩ : ∃ more, count = more + 1 := ⟨count - 1, by omega⟩
  have hone := offset_advance h
  have hmore := (cursor.advance source).offset_le_advanceBy source more
  have hlength := offset_lt_length h
  rw [advanceBy]
  omega

/-! ### Documentation -/

variable (source)

/-- Move over a run of characters, and collect them. -/
def passRun (p : Char → Bool) (collected : List Char) (cursor : Cursor) : List Char × Cursor :=
  match _hpeek : cursor.peek source 0 with
  | none => (collected, cursor)
  | some c =>
      if p c then passRun p (collected ++ [c]) (cursor.advance source) else (collected, cursor)
termination_by source.length - cursor.offset
decreasing_by exact offset_advanceBy _hpeek (Nat.le_refl 1)

/-- Whether a cursor stands before three slashes. -/
def atDoc (cursor : Cursor) : Bool :=
  cursor.peek source 0 = some '/' && cursor.peek source 1 = some '/' && cursor.peek source 2 = some '/'

/-- Move over a line of documentation, from its slashes to the end of the line. -/
def readDocLine (cursor : Cursor) : List Char × Cursor :=
  let behind := cursor.advanceBy source 3
  let said := if behind.peek source 0 = some ' ' then behind.advance source else behind
  (said.passRun source (· ≠ '\n') []).map trimRight id

/-- Move over the end of a line and the blanks below it. -/
def passIndent (cursor : Cursor) : Cursor :=
  let below := if cursor.peek source 0 = some '\n' then cursor.advance source else cursor
  (below.passRun source isIndent []).2

theorem offset_le_passRun (p : Char → Bool) (collected : List Char) (cursor : Cursor) :
    cursor.offset ≤ (cursor.passRun source p collected).2.offset := by
  fun_induction passRun source p collected cursor with
  | case1 collected cursor h => exact Nat.le_refl _
  | case2 collected cursor c h hc ih => exact Nat.le_trans (cursor.offset_le_advance source) ih
  | case3 collected cursor c h hc => exact Nat.le_refl _

theorem offset_le_passIndent (cursor : Cursor) : cursor.offset ≤ (cursor.passIndent source).offset := by
  unfold passIndent
  dsimp only
  refine Nat.le_trans ?_ (offset_le_passRun source _ _ _)
  split
  · exact offset_le_advance source _
  · exact Nat.le_refl _

variable {source} in
theorem peek_of_atDoc {cursor : Cursor} (h : cursor.atDoc source = true) :
    cursor.peek source 0 = some '/' := by
  simp only [atDoc, Bool.and_eq_true, decide_eq_true_eq] at h
  exact h.1.1

variable {source} in
theorem offset_lt_readDocLine {cursor : Cursor} (h : cursor.atDoc source = true) :
    cursor.offset < (cursor.readDocLine source).2.offset := by
  have hslash := offset_advance (peek_of_atDoc h)
  have hslashes := (cursor.advance source).offset_le_advanceBy source 2
  have hsaid : (cursor.advanceBy source 3).offset ≤ (cursor.readDocLine source).2.offset := by
    unfold readDocLine
    dsimp only
    refine Nat.le_trans ?_ (offset_le_passRun source _ _ _)
    split
    · exact offset_le_advance source _
    · exact Nat.le_refl _
  exact Nat.lt_of_lt_of_le (by rw [advanceBy]; omega) hsaid

/-- Read lines of documentation right below each other.  The cursor behind a line is saved, and put back if no
such line stands below. -/
def readDoc (lines : List (List Char)) (cursor : Cursor) : List (List Char) × Cursor :=
  if _hdoc : cursor.atDoc source then
    let line := cursor.readDocLine source
    let saved := line.2
    let ahead := saved.passIndent source
    if ahead.atDoc source then readDoc (lines ++ [line.1]) ahead else (lines ++ [line.1], saved)
  else (lines, cursor)
termination_by source.length - cursor.offset
decreasing_by
  have hline := offset_lt_readDocLine _hdoc
  have hindent := (cursor.readDocLine source).2.offset_le_passIndent source
  have hlength := offset_lt_length (peek_of_atDoc _hdoc)
  omega

variable {source} in
theorem offset_lt_readDoc {cursor : Cursor} (h : cursor.atDoc source = true) (lines : List (List Char)) :
    cursor.offset < (cursor.readDoc source lines).2.offset := by
  fun_induction readDoc source lines cursor with
  | case1 lines cursor hdoc line saved ahead hahead ih =>
      calc cursor.offset < saved.offset := offset_lt_readDocLine h
        _ ≤ ahead.offset := saved.offset_le_passIndent source
        _ < _ := ih hahead
  | case2 lines cursor hdoc line saved ahead hahead => exact offset_lt_readDocLine h
  | case3 lines cursor hdoc => exact absurd h hdoc

/-! ### The whole text -/

/-- A fault that is reported after some characters, with the line that the cursor is on there.  A comment that is
never closed is noticed at the end of the text. -/
def faultAfter (cursor : Cursor) (cause : Cause) (before : Nat) (file : Option String) : Failure :=
  let place := cursor.advanceBy source before
  let noticed := if cause = .openComment then cursor.advanceBy source source.length else place
  .fault
    { stage := .lexical
      text := cause.message
      location := some (place.location file)
      sourceLine := some (String.ofList (noticed.lineText source)) }

/-- Read all tokens from a cursor on. -/
def readAll (file : Option String) (cursor : Cursor) : Except Failure (List Token) :=
  match _hpeek : cursor.peek source 0 with
  | none => .ok [⟨.eof, cursor.location file⟩]
  | some c =>
      if _hdoc : cursor.atDoc source then
        let doc := cursor.readDoc source []
        (⟨.doc (String.ofList (unlines doc.1)), cursor.location file⟩ :: ·) <$> readAll file doc.2
      else
        match _hscan : scan c (source.drop (cursor.offset + 1)) with
        | .gap width => readAll file (cursor.advanceBy source width)
        | .token kind width =>
            (⟨kind, cursor.location file⟩ :: ·) <$> readAll file (cursor.advanceBy source width)
        | .fault cause before => .error (cursor.faultAfter source cause before file)
        | .valueless text => .error (.numeral (String.ofList text))
termination_by source.length - cursor.offset
decreasing_by
  · have hlength := offset_lt_length _hpeek
    have hmoved := offset_lt_readDoc _hdoc []
    omega
  · exact offset_advanceBy _hpeek (scan_gap_width_pos _hscan)
  · exact offset_advanceBy _hpeek (scan_token_width_pos _hscan)

/-! ### Cursors behind a text -/

/-- The cursor behind the first part of a text. -/
def behind (front : List Char) : Cursor :=
  ⟨front.length, front.count '\n' + 1, lastWidth front + 1, front.length - lastWidth front⟩

theorem location_behind (front : List Char) (file : Option String) :
    (behind front).location file = (Location.start file).after front := by
  have hline := Location.line_after (Location.start file) front
  have hcolumn := Location.column_after_start file front
  have hoffset := Location.offset_after_start file front
  have hfile := Location.file_after (Location.start file) front
  generalize (Location.start file).after front = loc at hline hcolumn hoffset hfile ⊢
  cases loc with
  | mk line column offset name =>
      simp only [Location.start] at hline hcolumn hoffset hfile
      simp only [location, behind, Location.mk.injEq]
      exact ⟨by omega, by omega, hoffset.symm, hfile.symm⟩

theorem peek_behind (front rest : List Char) (ahead : Nat) :
    (behind front).peek (front ++ rest) ahead = rest[ahead]? := by
  rw [peek, behind, List.getElem?_append_right (Nat.le_add_right _ _), Nat.add_sub_cancel_left]

theorem advance_behind (front : List Char) (c : Char) (rest : List Char) :
    (behind front).advance (front ++ c :: rest) = behind (front ++ [c]) := by
  have hwidth := lastWidth_le front
  rw [advance, peek_behind]
  dsimp only [List.getElem?_cons_zero]
  by_cases hc : c = '\n'
  · subst hc
    rw [if_pos rfl]
    simp [behind, lastWidth_feed front List.not_mem_nil]
  · have hfeed : '\n' ∉ [c] := by simpa using Ne.symm hc
    rw [if_neg hc]
    simp [behind, lastWidth_append front hfeed, hc]

theorem peek_end (source : List Char) : (behind source).peek source 0 = none := by
  have hpeek := peek_behind source [] 0
  rwa [List.append_nil] at hpeek

/-- At the end of a text a cursor stays. -/
theorem advance_end (source : List Char) : (behind source).advance source = behind source := by
  rw [advance, peek_end]

theorem advanceBy_behind (front rest : List Char) (count : Nat) :
    (behind front).advanceBy (front ++ rest) count = behind (front ++ rest.take count) := by
  induction count generalizing front rest with
  | zero => simp [advanceBy]
  | succ count ih =>
      cases rest with
      | nil =>
          have hend := ih front []
          simp only [List.append_nil, List.take_nil] at hend ⊢
          rw [advanceBy, advance_end, hend]
      | cons c rest =>
          have hrest := ih (front ++ [c]) rest
          rw [List.append_assoc] at hrest
          rw [advanceBy, advance_behind]
          simpa using hrest

variable {source} in
theorem passRun_of_peek {cursor : Cursor} {c : Char} (h : cursor.peek source 0 = some c) (p : Char → Bool)
    (collected : List Char) :
    cursor.passRun source p collected =
      if p c then (cursor.advance source).passRun source p (collected ++ [c]) else (collected, cursor) := by
  rw [passRun]
  split
  · rename_i hnone
    rw [h] at hnone
    cases hnone
  · rename_i d hsome
    rw [h] at hsome
    rw [Option.some.inj hsome]

theorem passRun_behind (p : Char → Bool) (collected front rest : List Char) :
    (behind front).passRun (front ++ rest) p collected =
      (collected ++ rest.takeWhile p, behind (front ++ rest.takeWhile p)) := by
  induction rest generalizing collected front with
  | nil =>
      rw [passRun]
      split
      · simp
      · rename_i c hsome
        rw [peek_behind] at hsome
        cases hsome
  | cons c rest ih =>
      have hrest := ih (collected ++ [c]) (front ++ [c])
      rw [List.append_assoc] at hrest
      rw [passRun_of_peek (peek_behind front (c :: rest) 0), advance_behind, List.takeWhile_cons]
      split
      · simpa using hrest
      · simp

/-! ### Documentation at a cursor -/

theorem atDoc_behind (front rest : List Char) :
    (behind front).atDoc (front ++ rest) = true ↔ ['/', '/', '/'] <+: rest := by
  simp only [atDoc, peek_behind, Bool.and_eq_true, decide_eq_true_eq]
  constructor
  · intro hslashes
    rcases rest with _ | ⟨a, _ | ⟨b, _ | ⟨c, rest⟩⟩⟩
    · simp at hslashes
    · simp at hslashes
    · simp at hslashes
    · obtain ⟨⟨rfl, rfl⟩, rfl⟩ : (a = '/' ∧ b = '/') ∧ c = '/' := by simpa using hslashes
      exact List.prefix_append ['/', '/', '/'] rest
  · rintro ⟨rest, rfl⟩
    exact ⟨⟨rfl, rfl⟩, rfl⟩

/-- A line is the run up to the next line feed. -/
theorem takeWhile_to_feed {line below : List Char} (hline : '\n' ∉ line)
    (hbelow : ∀ c, below.head? = some c → c = '\n') : (line ++ below).takeWhile (· ≠ '\n') = line := by
  refine takeWhile_append_stop (fun c hc => ?_) (fun c hc => ?_)
  · have hne : c ≠ '\n' := fun heq => hline (heq ▸ hc)
    simpa using hne
  · simp [hbelow c hc]

/-- A line of documentation is read up to its end. -/
theorem readDocLine_behind (front : List Char) {said below : List Char} (hfeed : '\n' ∉ said)
    (hbelow : ∀ c, below.head? = some c → c = '\n') :
    (behind front).readDocLine (front ++ '/' :: '/' :: '/' :: (said ++ below)) =
      (docLine said, behind (front ++ '/' :: '/' :: '/' :: said)) := by
  have hslashes : (behind front).advanceBy (front ++ '/' :: '/' :: '/' :: (said ++ below)) 3 =
      behind (front ++ ['/', '/', '/']) := advanceBy_behind front _ 3
  have hsource : front ++ '/' :: '/' :: '/' :: (said ++ below) = (front ++ ['/', '/', '/']) ++ (said ++ below) := by
    simp
  rw [readDocLine, hslashes, hsource]
  generalize hgone : front ++ ['/', '/', '/'] = gone
  have hbehind : front ++ '/' :: '/' :: '/' :: said = gone ++ said := by
    rw [← hgone]
    simp
  rw [peek_behind, hbehind]
  by_cases hspace : ∃ text, said = ' ' :: text
  · obtain ⟨text, rfl⟩ := hspace
    have htext : '\n' ∉ text := fun hmem => hfeed (List.mem_cons_of_mem _ hmem)
    have hblank : gone ++ (' ' :: text ++ below) = (gone ++ [' ']) ++ (text ++ below) := by simp
    rw [List.cons_append, List.getElem?_cons_zero, if_pos rfl, advance_behind, ← List.cons_append, hblank,
      passRun_behind, takeWhile_to_feed htext hbelow]
    simp [docLine, Prod.map]
  · have hpeek : (said ++ below)[0]? ≠ some ' ' := by
      intro hblank
      cases said with
      | nil => exact absurd (hbelow ' ' (List.head?_eq_getElem? ▸ hblank)) (by decide)
      | cons c text => exact hspace ⟨text, by rw [Option.some.inj hblank]⟩
    have hline : docLine said = trimRight said := by
      unfold docLine
      split
      · exact absurd ⟨_, rfl⟩ hspace
      · rfl
    rw [if_neg hpeek, passRun_behind, takeWhile_to_feed hfeed hbelow, hline]
    rfl

/-- Looking below a line passes over its end and the blanks there. -/
theorem passIndent_behind (front below : List Char) :
    (behind front).passIndent (front ++ '\n' :: below) =
      behind (front ++ '\n' :: below.takeWhile isIndent) := by
  have hsource : front ++ '\n' :: below = (front ++ ['\n']) ++ below := by simp
  rw [passIndent, peek_behind, List.getElem?_cons_zero, if_pos rfl, advance_behind, hsource, passRun_behind]
  simp

theorem passIndent_end (source : List Char) : (behind source).passIndent source = behind source := by
  have hrun := passRun_behind isIndent [] source []
  rw [List.append_nil] at hrun
  rw [passIndent, peek_end, if_neg (by simp), hrun]
  simp


/-- Where no documentation goes on, looking below finds none. -/
theorem atDoc_passIndent_of_endsBlock (front : List Char) {below : List Char} (h : EndsBlock below) :
    ((behind front).passIndent (front ++ below)).atDoc (front ++ below) = false := by
  rcases h with rfl | ⟨rest, rfl, hnone⟩
  · have hdoc := atDoc_behind front []
    rw [List.append_nil] at hdoc ⊢
    rw [passIndent_end, Bool.eq_false_iff]
    exact fun hslashes => by simpa using hdoc.mp hslashes
  · have hcut : front ++ '\n' :: rest =
        (front ++ '\n' :: rest.takeWhile isIndent) ++ rest.dropWhile isIndent := by
      simp [List.takeWhile_append_dropWhile]
    have hindent : ∀ d ∈ rest.takeWhile isIndent, isIndent d = true :=
      fun d hd => List.all_eq_true.mp List.all_takeWhile d hd
    rw [passIndent_behind, hcut, Bool.eq_false_iff]
    intro hslashes
    obtain ⟨more, hmore⟩ := (atDoc_behind _ _).mp hslashes
    have hblock : docBlock (rest.takeWhile isIndent ++ rest.dropWhile isIndent) ≠ [] := by
      rw [← hmore]
      exact docBlock_ne_nil hindent more
    rw [List.takeWhile_append_dropWhile] at hblock
    exact hblock hnone

variable {source} in
theorem readDoc_of_line {cursor saved : Cursor} {line : List Char} (hdoc : cursor.atDoc source = true)
    (hline : cursor.readDocLine source = (line, saved)) (lines : List (List Char)) :
    cursor.readDoc source lines =
      if (saved.passIndent source).atDoc source then
        (saved.passIndent source).readDoc source (lines ++ [line])
      else (lines ++ [line], saved) := by
  rw [readDoc, dif_pos hdoc, hline]

/-- The last line of a block is read, and the cursor is put back behind it. -/
theorem readDoc_last (front : List Char) (lines : List (List Char)) {text below : List Char}
    (hfeed : '\n' ∉ text) (h : EndsBlock below) :
    (behind front).readDoc (front ++ '/' :: '/' :: '/' :: (text ++ below)) lines =
      (lines ++ [docLine text], behind (front ++ '/' :: '/' :: '/' :: text)) := by
  have hdoc : (behind front).atDoc (front ++ '/' :: '/' :: '/' :: (text ++ below)) = true :=
    (atDoc_behind front _).mpr (List.prefix_append ['/', '/', '/'] (text ++ below))
  have hstop : ∀ c, below.head? = some c → c = '\n' := by
    rcases h with rfl | ⟨rest, rfl, -⟩
    · simp
    · simp [eq_comm]
  have hbelow := atDoc_passIndent_of_endsBlock (front ++ '/' :: '/' :: '/' :: text) h
  rw [List.append_assoc] at hbelow
  rw [readDoc_of_line hdoc (readDocLine_behind front hfeed hstop)]
  exact if_neg (Bool.eq_false_iff.mp hbelow)

/-- A line of a block is read, and the cursor goes on to the line below it. -/
theorem readDoc_feed (front : List Char) (lines : List (List Char)) {text k : List Char}
    (hfeed : '\n' ∉ text) (hk : ∀ d ∈ k, isIndent d = true) (more : List Char) :
    let line := '/' :: '/' :: '/' :: text
    let rest := '/' :: '/' :: '/' :: more
    (behind front).readDoc (front ++ (line ++ '\n' :: (k ++ rest))) lines =
      (behind (front ++ (line ++ '\n' :: k))).readDoc (front ++ (line ++ '\n' :: (k ++ rest)))
        (lines ++ [docLine text]) := by
  intro line rest
  have hdoc : (behind front).atDoc (front ++ (line ++ '\n' :: (k ++ rest))) = true :=
    (atDoc_behind front _).mpr (List.prefix_append ['/', '/', '/'] _)
  have hline : (behind front).readDocLine (front ++ (line ++ '\n' :: (k ++ rest))) =
      (docLine text, behind (front ++ line)) := readDocLine_behind front hfeed (by simp [eq_comm])
  have hrun : (k ++ rest).takeWhile isIndent = k := takeWhile_append_stop hk (by simp [rest, isIndent])
  have hahead := passIndent_behind (front ++ line) (k ++ rest)
  rw [hrun, List.append_assoc, List.append_assoc] at hahead
  have hbelow : (behind (front ++ (line ++ '\n' :: k))).atDoc
      ((front ++ (line ++ '\n' :: k)) ++ rest) = true :=
    (atDoc_behind _ rest).mpr (List.prefix_append ['/', '/', '/'] more)
  rw [readDoc_of_line hdoc hline, hahead, if_pos]
  simpa using hbelow

/-- Where a block goes on, its next line stands behind blanks. -/
theorem exists_slashes_below {below : List Char} (hstop : ∀ c, below.head? = some c → c = '\n')
    (h : ¬ EndsBlock below) :
    ∃ k more, (∀ d ∈ k, isIndent d = true) ∧ below = '\n' :: (k ++ '/' :: '/' :: '/' :: more) := by
  obtain ⟨rest, rfl, hblock⟩ := exists_of_not_endsBlock hstop h
  have hslashes : ['/', '/', '/'] <+: rest.dropWhile isIndent := by
    by_contra hnone
    exact hblock (docBlock_eq_nil hnone)
  obtain ⟨more, hmore⟩ := hslashes
  refine ⟨rest.takeWhile isIndent, more, fun d hd => List.all_eq_true.mp List.all_takeWhile d hd, ?_⟩
  have hcut : rest.takeWhile isIndent ++ (['/', '/', '/'] ++ more) = rest := by
    rw [hmore, List.takeWhile_append_dropWhile]
  exact congrArg ('\n' :: ·) hcut.symm

/-- The lines of documentation at the front of a text are read with what they say, and the cursor ends up behind the
last of them. -/
theorem readDoc_behind (front : List Char) (lines : List (List Char)) (said : List Char) :
    (behind front).readDoc (front ++ '/' :: '/' :: '/' :: said) lines =
      (lines ++ docTexts ('/' :: '/' :: '/' :: said),
        behind (front ++ ('/' :: '/' :: '/' :: said).take (docWidth ('/' :: '/' :: '/' :: said)))) := by
  -- by the length of the text: a block goes on with a shorter one, or ends
  induction hn : said.length using Nat.strongRecOn generalizing front lines said with
  | ind n ih =>
      subst hn
      obtain ⟨text, below, rfl, htext, hbelow⟩ := exists_run (· ≠ '\n') said
      have hfeed : '\n' ∉ text := fun hmem => by simpa using htext _ hmem
      have hlinefeed : '\n' ∉ '/' :: '/' :: '/' :: text := by simpa using hfeed
      have hdoc : docText? ('/' :: '/' :: '/' :: text) = some text := rfl
      by_cases hends : EndsBlock below
      · have htexts : docTexts ('/' :: '/' :: '/' :: (text ++ below)) = [docLine text] :=
          docTexts_of_endsBlock hlinefeed hdoc hends
        have hwidth : docWidth ('/' :: '/' :: '/' :: (text ++ below)) = ('/' :: '/' :: '/' :: text).length :=
          docWidth_of_endsBlock hlinefeed rfl hends
        have htake : ('/' :: '/' :: '/' :: (text ++ below)).take ('/' :: '/' :: '/' :: text).length =
            '/' :: '/' :: '/' :: text := List.take_left
        rw [readDoc_last front lines hfeed hends, htexts, hwidth, htake]
      · have hstop : ∀ c, below.head? = some c → c = '\n' := fun c hc => by simpa using hbelow c hc
        obtain ⟨k, more, hk, rfl⟩ := exists_slashes_below hstop hends
        have hblock : docBlock ('/' :: '/' :: '/' :: more) ≠ [] := docBlock_ne_nil (k := []) (by simp) more
        have htexts : docTexts ('/' :: '/' :: '/' :: (text ++ '\n' :: (k ++ '/' :: '/' :: '/' :: more))) =
            docLine text :: docTexts ('/' :: '/' :: '/' :: more) := by
          rw [← docTexts_indent hk hblock]
          exact docTexts_feed hlinefeed hdoc _
        have hwidth : docWidth ('/' :: '/' :: '/' :: (text ++ '\n' :: (k ++ '/' :: '/' :: '/' :: more))) =
            ('/' :: '/' :: '/' :: (text ++ '\n' :: k)).length + docWidth ('/' :: '/' :: '/' :: more) :=
          docWidth_below hlinefeed rfl hk hblock
        have hrest := ih more.length (by simp; omega) (front ++ '/' :: '/' :: '/' :: (text ++ '\n' :: k))
          (lines ++ [docLine text]) more rfl
        have htake : (('/' :: '/' :: '/' :: (text ++ '\n' :: k)) ++ '/' :: '/' :: '/' :: more).take
            (('/' :: '/' :: '/' :: (text ++ '\n' :: k)).length + docWidth ('/' :: '/' :: '/' :: more)) =
              '/' :: '/' :: '/' :: (text ++ '\n' :: k) ++
                ('/' :: '/' :: '/' :: more).take (docWidth ('/' :: '/' :: '/' :: more)) :=
          List.take_length_add_append _
        rw [htexts, hwidth]
        refine (readDoc_feed front lines hfeed hk more).trans ?_
        simp only [List.append_assoc, List.cons_append] at hrest htake ⊢
        rw [hrest, htake]
        simp

/-! ### All tokens from a cursor on -/

/-- The line that a cursor is on is the line with its number. -/
theorem lineText_behind (front rest : List Char) :
    (behind front).lineText (front ++ rest) = (lines (front ++ rest))[front.count '\n']?.getD [] := by
  obtain ⟨above, first, ending, below, hcut, hfront, -, hcount, hwidth⟩ := exists_lineCut front rest
  have hstart : (behind front).lineStart = above.length := by
    change front.length - lastWidth front = above.length
    rw [← hwidth, hfront, List.length_append, Nat.add_sub_cancel]
  have hbelow : ∀ c, below.head? = some c → c = '\n' := by
    rcases hcut.below with rfl | ⟨more, rfl⟩
    · simp
    · simp [eq_comm]
  rw [← hcount, hcut.getElem?_lines, lineText, hstart, hcut.cut, List.drop_left,
    takeWhile_to_feed hcut.line hbelow]
  rfl

theorem lineText_end (source : List Char) :
    (behind source).lineText source = (lines source).getLast?.getD [] := by
  have hline := lineText_behind source []
  rw [List.append_nil] at hline
  rw [hline, List.getLast?_eq_getElem?, length_lines, Nat.add_sub_cancel]

variable {source} in
theorem readAll_of_scan {cursor : Cursor} {c : Char} (hpeek : cursor.peek source 0 = some c)
    (hdoc : ¬ cursor.atDoc source = true) (file : Option String) :
    cursor.readAll source file =
      match scan c (source.drop (cursor.offset + 1)) with
      | .gap width => (cursor.advanceBy source width).readAll source file
      | .token kind width =>
          (⟨kind, cursor.location file⟩ :: ·) <$> (cursor.advanceBy source width).readAll source file
      | .fault cause before => .error (cursor.faultAfter source cause before file)
      | .valueless text => .error (.numeral (String.ofList text)) := by
  rw [readAll]
  split
  · rename_i hnone
    rw [hpeek] at hnone
    cases hnone
  · rename_i d hsome
    obtain rfl : c = d := Option.some.inj (hpeek.symm.trans hsome)
    rw [dif_neg hdoc]
    split <;> simp_all

variable {source} in
theorem readAll_of_doc {cursor : Cursor} (hdoc : cursor.atDoc source = true) (file : Option String) :
    cursor.readAll source file =
      (⟨.doc (String.ofList (unlines (cursor.readDoc source []).1)), cursor.location file⟩ :: ·) <$>
        (cursor.readDoc source []).2.readAll source file := by
  rw [readAll]
  split
  · rename_i hnone
    rw [peek_of_atDoc hdoc] at hnone
    cases hnone
  · rw [dif_pos hdoc]

/-- A fault has the location and quotes the line that it has without a cursor. -/
theorem faultAfter_behind (front rest : List Char) (cause : Cause) (before : Nat) (file : Option String) :
    (behind front).faultAfter (front ++ rest) cause before file =
      Stop.toFailure (front ++ rest)
        (.fault cause (((Location.start file).after front).after (rest.take before))) := by
  have hplace : (behind front).advanceBy (front ++ rest) before = behind (front ++ rest.take before) :=
    advanceBy_behind front rest before
  have hend : (behind front).advanceBy (front ++ rest) (front ++ rest).length = behind (front ++ rest) := by
    rw [advanceBy_behind, List.take_of_length_le (by simp)]
  have hline : (behind (front ++ rest.take before)).lineText (front ++ rest) =
      (lines (front ++ rest))[(front ++ rest.take before).count '\n']?.getD [] := by
    have htake := lineText_behind (front ++ rest.take before) (rest.drop before)
    rwa [List.append_assoc, List.take_append_drop] at htake
  have hquoted : (if cause = .openComment then behind (front ++ rest)
      else behind (front ++ rest.take before)).lineText (front ++ rest) =
        quotedLine (front ++ rest) cause ((Location.start file).after (front ++ rest.take before)) := by
    have hnumber : (((Location.start file).after (front ++ rest.take before)).line - 1).toNat =
        (front ++ rest.take before).count '\n' := by
      rw [Location.line_after]
      change (1 + ((front ++ rest.take before).count '\n' : Int) - 1).toNat = _
      omega
    by_cases hcause : cause = .openComment
    · rw [if_pos hcause, lineText_end, hcause]
      rfl
    · rw [if_neg hcause, hline, ← hnumber]
      cases cause with
      | openComment => exact absurd rfl hcause
      | _ => rfl
  rw [← Location.after_append]
  simp only [faultAfter, hplace, hend, hquoted, location_behind, Stop.toFailure]

/-- Without documentation at the front, reading goes on with what the scan finds. -/
theorem readAll_behind_scan (front : List Char) {c : Char} {cs : List Char}
    (h : ¬ ['/', '/', '/'] <+: c :: cs) (file : Option String) :
    (behind front).readAll (front ++ c :: cs) file =
      match scan c cs with
      | .gap width => (behind (front ++ (c :: cs).take width)).readAll (front ++ c :: cs) file
      | .token kind width =>
          (⟨kind, (Location.start file).after front⟩ :: ·) <$>
            (behind (front ++ (c :: cs).take width)).readAll (front ++ c :: cs) file
      | .fault cause before =>
          .error (Stop.toFailure (front ++ c :: cs)
            (.fault cause (((Location.start file).after front).after ((c :: cs).take before))))
      | .valueless text => .error (.numeral (String.ofList text)) := by
  have hdoc : ¬ (behind front).atDoc (front ++ c :: cs) = true := fun hdoc => h ((atDoc_behind front _).mp hdoc)
  have hdrop : (front ++ c :: cs).drop ((behind front).offset + 1) = cs := by simp [behind]
  rw [readAll_of_scan (peek_behind front (c :: cs) 0) hdoc, hdrop, location_behind]
  simp only [advanceBy_behind, faultAfter_behind]

/-- Three slashes are the start of a token. -/
theorem not_prefix_of_scan {c : Char} {cs : List Char} (h : ∀ kind width, scan c cs ≠ .token kind width) :
    ¬ ['/', '/', '/'] <+: c :: cs := by
  rintro ⟨said, hsaid⟩
  obtain ⟨rfl, rfl⟩ := List.cons.inj hsaid
  exact h _ _ (scanDoc_eq ('/' :: '/' :: '/' :: said))

theorem mapError_map {ε ε' α β : Type} (f : α → β) (g : ε → ε') (x : Except ε α) :
    (f <$> x).mapError g = f <$> x.mapError g := by
  cases x <;> rfl

/-- Reading from the cursor behind the front of a text gives the tokens of the rest, or fails as reading them does. -/
def Agrees (file : Option String) (front rest : List Char) : Prop :=
  (behind front).readAll (front ++ rest) file =
    (tokensFrom 0 ((Location.start file).after front) rest).mapError (Stop.toFailure (front ++ rest))

/-- The agreement behind what was found at the front of the rest. -/
theorem Agrees.moved {file : Option String} {front rest : List Char} {width : Nat}
    (h : Agrees file (front ++ rest.take width) (rest.drop width)) :
    (behind (front ++ rest.take width)).readAll (front ++ rest) file =
      (tokensFrom 0 (((Location.start file).after front).after (rest.take width)) (rest.drop width)).mapError
        (Stop.toFailure (front ++ rest)) := by
  rwa [Agrees, List.append_assoc, List.take_append_drop, Location.after_append] at h

theorem agrees (file : Option String) (rest front : List Char) : Agrees file front rest := by
  induction rest using cut_induction generalizing front with
  | nil =>
      have hpeek := peek_behind front [] 0
      rw [Agrees, readAll, tokensFrom]
      split
      · rw [location_behind]
        rfl
      · rename_i c hsome
        rw [hpeek] at hsome
        cases hsome
  | gap c cs width hscan ih =>
      have hslashes := not_prefix_of_scan fun kind width heq => by rw [hscan] at heq; cases heq
      rw [Agrees, readAll_behind_scan front hslashes, hscan, tokensFrom_gap hscan]
      exact (ih _).moved
  | token c cs kind width hscan ih =>
      have hrest := (ih (front ++ (c :: cs).take width)).moved
      rw [Agrees, tokensFrom_token hscan, mapError_map, ← hrest]
      by_cases hslashes : ['/', '/', '/'] <+: c :: cs
      · obtain ⟨said, hsaid⟩ := hslashes
        obtain ⟨rfl, rfl⟩ := List.cons.inj hsaid
        -- the scan looks at the lines, the cursor goes through them
        have hdoc : (behind front).atDoc (front ++ '/' :: '/' :: '/' :: said) = true :=
          (atDoc_behind front _).mpr (List.prefix_append ['/', '/', '/'] said)
        have hfound : scan '/' ('/' :: '/' :: said) = _ := scanDoc_eq ('/' :: '/' :: '/' :: said)
        obtain ⟨rfl, rfl⟩ := Scan.token.inj (hscan.symm.trans hfound)
        refine (readAll_of_doc hdoc file).trans ?_
        rw [readDoc_behind, location_behind]
        rfl
      · rw [readAll_behind_scan front hslashes, hscan]
  | fault c cs cause before hscan =>
      have hslashes := not_prefix_of_scan fun kind width heq => by rw [hscan] at heq; cases heq
      rw [Agrees, readAll_behind_scan front hslashes, hscan, tokensFrom, hscan]
      rfl
  | valueless c cs text hscan =>
      have hslashes := not_prefix_of_scan fun kind width heq => by rw [hscan] at heq; cases heq
      rw [Agrees, readAll_behind_scan front hslashes, hscan, tokensFrom, hscan]
      rfl

end Cursor

/-- Reading a text with a cursor from its start gives its tokens, or its failure. -/
theorem readAll_start (source : String) (file : Option String) :
    Cursor.start.readAll source.toList file = tokenize source file :=
  Cursor.agrees file source.toList []

end ScriptLens.Token
