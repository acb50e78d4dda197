import ScriptLens.Proofs.Located
import ScriptLens.Proofs.Session.History
import ScriptLens.Proofs.Token.Fronts

/-!
# The diagnostic of a text that cannot be read

A failure is about a place: that of its location, or the first one that its message names, or none.  Its
diagnostic underlines a token there, as long as the editor protocol has numbers for the place.  There is no
diagnostic of a place that is too far down or to the right, or that is named with too many digits to be read.

Main statement: `update_outcome`.
-/

namespace ScriptLens.Diagnosis

open Text

/-! ### Places named in a text -/

/-- A text starts with a colon and a number, behind which `rest` stands. -/
structure NumberAt (text digits rest : List Char) : Prop where
  cut : text = ':' :: (digits ++ rest)
  nonempty : digits ≠ []
  decimal : ∀ d ∈ digits, isDecimal d = true
  whole : ∀ d, rest.head? = some d → isDecimal d = false

theorem colonNumber?_eq_some_iff (text digits rest : List Char) :
    colonNumber? text = some (digits, rest) ↔ NumberAt text digits rest := by
  constructor
  · intro h
    unfold colonNumber? at h
    split at h
    · rename_i cs
      obtain ⟨run, behind, rfl, hrun, hbehind⟩ := Token.exists_run isDecimal cs
      dsimp only at h
      rw [Token.takeWhile_append_stop hrun hbehind, List.drop_left] at h
      split at h
      · cases h
      · rename_i hsome
        obtain ⟨rfl, rfl⟩ := Prod.mk.inj (Option.some.inj h)
        exact ⟨rfl, by simpa using hsome, hrun, hbehind⟩
    · cases h
  · rintro ⟨rfl, hsome, hrun, hrest⟩
    have hempty : digits.isEmpty = false := by simpa using hsome
    simp [colonNumber?, Token.takeWhile_append_stop hrun hrest, hempty]

/-- A text starts with two numbers, each behind a colon. -/
def PlaceAt (text line column : List Char) : Prop :=
  ∃ rest behind, NumberAt text line rest ∧ NumberAt rest column behind

/-- A text names a line and a column: they are the first two numbers in it that each stand behind a colon, one
right behind the other. -/
def Names (text line column : List Char) : Prop :=
  ∃ before rest, text = before ++ rest ∧ PlaceAt rest line column ∧
    ∀ front back l c, text = front ++ back → front.length < before.length → ¬PlaceAt back l c

theorem placeIn?_of_placeAt {text line column : List Char} (h : PlaceAt text line column) :
    placeIn? text = some (line, column) := by
  obtain ⟨rest, behind, hline, hcolumn⟩ := h
  have hfirst := (colonNumber?_eq_some_iff _ _ _).mpr hline
  have hsecond := (colonNumber?_eq_some_iff _ _ _).mpr hcolumn
  cases text with
  | nil => cases hline.cut
  | cons c cs => simp [placeIn?, hfirst, hsecond]

theorem placeIn?_of_not_placeAt {c : Char} {cs : List Char} (h : ∀ l k, ¬PlaceAt (c :: cs) l k) :
    placeIn? (c :: cs) = placeIn? cs := by
  rw [placeIn?]
  cases hfirst : colonNumber? (c :: cs) with
  | none => rfl
  | some first =>
      obtain ⟨line, rest⟩ := first
      cases hsecond : colonNumber? rest with
      | none => simp [hsecond]
      | some second =>
          obtain ⟨column, behind⟩ := second
          exact absurd ⟨rest, behind, (colonNumber?_eq_some_iff _ _ _).mp hfirst,
            (colonNumber?_eq_some_iff _ _ _).mp hsecond⟩ (h line column)

theorem not_placeAt_nil (line column : List Char) : ¬PlaceAt [] line column := by
  rintro ⟨rest, behind, ⟨hcut, -⟩, -⟩
  cases hcut

/-- Where no place stands at the front of a text, the text names what the rest of it does. -/
theorem names_cons_iff {c : Char} {cs : List Char} (hhere : ∀ l k, ¬PlaceAt (c :: cs) l k)
    (line column : List Char) : Names (c :: cs) line column ↔ Names cs line column := by
  constructor
  · rintro ⟨before, rest, hcut, hplace, hfirst⟩
    cases before with
    | nil =>
        obtain rfl : c :: cs = rest := hcut
        exact absurd hplace (hhere _ _)
    | cons d before =>
        obtain ⟨rfl, rfl⟩ := List.cons.inj hcut
        refine ⟨before, rest, rfl, hplace, fun front back l k hback hlt => ?_⟩
        refine hfirst (c :: front) back l k ?_ ?_
        · rw [List.cons_append, ← hback]
        · simpa using hlt
  · rintro ⟨before, rest, rfl, hplace, hfirst⟩
    refine ⟨c :: before, rest, rfl, hplace, fun front back l k hback hlt => ?_⟩
    cases front with
    | nil =>
        obtain rfl : c :: (before ++ rest) = back := hback
        exact hhere l k
    | cons d front =>
        exact hfirst front back l k (List.cons.inj hback).2 (by simpa using hlt)

/-- The place that is found in a text is the one that the text names. -/
theorem placeIn?_eq_some_iff (text line column : List Char) :
    placeIn? text = some (line, column) ↔ Names text line column := by
  induction text with
  | nil =>
      constructor
      · intro h
        cases h
      · rintro ⟨before, rest, hcut, hplace, -⟩
        obtain ⟨rfl, rfl⟩ := List.append_eq_nil_iff.mp hcut.symm
        exact absurd hplace (not_placeAt_nil _ _)
  | cons c cs ih =>
      by_cases hhere : ∃ l k, PlaceAt (c :: cs) l k
      · obtain ⟨l, k, hplace⟩ := hhere
        rw [placeIn?_of_placeAt hplace]
        constructor
        · intro h
          obtain ⟨rfl, rfl⟩ := Prod.mk.inj (Option.some.inj h)
          exact ⟨[], c :: cs, rfl, hplace, by simp⟩
        · rintro ⟨before, rest, hcut, hother, hfirst⟩
          cases before with
          | nil =>
              obtain rfl : c :: cs = rest := hcut
              rw [← placeIn?_of_placeAt hplace, placeIn?_of_placeAt hother]
          | cons d before => exact absurd hplace (hfirst [] (c :: cs) l k rfl (by simp))
      · have hnone : ∀ l k, ¬PlaceAt (c :: cs) l k := fun l k hplace => hhere ⟨l, k, hplace⟩
        rw [placeIn?_of_not_placeAt hnone, names_cons_iff hnone, ih]

/-! ### What a failure is about -/

/-- The line and the column, counted from one, that a failure is about.  A place that is named with more digits
than can be read is none. -/
inductive About (e : Failure) : (line column : Int) → Prop
  | located {loc : Location} (h : locationOf? e = some loc) : About e loc.line loc.column
  | named {line column : List Char} (hnone : locationOf? e = none)
      (h : Names e.message.toList line column) (hline : line.length ≤ maxIntegerDigits)
      (hcolumn : column.length ≤ maxIntegerDigits) :
      About e (ofDigits ((decimalValues? line).getD [])) (ofDigits ((decimalValues? column).getD []))
  | unnamed (hnone : locationOf? e = none) (h : ∀ line column, ¬Names e.message.toList line column) :
      About e 0 0

theorem integerOf_of_le {digits : List Char} (h : digits.length ≤ maxIntegerDigits) :
    integerOf digits = .ok (ofDigits ((decimalValues? digits).getD [])) :=
  if_neg (Nat.not_lt.mpr h)

theorem integerOf_eq_ok {digits : List Char} {value : Int} (h : integerOf digits = .ok value) :
    digits.length ≤ maxIntegerDigits ∧ value = ofDigits ((decimalValues? digits).getD []) := by
  unfold integerOf at h
  split at h
  · cases h
  · exact ⟨by omega, (Except.ok.inj h).symm⟩

theorem placeOf_eq_ok_iff (e : Failure) (line column : Int) :
    placeOf e = .ok (line, column) ↔ About e line column := by
  constructor
  · intro h
    unfold placeOf at h
    split at h
    · rename_i loc hloc
      obtain ⟨rfl, rfl⟩ := Prod.mk.inj (Except.ok.inj h)
      exact .located hloc
    · rename_i hnone
      split at h
      · rename_i l c hplace
        cases hline : integerOf l with
        | error failure => simp [hline, bind, Except.bind] at h
        | ok lineValue =>
            cases hcolumn : integerOf c with
            | error failure => simp [hline, hcolumn, bind, Except.bind] at h
            | ok columnValue =>
                obtain ⟨rfl, rfl⟩ : lineValue = line ∧ columnValue = column := by
                  simpa [hline, hcolumn, bind, Except.bind, pure, Except.pure] using h
                obtain ⟨hl, rfl⟩ := integerOf_eq_ok hline
                obtain ⟨hc, rfl⟩ := integerOf_eq_ok hcolumn
                exact .named hnone ((placeIn?_eq_some_iff _ _ _).mp hplace) hl hc
      · rename_i hplace
        obtain ⟨rfl, rfl⟩ := Prod.mk.inj (Except.ok.inj h)
        refine .unnamed hnone fun l c hnames => ?_
        rw [(placeIn?_eq_some_iff _ _ _).mpr hnames] at hplace
        cases hplace
  · intro h
    cases h with
    | located hloc => simp [placeOf, hloc]
    | named hnone hnames hline hcolumn =>
        simp [placeOf, hnone, (placeIn?_eq_some_iff _ _ _).mpr hnames, integerOf_of_le hline,
          integerOf_of_le hcolumn, bind, Except.bind, pure, Except.pure]
    | unnamed hnone hnames =>
        have hplace : placeIn? e.message.toList = none := by
          cases hplace : placeIn? e.message.toList with
          | none => rfl
          | some place => exact absurd ((placeIn?_eq_some_iff _ _ _).mp hplace) (hnames _ _)
        simp [placeOf, hnone, hplace]

/-! ### What is shown of a failure -/

/-- The line of which a token is underlined: the one that the failure quotes, or else that of the text. -/
def underlined (source : String) (e : Failure) (line : Int) : List Char :=
  ((quotedLine? e).map String.toList).getD ((lines source.toList)[(line - 1).toNat]?.getD [])

/-- Where the underlined token ends. -/
def underlinedEnd (source : String) (e : Failure) (line column : Int) : Int :=
  underlineEnd (underlined source e line) (max 0 (column - 1))

/-- A diagnostic says what the failure says, at the place that the failure is about. -/
def Shows (source : String) (e : Failure) (d : Diagnostic) : Prop :=
  d.message = textOf e ∧ ∃ line column, About e line column ∧
    Position.make (max 0 (line - 1)) (max 0 (column - 1)) = .ok d.range.first ∧
    Position.make (max 0 (line - 1)) (underlinedEnd source e line column) = .ok d.range.last

/-- The protocol has numbers for the place that a failure is about, and for the end of the token there. -/
def Showable (source : String) (e : Failure) : Prop :=
  ∃ line column, About e line column ∧ line - 1 ≤ maxFieldValue ∧
    underlinedEnd source e line column ≤ maxFieldValue

theorem ofFailure_eq_ok_iff (source : String) (e : Failure) (d : Diagnostic) :
    ofFailure source e = .ok d ↔ Shows source e d := by
  rw [ofFailure, Shows]
  cases hplace : placeOf e with
  | error failure =>
      constructor
      · intro h
        cases h
      · rintro ⟨-, line, column, habout, -⟩
        rw [(placeOf_eq_ok_iff e line column).mpr habout] at hplace
        cases hplace
  | ok place =>
      obtain ⟨line, column⟩ := place
      have habout := (placeOf_eq_ok_iff e line column).mp hplace
      have hunique : ∀ {l c}, About e l c → l = line ∧ c = column := by
        intro l c h
        rw [(placeOf_eq_ok_iff e l c).mpr h] at hplace
        exact Prod.mk.inj (Except.ok.inj hplace)
      have hstart : (max 0 (line - 1)).toNat = (line - 1).toNat := by omega
      simp only [bind, Except.bind, hstart]
      rw [← underlined, ← underlinedEnd]
      cases hrange : Range.onLine (max 0 (line - 1)) (max 0 (column - 1))
          (underlinedEnd source e line column) with
      | error failure =>
          constructor
          · intro h
            cases h
          · rintro ⟨-, l, c, h, hends⟩
            obtain ⟨rfl, rfl⟩ := hunique h
            rw [(Range.onLine_eq_ok_iff _ _ _ _).mpr hends] at hrange
            cases hrange
      | ok range =>
          constructor
          · intro h
            obtain rfl := Except.ok.inj h
            exact ⟨rfl, line, column, habout, (Range.onLine_eq_ok_iff _ _ _ _).mp hrange⟩
          · rintro ⟨htext, l, c, h, hends⟩
            obtain ⟨rfl, rfl⟩ := hunique h
            rw [(Range.onLine_eq_ok_iff _ _ _ _).mpr hends] at hrange
            obtain rfl := Except.ok.inj hrange
            rw [← htext]
            rfl

/-- A token starts before it ends. -/
theorem lt_underlineEnd (line : List Char) (character : Int) : character < underlineEnd line character := by
  unfold underlineEnd
  dsimp only
  omega

/-- What can be shown of a failure is shown, and nothing else is. -/
theorem exists_shows_iff (source : String) (e : Failure) :
    (∃ d, Shows source e d) ↔ Showable source e := by
  constructor
  · rintro ⟨d, -, line, column, habout, hfirst, hlast⟩
    obtain ⟨⟨hline, hbound⟩, -, -⟩ := (Position.make_eq_ok_iff _ _ _).mp hfirst
    obtain ⟨-, hcharacter, hend⟩ := (Position.make_eq_ok_iff _ _ _).mp hlast
    exact ⟨line, column, habout, by omega, by omega⟩
  · rintro ⟨line, column, habout, hline, hend⟩
    have hmax : (0 : Int) ≤ maxFieldValue := by decide
    have hstart : max 0 (column - 1) < underlinedEnd source e line column := lt_underlineEnd _ _
    let row := (line - 1).toNat
    refine ⟨⟨⟨⟨row, (column - 1).toNat⟩, ⟨row, (underlinedEnd source e line column).toNat⟩⟩, textOf e⟩,
      rfl, line, column, habout, ?_, ?_⟩
    · rw [Position.make_eq_ok_iff]
      constructor <;> constructor <;> simp only [row] <;> omega
    · rw [Position.make_eq_ok_iff]
      constructor <;> constructor <;> simp only [row] <;> omega

end ScriptLens.Diagnosis

namespace ScriptLens.Session

open ScriptLens.Diagnosis

theorem changeDocument_of_error {read : Reader} {uri text : String} {e : Failure}
    (h : read text uri = .error e) (s : Session) (ds : List Diagnostic) :
    (s.changeDocument read uri text).result = .ok ds ↔ ∃ d, ds = [d] ∧ Shows text e d := by
  rw [changeDocument, h]
  dsimp only
  constructor
  · intro hds
    cases hd : ofFailure text e with
    | error failure => simp [hd, Except.map] at hds
    | ok d =>
        rw [hd] at hds
        exact ⟨d, (Except.ok.inj hds).symm, (ofFailure_eq_ok_iff text e d).mp hd⟩
  · rintro ⟨d, rfl, hd⟩
    rw [(ofFailure_eq_ok_iff text e d).mpr hd]
    rfl

/-- What a session answers when a document gets a text, whatever reads the text.  Opening a document answers as
changing it does.  A text that can be read has no diagnostics.  One that cannot be read has exactly one, which
shows the failure, unless the protocol has no numbers for the place that the failure is about; then, and only
then, the session has no answer. -/
theorem update_outcome (read : Reader) (s : Session) (uri text : String) :
    (s.openDocument read uri text).result = (s.changeDocument read uri text).result ∧
      (∀ program, read text uri = .ok program →
        (s.changeDocument read uri text).result = .ok []) ∧
      ∀ e, read text uri = .error e →
        (∀ ds, (s.changeDocument read uri text).result = .ok ds ↔
          ∃ d, ds = [d] ∧ Shows text e d) ∧
        ((∃ ds, (s.changeDocument read uri text).result = .ok ds) ↔ Showable text e) := by
  refine ⟨rfl, ?_, ?_⟩
  · intro program h
    rw [changeDocument, h]
  · intro e h
    refine ⟨changeDocument_of_error h s, ?_⟩
    rw [← exists_shows_iff]
    constructor
    · rintro ⟨ds, hds⟩
      obtain ⟨d, -, hd⟩ := (changeDocument_of_error h s ds).mp hds
      exact ⟨d, hd⟩
    · rintro ⟨d, hd⟩
      exact ⟨[d], (changeDocument_of_error h s [d]).mpr ⟨d, rfl, hd⟩⟩

/-- A message may name a line, and a location may have a column, for which the protocol has no number.  Then there
is no diagnostic of the failure, and the session fails instead. -/
theorem changeDocument_beyond_protocol :
    (({} : Session).changeDocument (fun _ _ => .error (.component "bad at :9999999999:1"))
      "a" "x").result = .error (.bound .line 9999999998) ∧
    (({} : Session).changeDocument
      (fun _ _ => .error (.fault ⟨.grammatical, "bad", some ⟨1, 2147483648, 0, none⟩, none⟩))
      "a" "x").result = .error (.bound .character 2147483648) :=
  ⟨rfl, rfl⟩

end ScriptLens.Session
