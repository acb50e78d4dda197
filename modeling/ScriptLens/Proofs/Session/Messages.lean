import ScriptLens.Number.Shortest
import ScriptLens.Proofs.Session.Diagnostics

/-!
# The place in the message of a fault

The message of a fault starts with its place in brackets.  Who has only the message can read the place back from it, as
long as the name of the file does not have a colon right before a digit: neither what the fault says nor the line that it
quotes comes before the place.

Main statement: `placeOf_message`.
-/

namespace ScriptLens.Text

/-! ### Numbers that are written out -/

theorem decimalValue?_of_isDigit {c : Char} (h : c.isDigit = true) :
    decimalValue? c = some (c.toNat - '0'.toNat) := by
  have hrange : '0'.toNat ≤ c.toNat ∧ c.toNat ≤ '9'.toNat := Char.isDigit_iff_toNat.mp h
  have hfind : decimalZeros.find? (fun first => decide (first ≤ c.toNat) && decide (c.toNat ≤ first + 9)) =
      some 0x30 :=
    List.find?_cons_of_pos (by simpa using hrange)
  rw [decimalValue?, hfind]
  rfl

theorem decimalValues?_of_isDigit {cs : List Char} (h : ∀ c ∈ cs, c.isDigit = true) :
    decimalValues? cs = some (cs.map fun c => c.toNat - '0'.toNat) := by
  unfold decimalValues?
  induction cs with
  | nil => rfl
  | cons c cs ih =>
      have hrest := ih fun d hd => h d (List.mem_cons_of_mem c hd)
      rw [List.mapM_cons, decimalValue?_of_isDigit (h c List.mem_cons_self), hrest]
      rfl

theorem isDigit_of_mem_toDigits {n : Nat} {c : Char} (h : c ∈ Nat.toDigits 10 n) : c.isDigit = true :=
  Nat.isDigit_of_mem_toDigits (by decide) (by decide) h

theorem isDecimal_of_mem_toDigits {n : Nat} {c : Char} (h : c ∈ Nat.toDigits 10 n) : isDecimal c = true := by
  rw [isDecimal, decimalValue?_of_isDigit (isDigit_of_mem_toDigits h)]
  rfl

/-- The digits of a number denote the number. -/
theorem ofDigits_toDigits (n : Nat) : ofDigits ((decimalValues? (Nat.toDigits 10 n)).getD []) = n := by
  rw [decimalValues?_of_isDigit fun c hc => isDigit_of_mem_toDigits hc, Option.getD_some, ofDigits,
    List.foldl_map]
  have hread : Nat.ofDigitChars 10 (Nat.toDigits 10 n) 0 = n := Nat.ofDigitChars_ten_toDigits
  rw [Nat.ofDigitChars_eq_foldl] at hread
  simpa [Nat.mul_comm] using hread

end ScriptLens.Text

namespace ScriptLens.Diagnosis

open Text

/-- A number is read back from its digits, unless there are too many of them. -/
theorem integerOf_toDigits (n : Nat) :
    integerOf (Nat.toDigits 10 n) =
      if maxIntegerDigits < Binary64.digitCount n then .error (.integerDigits (Binary64.digitCount n))
      else .ok n := by
  rw [integerOf, ofDigits_toDigits]
  rfl

/-! ### The first place in a text -/

/-- No colon in a text stands right before a digit. -/
def Unnumbered (text : List Char) : Prop :=
  ∀ front digit back, text = front ++ ':' :: digit :: back → isDecimal digit = false

theorem Unnumbered.tail {c : Char} {cs : List Char} (h : Unnumbered (c :: cs)) : Unnumbered cs := by
  intro front digit back hcut
  apply h (c :: front) digit back
  rw [hcut, List.cons_append]

/-- Before another colon, a text without a number behind a colon has no place at its front. -/
theorem Unnumbered.not_placeAt {c : Char} {cs : List Char} (h : Unnumbered (c :: cs))
    (rest line column : List Char) : ¬PlaceAt (c :: (cs ++ ':' :: rest)) line column := by
  rintro ⟨more, behind, hline, -⟩
  obtain ⟨digit, digits, rfl⟩ := List.exists_cons_of_ne_nil hline.nonempty
  have hdecimal := hline.decimal digit List.mem_cons_self
  obtain ⟨rfl, hcut⟩ := List.cons.inj hline.cut
  cases cs with
  | nil =>
      -- what follows is the other colon
      obtain ⟨rfl, -⟩ := List.cons.inj hcut
      exact absurd hdecimal (by decide)
  | cons d ds =>
      obtain ⟨rfl, -⟩ := List.cons.inj hcut
      rw [h [] d ds rfl] at hdecimal
      cases hdecimal

theorem Unnumbered.placeIn?_append {text : List Char} (h : Unnumbered text) (rest : List Char) :
    placeIn? (text ++ ':' :: rest) = placeIn? (':' :: rest) := by
  induction text with
  | nil => rfl
  | cons c cs ih =>
      rw [List.cons_append, placeIn?_of_not_placeAt (h.not_placeAt rest), ih h.tail]

/-- A number that is written out behind a colon ends where its digits do. -/
theorem numberAt_toDigits (n : Nat) {c : Char} (h : isDecimal c = false) (rest : List Char) :
    NumberAt (':' :: (Nat.toDigits 10 n ++ c :: rest)) (Nat.toDigits 10 n) (c :: rest) where
  cut := rfl
  nonempty := Nat.toDigits_ne_nil
  decimal := fun _ hd => isDecimal_of_mem_toDigits hd
  whole := fun _ hd => Option.some.inj hd ▸ h

/-! ### Messages -/

/-- A place with a file is shown as the file, the line and the column, with a colon between each two. -/
theorem toList_render_named (line column : Nat) (offset : Int) {file : String} (h : file ≠ "") :
    (Location.mk line column offset (some file)).render.toList =
      file.toList ++ ':' :: (Nat.toDigits 10 line ++ ':' :: Nat.toDigits 10 column) := by
  have hempty : file.isEmpty = false := by simpa using h
  have hshown : ∀ n : Nat, (Int.repr n).toList = Nat.toDigits 10 n := fun n => Nat.toList_repr
  simp [Location.render, hempty, hshown]

/-- The message of a fault starts with the place, whatever the fault says or quotes. -/
theorem exists_toList_render {f : Fault} {loc : Location} (h : f.location = some loc) :
    ∃ rest, f.render.toList = '[' :: (loc.render.toList ++ ']' :: rest) := by
  cases hquoted : f.sourceLine.filter (!·.isEmpty) with
  | none =>
      refine ⟨' ' :: f.text.toList, ?_⟩
      simp [Fault.render, h, hquoted]
  | some line =>
      refine ⟨' ' :: (f.text ++ Fault.excerpt loc line).toList, ?_⟩
      simp [Fault.render, h, hquoted]

/-- The first place that the message of a fault names is that of the fault. -/
theorem placeIn?_render {f : Fault} {line column : Nat} {offset : Int} {file : String}
    (hplace : f.location = some ⟨line, column, offset, some file⟩) (hfile : file ≠ "")
    (hcolons : Unnumbered file.toList) :
    placeIn? f.render.toList = some (Nat.toDigits 10 line, Nat.toDigits 10 column) := by
  obtain ⟨rest, hrender⟩ := exists_toList_render hplace
  have hfront : Unnumbered ('[' :: file.toList) := by
    intro front digit back hcut
    cases front with
    | nil => cases (List.cons.inj hcut).1
    | cons c front => exact hcolons front digit back (List.cons.inj hcut).2
  have hbracket : isDecimal ']' = false := by decide
  have hcolon : isDecimal ':' = false := by decide
  have hcolumn := numberAt_toDigits column hbracket rest
  have hline := numberAt_toDigits line hcolon (Nat.toDigits 10 column ++ ']' :: rest)
  have hnamed : f.render.toList = '[' :: file.toList ++
      ':' :: (Nat.toDigits 10 line ++ ':' :: (Nat.toDigits 10 column ++ ']' :: rest)) := by
    rw [hrender, toList_render_named line column offset hfile]
    simp
  rw [hnamed, hfront.placeIn?_append]
  exact placeIn?_of_placeAt ⟨_, _, hline, hcolumn⟩

/-- Without a location, what the message names is read. -/
theorem placeOf_of_placeIn? {e : Failure} (hnone : locationOf? e = none) {line column : List Char}
    (h : placeIn? e.message.toList = some (line, column)) :
    placeOf e = do return (← integerOf line, ← integerOf column) := by
  rw [placeOf, hnone]
  dsimp only
  rw [h]

/-- The place in the message of a fault can be read back.  A failure that has no location, but the same message, is about
the same line and column as the fault itself, whatever the fault says and quotes, if the file has a name and no colon in
it stands right before a digit.  Only a number with more digits than can be read is refused. -/
theorem placeOf_message {f : Fault} {line column : Nat} {offset : Int} {file : String}
    (hplace : f.location = some ⟨line, column, offset, some file⟩) (hfile : file ≠ "")
    (hcolons : Unnumbered file.toList) {e : Failure} (hnone : locationOf? e = none)
    (hmessage : e.message = f.render) :
    placeOf (.fault f) = .ok (line, column) ∧
      (Binary64.digitCount line ≤ maxIntegerDigits → Binary64.digitCount column ≤ maxIntegerDigits →
        placeOf e = placeOf (.fault f)) ∧
      (maxIntegerDigits < Binary64.digitCount line ∨ maxIntegerDigits < Binary64.digitCount column →
        ∃ count, placeOf e = .error (.integerDigits count)) := by
  have hlocated : placeOf (.fault f) = .ok (line, column) := by
    rw [placeOf, locationOf?, hplace]
  have hread : placeOf e = do
      return (← integerOf (Nat.toDigits 10 line), ← integerOf (Nat.toDigits 10 column)) := by
    apply placeOf_of_placeIn? hnone
    rw [hmessage]
    exact placeIn?_render hplace hfile hcolons
  rw [integerOf_toDigits, integerOf_toDigits] at hread
  refine ⟨hlocated, ?_, ?_⟩
  · intro hline hcolumn
    rw [hread, if_neg (Nat.not_lt.mpr hline), if_neg (Nat.not_lt.mpr hcolumn), hlocated]
    rfl
  · intro hlong
    rw [hread]
    by_cases hline : maxIntegerDigits < Binary64.digitCount line
    · rw [if_pos hline]
      exact ⟨_, rfl⟩
    · rw [if_neg hline, if_pos (hlong.resolve_left hline)]
      exact ⟨_, rfl⟩

/-- A file with a colon in its name, a text that names another place and a quoted line that names a third: the place of
the fault is the first. -/
theorem placeOf_message_other_places :
    placeOf (.component "[a:b:12:3] not :7:8\n    x:9:9\n      ^") = .ok (12, 3) := by
  have hcolons : Unnumbered ['a', ':', 'b'] := by
    rintro (_ | ⟨c, _ | ⟨d, front⟩⟩) digit back hcut
    · cases hcut
    · cases hcut
      decide
    · have hlength := congrArg List.length hcut
      simp only [List.length_append, List.length_cons, List.length_nil] at hlength
      omega
  have hread := placeOf_message
    (f := ⟨.grammatical, "not :7:8", some ⟨12, 3, 40, some "a:b"⟩, some "x:9:9"⟩) rfl (by decide) hcolons
    (e := .component "[a:b:12:3] not :7:8\n    x:9:9\n      ^") rfl rfl
  rw [hread.2.1 (by decide) (by decide), hread.1]
  rfl

end ScriptLens.Diagnosis
