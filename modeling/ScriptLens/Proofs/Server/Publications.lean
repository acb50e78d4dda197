import ScriptLens.Proofs.Server.Requests
import ScriptLens.Proofs.Session.Overrun
import Mathlib.Data.List.Induction

/-!
# What the editor was told about its documents

An editor sees of a document the diagnostics that were published last.  As it opens, changes, saves and closes
documents, each request publishes the diagnostics of its own document and of no other one.  So what the editor sees
of a document are the diagnostics of the text that the session has of it, or none when it has no text.

There is one exception.  When the diagnostics of a text cannot be built, nothing is published, and the editor goes
on to see those of an earlier text.

Main statement: `publications_in_sync`, from the invariant `InSync`.
-/

namespace ScriptLens.Server

open Session (Notice)

variable {σ : Type}

/-! ### Publications -/

/-- All that a server publishes while requests come in. -/
def State.publications (b : Backend σ) : State σ → List Call → List Publication
  | _, [] => []
  | s, c :: calls => (s.receive b c).published ++ (s.receive b c).state.publications b calls

/-- The diagnostics of a document that were published last. -/
def latest? (uri : String) (publications : List Publication) : Option (List Diagnostic) :=
  (publications.filter (·.uri = uri)).getLast?.map Publication.diagnostics

theorem State.after_concat (b : Backend σ) (s : State σ) (calls : List Call) (c : Call) :
    s.after b (calls ++ [c]) = ((s.after b calls).receive b c).state := by
  rw [State.after, List.foldl_append]
  rfl

theorem State.publications_concat (b : Backend σ) (s : State σ) (calls : List Call) (c : Call) :
    s.publications b (calls ++ [c]) =
      s.publications b calls ++ ((s.after b calls).receive b c).published := by
  induction calls generalizing s with
  | nil => exact List.append_nil _
  | cons first rest ih =>
      rw [List.cons_append, State.publications, ih, State.publications, List.append_assoc]
      rfl

/-- A publication about a document is the latest one of it. -/
theorem latest?_concat (publications : List Publication) (uri : String) (ds : List Diagnostic) :
    latest? uri (publications ++ [⟨uri, ds⟩]) = some ds := by
  simp [latest?]

/-- Publications about other documents are of no account. -/
theorem latest?_append_of_ne {uri : String} (publications : List Publication)
    {others : List Publication} (h : ∀ p ∈ others, p.uri ≠ uri) :
    latest? uri (publications ++ others) = latest? uri publications := by
  have hnone : others.filter (·.uri = uri) = [] := by simpa using h
  rw [latest?, List.filter_append, hnone, List.append_nil]
  rfl

/-! ### Requests about documents -/

/-- What a request tells the session about a document, if it does. -/
def Call.notice? (c : Call) : Option Notice :=
  match c.request with
  | .didOpen uri text => some (.opened uri text)
  | .didChange uri texts => some (.changed uri (texts.getLast?.getD (c.text uri)))
  | .didSave uri => some (.changed uri (c.text uri))
  | .didClose uri => some (.closed uri)
  | _ => none

/-- A request that tells the session something calls the operation that tells it.  Its failure is not passed on,
unless it closes the document. -/
theorem operation_of_notice {c : Call} {notice : Notice} (h : c.notice? = some notice) (read : Reader) :
    c.request.WellFormed ∧ (notice.text?.isSome = true → c.request.passesOn = false) ∧
      c.request.operation (.ofSession read) c.text =
        Operation.map (fun s => s.tell read notice) (published notice.uri) := by
  have hnumbers : ∀ n ∈ ([] : List Int), 0 ≤ n ∧ n ≤ maxFieldValue := fun n hn => by cases hn
  obtain ⟨workspace, request⟩ := c
  cases request with
  | didOpen uri text =>
      obtain rfl := Option.some.inj h
      exact ⟨hnumbers, fun _ => rfl, rfl⟩
  | didChange uri texts =>
      obtain rfl := Option.some.inj h
      exact ⟨hnumbers, fun _ => rfl, rfl⟩
  | didSave uri =>
      obtain rfl := Option.some.inj h
      exact ⟨hnumbers, fun _ => rfl, rfl⟩
  | didClose uri =>
      obtain rfl := Option.some.inj h
      exact ⟨hnumbers, (fun htext => by cases htext), rfl⟩
  | _ => cases h

/-- A request that tells the session something answers nothing.  It publishes the diagnostics that the session gives
for the document, if the session gives any. -/
theorem receive_notice (read : Reader) (s : State Session) {c : Call} {notice : Notice}
    (h : c.notice? = some notice) :
    (s.receive (.ofSession read) c).state.backend = (s.backend.tell read notice).state ∧
      (s.receive (.ofSession read) c).answer = .ok .nothing ∧
      (s.receive (.ofSession read) c).published =
        ((s.backend.tell read notice).result.toOption.map (Publication.mk notice.uri)).toList := by
  obtain ⟨hwell, hguarded, hoperation⟩ := operation_of_notice h read
  have haccounts := accounts_receive (.ofSession read) s hwell
  rw [hoperation, Operation.map] at haccounts
  refine ⟨haccounts.state, ?_⟩
  cases hresult : (s.backend.tell read notice).result with
  | ok ds =>
      rw [hresult] at haccounts
      exact haccounts.done .nothing [⟨notice.uri, ds⟩] rfl
  | error e =>
      have hsome : notice.text?.isSome = true := by
        cases notice with
        | opened uri text => rfl
        | changed uri text => rfl
        | closed uri => cases hresult
      rw [hresult, hguarded hsome] at haccounts
      exact (haccounts.failed e rfl).symm

/-! ### What the editor should see -/

/-- The diagnostics of a document with the given text, or none if it has no text. -/
def due (uri : String) : Option String → Except Failure (List Diagnostic)
  | some text => Diagnosis.ofResult text (Reader.standard text uri)
  | none => .ok []

/-- A document has a text that overruns. -/
def Exceeds (uri : String) (text? : Option String) : Prop :=
  ∃ text, text? = some text ∧ Overruns text (some uri)

/-- The diagnostics of a document can be built, unless its text overruns. -/
theorem exists_due_iff {uri : String} {text? : Option String}
    (hshort : ∀ text, text? = some text → text.length < 2147483648) :
    (∃ ds, due uri text? = .ok ds) ↔ ¬Exceeds uri text? := by
  cases text? with
  | none =>
      refine ⟨fun _ hexceeds => ?_, fun _ => ⟨[], rfl⟩⟩
      obtain ⟨text, htext, -⟩ := hexceeds
      cases htext
  | some text =>
      have hexceeds : Exceeds uri (some text) ↔ Overruns text (some uri) := by simp [Exceeds]
      rw [hexceeds]
      exact Diagnosis.exists_diagnostics_iff (hshort text rfl) (some uri)

theorem result_tell_eq_due (s : Session) (notice : Notice) :
    (s.tell .standard notice).result = due notice.uri notice.text? := by
  cases htext : notice.text? with
  | some text => exact Session.result_tell .standard s htext
  | none =>
      cases notice with
      | opened uri text => cases htext
      | changed uri text => cases htext
      | closed uri => rfl

/-- The documents of a session that reads the language, as a server keeps them. -/
def standardBackend : Backend Session :=
  .ofSession .standard

/-- A request about a document publishes its diagnostics, if they can be built. -/
theorem published_notice (s : State Session) {c : Call} {notice : Notice} (h : c.notice? = some notice) :
    (s.receive standardBackend c).published =
      ((due notice.uri notice.text?).toOption.map (Publication.mk notice.uri)).toList := by
  rw [← result_tell_eq_due s.backend notice]
  exact (receive_notice .standard s h).2.2

/-- A request with a text that overruns publishes nothing. -/
theorem published_of_exceeds (s : State Session) {c : Call} {notice : Notice}
    (h : c.notice? = some notice) (hshort : ∀ text, notice.text? = some text → text.length < 2147483648)
    (hexceeds : Exceeds notice.uri notice.text?) : (s.receive standardBackend c).published = [] := by
  rw [published_notice s h]
  cases hdue : due notice.uri notice.text? with
  | ok ds => exact absurd hexceeds ((exists_due_iff hshort).mp ⟨ds, hdue⟩)
  | error e => rfl

/-- Any other one publishes the diagnostics of its document. -/
theorem published_of_not_exceeds (s : State Session) {c : Call} {notice : Notice}
    (h : c.notice? = some notice) (hshort : ∀ text, notice.text? = some text → text.length < 2147483648)
    (hfits : ¬Exceeds notice.uri notice.text?) :
    ∃ ds, due notice.uri notice.text? = .ok ds ∧
      (s.receive standardBackend c).published = [⟨notice.uri, ds⟩] := by
  obtain ⟨ds, hdue⟩ := (exists_due_iff hshort).mpr hfits
  rw [published_notice s h, hdue]
  exact ⟨ds, rfl, rfl⟩

/-- A request about a document gives it its text and leaves all others alone. -/
theorem text?_receive (s : State Session) {c : Call} {notice : Notice} (h : c.notice? = some notice)
    (uri : String) :
    (s.receive standardBackend c).state.backend.text? uri =
      if notice.uri = uri then notice.text? else s.backend.text? uri := by
  rw [← Session.text?_tell .standard s.backend notice uri]
  exact congrArg (Session.text? · uri) (receive_notice .standard s h).1

/-! ### What the editor sees -/

/-- No text that a session has is too long for the editor, and of every document that requests were about, the editor
sees the diagnostics of the text that the session has, if they can be built. -/
structure InSync (calls : List Call) (s : Session) (publications : List Publication) : Prop where
  short : ∀ uri text, s.text? uri = some text → text.length < 2147483648
  seen : ∀ c ∈ calls, ∀ notice, c.notice? = some notice → ∀ ds,
    due notice.uri (s.text? notice.uri) = .ok ds → latest? notice.uri publications = some ds

/-- A request tells the session something, with a text that is not too long for the editor. -/
def Call.Synchronizes (c : Call) : Prop :=
  ∃ notice, c.notice? = some notice ∧ ∀ text, notice.text? = some text → text.length < 2147483648

theorem InSync.receive {calls : List Call} {s : State Session} {publications : List Publication}
    (h : InSync calls s.backend publications) {c : Call} (hc : c.Synchronizes) :
    InSync (calls ++ [c]) (s.receive standardBackend c).state.backend
      (publications ++ (s.receive standardBackend c).published) := by
  obtain ⟨notice, hnotice, hshort⟩ := hc
  rw [published_notice s hnotice]
  constructor
  · intro uri text htext
    rw [text?_receive s hnotice] at htext
    split at htext
    · exact hshort text htext
    · exact h.short uri text htext
  · intro other hother told htold ds hdue
    rw [text?_receive s hnotice] at hdue
    split at hdue
    · -- the request is about this document
      rename_i huri
      rw [← huri] at hdue ⊢
      rw [hdue]
      exact latest?_concat publications notice.uri ds
    · -- the request is about another document
      rename_i huri
      have hbefore : other ∈ calls := by
        rcases List.mem_append.mp hother with hbefore | hlast
        · exact hbefore
        · obtain rfl := List.mem_singleton.mp hlast
          obtain rfl : notice = told := Option.some.inj (hnotice.symm.trans htold)
          exact absurd rfl huri
      rw [latest?_append_of_ne]
      · exact h.seen other hbefore told htold ds hdue
      · intro p hp
        obtain ⟨new, -, rfl⟩ := Option.map_eq_some_iff.mp (Option.mem_toList.mp hp)
        exact huri

/-- A server keeps the editor in sync with its session, whatever requests about documents come in. -/
theorem inSync_after {calls : List Call} (h : ∀ c ∈ calls, c.Synchronizes) :
    InSync calls (State.initial.after standardBackend calls).backend
      (State.initial.publications standardBackend calls) := by
  induction calls using List.reverseRecOn with
  | nil =>
      refine ⟨fun uri text htext => ?_, fun c hc => by cases hc⟩
      simp [State.after, State.initial, Session.text?] at htext
  | append_singleton calls c ih =>
      rw [State.after_concat, State.publications_concat]
      refine (ih fun d hd => h d (List.mem_append_left _ hd)).receive (h c ?_)
      exact List.mem_append_right _ List.mem_cons_self

/-- Let an editor open, change, save and close documents in any order, with texts of less than `2 ^ 31` characters.
Each request is answered with nothing and publishes the diagnostics of its own document once.  After every request the
editor sees of each document so far the diagnostics of the text that the session has, and none when it has no text.
The one exception are the texts that overrun: a request with such a text publishes nothing. -/
theorem publications_in_sync {calls : List Call} (h : ∀ c ∈ calls, c.Synchronizes) :
    (∀ earlier c later notice, calls = earlier ++ c :: later → c.notice? = some notice →
      let reaction := (State.initial.after standardBackend earlier).receive standardBackend c
      reaction.answer = .ok .nothing ∧
        (Exceeds notice.uri notice.text? → reaction.published = []) ∧
        (¬Exceeds notice.uri notice.text? →
          ∃ ds, due notice.uri notice.text? = .ok ds ∧ reaction.published = [⟨notice.uri, ds⟩])) ∧
    ∀ earlier later, calls = earlier ++ later → ∀ c ∈ earlier, ∀ notice, c.notice? = some notice →
      let session := (State.initial.after standardBackend earlier).backend
      ¬Exceeds notice.uri (session.text? notice.uri) →
        ∃ ds, due notice.uri (session.text? notice.uri) = .ok ds ∧
          latest? notice.uri (State.initial.publications standardBackend earlier) = some ds := by
  constructor
  · intro earlier c later notice hcalls hnotice reaction
    obtain ⟨other, hother, hshort⟩ := h c (by simp [hcalls])
    obtain rfl : other = notice := Option.some.inj (hother.symm.trans hnotice)
    exact ⟨(receive_notice .standard _ hnotice).2.1, published_of_exceeds _ hnotice hshort,
      published_of_not_exceeds _ hnotice hshort⟩
  · intro earlier later hcalls c hc notice hnotice session hfits
    have hsync : InSync earlier session (State.initial.publications standardBackend earlier) :=
      inSync_after fun d hd => h d (by simp [hcalls, hd])
    obtain ⟨ds, hdue⟩ := (exists_due_iff (hsync.short notice.uri)).mpr hfits
    exact ⟨ds, hdue, hsync.seen c hc notice hnotice ds hdue⟩

/-- One document is opened and broken, while another one comes broken and goes. -/
def twoDocuments : List Call :=
  [⟨∅, .didOpen "a" "let x"⟩, ⟨∅, .didOpen "b" "("⟩, ⟨∅, .didClose "b"⟩, ⟨∅, .didChange "a" ["let"]⟩]

/-- The editor sees the complaint about the first document and none about the second. -/
theorem publications_in_sync_two_documents :
    latest? "a" (State.initial.publications standardBackend twoDocuments) =
        some [⟨⟨⟨0, 3⟩, ⟨0, 4⟩⟩, "Expected variable name, found end of file"⟩] ∧
      latest? "b" (State.initial.publications standardBackend twoDocuments) = some [] := by
  have hcalls : ∀ c ∈ twoDocuments, c.Synchronizes := by
    intro c hc
    simp only [twoDocuments, List.mem_cons, List.not_mem_nil, or_false] at hc
    rcases hc with rfl | rfl | rfl | rfl
    · exact ⟨.opened "a" "let x", rfl, fun text htext => Option.some.inj htext ▸ (by decide)⟩
    · exact ⟨.opened "b" "(", rfl, fun text htext => Option.some.inj htext ▸ (by decide)⟩
    · exact ⟨.closed "b", rfl, fun text htext => by cases htext⟩
    · exact ⟨.changed "a" "let", rfl, fun text htext => Option.some.inj htext ▸ (by decide)⟩
  have hchange : Call.notice? ⟨∅, .didChange "a" ["let"]⟩ = some (.changed "a" "let") := rfl
  have hclose : Call.notice? ⟨∅, .didClose "b"⟩ = some (.closed "b") := rfl
  have ha : (State.initial.after standardBackend twoDocuments).backend.text? "a" = some "let" :=
    (text?_receive _ hchange "a").trans (if_pos rfl)
  have hb : (State.initial.after standardBackend twoDocuments).backend.text? "b" = none :=
    (text?_receive _ hchange "b").trans ((if_neg (by decide)).trans
      ((text?_receive _ hclose "b").trans (if_pos rfl)))
  have hshort : ¬Exceeds "a" (some "let") := by
    rintro ⟨text, htext, hoverruns⟩
    obtain rfl := Option.some.inj htext
    exact absurd hoverruns.length (by decide)
  have hnone : ¬Exceeds "b" none := by
    rintro ⟨text, htext, -⟩
    cases htext
  obtain ⟨-, hseen⟩ := publications_in_sync hcalls
  constructor
  · obtain ⟨ds, hdue, hlatest⟩ := hseen twoDocuments [] rfl _ (by simp [twoDocuments]) _ hchange
      (fun hexceeds => hshort (ha ▸ hexceeds))
    have hcomplaint : due "a" (some "let") =
        .ok [⟨⟨⟨0, 3⟩, ⟨0, 4⟩⟩, "Expected variable name, found end of file"⟩] := rfl
    rw [← ha] at hcomplaint
    rw [Except.ok.inj (hcomplaint.symm.trans hdue)]
    exact hlatest
  · obtain ⟨ds, hdue, hlatest⟩ := hseen twoDocuments [] rfl _ (by simp [twoDocuments]) _ hclose
      (fun hexceeds => hnone (hb ▸ hexceeds))
    have hempty : due "b" none = .ok [] := rfl
    rw [← hb] at hempty
    rw [Except.ok.inj (hempty.symm.trans hdue)]
    exact hlatest

/-- Nothing is published about the longest line that is not too long for the editor, if it is at fault behind its
last character. -/
theorem no_publication_of_longest_line :
    (openLine 2147483646).length < 2147483648 ∧
      State.initial.publications standardBackend [⟨∅, .didOpen "a" (openLine 2147483646)⟩] = [] := by
  have hlength : (openLine 2147483646).length < 2147483648 := by
    rw [length_openLine]
    omega
  have hnotice : Call.notice? ⟨∅, .didOpen "a" (openLine 2147483646)⟩ =
      some (.opened "a" (openLine 2147483646)) := rfl
  refine ⟨hlength, ?_⟩
  rw [State.publications, State.publications, List.append_nil]
  refine published_of_exceeds _ hnotice (fun text htext => ?_) ⟨_, rfl, overruns_openLine rfl _⟩
  obtain rfl := Option.some.inj htext
  exact hlength

end ScriptLens.Server
