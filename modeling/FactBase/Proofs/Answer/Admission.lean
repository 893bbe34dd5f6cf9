import FactBase.Proofs.Answer.Literal
import FactBase.Proofs.Query.Compilation

/-
  This file shows that the engine is called only for queries
  that nothing is wrong with.  Each way to run a query has its
  checks, which come in order: the context compiles, the
  projection pulls if it has to, the shape is known, and terms
  have labels if the shape needs them.  Where all of them
  pass, the engine is called once with the parts of the
  document, and otherwise the first fault is the outcome.

  Key definitions include:
    * `Session.Silent`
    * `SessionSetup.compiled`
    * `EntryPoint.Admits`
    * `EntryPoint.Rejects`

  Key theorems include:
    * `EntryPoint.run_eq`
    * `EntryPoint.carry_run`
    * `EntryPoint.calls_run`
-/

------------------------------------------------------------
-- Carrying Out Sessions
------------------------------------------------------------

namespace FactBase

open Sorting

namespace Session

variable {α β : Type}
variable {setup : SessionSetup}
variable {t t' : Transcript}

/- After a part that has a result comes the next one. -/
theorem carry_bind_of_ok
    {s : Session α}
    {a : α}
    (f : α → Session β)
    (h : carry setup s t = (.ok a, t')) :
    carry setup (s >>= f) t = carry setup (f a) t' := by
  rw [carry_bind, h]

/- After a part that fails comes nothing. -/
theorem carry_bind_of_error
    {s : Session α}
    {fault : Fault}
    (f : α → Session β)
    (h : carry setup s t = (.error fault, t')) :
    carry setup (s >>= f) t = (.error fault, t') := by
  rw [carry_bind, h]

/- An outcome that is known already leaves everything as it is. -/
theorem carry_lift
    (setup : SessionSetup)
    (x : Outcome α)
    (t : Transcript) :
    carry setup (x : Except Fault α) t = (x, t) := by
  cases x <;> rfl

/- A session that asks nothing of the engine. -/
def Silent (s : Session α) : Prop :=
  ∀ setup t, (carry setup s t).2.calls = t.calls

/- An outcome that is known already is not asked for. -/
theorem silent_lift (x : Outcome α) :
    Silent (x : Except Fault α) := by
  intro setup t
  rw [carry_lift]

/- Two parts that ask for nothing do not do so together. -/
theorem Silent.bind
    {s : Session α}
    {f : α → Session β}
    (hFirst : Silent s)
    (hNext : ∀ a, Silent (f a)) : Silent (s >>= f) := by
  intro setup t
  rw [← hFirst setup t, carry_bind]
  rcases carry setup s t with ⟨fault | a, t'⟩
  · rfl
  · exact hNext a setup t'

/-
  Notes are taken without the engine.  Where they are taken,
  the text has to be there.
-/
theorem exists_carry_note
    (setup : SessionSetup)
    (text : Outcome String)
    (t : Transcript) :
    ∃ t', carry setup (note text) t
        = (if setup.noted then text.map (fun _ => ()) else .ok (),
            t')
      ∧ t'.calls = t.calls := by
  have hNote :
      carry setup (note text) t
        = carry setup
          (if setup.noted then do
            let text ← (text : Except Fault String)
            modify
              (fun t => { t with notes := t.notes ++ [text] })
          else pure ()) t := rfl
  rw [hNote]
  cases setup.noted with
  | false => exact ⟨t, rfl, rfl⟩
  | true =>
      cases text with
      | error fault => exact ⟨t, rfl, rfl⟩
      | ok text =>
          exact
            ⟨{ t with notes := t.notes ++ [text] }, rfl, rfl⟩

/- So a note asks nothing of the engine. -/
theorem silent_note (text : Outcome String) :
    Silent (note text) := by
  intro setup t
  rcases exists_carry_note setup text t with ⟨t', hNote, hCalls⟩
  rw [hNote]
  exact hCalls

/- A call is entered, whatever the engine answers. -/
theorem calls_ask
    (setup : SessionSetup)
    (call : Call)
    (t : Transcript) :
    (carry setup (ask call) t).2.calls = t.calls ++ [call] := by
  have hAsk :
      carry setup (ask call) t
        = (((setup.answer call).run.run t.growths).1,
            t.enter call
              ((setup.answer call).run.run t.growths).2) := by
    change
      carry setup
          (((setup.answer call).run.run t.growths).1
            : Except Fault Value)
          (t.enter call
            ((setup.answer call).run.run t.growths).2) = _
    rw [carry_lift]
  rw [hAsk]
  rfl

/- What follows a call silently asks nothing more. -/
theorem Silent.calls_bind
    {f : α → Session β}
    (h : ∀ a, Silent (f a))
    (setup : SessionSetup)
    (s : Session α)
    (t : Transcript) :
    (carry setup (s >>= f) t).2.calls
      = (carry setup s t).2.calls := by
  rw [carry_bind]
  rcases carry setup s t with ⟨fault | a, t'⟩
  · rfl
  · exact h a setup t'

end Session

------------------------------------------------------------
-- Compiling in a Session
------------------------------------------------------------

/-
  A context as a session compiles it.  The note about the
  document is a part of that, if notes are taken.
-/
def SessionSetup.compiled
    (setup : SessionSetup)
    (context : Value) : Outcome QueryDocument := do
  let d ← compileQuery setup.options context
  if setup.noted then d.compiledNote.map (fun _ => d) else .ok d

/- So a context is compiled before the engine is called. -/
theorem Session.carry_compileContext
    (setup : SessionSetup)
    (context : Value)
    (t : Transcript) :
    ∃ t', carry setup (compileContext context) t
        = (setup.compiled context, t')
      ∧ t'.calls = t.calls := by
  have hCompile :
      carry setup (compileContext context) t
        = carry setup (do
            let d ←
              (compileQuery setup.options context
                : Except Fault _)
            Session.note d.compiledNote
            return d) t := rfl
  rw [hCompile]
  unfold SessionSetup.compiled
  cases compileQuery setup.options context with
  | error fault => exact ⟨t, rfl, rfl⟩
  | ok d =>
      rcases exists_carry_note setup d.compiledNote t with
        ⟨t', hNote, hCalls⟩
      refine ⟨t', ?_, hCalls⟩
      rw [carry_bind_of_ok _ (carry_lift setup (.ok d) t),
        carry_bind, hNote, ok_bind]
      cases setup.noted with
      | false => rfl
      | true => cases d.compiledNote <;> rfl

/- A document lists the labels of its terms. -/
theorem labels_of_compileQuery
    {o : CompileOptions}
    {context : Value}
    {d : QueryDocument}
    (h : compileQuery o context = .ok d) :
    d.labels = d.find.map projectionLabel? := by
  unfold compileQuery at h
  rcases bind_eq_ok.mp h with ⟨c, _, h⟩
  rcases bind_eq_ok.mp h with ⟨p, _, h⟩
  rcases bind_eq_ok.mp h with ⟨_, _, h⟩
  rcases bind_eq_ok.mp h with ⟨_, _, h⟩
  rw [← pure_eq_ok.mp h]
  rfl

/- So does one that a session compiles. -/
theorem SessionSetup.labels_of_compiled
    {setup : SessionSetup}
    {context : Value}
    {d : QueryDocument}
    (h : setup.compiled context = .ok d) :
    d.labels = d.find.map projectionLabel? := by
  unfold compiled at h
  rcases bind_eq_ok.mp h with ⟨d', hCompiled, hNoted⟩
  have hSame : d' = d := by
    split at hNoted
    · cases hNote : d'.compiledNote with
      | error fault =>
          rw [hNote] at hNoted
          cases hNoted
      | ok text =>
          rw [hNote] at hNoted
          exact Except.ok.inj hNoted
    · exact Except.ok.inj hNoted
  exact labels_of_compileQuery (hSame ▸ hCompiled)

------------------------------------------------------------
-- Labels
------------------------------------------------------------

namespace QueryDocument

/- The terms that have no label. -/
def bareTerms (d : QueryDocument) : List Value :=
  d.find.filter (fun v => (projectionLabel? v).isNone)

/- They are found by the list of labels. -/
theorem unlabeledTerms_map (terms : List Value) :
    unlabeledTerms terms (terms.map projectionLabel?)
      = .ok
        ((terms.filter
          (fun v => (projectionLabel? v).isNone)).map
            Value.text) := by
  induction terms with
  | nil => rfl
  | cons v terms ih =>
      cases hLabel : projectionLabel? v with
      | some label =>
          simpa [unlabeledTerms, hLabel] using ih
      | none =>
          simp [unlabeledTerms, hLabel, ih, ok_bind, pure,
            Except.pure]

variable {d : QueryDocument}

/- Labels are there if every term has one. -/
theorem requireLabels_of_bareTerms
    (hLabels : d.labels = d.find.map projectionLabel?)
    (h : d.bareTerms = []) :
    d.requireLabels = .ok (d.labels.filterMap id) := by
  unfold bareTerms at h
  unfold requireLabels
  rw [hLabels, unlabeledTerms_map, h]
  rfl

/- Terms without one are reported. -/
theorem requireLabels_of_ne
    (hLabels : d.labels = d.find.map projectionLabel?)
    (h : d.bareTerms ≠ []) :
    d.requireLabels
      = .error
        (.shape
          (.unlabeledProjection
            (d.bareTerms.map Value.text))) := by
  unfold requireLabels
  rw [hLabels, unlabeledTerms_map, ok_bind, if_neg]
  · rfl
  · change ¬(d.bareTerms.map Value.text).isEmpty = true
    simpa using h

end QueryDocument

------------------------------------------------------------
-- Checks
------------------------------------------------------------

/- A value names a shape, or it is refused. -/
theorem RowShape.ofValue_cases (v : Value) :
    (∃ s : RowShape, v = s.value ∧ ofValue v = .ok s)
      ∨ ((∀ s : RowShape, v ≠ s.value)
        ∧ ofValue v = .error (.shape (.unknownShape v))) := by
  by_cases hKnown : ∃ s : RowShape, v = s.value
  · rcases hKnown with ⟨s, rfl⟩
    exact .inl ⟨s, rfl, ofValue_name s⟩
  · have hNone : ∀ s : RowShape, v ≠ s.value :=
      fun s hEq => hKnown ⟨s, hEq⟩
    refine .inr ⟨hNone, ?_⟩
    have hOther :
        [tupleSet, mapSet, rowList].find?
            (fun s => v.str? == some s.name)
          = none := by
      rw [List.find?_eq_none]
      intro s _ hName
      have hText : v.str? = some s.name := by
        simpa using hName
      refine hNone s ?_
      cases v <;> simp_all [Value.str?, RowShape.value]
    unfold ofValue
    rw [hOther]

/- A document is asked for labels only if the shape has them. -/
def QueryDocument.checkShape
    (d : QueryDocument)
    (shape : Value) : Outcome (RowShape × Option Value) := do
  let s ← RowShape.ofValue shape
  let labels ← d.labelsFor s
  return (s, labels)

namespace EntryPoint

/- The shape that a way to run a query asks for. -/
def shape : EntryPoint → Value
  | .shaped shape => shape
  | .rows => RowShape.tupleSet.value
  | .maps => RowShape.mapSet.value
  | .pulled => RowShape.rowList.value
  | .oneRow => RowShape.tupleSet.value
  | .oneValue => RowShape.tupleSet.value

/- Only one of them needs a term that pulls. -/
def checkPull
    (p : EntryPoint)
    (d : QueryDocument) : Outcome Unit :=
  match p with
  | .pulled =>
      if containsPull d.find then .ok ()
      else .error (.notPull d.find)
  | _ => .ok ()

/- What is done with the shaped rows in the end. -/
def finish
    (p : EntryPoint)
    (rows : Value) : Outcome Value :=
  match p with
  | .oneRow => onlyRow rows
  | .oneValue => onlyValue rows
  | _ => .ok rows

/-
  All ways to run a query are alike: compile it, see whether
  it pulls if it has to, run the document for a shape, and
  look at the rows.
-/
theorem run_eq
    (p : EntryPoint)
    (context : Value) :
    p.run context
      = (do
          let d ← compileContext context
          (p.checkPull d : Except Fault Unit)
          let rows ← runDocument d p.shape
          (p.finish rows : Except Fault Value)) := by
  have hPlain (d : QueryDocument) (shape : Value) :
      (do
        let rows ← runDocument d shape
        ((.ok rows : Outcome Value) : Except Fault Value))
        = runDocument d shape :=
    bind_pure _
  have hPull (d : QueryDocument) (s : Session Value) :
      (do
        ((.ok () : Outcome Unit) : Except Fault Unit)
        s)
        = s :=
    pure_bind () _
  cases p with
  | pulled =>
      change runPull context = _
      unfold runPull
      simp only [finish, hPlain, checkPull]
      congr 1
      funext d
      split
      · exact (hPull d _).symm
      · rfl
  | shaped shape =>
      simp only [finish, hPlain, checkPull]
      rfl
  | rows =>
      simp only [finish, hPlain, checkPull]
      rfl
  | maps =>
      simp only [finish, hPlain, checkPull]
      rfl
  | oneRow =>
      simp only [finish, checkPull]
      exact bind_assoc _ _ _
  | oneValue =>
      simp only [finish, checkPull]
      exact bind_assoc _ _ _

end EntryPoint

/-
  A document is run for a shape if that is known and its
  labels are there; and then the engine is called once.
-/
theorem Session.carry_runDocument
    (setup : SessionSetup)
    (d : QueryDocument)
    (shape : Value)
    (t : Transcript) :
    match d.checkShape shape with
    | .ok _ =>
        (carry setup (runDocument d shape) t).2.calls
          = t.calls ++ [d.call]
    | .error fault =>
        carry setup (runDocument d shape) t
          = (.error fault, t) := by
  unfold QueryDocument.checkShape runDocument
  cases hShape : RowShape.ofValue shape with
  | error fault =>
      exact carry_bind_of_error _ (carry_lift setup (.error fault) t)
  | ok s =>
      rw [ok_bind,
        carry_bind_of_ok _ (carry_lift setup (.ok s) t)]
      cases hLabels : d.labelsFor s with
      | error fault =>
          exact
            carry_bind_of_error _
              (carry_lift setup (.error fault) t)
      | ok labels =>
          rw [ok_bind,
            carry_bind_of_ok _ (carry_lift setup (.ok labels) t)]
          change (carry setup _ t).2.calls = _
          rw [Silent.calls_bind, calls_ask]
          intro rows
          refine (silent_note _).bind ?_
          exact fun _ => silent_lift _

namespace EntryPoint

/- The checks of a way to run a query, in order. -/
def check
    (p : EntryPoint)
    (d : QueryDocument) : Outcome Unit := do
  p.checkPull d
  let _ ← d.checkShape p.shape
  return ()

/-
  The engine is called once if the context compiles and all
  checks pass.  Otherwise it is not called, and what is wrong
  first is the outcome.
-/
theorem carry_run
    (setup : SessionSetup)
    (p : EntryPoint)
    (context : Value)
    (t : Transcript) :
    match (do
        let d ← setup.compiled context
        p.check d
        return d : Outcome QueryDocument) with
    | .ok d =>
        (Session.carry setup (p.run context) t).2.calls
          = t.calls ++ [d.call]
    | .error fault =>
        (Session.carry setup (p.run context) t).2.calls = t.calls
          ∧ (Session.carry setup (p.run context) t).1
            = .error fault := by
  rcases Session.carry_compileContext setup context t with
    ⟨t', hCompile, hCalls⟩
  rw [run_eq]
  cases hCompiled : setup.compiled context with
  | error fault =>
      rw [hCompiled] at hCompile
      change _ ∧ _
      rw [Session.carry_bind_of_error _ hCompile]
      exact ⟨hCalls, rfl⟩
  | ok d =>
      rw [hCompiled] at hCompile
      rw [Session.carry_bind_of_ok _ hCompile, ok_bind]
      unfold check
      cases hPull : p.checkPull d with
      | error fault =>
          change _ ∧ _
          rw [Session.carry_bind_of_error _
            (Session.carry_lift setup (.error fault) t')]
          exact ⟨hCalls, rfl⟩
      | ok _ =>
          rw [Session.carry_bind_of_ok _
            (Session.carry_lift setup (.ok ()) t'), ok_bind]
          have hRun :=
            Session.carry_runDocument setup d p.shape t'
          cases hShape : d.checkShape p.shape with
          | error fault =>
              rw [hShape] at hRun
              change _ ∧ _
              rw [Session.carry_bind_of_error _ hRun]
              exact ⟨hCalls, rfl⟩
          | ok _ =>
              rw [hShape] at hRun
              change (Session.carry setup _ t').2.calls = _
              rw [Session.Silent.calls_bind, hRun, hCalls]
              exact fun _ => Session.silent_lift _

------------------------------------------------------------
-- Admission
------------------------------------------------------------

/-
  A way to run a query takes a document: its shape is known,
  all terms are labelled if that is the shape of maps, and
  some term pulls if it is for that.
-/
structure Admits
    (p : EntryPoint)
    (d : QueryDocument) : Prop where
  known : ∃ s : RowShape, p.shape = s.value
  labelled :
    p.shape = RowShape.mapSet.value →
      ∀ v ∈ d.find, (projectionLabel? v).isSome = true
  pulls : p = .pulled → ∃ v ∈ d.find, isPullTerm v = true

/-
  What is wrong with a query: its context does not compile,
  it should pull and does not, nothing has its shape, or the
  shape is that of maps and there are terms without labels.
  Each fault is reported only if none before it is there.
-/
inductive Rejects
    (setup : SessionSetup)
    (context : Value) : EntryPoint → Fault → Prop where
  | uncompiled
      (p : EntryPoint)
      {fault : Fault}
      (h : setup.compiled context = .error fault) :
      Rejects setup context p fault
  | pullless
      {d : QueryDocument}
      (hCompiled : setup.compiled context = .ok d)
      (h : ∀ v ∈ d.find, isPullTerm v = false) :
      Rejects setup context .pulled (.notPull d.find)
  | shapeless
      {p : EntryPoint}
      {d : QueryDocument}
      (hCompiled : setup.compiled context = .ok d)
      (hPulls : p = .pulled → ∃ v ∈ d.find, isPullTerm v = true)
      (h : ∀ s : RowShape, p.shape ≠ s.value) :
      Rejects setup context p (.shape (.unknownShape p.shape))
  | unlabelled
      {p : EntryPoint}
      {d : QueryDocument}
      (hCompiled : setup.compiled context = .ok d)
      (hShape : p.shape = RowShape.mapSet.value)
      (h : d.bareTerms ≠ []) :
      Rejects setup context p
        (.shape
          (.unlabeledProjection (d.bareTerms.map Value.text)))

variable {setup : SessionSetup}
variable {context : Value}
variable {p : EntryPoint}
variable {d : QueryDocument}

/- Only a query that should pull and does not fails it. -/
theorem checkPull_cases
    (p : EntryPoint)
    (d : QueryDocument) :
    (p.checkPull d = .ok ()
        ∧ (p = .pulled → ∃ v ∈ d.find, isPullTerm v = true))
      ∨ (p = .pulled ∧ (∀ v ∈ d.find, isPullTerm v = false)
        ∧ p.checkPull d = .error (.notPull d.find)) := by
  cases p with
  | pulled =>
      unfold checkPull containsPull
      cases hPull : d.find.any isPullTerm with
      | true => exact .inl ⟨rfl, fun _ => List.any_eq_true.mp hPull⟩
      | false =>
          rw [List.any_eq_false] at hPull
          exact .inr ⟨rfl, by simpa using hPull, rfl⟩
  | _ => exact .inl ⟨rfl, nofun⟩

/- No label is missing where no term is bare. -/
theorem bareTerms_eq_nil_iff :
    d.bareTerms = []
      ↔ ∀ v ∈ d.find, (projectionLabel? v).isSome = true := by
  simp [QueryDocument.bareTerms, List.filter_eq_nil_iff,
    Option.isSome_iff_ne_none]

/-
  A document that is admitted passes all checks, and any other
  is rejected for the first one that it fails.
-/
theorem check_cases
    (p : EntryPoint)
    (hCompiled : setup.compiled context = .ok d) :
    (p.Admits d ∧ p.check d = .ok ())
      ∨ (¬p.Admits d
        ∧ ∃ fault, Rejects setup context p fault
          ∧ p.check d = .error fault) := by
  have hLabels := SessionSetup.labels_of_compiled hCompiled
  unfold check QueryDocument.checkShape
  rcases checkPull_cases p d with
    ⟨hPull, hPulls⟩ | ⟨rfl, hNone, hPull⟩
  · rw [hPull, ok_bind]
    rcases RowShape.ofValue_cases p.shape with
      ⟨s, hKnown, hShape⟩ | ⟨hUnknown, hShape⟩
    · rw [hShape, ok_bind]
      by_cases hBare :
          p.shape = RowShape.mapSet.value ∧ d.bareTerms ≠ []
      · refine .inr ⟨?_, _, .unlabelled hCompiled hBare.1 hBare.2, ?_⟩
        · intro hAdmits
          exact
            hBare.2
              (bareTerms_eq_nil_iff.mpr
                (hAdmits.labelled hBare.1))
        · have hMaps : s = .mapSet := by
            rw [hBare.1, RowShape.value,
              RowShape.ofValue_name] at hShape
            exact (Except.ok.inj hShape).symm
          rw [hMaps, QueryDocument.labelsFor,
            d.requireLabels_of_ne hLabels hBare.2]
          rfl
      · have hNamed :
            p.shape = RowShape.mapSet.value →
              d.bareTerms = [] := by
          intro hMaps
          by_contra hSome
          exact hBare ⟨hMaps, hSome⟩
        refine .inl ⟨⟨⟨s, hKnown⟩, ?_, hPulls⟩, ?_⟩
        · intro hMaps
          exact bareTerms_eq_nil_iff.mp (hNamed hMaps)
        · cases s with
          | mapSet =>
              rw [QueryDocument.labelsFor,
                d.requireLabels_of_bareTerms hLabels
                  (hNamed hKnown)]
              rfl
          | _ => rfl
    · rw [hShape]
      refine
        .inr
          ⟨fun hAdmits => ?_, _,
            .shapeless hCompiled hPulls hUnknown, rfl⟩
      rcases hAdmits.known with ⟨s, hKnown⟩
      exact hUnknown s hKnown
  · rw [hPull]
    refine
      .inr
        ⟨fun hAdmits => ?_, _, .pullless hCompiled hNone, rfl⟩
    rcases hAdmits.pulls rfl with ⟨v, hv, hTerm⟩
    rw [hNone v hv] at hTerm
    cases hTerm

/-
  Whatever is wrong with a query comes before the engine.  A
  query whose context compiles and whose document is admitted
  calls the engine exactly once, with the parts of the
  document.  Any other query leaves the engine alone, and its
  outcome is the first fault.
-/
theorem calls_run
    (setup : SessionSetup)
    (p : EntryPoint)
    (context : Value)
    (t : Transcript) :
    (∀ d, setup.compiled context = .ok d → p.Admits d →
        (Session.carry setup (p.run context) t).2.calls
          = t.calls
            ++ [ { find := d.find
                   inputs := d.inputs
                   clauses := d.clauses
                   args := d.args } ])
      ∧ ((∀ d, setup.compiled context = .ok d → ¬p.Admits d) →
        (Session.carry setup (p.run context) t).2.calls = t.calls
          ∧ ∃ fault, Rejects setup context p fault
            ∧ (Session.carry setup (p.run context) t).1
              = .error fault) := by
  have hRun := carry_run setup p context t
  cases hCompiled : setup.compiled context with
  | error fault =>
      rw [hCompiled] at hRun
      exact
        ⟨nofun,
          fun _ =>
            ⟨hRun.1, fault, .uncompiled p hCompiled, hRun.2⟩⟩
  | ok d =>
      rw [hCompiled, ok_bind] at hRun
      rcases check_cases p hCompiled with
        ⟨hAdmits, hCheck⟩ | ⟨hNot, fault, hRejects, hCheck⟩
      · rw [hCheck] at hRun
        constructor
        · rintro _ ⟨⟩ _
          exact hRun
        · exact fun hNone => absurd hAdmits (hNone d rfl)
      · rw [hCheck] at hRun
        constructor
        · rintro _ ⟨⟩ hAdmits
          exact absurd hAdmits hNot
        · exact fun _ => ⟨hRun.1, fault, hRejects, hRun.2⟩

/-
  A query for entities by a literal calls the engine if it is
  to give maps, but not if it is to pull.
-/
theorem calls_run_literalContext :
    let db := Bootstrap.database 0
    let context := literalContext db "db/doc" (.str "x")
    let after (p : EntryPoint) :=
      Session.carry evaluatingSetup (p.run context) (.start [])
    (after .maps).2.calls
        = [ { find := [.str "?e"]
              inputs := [.str "$"]
              clauses := [.tuple (literalItems "db/doc" (.str "x"))]
              args := [.database db] } ]
      ∧ (after .pulled).2.calls = []
      ∧ (after .pulled).1 = .error (.notPull [.str "?e"]) := by
  intro db context after
  have hCompiled :
      evaluatingSetup.compiled context
        = .ok (literalDocument db "db/doc" (.str "x")) := by
    unfold SessionSetup.compiled
    change (compileQuery {} context >>= _) = _
    rw [compileQuery_literalContext db (.str "x")
      (by decide) (by decide)]
    rfl
  constructor
  · refine
      (calls_run evaluatingSetup .maps context (.start [])).1 _
        hCompiled
        { known := ⟨.mapSet, rfl⟩
          labelled := ?_
          pulls := nofun }
    intro _ v hv
    rw [List.mem_singleton.mp hv]
    rfl
  · have hNone :
        ∀ d, evaluatingSetup.compiled context = .ok d →
          ¬pulled.Admits d := by
      intro d hOther hAdmits
      rw [hCompiled, Except.ok.injEq] at hOther
      subst hOther
      rcases hAdmits.pulls rfl with ⟨v, hv, hPull⟩
      rw [List.mem_singleton.mp hv] at hPull
      cases hPull
    rcases
      (calls_run evaluatingSetup .pulled context (.start [])).2
        hNone with ⟨hCalls, fault, hRejects, hFault⟩
    refine ⟨hCalls, hFault.trans ?_⟩
    cases hRejects with
    | uncompiled _ h =>
        rw [hCompiled] at h
        cases h
    | pullless h =>
        rw [hCompiled, Except.ok.injEq] at h
        subst h
        rfl
    | shapeless _ _ h => exact absurd rfl (h .rowList)
    | unlabelled _ h =>
        exact absurd (Value.str.inj h) (by decide)

end EntryPoint

end FactBase
