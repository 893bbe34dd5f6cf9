import FactBase.Query.Diagnosis
import FactBase.Sorting.Attempt

/-
  This file shows that examining a context agrees with
  compiling it.  Where compiling fails, the first error that
  is reported has the message of that very failure, whatever
  else is wrong with the context; and where it succeeds,
  nothing is reported but the name of the query, which there
  is unless the document has no canonical text.

  Key definitions include:
    * `Diagnosis.Agrees`

  Key theorems include:
    * `Diagnosis.agrees_ofContext`
    * `Diagnosis.agrees_ofParts`
    * `diagnose_agrees`
-/

------------------------------------------------------------
-- Faults with Messages
------------------------------------------------------------

namespace FactBase

open Sorting

/- The fault is reported in words. -/
def Fault.IsTold (fault : Fault) : Prop :=
  fault.message?.isSome = true

/- All failures of a step are reported in words. -/
def Outcome.FailsTold
    {α : Type}
    (x : Outcome α) : Prop :=
  ∀ fault, x = .error fault → fault.IsTold

namespace Outcome

variable {α β : Type}

/- A step that succeeds does not fail. -/
theorem failsTold_ok (a : α) :
    FailsTold (.ok a : Outcome α) := nofun

/- A step that fails in words. -/
theorem failsTold_error
    {fault : Fault}
    (h : fault.IsTold) :
    FailsTold (.error fault : Outcome α) := by
  rintro _ ⟨⟩
  exact h

/- One step after the other. -/
theorem FailsTold.bind
    {x : Outcome α}
    {f : α → Outcome β}
    (h : x.FailsTold)
    (hNext : ∀ a, (f a).FailsTold) : (x >>= f).FailsTold := by
  cases x with
  | ok a => exact hNext a
  | error fault => exact failsTold_error (h fault rfl)

end Outcome

open Outcome (FailsTold failsTold_ok failsTold_error)

/- A context that cannot be read is reported in words. -/
theorem failsTold_readContext
    (o : CompileOptions)
    (v : Value) : FailsTold (readContext o v) := by
  have hEntries :
      ∀ entries, FailsTold (Context.ofEntries entries) := by
    intro entries
    unfold Context.ofEntries
    dsimp only
    split
    · exact failsTold_ok _
    · exact failsTold_error rfl
  have hMap :
      ∀ entries, FailsTold (Context.ofMap (.map entries)) := by
    intro entries
    unfold Context.ofMap
    dsimp only
    split
    · exact failsTold_ok _
    · exact failsTold_error rfl
  unfold readContext
  split
  · unfold Context.readStrictly
    split
    · exact hEntries _
    · exact hEntries _
    · exact failsTold_error rfl
  · unfold Context.readLeniently
    split
    · exact failsTold_ok _
    · exact hMap _
    · exact failsTold_error rfl

/- Clauses that cannot be read are reported in words. -/
theorem Clause.failsTold_ofMaps (v : Value) :
    FailsTold (ofMaps v) := by
  have hMap : ∀ i m, FailsTold (ofMap i m) := by
    intro i m
    unfold ofMap
    split
    · split
      · exact failsTold_ok _
      · exact failsTold_error rfl
    · exact failsTold_error rfl
  have hMaps :
      ∀ (maps : List Value) (i : Nat),
        FailsTold (ofMapsFrom i maps) := by
    intro maps
    induction maps with
    | nil => exact fun _ => failsTold_ok _
    | cons m maps ih =>
        intro i
        refine (hMap i m).bind ?_
        intro clauses
        exact (ih (i + 1)).bind (fun _ => failsTold_ok _)
  unfold ofMaps
  split
  · exact failsTold_error rfl
  · exact failsTold_error rfl
  · exact hMaps _ 0

/- Bindings that cannot be split are reported in words. -/
theorem Bindings.failsTold_split (v : Value) :
    FailsTold (split v) := by
  unfold split
  split
  · exact failsTold_error rfl
  · split
    · exact failsTold_ok _
    · exact failsTold_error rfl

/- A section that is no sequence is reported in words. -/
theorem failsTold_orderedSection
    (name : String)
    (v : Value) : FailsTold (orderedSection name v) := by
  unfold orderedSection
  split
  · exact failsTold_ok _
  · exact failsTold_error rfl

------------------------------------------------------------
-- Agreement
------------------------------------------------------------

namespace Diagnosis

/-
  What comes of examining a context agrees with what comes of
  compiling it.
-/
inductive Agrees :
    Outcome QueryDocument → Outcome Diagnosis → Prop where
  /- The failure is the first error, and there is no name. -/
  | rejected
      {fault : Fault}
      {d : Diagnosis}
      {e : Diagnostic}
      {rest : List Diagnostic}
      (hErrors : d.errors = e :: rest)
      (hMessage : fault.message? = some e.message)
      (hOk : d.ok = false)
      (hId : d.queryId = none) : Agrees (.error fault) (.ok d)
  /- There are no errors, and the query has its name. -/
  | accepted
      {document : QueryDocument}
      {d : Diagnosis}
      {id : String}
      (hErrors : d.errors = [])
      (hOk : d.ok = true)
      (hName : document.queryId = .ok id)
      (hId : d.queryId = some id) : Agrees (.ok document) (.ok d)
  /- The query has no name, as it has no canonical text. -/
  | unwritable
      {document : QueryDocument}
      {fault : Fault}
      (h : document.canonicalText = .error fault) :
      Agrees (.ok document) (.error fault)

variable {o : CompileOptions}
variable {c : Context}
variable {p : ContextParts}
variable {fault : Fault}
variable {ignored : List Diagnostic}

/- An error about a fault has the message of the fault. -/
theorem message_ofFault
    (h : fault.IsTold)
    (finding : Finding)
    (symbols : List String) :
    fault.message?
      = some (Diagnostic.ofFault finding fault symbols).message := by
  rcases Option.isSome_iff_exists.mp h with ⟨s, hs⟩
  rw [Diagnostic.ofFault, hs]
  rfl

/- A failure is the first error of an early end. -/
theorem agrees_early
    (h : fault.IsTold)
    (finding : Finding)
    (rest : List Diagnostic) :
    Agrees (.error fault)
      (.ok
        (early (Diagnostic.ofFault finding fault [] :: rest)
          ignored)) :=
  .rejected rfl (message_ofFault h finding []) rfl rfl

/- The finding about a failure to split bindings. -/
def bindingFinding : Fault → Finding
  | .bindingCount _ => .bindingList
  | _ => .bindingShape

/- A failure to split bindings is the one error about them. -/
theorem bindingErrors_error
    {α : Type}
    (fault : Fault) :
    bindingErrors (.error fault : Outcome α)
      = [Diagnostic.ofFault (bindingFinding fault) fault []] := by
  cases fault <;> rfl

/-
  Sections are taken apart as they are examined: first the
  projection, then the predicates, then the rules.
-/
theorem ofContext_eq_sections (c : Context) :
    ContextParts.ofContext c = (do
      let clauses ← Clause.ofMaps c.clauses
      let bindings ← Bindings.split c.bindings
      let (projection, preds, rules) ← sections c
      return .ofSections clauses bindings projection preds
        rules) := by
  unfold ContextParts.ofContext sections
  simp only [bind_assoc, pure_bind]

/- No section is out of order without being reported. -/
theorem failsTold_sections (c : Context) :
    FailsTold (sections c) := by
  refine (failsTold_orderedSection _ _).bind fun _ => ?_
  refine (failsTold_orderedSection _ _).bind fun _ => ?_
  refine (failsTold_orderedSection _ _).bind fun _ => ?_
  exact failsTold_ok _

/-
  A context that cannot be taken apart is examined no further,
  and the first part that fails is the first to be reported.
  What can be taken apart is examined as such.
-/
theorem agrees_ofContext
    (h :
      ∀ p, ContextParts.ofContext c = .ok p →
        Agrees
          (do
            p.symbolReport.check
            p.checkAttributes o
            return QueryDocument.assemble p.parts)
          (ofParts o ignored p)) :
    Agrees
      (do
        let p ← ContextParts.ofContext c
        p.symbolReport.check
        p.checkAttributes o
        return QueryDocument.assemble p.parts)
      (ofContext o ignored c) := by
  rw [ofContext_eq_sections] at h ⊢
  unfold ofContext
  have hClauses := Clause.failsTold_ofMaps c.clauses
  have hBindings := Bindings.failsTold_split c.bindings
  have hRest := failsTold_sections c
  generalize Clause.ofMaps c.clauses = clauses at *
  generalize Bindings.split c.bindings = bindings at *
  generalize sections c = rest at *
  cases clauses with
  | error fault => exact agrees_early (hClauses fault rfl) _ _
  | ok clauses =>
  cases bindings with
  | error fault =>
      change
        Agrees (.error fault)
          (.ok
            (early
              (bindingErrors
                  (.error fault : Outcome (List Value × List Value))
                ++ sectionErrors rest) ignored))
      rw [bindingErrors_error]
      exact agrees_early (hBindings fault rfl) _ _
  | ok bindings =>
  cases rest with
  | error fault => exact agrees_early (hRest fault rfl) _ _
  | ok rest => exact h _ rfl

/- So has an error about the use of variables. -/
theorem message_ofSymbolFault (h : fault.IsTold) :
    fault.message?
      = some (Diagnostic.ofSymbolFault fault).message := by
  unfold Diagnostic.ofSymbolFault
  split <;> exact message_ofFault h _ _

/- What a report finds is reported in words. -/
theorem isTold_of_mem_faults
    {r : SymbolReport}
    (h : fault ∈ r.faults) : fault.IsTold := by
  simp only [SymbolReport.faults, List.mem_append,
    List.mem_ite_nil_left, List.mem_singleton] at h
  rcases h with ⟨_, rfl⟩ | ⟨_, rfl⟩ <;> rfl

/- Whatever is reported ends without a name. -/
theorem ofParts_of_errors
    {p : ContextParts}
    {e : Diagnostic}
    (h :
      (p.symbolReport.faults.map Diagnostic.ofSymbolFault
          ++ attributeErrors o p).head? = some e)
    (hMessage : fault.message? = some e.message) :
    Agrees (.error fault) (ofParts o ignored p) := by
  rcases List.head?_eq_some_iff.mp h with ⟨rest, hErrors⟩
  unfold ofParts
  dsimp only
  rw [hErrors]
  exact .rejected rfl hMessage rfl rfl

/-
  What can be taken apart has its variables counted and its
  attributes looked up, and is named if nothing is wrong.
-/
theorem agrees_ofParts (p : ContextParts) :
    Agrees
      (do
        p.symbolReport.check
        p.checkAttributes o
        return QueryDocument.assemble p.parts)
      (ofParts o ignored p) := by
  cases hFaults : p.symbolReport.faults with
  | cons fault faults =>
      have hCheck : p.symbolReport.check = .error fault := by
        rw [SymbolReport.check, hFaults]
      have hTold : fault.IsTold :=
        isTold_of_mem_faults (hFaults ▸ List.mem_cons_self)
      rw [hCheck]
      refine ofParts_of_errors ?_ (message_ofSymbolFault hTold)
      rw [hFaults]
      rfl
  | nil =>
  have hCheck : p.symbolReport.check = .ok () := by
    rw [SymbolReport.check, hFaults]
  rw [hCheck, ok_bind]
  cases hUnknown : p.undeclared o with
  | cons name names =>
      have hFault :
          p.checkAttributes o
            = .error (.unknownAttributes (name :: names)) := by
        unfold ContextParts.checkAttributes
        rw [hUnknown]
        rfl
      have hTold :
          (Fault.unknownAttributes (name :: names)).IsTold := rfl
      rw [hFault]
      refine
        ofParts_of_errors ?_
          (message_ofFault hTold .unknownAttributes
            (name :: names))
      unfold attributeErrors
      rw [hFaults, hUnknown]
      rfl
  | nil =>
      have hPass : p.checkAttributes o = .ok () := by
        unfold ContextParts.checkAttributes
        rw [hUnknown]
        rfl
      have hNone :
          p.symbolReport.faults.map Diagnostic.ofSymbolFault
            ++ attributeErrors o p = [] := by
        unfold attributeErrors
        rw [hFaults, hUnknown]
        rfl
      rw [hPass, ok_bind]
      unfold ofParts
      dsimp only
      rw [hNone]
      cases hText :
          (QueryDocument.assemble p.parts).canonicalText with
      | error fault =>
          have hName :
              (QueryDocument.assemble p.parts).queryId
                = .error fault := by
            unfold QueryDocument.queryId
            rw [hText]
            rfl
          rw [hName]
          exact .unwritable hText
      | ok text =>
          rcases hName :
              (QueryDocument.assemble p.parts).queryId with
            fault | id
          · unfold QueryDocument.queryId at hName
            rw [hText] at hName
            cases hName
          · exact .accepted rfl rfl hName rfl

/- Examining agrees where a context cannot be read. -/
theorem agrees_of_unread
    {o : CompileOptions}
    {v : Value}
    {fault : Fault}
    (hRead : readContext o v = .error fault) :
    Agrees (compileQuery o v) (diagnose o v) := by
  unfold compileQuery diagnose
  rw [hRead]
  change
    Agrees (.error fault) (.ok (early [unreadable fault] []))
  unfold unreadable
  split <;>
    exact
      agrees_early (failsTold_readContext o v fault hRead) _ _

/- It agrees where a context was read. -/
theorem agrees_of_read
    {o : CompileOptions}
    {v : Value}
    {c : Context}
    (hRead : readContext o v = .ok c) :
    Agrees (compileQuery o v) (diagnose o v) := by
  unfold compileQuery diagnose
  rw [hRead]
  exact agrees_ofContext (fun p _ => agrees_ofParts p)

end Diagnosis

/-
  Examining a context agrees with compiling it, for all
  contexts and in all modes.
-/
theorem diagnose_agrees
    (o : CompileOptions)
    (v : Value) :
    Diagnosis.Agrees (compileQuery o v) (diagnose o v) := by
  cases hRead : readContext o v with
  | error fault => exact Diagnosis.agrees_of_unread hRead
  | ok c => exact Diagnosis.agrees_of_read hRead

end FactBase
