import FactBase.Answer.Evaluation
import FactBase.Proofs.Value.Equality

/-
  This file shows what holds of every pull: a property that
  each of its steps has and that is kept from step to step.
  It holds of projecting a term too, if it does where the
  term is not bound.

  Key definitions include:
    * `Fault.ordinary`
    * `Database.Pervades`

  Key theorems include:
    * `Database.Pervades.pull`
    * `Database.Pervades.project`
-/

------------------------------------------------------------
-- Properties of Pulls
------------------------------------------------------------

namespace FactBase

/-
  A fault that is neither about an attribute that is not known
  nor about a projection that is not bound.
-/
def Fault.ordinary : Fault → Bool
  | .engine (.unknownAttribute _) => false
  | .engine (.unboundProjection _) => false
  | .engine (.unboundPull _) => false
  | _ => true

/-
  A property of gatherings pervades the pulls of a database if
  it is kept by going on and each step has it: looking an
  attribute up, adding to a collection, and failing without
  being about an attribute.
-/
structure Database.Pervades
    (db : Database)
    (Q : {α : Type} → Gathering α → Prop) : Prop where
  pure : ∀ {α : Type} (a : α), Q (Pure.pure a : Gathering α)
  bind :
    ∀ {α β : Type} (m : Gathering α) (f : α → Gathering β),
      Q m → (∀ a, Q (f a)) → Q (m >>= f)
  fault :
    ∀ {α : Type} (fault : Fault), fault.ordinary = true →
      Q (throw fault : Gathering α)
  add :
    ∀ (origin : Origin) (now : Value) (s : Shown),
      Q (Gathering.add origin now s)
  installed :
    ∀ ident, Q (Gathering.lift (db.installed ident))

namespace Database.Pervades

variable {db : Database}
variable {Q : {α : Type} → Gathering α → Prop}

/- What pervades the steps holds of a walk along a list. -/
theorem foldlM
    {α β : Type}
    (h : db.Pervades Q)
    {f : β → α → Gathering β}
    (hStep : ∀ b a, Q (f b a))
    (xs : List α)
    (b : β) : Q (xs.foldlM f b) := by
  induction xs generalizing b with
  | nil => exact h.pure b
  | cons x xs ih =>
      rw [List.foldlM_cons]
      exact h.bind _ _ (hStep b x) ih

/- It holds of gathering something for each item. -/
theorem mapM
    {α β : Type}
    (h : db.Pervades Q)
    {f : α → Gathering β}
    {xs : List α}
    (hStep : ∀ a ∈ xs, Q (f a)) : Q (xs.mapM f) := by
  induction xs with
  | nil => exact h.pure []
  | cons x xs ih =>
      rw [List.forall_mem_cons] at hStep
      rw [List.mapM_cons]
      refine h.bind _ _ hStep.1 fun y => ?_
      exact h.bind _ _ (ih hStep.2) (fun ys => h.pure (y :: ys))

/- It holds of adding a value. -/
theorem addPulled
    (h : db.Pervades Q)
    (schema : Schema)
    (s : Shown)
    (entries : List (Value × Shown)) :
    Q (Database.addPulled schema s entries) := by
  unfold Database.addPulled
  simp only
  split
  · split
    · exact h.pure _
    · exact h.bind _ _ (h.add _ _ _) (fun _ => h.pure _)
    · exact h.bind _ _ (h.add _ _ _) (fun _ => h.pure _)
    · exact h.fault _ rfl
  · exact h.pure _

/- It holds of pulling a fact. -/
theorem pullFact
    (h : db.Pervades Q)
    (entries : List (Value × Shown))
    (d : Datom) : Q (db.pullFact entries d) := by
  unfold Database.pullFact
  split
  · exact h.addPulled _ _ _
  · exact h.fault _ rfl

/- It holds of pulling an attribute if it does further on. -/
theorem pullAttribute
    (h : db.Pervades Q)
    (eid : Held)
    (ident : Value)
    {further : Schema → Datom → Gathering Shown}
    (hFurther : ∀ schema d, Q (further schema d))
    (entries : List (Value × Shown)) :
    Q (db.pullAttribute eid ident further entries) := by
  unfold Database.pullAttribute
  refine h.bind _ _ (h.installed ident) fun attr => ?_
  refine h.foldlM (fun entries d => ?_) _ _
  refine h.bind _ _ (hFurther attr.schema d) fun s => ?_
  exact h.addPulled attr.schema s entries

/- It holds of pulling what a text asks for. -/
theorem pullNamed
    (h : db.Pervades Q)
    (eid : Held)
    (name : String)
    (entries : List (Value × Shown)) :
    Q (db.pullNamed eid name entries) := by
  unfold Database.pullNamed
  split
  · exact h.foldlM h.pullFact _ _
  · split
    · exact h.pure _
    · exact h.pullAttribute eid _ (fun _ _ => h.pure _) entries

/- It holds of pulling by elements if it does of each. -/
private theorem pullItems
    (h : db.Pervades Q)
    (eid : Held)
    {items : List Value}
    (hItems :
      ∀ item ∈ items, ∀ entries,
        Q (db.pullItem item eid entries))
    (entries : List (Value × Shown)) :
    Q (db.pullItems items eid entries) := by
  induction items generalizing entries with
  | nil =>
      rw [Database.pullItems]
      exact h.pure entries
  | cons item items ih =>
      rw [List.forall_mem_cons] at hItems
      rw [Database.pullItems]
      exact h.bind _ _ (hItems.1 entries) (ih hItems.2)

/- The same for attributes with patterns of their own. -/
private theorem pullEntries
    (h : db.Pervades Q)
    (eid : Held)
    {subs : List (Value × Value)}
    (hSubs : ∀ e ∈ subs, ∀ eid, Q (db.pull e.2 eid))
    (entries : List (Value × Shown)) :
    Q (db.pullEntries subs eid entries) := by
  induction subs generalizing entries with
  | nil =>
      rw [Database.pullEntries]
      exact h.pure entries
  | cons e subs ih =>
      rcases e with ⟨ident, sub⟩
      rw [List.forall_mem_cons] at hSubs
      have hFurther :
          ∀ schema d, Q (pulledBy sub (db.pull sub) schema d) := by
        intro schema d
        unfold pulledBy
        split
        · exact h.pure _
        · exact hSubs.1 _
        · exact h.pure _
      rw [Database.pullEntries]
      exact
        h.bind _ _ (h.pullAttribute eid ident hFurther entries)
          (ih hSubs.2)

/- It holds of pulling, whatever the pattern is. -/
theorem pull_pullItem
    (h : db.Pervades Q)
    (pattern : Value) :
    (∀ eid, Q (db.pull pattern eid))
      ∧ ∀ eid entries, Q (db.pullItem pattern eid entries) := by
  -- A pattern has elements, and these have patterns again.
  induction pattern using Value.inductionOnParts with
  | h pattern ih =>
      constructor
      · intro eid
        cases pattern with
        | list items =>
            rw [Database.pull]
            refine h.bind _ _ ?_ (fun _ => h.pure _)
            exact
              h.pullItems eid
                (fun item hItem => (ih item hItem).2 eid) []
        | tuple items =>
            rw [Database.pull]
            refine h.bind _ _ ?_ (fun _ => h.pure _)
            exact
              h.pullItems eid
                (fun item hItem => (ih item hItem).2 eid) []
        | _ =>
            rw [Database.pull]
            · exact h.fault _ rfl
            · simp
            · simp
      · intro eid entries
        cases pattern with
        | str name =>
            rw [Database.pullItem]
            exact h.pullNamed eid name entries
        | map subs =>
            rw [Database.pullItem]
            refine h.pullEntries eid ?_ entries
            intro e he
            have hPart : e.2 ∈ (Value.map subs).parts :=
              List.mem_append_right _ (List.mem_map_of_mem he)
            exact (ih e.2 hPart).1
        | _ =>
            rw [Database.pullItem]
            · exact h.fault _ rfl
            · simp
            · simp

/-
  It holds of projecting a term if it does where the term is
  not bound.
-/
theorem project
    (h : db.Pervades Q)
    {σ : Assignment}
    {term : Value}
    (hName :
      ∀ name, term = .str name → startsWithSigil name = true →
        σ.held? name = none →
          Q (throw (.engine (.unboundProjection name)) :
            Gathering Shown))
    (hPull :
      ∀ x pattern,
        term.sequence? = some [.str "pull", x, pattern] →
          x.str?.bind σ.held? = none →
            Q (throw (.engine (.unboundPull x)) :
              Gathering Shown)) :
    Q (db.project σ term) := by
  unfold Database.project
  simp only
  split
  next name =>
    split
    next hSigil =>
      split
      · exact h.pure _
      next hNone => exact hName name rfl hSigil hNone
    · exact h.fault _ rfl
  next =>
    split
    next x pattern hItems =>
      split
      · exact (h.pull_pullItem pattern).1 _
      next hNone =>
        split
        · exact hPull x pattern hItems hNone
        · exact h.fault _ rfl
    · exact h.fault _ rfl

end Database.Pervades

end FactBase
