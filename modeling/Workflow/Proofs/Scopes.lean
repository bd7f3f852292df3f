import Mathlib.Logic.Relation
import Workflow.Proofs.FirstViolation
import Workflow.Validation

/-!
# The scopes of a definition

A definition is a tree of scopes: the machine itself, and inside each scope
the branches of its Parallel states. The validation walks this tree in three
mutually recursive functions. Here the tree is said once, as the list of the
scopes directly inside a scope, and the walk is brought to one equation
(`verdict_eq`): enter a scope, validate the scopes directly inside it in their
order, leave it. What is proved about whole definitions later goes by
`Scope.induction` over that equation and never opens the three functions.
-/

namespace Workflow

/-- A scope in its place: a machine with its location and nesting depth. -/
structure Scope where
  location : Location
  depth : Nat
  machine : Machine

namespace Scope

/-- The scopes of the branches, the first of which has the given index, of the
state at a location. -/
def ofBranches (location : Location) (depth index : Nat)
    (branches : List Branch) : List Scope :=
  branches.mapIdx fun i b =>
    ⟨location.branch (index + i), depth + 1, b.machine⟩

/-- The scopes directly inside a scope: the branches of its Parallel states. -/
def children (s : Scope) : List Scope :=
  s.machine.states.flatMap fun e =>
    ofBranches (s.location.state e.name) s.depth 0 e.state.branches

/-- The second scope lies inside the first, at any depth. -/
def Encloses : Scope → Scope → Prop :=
  Relation.TransGen fun s c => c ∈ s.children

mutual

/-- A scope and the scopes inside it, each before those inside it and
otherwise in the order of declaration. -/
def list (location : Location) (depth : Nat) : Machine → List Scope
  | m@{ states, .. } =>
    ⟨location, depth, m⟩ :: listStates location depth states

/-- The scopes inside the states of a scope. -/
def listStates (location : Location) (depth : Nat) : List Entry → List Scope
  | [] => []
  | { name, state := .parallel { branches, .. } } :: rest =>
    listBranches (location.state name) depth 0 branches ++
      listStates location depth rest
  | _ :: rest => listStates location depth rest

/-- The scopes of branches, the first of which has the given index, with the
scopes inside them. -/
def listBranches (location : Location) (depth index : Nat) :
    List Branch → List Scope
  | [] => []
  | { machine, .. } :: rest =>
    list (location.branch index) (depth + 1) machine ++
      listBranches location depth (index + 1) rest

end

/-- The scope and all scopes inside it, in pre-order. -/
def preorder (s : Scope) : List Scope := list s.location s.depth s.machine

end Scope

namespace Machine

/-- The outermost scope of a definition. -/
def scope (m : Machine) : Scope := ⟨.root, 0, m⟩

/-- All scopes of a definition, in pre-order. -/
def scopes (m : Machine) : List Scope := m.scope.preorder

end Machine

namespace Scope

/-! ## The tree -/

theorem ofBranches_cons (location : Location) (depth index : Nat) (b : Branch)
    (bs : List Branch) :
    ofBranches location depth index (b :: bs) =
      ⟨location.branch index, depth + 1, b.machine⟩ ::
        ofBranches location depth (index + 1) bs := by
  simp [ofBranches, List.mapIdx_cons, Nat.add_assoc, Nat.add_comm 1]

theorem mem_ofBranches_iff {location : Location} {depth : Nat}
    {branches : List Branch} {c : Scope} :
    c ∈ ofBranches location depth 0 branches ↔
      ∃ i b, branches[i]? = some b ∧
        c = ⟨location.branch i, depth + 1, b.machine⟩ := by
  simp only [ofBranches, List.mem_mapIdx, Nat.zero_add]
  constructor
  · intro h
    obtain ⟨i, hi, rfl⟩ := h
    exact ⟨i, branches[i], List.getElem?_eq_getElem hi, rfl⟩
  · intro h
    obtain ⟨i, b, hb, rfl⟩ := h
    obtain ⟨hi, rfl⟩ := List.getElem?_eq_some_iff.mp hb
    exact ⟨i, hi, rfl⟩

theorem mem_children_iff {s c : Scope} :
    c ∈ s.children ↔
      ∃ e ∈ s.machine.states, ∃ i b, e.state.branches[i]? = some b ∧
        c = ⟨(s.location.state e.name).branch i, s.depth + 1, b.machine⟩ := by
  simp [children, mem_ofBranches_iff]

/-- What holds of the machines of all scopes directly inside a scope holds of
the machines in the branches of its states, and conversely. -/
theorem forall_mem_children_iff {P : Machine → Prop} {s : Scope} :
    (∀ c ∈ s.children, P c.machine) ↔
      ∀ e ∈ s.machine.states, ∀ b ∈ e.state.branches, P b.machine := by
  constructor
  · intro h e he b hb
    obtain ⟨i, hi⟩ := List.mem_iff_getElem?.mp hb
    exact h _ (mem_children_iff.mpr ⟨e, he, i, b, hi, rfl⟩)
  · intro h c hc
    obtain ⟨e, he, i, b, hb, rfl⟩ := mem_children_iff.mp hc
    exact h e he b (List.mem_of_getElem? hb)

/-- What holds of the machine of some scope directly inside a scope holds of the
machine in some branch of its states, and conversely. -/
theorem exists_mem_children_iff {P : Machine → Prop} {s : Scope} :
    (∃ c ∈ s.children, P c.machine) ↔
      ∃ e ∈ s.machine.states, ∃ b ∈ e.state.branches, P b.machine := by
  have hnone := not_congr (forall_mem_children_iff (P := (¬ P ·)) (s := s))
  simpa using hnone

theorem sizeOf_machine_lt_of_mem_branches {s : State} {b : Branch}
    (h : b ∈ s.branches) : sizeOf b.machine < sizeOf s := by
  cases s with
  | parallel p =>
      have hlt := List.sizeOf_lt_of_mem h
      cases p
      cases b
      simp only [State.branches, State.parallel.sizeOf_spec,
        ParallelState.mk.sizeOf_spec, Branch.mk.sizeOf_spec] at hlt ⊢
      omega
  | _ => cases h

theorem sizeOf_lt_of_mem_children {s c : Scope} (h : c ∈ s.children) :
    sizeOf c.machine < sizeOf s.machine := by
  obtain ⟨e, he, i, b, hb, rfl⟩ := mem_children_iff.mp h
  have hb := sizeOf_machine_lt_of_mem_branches (List.mem_of_getElem? hb)
  have he := List.sizeOf_lt_of_mem he
  obtain ⟨location, depth, m⟩ := s
  cases m
  cases e
  simp only [Machine.mk.sizeOf_spec, Entry.mk.sizeOf_spec] at he hb ⊢
  omega

/-- What holds of a scope as soon as it holds of the scopes directly inside it
holds of every scope. -/
theorem induction {P : Scope → Prop}
    (step : ∀ s, (∀ c ∈ s.children, P c) → P s) (s : Scope) : P s :=
  step s fun c _ => induction step c
termination_by sizeOf s.machine
decreasing_by exact sizeOf_lt_of_mem_children ‹_›

/-! ## The pre-order -/

theorem listStates_cons (location : Location) (depth : Nat) (e : Entry)
    (rest : List Entry) :
    listStates location depth (e :: rest) =
      listBranches (location.state e.name) depth 0 e.state.branches ++
        listStates location depth rest := by
  obtain ⟨name, state⟩ := e
  cases state with
  | parallel s => cases s; rfl
  | _ => rfl

theorem listBranches_eq (location : Location) (depth index : Nat)
    (branches : List Branch) :
    listBranches location depth index branches =
      (ofBranches location depth index branches).flatMap preorder := by
  induction branches generalizing index with
  | nil => rfl
  | cons b bs ih =>
      obtain ⟨comment, m⟩ := b
      rw [ofBranches_cons, List.flatMap_cons, listBranches, ih]
      rfl

theorem listStates_eq (s : Scope) (states : List Entry) :
    listStates s.location s.depth states =
      (states.flatMap fun e =>
        ofBranches (s.location.state e.name) s.depth 0
          e.state.branches).flatMap preorder := by
  induction states with
  | nil => rfl
  | cons e rest ih =>
      rw [listStates_cons, listBranches_eq, ih, List.flatMap_cons,
        List.flatMap_append]

theorem preorder_eq (s : Scope) :
    s.preorder = s :: s.children.flatMap preorder := by
  rw [children, ← listStates_eq]
  obtain ⟨location, depth, m⟩ := s
  cases m
  rfl

theorem mem_preorder_iff {s t : Scope} :
    t ∈ s.preorder ↔ t = s ∨ s.Encloses t := by
  induction s using induction with
  | step s ih =>
      rw [preorder_eq, List.mem_cons, List.mem_flatMap]
      refine or_congr_right ?_
      constructor
      · intro h
        obtain ⟨c, hc, ht⟩ := h
        rcases (ih c hc).mp ht with rfl | ht
        · exact .single hc
        · exact .head hc ht
      · intro ht
        rcases Relation.TransGen.head'_iff.mp ht with ⟨c, hc, ht⟩
        refine ⟨c, hc, (ih c hc).mpr ?_⟩
        rcases Relation.reflTransGen_iff_eq_or_transGen.mp ht with rfl | ht
        · exact .inl rfl
        · exact .inr ht

/-! ## The walk of a validation -/

/-- The verdict on a scope and all scopes inside it. -/
def verdict (settings : Settings) (s : Scope) : Verdict :=
  (Validation.runScope settings s.location s.depth s.machine).verdict

/-- The verdict of the checks that a scope goes through before the scopes
inside it. -/
def entry (settings : Settings) (s : Scope) : Verdict :=
  (Validation.enter settings s.location s.depth s.machine).verdict

/-- The verdict of the checks that a scope goes through after the scopes
inside it. -/
def exit (settings : Settings) (s : Scope) : Verdict :=
  (Validation.leave settings s.location s.machine).verdict

theorem verdict_runBranches (settings : Settings) (location : Location)
    (depth index : Nat) (branches : List Branch) :
    (Validation.runBranches settings location depth index branches).verdict =
      Verdict.each (verdict settings)
        (ofBranches location depth index branches) := by
  induction branches generalizing index with
  | nil => rfl
  | cons b bs ih =>
      rw [Validation.runBranches_cons, Run.verdict_seq, ih, ofBranches_cons,
        Verdict.each]
      rfl

theorem verdict_runStates (settings : Settings) (s : Scope)
    (states : List Entry) :
    (Validation.runStates settings s.location s.depth states).verdict =
      Verdict.each (verdict settings) (states.flatMap fun e =>
        ofBranches (s.location.state e.name) s.depth 0
          e.state.branches) := by
  induction states with
  | nil => rfl
  | cons e rest ih =>
      rw [Validation.runStates_cons, Run.verdict_seq, verdict_runBranches, ih,
        List.flatMap_cons, Verdict.each_append]

/-- A scope is entered, then the scopes directly inside it are validated in
their order, and then it is left. -/
theorem verdict_eq (settings : Settings) (s : Scope) :
    s.verdict settings = (do
      s.entry settings
      Verdict.each (verdict settings) s.children
      s.exit settings) := by
  rw [verdict, Validation.runScope_eq, Run.verdict_seq, Run.verdict_seq,
    verdict_runStates]
  cases h : (Validation.enter settings s.location s.depth s.machine).verdict <;>
    simp [entry, exit, children, h, bind, Except.bind]

/-! ## Entering and leaving -/

theorem entry_eq (settings : Settings) (s : Scope) :
    s.entry settings = (do
      Validation.checkDepth settings s.location s.depth
      Fields.checkScope s.location s.machine
      Fields.checkStates s.location s.machine.states
      StatePaths.checkStates s.location s.machine.states
      Targets.check s.location s.machine) := by
  rw [entry, Validation.enter]
  simp only [Run.verdict_seq, Run.silent, Run.report]
  cases Validation.checkDepth settings s.location s.depth <;> rfl

/-- Counting the states that can reach the end has no say in the verdict. -/
theorem exit_eq (settings : Settings) (s : Scope) :
    s.exit settings = (do
      Termination.check settings.diagnostics s.location s.machine
      if settings.rejectUnreachableStates then
        Termination.checkReachable s.location s.machine
      else Verdict.accept) := by
  have hmeasure : (Validation.measure s.location s.machine).verdict =
      .ok () := by
    rw [Validation.measure]
    cases Termination.count? s.machine <;> rfl
  rw [exit, Validation.leave]
  simp only [Run.verdict_seq, Run.silent, hmeasure]
  rfl

end Scope

/-- What holds of a machine as soon as it holds of the machines in its branches
holds of every machine. -/
theorem Machine.induction {P : Machine → Prop}
    (step : ∀ m : Machine,
      (∀ e ∈ m.states, ∀ b ∈ e.state.branches, P b.machine) → P m)
    (m : Machine) : P m := by
  refine Scope.induction (P := fun s => P s.machine) (fun s ih => ?_)
    ⟨.root, 0, m⟩
  exact step s.machine (Scope.forall_mem_children_iff.mp ih)

end Workflow
