import Workflow.Proofs.Alike

/-!
# Scopes with an open part

A slot is a scope with one part left open: the state of a declaration, or one
branch of a Parallel state. A context is a definition with one branch left
open at any depth, given by the slots on the way to it. Here is what it means
to fill them, and that a scope does not notice what its open part is filled
with, as long as that is alike.
-/

namespace Workflow

/-- A scope with the state of one declaration left open. -/
structure StateSlot where
  /-- The scope in all but its states. -/
  scope : Machine
  before : List Entry
  name : String
  after : List Entry

/-- A scope with one branch of a Parallel state left open. -/
structure BranchSlot extends StateSlot where
  /-- The Parallel state in all but its branches. -/
  state : ParallelState
  left : List Branch
  comment : Option String
  right : List Branch

/-- A definition with one branch left open: the slots that lead to it, from the
outermost scope inwards. -/
abbrev Context := List BranchSlot

def StateSlot.fill (slot : StateSlot) (s : State) : Machine :=
  { slot.scope with states := slot.before ++ ⟨slot.name, s⟩ :: slot.after }

def BranchSlot.fill (slot : BranchSlot) (b : Machine) : Machine :=
  slot.toStateSlot.fill <| .parallel { slot.state with
    branches := slot.left ++ ⟨slot.comment, b⟩ :: slot.right }

/-- The steps from the scope of a slot to its branch. -/
def BranchSlot.steps (slot : BranchSlot) : List Step :=
  [.state slot.name, .branch slot.left.length]

def Context.fill (context : Context) (b : Machine) : Machine :=
  context.foldr BranchSlot.fill b

/-- The location of the open branch. -/
def Context.location (context : Context) : Location :=
  ⟨context.flatMap BranchSlot.steps⟩

theorem StateSlot.covers_fill {slot : StateSlot} {s t : State}
    (h : s.Alike t) :
    States.Covers (slot.fill s).states (slot.fill t).states := by
  intro e he
  rcases List.mem_append.mp he with hbefore | he
  · exact ⟨e, List.mem_append_left _ hbefore, rfl, .refl _⟩
  · rcases List.mem_cons.mp he with rfl | hafter
    · exact ⟨⟨slot.name, t⟩, List.mem_append_right _ List.mem_cons_self, rfl,
        h⟩
    · exact ⟨e, List.mem_append_right _ (List.mem_cons_of_mem _ hafter), rfl,
        .refl _⟩

theorem StateSlot.alike_fill {slot : StateSlot} {s t : State}
    (h : s.Alike t) : (slot.fill s).Alike (slot.fill t) where
  startAt := rfl
  timeoutSeconds := rfl
  names := by
    simp only [fill, States.names, List.map_append, List.map_cons]
    exact .refl _
  covers := covers_fill h
  covered := covers_fill h.symm

theorem BranchSlot.alike_fill (slot : BranchSlot) (b b' : Machine) :
    (slot.fill b).Alike (slot.fill b') :=
  StateSlot.alike_fill (State.alike_parallel (by simp))

/-! ## The scopes in a slot -/

namespace Scope

theorem ofBranches_append (l : Location) (depth index : Nat)
    (bs cs : List Branch) :
    ofBranches l depth index (bs ++ cs) =
      ofBranches l depth index bs ++
        ofBranches l depth (index + bs.length) cs := by
  induction bs generalizing index with
  | nil => rfl
  | cons b bs ih =>
      rw [List.cons_append, ofBranches_cons, ih, ofBranches_cons,
        List.length_cons, List.cons_append, Nat.add_assoc, Nat.add_comm 1]

/-- The scopes directly inside a filled slot are that of the branch it is
filled with and others that have nothing to do with it. -/
theorem exists_children_fill (slot : BranchSlot) (l : Location)
    (depth : Nat) :
    ∃ before after : List Scope, ∀ b : Machine,
      children ⟨l, depth, slot.fill b⟩ =
        before ++
          ⟨(l.state slot.name).branch slot.left.length, depth + 1, b⟩ ::
            after := by
  refine ⟨slot.before.flatMap (fun e =>
      ofBranches (l.state e.name) depth 0 e.state.branches) ++
      ofBranches (l.state slot.name) depth 0 slot.left,
    ofBranches (l.state slot.name) depth (slot.left.length + 1) slot.right ++
      slot.after.flatMap fun e =>
        ofBranches (l.state e.name) depth 0 e.state.branches,
    fun b => ?_⟩
  simp only [children, BranchSlot.fill, StateSlot.fill, List.flatMap_append,
    List.flatMap_cons, State.branches, ofBranches_append, ofBranches_cons,
    Nat.zero_add, List.append_assoc, List.cons_append]

end Scope

end Workflow
