import Workflow.Proofs.Walk

/-!
# What the search for an end reads

A node of the graph of a scope has a name, its edges of the ordinary course, its
edges to the states that catch errors, and two flags. The search for an end and
the search for a circle read no more of it than the edges of the ordinary course
and the flags: its course. So they give the same answers for all graphs with one
course. The graph of a renamed scope is one with the course of the scope, and so
is the graph of a scope whose states catch other errors.
-/

namespace Workflow

namespace Graph

/-- A node without its name and without its edges to the states that catch
errors. -/
structure Course where
  successors : List Nat
  isTerminal : Bool
  isBranching : Bool

def Node.course (n : Node) : Course :=
  ⟨n.successors, n.isTerminal, n.isBranching⟩

/-- The courses of the nodes, in their order. -/
def course (g : Graph) : List Course := g.nodes.map Node.course

variable {g g' : Graph}

theorem elim_course {α : Type} (default : α) (read : Course → α) (g : Graph)
    (v : Nat) :
    ((g.nodes[v]?).elim default fun n => read n.course) =
      (g.course[v]?).elim default read := by
  rw [course, List.getElem?_map]
  cases g.nodes[v]? <;> rfl

section Congruence

variable (h : g.course = g'.course)

include h

theorem size_congr : g.size = g'.size := by
  have hlength := congrArg List.length h
  rwa [course, course, List.length_map, List.length_map] at hlength

theorem successors_congr : g.successors = g'.successors := by
  have hread (g : Graph) :
      g.successors = fun v => (g.course[v]?).elim [] Course.successors :=
    funext (elim_course [] Course.successors g)
  rw [hread, hread, h]

theorem isTerminal_congr : g.isTerminal = g'.isTerminal := by
  have hread (g : Graph) :
      g.isTerminal = fun v => (g.course[v]?).elim false Course.isTerminal :=
    funext (elim_course false Course.isTerminal g)
  rw [hread, hread, h]

theorem isBranching_congr : g.isBranching = g'.isBranching := by
  have hread (g : Graph) :
      g.isBranching = fun v => (g.course[v]?).elim false Course.isBranching :=
    funext (elim_course false Course.isBranching g)
  rw [hread, hread, h]

theorem mem_terminating_congr {v : Nat} :
    v ∈ g.terminating ↔ v ∈ g'.terminating := by
  rw [mem_terminating_iff, mem_terminating_iff, successors_congr h,
    isTerminal_congr h, size_congr h]

theorem reachable_congr (start : Nat) :
    g.reachable start false = g'.reachable start false := by
  simp only [reachable, successors_congr h, size_congr h, Bool.false_eq_true,
    if_false]

theorem firstRepeat?_congr (steps : Nat) (visited : List Nat) (v : Nat) :
    g.firstRepeat? steps visited v = g'.firstRepeat? steps visited v := by
  induction steps generalizing visited v with
  | zero => rfl
  | succ steps ih =>
      rw [firstRepeat?, firstRepeat?, successors_congr h]
      cases g'.successors v with
      | nil => rfl
      | cons next rest => simp only [ih]

theorem cycleHead?_congr (start : Nat) :
    g.cycleHead? start = g'.cycleHead? start := by
  rw [cycleHead?, cycleHead?, reachable_congr h, isBranching_congr h,
    firstRepeat?_congr h, size_congr h]

theorem problemAt_congr (style : Diagnostics) (start : Nat) :
    Termination.problemAt style g start =
      Termination.problemAt style g' start := by
  cases style with
  | unified => rfl
  | split =>
      rw [Termination.problemAt, Termination.problemAt, cycleHead?_congr h]

end Congruence

end Graph

end Workflow
