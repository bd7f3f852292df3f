import Workflow.Violation

/-!
# Verdicts

A check accepts or reports one violation. Checks are run one after the other, and the first
violation found is the verdict of them all.
-/

namespace Workflow

/-- The outcome of a check. -/
abbrev Verdict := Except Violation Unit

namespace Verdict

variable {α : Type}

/-- Acceptance. -/
def accept : Verdict := .ok ()

/-- The violation of a problem at a place. -/
def reject (location : Location) (problem : Problem) : Verdict := .error ⟨location, problem⟩

/-- Accepts if the condition holds, and else reports the problem. -/
def require (condition : Bool) (location : Location) (problem : Problem) : Verdict :=
  if condition then accept else reject location problem

/-- Runs a check on the members of a list, in order. -/
def each (check : α → Verdict) : List α → Verdict
  | [] => accept
  | a :: as => do
    check a
    each check as

/-- Runs a check on the members of a list and their positions, counted from `start`. -/
def eachFrom (check : Nat → α → Verdict) (start : Nat) : List α → Verdict
  | [] => accept
  | a :: as => do
    check start a
    eachFrom check (start + 1) as

theorem require_eq_ok_iff {condition : Bool} {location : Location} {problem : Problem} :
    require condition location problem = .ok () ↔ condition = true := by
  cases condition <;> simp [require, accept, reject]

theorem bind_eq_ok_iff {v : Verdict} {f : Unit → Verdict} :
    (v >>= f) = .ok () ↔ v = .ok () ∧ f () = .ok () := by
  cases v with
  | error e => simp [bind, Except.bind]
  | ok u => simp [bind, Except.bind]

theorem each_eq_ok_iff {check : α → Verdict} {as : List α} :
    each check as = .ok () ↔ ∀ a ∈ as, check a = .ok () := by
  induction as with
  | nil => simp [each, accept]
  | cons a as ih => simp [each, bind_eq_ok_iff, ih]

theorem eachFrom_eq_ok_iff {check : Nat → α → Verdict} {start : Nat} {as : List α} :
    eachFrom check start as = .ok () ↔
      ∀ i (h : i < as.length), check (start + i) as[i] = .ok () := by
  induction as generalizing start with
  | nil => simp [eachFrom, accept]
  | cons a as ih =>
    rw [eachFrom, bind_eq_ok_iff, ih]
    constructor
    · rintro ⟨h₀, h⟩ (_ | i) hi
      · exact h₀
      · simpa [Nat.add_assoc, Nat.add_comm 1] using h i (by simpa using hi)
    · intro h
      refine ⟨h 0 (by simp), fun i hi => ?_⟩
      rw [Nat.add_assoc, Nat.add_comm 1]
      exact h (i + 1) (by simpa using hi)

end Verdict

end Workflow
