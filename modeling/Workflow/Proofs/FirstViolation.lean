import Workflow.Verdict

/-!
# Where a violation comes from

`Verdict.lean` says when a sequence of checks accepts. This file says where
the violation comes from when it does not: the checks before the one that
reports it have all accepted, and nothing after it has any say. Every later
statement about a diagnostic, and every statement about what must hold before
one can be reported, starts from these lemmas.
-/

namespace Workflow

namespace Verdict

variable {α : Type}

theorem eq_of_require_error {condition : Bool} {location : Location}
    {problem : Problem} {v : Violation}
    (h : require condition location problem = .error v) :
    condition = false ∧ v = ⟨location, problem⟩ := by
  cases condition with
  | true => simp [require, accept] at h
  | false =>
      rw [require, reject] at h
      injection h with h
      exact ⟨rfl, h.symm⟩

theorem eq_of_reject_error {location : Location} {problem : Problem}
    {v : Violation} (h : reject location problem = .error v) :
    v = ⟨location, problem⟩ := by
  rw [reject] at h
  injection h with h
  exact h.symm

theorem require_eq_error_iff {condition : Bool} {location : Location}
    {problem : Problem} {v : Violation} :
    require condition location problem = .error v ↔
      condition = false ∧ v = ⟨location, problem⟩ := by
  constructor
  · exact eq_of_require_error
  · intro h
    obtain ⟨rfl, rfl⟩ := h
    rfl

theorem accept_ne_error {v : Violation} : accept ≠ .error v := by
  simp [accept]

theorem eq_ok_iff_forall_ne_error {u : Verdict} :
    u = .ok () ↔ ∀ v, u ≠ .error v := by
  cases u with
  | error e => simp
  | ok u => simp

theorem bind_eq_error_iff {u : Verdict} {f : Unit → Verdict} {v : Violation} :
    (u >>= f) = .error v ↔ u = .error v ∨ u = .ok () ∧ f () = .error v := by
  cases u with
  | error e => simp [bind, Except.bind]
  | ok u => simp [bind, Except.bind]

theorem bind_accept (v : Verdict) : (v >>= fun _ => accept) = v := by
  cases v with
  | error e => rfl
  | ok u => rfl

theorem each_append (check : α → Verdict) (as bs : List α) :
    each check (as ++ bs) = (each check as >>= fun _ => each check bs) := by
  induction as with
  | nil => rfl
  | cons a as ih =>
      rw [List.cons_append, each, each, ih]
      cases check a with
      | ok u => rfl
      | error v => rfl

/-- The member whose check reports comes after members whose checks accept. -/
theorem exists_of_each_error {check : α → Verdict} {as : List α}
    {v : Violation} (h : each check as = .error v) :
    ∃ before a after, as = before ++ a :: after ∧
      (∀ b ∈ before, check b = .ok ()) ∧ check a = .error v := by
  induction as with
  | nil => exact absurd h accept_ne_error
  | cons a as ih =>
      rw [each, bind_eq_error_iff] at h
      rcases h with ha | ⟨ha, h⟩
      · exact ⟨[], a, as, rfl, by simp, ha⟩
      · obtain ⟨before, b, after, rfl, hbefore, hb⟩ := ih h
        refine ⟨a :: before, b, after, rfl, ?_, hb⟩
        exact List.forall_mem_cons.mpr ⟨ha, hbefore⟩

theorem each_eq_error_iff {check : α → Verdict} {as : List α}
    {v : Violation} :
    each check as = .error v ↔
      ∃ before a after, as = before ++ a :: after ∧
        (∀ b ∈ before, check b = .ok ()) ∧ check a = .error v := by
  constructor
  · exact exists_of_each_error
  · intro h
    obtain ⟨before, a, after, rfl, hbefore, ha⟩ := h
    rw [each_append, each, bind_eq_error_iff, bind_eq_error_iff]
    exact .inr ⟨each_eq_ok_iff.mpr hbefore, .inl ha⟩

theorem eachFrom_append (check : Nat → α → Verdict) (start : Nat)
    (as bs : List α) :
    eachFrom check start (as ++ bs) =
      (eachFrom check start as >>= fun _ =>
        eachFrom check (start + as.length) bs) := by
  induction as generalizing start with
  | nil => rfl
  | cons a as ih =>
      have hshift : start + 1 + as.length = start + (as.length + 1) := by
        omega
      rw [List.cons_append, eachFrom, eachFrom, ih, hshift]
      cases check start a with
      | ok u => rfl
      | error v => rfl

/-- The same for a list checked by position: the member that is reported is
checked at the position that the members before it lead up to. -/
theorem eachFrom_eq_error_iff {check : Nat → α → Verdict} {start : Nat}
    {as : List α} {v : Violation} :
    eachFrom check start as = .error v ↔
      ∃ before a after, as = before ++ a :: after ∧
        eachFrom check start before = .ok () ∧
        check (start + before.length) a = .error v := by
  constructor
  · intro h
    induction as generalizing start with
    | nil => exact absurd h accept_ne_error
    | cons a as ih =>
        rw [eachFrom, bind_eq_error_iff] at h
        rcases h with ha | ⟨ha, h⟩
        · exact ⟨[], a, as, rfl, rfl, ha⟩
        · obtain ⟨before, b, after, rfl, hbefore, hb⟩ := ih h
          refine ⟨a :: before, b, after, rfl, ?_, ?_⟩
          · rw [eachFrom, bind_eq_ok_iff]
            exact ⟨ha, hbefore⟩
          · rw [Nat.add_assoc, Nat.add_comm 1] at hb
            exact hb
  · intro h
    obtain ⟨before, a, after, rfl, hbefore, ha⟩ := h
    rw [eachFrom_append, eachFrom, bind_eq_error_iff, bind_eq_error_iff]
    exact .inr ⟨hbefore, .inl ha⟩

end Verdict

end Workflow
