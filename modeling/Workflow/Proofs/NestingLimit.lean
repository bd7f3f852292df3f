import Workflow.Proofs.WellFormed

/-!
# The limit on nesting

The branches of Parallel states may hold Parallel states of their own, and a
limit on nesting says how many branches may lie inside one another. This file
says what a limit does to a definition that is accepted but for it: nothing, if
no more branches than that lie inside one another, and else it reports the first
scope beyond the limit that the validation comes to (`validate_limited`).

A scope beyond the limit is not the first thing a validation comes to, since the
scopes around it are entered before and those that stand before it are left. All
their other checks pass. So the scopes may as well be gone through as a list, in
pre-order, and looked at for their depth alone (`verdict_limited`).
-/

namespace Workflow

/-! ## Nesting -/

mutual

/-- How many branches lie inside one another at most. -/
def Machine.nesting : Machine → Nat
  | { states, .. } => Entry.nestingEach states

/-- The same for the states of a scope. -/
def Entry.nestingEach : List Entry → Nat
  | [] => 0
  | { state := .parallel { branches, .. }, .. } :: rest =>
    max (Branch.nestingEach branches) (Entry.nestingEach rest)
  | _ :: rest => Entry.nestingEach rest

/-- The same for branches, each of which counts itself. -/
def Branch.nestingEach : List Branch → Nat
  | [] => 0
  | { machine, .. } :: rest =>
    max (machine.nesting + 1) (Branch.nestingEach rest)

end

variable {k : Nat}

theorem Branch.lt_nestingEach_iff {bs : List Branch} :
    k < Branch.nestingEach bs ↔ ∃ b ∈ bs, k ≤ b.machine.nesting := by
  induction bs with
  | nil => simp [nestingEach]
  | cons b bs ih =>
      obtain ⟨comment, m⟩ := b
      rw [nestingEach, lt_max_iff, ih, Nat.lt_succ_iff]
      simp only [List.mem_cons, exists_eq_or_imp]

theorem Entry.nestingEach_cons (e : Entry) (es : List Entry) :
    Entry.nestingEach (e :: es) =
      max (Branch.nestingEach e.state.branches) (Entry.nestingEach es) := by
  obtain ⟨name, state⟩ := e
  cases state with
  | parallel s => cases s; rfl
  | _ => exact (Nat.zero_max _).symm

/-- More than `k` branches lie inside one another if at least `k` do so inside
some branch. -/
theorem Machine.lt_nesting_iff {m : Machine} :
    k < m.nesting ↔
      ∃ e ∈ m.states, ∃ b ∈ e.state.branches, k ≤ b.machine.nesting := by
  have heach (es : List Entry) : k < Entry.nestingEach es ↔
      ∃ e ∈ es, ∃ b ∈ e.state.branches, k ≤ b.machine.nesting := by
    induction es with
    | nil => simp [Entry.nestingEach]
    | cons e es ih =>
        rw [Entry.nestingEach_cons, lt_max_iff, Branch.lt_nestingEach_iff, ih]
        simp only [List.mem_cons, exists_eq_or_imp]
  cases m
  exact heach _

namespace Scope

variable {s : Scope}

theorem depth_of_mem_children {c : Scope} (hc : c ∈ s.children) :
    c.depth = s.depth + 1 := by
  obtain ⟨e, _, i, b, _, rfl⟩ := mem_children_iff.mp hc
  rfl

/-- Inside a scope there is every depth up to the number of branches that lie
inside one another, and none beyond. -/
theorem exists_depth_iff :
    (∃ t ∈ s.preorder, t.depth = s.depth + k) ↔ k ≤ s.machine.nesting := by
  induction s using induction generalizing k with
  | step s ih =>
      cases k with
      | zero =>
          refine iff_of_true ⟨s, ?_, rfl⟩ (Nat.zero_le _)
          rw [preorder_eq]
          exact List.mem_cons_self
      | succ k =>
          rw [Nat.succ_le_iff, Machine.lt_nesting_iff,
            ← exists_mem_children_iff (P := (k ≤ ·.nesting)), preorder_eq]
          constructor
          · rintro ⟨t, ht, hdepth⟩
            rcases List.mem_cons.mp ht with rfl | ht
            · omega
            · obtain ⟨c, hc, htc⟩ := List.mem_flatMap.mp ht
              have hcdepth := depth_of_mem_children hc
              exact ⟨c, hc, (ih c hc).mp ⟨t, htc, by omega⟩⟩
          · rintro ⟨c, hc, hk⟩
            obtain ⟨t, htc, hdepth⟩ := (ih c hc).mpr hk
            have hcdepth := depth_of_mem_children hc
            exact ⟨t, List.mem_cons_of_mem _ (List.mem_flatMap.mpr ⟨c, hc, htc⟩),
              by omega⟩

end Scope

/-! ## The first scope beyond the limit -/

/-- The verdict that a scope lies too deep, should there be one that does. -/
def Verdict.tooDeep (limit : Nat) : Option Scope → Verdict
  | none => accept
  | some s => reject s.location (.nestingTooDeep s.depth limit)

/-- If every check of a list looks for a scope among some of its own, all of
them look for it among these together. -/
theorem Verdict.each_tooDeep {α : Type} {check : α → Verdict}
    {scopes : α → List Scope} {limit : Nat} {p : Scope → Bool} {as : List α}
    (h : ∀ a ∈ as, check a = tooDeep limit ((scopes a).find? p)) :
    each check as = tooDeep limit ((as.flatMap scopes).find? p) := by
  induction as with
  | nil => rfl
  | cons a as ih =>
      rw [List.forall_mem_cons] at h
      rw [each, h.1, ih h.2, List.flatMap_cons, List.find?_append]
      cases (scopes a).find? p <;> rfl

theorem Validation.checkDepth_limited {settings : Settings} {limit : Nat}
    (hlimit : 1 ≤ limit) (location : Location) (depth : Nat) :
    checkDepth (settings.withMaxNestingDepth limit) location depth =
      if depth ≤ limit then .accept
      else .reject location (.nestingTooDeep depth limit) := by
  split
  · next h => exact checkDepth_eq_ok_iff.mpr (.inr h)
  · next h =>
      cases hdepth :
        checkDepth (settings.withMaxNestingDepth limit) location depth with
      | ok _ =>
          have hkept : limit = 0 ∨ depth ≤ limit :=
            checkDepth_eq_ok_iff.mp hdepth
          omega
      | error v =>
          rw [(Verdict.eq_of_require_error hdepth).2]
          rfl

namespace Scope

variable {settings : Settings} {limit : Nat} {s : Scope}

/-- A scope that can be entered under some limit can be entered under another
one if it is not too deep for it. -/
theorem entry_limited (h : s.entry settings = .ok ()) :
    s.entry (settings.withMaxNestingDepth limit) =
      Validation.checkDepth (settings.withMaxNestingDepth limit) s.location
        s.depth := by
  rw [entry_eq, Verdict.bind_eq_ok_iff] at h
  rw [entry_eq, h.2]
  cases Validation.checkDepth (settings.withMaxNestingDepth limit) s.location
    s.depth <;> rfl

theorem exit_limited (settings : Settings) (limit : Nat) (s : Scope) :
    s.exit (settings.withMaxNestingDepth limit) = s.exit settings := by
  rw [exit_eq, exit_eq]
  rfl

/-- A limit on nesting reports the first scope in pre-order that lies one level
beyond it, and nothing else if all was in order before. -/
theorem verdict_limited (hlimit : 1 ≤ limit)
    (h : s.verdict settings = .ok ()) (hdepth : s.depth ≤ limit + 1) :
    s.verdict (settings.withMaxNestingDepth limit) =
      Verdict.tooDeep limit
        (s.preorder.find? fun t => t.depth == limit + 1) := by
  induction s using induction with
  | step s ih =>
      rw [verdict_eq, Verdict.bind_eq_ok_iff, Verdict.bind_eq_ok_iff,
        Verdict.each_eq_ok_iff] at h
      obtain ⟨hentry, hchildren, hexit⟩ := h
      rw [verdict_eq, entry_limited hentry, exit_limited, hexit, preorder_eq,
        List.find?_cons]
      by_cases hlast : s.depth = limit + 1
      · rw [Validation.checkDepth_limited hlimit, if_neg (by omega),
          beq_iff_eq.mpr hlast]
        rfl
      · -- One level further in the depth is still within the limit or just
        -- beyond it, so the children are settled.
        have hinside : ∀ c ∈ s.children,
            c.verdict (settings.withMaxNestingDepth limit) =
              Verdict.tooDeep limit
                (c.preorder.find? fun t => t.depth == limit + 1) := by
          intro c hc
          have hcdepth := depth_of_mem_children hc
          exact ih c hc (hchildren c hc) (by omega)
        rw [Validation.checkDepth_limited hlimit, if_pos (by omega),
          Verdict.each_tooDeep hinside, beq_eq_false_iff_ne.mpr hlast]
        cases (s.children.flatMap preorder).find? fun t =>
          t.depth == limit + 1 <;> rfl

end Scope

/-- A limit on nesting is exact. A definition that is accepted without it, or
under another one, is accepted under it if no more branches than that lie inside
one another. If more do, the first scope in pre-order that lies one level beyond
the limit is reported, with its depth and the limit. -/
theorem validate_limited {settings : Settings} {m : Machine} {limit : Nat}
    (h : validate settings m = .ok ()) (hlimit : 1 ≤ limit) :
    (validate (settings.withMaxNestingDepth limit) m = .ok () ↔
      m.nesting ≤ limit) ∧
    (limit < m.nesting →
      ∃ before s after, m.scopes = before ++ s :: after ∧
        s.depth = limit + 1 ∧ (∀ t ∈ before, t.depth ≠ limit + 1) ∧
        validate (settings.withMaxNestingDepth limit) m =
          .error ⟨s.location, .nestingTooDeep (limit + 1) limit⟩) := by
  have hverdict : validate (settings.withMaxNestingDepth limit) m =
      Verdict.tooDeep limit (m.scopes.find? fun t => t.depth == limit + 1) :=
    Scope.verdict_limited (s := m.scope) hlimit h (Nat.zero_le _)
  have hnesting : (∃ t ∈ m.scopes, t.depth = limit + 1) ↔
      limit < m.nesting := by
    have hdepth := Scope.exists_depth_iff (s := m.scope) (k := limit + 1)
    rwa [Machine.scope, Nat.zero_add] at hdepth
  rw [hverdict]
  cases hfind : m.scopes.find? fun t => t.depth == limit + 1 with
  | none =>
      have hnone : ¬ limit < m.nesting := by
        rw [← hnesting]
        rintro ⟨t, ht, hdepth⟩
        simpa [hdepth] using List.find?_eq_none.mp hfind t ht
      exact ⟨iff_of_true rfl (Nat.le_of_not_lt hnone), (absurd · hnone)⟩
  | some s =>
      obtain ⟨hs, before, after, hsplit, hbefore⟩ :=
        List.find?_eq_some_iff_append.mp hfind
      have hdepth : s.depth = limit + 1 := beq_iff_eq.mp hs
      have hdeep : limit < m.nesting :=
        hnesting.mp ⟨s, by rw [hsplit]; simp, hdepth⟩
      refine ⟨iff_of_false (by simp [Verdict.tooDeep, Verdict.reject])
        (Nat.not_le_of_lt hdeep), fun _ => ⟨before, s, after, hsplit, hdepth,
          fun t ht => by simpa using hbefore t ht, ?_⟩⟩
      rw [Verdict.tooDeep, hdepth, Verdict.reject]

/-- A scope that ends at once. -/
def Machine.brief : Machine where
  startAt := some "Work"
  states := [⟨"Work", .succeed {}⟩]

/-- A scope that runs the given machines side by side. -/
def Machine.fanning (machines : List Machine) : Machine where
  startAt := some "Fan"
  states := [⟨"Fan", .parallel {
    branches := machines.map Branch.ofMachine
    transition := some .finish }⟩]

/-- Branches that go to different depths, the deepest last. -/
def Machine.stacked : Machine :=
  .fanning [.brief, .fanning [.brief, .brief], .fanning [.fanning [.brief]]]

theorem validate_limited_stacked :
    validate {} .stacked = .ok () ∧ Machine.stacked.nesting = 3 ∧
      (validate (Settings.withMaxNestingDepth {} 3) .stacked = .ok () ↔
        Machine.stacked.nesting ≤ 3) ∧
      ∃ before s after, Machine.stacked.scopes = before ++ s :: after ∧
        s.depth = 2 ∧ (∀ t ∈ before, t.depth ≠ 2) ∧
        validate (Settings.withMaxNestingDepth {} 1) .stacked =
          .error ⟨s.location, .nestingTooDeep 2 1⟩ := by
  have hok : validate {} .stacked = .ok () := by decide +kernel
  have hnesting : Machine.stacked.nesting = 3 := by decide +kernel
  exact ⟨hok, hnesting, (validate_limited hok (by decide)).1,
    (validate_limited hok (by decide)).2 (by rw [hnesting]; decide)⟩

end Workflow
