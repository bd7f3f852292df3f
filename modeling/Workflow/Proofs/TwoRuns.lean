import Mathlib.Data.List.Forall2
import Workflow.Proofs.Scopes

/-!
# Two runs

To compare the verdicts of two runs it is enough to compare them check by check,
if what is claimed of two verdicts passes from checks to sequences of checks.
Then one induction over the scopes serves every comparison
(`Scope.verdict_related_of_rel`).

The two runs may be over one definition, which under other settings has the same
scopes, gone through in the same order (`Scope.verdict_related`). Or they are
over two definitions whose scopes correspond to one another.
-/

namespace Workflow

namespace Verdict

/-- A relation between the verdicts of two runs that holds of two sequences of
checks if it holds of the checks one by one. -/
structure Sequential (R : Verdict → Verdict → Prop) : Prop where
  accept : R .accept .accept
  seq : ∀ {u v : Verdict} {f g : Unit → Verdict},
    R u v → R (f ()) (g ()) → R (u >>= f) (v >>= g)

theorem sequential_eq : Sequential Eq where
  accept := rfl
  seq := by
    intro u v f g huv hfg
    subst huv
    exact congrArg (u >>= ·) (funext fun _ => hfg)

theorem Sequential.forall₂_each {α β : Type} {R : Verdict → Verdict → Prop}
    (hR : Sequential R) {check : α → Verdict} {check' : β → Verdict}
    {as : List α} {bs : List β}
    (h : List.Forall₂ (fun a b => R (check a) (check' b)) as bs) :
    R (Verdict.each check as) (Verdict.each check' bs) := by
  induction h with
  | nil => exact hR.accept
  | cons hab _ ih => exact hR.seq hab ih

end Verdict

namespace Scope

variable {R : Verdict → Verdict → Prop} {settings settings' : Settings}

/-- If the scopes of two definitions correspond to one another, and two runs are
related at the entry and at the exit of corresponding scopes, their verdicts
are. -/
theorem verdict_related_of_rel (hR : Verdict.Sequential R)
    {S : Scope → Scope → Prop}
    (hchildren : ∀ s t, S s t → List.Forall₂ S s.children t.children)
    (hentry : ∀ s t, S s t → R (s.entry settings) (t.entry settings'))
    (hexit : ∀ s t, S s t → R (s.exit settings) (t.exit settings'))
    {s t : Scope} (h : S s t) :
    R (s.verdict settings) (t.verdict settings') := by
  induction s using Scope.induction generalizing t with
  | step s ih =>
      rw [verdict_eq, verdict_eq]
      refine hR.seq (hentry s t h) (hR.seq (hR.forall₂_each ?_) (hexit s t h))
      have hboth := (List.forall₂_and_left _ _).mpr ⟨ih, hchildren s t h⟩
      exact hboth.imp fun c d hcd => hcd.1 hcd.2

/-- If two runs are related at the entry and at the exit of every scope, their
verdicts are. -/
theorem verdict_related (hR : Verdict.Sequential R) {s : Scope}
    (hentry : ∀ t ∈ s.preorder, R (t.entry settings) (t.entry settings'))
    (hexit : ∀ t ∈ s.preorder, R (t.exit settings) (t.exit settings')) :
    R (s.verdict settings) (s.verdict settings') := by
  refine verdict_related_of_rel hR
    (S := fun c d => c = d ∧ ∀ t ∈ c.preorder, t ∈ s.preorder)
    ?_ ?_ ?_ ⟨rfl, fun _ => id⟩
  · rintro c _ ⟨rfl, hc⟩
    refine List.forall₂_same.mpr fun d hd => ⟨rfl, fun t ht => hc t ?_⟩
    rw [preorder_eq]
    exact List.mem_cons_of_mem _ (List.mem_flatMap.mpr ⟨d, hd, ht⟩)
  · rintro c _ ⟨rfl, hc⟩
    exact hentry c (hc c (mem_preorder_iff.mpr (.inl rfl)))
  · rintro c _ ⟨rfl, hc⟩
    exact hexit c (hc c (mem_preorder_iff.mpr (.inl rfl)))

end Scope

end Workflow
