import Mathlib.Data.List.Forall2
import Mathlib.Data.String.Basic
import Workflow.Condition
import Workflow.Recovery

/-!
# Equality of values

Definitions are compared part by part, and most parts are equal just if they are
the same. Two sorts of values are not. Doubles compare as numbers: the two zeros
are equal, and a NaN equals nothing, itself included. Literals compare as JSON
values, that is by their normal forms (`Literal.beq_iff`), so that they equal
themselves whatever is in them.

For each part that holds such a value there is one lemma that says what its
equality comes to, and that its equality is symmetric and transitive. Only what
holds a double need not be equal to itself.
-/

namespace Workflow

/-! ## Lists and options -/

section Lists

variable {α : Type} {R : α → α → Prop} {as bs cs : List α}

/-- A relation that is symmetric from the members of a list on makes the
relation of lists symmetric. -/
theorem forall₂_symm_of_mem (hsymm : ∀ a ∈ as, ∀ b, R a b → R b a)
    (h : List.Forall₂ R as bs) : List.Forall₂ R bs as := by
  have hboth := (List.forall₂_and_left _ _).mpr ⟨hsymm, h⟩
  exact (hboth.imp fun _ _ hab => hab.1 _ hab.2).flip

theorem forall₂_trans_of_mem
    (htrans : ∀ a ∈ as, ∀ b c, R a b → R b c → R a c)
    (h : List.Forall₂ R as bs) (h' : List.Forall₂ R bs cs) :
    List.Forall₂ R as cs := by
  induction h generalizing cs with
  | nil => exact h'
  | cons hab _ ih =>
      rw [List.forall_mem_cons] at htrans
      cases h' with
      | cons hbc h' => exact .cons (htrans.1 _ _ hab hbc) (ih htrans.2 h')

variable [BEq α]

theorem list_beq_iff : (as == bs) = true ↔
    List.Forall₂ (fun a b => (a == b) = true) as bs := by
  induction as generalizing bs with
  | nil => cases bs <;> simp
  | cons a as ih => cases bs <;> simp [ih]

instance partialEquivBEqList [PartialEquivBEq α] :
    PartialEquivBEq (List α) where
  symm := by
    intro as bs h
    rw [list_beq_iff] at h ⊢
    exact forall₂_symm_of_mem (fun _ _ _ => BEq.symm) h
  trans := by
    intro as bs cs h h'
    rw [list_beq_iff] at h h' ⊢
    exact forall₂_trans_of_mem (fun _ _ _ _ => BEq.trans) h h'

instance partialEquivBEqOption [PartialEquivBEq α] :
    PartialEquivBEq (Option α) where
  symm := by
    rintro (_ | a) (_ | b) h
    · rfl
    · cases h
    · cases h
    · rw [Option.some_beq_some] at h ⊢
      exact BEq.symm h
  trans := by
    rintro (_ | a) (_ | b) (_ | c) h h'
    · rfl
    · cases h'
    · cases h
    · cases h
    · cases h
    · cases h
    · cases h'
    · rw [Option.some_beq_some] at h h' ⊢
      exact BEq.trans h h'

end Lists

/-- If values are equal that differ in one part at most, and there have equal
parts, their equality is as good as that of the parts. -/
theorem partialEquivBEq_of_part {α β γ : Type} [BEq α] [BEq β]
    [PartialEquivBEq β] {part : α → β} {rest : α → γ}
    (hbeq : ∀ a b : α,
      (a == b) = true ↔ rest a = rest b ∧ (part a == part b) = true) :
    PartialEquivBEq α where
  symm := by
    intro a b h
    rw [hbeq] at h ⊢
    exact ⟨h.1.symm, BEq.symm h.2⟩
  trans := by
    intro a b c h h'
    rw [hbeq] at h h' ⊢
    exact ⟨h.1.trans h'.1, BEq.trans h.2 h'.2⟩

/-! ## Doubles -/

namespace Double

variable {x y : Double}

theorem Finite.equal_iff {x y : Finite} :
    x.equal y = true ↔ x = y ∨ x.isZero = true ∧ y.isZero = true := by
  rw [Finite.equal, Bool.or_eq_true, Bool.and_eq_true, beq_iff_eq, or_comm]

theorem beq_iff : (x == y) = true ↔
    x = y ∧ x ≠ .nan ∨
      ∃ a b : Finite, x = .finite a ∧ y = .finite b ∧ a.isZero = true ∧
        b.isZero = true := by
  change x.equal y = true ↔ _
  cases x <;> cases y <;> simp [equal, Finite.equal_iff]

instance : PartialEquivBEq Double where
  symm := by
    intro x y h
    rw [beq_iff] at h ⊢
    rcases h with ⟨rfl, hnan⟩ | ⟨a, b, hx, hy, ha, hb⟩
    · exact .inl ⟨rfl, hnan⟩
    · exact .inr ⟨b, a, hy, hx, hb, ha⟩
  trans := by
    intro x y z h h'
    rw [beq_iff] at h h' ⊢
    rcases h with ⟨rfl, -⟩ | ⟨a, b, hx, hy, ha, hb⟩
    · exact h'
    · rcases h' with ⟨rfl, -⟩ | ⟨b', c, hy', hz, hb', hc⟩
      · exact .inr ⟨a, b, hx, hy, ha, hb⟩
      · exact .inr ⟨a, c, hx, hz, ha, hc⟩

theorem beq_self_iff : (x == x) = true ↔ x ≠ .nan := by
  rw [beq_iff]
  constructor
  · rintro (⟨-, h⟩ | ⟨a, -, rfl, -⟩)
    · exact h
    · exact nofun
  · exact fun h => .inl ⟨rfl, h⟩

/-- A zero is less than one, whatever its sign. -/
theorem Finite.atLeastOne_of_isZero {x : Finite} (h : x.isZero = true) :
    (Double.finite x).atLeastOne = false := by
  have hunits : x.units = 0 := by
    rw [units, beq_iff_eq.mp h, Nat.zero_mul]
  have hone : 0 < unitsPerOne := by
    unfold unitsPerOne
    -- The exponent stays closed to the arithmetic of literals.
    generalize 1074 = n
    exact Nat.pow_pos (by decide)
  rw [atLeastOne, hunits, decide_eq_false (Nat.not_le_of_gt hone),
    Bool.and_false]

theorem atLeastOne_eq_of_beq (h : (x == y) = true) :
    x.atLeastOne = y.atLeastOne := by
  rcases beq_iff.mp h with ⟨rfl, -⟩ | ⟨a, b, rfl, rfl, ha, hb⟩
  · rfl
  · rw [Finite.atLeastOne_of_isZero ha, Finite.atLeastOne_of_isZero hb]

end Double

/-! ## Literals -/

namespace Literal

mutual

theorem same_iff : (a b : Literal) → (a.same b = true ↔ a = b)
  | .null, b => by cases b <;> simp [same]
  | .bool _, b => by cases b <;> simp [same]
  | .number _, b => by cases b <;> simp [same]
  | .string _, b => by cases b <;> simp [same]
  | .array as, b => by
      cases b with
      | array bs => rw [same, sameItems_iff as bs, array.injEq]
      | _ => simp [same]
  | .object ms, b => by
      cases b with
      | object ns => rw [same, sameMembers_iff ms ns, object.injEq]
      | _ => simp [same]

theorem sameItems_iff : (as bs : List Literal) →
    (sameItems as bs = true ↔ as = bs)
  | [], bs => by cases bs <;> simp [sameItems]
  | a :: as, bs => by
      cases bs with
      | nil => simp [sameItems]
      | cons b bs =>
          rw [sameItems, Bool.and_eq_true, same_iff a b, sameItems_iff as bs,
            List.cons.injEq]

theorem sameMembers_iff : (ms ns : List (String × Literal)) →
    (sameMembers ms ns = true ↔ ms = ns)
  | [], ns => by cases ns <;> simp [sameMembers]
  | (k, a) :: ms, ns => by
      cases ns with
      | nil => simp [sameMembers]
      | cons n ns =>
          rw [sameMembers, Bool.and_eq_true, Bool.and_eq_true, beq_iff_eq,
            same_iff a n.2, sameMembers_iff ms ns, List.cons.injEq,
            Prod.ext_iff]

end

/-- JSON values are equal if their normal forms are the same. -/
theorem beq_iff {a b : Literal} : (a == b) = true ↔ a.normal = b.normal :=
  same_iff a.normal b.normal

instance : PartialEquivBEq Literal where
  symm h := beq_iff.mpr (beq_iff.mp h).symm
  trans h h' := beq_iff.mpr ((beq_iff.mp h).trans (beq_iff.mp h'))

instance : ReflBEq Literal where
  rfl := beq_iff.mpr rfl

theorem isNull_normal (a : Literal) : a.normal.isNull = a.isNull := by
  cases a <;> rfl

theorem isNull_eq_of_beq {a b : Literal} (h : (a == b) = true) :
    a.isNull = b.isNull := by
  rw [← isNull_normal, beq_iff.mp h, isNull_normal]

end Literal

/-! ## Conditions -/

theorem Comparison.beq_iff (a b : Comparison) : (a == b) = true ↔
    { a with expected := none } = { b with expected := none } ∧
      (a.expected == b.expected) = true := by
  obtain ⟨subject, operator, expected⟩ := a
  obtain ⟨subject', operator', expected'⟩ := b
  change (subject == subject' &&
    (operator == operator' && expected == expected')) = true ↔ _
  simp [and_assoc]

instance : PartialEquivBEq Comparison :=
  partialEquivBEq_of_part Comparison.beq_iff

instance : ReflBEq Comparison where
  rfl := (Comparison.beq_iff _ _).mpr ⟨rfl, BEq.rfl⟩

namespace Condition

/-- What holds of a condition as soon as it holds of the conditions that it is
made of holds of every condition. -/
theorem induction {P : Condition → Prop}
    (comparison : ∀ test, P (.comparison test))
    (all : ∀ cs, (∀ c ∈ cs, P c) → P (.all cs))
    (any : ∀ cs, (∀ c ∈ cs, P c) → P (.any cs))
    (negation : ∀ o, (∀ c ∈ o, P c) → P (.negation o)) (c : Condition) :
    P c := by
  cases c with
  | comparison test => exact comparison test
  | all cs => exact all cs fun d _ => induction comparison all any negation d
  | any cs => exact any cs fun d _ => induction comparison all any negation d
  | negation o =>
      exact negation o fun d _ => induction comparison all any negation d

variable {c d e : Condition} {cs ds : List Condition}

theorem equalEach_eq (cs ds : List Condition) :
    equalEach cs ds = (cs == ds) := by
  induction cs generalizing ds with
  | nil => cases ds <;> rfl
  | cons c cs ih =>
      cases ds with
      | nil => rfl
      | cons d ds =>
          rw [equalEach, ih]
          rfl

theorem comparison_beq_iff {test : Comparison} :
    (comparison test == d) = true ↔
      ∃ other, d = .comparison other ∧ (test == other) = true := by
  change equal _ d = true ↔ _
  cases d <;> simp [equal]

theorem all_beq_iff : (all cs == d) = true ↔
    ∃ ds, d = .all ds ∧ List.Forall₂ (fun a b => (a == b) = true) cs ds := by
  change equal _ d = true ↔ _
  cases d <;> simp [equal, equalEach_eq, list_beq_iff]

theorem any_beq_iff : (any cs == d) = true ↔
    ∃ ds, d = .any ds ∧ List.Forall₂ (fun a b => (a == b) = true) cs ds := by
  change equal _ d = true ↔ _
  cases d <;> simp [equal, equalEach_eq, list_beq_iff]

theorem negation_beq_iff {o : Option Condition} :
    (negation o == d) = true ↔
      o = none ∧ d = .negation none ∨
        ∃ a b, o = some a ∧ d = .negation (some b) ∧ (a == b) = true := by
  change equal _ d = true ↔ _
  cases d with
  | negation o' => cases o <;> cases o' <;> simp [equal, equalOption, BEq.beq]
  | _ => simp [equal]

theorem symm_of_beq (h : (c == d) = true) : (d == c) = true := by
  induction c using induction generalizing d with
  | comparison test =>
      obtain ⟨other, rfl, h⟩ := comparison_beq_iff.mp h
      exact comparison_beq_iff.mpr ⟨_, rfl, BEq.symm h⟩
  | all cs ih =>
      obtain ⟨ds, rfl, hcs⟩ := all_beq_iff.mp h
      exact all_beq_iff.mpr
        ⟨cs, rfl, forall₂_symm_of_mem (fun a ha _ => ih a ha) hcs⟩
  | any cs ih =>
      obtain ⟨ds, rfl, hcs⟩ := any_beq_iff.mp h
      exact any_beq_iff.mpr
        ⟨cs, rfl, forall₂_symm_of_mem (fun a ha _ => ih a ha) hcs⟩
  | negation o ih =>
      rcases negation_beq_iff.mp h with ⟨rfl, rfl⟩ | ⟨a, b, rfl, rfl, h⟩
      · exact negation_beq_iff.mpr (.inl ⟨rfl, rfl⟩)
      · exact negation_beq_iff.mpr (.inr ⟨b, a, rfl, rfl, ih a rfl h⟩)

theorem trans_of_beq (h : (c == d) = true) (h' : (d == e) = true) :
    (c == e) = true := by
  induction c using induction generalizing d e with
  | comparison test =>
      obtain ⟨other, rfl, h⟩ := comparison_beq_iff.mp h
      obtain ⟨third, rfl, h'⟩ := comparison_beq_iff.mp h'
      exact comparison_beq_iff.mpr ⟨_, rfl, BEq.trans h h'⟩
  | all cs ih =>
      obtain ⟨ds, rfl, hcs⟩ := all_beq_iff.mp h
      obtain ⟨es, rfl, hds⟩ := all_beq_iff.mp h'
      exact all_beq_iff.mpr
        ⟨es, rfl, forall₂_trans_of_mem (fun a ha _ _ => ih a ha) hcs hds⟩
  | any cs ih =>
      obtain ⟨ds, rfl, hcs⟩ := any_beq_iff.mp h
      obtain ⟨es, rfl, hds⟩ := any_beq_iff.mp h'
      exact any_beq_iff.mpr
        ⟨es, rfl, forall₂_trans_of_mem (fun a ha _ _ => ih a ha) hcs hds⟩
  | negation o ih =>
      rcases negation_beq_iff.mp h with ⟨rfl, rfl⟩ | ⟨a, b, rfl, rfl, h⟩
      · exact h'
      · rcases negation_beq_iff.mp h' with ⟨hb, -⟩ | ⟨b', f, hb, rfl, h'⟩
        · cases hb
        · cases hb
          exact negation_beq_iff.mpr
            (.inr ⟨a, f, rfl, rfl, ih a rfl h h'⟩)

theorem beq_self (c : Condition) : (c == c) = true := by
  induction c using induction with
  | comparison test => exact comparison_beq_iff.mpr ⟨test, rfl, BEq.rfl⟩
  | all cs ih => exact all_beq_iff.mpr ⟨cs, rfl, List.forall₂_same.mpr ih⟩
  | any cs ih => exact any_beq_iff.mpr ⟨cs, rfl, List.forall₂_same.mpr ih⟩
  | negation o ih =>
      cases o with
      | none => exact negation_beq_iff.mpr (.inl ⟨rfl, rfl⟩)
      | some a =>
          exact negation_beq_iff.mpr (.inr ⟨a, a, rfl, rfl, ih a rfl⟩)

instance : PartialEquivBEq Condition where
  symm := symm_of_beq
  trans := trans_of_beq

instance : ReflBEq Condition where
  rfl := beq_self _

end Condition

theorem ChoiceRule.beq_iff (a b : ChoiceRule) : (a == b) = true ↔
    { a with condition := none } = { b with condition := none } ∧
      (a.condition == b.condition) = true := by
  obtain ⟨condition, next⟩ := a
  obtain ⟨condition', next'⟩ := b
  change (condition == condition' && next == next') = true ↔ _
  simp [and_comm]

instance : PartialEquivBEq ChoiceRule :=
  partialEquivBEq_of_part ChoiceRule.beq_iff

instance : ReflBEq ChoiceRule where
  rfl := (ChoiceRule.beq_iff _ _).mpr ⟨rfl, BEq.rfl⟩

/-! ## Retriers -/

theorem Retrier.beq_iff (a b : Retrier) : (a == b) = true ↔
    { a with backoffRate := none } = { b with backoffRate := none } ∧
      (a.backoffRate == b.backoffRate) = true := by
  obtain ⟨codes, interval, attempts, rate⟩ := a
  obtain ⟨codes', interval', attempts', rate'⟩ := b
  change (codes == codes' && (interval == interval' &&
    (attempts == attempts' && rate == rate'))) = true ↔ _
  simp [and_assoc]

instance : PartialEquivBEq Retrier :=
  partialEquivBEq_of_part Retrier.beq_iff

/-- A retrier equals itself unless its rate is a NaN. -/
theorem Retrier.beq_self_iff {r : Retrier} :
    (r == r) = true ↔ r.backoffRate ≠ some .nan := by
  rw [Retrier.beq_iff, and_iff_right rfl]
  cases r.backoffRate with
  | none => simp
  | some x =>
      rw [Option.some_beq_some, Double.beq_self_iff, ne_eq, ne_eq,
        Option.some.injEq]

end Workflow
