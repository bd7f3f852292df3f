import Mathlib.Tactic.ByContra
import Workflow.Location

/-!
# The text of a location tells the location

The text of a location is the text of its steps in a row, and nothing sets a
name off from what follows it but the bracket that closes the step. A name that
holds such a bracket can pass for several steps, as `A].States[B` does. Any
other character is harmless, even where a name is made of pieces of the text of
other steps: two different locations have different texts unless some name in
one of them holds a closing bracket
(`Location.exists_bracket_of_text_eq`).

The proof reads a text from the front, one step at a time. A step ends at the
first closing bracket. Up to its first opening bracket it says which kind of
step it is, and behind that it holds a name or the digits of an index.
-/

namespace Workflow

/-- A list can be cut in only one way in front of the first place of an element. -/
theorem append_cons_inj_of_notMem_left {α : Type} {x : α} {as as' bs bs' : List α}
    (has : x ∉ as) (has' : x ∉ as') :
    as ++ x :: bs = as' ++ x :: bs' ↔ as = as' ∧ bs = bs' := by
  constructor
  · intro h
    rcases List.append_eq_append_iff.mp h with
      ⟨cs, rfl, hcs⟩ | ⟨cs, rfl, hcs⟩
    · cases cs with
      | nil => simpa using hcs
      | cons c cs =>
          obtain ⟨rfl, -⟩ := List.cons.inj hcs
          simp at has'
    · cases cs with
      | nil => simpa [eq_comm] using hcs
      | cons c cs =>
          obtain ⟨rfl, -⟩ := List.cons.inj hcs
          simp at has
  · intro h
    obtain ⟨rfl, rfl⟩ := h
    rfl

/-! ## The digits of an index -/

theorem eq_of_decimal_eq {m n : Nat} (h : toString m = toString n) :
    m = n := by
  rw [Nat.toString_eq_ofList_toDigits, Nat.toString_eq_ofList_toDigits,
    String.ofList_inj] at h
  have hvalue := congrArg (fun digits => Nat.ofDigitChars 10 digits 0) h
  simpa only [Nat.ofDigitChars_ten_toDigits] using hvalue

theorem bracket_notMem_decimal (n : Nat) : ']' ∉ (toString n).toList := by
  intro h
  rw [Nat.toString_eq_ofList_toDigits, String.toList_ofList] at h
  have hdigit := Nat.isDigit_of_mem_toDigits (by decide) (by decide) h
  exact absurd hdigit (by decide)

/-! ## One step -/

namespace Step

/-- The word in front of the brackets of a step. -/
def label : Step → String
  | .state _ => "States"
  | .branch _ => "Branches"
  | .choice _ => "Choices"
  | .retrier _ => "Retriers"
  | .catcher _ => "Catchers"

/-- What stands in the brackets of a step. -/
def content : Step → String
  | .state name => name
  | .branch i | .choice i | .retrier i | .catcher i => toString i

theorem toList_text (s : Step) :
    s.text.toList =
      '.' :: (s.label.toList ++ '[' :: (s.content.toList ++ [']'])) := by
  cases s <;> simp [text, label, content]

theorem bracket_notMem_label (s : Step) : '[' ∉ s.label.toList := by
  cases s <;> simp [label]

theorem eq_of_content_eq {a b : Step} (hlabel : a.label = b.label)
    (hcontent : a.content = b.content) : a = b := by
  cases a <;> cases b <;> simp only [label, String.reduceEq] at hlabel
  case state.state => exact congrArg state hcontent
  case branch.branch => exact congrArg branch (eq_of_decimal_eq hcontent)
  case choice.choice => exact congrArg choice (eq_of_decimal_eq hcontent)
  case retrier.retrier => exact congrArg retrier (eq_of_decimal_eq hcontent)
  case catcher.catcher => exact congrArg catcher (eq_of_decimal_eq hcontent)

/-- The content of the step holds no closing bracket. -/
def IsClear (s : Step) : Prop := ']' ∉ s.content.toList

theorem isClear_of_name {s : Step}
    (h : ∀ name, s = .state name → ']' ∉ name.toList) : s.IsClear := by
  cases s with
  | state name => exact h name rfl
  | branch i => exact bracket_notMem_decimal i
  | choice i => exact bracket_notMem_decimal i
  | retrier i => exact bracket_notMem_decimal i
  | catcher i => exact bracket_notMem_decimal i

/-- A step is read off the front of a text in only one way. -/
theorem eq_of_text_append_eq {a b : Step} {rest rest' : List Char}
    (ha : a.IsClear) (hb : b.IsClear)
    (h : a.text.toList ++ rest = b.text.toList ++ rest') :
    a = b ∧ rest = rest' := by
  simp only [toList_text, List.cons_append, List.append_assoc,
    List.cons.injEq, true_and, List.nil_append] at h
  rw [append_cons_inj_of_notMem_left a.bracket_notMem_label b.bracket_notMem_label,
    append_cons_inj_of_notMem_left ha hb, String.toList_inj, String.toList_inj] at h
  obtain ⟨hlabel, hcontent, hrest⟩ := h
  exact ⟨eq_of_content_eq hlabel hcontent, hrest⟩

theorem eq_of_texts_eq {as bs : List Step} (has : ∀ a ∈ as, a.IsClear)
    (hbs : ∀ b ∈ bs, b.IsClear)
    (h : (as.flatMap fun s => s.text.toList) =
      bs.flatMap fun s => s.text.toList) : as = bs := by
  induction as generalizing bs with
  | nil =>
      cases bs with
      | nil => rfl
      | cons b bs => simp [toList_text] at h
  | cons a as ih =>
      cases bs with
      | nil => simp [toList_text] at h
      | cons b bs =>
          rw [List.flatMap_cons, List.flatMap_cons] at h
          rw [List.forall_mem_cons] at has hbs
          obtain ⟨rfl, hrest⟩ := eq_of_text_append_eq has.1 hbs.1 h
          rw [ih has.2 hbs.2 hrest]

end Step

/-! ## A whole location -/

namespace Location

theorem toList_text (l : Location) :
    l.text.toList =
      "Root".toList ++ l.steps.flatMap fun s => s.text.toList := by
  have hfold : ∀ (steps : List Step) (front : String),
      (steps.foldl (fun s step => s ++ step.text) front).toList =
        front.toList ++ steps.flatMap fun s => s.text.toList := by
    intro steps
    induction steps with
    | nil => simp
    | cons s steps ih =>
        intro front
        rw [List.foldl_cons, ih, String.toList_append, List.flatMap_cons,
          List.append_assoc]
  exact hfold l.steps "Root"

/-- Different locations with the same text owe it to a name with a closing
bracket in one of them. -/
theorem exists_bracket_of_text_eq {l m : Location} (hne : l ≠ m)
    (h : l.text = m.text) :
    ∃ name, (.state name ∈ l.steps ∨ .state name ∈ m.steps) ∧
      ']' ∈ name.toList := by
  by_contra hnone
  have hclear : ∀ s, s ∈ l.steps ∨ s ∈ m.steps → s.IsClear := by
    intro s hs
    refine Step.isClear_of_name fun name hname hmem => ?_
    exact hnone ⟨name, hname ▸ hs, hmem⟩
  have hsteps : l.steps = m.steps := by
    rw [← String.toList_inj, toList_text, toList_text,
      List.append_cancel_left_eq] at h
    exact Step.eq_of_texts_eq (fun s hs => hclear s (.inl hs))
      (fun s hs => hclear s (.inr hs)) h
  exact hne (congrArg Location.mk hsteps)

theorem exists_bracket_of_text_eq_fan :
    root.state "Fan].Branches[0].States[Work" ≠
        ((root.state "Fan").branch 0).state "Work" ∧
      (root.state "Fan].Branches[0].States[Work").text =
        (((root.state "Fan").branch 0).state "Work").text ∧
      ∃ name, (Step.state name ∈
            (root.state "Fan].Branches[0].States[Work").steps ∨
          Step.state name ∈ (((root.state "Fan").branch 0).state "Work").steps) ∧
        ']' ∈ name.toList := by
  have hne : root.state "Fan].Branches[0].States[Work" ≠
      ((root.state "Fan").branch 0).state "Work" := by decide
  have htext : (root.state "Fan].Branches[0].States[Work").text =
      (((root.state "Fan").branch 0).state "Work").text := by decide +kernel
  exact ⟨hne, htext, exists_bracket_of_text_eq hne htext⟩

end Location

end Workflow
