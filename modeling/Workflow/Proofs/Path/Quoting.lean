import Workflow.Proofs.Path.Positions

/-!
# Quoted literals inside and outside expressions

The same literal may be the name in a bracket and a string in an expression,
and its end is looked for by two rules. Between the quotes of a name a
backslash takes the next character along; in an expression it stands for itself,
and the first quote is the end. The two agree on all literals that do not escape
the quote they stand in, whatever else these hold. A literal that escapes it
once is no part of an expression: what follows the escaped quote is read as the
expression, and the quote at the end opens one more, which nothing closes
(`literal_in_expression`).

Nothing closes it whatever the reader has made of the text in between, which may
itself close the expression and go on with other segments. So this is shown for
every stage: only the quote itself opens it (`misses_of_step`), and where it is
not open, the text does not end well behind it (`outcome_close_of_misses`).
-/

namespace Workflow

namespace Path

variable {d : Dialect} {position start : Nat} {c q : Char} {stage next : Stage}

theorem error_ne_ok {fault : Fault} :
    (.error fault : Except Fault Unit) ≠ .ok () := by
  intro h
  cases h

theorem isBlank_of_quote (hquote : q = '\'' ∨ q = '"') :
    Text.isBlank q = false := by
  rcases hquote with rfl | rfl <;> decide

/-! ## A literal without escaped quotes -/

theorem step_expression_quoted {depth : Nat} {blank : Bool} (hc : c ≠ q) :
    (Stage.expression start depth (some q) blank).step d position c =
      .ok (.expression start depth (some q) (blank && Text.isBlank c)) := by
  rw [Stage.step, Stage.expressionStep, if_neg hc]

/-- Between quotes nothing counts until the quote that is open. -/
theorem outcome_expression_quoted {depth : Nat} {body : List Char}
    (hbody : q ∉ body) (rest : List Char) :
    outcome d position (.expression start depth (some q) false)
        (body ++ q :: rest) =
      outcome d (position + byteLength (body ++ [q]))
        (.expression start depth none false) rest := by
  induction body generalizing position with
  | nil =>
      have hstep : (Stage.expression start depth (some q) false).step d
          position q = .ok (.expression start depth none false) := by
        rw [Stage.step, Stage.expressionStep, if_pos rfl]
        rfl
      exact outcome_cons_of_step hstep
  | cons c body ih =>
      rw [List.mem_cons, not_or] at hbody
      rw [List.cons_append, outcome_cons_of_step
        (step_expression_quoted (Ne.symm hbody.1)), Bool.false_and, ih hbody.2]
      simp only [List.cons_append, byteLength, Nat.add_assoc]

/-- An expression passes over a literal without escaped quotes, and is not
blank any more. -/
theorem outcome_literal (hquote : q = '\'' ∨ q = '"') {depth : Nat}
    {blank : Bool} {body : List Char} (hbody : q ∉ body) (rest : List Char) :
    outcome d position (.expression start depth none blank)
        (quote q body ++ rest) =
      outcome d (position + byteLength (quote q body))
        (.expression start depth none false) rest := by
  have hstep : (Stage.expression start depth none blank).step d position q =
      .ok (.expression start depth (some q) false) := by
    rw [Stage.step, Stage.expressionStep, if_pos hquote,
      isBlank_of_quote hquote, Bool.and_false]
  rw [quote_append, outcome_cons_of_step hstep,
    outcome_expression_quoted hbody]
  simp only [quote, byteLength, Nat.add_assoc]

/-! ## A quote that is not open -/

/-- The quote is not open: no quoted name has it, and no expression is inside
it. -/
def Stage.Misses (q : Char) : Stage → Prop
  | .quoted _ r _ | .escaped _ r | .closedQuote _ r | .comma _ r =>
    (r = '\'' ∨ r = '"') ∧ r ≠ q
  | .expression _ _ open? _ => open? ≠ some q
  | .between | .dot _ | .deepDot _ | .name _ | .bracket _ | .question _
  | .closedExpression _ | .index _ _ => True

theorem misses_of_unquoted {depth : Nat} {blank : Bool} :
    (Stage.expression start depth none blank).Misses q :=
  (Option.some_ne_none q).symm

theorem misses_of_openBracket (hc : c ≠ q)
    (h : Stage.openBracket d start c = .ok next) : next.Misses q := by
  rw [Stage.openBracket] at h
  split at h
  · cases h
  split at h
  · next hquote =>
      injection h with h
      exact h ▸ ⟨hquote, hc⟩
  split at h
  · obtain ⟨-, h⟩ := allow_bind_eq_ok_iff.mp h
    injection h with h
    exact h ▸ trivial
  split at h
  · obtain ⟨-, h⟩ := allow_bind_eq_ok_iff.mp h
    injection h with h
    exact h ▸ misses_of_unquoted
  · injection h with h
    exact h ▸ trivial

theorem misses_of_expressionStep {depth : Nat} {open? : Option Char}
    {blank : Bool} (hopen : open? ≠ some q) (hc : c ≠ q)
    (h : Stage.expressionStep start depth open? blank c = .ok next) :
    next.Misses q := by
  rw [Stage.expressionStep.eq_def] at h
  simp only [] at h
  split at h
  · injection h with h
    subst h
    change (if _ then none else some _) ≠ some q
    split
    · exact (Option.some_ne_none q).symm
    · exact hopen
  split at h
  · injection h with h
    subst h
    exact fun heq => hc (Option.some.inj heq)
  split at h
  · injection h with h
    exact h ▸ misses_of_unquoted
  split at h
  · split at h
    · injection h with h
      exact h ▸ misses_of_unquoted
    split at h
    · cases h
    · injection h with h
      exact h ▸ trivial
  · injection h with h
    exact h ▸ misses_of_unquoted

theorem misses_of_closed (h : next.opening? = none) : next.Misses q := by
  cases next with
  | between | name _ => trivial
  | dot _ | deepDot _ | bracket _ | quoted _ _ _ | escaped _ _
  | closedQuote _ _ | comma _ _ | question _ | expression _ _ _ _
  | closedExpression _ | index _ _ => cases h

/-- Outside brackets no quote is open, nor is one at the start of a bracket. -/
theorem misses_of_step_outside
    (hstage : ∀ start, stage.opening? ≠ some ('[', start))
    (h : stage.step d position c = .ok next) : next.Misses q := by
  cases move_of_step h with
  | dot _ _ | bracket _ _ | deepen _ _ => trivial
  | goOn hopen _ => exact absurd hopen (hstage _)
  | finish hclosed => exact misses_of_closed hclosed

/-- No other character opens the quote. -/
theorem misses_of_step (hmisses : stage.Misses q) (hc : c ≠ q)
    (h : stage.step d position c = .ok next) : next.Misses q := by
  cases stage with
  | between => exact misses_of_step_outside (by simp [Stage.opening?]) h
  | dot start => exact misses_of_step_outside (by simp [Stage.opening?]) h
  | deepDot start => exact misses_of_step_outside (by simp [Stage.opening?]) h
  | name start => exact misses_of_step_outside (by simp [Stage.opening?]) h
  | bracket start => exact misses_of_openBracket hc h
  | quoted start r isEmpty =>
      rw [Stage.step] at h
      split at h
      · split at h
        · cases h
        · injection h with h
          exact h ▸ hmisses
      split at h
      · injection h with h
        exact h ▸ hmisses
      · injection h with h
        exact h ▸ hmisses
  | escaped start r =>
      injection h with h
      exact h ▸ hmisses
  | closedQuote start r =>
      rw [Stage.step] at h
      split at h
      · injection h with h
        exact h ▸ trivial
      split at h
      · obtain ⟨-, h⟩ := allow_bind_eq_ok_iff.mp h
        injection h with h
        exact h ▸ hmisses
      · cases h
  | comma start r =>
      rw [Stage.step] at h
      split at h
      · injection h with h
        exact h ▸ hmisses
      · cases h
  | question start =>
      rw [Stage.step] at h
      split at h
      · injection h with h
        exact h ▸ misses_of_unquoted
      · cases h
  | expression start depth open? blank =>
      exact misses_of_expressionStep hmisses hc h
  | closedExpression start =>
      rw [Stage.step] at h
      split at h
      · injection h with h
        exact h ▸ trivial
      · cases h
  | index start body =>
      rw [Stage.step] at h
      split at h
      · obtain ⟨rfl, -⟩ := closeIndex_iff.mp h
        trivial
      · injection h with h
        exact h ▸ trivial

/-- The body of an index bracket holds no quote. -/
theorem closeIndex_ne_ok_of_quote (hquote : q = '\'' ∨ q = '"')
    {body : List Char} (hmem : q ∈ body) :
    Stage.closeIndex d start body ≠ .ok next := by
  intro h
  obtain ⟨-, s, hbody, hwf, -⟩ := closeIndex_iff.mp h
  have hindex := indexChar_of_body? hbody hwf q hmem
  revert hindex
  rcases hquote with rfl | rfl <;> unfold IndexChar BodyChar <;> decide

/-- Where the quote is not open, it does not end well to meet it in front of the
end of an expression. -/
theorem outcome_close_of_misses (hquote : q = '\'' ∨ q = '"')
    (hmisses : stage.Misses q) :
    outcome d position stage [q, ')', ']'] ≠ .ok () := by
  cases stage with
  | between | dot _ | deepDot _ | name _ | question _ | closedExpression _
  | bracket _ =>
      rcases hquote with rfl | rfl <;> exact error_ne_ok
  | quoted start r isEmpty =>
      obtain ⟨rfl | rfl, hr⟩ := hmisses <;> rcases hquote with rfl | rfl
      · exact absurd rfl hr
      · exact error_ne_ok
      · exact error_ne_ok
      · exact absurd rfl hr
  | escaped start r => obtain ⟨rfl | rfl, -⟩ := hmisses <;> exact error_ne_ok
  | closedQuote start r => rcases hquote with rfl | rfl <;> exact error_ne_ok
  | comma start r =>
      have hstep : (Stage.comma start r).step d position q =
          .error (.invalidBracket start) := by
        rw [Stage.step, if_neg (Ne.symm hmisses.2)]
      rw [outcome_cons_of_error hstep]
      exact error_ne_ok
  | expression start depth open? blank =>
      cases open? with
      | none => rcases hquote with rfl | rfl <;> exact error_ne_ok
      | some r =>
          have hr : q ≠ r := fun heq => hmisses (heq ▸ rfl)
          rw [outcome_cons_of_step (step_expression_quoted hr)]
          by_cases hclose : ')' = r
          · subst hclose
            exact error_ne_ok
          · rw [outcome_cons_of_step (step_expression_quoted hclose)]
            exact error_ne_ok
  | index start body =>
      have hbody : ']' ∉ [q, ')'] := by rcases hquote with rfl | rfl <;> decide
      have hread : outcome d position (.index start body) [q, ')', ']'] = _ :=
        outcome_index hbody []
      rw [hread]
      cases hclose : Stage.closeIndex d start (body ++ [q, ')']) with
      | error fault => exact error_ne_ok
      | ok next =>
          exact absurd hclose (closeIndex_ne_ok_of_quote hquote (by simp))

theorem outcome_of_misses (hquote : q = '\'' ∨ q = '"')
    (hmisses : stage.Misses q) {cs : List Char} (hcs : q ∉ cs) :
    outcome d position stage (cs ++ [q, ')', ']']) ≠ .ok () := by
  induction cs generalizing position stage with
  | nil => exact outcome_close_of_misses hquote hmisses
  | cons c cs ih =>
      rw [List.mem_cons, not_or] at hcs
      rw [List.cons_append]
      cases hstep : stage.step d position c with
      | error fault =>
          rw [outcome_cons_of_error hstep]
          exact error_ne_ok
      | ok next =>
          rw [outcome_cons_of_step hstep]
          exact ih (misses_of_step hmisses (Ne.symm hcs.1) hstep) hcs.2

/-! ## Literals in expressions -/

/-- In an expression, a literal is read if it does not escape its quote, and is
refused if it does so once. -/
theorem outcome_literal_iff (hquote : q = '\'' ∨ q = '"') {blank : Bool}
    {body : List Char} (hcount : body.count q ≤ 1) :
    outcome d position (.expression start 1 none blank)
        (quote q body ++ [')', ']']) = .ok () ↔ q ∉ body := by
  by_cases hbody : q ∈ body
  · refine iff_of_false ?_ (not_not_intro hbody)
    obtain ⟨front, back, rfl, hfront⟩ := List.eq_append_cons_of_mem hbody
    have hback : q ∉ back := by
      rw [List.count_append, List.count_cons_self] at hcount
      exact List.count_eq_zero.mp (by omega)
    -- The literal ends for the expression at its escaped quote.
    have hsplit : quote q (front ++ q :: back) ++ [')', ']'] =
        quote q front ++ (back ++ [q, ')', ']']) := by
      simp [quote]
    rw [hsplit, outcome_literal hquote hfront]
    exact outcome_of_misses hquote misses_of_unquoted hback
  · refine iff_of_true ?_ hbody
    rw [outcome_literal hquote hbody]
    rfl

/-- A quoted literal that is a name in brackets may also stand in a filter and
in a script, if it does not escape its quote. If it does so once, neither is a
path. -/
theorem literal_in_expression {q : Char} {body : List Char} {literal : String}
    (h : Spells [.quoted q [body]] ("$[" ++ literal ++ "]")) :
    (q ∉ body →
      check .general ("$[?(@.a == " ++ literal ++ ")]") = .ok () ∧
      check .general ("$[(" ++ literal ++ ")]") = .ok ()) ∧
    (body.count q = 1 →
      check .general ("$[?(@.a == " ++ literal ++ ")]") ≠ .ok () ∧
      check .general ("$[(" ++ literal ++ ")]") ≠ .ok ()) := by
  obtain ⟨hwf, hspelt⟩ := h
  obtain ⟨hquote, -, -⟩ := hwf _ (List.mem_singleton_self _)
  have hliteral : literal.toList = quote q body := by
    simpa [Segment.text, bracketed] using hspelt
  have hfilter : check .general ("$[?(@.a == " ++ literal ++ ")]") =
      outcome .general 11 (.expression 1 1 none false)
        (quote q body ++ [')', ']']) := by
    rw [check, String.toList_append, String.toList_append, hliteral,
      List.append_assoc]
    rfl
  have hscript : check .general ("$[(" ++ literal ++ ")]") =
      outcome .general 3 (.expression 1 1 none true)
        (quote q body ++ [')', ']']) := by
    rw [check, String.toList_append, String.toList_append, hliteral,
      List.append_assoc]
    rfl
  rw [hfilter, hscript]
  constructor
  · intro hbody
    have hcount : body.count q ≤ 1 := by
      rw [List.count_eq_zero.mpr hbody]
      exact Nat.zero_le 1
    exact ⟨(outcome_literal_iff hquote hcount).mpr hbody,
      (outcome_literal_iff hquote hcount).mpr hbody⟩
  · intro hcount
    have hmem : ¬ q ∉ body := not_not_intro
      (List.count_pos_iff.mp (hcount ▸ Nat.zero_lt_one))
    exact ⟨mt (outcome_literal_iff hquote hcount.le).mp hmem,
      mt (outcome_literal_iff hquote hcount.le).mp hmem⟩

theorem spells_name {q : Char} {body : List Char} {path : String}
    (hquote : q = '\'' ∨ q = '"') (hne : body ≠ [])
    (hbody : QuotedBody q body)
    (htext : path.toList = '$' :: (Segment.quoted q [body]).text) :
    Spells [.quoted q [body]] path := by
  refine ⟨fun s hs => ?_, by rw [htext, List.flatMap_singleton]⟩
  rw [List.mem_singleton.mp hs]
  refine ⟨hquote, by simp, fun b hb => ?_⟩
  rw [List.mem_singleton.mp hb]
  exact ⟨hne, hbody⟩

/-- A name that escapes its quote. -/
theorem spells_escaped :
    Spells [.quoted '\'' [['a', '\\', '\'', 'b']]]
      ("$[" ++ "'a\\'b'" ++ "]") := by
  have hbody : QuotedBody '\'' ['a', '\\', '\'', 'b'] :=
    .plain (by decide) (by decide)
      (.escape '\'' (.plain (by decide) (by decide) .nil))
  exact spells_name (.inl rfl) (by simp) hbody (by decide)

/-- Parentheses, brackets, the other quote and an escaped backslash do no harm;
an escaped quote does. -/
theorem literal_in_expression_escaped :
    Spells [.quoted '\'' [[')', ']', '"', '\\', '\\']]]
      ("$[" ++ "')]\"\\\\'" ++ "]") ∧
    '\'' ∉ [')', ']', '"', '\\', '\\'] ∧
    check .general ("$[?(@.a == " ++ "')]\"\\\\'" ++ ")]") = .ok () ∧
    check .general ("$[(" ++ "')]\"\\\\'" ++ ")]") = .ok () ∧
    Spells [.quoted '\'' [['a', '\\', '\'', 'b']]]
      ("$[" ++ "'a\\'b'" ++ "]") ∧
    ['a', '\\', '\'', 'b'].count '\'' = 1 ∧
    check .general ("$[?(@.a == " ++ "'a\\'b'" ++ ")]") ≠ .ok () ∧
    check .general ("$[(" ++ "'a\\'b'" ++ ")]") ≠ .ok () := by
  have hbody : QuotedBody '\'' [')', ']', '"', '\\', '\\'] :=
    .plain (by decide) (by decide) (.plain (by decide) (by decide)
      (.plain (by decide) (by decide) (.escape '\\' .nil)))
  have hspells : Spells [.quoted '\'' [[')', ']', '"', '\\', '\\']]]
      ("$[" ++ "')]\"\\\\'" ++ "]") :=
    spells_name (.inl rfl) (by simp) hbody (by decide)
  have hnot : '\'' ∉ [')', ']', '"', '\\', '\\'] := by decide
  obtain ⟨hfilter, hscript⟩ := (literal_in_expression hspells).1 hnot
  exact ⟨hspells, hnot, hfilter, hscript, spells_escaped, rfl,
    (literal_in_expression spells_escaped).2 rfl⟩

/-- Not every literal that is a name in brackets may stand in an expression. -/
theorem escaped_quote_ends_literal :
    ¬ ∀ (q : Char) (body : List Char) (literal : String),
      Spells [.quoted q [body]] ("$[" ++ literal ++ "]") →
      check .general ("$[?(@.a == " ++ literal ++ ")]") = .ok () ∧
        check .general ("$[(" ++ literal ++ ")]") = .ok () := by
  intro h
  obtain ⟨-, hscript⟩ := h _ _ _ spells_escaped
  have hopen : check .general ("$[(" ++ "'a\\'b'" ++ ")]") =
      .error (.unterminatedBracket 1) := by decide
  rw [hopen] at hscript
  cases hscript

end Path

end Workflow
