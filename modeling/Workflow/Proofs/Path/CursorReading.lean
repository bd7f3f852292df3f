import Workflow.Proofs.Path.Cursors
import Workflow.Proofs.Path.Dialects
import Workflow.Proofs.Path.Truncation

/-!
# The reader at a cursor comes to the verdict

The reader that moves a cursor over the text and the one that goes from stage
to stage read the same paths. Each reader of a part is followed from a place
where reading on in some stage comes to the verdict on the text: either it
meets that verdict, or it leaves at a place, behind the first, where reading on
in a later stage comes to the verdict (`Post.agree`). What is kept in a loop
says which stage that is after any number of turns.

Put together, the reader gives the verdict on every text. That it gives one at
all is the point of it: nowhere does it get stuck, and every loop has an end.
-/

namespace Workflow

namespace Path

open Reader

/-- Reading on from the place in the stage comes to the verdict. -/
def ReadsOn {text : List Char} (d : Dialect) (verdict : Except Fault Unit)
    (stage : Stage) (p : Place text) : Prop :=
  outcome d p.offset stage p.after = verdict

/-- What is asked of a reader that agrees with the verdict: a fault that it
meets is the verdict. -/
def Post.agree {text : List Char} {α : Type} (verdict : Except Fault Unit)
    (good : α → Place text → Prop) : Post text α
  | .ok a, q => good a q
  | .error fault, _ => verdict = .error fault

variable {d : Dialect} {verdict : Except Fault Unit} {text : List Char}
  {p : Place text} {stage stage' : Stage} {fault : Fault} {c : Char}
  {cs : List Char} {start bracket position : Nat}

namespace ReadsOn

theorem finish (h : ReadsOn d verdict stage p) (hafter : p.after = []) :
    verdict = stage.finish := by
  rw [← h, hafter]
  rfl

theorem refused (h : ReadsOn d verdict stage p) (hafter : p.after = c :: cs)
    (hstep : stage.step d p.offset c = .error fault) :
    verdict = .error fault := by
  rw [← h, hafter, outcome_cons_of_error hstep]

theorem step (h : ReadsOn d verdict stage p) (hafter : p.after = c :: cs)
    (hstep : stage.step d p.offset c = .ok stage') :
    ReadsOn d verdict stage' (p.behind [c] hafter) := by
  have hoffset : (p.behind [c] hafter).offset =
      p.offset + c.utf8Size := p.offset_behind hafter
  rw [ReadsOn, hoffset, ← h, hafter, outcome_cons_of_step hstep]
  rfl

/-- A character is awaited and does not come. -/
theorem missing (h : ReadsOn d verdict stage p)
    (hhead : p.after.head? ≠ some c) (hend : stage.finish = .error fault)
    (hstep : ∀ x, x ≠ c → stage.step d p.offset x = .error fault) :
    verdict = .error fault := by
  cases hafter : p.after with
  | nil => exact (h.finish hafter).trans hend
  | cons x cs =>
      rw [hafter] at hhead
      exact h.refused hafter (hstep x fun hx => hhead (congrArg some hx))

end ReadsOn

theorem lt_offset_behind {part rest : List Char}
    (hafter : p.after = part ++ rest) (hpart : part ≠ []) :
    p.offset < (p.behind part hafter).offset := by
  rw [p.offset_behind]
  exact Nat.lt_add_of_pos_right (byteLength_pos hpart)

/-- Behind a reader that agrees with the verdict only its results have to be
looked at. -/
theorem Ends.andThen {α β : Type} {r : Reader α} {next : α → Reader β}
    {good : α → Place text → Prop} {post : Post text β}
    (h : Ends r p (.agree verdict good))
    (hfault : ∀ fault q, verdict = .error fault → post (.error fault) q)
    (hnext : ∀ a q, good a q → Ends (next a) q post) :
    Ends (r >>= next) p post := by
  refine Ends.bind (h.mono fun result q hq => ?_)
  cases result with
  | ok a => exact hnext a q hq
  | error fault => exact hfault fault q hq

/-- Whether a construct passes depends on the dialect alone. -/
theorem ends_admission {construct : Construct} {post : Post text Unit}
    (hgeneral : d = .general → post (.ok ()) p)
    (hreference : d = .reference →
      post (.error (.notAllowed position construct)) p) :
    Ends (ofExcept (d.allow position construct)) p post := by
  refine ends_ofExcept ?_
  cases d with
  | general => exact hgeneral rfl
  | reference => exact hreference rfl

/-! ## Names -/

/-- While a name is read that starts at `nameStart`: nothing of it has been read
yet and it does not start with a star, or something has. -/
def InName (d : Dialect) (verdict : Except Fault Unit) (start nameStart : Nat)
    (p : Place text) : Prop :=
  p.offset = nameStart ∧ p.after.head? ≠ some '*' ∧
      ReadsOn d verdict (.deepDot start) p ∨
    nameStart < p.offset ∧ ReadsOn d verdict (.name start) p

/-- A name is empty, which is the verdict, or it has been read. -/
def NameRead (d : Dialect) (verdict : Except Fault Unit) (start nameStart : Nat)
    (p : Place text) : Prop :=
  p.offset = nameStart ∧ verdict = .error (.emptySegment start) ∨
    nameStart < p.offset ∧ ReadsOn d verdict .between p

namespace InName

variable {nameStart : Nat}

theorem end_of_text (h : InName d verdict start nameStart p)
    (hafter : p.after = []) : NameRead d verdict start nameStart p := by
  rcases h with ⟨hoffset, -, h⟩ | ⟨hoffset, h⟩
  · exact .inl ⟨hoffset, h.finish hafter⟩
  · refine .inr ⟨hoffset, ?_⟩
    rw [h.finish hafter, ReadsOn, hafter]
    rfl

theorem next_segment (h : InName d verdict start nameStart p)
    (hafter : p.after = c :: cs) (hc : c = '.' ∨ c = '[') :
    NameRead d verdict start nameStart p := by
  rcases h with ⟨hoffset, -, h⟩ | ⟨hoffset, h⟩
  · refine .inl ⟨hoffset, h.refused hafter ?_⟩
    rw [Stage.step, Stage.startName, if_neg, if_pos hc]
    · rfl
    · rintro rfl
      revert hc
      decide
  · refine .inr ⟨hoffset, ?_⟩
    have hname : ¬ NameChar c := by
      rintro ⟨hdot, hopen, -⟩
      exact hc.elim hdot hopen
    rw [← h, ReadsOn, hafter, outcome, outcome, scan, scan,
      step_name_of_not_nameChar hname]

theorem refused (h : InName d verdict start nameStart p)
    (hafter : p.after = c :: cs) (hdots : ¬ (c = '.' ∨ c = '['))
    (hc : c = ']' ∨ Text.isBlank c) :
    verdict = .error (.unexpectedChar p.offset c) := by
  rcases h with ⟨-, hstar, h⟩ | ⟨-, h⟩
  · refine h.refused hafter ?_
    rw [hafter] at hstar
    rw [Stage.step, Stage.startName,
      if_neg (fun hc => hstar (congrArg some hc)), if_neg hdots, if_pos hc]
    rfl
  · refine h.refused hafter ?_
    rw [not_or] at hdots
    rw [Stage.step, if_neg hdots.1, if_neg hdots.2, if_pos hc]

theorem step (h : InName d verdict start nameStart p)
    (hafter : p.after = c :: cs) (hc : NameChar c) :
    InName d verdict start nameStart (p.behind [c] hafter) := by
  have hlt : p.offset < (p.behind [c] hafter).offset :=
    lt_offset_behind hafter (by simp)
  rcases h with ⟨hoffset, hstar, h⟩ | ⟨hoffset, h⟩
  · refine .inr ⟨hoffset ▸ hlt, h.step hafter ?_⟩
    rw [hafter] at hstar
    exact startName_of_nameChar (fun hc => hstar (congrArg some hc)) hc
  · exact .inr ⟨hoffset.trans hlt, h.step hafter (step_name_of_nameChar hc)⟩

end InName

theorem ends_nameTurn {nameStart : Nat}
    (h : InName d verdict start nameStart p) :
    Ends (nameTurn text ()) p
      (.turn (fun _ => InName d verdict start nameStart) p.offset
        (.agree verdict fun _ => NameRead d verdict start nameStart)) := by
  refine Ends.peek (fun hafter => ?_) fun c cs hafter => ?_
  · exact ends_pure (h.end_of_text hafter)
  refine Ends.ite (fun hdots => ?_) fun hdots => ?_
  · exact ends_pure (h.next_segment hafter hdots)
  refine Ends.ite (fun hc => ?_) fun hc => ?_
  · exact Ends.bind (ends_offset (ends_throw (h.refused hafter hdots hc)))
  · have hname : NameChar c := by
      rw [not_or] at hdots hc
      exact ⟨hdots.1, hdots.2, hc.1, by simpa using hc.2⟩
    refine Ends.bind (ends_advance [c] hafter rfl (ends_pure ?_))
    exact ⟨h.step hafter hname, lt_offset_behind hafter (by simp)⟩

/-- The segments up to a place behind `base` have been read. -/
def Passed (d : Dialect) (verdict : Except Fault Unit) (base : Nat)
    (p : Place text) : Prop :=
  ReadsOn d verdict .between p ∧ base < p.offset

/-- What lies behind a place lies behind all that is in front of it. -/
theorem Ends.passed {r : Reader Unit} {base : Nat} (hbase : base ≤ p.offset)
    (h : Ends r p (.agree verdict fun _ => Passed d verdict p.offset)) :
    Ends r p (.agree verdict fun _ => Passed d verdict base) := by
  refine h.mono fun result q hq => ?_
  cases result with
  | ok _ => exact ⟨hq.1, hbase.trans_lt hq.2⟩
  | error _ => exact hq

theorem ends_dottedWord (h : ReadsOn d verdict (.deepDot start) p) :
    Ends (dottedWord d text start) p
      (.agree verdict fun _ => Passed d verdict p.offset) := by
  refine Ends.peekFor (fun cs hafter => ?_) fun hstar => ?_
  · refine Ends.bind (ends_offset (Ends.bind (ends_admission ?_ ?_)))
    · rintro rfl
      exact ends_advance ['*'] hafter rfl
        ⟨h.step hafter rfl, lt_offset_behind hafter (by simp)⟩
    · rintro rfl
      exact h.refused hafter rfl
  · refine Ends.bind (ends_offset ?_)
    have hloop : Ends (loop text (nameTurn text) ()) p
        (.agree verdict fun _ => NameRead d verdict start p.offset) :=
      ends_loop (fun _ _ hq => ends_nameTurn hq) (.inl ⟨rfl, hstar, h⟩)
    refine hloop.andThen (fun _ _ hfault => hfault) fun _ q hq => ?_
    refine Ends.bind (ends_offset ?_)
    refine Ends.ite (fun hoffset => ?_) fun hoffset => ?_
    · rcases hq with ⟨-, hempty⟩ | ⟨hlt, -⟩
      · exact ends_throw hempty
      · exact absurd hoffset hlt.ne'
    · rcases hq with ⟨heq, -⟩ | ⟨hlt, hq⟩
      · exact absurd heq hoffset
      · exact ends_pure ⟨hq, hlt⟩

/-- Where no second dot follows, it makes no difference whether there has been
one. -/
theorem ReadsOn.deepDot (h : ReadsOn d verdict (.dot start) p)
    (hdot : p.after.head? ≠ some '.') :
    ReadsOn d verdict (.deepDot start) p := by
  rw [← h, ReadsOn]
  rcases hafter : p.after with _ | ⟨c, cs⟩
  · rfl
  · rw [hafter] at hdot
    have hstep : (Stage.dot start).step d p.offset c =
        (Stage.deepDot start).step d p.offset c := by
      rw [Stage.step, if_neg (fun hc => hdot (congrArg some hc))]
      rfl
    rw [outcome, outcome, scan, scan, hstep]

theorem ends_dotSegment (h : ReadsOn d verdict .between p)
    (hafter : p.after = '.' :: cs) :
    Ends (dotSegment d text) p
      (.agree verdict fun _ => Passed d verdict p.offset) := by
  have hdot : ReadsOn d verdict (.dot p.offset)
      (p.behind ['.'] hafter) := h.step hafter rfl
  refine Ends.bind (ends_offset (Ends.bind (ends_rest ?_)))
  refine Ends.ite (fun hdeep => ?_) fun hdeep => ?_
  · obtain ⟨rest, hrest⟩ := List.isPrefixOf_iff_prefix.mp hdeep
    obtain rfl : '.' :: rest = cs :=
      (List.cons_eq_cons.mp (hrest.trans hafter)).2
    refine Ends.bind (ends_admission ?_ ?_)
    · rintro rfl
      refine Ends.bind (ends_advance ['.', '.'] hafter rfl ?_)
      refine (ends_dottedWord ?_).passed
        (lt_offset_behind hafter (by simp)).le
      rw [ReadsOn, p.offset_behind, ← h, hafter, outcome_cons_of_step rfl,
        outcome_cons_of_step rfl]
      rfl
    · rintro rfl
      exact hdot.refused rfl rfl
  · refine Ends.bind (ends_advance ['.'] hafter rfl ?_)
    refine (ends_dottedWord (hdot.deepDot fun hhead => ?_)).passed
      (lt_offset_behind hafter (by simp)).le
    obtain ⟨rest, hcs⟩ := List.head?_eq_some_iff.mp hhead
    refine hdeep (List.isPrefixOf_iff_prefix.mpr ⟨rest, ?_⟩)
    rw [hafter]
    exact congrArg ('.' :: ·) hcs.symm

/-! ## Quoted names -/

variable {quote : Char} {s : Place text} {name : List Char} {base : Nat}

/-- While a quoted name is read that starts at the place `s`: what lies between
it and the cursor has been read of it. -/
def InQuotes (d : Dialect) (verdict : Except Fault Unit) (bracket : Nat)
    (quote : Char) (s p : Place text) : Prop :=
  ∃ body, p.before = s.before ++ body ∧
    ReadsOn d verdict (.quoted bracket quote body.isEmpty) p

/-- A quoted name is empty, which is the verdict, or it has been read. -/
def QuoteRead (d : Dialect) (verdict : Except Fault Unit) (bracket : Nat)
    (quote : Char) (name : List Char) (p : Place text) : Prop :=
  if name.isEmpty then verdict = .error (.emptySegment bracket)
  else ReadsOn d verdict (.closedQuote bracket quote) p

/-- The cursor is at the quote that a name starts with. -/
def AtQuote (d : Dialect) (verdict : Except Fault Unit) (bracket : Nat)
    (quote : Char) (p : Place text) : Prop :=
  ∃ rest, ∃ hafter : p.after = [quote] ++ rest,
    ReadsOn d verdict (.quoted bracket quote true) (p.behind [quote] hafter)

theorem byteLength_quote (hquote : quote = '\'' ∨ quote = '"') :
    byteLength [quote] = 1 := by
  rcases hquote with rfl | rfl <;> rfl

theorem ReadsOn.inQuotes {p : Place text} (body : List Char) (hne : body ≠ [])
    (hbefore : p.before = s.before ++ body)
    (h : ReadsOn d verdict (.quoted bracket quote false) p) :
    InQuotes d verdict bracket quote s p := by
  have hbody : body.isEmpty = false := by simpa using hne
  exact ⟨body, hbefore, hbody ▸ h⟩

theorem ends_quotedTurn (hquote : quote = '\'' ∨ quote = '"')
    (h : InQuotes d verdict bracket quote s p) :
    Ends (quotedTurn text quote s.offset ()) p
      (.turn (fun _ => InQuotes d verdict bracket quote s) p.offset
        (.agree verdict fun
          | some name, q =>
            QuoteRead d verdict bracket quote name q ∧ s.offset < q.offset
          | none, _ => verdict = .error (.unterminatedBracket bracket))) := by
  obtain ⟨body, hbefore, h⟩ := h
  refine Ends.peek (fun hafter => ?_) fun c cs hafter => ?_
  · exact ends_pure (h.finish hafter)
  refine Ends.ite (fun hc => ?_) fun hc => ?_
  · subst hc
    refine Ends.bind (ends_offset (Ends.bind (ends_slice hbefore ?_)))
    refine Ends.bind (ends_advance [c] hafter (byteLength_quote hquote) ?_)
    refine ends_pure ⟨?_, ?_⟩
    · cases body with
      | nil => exact h.refused hafter step_quoted_empty
      | cons x body => exact h.step hafter step_quoted_close
    · exact (Place.offset_le_of_before hbefore).trans_lt
        (lt_offset_behind hafter (by simp))
  refine Ends.ite (fun hescape => ?_) fun hescape => ?_
  · subst hescape
    have hescaped := h.step hafter (step_quoted_escape (Ne.symm hc))
    refine Ends.bind (ends_advance ['\\'] hafter rfl ?_)
    refine Ends.peek (fun hend => ?_) fun e rest hnext => ?_
    · exact ends_pure (hescaped.finish hend)
    · refine Ends.bind (ends_advance [e] hnext rfl (ends_pure ⟨?_, ?_⟩))
      · exact (hescaped.step hnext rfl).inQuotes (body ++ ['\\'] ++ [e])
          (by simp)
          (Place.before_behind (Place.before_behind hbefore hafter) hnext)
      · exact (lt_offset_behind hafter (by simp)).trans
          (lt_offset_behind hnext (by simp))
  · refine Ends.bind (ends_advance [c] hafter rfl (ends_pure ⟨?_, ?_⟩))
    · exact (h.step hafter (step_quoted_plain hc hescape)).inQuotes
        (body ++ [c]) (by simp) (Place.before_behind hbefore hafter)
    · exact lt_offset_behind hafter (by simp)

theorem ends_quotedName (hquote : quote = '\'' ∨ quote = '"')
    (h : AtQuote d verdict bracket quote p) :
    Ends (quotedName text bracket quote) p (.agree verdict fun name q =>
      QuoteRead d verdict bracket quote name q ∧ p.offset < q.offset) := by
  obtain ⟨rest, hafter, h⟩ := h
  refine Ends.bind (ends_advance [quote] hafter (byteLength_quote hquote) ?_)
  refine Ends.bind (ends_offset ?_)
  have hlt : p.offset < (p.behind [quote] hafter).offset :=
    lt_offset_behind hafter (by simp)
  refine Ends.andThen (ends_loop (fun _ _ hq => ends_quotedTurn hquote hq)
    ⟨[], (List.append_nil _).symm, h⟩) (fun _ _ hfault => hfault) ?_
  intro name? q hq
  cases name? with
  | none => exact ends_throw hq
  | some name => exact ends_pure ⟨hq.1, hlt.trans hq.2⟩

/-- Behind a quoted name the bracket is closed, or a comma and another quote
follow. -/
theorem ends_unionTurn (hquote : quote = '\'' ∨ quote = '"')
    (h : AtQuote d verdict bracket quote p ∧ base < p.offset) :
    Ends (unionTurn d text bracket quote ()) p
      (.turn (fun _ q => AtQuote d verdict bracket quote q ∧ base < q.offset)
        p.offset (.agree verdict fun _ => Passed d verdict base)) := by
  obtain ⟨h, hbase⟩ := h
  refine (ends_quotedName hquote h).andThen (fun _ _ hfault => hfault) ?_
  intro name q hq
  obtain ⟨hq, hlt⟩ := hq
  refine Ends.ite (fun hempty => ?_) fun hempty => ?_
  · rw [QuoteRead, if_pos hempty] at hq
    exact ends_throw hq
  rw [QuoteRead, if_neg hempty] at hq
  refine Ends.peek (fun hafter => ?_) fun c cs hafter => ?_
  · exact ends_throw (hq.finish hafter)
  have hbehind : q.offset < (q.behind [c] hafter).offset :=
    lt_offset_behind hafter (by simp)
  refine Ends.ite (fun hclose => ?_) fun hclose => ?_
  · subst hclose
    refine Ends.bind (ends_advance [']'] hafter rfl (ends_pure ⟨?_, ?_⟩))
    · exact hq.step hafter rfl
    · exact hbase.trans (hlt.trans hbehind)
  refine Ends.ite (fun hcomma => ?_) fun hcomma => ?_
  · subst hcomma
    refine Ends.bind (ends_admission ?_ ?_)
    · rintro rfl
      have hnext := hq.step hafter rfl
      refine Ends.bind (ends_advance [','] hafter rfl ?_)
      refine Ends.peekFor (fun rest hquoted => ?_) fun hmissing => ?_
      · refine ends_pure ⟨⟨⟨rest, hquoted, ?_⟩, ?_⟩, hlt.trans hbehind⟩
        · exact hnext.step hquoted (if_pos rfl)
        · exact hbase.trans (hlt.trans hbehind)
      · exact ends_throw (hnext.missing hmissing rfl fun _ hx => if_neg hx)
    · rintro rfl
      exact hq.refused hafter rfl
  · refine Ends.bind (ends_offset (ends_throw (hq.refused hafter ?_)))
    rw [Stage.step, if_neg hclose, if_neg hcomma]

theorem ends_union (hquote : quote = '\'' ∨ quote = '"')
    (h : AtQuote d verdict bracket quote p) (hbase : base < p.offset) :
    Ends (loop text (unionTurn d text bracket quote) ()) p
      (.agree verdict fun _ => Passed d verdict base) :=
  ends_loop (fun _ _ hq => ends_unionTurn hquote hq) ⟨h, hbase⟩

/-! ## Expressions -/

/-- While an expression is read whose body starts at the place `s`: a
parenthesis is open, and what lies between `s` and the cursor is of the body. -/
def InExpression (d : Dialect) (verdict : Except Fault Unit) (bracket : Nat)
    (s : Place text) (now : Nat × Option Char) (p : Place text) : Prop :=
  now.1 ≠ 0 ∧ ∃ body, p.before = s.before ++ body ∧
    ReadsOn d verdict
      (.expression bracket now.1 now.2 (body.all Text.isBlank)) p

/-- The body of an expression is not closed, which is the verdict, or it is, and
then it must not be blank. -/
def BodyRead (d : Dialect) (verdict : Except Fault Unit) (bracket : Nat)
    (s : Place text) (depth : Nat) (p : Place text) : Prop :=
  depth ≠ 0 ∧ verdict = .error (.unterminatedBracket bracket) ∨
    depth = 0 ∧ ∃ body, p.before = s.before ++ (body ++ [')']) ∧
      if body.all Text.isBlank then verdict = .error (.invalidBracket bracket)
      else ReadsOn d verdict (.closedExpression bracket) p

namespace InExpression

variable {now now' : Nat × Option Char}

/-- A character that closes nothing is one more of the body. -/
theorem step (h : InExpression d verdict bracket s now p)
    (hafter : p.after = c :: cs) (hnest : nest now c = now')
    (hopen : now'.1 ≠ 0) :
    InExpression d verdict bracket s now' (p.behind [c] hafter) := by
  subst hnest
  obtain ⟨hnow, body, hbefore, h⟩ := h
  refine ⟨hopen, body ++ [c], Place.before_behind hbefore hafter, ?_⟩
  · have hstep : (Stage.expression bracket now.1 now.2
        (body.all Text.isBlank)).step d p.offset c = _ :=
      expressionStep_eq hnow
    rw [if_neg hopen] at hstep
    have hread := h.step hafter hstep
    simpa using hread

/-- The parenthesis that closes the first one ends the body. -/
theorem close (h : InExpression d verdict bracket s now p)
    (hafter : p.after = ')' :: cs) (hnest : (nest now ')').1 = 0) :
    BodyRead d verdict bracket s 0 (p.behind [')'] hafter) := by
  obtain ⟨hnow, body, hbefore, h⟩ := h
  refine .inr ⟨rfl, body, Place.before_behind hbefore hafter, ?_⟩
  · have hstep : (Stage.expression bracket now.1 now.2
        (body.all Text.isBlank)).step d p.offset ')' = _ :=
      expressionStep_eq hnow
    rw [if_pos hnest] at hstep
    split
    · next hblank =>
        rw [if_pos hblank] at hstep
        exact h.refused hafter hstep
    · next hblank =>
        rw [if_neg hblank] at hstep
        exact h.step hafter hstep

end InExpression

theorem ends_expressionTurn {now : Nat × Option Char}
    (h : InExpression d verdict bracket s now p) :
    Ends (expressionTurn text now) p
      (.turn (InExpression d verdict bracket s) p.offset
        (.agree verdict (BodyRead d verdict bracket s))) := by
  obtain ⟨depth, quote⟩ := now
  have hdepth : depth ≠ 0 := h.1
  refine Ends.peek (fun hafter => ?_) fun c cs hafter => ?_
  · obtain ⟨-, body, -, h⟩ := h
    exact ends_pure (.inl ⟨hdepth, h.finish hafter⟩)
  refine Ends.bind (ends_advance [c] hafter rfl ?_)
  have hlt : p.offset < (p.behind [c] hafter).offset :=
    lt_offset_behind hafter (by simp)
  cases quote with
  | some q => exact ends_pure ⟨h.step hafter rfl hdepth, hlt⟩
  | none =>
      refine Ends.ite (fun hquote => ?_) fun hquote => ?_
      · exact ends_pure ⟨h.step hafter (if_pos hquote) hdepth, hlt⟩
      refine Ends.ite (fun hopen => ?_) fun hopen => ?_
      · have hnest : nest (depth, none) c = (depth + 1, none) := by
          rw [nest, if_neg hquote, if_pos hopen]
        exact ends_pure ⟨h.step hafter hnest (Nat.succ_ne_zero depth), hlt⟩
      refine Ends.ite (fun hclose => ?_) fun hclose => ?_
      · have hnest : nest (depth, none) c = (depth - 1, none) := by
          rw [nest, if_neg hquote, if_neg hopen, if_pos hclose]
        refine Ends.bind (ends_lower hdepth ?_)
        refine Ends.ite (fun hless => ?_) fun hless => ?_
        · subst hclose
          exact ends_pure (h.close hafter (by rw [hnest]; exact hless))
        · exact ends_pure ⟨h.step hafter hnest hless, hlt⟩
      · have hnest : nest (depth, none) c = (depth, none) := by
          rw [nest, if_neg hquote, if_neg hopen, if_neg hclose]
        exact ends_pure ⟨h.step hafter hnest hdepth, hlt⟩

/-- Nothing is left of a text between its blank ends just if all of it is
blank. -/
theorem isEmpty_trim (cs : List Char) :
    (Text.trim cs).isEmpty = cs.all Text.isBlank := by
  rw [Bool.eq_iff_iff, List.isEmpty_iff, Text.trim, List.reverse_eq_nil_iff,
    List.dropWhile_eq_nil_iff, List.all_eq_true]
  simp only [List.mem_reverse]
  constructor
  · intro h
    have hnil : cs.dropWhile Text.isBlank = [] := by
      by_contra hne
      have hhead := List.head_dropWhile_not Text.isBlank hne
      rw [h _ (List.head_mem hne)] at hhead
      cases hhead
    exact List.dropWhile_eq_nil_iff.mp hnil
  · exact fun h c hc => h c (List.dropWhile_sublist _ |>.subset hc)

theorem ends_expression (hafter : p.after = '(' :: cs)
    (h : ReadsOn d verdict (.expression bracket 1 none true)
      (p.behind ['('] hafter)) :
    Ends (expression text bracket) p
      (.agree verdict fun _ => Passed d verdict p.offset) := by
  refine Ends.bind (ends_advance ['('] hafter rfl (Ends.bind (ends_offset ?_)))
  have hlt : p.offset < (p.behind ['('] hafter).offset :=
    lt_offset_behind hafter (by simp)
  refine Ends.andThen (ends_loop (fun _ _ hq => ends_expressionTurn hq)
    ⟨Nat.one_ne_zero, [], (List.append_nil _).symm, h⟩)
    (fun _ _ hfault => hfault) ?_
  intro depth q hq
  rcases hq with ⟨hdepth, hopen⟩ | ⟨rfl, body, hbefore, hq⟩
  · exact Ends.ite (fun _ => ends_throw hopen) fun hzero => absurd hdepth hzero
  refine Ends.ite (fun hzero => absurd rfl hzero) fun _ => ?_
  -- The body ends in front of the last parenthesis.
  let stop : Place text :=
    ⟨(p.behind ['('] hafter).before ++ body, ')' :: q.after, by
      have hq := q.append_eq
      rw [hbefore] at hq
      simpa using hq⟩
  have hstop : q.offset = stop.offset + 1 := by
    rw [Place.offset, hbefore, ← List.append_assoc, byteLength_append]
    rfl
  have hle : (p.behind ['('] hafter).offset ≤ q.offset :=
    Place.offset_le_of_before hbefore
  refine Ends.bind (ends_offset (Ends.bind (ends_lower (by omega) ?_)))
  rw [hstop, Nat.add_sub_cancel]
  refine Ends.bind (ends_slice (q := stop) rfl ?_)
  refine Ends.ite (fun hblank => ?_) fun hblank => ?_
  · rw [isEmpty_trim] at hblank
    rw [if_pos hblank] at hq
    exact ends_throw hq
  rw [isEmpty_trim] at hblank
  rw [if_neg hblank] at hq
  refine Ends.peekFor (fun rest hrest => ?_) fun hmissing => ?_
  · refine ends_advance [']'] hrest rfl ⟨hq.step hrest rfl, ?_⟩
    exact hlt.trans_le (hle.trans (lt_offset_behind hrest (by simp)).le)
  · exact ends_throw (hq.missing hmissing rfl fun _ hx => if_neg hx)

/-! ## Index brackets -/

theorem takeWhile_close {body rest : List Char} (hbody : ']' ∉ body) :
    (body ++ ']' :: rest).takeWhile (· ≠ ']') = body := by
  rw [List.takeWhile_append_of_pos]
  · simp
  · intro c hc
    rw [decide_eq_true_eq]
    rintro rfl
    exact hbody hc

theorem ends_indexBody (h : ReadsOn d verdict (.index bracket []) p) :
    Ends (indexBody d text bracket) p
      (.agree verdict fun _ => Passed d verdict p.offset) := by
  refine Ends.bind (ends_offset (Ends.bind (ends_rest ?_)))
  refine Ends.ite (fun hclose => ?_) fun hclose => ?_
  · obtain ⟨body, rest, hafter, hbody⟩ := List.eq_append_cons_of_mem hclose
    have hafter' : p.after = (body ++ [']']) ++ rest := by
      rw [hafter, List.append_assoc]
      rfl
    have hstop : (p.behind body hafter).offset =
        p.offset + byteLength body := p.offset_behind hafter
    have hlast : (p.behind (body ++ [']']) hafter').offset =
        p.offset + byteLength body + 1 := by
      rw [p.offset_behind, byteLength_append, Nat.add_assoc]
      rfl
    have hread := h
    rw [ReadsOn, hafter, outcome_index hbody, List.nil_append] at hread
    simp only [hafter, takeWhile_close hbody, ← hstop]
    refine Ends.bind (ends_slice (q := p.behind body hafter) rfl ?_)
    refine Ends.bind (ends_moveTo (by rw [hlast, hstop]) ?_)
    refine Ends.bind (ends_ofExcept ?_)
    cases hjudged : Stage.closeIndex d bracket body with
    | error fault =>
        rw [hjudged] at hread
        exact hread.symm
    | ok stage =>
        obtain ⟨rfl, -⟩ := closeIndex_iff.mp hjudged
        rw [hjudged] at hread
        refine ends_pure ⟨?_, lt_offset_behind hafter' (by simp)⟩
        rw [ReadsOn, hlast]
        exact hread
  · exact ends_throw (h.symm.trans (outcome_index_open hclose))

/-! ## Segments -/

/-- A bracket that opens in no other way holds an index, whose first character
is read like those behind it. -/
theorem ReadsOn.index (h : ReadsOn d verdict (.bracket bracket) p)
    (hafter : p.after = c :: cs) (hclose : c ≠ ']')
    (hquote : ¬ (c = '\'' ∨ c = '"')) (hfilter : c ≠ '?') (hscript : c ≠ '(') :
    ReadsOn d verdict (.index bracket []) p := by
  have hindex : (Stage.index bracket []).step d p.offset c =
      .ok (.index bracket [c]) := if_neg hclose
  have hbracket : (Stage.bracket bracket).step d p.offset c =
      .ok (.index bracket [c]) := by
    rw [Stage.step, Stage.openBracket, if_neg hclose, if_neg hquote,
      if_neg hfilter, if_neg hscript]
    rfl
  rw [← h, ReadsOn, hafter, outcome_cons_of_step hindex,
    outcome_cons_of_step hbracket]

theorem ends_bracketSegment (h : ReadsOn d verdict .between p)
    (hafter : p.after = '[' :: cs) :
    Ends (bracketSegment d text) p
      (.agree verdict fun _ => Passed d verdict p.offset) := by
  have hopen : ReadsOn d verdict (.bracket p.offset)
      (p.behind ['['] hafter) := h.step hafter rfl
  have hlt : p.offset < (p.behind ['['] hafter).offset :=
    lt_offset_behind hafter (by simp)
  refine Ends.bind (ends_offset (Ends.bind (ends_advance ['['] hafter rfl ?_)))
  refine Ends.peek (fun hend => ?_) fun c cs hnext => ?_
  · exact ends_throw (hopen.finish hend)
  refine Ends.ite (fun hempty => ?_) fun hempty => ?_
  · subst hempty
    exact ends_throw (hopen.refused hnext rfl)
  refine Ends.ite (fun hquote => ?_) fun hquote => ?_
  · refine ends_union hquote ⟨cs, hnext, hopen.step hnext ?_⟩ hlt
    rw [Stage.step, Stage.openBracket, if_neg hempty, if_pos hquote]
    rfl
  refine Ends.ite (fun hfilter => ?_) fun hfilter => ?_
  · subst hfilter
    refine Ends.bind (ends_admission ?_ ?_)
    · rintro rfl
      have hquestion := hopen.step hnext rfl
      have hfront : p.offset <
          ((p.behind ['['] hafter).behind ['?'] hnext).offset :=
        hlt.trans (lt_offset_behind hnext (by simp))
      refine Ends.bind (ends_advance ['?'] hnext rfl ?_)
      refine Ends.peekFor (fun rest hparen => ?_) fun hmissing => ?_
      · exact (ends_expression hparen (hquestion.step hparen rfl)).passed
          hfront.le
      · exact ends_throw
          (hquestion.missing hmissing rfl fun _ hx => if_neg hx)
    · rintro rfl
      exact hopen.refused hnext rfl
  refine Ends.ite (fun hscript => ?_) fun hscript => ?_
  · subst hscript
    refine Ends.bind (ends_admission ?_ ?_)
    · rintro rfl
      exact (ends_expression hnext (hopen.step hnext rfl)).passed hlt.le
    · rintro rfl
      exact hopen.refused hnext rfl
  · exact (ends_indexBody
      (hopen.index hnext hempty hquote hfilter hscript)).passed hlt.le

theorem ends_segmentTurn (h : ReadsOn d verdict .between p) :
    Ends (segmentTurn d text ()) p
      (.turn (fun _ => ReadsOn d verdict .between) p.offset
        (.agree verdict fun _ _ => verdict = .ok ())) := by
  refine Ends.peek (fun hafter => ?_) fun c cs hafter => ?_
  · exact ends_pure (h.finish hafter)
  refine Ends.ite (fun hdot => ?_) fun hdot => ?_
  · subst hdot
    exact (ends_dotSegment h hafter).andThen (fun _ _ hfault => hfault)
      fun _ _ hq => ends_pure hq
  refine Ends.ite (fun hopen => ?_) fun hopen => ?_
  · subst hopen
    exact (ends_bracketSegment h hafter).andThen (fun _ _ hfault => hfault)
      fun _ _ hq => ends_pure hq
  · refine Ends.bind (ends_offset (ends_throw (h.refused hafter ?_)))
    rw [Stage.step, if_neg hdot, if_neg hopen]

/-! ## Paths -/

/-- The place in front of a text. -/
def Place.first (text : List Char) : Place text where
  before := []
  after := text
  append_eq := rfl

theorem ends_readPath (d : Dialect) (text : List Char) :
    Ends (readPath d text) (Place.first text)
      (.agree (checkChars d text) fun _ _ => checkChars d text = .ok ()) := by
  refine Ends.ite (fun hempty => ?_) fun hempty => ?_
  · rw [List.isEmpty_iff] at hempty
    subst hempty
    exact ends_throw rfl
  refine Ends.peekFor (fun cs hroot => ?_) fun hroot => ?_
  · obtain rfl : text = '$' :: cs := hroot
    refine Ends.bind (ends_advance ['$'] rfl rfl ?_)
    exact ends_loop (fun _ _ hq => ends_segmentTurn hq) rfl
  · refine ends_throw ?_
    rcases text with _ | ⟨c, cs⟩
    · exact absurd rfl hempty
    · exact if_neg fun hc => hroot (congrArg some hc)

/-- On every text the reader comes to an end and finds what the check finds.
On its way the cursor is never but between two characters of the text or at one
of its ends, no part of the text is asked for whose ends are not at such places
or not in order, nothing is taken away from a count of zero, and a loop is gone
round once more only with the cursor moved on. -/
theorem readPath_ends_safely (d : Dialect) (path : String) :
    ∃ c : Cursor,
      (readPath d path.toList).runAt {} = some (check d path, c) ∧
        AtBorder path c.offset ∧ ∀ a ∈ c.acts, a.Safe path := by
  obtain ⟨result, q, done, hrun, hsafe, hresult⟩ :=
    ends_readPath d path.toList []
  rw [String.ofList_toList] at hsafe
  have hborder := q.atBorder
  rw [String.ofList_toList] at hborder
  obtain rfl : result = check d path := by
    cases result with
    | ok _ => exact hresult.symm
    | error fault => exact hresult.symm
  exact ⟨⟨q.offset, done⟩, hrun, hborder, hsafe⟩

end Path

end Workflow
