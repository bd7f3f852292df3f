import Workflow.Proofs.Path.Acceptance

/-!
# What sets the two dialects apart

Both dialects have one reader. All that it ever asks of the dialect is whether a
construct is admitted, and it goes on in the same way if it is. So two readings
of one text run in lockstep until the reference reading is refused, and a
refusal is the only thing that they do not share (`check_refines`).

Which refusal it is takes more than lockstep. The reader refuses in the middle
of a segment, at the second dot, at the comma between two names or at the
closing bracket of a slice, and what it has seen by then may be no more than a
part. For a text that is a general path the segments say where the refusal has
to be: at the first one that does not select one place, and at its start
wherever in it the reader noticed (`outcome_of_not_plain`).
-/

namespace Workflow

namespace Path

/-! ## Two readings in lockstep -/

/-- The second of two results is no refusal, and the first is the same or a
refusal. -/
structure Refines {α : Type} (r g : Except Fault α) : Prop where
  general : ∀ position construct, g ≠ .error (.notAllowed position construct)
  reference : r = g ∨
    ∃ position construct, r = .error (.notAllowed position construct)

section Refines

variable {α β : Type} {r g : Except Fault α}

theorem refines_ok (a : α) : Refines (.ok a) (.ok a) where
  general := by intro _ _ h; cases h
  reference := .inl rfl

theorem refines_error {fault : Fault}
    (h : ∀ position construct, fault ≠ .notAllowed position construct) :
    Refines (α := α) (.error fault) (.error fault) where
  general := by
    intro position construct heq
    injection heq with heq
    exact h position construct heq
  reference := .inl rfl

theorem refines_admission (position : Nat) (construct : Construct) :
    Refines (Dialect.allow .reference position construct)
      (Dialect.allow .general position construct) where
  general := by intro _ _ h; cases h
  reference := .inr ⟨position, construct, rfl⟩

theorem Refines.bind {f f' : α → Except Fault β} (h : Refines r g)
    (hf : ∀ a, Refines (f a) (f' a)) : Refines (r >>= f) (g >>= f') := by
  obtain ⟨hgeneral, rfl | ⟨position, construct, rfl⟩⟩ := h
  · cases r with
    | ok a => exact hf a
    | error fault =>
        exact refines_error fun p c heq => hgeneral p c (by rw [heq])
  · refine ⟨?_, .inr ⟨position, construct, rfl⟩⟩
    cases g with
    | ok a => exact (hf a).general
    | error fault =>
        intro p c heq
        injection heq with heq
        exact hgeneral p c (by rw [heq])

end Refines

variable {d : Dialect} {position start : Nat} {c q : Char} {cs : List Char}

theorem startName_refines :
    Refines (Stage.startName .reference start position c)
      (Stage.startName .general start position c) := by
  rw [Stage.startName, Stage.startName]
  split
  · exact (refines_admission position .wildcard).bind fun _ => refines_ok _
  split
  · exact refines_error (by simp)
  split
  · exact refines_error (by simp)
  · exact refines_ok _

theorem openBracket_refines :
    Refines (Stage.openBracket .reference start c)
      (Stage.openBracket .general start c) := by
  rw [Stage.openBracket, Stage.openBracket]
  split
  · exact refines_error (by simp)
  split
  · exact refines_ok _
  split
  · exact (refines_admission start .filterExpression).bind fun _ => refines_ok _
  split
  · exact (refines_admission start .scriptExpression).bind fun _ => refines_ok _
  · exact refines_ok _

/-- An expression is open in a general path only, but its steps do not ask. -/
theorem expressionStep_refines {depth : Nat} {open? : Option Char}
    {blank : Bool} :
    Refines (Stage.expressionStep start depth open? blank c)
      (Stage.expressionStep start depth open? blank c) := by
  rw [Stage.expressionStep.eq_def]
  simp only []
  split
  · exact refines_ok _
  split
  · exact refines_ok _
  split
  · exact refines_ok _
  split
  · split
    · exact refines_ok _
    split
    · exact refines_error (by simp)
    · exact refines_ok _
  · exact refines_ok _

theorem closeIndex_refines {body : List Char} :
    Refines (Stage.closeIndex .reference start body)
      (Stage.closeIndex .general start body) := by
  rw [Stage.closeIndex, Stage.closeIndex]
  split
  · exact (refines_admission start .wildcard).bind fun _ => refines_ok _
  split
  · exact refines_ok _
  split
  · refine (refines_admission start .slice).bind fun _ => ?_
    simp only []
    split
    · exact refines_ok _
    · exact refines_error (by simp)
  split
  · refine (refines_admission start .union).bind fun _ => ?_
    split
    · exact refines_ok _
    · exact refines_error (by simp)
  split
  · exact (refines_admission start .negativeIndex).bind fun _ => refines_ok _
  · exact refines_error (by simp)

theorem step_refines (stage : Stage) :
    Refines (stage.step .reference position c)
      (stage.step .general position c) := by
  cases stage with
  | between =>
      rw [Stage.step, Stage.step]
      split
      · exact refines_ok _
      split
      · exact refines_ok _
      · exact refines_error (by simp)
  | dot start =>
      rw [Stage.step, Stage.step]
      split
      · exact (refines_admission start .deepScan).bind fun _ => refines_ok _
      · exact startName_refines
  | deepDot start => exact startName_refines
  | name start =>
      rw [Stage.step, Stage.step]
      split
      · exact refines_ok _
      split
      · exact refines_ok _
      split
      · exact refines_error (by simp)
      · exact refines_ok _
  | bracket start => exact openBracket_refines
  | quoted start quote isEmpty =>
      rw [Stage.step, Stage.step]
      split
      · split
        · exact refines_error (by simp)
        · exact refines_ok _
      split
      · exact refines_ok _
      · exact refines_ok _
  | escaped start quote => exact refines_ok _
  | closedQuote start quote =>
      rw [Stage.step, Stage.step]
      split
      · exact refines_ok _
      split
      · exact (refines_admission start .union).bind fun _ => refines_ok _
      · exact refines_error (by simp)
  | comma start quote =>
      rw [Stage.step, Stage.step]
      split
      · exact refines_ok _
      · exact refines_error (by simp)
  | question start =>
      rw [Stage.step, Stage.step]
      split
      · exact refines_ok _
      · exact refines_error (by simp)
  | expression start depth open? blank => exact expressionStep_refines
  | closedExpression start =>
      rw [Stage.step, Stage.step]
      split
      · exact refines_ok _
      · exact refines_error (by simp)
  | index start body =>
      rw [Stage.step, Stage.step]
      split
      · exact closeIndex_refines
      · exact refines_ok _

theorem finish_refines (stage : Stage) :
    Refines stage.finish stage.finish := by
  cases stage with
  | between | name _ => exact refines_ok _
  | dot _ | deepDot _ | bracket _ | quoted _ _ _ | escaped _ _
  | closedQuote _ _ | comma _ _ | question _ | expression _ _ _ _
  | closedExpression _ | index _ _ => exact refines_error (by simp)

theorem scan_refines (stage : Stage) (cs : List Char) :
    Refines (scan .reference position stage cs)
      (scan .general position stage cs) := by
  induction cs generalizing position stage with
  | nil => exact refines_ok stage
  | cons c cs ih => exact (step_refines stage).bind fun next => ih next

theorem check_refines (path : String) :
    Refines (check .reference path) (check .general path) := by
  rw [check, check]
  cases path.toList with
  | nil => exact refines_error (by simp)
  | cons c cs =>
      rw [checkChars, checkChars]
      split
      · exact (scan_refines .between cs).bind finish_refines
      · exact refines_error (by simp)

/-! ## What follows a segment -/

theorem exists_text_eq_cons (s : Segment) :
    ∃ c tail, s.text = c :: tail ∧ (c = '.' ∨ c = '[') := by
  cases s with
  | name deep word => cases deep <;> exact ⟨'.', _, rfl, .inl rfl⟩
  | wildcard deep => cases deep <;> exact ⟨'.', _, rfl, .inl rfl⟩
  | quoted _ _ | expression _ _ | all | index _ _ | slice _ | union _ =>
      exact ⟨'[', _, rfl, .inr rfl⟩

/-- Before further segments it makes no difference whether a name has just been
read or a segment that is closed. -/
theorem outcome_name_segments (segments : List Segment) :
    outcome d position (.name start) (segments.flatMap Segment.text) =
      outcome d position .between (segments.flatMap Segment.text) := by
  cases segments with
  | nil => rfl
  | cons s rest =>
      obtain ⟨c, tail, htext, hc⟩ := exists_text_eq_cons s
      have hname : ¬ NameChar c := by
        intro h
        rcases hc with hc | hc
        · exact h.1 hc
        · exact h.2.1 hc
      rw [List.flatMap_cons, htext, List.cons_append, outcome, outcome, scan,
        scan, step_name_of_not_nameChar hname]

theorem outcome_word {word : List Char} (hword : ∀ c ∈ word, NameChar c)
    (rest : List Char) :
    outcome d position (.name start) (word ++ rest) =
      outcome d (position + byteLength word) (.name start) rest := by
  induction word generalizing position with
  | nil => rfl
  | cons c word ih =>
      rw [List.forall_mem_cons] at hword
      rw [List.cons_append, outcome_cons_of_step
        (step_name_of_nameChar hword.1), ih hword.2, byteLength, Nat.add_assoc]

/-- The body of an index bracket is judged at the bracket that closes it. -/
theorem outcome_index {front body : List Char} (hbody : ']' ∉ body)
    (rest : List Char) :
    outcome d position (.index start front) (body ++ ']' :: rest) =
      Stage.closeIndex d start (front ++ body) >>= fun next =>
        outcome d (position + byteLength body + ']'.utf8Size) next rest := by
  induction body generalizing position front with
  | nil =>
      rw [List.nil_append, List.append_nil, outcome, scan, Stage.step,
        if_pos rfl]
      cases Stage.closeIndex d start front <;> rfl
  | cons c body ih =>
      rw [List.mem_cons, not_or] at hbody
      have hstep : (Stage.index start front).step d position c =
          .ok (.index start (front ++ [c])) := by
        rw [Stage.step, if_neg (Ne.symm hbody.1)]
      rw [List.cons_append, outcome_cons_of_step hstep, ih hbody.2]
      simp only [byteLength, List.append_assoc, List.singleton_append,
        Nat.add_assoc]

/-! ## Where a reference path is refused -/

/-- The construct that keeps a segment out of reference paths. -/
def Segment.construct? : Segment → Option Construct
  | .name deep _ => if deep then some .deepScan else none
  | .wildcard deep => some (if deep then .deepScan else .wildcard)
  | .quoted _ bodies => if bodies.length = 1 then none else some .union
  | .expression filter _ =>
    some (if filter then .filterExpression else .scriptExpression)
  | .all => some .wildcard
  | .index negative _ => if negative then some .negativeIndex else none
  | .slice _ => some .slice
  | .union _ => some .union

/-- How far behind its start a segment is refused: `.*` at the star, and all
others at the start. -/
def Segment.refusalOffset : Segment → Nat
  | .wildcard false => 1
  | _ => 0

theorem plain_iff_construct? {s : Segment} :
    s.Plain ↔ s.construct? = none := by
  cases s with
  | name deep word => cases deep <;> simp [Segment.Plain, Segment.construct?]
  | wildcard deep => cases deep <;> simp [Segment.Plain, Segment.construct?]
  | index negative digits =>
      cases negative <;> simp [Segment.Plain, Segment.construct?]
  | quoted q bodies => simp [Segment.Plain, Segment.construct?]
  | expression _ _ | all | slice _ | union _ =>
      simp [Segment.Plain, Segment.construct?]

/-- A segment in an index bracket is read up to that bracket and judged
there. -/
theorem outcome_indexed {s : Segment} {body : List Char}
    (hbody : s.body? = some body) (hwf : s.WellFormed) (rest : List Char) :
    outcome d position .between (s.text ++ rest) =
      Stage.closeIndex d position body >>= fun next =>
        outcome d (position + byteLength s.text) next rest := by
  have hchar := indexChar_of_body? hbody hwf
  rw [text_of_body? hbody]
  cases body with
  | nil => exact absurd rfl (ne_nil_of_body? hbody hwf)
  | cons c body =>
      rw [List.forall_mem_cons] at hchar
      have hclose : ']' ∉ body := fun hmem => (hchar.2 ']' hmem).ne_close rfl
      have htext : bracketed (c :: body) ++ rest =
          '[' :: c :: (body ++ ']' :: rest) := by
        simp [bracketed]
      rw [htext, outcome_cons_of_step rfl,
        outcome_cons_of_step hchar.1.step_bracket, outcome_index hclose]
      simp [bracketed, byteLength, byteLength_append, Nat.add_assoc]

/-- A bracket that opens with a quote is read up to the end of its first
name. -/
theorem outcome_quoted (hquote : q = '\'' ∨ q = '"') {body : List Char}
    (hne : body ≠ []) (hbody : QuotedBody q body) (rest : List Char) :
    outcome d position .between ('[' :: (quote q body ++ rest)) =
      outcome d (position + '['.utf8Size + byteLength (quote q body))
        (.closedQuote position q) rest := by
  have hescape : q ≠ '\\' := by rcases hquote with rfl | rfl <;> decide
  have hstep : (Stage.bracket position).step d (position + '['.utf8Size) q =
      .ok (.quoted position q true) := by
    rcases hquote with rfl | rfl <;> rfl
  rw [quote_append, outcome_cons_of_step rfl, outcome_cons_of_step hstep,
    outcome_body hescape hbody fun _ => hne]
  simp only [quote, byteLength, Nat.add_assoc]

/-- A segment that selects one place is passed over, in either dialect. -/
theorem outcome_of_plain {s : Segment} (hwf : s.WellFormed) (hplain : s.Plain)
    (rest : List Segment) :
    outcome d position .between (s.text ++ rest.flatMap Segment.text) =
      outcome d (position + byteLength s.text) .between
        (rest.flatMap Segment.text) := by
  cases s with
  | name deep word =>
      obtain rfl : deep = false := hplain
      obtain ⟨hne, hstar, hchars⟩ := hwf
      cases word with
      | nil => exact absurd rfl hne
      | cons c word =>
          rw [List.forall_mem_cons] at hchars
          have hstep : (Stage.dot position).step d
              (position + '.'.utf8Size) c = .ok (.name position) := by
            rw [Stage.step, if_neg hchars.1.1,
              startName_of_nameChar (by simpa using hstar) hchars.1]
          change outcome d position .between ('.' :: c :: (word ++ _)) = _
          rw [outcome_cons_of_step rfl, outcome_cons_of_step hstep,
            outcome_word hchars.2, outcome_name_segments]
          simp [Segment.text, dots, byteLength, Nat.add_assoc]
  | quoted q bodies =>
      obtain ⟨hquote, -, hbodies⟩ := hwf
      obtain ⟨body, rfl⟩ := List.length_eq_one_iff.mp hplain
      obtain ⟨hne, hbody⟩ := hbodies body (by simp)
      have htext : (Segment.quoted q [body]).text ++
          rest.flatMap Segment.text =
          '[' :: (quote q body ++ ']' :: rest.flatMap Segment.text) := by
        simp [Segment.text, bracketed]
      rw [htext, outcome_quoted hquote hne hbody, outcome_cons_of_step rfl]
      simp [Segment.text, bracketed, byteLength, byteLength_append,
        Nat.add_assoc]
  | index negative digits =>
      rw [outcome_indexed rfl hwf, closeIndex_index hwf fun _ => hplain]
      rfl
  | wildcard _ | expression _ _ | all | slice _ | union _ =>
      exact False.elim hplain

theorem closeIndex_refused {s : Segment} {body : List Char}
    (hbody : s.body? = some body) (hwf : s.WellFormed) {construct : Construct}
    (h : s.construct? = some construct) :
    Stage.closeIndex .reference start body =
      .error (.notAllowed start construct) := by
  cases s with
  | all =>
      injection hbody with hbody
      injection h with h
      subst hbody h
      rfl
  | index negative digits =>
      cases negative with
      | false => cases h
      | true =>
          injection hbody with hbody
          injection h with h
          subst hbody h
          change Stage.closeIndex .reference start ('-' :: digits) = _
          rw [closeIndex_minus hwf]
          rfl
  | slice bounds =>
      injection hbody with hbody
      injection h with h
      subst hbody h
      have hlength : 2 ≤ bounds.length := by
        rcases hwf.1 with hlength | hlength <;> omega
      rw [closeIndex_colon (sep_mem_intercalate ':' hlength)]
      rfl
  | union items =>
      injection hbody with hbody
      injection h with h
      subst hbody h
      rw [closeIndex_comma (colon_not_mem_items hwf)
        (sep_mem_intercalate ',' hwf.1)]
      rfl
  | name _ _ | wildcard _ | quoted _ _ | expression _ _ => cases hbody

/-- A segment that does not select one place ends the reference reading,
whatever follows it. -/
theorem outcome_of_not_plain {s : Segment} (hwf : s.WellFormed)
    {construct : Construct} (h : s.construct? = some construct)
    (rest : List Char) :
    outcome .reference position .between (s.text ++ rest) =
      .error (.notAllowed (position + s.refusalOffset) construct) := by
  have hindexed : ∀ body, s.body? = some body → s.refusalOffset = 0 →
      outcome .reference position .between (s.text ++ rest) =
        .error (.notAllowed (position + s.refusalOffset) construct) := by
    intro body hbody hoffset
    rw [outcome_indexed hbody hwf, closeIndex_refused hbody hwf h, hoffset]
    rfl
  cases s with
  | name deep word =>
      cases deep with
      | false => cases h
      | true => injection h with h; subst h; rfl
  | wildcard deep =>
      cases deep with
      | false => injection h with h; subst h; rfl
      | true => injection h with h; subst h; rfl
  | quoted q bodies =>
      obtain ⟨hquote, hnil, hbodies⟩ := hwf
      rcases bodies with _ | ⟨body, _ | ⟨next, bodies⟩⟩
      · exact absurd rfl hnil
      · cases h
      · obtain ⟨hne, hbody⟩ := hbodies body (by simp)
        injection h with h
        subst h
        have htext : (Segment.quoted q (body :: next :: bodies)).text ++ rest =
            '[' :: (quote q body ++
              ',' :: (quotes q (next :: bodies) ++ ']' :: rest)) := by
          change bracketed (quotes q (body :: next :: bodies)) ++ rest = _
          rw [quotes_cons (by simp)]
          simp [bracketed]
        rw [htext, outcome_quoted hquote hne hbody]
        rfl
  | expression filter body =>
      cases filter with
      | true => injection h with h; subst h; rfl
      | false => injection h with h; subst h; rfl
  | all => exact hindexed _ rfl rfl
  | index _ _ => exact hindexed _ rfl rfl
  | slice _ => exact hindexed _ rfl rfl
  | union _ => exact hindexed _ rfl rfl

theorem outcome_of_all_plain {segments : List Segment}
    (hwf : ∀ s ∈ segments, s.WellFormed) (hplain : ∀ s ∈ segments, s.Plain)
    (rest : List Segment) :
    outcome d position .between
        (segments.flatMap Segment.text ++ rest.flatMap Segment.text) =
      outcome d (position + byteLength (segments.flatMap Segment.text))
        .between (rest.flatMap Segment.text) := by
  induction segments generalizing position with
  | nil => rfl
  | cons s segments ih =>
      rw [List.forall_mem_cons] at hwf hplain
      have hrest : outcome d position .between (s.text ++ _) = _ :=
        outcome_of_plain hwf.1 hplain.1 (segments ++ rest)
      rw [List.flatMap_append] at hrest
      rw [List.flatMap_cons, List.append_assoc, hrest, ih hwf.2 hplain.2,
        byteLength_append, Nat.add_assoc]

theorem forall_plain_or_exists_first (segments : List Segment) :
    (∀ s ∈ segments, s.Plain) ∨
      ∃ before s after construct, segments = before ++ s :: after ∧
        (∀ t ∈ before, t.Plain) ∧ s.construct? = some construct := by
  cases hfind : segments.find? fun s => s.construct?.isSome with
  | none =>
      refine .inl fun s hs => plain_iff_construct?.mpr ?_
      simpa using List.find?_eq_none.mp hfind s hs
  | some s =>
      obtain ⟨hs, before, after, hsplit, hbefore⟩ :=
        List.find?_eq_some_iff_append.mp hfind
      obtain ⟨construct, hconstruct⟩ := Option.isSome_iff_exists.mp hs
      refine .inr ⟨before, s, after, construct, hsplit, fun t ht => ?_,
        hconstruct⟩
      exact plain_iff_construct?.mpr (by simpa using hbefore t ht)

/-- The texts of the segments make up the path behind its root. -/
def Spells (segments : List Segment) (path : String) : Prop :=
  (∀ s ∈ segments, s.WellFormed) ∧
    path.toList = '$' :: segments.flatMap Segment.text

theorem exists_spells_of_check {path : String}
    (h : check .general path = .ok ()) : ∃ segments, Spells segments path := by
  obtain ⟨segments, hall, htext⟩ := check_eq_ok_iff.mp h
  exact ⟨segments, fun s hs => (hall s hs).1, htext⟩

theorem check_of_spells {segments : List Segment} {path : String}
    (h : Spells segments path) :
    check d path = outcome d 1 .between (segments.flatMap Segment.text) := by
  rw [check, h.2, checkChars, if_pos rfl]
  rfl

/-- The two dialects differ by refusals alone, and general reading refuses
nothing. A general path, however it is taken apart into segments, is a
reference path if all of them select one place; else it is refused for the
first one that does not, at the start of that segment, or at the star of
`.*`. -/
theorem reference_verdict (path : String) :
    (∀ position construct,
      check .general path ≠ .error (.notAllowed position construct)) ∧
    (check .reference path = check .general path ∨
      ∃ position construct,
        check .reference path = .error (.notAllowed position construct)) ∧
    (check .general path = .ok () →
      (∃ segments, Spells segments path) ∧
      ∀ segments, Spells segments path →
        (check .reference path = .ok () ∧ ∀ s ∈ segments, s.Plain) ∨
        ∃ before s after construct, segments = before ++ s :: after ∧
          (∀ t ∈ before, t.Plain) ∧ ¬ s.Plain ∧
          s.construct? = some construct ∧
          check .reference path = .error (.notAllowed
            (byteLength ('$' :: before.flatMap Segment.text) +
              s.refusalOffset) construct)) := by
  have hrefines := check_refines path
  refine ⟨hrefines.general, hrefines.reference, fun hgeneral =>
    ⟨exists_spells_of_check hgeneral, fun segments hspells => ?_⟩⟩
  have hwf := hspells.1
  rw [check_of_spells hspells]
  rcases forall_plain_or_exists_first segments with
    hplain | ⟨before, s, after, construct, rfl, hbefore, hconstruct⟩
  · have hall : outcome .reference 1 .between _ = _ :=
      outcome_of_all_plain hwf hplain []
    rw [List.flatMap_nil, List.append_nil] at hall
    exact .inl ⟨hall, hplain⟩
  · rw [List.forall_mem_append, List.forall_mem_cons] at hwf
    have hnot : ¬ s.Plain := by
      rw [plain_iff_construct?, hconstruct]
      simp
    refine .inr ⟨before, s, after, construct, rfl, hbefore, hnot, hconstruct,
      ?_⟩
    rw [List.flatMap_append, outcome_of_all_plain hwf.1 hbefore,
      List.flatMap_cons, outcome_of_not_plain hwf.2.1 hconstruct]
    rfl

end Path

end Workflow
