import Workflow.Proofs.Path.Dialects

/-!
# What the position of a fault says

The reader keeps positions by adding up the bytes of the characters it passes,
and most faults are reported where the segment began, which the reader has long
left behind. So a position is an account of two things: that the sum is the
place of a character, and that what lies in front of it is a path on its own.

A step goes on with the segment that is open, ends it, opens one at the character
it takes or meets a fault (`Move`). By induction over what has been read, an open
segment begins behind a text that is accepted (`Leads.openSince`), and every
fault but an unexpected character is charged to the open segment
(`liesAt_of_blames`). The exception is `.*` in a reference path, which is refused
at the star, one character into its segment.
-/

namespace Workflow

namespace Path

theorem byteLength_eq_utf8ByteSize (cs : List Char) :
    byteLength cs = (String.ofList cs).utf8ByteSize := by
  induction cs with
  | nil => rfl
  | cons c cs ih =>
      have hcons : String.ofList (c :: cs) =
          String.singleton c ++ String.ofList cs := by
        rw [String.singleton_eq_ofList, ← String.ofList_append]
        rfl
      rw [byteLength, ih, hcons, String.utf8ByteSize_append,
        String.utf8ByteSize_singleton]

theorem check_ofList (d : Dialect) (cs : List Char) :
    check d (String.ofList cs) = checkChars d cs := by
  rw [check, String.toList_ofList]

/-! ## Runs of the reader -/

/-- Reading a text from its root leads to a stage. -/
inductive Leads (d : Dialect) : List Char → Stage → Prop
  | root : Leads d ['$'] .between
  | next {read : List Char} {stage next : Stage} {c : Char} :
      Leads d read stage → stage.step d (byteLength read) c = .ok next →
        Leads d (read ++ [c]) next

variable {d : Dialect} {read : List Char} {stage next : Stage} {c mark : Char}
  {position start : Nat} {fault : Fault}

theorem byteLength_concat (cs : List Char) (c : Char) :
    byteLength (cs ++ [c]) = byteLength cs + c.utf8Size := by
  rw [byteLength_append, byteLength, byteLength, Nat.add_zero]

theorem Leads.ne_nil (h : Leads d read stage) : read ≠ [] := by
  cases h <;> simp

/-- What the text comes to is what the rest comes to from the stage. -/
theorem Leads.checkChars_append (h : Leads d read stage) (rest : List Char) :
    checkChars d (read ++ rest) =
      outcome d (byteLength read) stage rest := by
  induction h generalizing rest with
  | root => rfl
  | next h hstep ih =>
      rw [List.append_assoc, List.singleton_append, ih,
        outcome_cons_of_step hstep, byteLength_concat]

theorem Leads.checkChars_eq (h : Leads d read stage) :
    checkChars d read = stage.finish := by
  have hcheck := h.checkChars_append []
  rwa [List.append_nil] at hcheck

/-- The text is read to its end, or some step meets a fault. -/
theorem Leads.leads_or_fails (h : Leads d read stage) (rest : List Char) :
    (∃ last, Leads d (read ++ rest) last) ∨
      ∃ before c after last fault, read ++ rest = before ++ c :: after ∧
        Leads d before last ∧
        last.step d (byteLength before) c = .error fault := by
  induction rest generalizing read stage with
  | nil =>
      rw [List.append_nil]
      exact .inl ⟨stage, h⟩
  | cons c rest ih =>
      cases hstep : stage.step d (byteLength read) c with
      | error fault => exact .inr ⟨read, c, rest, stage, fault, rfl, h, hstep⟩
      | ok next =>
          rw [← List.singleton_append, ← List.append_assoc]
          exact ih (h.next hstep)

theorem Leads.checkChars_of_step_error (h : Leads d read stage)
    (hstep : stage.step d (byteLength read) c = .error fault)
    (rest : List Char) : checkChars d (read ++ c :: rest) = .error fault := by
  rw [h.checkChars_append, outcome_cons_of_error hstep]

/-- A fault comes from the end of the text or from the step that meets it. -/
theorem Leads.exists_of_error (h : Leads d read stage) {rest : List Char}
    (herror : checkChars d (read ++ rest) = .error fault) :
    (∃ last, Leads d (read ++ rest) last ∧ last.finish = .error fault) ∨
      ∃ before c after last, read ++ rest = before ++ c :: after ∧
        Leads d before last ∧
        last.step d (byteLength before) c = .error fault := by
  rcases h.leads_or_fails rest with
    ⟨last, hlast⟩ | ⟨before, c, after, last, fault', heq, hlast, hstep⟩
  · exact .inl ⟨last, hlast, hlast.checkChars_eq ▸ herror⟩
  · rw [heq, hlast.checkChars_of_step_error hstep] at herror
    injection herror with herror
    exact .inr ⟨before, c, after, last, heq, hlast, herror ▸ hstep⟩

/-! ## The segment that is open -/

/-- The mark that a segment begins with and where it stands, while the segment
is open. A name may end at any character, so it counts as closed. -/
def Stage.opening? : Stage → Option (Char × Nat)
  | .between | .name _ => none
  | .dot start | .deepDot start => some ('.', start)
  | .bracket start | .quoted start _ _ | .escaped start _
  | .closedQuote start _ | .comma start _ | .question start
  | .expression start _ _ _ | .closedExpression start | .index start _ =>
    some ('[', start)

/-- Where no segment is open, the text may end. -/
theorem finish_eq_ok_iff :
    stage.finish = .ok () ↔ stage.opening? = none := by
  cases stage <;> simp [Stage.finish, Stage.opening?]

/-- The fault is one of the segment that the mark begins at `start`, and is
reported there. -/
def Fault.Blames (mark : Char) (start : Nat) : Fault → Prop
  | .empty | .missingRoot | .unexpectedChar _ _ => False
  | .emptySegment p => p = start
  | .unterminatedBracket p | .invalidBracket p => mark = '[' ∧ p = start
  | .notAllowed p .deepScan => mark = '.' ∧ p = start
  | .notAllowed p _ => mark = '[' ∧ p = start

/-- What can come of a step, as far as the open segment is concerned. -/
inductive Move (d : Dialect) (position : Nat) (c : Char) (stage : Stage) :
    Except Fault Stage → Prop
  | dot : stage.opening? = none → c = '.' →
      Move d position c stage (.ok (.dot position))
  | bracket : stage.opening? = none → c = '[' →
      Move d position c stage (.ok (.bracket position))
  | deepen {start : Nat} : stage = .dot start → d = .general →
      Move d position c stage (.ok (.deepDot start))
  | goOn {start : Nat} {next : Stage} : stage.opening? = some ('[', start) →
      next.opening? = some ('[', start) → Move d position c stage (.ok next)
  | finish {next : Stage} : next.opening? = none →
      Move d position c stage (.ok next)
  | unexpected : Move d position c stage (.error (.unexpectedChar position c))
  | blame {mark : Char} {start : Nat} {fault : Fault} :
      stage.opening? = some (mark, start) → fault.Blames mark start →
      Move d position c stage (.error fault)
  | star {start : Nat} : stage = .dot start ∨ stage = .deepDot start →
      d = .reference → c = '*' →
      Move d position c stage (.error (.notAllowed position .wildcard))

theorem move_allow {construct : Construct} {go : Unit → Except Fault Stage}
    (hopen : stage.opening? = some (mark, start))
    (hblame : (Fault.notAllowed start construct).Blames mark start)
    (h : Move d position c stage (go ())) :
    Move d position c stage (Dialect.allow d start construct >>= go) := by
  cases d with
  | general => exact h
  | reference => exact .blame hopen hblame

theorem startName_move (h : stage = .dot start ∨ stage = .deepDot start) :
    Move d position c stage (Stage.startName d start position c) := by
  have hopen : stage.opening? = some ('.', start) := by
    rcases h with rfl | rfl <;> rfl
  rw [Stage.startName]
  split
  · next hstar =>
      cases d with
      | general => exact .finish rfl
      | reference => exact .star h rfl hstar
  split
  · exact .blame hopen rfl
  split
  · exact .unexpected
  · exact .finish rfl

theorem openBracket_move :
    Move d position c (.bracket start) (Stage.openBracket d start c) := by
  rw [Stage.openBracket]
  split
  · exact .blame rfl rfl
  split
  · exact .goOn rfl rfl
  split
  · exact move_allow rfl ⟨rfl, rfl⟩ (.goOn rfl rfl)
  split
  · exact move_allow rfl ⟨rfl, rfl⟩ (.goOn rfl rfl)
  · exact .goOn rfl rfl

theorem expressionStep_move {depth : Nat} {open? : Option Char} {blank : Bool} :
    Move d position c (.expression start depth open? blank)
      (Stage.expressionStep start depth open? blank c) := by
  rw [Stage.expressionStep.eq_def]
  simp only []
  split
  · exact .goOn rfl rfl
  split
  · exact .goOn rfl rfl
  split
  · exact .goOn rfl rfl
  split
  · split
    · exact .goOn rfl rfl
    split
    · exact .blame rfl ⟨rfl, rfl⟩
    · exact .goOn rfl rfl
  · exact .goOn rfl rfl

theorem closeIndex_move {body : List Char} :
    Move d position c (.index start body) (Stage.closeIndex d start body) := by
  rw [Stage.closeIndex]
  split
  · exact move_allow rfl ⟨rfl, rfl⟩ (.finish rfl)
  split
  · exact .finish rfl
  split
  · refine move_allow rfl ⟨rfl, rfl⟩ ?_
    simp only []
    split
    · exact .finish rfl
    · exact .blame rfl ⟨rfl, rfl⟩
  split
  · refine move_allow rfl ⟨rfl, rfl⟩ ?_
    split
    · exact .finish rfl
    · exact .blame rfl ⟨rfl, rfl⟩
  split
  · exact move_allow rfl ⟨rfl, rfl⟩ (.finish rfl)
  · exact .blame rfl ⟨rfl, rfl⟩

theorem step_move (stage : Stage) :
    Move d position c stage (stage.step d position c) := by
  cases stage with
  | between =>
      rw [Stage.step]
      split
      · next hdot => exact .dot rfl hdot
      split
      · next hopen => exact .bracket rfl hopen
      · exact .unexpected
  | dot start =>
      rw [Stage.step]
      split
      · cases d with
        | general => exact .deepen rfl rfl
        | reference => exact .blame rfl ⟨rfl, rfl⟩
      · exact startName_move (.inl rfl)
  | deepDot start => exact startName_move (.inr rfl)
  | name start =>
      rw [Stage.step]
      split
      · next hdot => exact .dot rfl hdot
      split
      · next hopen => exact .bracket rfl hopen
      split
      · exact .unexpected
      · exact .finish rfl
  | bracket start => exact openBracket_move
  | quoted start quote isEmpty =>
      rw [Stage.step]
      split
      · split
        · exact .blame rfl rfl
        · exact .goOn rfl rfl
      split
      · exact .goOn rfl rfl
      · exact .goOn rfl rfl
  | escaped start quote => exact .goOn rfl rfl
  | closedQuote start quote =>
      rw [Stage.step]
      split
      · exact .finish rfl
      split
      · exact move_allow rfl ⟨rfl, rfl⟩ (.goOn rfl rfl)
      · exact .unexpected
  | comma start quote =>
      rw [Stage.step]
      split
      · exact .goOn rfl rfl
      · exact .blame rfl ⟨rfl, rfl⟩
  | question start =>
      rw [Stage.step]
      split
      · exact .goOn rfl rfl
      · exact .blame rfl ⟨rfl, rfl⟩
  | expression start depth open? blank => exact expressionStep_move
  | closedExpression start =>
      rw [Stage.step]
      split
      · exact .finish rfl
      · exact .blame rfl ⟨rfl, rfl⟩
  | index start body =>
      rw [Stage.step]
      split
      · exact closeIndex_move
      · exact .goOn rfl rfl

theorem of_finish_error (h : stage.finish = .error fault) :
    ∃ mark start, stage.opening? = some (mark, start) ∧
      fault.Blames mark start := by
  cases stage with
  | between | name _ => cases h
  | dot start | deepDot start =>
      injection h with h
      exact ⟨'.', start, rfl, h ▸ rfl⟩
  | bracket start | quoted start _ _ | escaped start _ | closedQuote start _
  | comma start _ | question start | expression start _ _ _
  | closedExpression start | index start _ =>
      injection h with h
      exact ⟨'[', start, rfl, h ▸ ⟨rfl, rfl⟩⟩

/-! ## What lies in front of it -/

/-- A mark stands at `start`, and what lies in front of it is accepted. -/
def OpenSince (d : Dialect) (mark : Char) (start : Nat)
    (read : List Char) : Prop :=
  ∃ before rest, read = before ++ mark :: rest ∧ before ≠ [] ∧
    byteLength before = start ∧ checkChars d before = .ok ()

theorem OpenSince.append (h : OpenSince d mark start read)
    (cs : List Char) : OpenSince d mark start (read ++ cs) := by
  obtain ⟨before, rest, rfl, hbefore⟩ := h
  exact ⟨before, rest ++ cs, by simp, hbefore⟩

theorem Leads.checkChars_eq_ok (h : Leads d read stage)
    (hclosed : stage.opening? = none) : checkChars d read = .ok () :=
  h.checkChars_eq.trans (finish_eq_ok_iff.mpr hclosed)

theorem Leads.openSince_concat (h : Leads d read stage)
    (hclosed : stage.opening? = none) (mark : Char) :
    OpenSince d mark (byteLength read) (read ++ [mark]) :=
  ⟨read, [], rfl, h.ne_nil, rfl, h.checkChars_eq_ok hclosed⟩

theorem move_of_step (h : stage.step d position c = .ok next) :
    Move d position c stage (.ok next) :=
  h ▸ step_move stage

theorem Leads.openSince (h : Leads d read stage)
    (hopen : stage.opening? = some (mark, start)) :
    OpenSince d mark start read := by
  induction h with
  | root => cases hopen
  | @next read stage next c h hstep ih =>
      cases move_of_step hstep with
      | dot hclosed hc =>
          injection hopen with hopen
          injection hopen with hmark hstart
          subst hc hmark hstart
          exact h.openSince_concat hclosed '.'
      | bracket hclosed hc =>
          injection hopen with hopen
          injection hopen with hmark hstart
          subst hc hmark hstart
          exact h.openSince_concat hclosed '['
      | deepen hstage _ =>
          subst hstage
          exact (ih hopen).append [c]
      | goOn hstage hnext =>
          rw [hnext] at hopen
          exact (ih (hstage.trans hopen)).append [c]
      | finish hnext =>
          rw [hnext] at hopen
          cases hopen

/-- Where a single dot has been read, what it follows is accepted. -/
theorem Leads.of_dot (h : Leads d read (.dot start)) :
    ∃ before, read = before ++ ['.'] ∧ before ≠ [] ∧
      checkChars d before = .ok () := by
  cases h with
  | @next read stage _ c h hstep =>
      cases move_of_step hstep with
      | dot hclosed hc =>
          subst hc
          exact ⟨read, rfl, h.ne_nil, h.checkChars_eq_ok hclosed⟩
      | goOn _ hnext => cases hnext
      | finish hnext => cases hnext

/-- A reference path never gets behind the second dot. -/
theorem not_leads_deepDot : ¬ Leads .reference read (.deepDot start) := by
  intro h
  cases h with
  | next h hstep =>
      cases move_of_step hstep with
      | deepen _ hgeneral => cases hgeneral
      | goOn _ hnext => cases hnext
      | finish hnext => cases hnext

/-! ## Where a fault is -/

/-- What a fault says about the text: which character stands at its position,
and that the text in front of it is accepted. At an unexpected character, that
the text is lost from there on, however it continues. -/
def Fault.Fits (d : Dialect) (before : String) (c : Char) : Fault → Prop
  | .empty | .missingRoot => False
  | .emptySegment _ => (c = '.' ∨ c = '[') ∧ check d before = .ok ()
  | .unterminatedBracket _ | .invalidBracket _ =>
    c = '[' ∧ check d before = .ok ()
  | .unexpectedChar position found =>
    c = found ∧ ∀ after, check d (before ++ String.singleton c ++ after) =
      .error (.unexpectedChar position found)
  | .notAllowed _ .deepScan => c = '.' ∧ check d before = .ok ()
  | .notAllowed _ .wildcard =>
    c = '[' ∧ check d before = .ok () ∨
      c = '*' ∧ ∃ shorter, before = shorter ++ "." ∧ check d shorter = .ok ()
  | .notAllowed _ _ => c = '[' ∧ check d before = .ok ()

/-- The character at the byte `k` of the text, which is not its first, is the
one the fault is about. -/
def Fault.LiesAt (d : Dialect) (path : String) (k : Nat)
    (fault : Fault) : Prop :=
  ∃ before c after, path = before ++ String.singleton c ++ after ∧
    before ≠ "" ∧ before.utf8ByteSize = k ∧ fault.Fits d before c

theorem Fault.Blames.position?_eq (h : fault.Blames mark start) :
    fault.position? = some start := by
  cases fault with
  | empty | missingRoot | unexpectedChar _ _ => exact False.elim h
  | emptySegment p => exact congrArg some h
  | unterminatedBracket p | invalidBracket p => exact congrArg some h.2
  | notAllowed p construct => cases construct <;> exact congrArg some h.2

theorem Fault.Blames.fits (h : fault.Blames mark start)
    (hmark : mark = '.' ∨ mark = '[') {before : String}
    (hbefore : check d before = .ok ()) : fault.Fits d before mark := by
  cases fault with
  | empty | missingRoot | unexpectedChar _ _ => exact False.elim h
  | emptySegment p => exact ⟨hmark, hbefore⟩
  | unterminatedBracket p | invalidBracket p => exact ⟨h.1, hbefore⟩
  | notAllowed p construct =>
      cases construct with
      | wildcard => exact .inl ⟨h.1, hbefore⟩
      | deepScan | filterExpression | scriptExpression | union | slice
      | negativeIndex => exact ⟨h.1, hbefore⟩

theorem mark_of_opening? (h : stage.opening? = some (mark, start)) :
    mark = '.' ∨ mark = '[' := by
  cases stage with
  | between | name _ => cases h
  | dot _ | deepDot _ =>
      injection h with h
      injection h with h
      exact .inl h.symm
  | bracket _ | quoted _ _ _ | escaped _ _ | closedQuote _ _ | comma _ _
  | question _ | expression _ _ _ _ | closedExpression _ | index _ _ =>
      injection h with h
      injection h with h
      exact .inr h.symm

theorem ofList_append_cons (cs ds : List Char) (c : Char) :
    String.ofList (cs ++ c :: ds) =
      String.ofList cs ++ String.singleton c ++ String.ofList ds := by
  rw [← List.singleton_append, ← List.append_assoc, String.ofList_append,
    String.ofList_append, String.singleton_eq_ofList]

theorem ofList_ne_empty {cs : List Char} (h : cs ≠ []) :
    String.ofList cs ≠ "" := by
  intro heq
  have htoList := congrArg String.toList heq
  rw [String.toList_ofList] at htoList
  exact h htoList

theorem liesAt_ofList {before after : List Char} (hne : before ≠ [])
    (hfits : fault.Fits d (String.ofList before) c) :
    fault.LiesAt d (String.ofList (before ++ c :: after))
      (byteLength before) :=
  ⟨String.ofList before, c, String.ofList after,
    ofList_append_cons before after c, ofList_ne_empty hne,
    (byteLength_eq_utf8ByteSize before).symm, hfits⟩

/-- A fault charged to the open segment lies where the segment begins. -/
theorem liesAt_of_blames (h : Leads d read stage)
    (hopen : stage.opening? = some (mark, start))
    (hblames : fault.Blames mark start) (rest : List Char) :
    fault.LiesAt d (String.ofList (read ++ rest)) start := by
  obtain ⟨before, after, heq, hne, rfl, hcheck⟩ :=
    (h.openSince hopen).append rest
  rw [heq]
  rw [← check_ofList] at hcheck
  exact liesAt_ofList hne (hblames.fits (mark_of_opening? hopen) hcheck)

theorem liesAt_of_step_error (h : Leads d read stage)
    (hstep : stage.step d (byteLength read) c = .error fault)
    (hposition : fault.position? = some position) (rest : List Char) :
    fault.LiesAt d (String.ofList (read ++ c :: rest)) position := by
  have hmove : Move d (byteLength read) c stage (.error fault) :=
    hstep ▸ step_move stage
  cases hmove with
  | unexpected =>
      injection hposition with hposition
      subst hposition
      refine liesAt_ofList h.ne_nil ⟨rfl, fun after => ?_⟩
      rw [check, String.toList_append, String.toList_append,
        String.toList_ofList, String.toList_singleton, List.append_assoc,
        List.singleton_append, h.checkChars_of_step_error hstep]
  | blame hopen hblames =>
      obtain rfl : _ = position :=
        Option.some.inj (hblames.position?_eq.symm.trans hposition)
      exact liesAt_of_blames h hopen hblames (c :: rest)
  | star hstage hd hc =>
      injection hposition with hposition
      subst hd hc hposition
      rcases hstage with rfl | rfl
      · refine liesAt_ofList h.ne_nil (.inr ⟨rfl, ?_⟩)
        obtain ⟨before, rfl, -, hcheck⟩ := h.of_dot
        rw [← check_ofList] at hcheck
        exact ⟨String.ofList before, String.ofList_append, hcheck⟩
      · exact absurd h not_leads_deepDot

/-- A text without the root is refused without a position. -/
theorem exists_root_of_error {text : List Char}
    (h : checkChars d text = .error fault)
    (hposition : fault.position? = some position) :
    ∃ cs, text = ['$'] ++ cs := by
  cases text with
  | nil =>
      injection h with h
      subst h
      cases hposition
  | cons c cs =>
      rw [checkChars] at h
      split at h
      · next hroot => exact ⟨cs, hroot ▸ rfl⟩
      · injection h with h
        subst h
        cases hposition

/-- Whenever a text is refused at a position, a character of it begins there
that is not its first, it is one that such a fault is about, and what lies in
front of it is a path of the same dialect; only at an unexpected character the
text is refused in the same way however it goes on from there. -/
theorem fault_position {path : String}
    (h : checkOption d (some path) = .error fault)
    (hposition : fault.position? = some position) :
    fault.LiesAt d path position := by
  obtain ⟨cs, hcs⟩ := exists_root_of_error h hposition
  obtain rfl : path = String.ofList (['$'] ++ cs) := by
    rw [← hcs, String.ofList_toList]
  rw [checkOption, check_ofList] at h
  rcases Leads.root.exists_of_error h with
    ⟨last, hlast, hfinish⟩ | ⟨before, c, after, last, heq, hlast, hstep⟩
  · obtain ⟨mark, start, hopen, hblames⟩ := of_finish_error hfinish
    obtain rfl : start = position :=
      Option.some.inj (hblames.position?_eq.symm.trans hposition)
    have hlies := liesAt_of_blames hlast hopen hblames []
    rwa [List.append_nil] at hlies
  · rw [heq]
    exact liesAt_of_step_error hlast hstep hposition after

/-- In a reference path, `.*` is refused at the star, behind a dot that is
still counted to the path in front of it. -/
theorem fault_position_star :
    checkOption .reference (some "$.größe.*") =
        .error (.notAllowed 10 .wildcard) ∧
      (Fault.notAllowed 10 .wildcard).position? = some 10 ∧
      (Fault.notAllowed 10 .wildcard).LiesAt .reference "$.größe.*" 10 :=
  ⟨by decide, rfl, fault_position (by decide) rfl⟩

end Path

end Workflow
