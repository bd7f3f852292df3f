import Workflow.Proofs.Path.Reading

/-!
# The reader accepts exactly its grammar

From the stages to the whole text: a bracket takes one segment, between two
segments the text ends or one more segment follows, and so a text is read if
and only if it is the root and the texts of well-formed segments. The theorem
is stated for both dialects (`check_eq_ok_iff`), a reference path being one
whose segments all select one place.
-/

namespace Workflow

namespace Path

variable {d : Dialect} {position start : Nat} {c q : Char} {cs : List Char}

/-- A segment that the dialect has stands at the front of a text, which stands
at `position`, and what follows it is read. -/
def StartsSegment (d : Dialect) (position : Nat) (cs : List Char) : Prop :=
  ∃ s : Segment, ∃ rest, s.WellFormed ∧ s.Allowed d ∧ cs = s.text ++ rest ∧
    Reads d (position + byteLength s.text) .between rest

/-! ## A bracket takes one segment -/

theorem startsSegment_of_reads_quoted (hquote : q = '\'' ∨ q = '"')
    (h : Reads d (position + '['.utf8Size + q.utf8Size) (.quoted start q true)
      cs) : StartsSegment d position ('[' :: q :: cs) := by
  obtain ⟨bodies, rest, ⟨hnil, hbodies, hone⟩, heq, hrest⟩ :=
    exists_bodies_of_reads_quoted h
  refine ⟨.quoted q bodies, rest, ⟨hquote, hnil, hbodies⟩, hone, ?_, ?_⟩
  · rw [heq]
    simp [Segment.text, bracketed, quotes]
  · simpa [Segment.text, bracketed, quotes, byteLength, Nat.add_assoc]
      using hrest

theorem startsSegment_of_reads_expression (filter : Bool)
    (h : Reads .general (position + byteLength ('[' :: (mark filter ++ ['('])))
      (.expression start 1 none true) cs) :
    StartsSegment .general position ('[' :: (mark filter ++ '(' :: cs)) := by
  rw [reads_expression_iff (by decide)] at h
  obtain ⟨body, rest, rfl, hcloses, hblank, hrest⟩ := h
  refine ⟨.expression filter body, rest, ⟨hcloses, hblank rfl⟩,
    Segment.allowed_general _, by simp [Segment.text, bracketed], ?_⟩
  simpa [Segment.text, bracketed, byteLength, byteLength_append,
    Nat.add_assoc] using hrest

theorem startsSegment_of_reads_question
    (h : Reads .general (position + '['.utf8Size + '?'.utf8Size)
      (.question start) cs) :
    StartsSegment .general position ('[' :: '?' :: cs) := by
  cases cs with
  | nil => cases h
  | cons c cs =>
      by_cases hopen : c = '('
      · subst hopen
        rw [reads_cons_of_step rfl] at h
        have hread : Reads .general
            (position + byteLength ('[' :: (mark true ++ ['('])))
            (.expression start 1 none true) cs := by
          simpa [mark, byteLength, Nat.add_assoc] using h
        exact startsSegment_of_reads_expression true hread
      · have hstep : (Stage.question start).step .general
            (position + '['.utf8Size + '?'.utf8Size) c =
              .error (.invalidBracket start) := by
          rw [Stage.step, if_neg hopen]
        exact absurd h (not_reads_of_step_error hstep)

theorem startsSegment_of_reads_index
    (h : Reads d (position + '['.utf8Size + c.utf8Size) (.index start [c])
      cs) : StartsSegment d position ('[' :: c :: cs) := by
  obtain ⟨body, rest, rfl, -, hclose, hrest⟩ := reads_index_iff.mp h
  obtain ⟨-, s, hbody, hwf, hallowed⟩ := closeIndex_iff.mp hclose
  refine ⟨s, rest, hwf, hallowed, ?_, ?_⟩
  · rw [text_of_body? hbody]
    simp [bracketed]
  · rw [text_of_body? hbody]
    simpa [bracketed, byteLength, Nat.add_assoc] using hrest

/-- The first character of a bracket tells which shape it is to have. -/
theorem startsSegment_of_reads_bracket
    (h : Reads d (position + '['.utf8Size) (.bracket start) cs) :
    StartsSegment d position ('[' :: cs) := by
  cases cs with
  | nil => cases h
  | cons c cs =>
      obtain ⟨next, hnext, h⟩ := reads_cons_iff.mp h
      rw [Stage.step, Stage.openBracket] at hnext
      split at hnext
      · cases hnext
      split at hnext
      · next hquote =>
          injection hnext with hnext
          subst hnext
          exact startsSegment_of_reads_quoted hquote h
      split at hnext
      · next hmark =>
          rw [allow_bind_eq_ok_iff] at hnext
          obtain ⟨rfl, hnext⟩ := hnext
          injection hnext with hnext
          subst hmark hnext
          exact startsSegment_of_reads_question h
      split at hnext
      · next hopen =>
          rw [allow_bind_eq_ok_iff] at hnext
          obtain ⟨rfl, hnext⟩ := hnext
          injection hnext with hnext
          subst hopen hnext
          exact startsSegment_of_reads_expression false h
      · injection hnext with hnext
        subst hnext
        exact startsSegment_of_reads_index h

/-! ## A segment is read -/

/-- A segment in brackets is read from its opening bracket. -/
theorem reads_bracketed {s : Segment} {body rest : List Char}
    (htext : s.text = bracketed body)
    (hbracket : Reads d (position + '['.utf8Size) (.bracket position)
      (body ++ ']' :: rest)) :
    Reads d position .between (s.text ++ rest) := by
  have htext' : s.text ++ rest = '[' :: (body ++ ']' :: rest) := by
    rw [htext, bracketed]
    simp
  rw [htext']
  exact (reads_cons_of_step rfl).mpr hbracket

theorem reads_dotted {s : Segment} {deep : Bool} {word rest : List Char}
    (htext : s.text = dots deep ++ word) (hword : Word d word)
    (hdeep : deep = true → d = .general)
    (hrest : Reads d (position + byteLength s.text) .between rest) :
    Reads d position .between (s.text ++ rest) := by
  rw [htext] at hrest ⊢
  cases deep with
  | false =>
      refine (reads_cons_of_step rfl).mpr (reads_dot_iff.mpr (.inr ?_))
      refine ⟨word, rest, rfl, hword, ?_⟩
      simpa [dots, byteLength, Nat.add_assoc] using hrest
  | true =>
      obtain rfl := hdeep rfl
      refine (reads_cons_of_step rfl).mpr (reads_dot_iff.mpr (.inl ?_))
      refine ⟨word ++ rest, rfl, rfl, reads_deepDot_iff.mpr ?_⟩
      refine ⟨word, rest, rfl, hword, ?_⟩
      simpa [dots, byteLength, Nat.add_assoc] using hrest

theorem reads_quoted_segment {bodies : List (List Char)} {rest : List Char}
    (hwf : (Segment.quoted q bodies).WellFormed)
    (hallowed : (Segment.quoted q bodies).Allowed d)
    (hrest : Reads d (position + byteLength (Segment.quoted q bodies).text)
      .between rest) :
    Reads d position .between ((Segment.quoted q bodies).text ++ rest) := by
  obtain ⟨hq, hnil, hbodies⟩ := hwf
  have hstep : (Stage.bracket position).step d (position + '['.utf8Size) q =
      .ok (.quoted position q true) := by
    rcases hq with rfl | rfl <;> rfl
  have hescape : q ≠ '\\' := by rcases hq with rfl | rfl <;> decide
  obtain ⟨tail, htail⟩ := exists_quotes_append q hnil (']' :: rest)
  refine reads_bracketed rfl ?_
  change Reads d _ _ (quotes q bodies ++ ']' :: rest)
  rw [htail]
  refine (reads_cons_of_step hstep).mpr
    (reads_quoted_of_bodies hescape ⟨hnil, hbodies, hallowed⟩ ?_ htail.symm)
  simpa [Segment.text, bracketed, quotes, byteLength, Nat.add_assoc]
    using hrest

theorem reads_expression_segment {filter : Bool} {body rest : List Char}
    (hwf : (Segment.expression filter body).WellFormed)
    (hrest : Reads .general
      (position + byteLength (Segment.expression filter body).text)
      .between rest) :
    Reads .general position .between
      ((Segment.expression filter body).text ++ rest) := by
  obtain ⟨hcloses, x, hx, hblank⟩ := hwf
  refine reads_bracketed rfl ?_
  have hread : Reads .general
      (position + '['.utf8Size + byteLength (mark filter ++ ['(']))
      (.expression position 1 none true) (body ++ ')' :: ']' :: rest) := by
    refine (reads_expression_iff (by decide)).mpr
      ⟨body, rest, rfl, hcloses, fun _ => ⟨x, hx, hblank⟩, ?_⟩
    simpa [Segment.text, bracketed, byteLength, byteLength_append,
      Nat.add_assoc] using hrest
  cases filter with
  | true =>
      refine (reads_cons_of_step rfl).mpr ((reads_cons_of_step rfl).mpr ?_)
      simpa [mark, byteLength, Nat.add_assoc] using hread
  | false =>
      refine (reads_cons_of_step rfl).mpr ?_
      simpa [mark, byteLength, Nat.add_assoc] using hread

theorem IndexChar.step_bracket (h : IndexChar c) :
    (Stage.bracket start).step d position c = .ok (.index start [c]) := by
  have hne : ∀ x : Char, ¬ IndexChar x → c ≠ x :=
    fun x hx hc => hx (hc ▸ h)
  have hquote : c ≠ '\'' := hne '\'' (by unfold IndexChar BodyChar; decide)
  have hquotes : c ≠ '"' := hne '"' (by unfold IndexChar BodyChar; decide)
  have hmark : c ≠ '?' := hne '?' (by unfold IndexChar BodyChar; decide)
  have hopen : c ≠ '(' := hne '(' (by unfold IndexChar BodyChar; decide)
  rw [Stage.step, Stage.openBracket, if_neg h.ne_close,
    if_neg (not_or.mpr ⟨hquote, hquotes⟩), if_neg hmark, if_neg hopen]
  rfl

theorem reads_index_segment {s : Segment} {body rest : List Char}
    (hbody : s.body? = some body) (hwf : s.WellFormed)
    (hallowed : s.Allowed d)
    (hrest : Reads d (position + byteLength s.text) .between rest) :
    Reads d position .between (s.text ++ rest) := by
  have hchar := indexChar_of_body? hbody hwf
  refine reads_bracketed (text_of_body? hbody) ?_
  rw [text_of_body? hbody] at hrest
  cases body with
  | nil => exact absurd rfl (ne_nil_of_body? hbody hwf)
  | cons c body =>
      refine (reads_cons_of_step (hchar c (by simp)).step_bracket).mpr ?_
      refine reads_index_iff.mpr ⟨body, rest, rfl, fun hmem => ?_,
        closeIndex_of_body? hbody hwf hallowed, ?_⟩
      · exact (hchar ']' (List.mem_cons_of_mem _ hmem)).ne_close rfl
      · simpa [bracketed, byteLength, Nat.add_assoc] using hrest

theorem reads_between_of_segment {s : Segment} {rest : List Char}
    (hwf : s.WellFormed) (hallowed : s.Allowed d)
    (hrest : Reads d (position + byteLength s.text) .between rest) :
    Reads d position .between (s.text ++ rest) := by
  cases s with
  | name deep word =>
      refine reads_dotted rfl (.inr hwf) (fun hdeep => ?_) hrest
      refine hallowed.eq_general fun hplain => ?_
      rw [show deep = false from hplain] at hdeep
      cases hdeep
  | wildcard deep =>
      have hd := hallowed.eq_general (by simp [Segment.Plain])
      exact reads_dotted rfl (.inl ⟨rfl, hd⟩) (fun _ => hd) hrest
  | quoted q bodies => exact reads_quoted_segment hwf hallowed hrest
  | expression filter body =>
      obtain rfl := hallowed.eq_general (by simp [Segment.Plain])
      exact reads_expression_segment hwf hrest
  | all => exact reads_index_segment rfl hwf hallowed hrest
  | index _ _ => exact reads_index_segment rfl hwf hallowed hrest
  | slice _ => exact reads_index_segment rfl hwf hallowed hrest
  | union _ => exact reads_index_segment rfl hwf hallowed hrest

/-! ## Texts of segments -/

theorem text_ne_nil (s : Segment) : s.text ≠ [] := by
  cases s with
  | name deep _ => cases deep <;> simp [Segment.text, dots]
  | wildcard deep => cases deep <;> simp [Segment.text, dots]
  | _ => simp [Segment.text, bracketed]

/-- What follows the dots of a segment makes it a name or a wildcard. -/
theorem exists_segment_of_word (deep : Bool) {word : List Char}
    (hword : Word d word) (hdeep : deep = true → d = .general) :
    ∃ s : Segment, s.WellFormed ∧ s.Allowed d ∧
      s.text = dots deep ++ word := by
  rcases hword with ⟨rfl, rfl⟩ | hword
  · exact ⟨.wildcard deep, trivial, Segment.allowed_general _, rfl⟩
  · refine ⟨.name deep word, hword, fun hd => ?_, rfl⟩
    cases deep with
    | false => rfl
    | true =>
        rw [hdeep rfl] at hd
        cases hd

theorem startsSegment_of_reads_dot
    (h : Reads d (position + '.'.utf8Size) (.dot position) cs) :
    StartsSegment d position ('.' :: cs) := by
  rcases reads_dot_iff.mp h with ⟨rest, rfl, hd, h⟩ | h
  · obtain ⟨word, rest, rfl, hw, hrest⟩ := reads_deepDot_iff.mp h
    obtain ⟨s, hwf, hallowed, htext⟩ :=
      exists_segment_of_word true hw fun _ => hd
    refine ⟨s, rest, hwf, hallowed, by rw [htext]; rfl, ?_⟩
    simpa [htext, dots, byteLength, Nat.add_assoc] using hrest
  · obtain ⟨word, rest, rfl, hw, hrest⟩ := h
    obtain ⟨s, hwf, hallowed, htext⟩ :=
      exists_segment_of_word false hw (by simp)
    refine ⟨s, rest, hwf, hallowed, by rw [htext]; rfl, ?_⟩
    simpa [htext, dots, byteLength, Nat.add_assoc] using hrest

/-- Between segments the text may end, or one more segment follows. -/
theorem reads_between_iff :
    Reads d position .between cs ↔
      cs = [] ∨ StartsSegment d position cs := by
  constructor
  · intro h
    cases cs with
    | nil => exact .inl rfl
    | cons c cs =>
        right
        obtain ⟨next, hnext, h⟩ := reads_cons_iff.mp h
        rw [Stage.step] at hnext
        split at hnext
        · next hdot =>
            injection hnext with hnext
            subst hdot hnext
            exact startsSegment_of_reads_dot h
        split at hnext
        · next hopen =>
            injection hnext with hnext
            subst hopen hnext
            exact startsSegment_of_reads_bracket h
        · cases hnext
  · intro h
    rcases h with rfl | ⟨s, rest, hwf, hallowed, rfl, hrest⟩
    · rfl
    · exact reads_between_of_segment hwf hallowed hrest

theorem reads_segments_iff :
    Reads d position .between cs ↔
      ∃ segments : List Segment, (∀ s ∈ segments, s.WellFormed ∧ s.Allowed d) ∧
        cs = segments.flatMap Segment.text := by
  constructor
  · intro h
    induction hn : cs.length using Nat.strong_induction_on
      generalizing cs position with
    | _ n ih =>
        rcases reads_between_iff.mp h with
          rfl | ⟨s, rest, hwf, hallowed, rfl, hrest⟩
        · exact ⟨[], by simp, rfl⟩
        · have hpos := List.length_pos_iff.mpr (text_ne_nil s)
          rw [List.length_append] at hn
          obtain ⟨segments, hall, rfl⟩ :=
            ih rest.length (by omega) hrest rfl
          refine ⟨s :: segments, ?_, rfl⟩
          intro t ht
          rcases List.mem_cons.mp ht with rfl | ht
          · exact ⟨hwf, hallowed⟩
          · exact hall t ht
  · intro h
    obtain ⟨segments, hall, heq⟩ := h
    subst heq
    induction segments generalizing position with
    | nil => rfl
    | cons s segments ih =>
        obtain ⟨hwf, hallowed⟩ := hall s (by simp)
        exact reads_between_of_segment hwf hallowed
          (ih fun t ht => hall t (List.mem_cons_of_mem _ ht))

/-- The reader accepts a text if and only if the grammar has it. -/
theorem check_eq_ok_iff {path : String} :
    check d path = .ok () ↔ Written d path := by
  rw [check, Written]
  cases path.toList with
  | nil => exact iff_of_false (by intro h; cases h) (by simp)
  | cons c cs =>
      rw [checkChars]
      split
      · next hroot =>
          subst hroot
          simp only [List.cons.injEq, true_and]
          exact reads_segments_iff
      · next hroot =>
          refine iff_of_false (by intro h; cases h) ?_
          intro h
          obtain ⟨segments, _, heq⟩ := h
          exact hroot (List.cons_eq_cons.mp heq).1

/-- A path is accepted as a general path if and only if it is the root and the
texts of well-formed segments. -/
theorem general_path_iff (path : String) :
    checkOption .general (some path) = .ok () ↔
      ∃ segments : List Segment, (∀ s ∈ segments, s.WellFormed) ∧
        path.toList = '$' :: segments.flatMap Segment.text := by
  rw [checkOption, check_eq_ok_iff, Written]
  simp only [Segment.allowed_general, and_true]

end Path

end Workflow
