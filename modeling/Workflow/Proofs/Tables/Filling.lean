import Workflow.Proofs.Walk
import Workflow.Tables

/-!
# The tables of a scope hold its graph

While the tables are filled, the columns of names, kinds and ends are as long as
the part of the scope that has been entered, but the rows of edges are all there
from the beginning, and so is the index. The invariant (`Holds`) says what
stands in each of them; an edge that is entered lengthens the row of its start
(`outgoing`) and that of its end (`incoming`), and each step of the pass is one
of these. No row that is asked for can be missing, since the index gives
positions of the scope only.
-/

namespace Workflow

namespace Tables

/-! ## Columns -/

section Column

variable {α : Type} {n v : Nat} {f : Nat → α}

/-- The values of a function at the positions below `n`. -/
def column (n : Nat) (f : Nat → α) : Array α := Array.ofFn fun i : Fin n => f i

@[simp]
theorem size_column : (column n f).size = n := Array.size_ofFn

theorem getElem?_column (hv : v < n) : (column n f)[v]? = some (f v) := by
  rw [column, Array.getElem?_ofFn, dif_pos hv]

theorem eq_column {xs : Array α} (hsize : xs.size = n)
    (hxs : ∀ v < n, xs[v]? = some (f v)) : xs = column n f := by
  refine Array.ext (by rw [hsize, size_column]) fun v hv _ => ?_
  rw [← Option.some_inj, ← Array.getElem?_eq_getElem,
    ← Array.getElem?_eq_getElem, hxs v (hsize ▸ hv),
    getElem?_column (hsize ▸ hv)]

theorem replicate_eq_column {a : α} :
    Array.replicate n a = column n fun _ => a :=
  eq_column Array.size_replicate fun v hv => by simp [hv]

theorem lt_of_getElem?_column {a : α} (h : (column n f)[v]? = some a) :
    v < n ∧ f v = a := by
  have hv : v < n := by
    obtain ⟨hv, -⟩ := Array.getElem?_eq_some_iff.mp h
    rwa [size_column] at hv
  rw [getElem?_column hv] at h
  exact ⟨hv, Option.some.inj h⟩

end Column

/-! ## Rows -/

/-- The row of one node becomes longer. -/
def outgoing (f : Nat → List Nat) (i : Nat) (ws : List Nat) (v : Nat) :
    List Nat :=
  if v = i then f v ++ ws else f v

/-- A node is added to the row of each of its ends, once for each edge. -/
def incoming (f : Nat → List Nat) (i : Nat) (ws : List Nat) (v : Nat) :
    List Nat :=
  f v ++ (ws.filter (· == v)).map fun _ => i

section Rows

variable {n i v w : Nat} {f : Nat → List Nat} {ws ws' : List Nat}

theorem outgoing_nil : outgoing f i [] = f := by
  funext v
  simp [outgoing]

theorem incoming_nil : incoming f i [] = f := by
  funext v
  simp [incoming]

theorem outgoing_append :
    outgoing (outgoing f i ws) i ws' = outgoing f i (ws ++ ws') := by
  funext v
  by_cases hv : v = i <;> simp [outgoing, hv]

theorem incoming_append :
    incoming (incoming f i ws) i ws' = incoming f i (ws ++ ws') := by
  funext v
  simp [incoming]

/-- Seen from its end, an edge lengthens one row as well. -/
theorem incoming_singleton : incoming f i [w] = outgoing f w [i] := by
  funext v
  by_cases hv : v = w
  · simp [incoming, outgoing, hv]
  · simp [incoming, outgoing, hv, Ne.symm hv]

theorem addTo?_column (hv : v < n) :
    addTo? (column n f) v w = some (column n (outgoing f v [w])) := by
  rw [addTo?, getElem?_column hv]
  refine congrArg some (eq_column (by simp) fun u hu => ?_)
  rw [Array.getElem?_setIfInBounds, size_column, if_pos hv]
  by_cases hvu : v = u
  · simp [outgoing, hvu]
  · simp [outgoing, hvu, Ne.symm hvu, getElem?_column hu]

/-- An edge that is entered at both ends counts there alike. -/
theorem count_outgoing {g : Nat → List Nat} {u : Nat}
    (h : (f u).count v = (g v).count u) :
    (outgoing f i ws u).count v = (incoming g i ws v).count u := by
  rw [incoming, List.count_append, List.map_const', List.count_replicate, ← h]
  by_cases hu : u = i
  · simp [outgoing, hu, List.count, List.countP_eq_length_filter]
  · simp [outgoing, hu, Ne.symm hu]

end Rows

/-! ## What the tables hold -/

/-- The declarations of `front` have been entered, and the rows of edges are as
given. -/
structure Holds (states front : States) (out into errors : Nat → List Nat)
    (t : Tables) : Prop where
  names : t.names.toList = front.map Entry.name
  kinds : t.kinds.toList = front.map fun e => e.state.kind
  terminal : t.terminal.toList = front.map fun e => e.state.isTerminal
  successors : t.successors = column states.length out
  predecessors : t.predecessors = column states.length into
  handlers : t.handlers = column states.length errors
  index : ∀ a, t.index[a]? = states.index? a

variable {states front : States} {out into errors : Nat → List Nat}
  {t : Tables} {i : Nat} {targets : State → List String}

theorem Holds.link (h : Holds states front out into errors t)
    (hi : i < states.length) (target : String) :
    ∃ t', link? i t target = some t' ∧
      Holds states front (outgoing out i (states.index? target).toList)
        (incoming into i (states.index? target).toList) errors t' := by
  rw [link?, h.index]
  cases hj : states.index? target with
  | none =>
      refine ⟨t, rfl, ?_⟩
      rw [Option.toList_none, outgoing_nil, incoming_nil]
      exact h
  | some j =>
      rw [Option.toList_some, incoming_singleton, h.successors, h.predecessors]
      simp only [addTo?_column hi,
        addTo?_column (States.lt_length_of_index? hj)]
      exact ⟨_, rfl, { h with successors := rfl, predecessors := rfl }⟩

theorem Holds.handle (h : Holds states front out into errors t)
    (hi : i < states.length) (target : String) :
    ∃ t', handle? i t target = some t' ∧
      Holds states front out into
        (outgoing errors i (states.index? target).toList) t' := by
  rw [handle?, h.index]
  cases hj : states.index? target with
  | none =>
      refine ⟨t, rfl, ?_⟩
      rw [Option.toList_none, outgoing_nil]
      exact h
  | some j =>
      rw [Option.toList_some, h.handlers]
      simp only [addTo?_column hi]
      exact ⟨_, rfl, { h with handlers := rfl }⟩

/-- What each step of a fold adds to, the whole fold adds to. -/
theorem exists_foldlM {α β : Type} {step : β → α → Option β}
    (inv : List α → β → Prop) (as done : List α) {b : β} (h : inv done b)
    (hstep : ∀ done a b, inv done b →
      ∃ b', step b a = some b' ∧ inv (done ++ [a]) b') :
    ∃ b', as.foldlM step b = some b' ∧ inv (done ++ as) b' := by
  induction as generalizing done b with
  | nil => exact ⟨b, rfl, by rwa [List.append_nil]⟩
  | cons a as ih =>
      obtain ⟨b', hb', h'⟩ := hstep done a b h
      obtain ⟨b'', hb'', h''⟩ := ih _ h'
      refine ⟨b'', ?_, ?_⟩
      · rw [List.foldlM_cons, hb']
        exact hb''
      · rwa [List.append_assoc] at h''

theorem filterMap_concat (f : String → Option Nat) (as : List String)
    (a : String) :
    (as ++ [a]).filterMap f = as.filterMap f ++ (f a).toList := by
  rw [List.filterMap_append, List.filterMap_cons]
  cases f a <;> rfl

theorem Holds.links (h : Holds states front out into errors t)
    (hi : i < states.length) (as : List String) :
    ∃ t', as.foldlM (link? i) t = some t' ∧
      Holds states front (outgoing out i (as.filterMap states.index?))
        (incoming into i (as.filterMap states.index?)) errors t' := by
  refine exists_foldlM (fun done => Holds states front
    (outgoing out i (done.filterMap states.index?))
    (incoming into i (done.filterMap states.index?)) errors) as [] ?_ ?_
  · rw [List.filterMap_nil, outgoing_nil, incoming_nil]
    exact h
  · intro done a t h
    obtain ⟨t', hlink, h'⟩ := h.link hi a
    rw [outgoing_append, incoming_append, ← filterMap_concat] at h'
    exact ⟨t', hlink, h'⟩

theorem Holds.handlesAll (h : Holds states front out into errors t)
    (hi : i < states.length) (as : List String) :
    ∃ t', as.foldlM (handle? i) t = some t' ∧
      Holds states front out into
        (outgoing errors i (as.filterMap states.index?)) t' := by
  refine exists_foldlM (fun done => Holds states front out into
    (outgoing errors i (done.filterMap states.index?))) as [] ?_ ?_
  · rw [List.filterMap_nil, outgoing_nil]
    exact h
  · intro done a t h
    obtain ⟨t', hhandle, h'⟩ := h.handle hi a
    rw [outgoing_append, ← filterMap_concat] at h'
    exact ⟨t', hhandle, h'⟩

/-- The positions that the targets of a declaration lead to. -/
def ends (states : States) (targets : State → List String) (e : Entry) :
    List Nat :=
  (targets e.state).filterMap states.index?

theorem Holds.enter (h : Holds states front out into errors t)
    (hi : i < states.length) (e : Entry) :
    ∃ t', enter? t i e = some t' ∧
      Holds states (front ++ [e])
        (outgoing out i (ends states State.nextTargets e))
        (incoming into i (ends states State.nextTargets e))
        (outgoing errors i (ends states State.catchTargets e)) t' := by
  have hentered : Holds states (front ++ [e]) out into errors
      { t with
        names := t.names.push e.name
        kinds := t.kinds.push e.state.kind
        terminal := t.terminal.push e.state.isTerminal } :=
    { h with
      names := by rw [Array.toList_push, h.names, List.map_append]; rfl
      kinds := by rw [Array.toList_push, h.kinds, List.map_append]; rfl
      terminal := by rw [Array.toList_push, h.terminal, List.map_append]; rfl }
  obtain ⟨t', hlinks, h'⟩ := hentered.links hi e.state.nextTargets
  obtain ⟨t'', hhandles, h''⟩ := h'.handlesAll hi e.state.catchTargets
  refine ⟨t'', ?_, h''⟩
  rw [enter?]
  simp only [hlinks]
  exact hhandles

/-! ## The pass -/

/-- The rows of the declarations that have been entered. -/
def rows (states front : States) (targets : State → List String) (v : Nat) :
    List Nat :=
  (front[v]?).elim [] (ends states targets)

/-- The rows of the same edges at their ends. -/
def backRows (states front : States) (targets : State → List String)
    (v : Nat) : List Nat :=
  front.zipIdx.flatMap fun (e, u) =>
    ((ends states targets e).filter (· == v)).map fun _ => u

theorem rows_concat (e : Entry) :
    rows states (front ++ [e]) targets =
      outgoing (rows states front targets) front.length
        (ends states targets e) := by
  funext v
  rw [outgoing, rows, rows]
  split
  · next hv => subst hv; simp
  · next hv =>
      rcases Nat.lt_or_gt_of_ne hv with hv | hv
      · rw [List.getElem?_append_left hv]
      · rw [List.getElem?_eq_none (by simp; omega),
          List.getElem?_eq_none (by omega)]

theorem backRows_concat (e : Entry) :
    backRows states (front ++ [e]) targets =
      incoming (backRows states front targets) front.length
        (ends states targets e) := by
  funext v
  simp [backRows, incoming, List.zipIdx_append]

/-- At both of their ends, the edges are the same. -/
theorem count_rows (u v : Nat) :
    (rows states front targets u).count v =
      (backRows states front targets v).count u := by
  induction front using List.reverseRecOn with
  | nil => rfl
  | append_singleton front e ih =>
      rw [rows_concat, backRows_concat]
      exact count_outgoing ih

/-- The declarations of `front` have been entered, with all of their edges. -/
def Entered (states front : States) (t : Tables) : Prop :=
  Holds states front (rows states front State.nextTargets)
    (backRows states front State.nextTargets)
    (rows states front State.catchTargets) t

theorem Entered.enterAll {rest : States} (h : Entered states front t)
    (hstates : states = front ++ rest) :
    ∃ t', enterAll? rest front.length t = some t' ∧
      Entered states states t' := by
  induction rest generalizing front t with
  | nil =>
      rw [List.append_nil] at hstates
      exact ⟨t, rfl, hstates ▸ h⟩
  | cons e rest ih =>
      have hi : front.length < states.length := by
        rw [hstates, List.length_append, List.length_cons]
        omega
      obtain ⟨t', henter, h'⟩ := h.enter hi e
      rw [← rows_concat, ← rows_concat, ← backRows_concat] at h'
      obtain ⟨t'', hrest, h''⟩ := ih h' (by rw [hstates]; simp)
      refine ⟨t'', ?_, h''⟩
      rw [enterAll?, henter]
      rw [List.length_append] at hrest
      exact hrest

theorem index?_cons (e : Entry) (rest : States) (a : String) :
    States.index? (e :: rest) a =
      if e.name = a then some 0 else (rest.index? a).map (· + 1) := by
  rw [States.index?, List.findIdx?_cons]
  simp only [beq_iff_eq]
  rfl

/-- Numbering gives every name the position of its first declaration, unless it
has a number. -/
theorem getElem?_number (rest : States) (i : Nat)
    (index : Std.HashMap String Nat) (a : String) :
    (number rest i index)[a]? =
      index[a]?.or ((rest.index? a).map (· + i)) := by
  induction rest generalizing i index with
  | nil => rw [number]; simp [States.index?]
  | cons e rest ih =>
      rw [number, ih, Std.HashMap.getElem?_insertIfNew, index?_cons]
      by_cases ha : e.name = a
      · subst ha
        by_cases hmem : e.name ∈ index <;> simp [hmem]
      · rw [if_neg (by simp [ha]), if_neg ha, Option.map_map]
        congr 2
        funext j
        simp only [Function.comp_apply]
        omega

theorem entered_blank (states : States) : Entered states [] (blank states) where
  names := rfl
  kinds := rfl
  terminal := rfl
  successors := replicate_eq_column
  predecessors := replicate_eq_column
  handlers := replicate_eq_column
  index a := by
    rw [blank, getElem?_number]
    simp

/-- The tables of a scope can be filled. -/
theorem exists_build? (states : States) :
    ∃ t, build? states = some t ∧ Entered states states t :=
  (entered_blank states).enterAll rfl

end Tables

end Workflow
