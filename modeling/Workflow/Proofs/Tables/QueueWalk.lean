import Workflow.Proofs.Tables.Filling

/-!
# The walks over the tables

The walks of the tables keep a queue, those of the graph go level by level or
count their steps; here they are shown to come to the same. A walk with a queue
ends because a turn takes a node from the queue and puts no more nodes there
than it marks, so that the nodes in the queue and those without a mark become
fewer together. That it marks just the nodes that can be reached is a matter of
what has been followed (`Draining`).
-/

namespace Workflow

namespace Tables

/-! ## Marks -/

/-- The node has a mark. -/
def Marked (seen : Array Bool) (v : Nat) : Prop := seen[v]? = some true

/-- How many nodes have no mark. -/
def unmarked (seen : Array Bool) : Nat := seen.count false

variable {seen seen' : Array Bool} {u v w n : Nat}

theorem Marked.lt (h : Marked seen v) : v < seen.size :=
  (Array.getElem?_eq_some_iff.mp h).1

theorem getElem?_of_not_marked (hv : v < seen.size) (h : ¬ Marked seen v) :
    seen[v]? = some false := by
  rw [Marked, Array.getElem?_eq_getElem hv, Option.some_inj] at h
  rw [Array.getElem?_eq_getElem hv, Bool.eq_false_iff.mpr h]

theorem mark?_eq (hv : v < seen.size) :
    mark? seen v = some (seen.set v true) := by
  rw [mark?, Array.getElem?_eq_getElem hv, Array.setIfInBounds, dif_pos hv]
  rfl

theorem marked_set_iff (hv : v < seen.size) :
    Marked (seen.set v true) u ↔ u = v ∨ Marked seen u := by
  rw [Marked, Array.getElem?_set]
  split
  · next h => exact iff_of_true rfl (.inl h.symm)
  · next h =>
      rw [or_iff_right (Ne.symm h)]
      exact Iff.rfl

theorem unmarked_set (hv : v < seen.size) (h : ¬ Marked seen v) :
    unmarked (seen.set v true) + 1 = unmarked seen := by
  have hfalse : seen[v] = false := by
    have hget := getElem?_of_not_marked hv h
    rwa [Array.getElem?_eq_getElem hv, Option.some_inj] at hget
  have hpos : 0 < seen.count false :=
    Array.count_pos_iff.mpr (hfalse ▸ Array.getElem_mem hv)
  rw [unmarked, unmarked, Array.count_set hv, hfalse]
  simp only [beq_self_eq_true, if_true]
  simp
  omega

theorem not_marked_replicate : ¬ Marked (Array.replicate n false) v := by
  intro h
  rw [Marked, Array.getElem?_replicate] at h
  split at h <;> cases h

theorem unmarked_replicate : unmarked (Array.replicate n false) = n := by
  rw [unmarked, Array.count_replicate, if_pos (beq_self_eq_true false)]

theorem unmarked_column (p : Nat → Bool) :
    unmarked (column n p) + ((List.range n).filter p).length = n := by
  induction n with
  | zero => rfl
  | succ n ih =>
      have hpush : column (n + 1) p = (column n p).push (p n) := Array.ofFn_succ
      rw [unmarked] at ih
      rw [hpush, List.range_succ, List.filter_append, List.length_append,
        unmarked, Array.count_push]
      cases hn : p n with
      | true => simp [hn]; omega
      | false => simp [hn]; omega

/-- A table of marks is known by the nodes that have one. -/
theorem eq_column_of_marked_iff {p : Nat → Bool} (hsize : seen.size = n)
    (h : ∀ v < n, Marked seen v ↔ p v = true) : seen = column n p := by
  refine eq_column hsize fun v hv => ?_
  by_cases hmark : Marked seen v
  · rw [(h v hv).mp hmark]
    exact hmark
  · rw [Bool.eq_false_iff.mpr fun hp => hmark ((h v hv).mpr hp)]
    exact getElem?_of_not_marked (hsize ▸ hv) hmark

/-! ## The queue -/

/-- What is found at the ends of the edges from a node: every end has a mark
then, and those that had none are found. -/
structure Discovered (seen seen' : Array Bool) (vs found : List Nat) :
    Prop where
  size : seen'.size = seen.size
  marked : ∀ u, Marked seen' u ↔ Marked seen u ∨ u ∈ vs
  subset : ∀ u ∈ found, u ∈ vs
  fresh : ∀ u ∈ vs, ¬ Marked seen u → u ∈ found
  fewer : unmarked seen' + found.length = unmarked seen

theorem Discovered.nil : Discovered seen seen [] [] where
  size := rfl
  marked := by simp
  subset := by simp
  fresh := by simp
  fewer := rfl

/-- An end that has a mark is passed over. -/
theorem Discovered.skip {vs found : List Nat} (hmark : Marked seen v)
    (h : Discovered seen seen' vs found) :
    Discovered seen seen' (v :: vs) found where
  size := h.size
  marked := by
    intro u
    rw [h.marked, List.mem_cons]
    refine or_congr_right' fun hu => (or_iff_right ?_).symm
    rintro rfl
    exact hu hmark
  subset := fun u hu => List.mem_cons_of_mem v (h.subset u hu)
  fresh := by
    intro u hu hfresh
    rcases List.mem_cons.mp hu with rfl | hu
    · exact absurd hmark hfresh
    · exact h.fresh u hu hfresh
  fewer := h.fewer

/-- An end that has none gets one and is found. -/
theorem Discovered.mark {vs found : List Nat} (hv : v < seen.size)
    (hmark : ¬ Marked seen v)
    (h : Discovered (seen.set v true) seen' vs found) :
    Discovered seen seen' (v :: vs) (v :: found) where
  size := h.size.trans (Array.size_set hv)
  marked := by
    intro u
    rw [h.marked, marked_set_iff hv, List.mem_cons, or_assoc, or_left_comm]
  subset := by
    intro u hu
    rcases List.mem_cons.mp hu with rfl | hu
    · exact List.mem_cons_self
    · exact List.mem_cons_of_mem v (h.subset u hu)
  fresh := by
    intro u hu hfresh
    by_cases huv : u = v
    · exact huv ▸ List.mem_cons_self
    · have hu := (List.mem_cons.mp hu).resolve_left huv
      refine List.mem_cons_of_mem v (h.fresh u hu ?_)
      rw [marked_set_iff hv, not_or]
      exact ⟨huv, hfresh⟩
  fewer := by
    have hfewer := h.fewer
    have hset := unmarked_set hv hmark
    rw [List.length_cons]
    omega

theorem exists_discover? {vs : List Nat} (queue : List Nat)
    (hvs : ∀ v ∈ vs, v < seen.size) :
    ∃ found seen', discover? vs queue seen = some (queue ++ found, seen') ∧
      Discovered seen seen' vs found := by
  induction vs generalizing queue seen with
  | nil => exact ⟨[], seen, by rw [discover?, List.append_nil], .nil⟩
  | cons v vs ih =>
      rw [List.forall_mem_cons] at hvs
      obtain ⟨hv, hvs⟩ := hvs
      by_cases hmark : Marked seen v
      · obtain ⟨found, seen', hrest, h⟩ := ih queue hvs
        refine ⟨found, seen', ?_, h.skip hmark⟩
        rw [discover?, hmark]
        exact hrest
      · have hvs' : ∀ w ∈ vs, w < (seen.set v true).size := by simpa using hvs
        obtain ⟨found, seen', hrest, h⟩ := ih (queue ++ [v]) hvs'
        refine ⟨v :: found, seen', ?_, h.mark hv hmark⟩
        rw [discover?, getElem?_of_not_marked hv hmark, mark?_eq hv,
          List.append_cons queue v found]
        exact hrest

/-- What is in the queue has a mark, and what has one has been followed or is in
the queue. -/
structure Draining (next : Nat → List Nat) (queue : List Nat)
    (seen : Array Bool) : Prop where
  queued : ∀ v ∈ queue, Marked seen v
  followed : ∀ u, Marked seen u → u ∉ queue → ∀ w ∈ next u, Marked seen w

variable {next : Nat → List Nat} {next? : Nat → Option (List Nat)}
  {queue found : List Nat}

theorem drain?_nil (turns : Nat) :
    drain? next? turns [] seen = some seen := by
  rw [drain?]

/-- A turn takes the first node from the queue and puts what it finds at the
end. -/
theorem Draining.step (h : Draining next (v :: queue) seen)
    (hfound : Discovered seen seen' (next v) found) :
    Draining next (queue ++ found) seen' where
  queued := by
    intro u hu
    rw [hfound.marked]
    rcases List.mem_append.mp hu with hu | hu
    · exact .inl (h.queued u (List.mem_cons_of_mem v hu))
    · exact .inr (hfound.subset u hu)
  followed := by
    intro u hu hnot w hw
    rw [List.mem_append, not_or] at hnot
    rw [hfound.marked]
    by_cases huv : u = v
    · exact .inr (huv ▸ hw)
    · refine .inl (h.followed u ?_ ?_ w hw)
      · by_contra hmark
        have hnext := ((hfound.marked u).mp hu).resolve_left hmark
        exact hnot.2 (hfound.fresh u hnext hmark)
      · rw [List.mem_cons, not_or]
        exact ⟨huv, hnot.1⟩

/-- When the queue is empty, the marks are closed under the edges. -/
theorem Draining.marked_iff (h : Draining next [] seen) (v : Nat) :
    Marked seen v ↔ ∃ u, Marked seen u ∧
      Relation.ReflTransGen (fun a b => b ∈ next a) u v := by
  constructor
  · exact fun hv => ⟨v, hv, .refl⟩
  · intro hreach
    obtain ⟨u, hu, huv⟩ := hreach
    induction huv with
    | refl => exact hu
    | tail _ hw ih => exact h.followed _ ih List.not_mem_nil _ hw

/-- The walk ends, and what has a mark then can be reached from what had one. -/
theorem Draining.exists_drain? (hnext? : ∀ v < n, next? v = some (next v))
    (hnext : ∀ v, ∀ w ∈ next v, w < n) (hsize : seen.size = n)
    (h : Draining next queue seen) {turns : Nat}
    (hturns : unmarked seen + queue.length ≤ turns) :
    ∃ last, drain? next? turns queue seen = some last ∧ last.size = n ∧
      ∀ v, Marked last v ↔ ∃ u, Marked seen u ∧
        Relation.ReflTransGen (fun a b => b ∈ next a) u v := by
  induction turns generalizing queue seen with
  | zero =>
      obtain rfl : queue = [] := List.length_eq_zero_iff.mp (by omega)
      exact ⟨seen, drain?_nil 0, hsize, h.marked_iff⟩
  | succ turns ih =>
      cases queue with
      | nil => exact ⟨seen, drain?_nil _, hsize, h.marked_iff⟩
      | cons v queue =>
          have hv : Marked seen v := h.queued v List.mem_cons_self
          obtain ⟨found, seen', hdiscover, hfound⟩ :=
            exists_discover? queue fun w hw => hsize ▸ hnext v w hw
          have hfewer := hfound.fewer
          obtain ⟨last, hdrain, hlast, hmarked⟩ :=
            ih (hfound.size.trans hsize) (h.step hfound)
              (by simp only [List.length_append, List.length_cons] at *; omega)
          refine ⟨last, ?_, hlast, fun w => (hmarked w).trans ⟨?_, ?_⟩⟩
          · rw [drain?, hnext? v (hsize ▸ hv.lt)]
            simp only [Option.bind_eq_bind, Option.bind_some, hdiscover]
            exact hdrain
          · intro hreach
            obtain ⟨u, hu, huw⟩ := hreach
            rcases (hfound.marked u).mp hu with hu | hu
            · exact ⟨u, hu, huw⟩
            · exact ⟨v, hv, .head hu huw⟩
          · intro hreach
            obtain ⟨u, hu, huw⟩ := hreach
            exact ⟨u, (hfound.marked u).mpr (.inl hu), huw⟩

/-- With a queue or level by level, a walk from given nodes visits the same. -/
theorem drain?_eq {start : List Nat}
    (hnext? : ∀ v < n, next? v = some (next v))
    (hnext : ∀ v, ∀ w ∈ next v, w < n) (hsize : seen.size = n)
    (hstart : ∀ v, Marked seen v ↔ v ∈ start)
    (hturns : unmarked seen + start.length ≤ n) :
    drain? next? n start seen = some
      (column n fun v => decide (v ∈ Graph.spread next n start start)) := by
  have h : Draining next start seen :=
    ⟨fun v hv => (hstart v).mpr hv,
      fun u hu hnot => absurd ((hstart u).mp hu) hnot⟩
  obtain ⟨last, hdrain, hlast, hmarked⟩ :=
    h.exists_drain? hnext? hnext hsize hturns
  rw [hdrain]
  refine congrArg some (eq_column_of_marked_iff hlast fun v _ => ?_)
  rw [hmarked, decide_eq_true_eq, Graph.mem_spread_iff
    (fun v hv => hsize ▸ ((hstart v).mpr hv).lt) hnext]
  simp only [hstart]

end Tables

end Workflow
