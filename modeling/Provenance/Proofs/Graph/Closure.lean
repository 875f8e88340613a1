import Mathlib.Algebra.BigOperators.Group.Finset.Piecewise
import Mathlib.Algebra.GroupWithZero.Nat
import Mathlib.Algebra.Order.BigOperators.Group.List
import Mathlib.Algebra.Order.Group.Nat
import Mathlib.Order.Lattice.Nat
import Provenance.Proofs.Graph.CycleReport

/-!
# What is reachable

The search for all that is reachable takes identifiers from a queue, and those that were found before
are passed over only then. Still what is found first is nearest: at any time the queue falls into
a part at some distance from the start, or found already, and a part one edge farther (`Explored`),
so that what is taken and was not found before is as far away as the first part says. When the queue
is empty all that is reachable has been found (`Explored.listed`), which happens before the bound on
the steps is reached, since the lists of neighbours are together no longer than the list of edges
(`sum_length_neighbours_le`).

The two indexes of neighbours say the same of the edges, so that `descendants` and `ancestors` are the
two directions of one relation (`closure_exact`).
-/

open Relation

namespace Provenance

namespace Graph

/-- A relation leads from `x` by a number of steps, one at least. -/
inductive Reaches (r : String → String → Prop) (x : String) : Nat → String → Prop
  | single {y : String} (h : r x y) : Reaches r x 1 y
  | tail {n : Nat} {y z : String} (h : Reaches r x n y) (hstep : r y z) : Reaches r x (n + 1) z

/-- The number of edges of a shortest path that has an edge; zero if there is no such path. -/
noncomputable def distance (g : Graph) (x y : String) : Nat :=
  sInf {n | Reaches g.Precedes x n y}

namespace Reaches

variable {r : String → String → Prop} {x y z : String} {n : Nat}

theorem pos (h : Reaches r x n y) : 0 < n := by
  cases h <;> omega

theorem head (hstep : r x y) (h : Reaches r y n z) : Reaches r x (n + 1) z := by
  induction h with
  | single h => exact .tail (.single hstep) h
  | tail _ hlast ih => exact .tail ih hlast

theorem swap (h : Reaches r x n y) : Reaches (Function.swap r) y n x := by
  induction h with
  | single h => exact .single h
  | tail _ hlast ih => exact .head hlast ih

theorem swap_iff : Reaches (Function.swap r) x n y ↔ Reaches r y n x :=
  ⟨swap, swap⟩

theorem exists_iff_transGen : (∃ n, Reaches r x n y) ↔ TransGen r x y := by
  constructor
  · rintro ⟨n, h⟩
    induction h with
    | single h => exact .single h
    | tail _ hlast ih => exact .tail ih hlast
  · intro h
    induction h with
    | single h => exact ⟨1, .single h⟩
    | tail _ hlast ih =>
      obtain ⟨n, hn⟩ := ih
      exact ⟨n + 1, .tail hn hlast⟩

end Reaches

/-! ## The search -/

section

variable {next : String → List String} {start : String}

/-- An identifier is among those that come next after another. -/
def Follows (next : String → List String) (x y : String) : Prop :=
  y ∈ next x

/-- The list of all that can be reached from the start, each once and nearest first. -/
structure Listed (next : String → List String) (start : String) (ids : List String) : Prop where
  distinct : ids.Nodup
  mem_iff : ∀ x, x ∈ ids ↔ ∃ n, Reaches (Follows next) start n x
  sorted : ids.Pairwise (fun x y ↦ ∀ n, Reaches (Follows next) start n y →
    ∃ m ≤ n, Reaches (Follows next) start m x)

/-- The state of a search: what was found, latest first, and a queue whose first part is `n` steps away
if it was not found before. Each element of the second part is one step farther. -/
structure Explored (next : String → List String) (start : String) (n : Nat)
    (found level later : List String) : Prop where
  distinct : found.Nodup
  sorted : found.Pairwise (fun y x ↦ ∀ n, Reaches (Follows next) start n y →
    ∃ m ≤ n, Reaches (Follows next) start m x)
  near : ∀ x ∈ found ++ level, ∃ m ≤ n, Reaches (Follows next) start m x
  far : ∀ x ∈ later, Reaches (Follows next) start (n + 1) x
  nearer : ∀ m < n, ∀ x, Reaches (Follows next) start m x → x ∈ found
  reached : ∀ x, Reaches (Follows next) start n x → x ∈ found ++ level
  followed : ∀ x ∈ found, ∀ y ∈ next x, y ∈ found ++ level ++ later
  started : 0 < n

variable {n : Nat} {found level later : List String} {id : String}

theorem explored_start : Explored next start 1 [] (next start) [] where
  distinct := List.nodup_nil
  sorted := .nil
  near x hx := ⟨1, Nat.le_refl 1, .single hx⟩
  far := List.forall_mem_nil _
  nearer m hm x hx := absurd hx.pos (by omega)
  reached x hx := by
    cases hx with
    | single h => exact h
    | tail h _ => exact absurd h.pos (Nat.lt_irrefl 0)
  followed := List.forall_mem_nil _
  started := Nat.one_pos

namespace Explored

/-- What was found before is passed over. -/
theorem skip (h : Explored next start n found (id :: level) later) (hfound : id ∈ found) :
    Explored next start n found level later := by
  have hmem {x : String} : x ∈ found ++ id :: level ↔ x ∈ found ++ level := by
    simp only [List.mem_append, List.mem_cons]
    constructor
    · rintro (hx | rfl | hx)
      exacts [.inl hx, .inl hfound, .inr hx]
    · exact Or.imp_right .inr
  refine { h with
    near := fun x hx ↦ h.near x (hmem.2 hx)
    reached := fun x hx ↦ hmem.1 (h.reached x hx)
    followed := fun x hx y hy ↦ ?_ }
  have hin := h.followed x hx y hy
  rw [List.mem_append] at hin ⊢
  exact hin.imp_left hmem.1

/-- What is found first is as far away as all that is waiting in its part of the queue. -/
theorem reaches_of_notMem (h : Explored next start n found (id :: level) later)
    (hnew : id ∉ found) : Reaches (Follows next) start n id := by
  obtain ⟨m, hle, hm⟩ := h.near id (by simp)
  obtain rfl | hlt := Nat.eq_or_lt_of_le hle
  · exact hm
  · exact absurd (h.nearer m hlt id hm) hnew

theorem visit (h : Explored next start n found (id :: level) later) (hnew : id ∉ found) :
    Explored next start n (id :: found) level
      (later ++ (next id).filter (· ∉ id :: found)) := by
  have hid := h.reaches_of_notMem hnew
  have hmem {x : String} : x ∈ found ++ id :: level ↔ x ∈ id :: found ++ level := by
    simp [or_left_comm]
  constructor
  case distinct => exact List.nodup_cons.2 ⟨hnew, h.distinct⟩
  case sorted =>
    refine List.pairwise_cons.2 ⟨fun x hx k hk ↦ ?_, h.sorted⟩
    obtain ⟨m, hm, hreaches⟩ := h.near x (List.mem_append_left _ hx)
    have hn : n ≤ k := Nat.le_of_not_lt fun hlt ↦ hnew (h.nearer k hlt id hk)
    exact ⟨m, hm.trans hn, hreaches⟩
  case near => exact fun x hx ↦ h.near x (hmem.2 hx)
  case far =>
    intro x hx
    rcases List.mem_append.1 hx with hx | hx
    · exact h.far x hx
    · exact hid.tail (List.mem_of_mem_filter hx)
  case nearer => exact fun m hm x hx ↦ List.mem_cons_of_mem _ (h.nearer m hm x hx)
  case reached => exact fun x hx ↦ hmem.1 (h.reached x hx)
  case followed =>
    intro x hx y hy
    rcases List.mem_cons.1 hx with rfl | hx
    · by_cases hy' : y ∈ x :: found
      · simp only [List.mem_append]
        exact .inl (.inl hy')
      · simp only [List.mem_append, List.mem_filter, decide_eq_true_iff]
        exact .inr (.inr ⟨hy, hy'⟩)
    · have hin := h.followed x hx y hy
      simp only [List.mem_append, List.mem_cons] at hin ⊢
      tauto
  case started => exact h.started

/-- When the first part of the queue is used up, the second part takes its place. -/
theorem descend (h : Explored next start n found [] later) :
    Explored next start (n + 1) found later [] := by
  have hfound {x : String} (hx : Reaches (Follows next) start n x) : x ∈ found := by
    simpa using h.reached x hx
  constructor
  case distinct => exact h.distinct
  case sorted => exact h.sorted
  case near =>
    intro x hx
    rcases List.mem_append.1 hx with hx | hx
    · obtain ⟨m, hm, hreaches⟩ := h.near x (List.mem_append_left _ hx)
      exact ⟨m, Nat.le_succ_of_le hm, hreaches⟩
    · exact ⟨n + 1, Nat.le_refl _, h.far x hx⟩
  case far => exact List.forall_mem_nil _
  case nearer =>
    intro m hm x hx
    rcases Nat.lt_succ_iff_lt_or_eq.1 hm with hlt | rfl
    · exact h.nearer m hlt x hx
    · exact hfound hx
  case reached =>
    intro x hx
    cases hx with
    | single => exact absurd h.started (Nat.lt_irrefl 0)
    | tail hpath hstep => simpa using h.followed _ (hfound hpath) x hstep
  case followed => simpa using h.followed
  case started => exact Nat.succ_pos n

/-- While something is waiting, the first part of the queue can be taken to have an element. -/
theorem exists_level (h : Explored next start n found level later) {queue : List String}
    (hqueue : level ++ later = id :: queue) :
    ∃ n level later, queue = level ++ later ∧ Explored next start n found (id :: level) later := by
  cases level with
  | nil =>
    obtain rfl : later = id :: queue := hqueue
    exact ⟨n + 1, queue, [], (List.append_nil queue).symm, h.descend⟩
  | cons first level =>
    obtain ⟨rfl, rfl⟩ := List.cons.inj hqueue
    exact ⟨n, level, later, rfl, h⟩

/-- When nothing waits any more, all has been found. -/
theorem listed (h : Explored next start n found [] []) : Listed next start found.reverse where
  distinct := List.nodup_reverse.2 h.distinct
  mem_iff x := by
    rw [List.mem_reverse]
    constructor
    · intro hx
      obtain ⟨m, -, hm⟩ := h.near x (List.mem_append_left _ hx)
      exact ⟨m, hm⟩
    · rintro ⟨m, hm⟩
      induction hm with
      | single hfirst =>
        rcases Nat.eq_or_lt_of_le h.started with heq | hlt
        · obtain rfl : 1 = n := heq
          simpa using h.reached _ (.single hfirst)
        · exact h.nearer 1 hlt _ (.single hfirst)
      | tail _ hstep ih => simpa using h.followed _ ih _ hstep
  sorted := List.pairwise_reverse.2 h.sorted

theorem mem_of_subset {known : List String} (hnext : ∀ x, next x ⊆ known)
    (h : Explored next start n found (id :: level) later) : id ∈ known := by
  obtain ⟨m, -, hm⟩ := h.near id (by simp)
  cases hm with
  | single hfirst => exact hnext _ hfirst
  | tail _ hstep => exact hnext _ hstep

end Explored

/-- How often something can still be taken from a queue, if only known identifiers are found. -/
def pending (next : String → List String) (known found queue : List String) : Nat :=
  queue.length + ((known.filter (· ∉ found)).map (fun id ↦ (next id).length)).sum

/-- What is found will not be found again, so that what it puts into the queue is counted no more. -/
theorem pending_visit (next : String → List String) (queue : List String) {known : List String}
    (hknown : known.Nodup) (hid : id ∈ known) (hnew : id ∉ found) :
    pending next known (id :: found) (queue ++ (next id).filter (· ∉ id :: found)) <
      pending next known found (id :: queue) := by
  have hrest : known.filter (· ∉ id :: found) = (known.filter (· ∉ found)).erase id := by
    rw [(hknown.filter _).erase_eq_filter, List.filter_filter]
    apply List.filter_congr
    intro x _
    by_cases hx : x = id <;> simp [hx]
  have hin : id ∈ known.filter (· ∉ found) := List.mem_filter.2 ⟨hid, decide_eq_true hnew⟩
  have hperm := List.perm_cons_erase hin
  have hsum := (hperm.map (fun id ↦ (next id).length)).sum_eq
  have hpushed := List.length_filter_le (· ∉ id :: found) (next id)
  unfold pending
  rw [hsum, hrest, List.map_cons, List.sum_cons, List.length_append, List.length_cons]
  omega

/-- A search that goes on long enough finds all that is reachable. -/
theorem Explored.listed_explore {known : List String} (hknown : known.Nodup)
    (hnext : ∀ x, next x ⊆ known) (h : Explored next start n found level later) {fuel : Nat}
    (hfuel : pending next known found (level ++ later) < fuel) :
    Listed next start (found.reverse ++ explore next fuel found (level ++ later)) := by
  induction fuel generalizing n found level later with
  | zero => omega
  | succ fuel ih =>
    cases hqueue : level ++ later with
    | nil =>
      obtain ⟨rfl, rfl⟩ := List.append_eq_nil_iff.1 hqueue
      simpa [explore] using h.listed
    | cons id queue =>
      obtain ⟨n, level, later, rfl, h⟩ := h.exists_level hqueue
      rw [hqueue] at hfuel
      unfold explore
      split
      · rename_i hfound
        refine ih (h.skip hfound) ?_
        unfold pending at *
        rw [List.length_cons] at hfuel
        omega
      · rename_i hnew
        have hvisit := pending_visit next (level ++ later) hknown (h.mem_of_subset hnext) hnew
        have hlisted := ih (h.visit hnew) (by rw [← List.append_assoc]; omega)
        simpa using hlisted

end

/-! ## The bound -/

theorem length_fresh_le (seen ids : List String) : (fresh seen ids).length ≤ ids.length := by
  induction ids generalizing seen with
  | nil => exact Nat.le_refl 0
  | cons id rest ih =>
    unfold fresh
    split
    · exact Nat.le_succ_of_le (ih seen)
    · exact Nat.succ_le_succ (ih _)

theorem length_neighbours_le (here there : Edge → String) (edges : List Edge) (id : String) :
    (neighbours here there edges id).length ≤ (edges.filter (fun e ↦ here e = id)).length :=
  (length_fresh_le [] _).trans (List.length_map _).le

/-- Each edge is counted for one of its ends. -/
theorem sum_length_filter_le (here : Edge → String) (edges : List Edge) {ids : List String}
    (hids : ids.Nodup) :
    (ids.map (fun id ↦ (edges.filter (fun e ↦ here e = id)).length)).sum ≤ edges.length := by
  induction edges with
  | nil => simp
  | cons e rest ih =>
    have hone : (ids.map (fun id ↦ if here e = id then 1 else 0)).sum ≤ 1 := by
      rw [← List.sum_toFinset _ hids, Finset.sum_ite_eq]
      split <;> decide
    have hcons (id : String) : ((e :: rest).filter (fun e ↦ here e = id)).length =
        (if here e = id then 1 else 0) + (rest.filter (fun e ↦ here e = id)).length := by
      by_cases heq : here e = id <;> simp [heq, Nat.add_comm]
    simp only [hcons, List.sum_map_add, List.length_cons]
    omega

/-- Together the lists of neighbours are no longer than the list of edges. -/
theorem sum_length_neighbours_le (here there : Edge → String) (edges : List Edge)
    {ids : List String} (hids : ids.Nodup) :
    (ids.map (fun id ↦ (neighbours here there edges id).length)).sum ≤ edges.length :=
  (List.sum_le_sum fun id _ ↦ length_neighbours_le here there edges id).trans
    (sum_length_filter_le here edges hids)

/-- All that can be reached along some edges is listed. -/
theorem listed_closure {g : Graph} {here there : Edge → String} {next : String → List String}
    (hnext : ∀ id, next id = neighbours here there g.edges id) (start : String) :
    Listed next start (g.closure next start) := by
  have hsubset (x : String) : next x ⊆ (g.edges.map there).dedup := fun y hy ↦ by
    rw [hnext, mem_neighbours] at hy
    obtain ⟨e, he, -, rfl⟩ := hy
    exact List.mem_dedup.2 (List.mem_map_of_mem he)
  have hstart : (next start).length ≤ g.edges.length := by
    rw [hnext]
    exact (length_neighbours_le ..).trans (List.length_filter_le ..)
  have hsum := sum_length_neighbours_le here there g.edges (List.nodup_dedup (g.edges.map there))
  have hfuel : pending next (g.edges.map there).dedup [] (next start ++ []) <
      2 * g.edges.length + 1 := by
    have hnone : (g.edges.map there).dedup.filter (· ∉ ([] : List String)) =
        (g.edges.map there).dedup := List.filter_eq_self.2 (by simp)
    unfold pending
    rw [List.append_nil, hnone]
    simp only [hnext] at hstart ⊢
    omega
  have hlisted := explored_start.listed_explore (List.nodup_dedup _) hsubset hfuel
  simpa [closure] using hlisted

section

variable {g : Graph} (hg : g.Indexed)

include hg

theorem listed_descendants (x : String) : Listed g.children x (g.descendants x) :=
  listed_closure hg.children x

theorem listed_ancestors (x : String) : Listed g.parents x (g.ancestors x) :=
  listed_closure hg.parents x

theorem follows_children : Follows g.children = g.Precedes := by
  funext x y
  exact propext hg.mem_children

theorem follows_parents : Follows g.parents = Function.swap g.Precedes := by
  funext x y
  exact propext hg.mem_parents

theorem mem_descendants {x y : String} : y ∈ g.descendants x ↔ TransGen g.Precedes x y := by
  rw [(listed_descendants hg x).mem_iff, follows_children hg, Reaches.exists_iff_transGen]

theorem mem_ancestors {x y : String} : x ∈ g.ancestors y ↔ TransGen g.Precedes x y := by
  rw [(listed_ancestors hg y).mem_iff, follows_parents hg, Reaches.exists_iff_transGen,
    transGen_swap]

end

/-! ## Distances and cycles -/

variable {g : Graph}

theorem distance_le {w x y z : String} (hz : TransGen g.Precedes x z)
    (h : ∀ n, Reaches g.Precedes x n z → ∃ m ≤ n, Reaches g.Precedes w m y) :
    g.distance w y ≤ g.distance x z := by
  obtain ⟨m, hm, hreaches⟩ := h _ (Nat.sInf_mem (Reaches.exists_iff_transGen.2 hz))
  exact (Nat.sInf_le hreaches).trans hm

/-- A stage can reach itself if it is on a cycle, and then on one without repetition. -/
theorem transGen_self_iff {id : String} (hg : g.Indexed) :
    TransGen g.Precedes id id ↔ ∃ cycle, g.IsCycle cycle ∧ cycle.Nodup ∧ id ∈ cycle := by
  constructor
  · intro h
    obtain ⟨rest, hchain⟩ := transGen_iff_exists_isChain.1 h
    have hcycle : g.IsCycle (id :: rest) := hchain
    have hid : id ∈ id :: rest := List.mem_cons_self ..
    obtain ⟨found, hfound, -⟩ := hcycle.exists_cycleThrough? hg (List.Subset.refl _) hid
    obtain ⟨hround, hhead, -, hsimple, -⟩ := (cycleThrough?_spec hg hid).1 found hfound
    exact ⟨found, hround, hsimple, List.mem_of_head? hhead⟩
  · rintro ⟨cycle, hcycle, -, hid⟩
    obtain ⟨turned, hturned, hhead, -⟩ := hcycle.rotate hid
    obtain ⟨rest, rfl⟩ := List.head?_eq_some_iff.1 hhead
    exact transGen_iff_exists_isChain.2 ⟨rest, hturned⟩

/-- What can be reached from a stage along one edge or more is listed once, nearest first; the stages
from which it can be reached are listed likewise. A stage is in its own lists if it is on a cycle. -/
theorem closure_exact (h : g.Obtained) (x : String) :
    (g.descendants x).Nodup ∧ (∀ y, y ∈ g.descendants x ↔ TransGen g.Precedes x y) ∧
      (g.descendants x).Pairwise (fun y z ↦ g.distance x y ≤ g.distance x z) ∧
      (g.ancestors x).Nodup ∧
      (g.ancestors x).Pairwise (fun y z ↦ g.distance y x ≤ g.distance z x) ∧
      (∀ y, y ∈ g.descendants x ↔ x ∈ g.ancestors y) ∧
      (∀ y, g.hasPath x y ↔ TransGen g.Precedes x y) ∧
      (x ∈ g.descendants x ↔ ∃ cycle, g.IsCycle cycle ∧ cycle.Nodup ∧ x ∈ cycle) := by
  have hg := h.indexed
  have hbelow := listed_descendants hg x
  have habove := listed_ancestors hg x
  have hmem {x y : String} := mem_descendants hg (x := x) (y := y)
  refine ⟨hbelow.distinct, fun y ↦ hmem, ?_, habove.distinct, ?_,
    fun y ↦ hmem.trans (mem_ancestors hg).symm, fun y ↦ ?_, hmem.trans (transGen_self_iff hg)⟩
  · refine hbelow.sorted.imp_of_mem fun {y z} _ hz hnear ↦ distance_le (hmem.1 hz) ?_
    rwa [follows_children hg] at hnear
  · refine habove.sorted.imp_of_mem fun {y z} _ hz hnear ↦ distance_le ((mem_ancestors hg).1 hz) ?_
    simpa only [follows_parents hg, Reaches.swap_iff] using hnear
  · rw [hasPath, List.contains_iff_mem, hmem]

/-- Two ways to one stage, a circle behind it, and an edge to an identifier that no stage has. -/
def delta : Graph :=
  sketch ["a", "b", "c", "d"]
    [("a", "b"), ("a", "c"), ("a", "b"), ("b", "d"), ("c", "d"), ("d", "b"), ("d", "x")]

theorem closure_exact_delta :
    delta.Obtained ∧ delta.descendants "a" = ["b", "c", "d", "x"] ∧
      delta.ancestors "x" = ["d", "b", "c", "a"] ∧ delta.hasPath "a" "x" ∧
      delta.distance "a" "c" ≤ delta.distance "a" "d" ∧ ¬TransGen delta.Precedes "a" "a" ∧
      ∃ cycle, delta.IsCycle cycle ∧ cycle.Nodup ∧ "b" ∈ cycle := by
  have hobtained : delta.Obtained := .ofLists ..
  have hlist : delta.descendants "a" = ["b", "c", "d", "x"] := by decide +kernel
  obtain ⟨-, hmem, hsorted, -, -, -, hpath, -⟩ := closure_exact hobtained "a"
  obtain ⟨-, -, -, -, -, -, -, hcycle⟩ := closure_exact hobtained "b"
  rw [hlist] at hmem hsorted
  refine ⟨hobtained, hlist, by decide +kernel, (hpath "x").2 ((hmem "x").1 (by decide)), ?_,
    mt (hmem "a").2 (by decide), hcycle.1 (by decide +kernel)⟩
  exact List.rel_of_pairwise_cons (List.pairwise_cons.1 hsorted).2 (by decide)

end Graph

end Provenance
