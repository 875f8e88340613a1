import Mathlib.Data.List.Chain
import Mathlib.Data.List.Perm.Subperm
import Provenance.Graph.Order
import Provenance.Proofs.Graph.Index

/-!
# Shortest cycles

The search for a cycle through a stage follows paths from it in the order of their lengths. Every
stage that is found is found by one path, and no other path to it is shorter, since the paths that
wait are at most one stage longer than the one that is followed (`Search`). So a path that closes is
as short as any that does (`Search.shortest`), and of the cycles through some stages that which is
found first is one of the shortest (`shortestCycle_spec`).
-/

namespace Provenance

namespace Graph

/-- Each stage of a list has an edge to the next, and the last one has an edge to the first. -/
def IsCycle (g : Graph) : List String → Prop
  | [] => False
  | first :: rest => (first :: rest ++ [first]).IsChain g.Precedes

/-- A path, latest stage first, leads from a stage through some stages. -/
structure Leads (g : Graph) (allowed : List String) (start : String) (path : List String) :
    Prop where
  start : path.getLast? = some start
  chain : path.IsChain (fun y x ↦ y ∈ g.children x)
  allowed : path ⊆ allowed

/-- From the latest stage of a path an edge leads to a stage. -/
def Closes (g : Graph) (start : String) (path : List String) : Prop :=
  ∃ x ∈ path.head?, start ∈ g.children x

/-- The answer of a search for a path that leads back to its start. -/
def Shortest (g : Graph) (allowed : List String) (start : String) : Option (List String) → Prop
  | some path =>
    g.Leads allowed start path ∧ path.Nodup ∧ g.Closes start path ∧
      ∀ other, g.Leads allowed start other → g.Closes start other → path.length ≤ other.length
  | none => ∀ other, g.Leads allowed start other → ¬g.Closes start other

/-- Paths in the order of their lengths, one to each of some stages and to the start. -/
structure Paths (g : Graph) (allowed : List String) (start : String) (found : List String)
    (paths : List (List String)) : Prop where
  distinct : (start :: found).Nodup
  within : found ⊆ allowed
  ends : (paths.map List.head?).Perm ((start :: found).map some)
  leads : ∀ path ∈ paths, g.Leads allowed start path ∧ path.Nodup ∧ path ⊆ start :: found
  sorted : paths.Pairwise (fun path other ↦ path.length ≤ other.length)
  origin : [start] ∈ paths

/-- The state of a search: paths that have been followed and paths that wait, which lead to the stages
that have been found. -/
structure Search (g : Graph) (allowed : List String) (start : String)
    (followed : List (List String)) (found : List String) (queue : List (List String)) : Prop where
  paths : g.Paths allowed start found (followed ++ queue)
  near : ∀ path ∈ followed ++ queue, ∀ other ∈ queue, path.length ≤ other.length + 1
  unclosed : ∀ path ∈ followed, ¬g.Closes start path
  explored : ∀ path ∈ followed, ∀ x ∈ path.head?, ∀ y ∈ g.children x, y ∈ allowed →
    ∃ other ∈ followed ++ queue, other.head? = some y ∧ other.length ≤ path.length + 1

variable {g : Graph} {allowed found path : List String} {start : String}
  {followed queue : List (List String)}

theorem leads_cons_cons {x y : String} : g.Leads allowed start (y :: x :: path) ↔
    y ∈ g.children x ∧ y ∈ allowed ∧ g.Leads allowed start (x :: path) := by
  constructor
  · rintro ⟨hstart, hchain, hallowed⟩
    obtain ⟨hy, hpath⟩ := List.cons_subset.1 hallowed
    obtain ⟨hchild, hchain⟩ := List.isChain_cons_cons.1 hchain
    exact ⟨hchild, hy, by simpa using hstart, hchain, hpath⟩
  · rintro ⟨hchild, hy, hstart, hchain, hallowed⟩
    exact ⟨by simpa using hstart, List.isChain_cons_cons.2 ⟨hchild, hchain⟩,
      List.cons_subset.2 ⟨hy, hallowed⟩⟩

/-! ## Paths and cycles -/

theorem isCycle_iff {cycle : List String} : g.IsCycle cycle ↔
    ∃ first, cycle.head? = some first ∧ (cycle ++ [first]).IsChain g.Precedes := by
  cases cycle with
  | nil => simp [IsCycle]
  | cons first rest => simp [IsCycle]

/-- The paths that lead back to their start are the cycles, latest stage first. -/
theorem leads_and_closes_iff (hg : g.Indexed) : g.Leads allowed start path ∧ g.Closes start path ↔
    g.IsCycle path.reverse ∧ path.reverse.head? = some start ∧ path ⊆ allowed := by
  have hchain : (path.reverse ++ [start]).IsChain g.Precedes ↔
      (∀ x ∈ path.head?, start ∈ g.children x) ∧ path.IsChain (fun y x ↦ y ∈ g.children x) := by
    simp only [hg.mem_children]
    rw [← List.reverse_cons, List.isChain_reverse, List.isChain_cons]
  rw [isCycle_iff, List.head?_reverse]
  constructor
  · rintro ⟨⟨hstart, hpath, hallowed⟩, x, hx, hclose⟩
    refine ⟨⟨start, hstart, hchain.2 ⟨fun y hy ↦ ?_, hpath⟩⟩, hstart, hallowed⟩
    rwa [Option.mem_unique hy hx]
  · rintro ⟨⟨first, hfirst, hcycle⟩, hstart, hallowed⟩
    obtain rfl := Option.some.inj (hfirst.symm.trans hstart)
    obtain ⟨hclose, hpath⟩ := hchain.1 hcycle
    obtain ⟨x, hx⟩ : ∃ x, path.head? = some x := by
      cases path with
      | nil => cases hstart
      | cons x rest => exact ⟨x, rfl⟩
    exact ⟨⟨hstart, hpath, hallowed⟩, x, hx, hclose x hx⟩

/-! ## The search -/

theorem Paths.exists_of_found {paths : List (List String)} (h : g.Paths allowed start found paths)
    {id : String} (hid : id ∈ start :: found) : ∃ path ∈ paths, path.head? = some id :=
  List.mem_map.1 (h.ends.mem_iff.2 (List.mem_map_of_mem hid))

/-- There are no more paths than stages. -/
theorem Paths.length_le {paths : List (List String)} (h : g.Paths allowed start found paths)
    (hstart : start ∈ allowed) : paths.length ≤ allowed.length := by
  have hlength := h.ends.length_eq
  rw [List.length_map, List.length_map] at hlength
  rw [hlength]
  exact (List.Nodup.subperm h.distinct (List.cons_subset.2 ⟨hstart, h.within⟩)).length_le

/-- A path is continued to stages that have not been found. -/
theorem Paths.extend {paths : List (List String)} (h : g.Paths allowed start found paths) {x : String}
    (hpath : x :: path ∈ paths) (hlong : ∀ other ∈ paths, other.length ≤ path.length + 2)
    {next : List String} (hdistinct : next.Nodup)
    (hnext : ∀ y ∈ next, y ∈ g.children x ∧ y ∈ allowed ∧ y ∉ start :: found) :
    g.Paths allowed start (next ++ found) (paths ++ next.map (· :: x :: path)) := by
  have hgrows : start :: found ⊆ start :: (next ++ found) :=
    List.cons_subset_cons _ (List.subset_append_right ..)
  obtain ⟨hleads, hsimple, hpast⟩ := h.leads (x :: path) hpath
  constructor
  case distinct =>
    obtain ⟨hstart, hfound⟩ := List.nodup_cons.1 h.distinct
    refine List.nodup_cons.2 ⟨fun hmem ↦ ?_, hdistinct.append hfound fun y hy hin ↦ ?_⟩
    · rcases List.mem_append.1 hmem with hmem | hmem
      · exact (hnext _ hmem).2.2 (List.mem_cons_self ..)
      · exact hstart hmem
    · exact (hnext y hy).2.2 (List.mem_cons_of_mem _ hin)
  case within => exact List.append_subset.2 ⟨fun y hy ↦ (hnext y hy).2.1, h.within⟩
  case ends =>
    have hends : (next.map (· :: x :: path)).map List.head? = next.map some := by simp
    rw [List.map_append, hends]
    refine (h.ends.append_right _).trans ?_
    rw [← List.map_append]
    exact (List.perm_append_comm.cons start).map some
  case leads =>
    intro other hother
    rcases List.mem_append.1 hother with hother | hother
    · obtain ⟨hleads, hsimple, hpast⟩ := h.leads other hother
      exact ⟨hleads, hsimple, fun y hy ↦ hgrows (hpast hy)⟩
    · obtain ⟨y, hy, rfl⟩ := List.mem_map.1 hother
      obtain ⟨hchild, hallowed, hnew⟩ := hnext y hy
      refine ⟨leads_cons_cons.2 ⟨hchild, hallowed, hleads⟩, ?_, ?_⟩
      · exact List.nodup_cons.2 ⟨fun hmem ↦ hnew (hpast hmem), hsimple⟩
      · have hfound : y ∈ start :: (next ++ found) := by simp [hy]
        exact List.cons_subset.2 ⟨hfound, fun z hz ↦ hgrows (hpast hz)⟩
  case sorted =>
    refine List.pairwise_append.2 ⟨h.sorted, ?_, fun other hother longer hlonger ↦ ?_⟩
    · exact List.pairwise_map.2 (List.pairwise_of_forall fun _ _ ↦ Nat.le_refl _)
    · obtain ⟨y, -, rfl⟩ := List.mem_map.1 hlonger
      exact hlong other hother
  case origin => exact List.mem_append_left _ h.origin

namespace Search

/-- For each path from the start there is one to the same stage that is not longer and has been
followed, unless one that waits is not longer. -/
theorem exists_followed_or_queued (h : Search g allowed start followed found queue)
    {walk : List String} (hwalk : g.Leads allowed start walk) :
    (∃ path ∈ queue, path.length ≤ walk.length) ∨
      ∃ path ∈ followed, path.head? = walk.head? ∧ path.length ≤ walk.length := by
  induction walk with
  | nil => cases hwalk.start
  | cons y rest ih =>
    cases rest with
    | nil =>
      obtain rfl : y = start := Option.some.inj hwalk.start
      rcases List.mem_append.1 h.paths.origin with hmem | hmem
      · exact .inr ⟨_, hmem, rfl, Nat.le_refl _⟩
      · exact .inl ⟨_, hmem, Nat.le_refl _⟩
    | cons x rest =>
      obtain ⟨hchild, hy, hrest⟩ := leads_cons_cons.1 hwalk
      rcases ih hrest with ⟨path, hpath, hle⟩ | ⟨path, hpath, hx, hle⟩
      · exact .inl ⟨path, hpath, Nat.le_succ_of_le hle⟩
      · obtain ⟨other, hother, hend, hlength⟩ := h.explored path hpath x hx y hchild hy
        have hshort : other.length ≤ (y :: x :: rest).length :=
          hlength.trans (Nat.succ_le_succ hle)
        rcases List.mem_append.1 hother with hmem | hmem
        · exact .inr ⟨other, hmem, hend, hshort⟩
        · exact .inl ⟨other, hmem, hshort⟩

/-- As long as some path leads back to the start, one that waits is not longer. -/
theorem exists_queued (h : Search g allowed start followed found queue) {walk : List String}
    (hwalk : g.Leads allowed start walk) (hcloses : g.Closes start walk) :
    ∃ path ∈ queue, path.length ≤ walk.length := by
  refine (h.exists_followed_or_queued hwalk).resolve_right ?_
  rintro ⟨path, hpath, hend, -⟩
  obtain ⟨x, hx, hclose⟩ := hcloses
  exact h.unclosed path hpath ⟨x, hend ▸ hx, hclose⟩

/-- To follow the path that waits first keeps the state of the search. -/
theorem next {x : String} (h : Search g allowed start followed found ((x :: path) :: queue))
    (hopen : start ∉ g.children x) :
    Search g allowed start (followed ++ [x :: path])
      (fresh found ((g.children x).filter (· ∈ allowed)) ++ found)
      (queue ++ (fresh found ((g.children x).filter (· ∈ allowed))).map (· :: x :: path)) := by
  generalize hnext : fresh found ((g.children x).filter (· ∈ allowed)) = next
  have hmem (y : String) : y ∈ next ↔ (y ∈ g.children x ∧ y ∈ allowed) ∧ y ∉ found := by
    rw [← hnext, mem_fresh, List.mem_filter, decide_eq_true_iff]
  have hself : x :: path ∈ followed ++ (x :: path) :: queue := by simp
  have hall : followed ++ [x :: path] ++ (queue ++ next.map (· :: x :: path)) =
      followed ++ (x :: path) :: queue ++ next.map (· :: x :: path) := by
    simp
  have hlong : ∀ other ∈ followed ++ (x :: path) :: queue, other.length ≤ path.length + 2 :=
    fun other hother ↦ h.near other hother (x :: path) (List.mem_cons_self ..)
  have hwaits : ∀ other ∈ queue, path.length + 1 ≤ other.length :=
    fun other ↦ List.rel_of_pairwise_cons (List.pairwise_append.1 h.paths.sorted).2.1
  constructor
  case paths =>
    rw [hall]
    refine h.paths.extend hself hlong (hnext ▸ nodup_fresh ..) fun y hy ↦ ?_
    obtain ⟨⟨hchild, hallowed⟩, hnew⟩ := (hmem y).1 hy
    refine ⟨hchild, hallowed, fun hin ↦ ?_⟩
    rcases List.mem_cons.1 hin with rfl | hin
    · exact hopen hchild
    · exact hnew hin
  case near =>
    -- What waited is at least as long as the path that is followed, and what is new is longer.
    rw [hall]
    intro one hone other hother
    have hshort : one.length ≤ path.length + 2 := by
      rcases List.mem_append.1 hone with hone | hone
      · exact hlong one hone
      · obtain ⟨y, -, rfl⟩ := List.mem_map.1 hone
        exact Nat.le_refl _
    rcases List.mem_append.1 hother with hother | hother
    · exact hshort.trans (Nat.succ_le_succ (hwaits other hother))
    · obtain ⟨y, -, rfl⟩ := List.mem_map.1 hother
      exact Nat.le_succ_of_le hshort
  case unclosed =>
    intro other hother
    rcases List.mem_append.1 hother with hother | hother
    · exact h.unclosed other hother
    · rw [List.mem_singleton.1 hother]
      rintro ⟨z, hz, hclose⟩
      obtain rfl := Option.some.inj hz
      exact hopen hclose
  case explored =>
    rw [hall]
    intro other hother z hz y hy hallowed
    rcases List.mem_append.1 hother with hother | hother
    · obtain ⟨longer, hlonger, hend⟩ := h.explored other hother z hz y hy hallowed
      exact ⟨longer, List.mem_append_left _ hlonger, hend⟩
    · rw [List.mem_singleton.1 hother] at hz ⊢
      obtain rfl := Option.some.inj hz
      by_cases hfound : y ∈ found
      · obtain ⟨longer, hlonger, hend⟩ := h.paths.exists_of_found (List.mem_cons_of_mem _ hfound)
        exact ⟨longer, List.mem_append_left _ hlonger, hend, hlong longer hlonger⟩
      · have hy' : y ∈ next := (hmem y).2 ⟨⟨hy, hallowed⟩, hfound⟩
        exact ⟨_, List.mem_append_right _ (List.mem_map_of_mem hy'), rfl, Nat.le_refl _⟩

end Search

theorem search_start (hstart : start ∈ allowed) : g.Search allowed start [] [] [[start]] where
  paths :=
    { distinct := List.nodup_singleton start
      within := List.nil_subset _
      ends := .refl _
      leads := by
        intro path hpath
        rw [List.mem_singleton.1 hpath]
        exact ⟨⟨rfl, .singleton _, by simpa using hstart⟩, List.nodup_singleton _, List.Subset.refl _⟩
      sorted := List.pairwise_singleton _ _
      origin := List.mem_singleton_self _ }
  near := by simp
  unclosed := by simp
  explored := by simp

/-- The path that the search finds is as short as any that leads back to the start. -/
theorem Search.shortest (h : Search g allowed start followed found queue)
    (hstart : start ∈ allowed) {fuel : Nat} (hfuel : followed.length + fuel = allowed.length + 1) :
    g.Shortest allowed start (g.closingPath? allowed start fuel found queue) := by
  induction fuel generalizing followed found queue with
  | zero =>
    have hle := h.paths.length_le hstart
    rw [List.length_append] at hle
    omega
  | succ fuel ih =>
    rcases queue with _ | ⟨_ | ⟨x, path⟩, queue⟩
    · rw [closingPath?]
      intro other hother hcloses
      obtain ⟨path, hpath, -⟩ := h.exists_queued hother hcloses
      cases hpath
    · have hleads := (h.paths.leads [] (by simp)).1
      cases hleads.start
    · rw [closingPath?]
      split
      · rename_i hclose
        obtain ⟨hleads, hdistinct, -⟩ := h.paths.leads (x :: path) (by simp)
        refine ⟨hleads, hdistinct, ⟨x, rfl, hclose⟩, fun other hother hcloses ↦ ?_⟩
        obtain ⟨shorter, hshorter, hle⟩ := h.exists_queued hother hcloses
        rcases List.mem_cons.1 hshorter with rfl | hmem
        · exact hle
        · have hsorted := (List.pairwise_append.1 h.paths.sorted).2.1
          exact (List.rel_of_pairwise_cons hsorted hmem).trans hle
      · rename_i hopen
        exact ih (h.next hopen) (by simp; omega)

/-! ## Cycles through some stages -/

section

variable (hg : g.Indexed) {stages : List String}

include hg

/-- A cycle through a stage is found if there is one, and then it is as short as any other. -/
theorem cycleThrough?_spec (hstart : start ∈ stages) :
    (∀ cycle, g.cycleThrough? stages start = some cycle →
      g.IsCycle cycle ∧ cycle.head? = some start ∧ cycle ⊆ stages ∧ cycle.Nodup ∧
        ∀ other, g.IsCycle other → other.head? = some start → other ⊆ stages →
          cycle.length ≤ other.length) ∧
      (g.cycleThrough? stages start = none →
        ∀ other, g.IsCycle other → other.head? = some start → ¬other ⊆ stages) := by
  have hshortest := (search_start (g := g) hstart).shortest hstart (Nat.zero_add _)
  have hpath (other : List String) (hcycle : g.IsCycle other) (hhead : other.head? = some start)
      (hwithin : other ⊆ stages) :
      g.Leads stages start other.reverse ∧ g.Closes start other.reverse := by
    refine (leads_and_closes_iff hg).2 ?_
    rw [List.reverse_reverse]
    exact ⟨hcycle, hhead, fun id hid ↦ hwithin (List.mem_reverse.1 hid)⟩
  unfold cycleThrough?
  constructor
  · intro cycle hcycle
    obtain ⟨path, hfound, rfl⟩ := Option.map_eq_some_iff.1 hcycle
    rw [hfound] at hshortest
    obtain ⟨hleads, hsimple, hcloses, hmin⟩ := hshortest
    obtain ⟨hcycle, hhead, hwithin⟩ := (leads_and_closes_iff hg).1 ⟨hleads, hcloses⟩
    refine ⟨hcycle, hhead, fun id hid ↦ hwithin (List.mem_reverse.1 hid),
      List.nodup_reverse.2 hsimple, fun other hother hstart hin ↦ ?_⟩
    obtain ⟨hlead, hclose⟩ := hpath other hother hstart hin
    simpa using hmin _ hlead hclose
  · intro hnone other hother hhead hin
    rw [Option.map_eq_none_iff.1 hnone] at hshortest
    obtain ⟨hlead, hclose⟩ := hpath other hother hhead hin
    exact hshortest _ hlead hclose

end

/-- Of the cycles that were found, one is shorter than all before it and not longer than those after
it. -/
def IsFirstShortest (cycles : List (Option (List String))) (best : List String) : Prop :=
  ∃ before after, cycles = before ++ some best :: after ∧
    (∀ cycle, some cycle ∈ before → best.length < cycle.length) ∧
    ∀ cycle, some cycle ∈ after → best.length ≤ cycle.length

theorem IsFirstShortest.length_le {cycles : List (Option (List String))} {best cycle : List String}
    (h : IsFirstShortest cycles best) (hcycle : some cycle ∈ cycles) :
    best.length ≤ cycle.length := by
  obtain ⟨before, after, rfl, hbefore, hafter⟩ := h
  rcases List.mem_append.1 hcycle with hmem | hmem
  · exact (hbefore cycle hmem).le
  · rcases List.mem_cons.1 hmem with heq | hmem
    · rw [Option.some.inj heq]
    · exact hafter cycle hmem

theorem IsFirstShortest.concat {cycles : List (Option (List String))} {best : List String}
    (h : IsFirstShortest cycles best) {last : Option (List String)}
    (hlast : ∀ cycle, last = some cycle → best.length ≤ cycle.length) :
    IsFirstShortest (cycles ++ [last]) best := by
  obtain ⟨before, after, rfl, hbefore, hafter⟩ := h
  refine ⟨before, after ++ [last], by simp, hbefore, fun cycle hcycle ↦ ?_⟩
  rcases List.mem_append.1 hcycle with hmem | hmem
  · exact hafter cycle hmem
  · exact hlast cycle (List.mem_singleton.1 hmem).symm

/-- Of the cycles that were found the first of the shortest is chosen, if there is any. -/
theorem foldl_shorter (cycles : List (Option (List String))) :
    match cycles.foldl shorter none with
    | none => ∀ cycle ∈ cycles, cycle = none
    | some best => IsFirstShortest cycles best := by
  induction cycles using List.reverseRecOn with
  | nil => simp
  | append_singleton cycles last ih =>
    rw [List.foldl_concat]
    cases hbest : cycles.foldl shorter none with
    | none =>
      rw [hbest] at ih
      cases last with
      | none =>
        intro cycle hcycle
        rcases List.mem_append.1 hcycle with hmem | hmem
        · exact ih cycle hmem
        · exact List.mem_singleton.1 hmem
      | some cycle =>
        refine ⟨cycles, [], rfl, fun other hother ↦ ?_, by simp⟩
        cases ih _ hother
    | some best =>
      rw [hbest] at ih
      cases last with
      | none => exact ih.concat (by simp)
      | some cycle =>
        by_cases hlt : cycle.length < best.length
        · have hnew : shorter (some best) (some cycle) = some cycle := if_pos hlt
          rw [hnew]
          exact ⟨cycles, [], rfl, fun other hother ↦ hlt.trans_le (ih.length_le hother), by simp⟩
        · have hold : shorter (some best) (some cycle) = some best := if_neg hlt
          rw [hold]
          exact ih.concat fun other hother ↦ Option.some.inj hother ▸ Nat.le_of_not_lt hlt

/-- The cycle that is given goes through the first of the stages on which such a short one is found. -/
theorem shortestCycle_cases (stages : List String) :
    (g.shortestCycle stages = [] ∧ ∀ id ∈ stages, g.cycleThrough? stages id = none) ∨
      ∃ before first after, stages = before ++ first :: after ∧
        g.cycleThrough? stages first = some (g.shortestCycle stages) ∧
        (∀ id ∈ before, ∀ cycle, g.cycleThrough? stages id = some cycle →
          (g.shortestCycle stages).length < cycle.length) ∧
        ∀ id ∈ stages, ∀ cycle, g.cycleThrough? stages id = some cycle →
          (g.shortestCycle stages).length ≤ cycle.length := by
  have hmem {id : String} {cycle : List String} {ids : List String} (hid : id ∈ ids)
      (hcycle : g.cycleThrough? stages id = some cycle) :
      some cycle ∈ ids.map (g.cycleThrough? stages) :=
    List.mem_map.2 ⟨id, hid, hcycle⟩
  have hchosen := foldl_shorter (stages.map (g.cycleThrough? stages))
  unfold shortestCycle
  cases hbest : (stages.map (g.cycleThrough? stages)).foldl shorter none with
  | none =>
    rw [hbest] at hchosen
    exact .inl ⟨rfl, fun id hid ↦ hchosen _ (List.mem_map_of_mem hid)⟩
  | some best =>
    rw [hbest] at hchosen
    obtain ⟨_, _, hsplit, hbefore, -⟩ := id hchosen
    obtain ⟨before, rest, hstages, rfl, hrest⟩ := List.map_eq_append_iff.1 hsplit
    obtain ⟨first, after, rfl, hfirst, rfl⟩ := List.map_eq_cons_iff.1 hrest
    exact .inr ⟨before, first, after, hstages, hfirst,
      fun id hid cycle hcycle ↦ hbefore cycle (hmem hid hcycle),
      fun id hid cycle hcycle ↦ hchosen.length_le (hmem hid hcycle)⟩

/-- A cycle can be read from each of its stages. -/
theorem IsCycle.rotate {cycle : List String} (h : g.IsCycle cycle) {id : String} (hid : id ∈ cycle) :
    ∃ other, g.IsCycle other ∧ other.head? = some id ∧ other.Perm cycle := by
  obtain ⟨before, after, rfl⟩ := List.append_of_mem hid
  refine ⟨id :: after ++ before, ?_, rfl, List.perm_append_comm⟩
  cases before with
  | nil => simpa using h
  | cons first before =>
    have hround : (first :: before ++ id :: (after ++ [first])).IsChain g.Precedes := by
      simpa [IsCycle] using h
    obtain ⟨hbefore, hafter⟩ := List.isChain_split.1 hround
    have hback : (id :: after ++ first :: (before ++ [id])).IsChain g.Precedes :=
      List.isChain_split.2 ⟨by simpa using hafter, by simpa using hbefore⟩
    simpa [IsCycle] using hback

theorem IsCycle.exists_mem {cycle : List String} (h : g.IsCycle cycle) : ∃ id, id ∈ cycle := by
  cases cycle with
  | nil => cases h
  | cons id rest => exact ⟨id, List.mem_cons_self ..⟩

section

variable (hg : g.Indexed) {stages : List String}

include hg

/-- For each stage of a cycle one that is not longer is found. -/
theorem IsCycle.exists_cycleThrough? {cycle : List String} (h : g.IsCycle cycle)
    (hin : cycle ⊆ stages) {id : String} (hid : id ∈ cycle) :
    ∃ found, g.cycleThrough? stages id = some found ∧ found.length ≤ cycle.length := by
  obtain ⟨turned, hturned, hhead, hperm⟩ := h.rotate hid
  have hturnedin : turned ⊆ stages := fun x hx ↦ hin (hperm.subset hx)
  obtain ⟨hsome, hnone⟩ := cycleThrough?_spec hg (hin hid)
  cases hfound : g.cycleThrough? stages id with
  | none => exact absurd hturnedin (hnone hfound turned hturned hhead)
  | some found =>
    refine ⟨found, rfl, hperm.length_eq ▸ ?_⟩
    exact (hsome found hfound).2.2.2.2 turned hturned hhead hturnedin

/-- If there are cycles of some stages, one of the shortest is given, from the first stage that is on
such a cycle. -/
theorem shortestCycle_spec {cycle : List String} (hcycle : g.IsCycle cycle) (hin : cycle ⊆ stages) :
    ∃ before first after, stages = before ++ first :: after ∧
      g.IsCycle (g.shortestCycle stages) ∧ (g.shortestCycle stages).head? = some first ∧
      (g.shortestCycle stages).Nodup ∧
      ∀ other, g.IsCycle other → other ⊆ stages →
        (g.shortestCycle stages).length ≤ other.length ∧
          (other.length = (g.shortestCycle stages).length → ∀ id ∈ other, id ∉ before) := by
  rcases g.shortestCycle_cases stages with
    ⟨-, hnone⟩ | ⟨before, first, after, hsplit, hfirst, hbefore, hleast⟩
  · obtain ⟨id, hid⟩ := hcycle.exists_mem
    obtain ⟨found, hfound, -⟩ := hcycle.exists_cycleThrough? hg hin hid
    rw [hnone id (hin hid)] at hfound
    cases hfound
  · have hstage : first ∈ stages := by simp [hsplit]
    obtain ⟨hcyclic, hhead, -, hsimple, -⟩ := (cycleThrough?_spec hg hstage).1 _ hfirst
    refine ⟨before, first, after, hsplit, hcyclic, hhead, hsimple,
      fun other hother hotherin ↦ ⟨?_, fun hlength id hid hearlier ↦ ?_⟩⟩
    · obtain ⟨id, hid⟩ := hother.exists_mem
      obtain ⟨found, hfound, hle⟩ := hother.exists_cycleThrough? hg hotherin hid
      exact (hleast id (hotherin hid) found hfound).trans hle
    · obtain ⟨found, hfound, hle⟩ := hother.exists_cycleThrough? hg hotherin hid
      have hlt := hbefore id hearlier found hfound
      omega

/-- What is given is a cycle of the stages, if anything is. -/
theorem isCycle_shortestCycle (hsome : g.shortestCycle stages ≠ []) :
    g.IsCycle (g.shortestCycle stages) ∧ g.shortestCycle stages ⊆ stages := by
  rcases g.shortestCycle_cases stages with ⟨hnone, -⟩ | ⟨before, first, after, hsplit, hfirst, -⟩
  · exact absurd hnone hsome
  · have hstage : first ∈ stages := by simp [hsplit]
    obtain ⟨hcyclic, -, hwithin, -⟩ := (cycleThrough?_spec hg hstage).1 _ hfirst
    exact ⟨hcyclic, hwithin⟩

end

end Graph

end Provenance
