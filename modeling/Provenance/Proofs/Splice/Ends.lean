import Mathlib.Data.Multiset.Bind
import Mathlib.Tactic.Abel
import Provenance.Proofs.Splice.Rewiring

/-!
# Rewiring as a substitution of ends

An end of a macro's connection stands for ends in the calling document: at an inner node for its new
place, and at a boundary node for whatever is connected to the anchors in its place (`Site.ends`).
The result of a splice has, for each connection of the macro, all connections between the ends that
its ends stand for, beside those that the call is no part of (`coe_connections`). What two splices
make together is computed from this equation.

Sources and targets behave alike, so the side of the call is a parameter (`Side`).
-/

namespace Provenance

namespace Splice

/-- The connections from some ends to others. -/
def links (sources targets : Multiset Endpoint) : Multiset Connection :=
  sources.bind (fun source ↦ targets.map (fun target ↦ ⟨source, target⟩))

section

variable (A A' B B' : Multiset Endpoint)

@[simp]
theorem links_zero_left : links 0 B = 0 := rfl

@[simp]
theorem links_zero_right : links A 0 = 0 := by
  simp [links]

@[simp]
theorem links_singleton (a b : Endpoint) : links {a} {b} = {⟨a, b⟩} := rfl

theorem links_ite (p q : Prop) [Decidable p] [Decidable q] (a b : Endpoint) :
    links (if p then {a} else 0) (if q then {b} else 0) = if p ∧ q then {⟨a, b⟩} else 0 := by
  by_cases hp : p <;> by_cases hq : q <;> simp [hp, hq]

theorem links_ite_left (p : Prop) [Decidable p] :
    links (if p then A else 0) B = if p then links A B else 0 := by
  split <;> simp

theorem links_ite_right (p : Prop) [Decidable p] :
    links A (if p then B else 0) = if p then links A B else 0 := by
  split <;> simp

theorem links_add_left : links (A + A') B = links A B + links A' B := by
  simp [links]

theorem links_add_right : links A (B + B') = links A B + links A B' := by
  simp [links]

variable {α : Type} (s : Multiset α) (f : α → Multiset Endpoint)

theorem links_bind_left : links (s.bind f) B = s.bind (fun x ↦ links (f x) B) :=
  Multiset.bind_assoc

theorem links_bind_right : links A (s.bind f) = s.bind (fun x ↦ links A (f x)) := by
  simp only [links, Multiset.map_bind]
  exact Multiset.bind_bind _ _

/-- A substitution of ends, in each of the connections between some. -/
theorem links_bind_links (f g : Endpoint → Multiset Endpoint) :
    (links A B).bind (fun c ↦ links (f c.source) (g c.target)) = links (A.bind f) (B.bind g) := by
  calc (links A B).bind (fun c ↦ links (f c.source) (g c.target))
    _ = A.bind (fun a ↦ B.bind (fun b ↦ links (f a) (g b))) := by
        rw [links, Multiset.bind_assoc]
        simp only [Multiset.bind_map]
    _ = links (A.bind f) (B.bind g) := by
        rw [links_bind_left]
        simp only [links_bind_right]

theorem filter_links (p : Endpoint → Prop) [DecidablePred p] :
    (links A B).filter (fun c ↦ p c.source ∧ p c.target) = links (A.filter p) (B.filter p) := by
  simp only [links, Multiset.filter_bind, Multiset.bind_filter, Multiset.filter_map]
  apply Multiset.bind_congr
  intro a _
  by_cases ha : p a <;> simp [ha]

end

/-- The side of a call on which connections enter it, or that on which they leave it. -/
inductive Side where
  | input
  | output

namespace Side

/-- The opposite side. -/
def other : Side → Side
  | input => output
  | output => input

/-- The end of a connection that is at the call, if the connection is on this side of it. -/
def near : Side → Connection → Endpoint
  | input, c => c.target
  | output, c => c.source

/-- The end that leads away. -/
def far : Side → Connection → Endpoint
  | input, c => c.source
  | output, c => c.target

/-- The connections on this side between ends that lead away and ends at the call. -/
def links : Side → Multiset Endpoint → Multiset Endpoint → Multiset Connection
  | input, fars, nears => Splice.links fars nears
  | output, fars, nears => Splice.links nears fars

theorem near_other (side : Side) (c : Connection) : side.other.near c = side.far c := by
  cases side <;> rfl

theorem far_other (side : Side) (c : Connection) : side.other.far c = side.near c := by
  cases side <;> rfl

end Side

namespace Site

/-- The boundary node that an anchor on one side of the call stands for. -/
def boundaryNode? (s : Site) : Side → String → Option String
  | .input => s.inputNode?
  | .output => s.outputNode?

/-- Whether an end of the calling document is at the anchor in the place of a boundary node. -/
def Meets (s : Site) (side : Side) (e b : Endpoint) : Prop :=
  e.node = s.callSite ∧ s.boundaryNode? side e.anchor = some b.node

instance (s : Site) (side : Side) (e b : Endpoint) : Decidable (s.Meets side e b) :=
  inferInstanceAs (Decidable (_ ∧ _))

/-- What an end of the macro stands for if it is at an inner node. -/
def place (s : Site) (e : Endpoint) : Multiset Endpoint :=
  if s.definition.onBoundary e.node = false then {innerEnd s.callSite e} else 0

/-- What an end of the macro stands for if it is at a boundary node. -/
def across (s : Site) (side : Side) (cs : Multiset Connection) (e : Endpoint) :
    Multiset Endpoint :=
  cs.bind (fun c ↦ if s.Meets side (side.near c) e then {side.far c} else 0)

/-- What an end of the macro stands for, if the calling document has certain connections. -/
def ends (s : Site) (side : Side) (cs : Multiset Connection) (e : Endpoint) : Multiset Endpoint :=
  s.place e + s.across side cs e

/-- What a connection of the macro becomes. -/
def paths (s : Site) (cs : Multiset Connection) (c : Connection) : Multiset Connection :=
  links (s.ends .input cs c.source) (s.ends .output cs c.target)

/-- The connections that the call is no part of. -/
def apart (s : Site) (cs : Multiset Connection) : Multiset Connection :=
  cs.filter (fun c ↦ c.source.node ≠ s.callSite ∧ c.target.node ≠ s.callSite)

/-- The connections with the macro in the place of the call. -/
def substituted (s : Site) (cs : Multiset Connection) : Multiset Connection :=
  s.apart cs + (s.definition.connections : Multiset Connection).bind (s.paths cs)

/-! ## The connections after a splice -/

theorem coe_filterMap_ite {α β : Type} (l : List α) (p : α → Prop) [DecidablePred p] (f : α → β) :
    (l.filterMap (fun x ↦ if p x then some (f x) else none) : Multiset β) =
      (l : Multiset α).bind (fun x ↦ if p x then {f x} else 0) := by
  rw [← Multiset.filterMap_coe, Multiset.filterMap_eq_bind]
  apply Multiset.bind_congr
  intro x _
  split <;> rfl

theorem coe_flatMap {α β : Type} (l : List α) (f : α → List β) :
    (l.flatMap f : Multiset β) = (l : Multiset α).bind (fun x ↦ (f x : Multiset β)) :=
  (Multiset.coe_bind l f).symm

section

variable (s : Site) (parent : Document)

theorem coe_untouched :
    (s.untouched parent : Multiset Connection) = s.apart parent.connections := by
  rw [untouched, apart, Multiset.filter_coe]
  congr 1
  apply List.filter_congr
  intro c _
  simp

theorem coe_inside : (s.inside : Multiset Connection) =
    (s.definition.connections : Multiset Connection).bind (fun c ↦
      links (s.place c.source) (s.place c.target)) := by
  simp only [inside, coe_filterMap_ite, place, innerEnd_eq_placed, links_ite]

theorem coe_entering : (parent.connections.flatMap s.entering : Multiset Connection) =
    (s.definition.connections : Multiset Connection).bind (fun c ↦
      links (s.across .input parent.connections c.source) (s.place c.target)) := by
  simp only [coe_flatMap, entering, coe_filterMap_ite, across, links_bind_left, place,
    innerEnd_eq_placed, links_ite]
  rw [Multiset.bind_bind]
  simp only [Meets, boundaryNode?, Side.near, Side.far, and_assoc]

theorem coe_leaving : (parent.connections.flatMap s.leaving : Multiset Connection) =
    (s.definition.connections : Multiset Connection).bind (fun c ↦
      links (s.place c.source) (s.across .output parent.connections c.target)) := by
  simp only [coe_flatMap, leaving, coe_filterMap_ite, across, links_bind_right, place,
    innerEnd_eq_placed, links_ite]
  rw [Multiset.bind_bind]
  simp only [Meets, boundaryNode?, Side.near, Side.far, and_comm, and_left_comm]

theorem coe_passing : (parent.connections.flatMap (s.passing parent) : Multiset Connection) =
    (s.definition.connections : Multiset Connection).bind (fun c ↦
      links (s.across .input parent.connections c.source)
        (s.across .output parent.connections c.target)) := by
  simp only [coe_flatMap, passing, coe_filterMap_ite, across, links_bind_left]
  simp only [links_bind_right, links_ite]
  rw [Multiset.bind_bind]
  apply Multiset.bind_congr
  intro c _
  rw [Multiset.bind_bind]
  simp only [Meets, boundaryNode?, Side.near, Side.far, and_assoc]

end

/-- The connections after a splice, read from end to end. -/
theorem coe_connections {s : Site} (h : s.definition.IdsDistinct) (parent : Document) :
    (s.connections parent : Multiset Connection) = s.substituted parent.connections := by
  have hpaths : s.paths parent.connections = fun c ↦
      links (s.place c.source + s.across .input parent.connections c.source)
        (s.place c.target + s.across .output parent.connections c.target) := rfl
  rw [Multiset.coe_eq_coe.2 (connections_perm_classes h parent), substituted, hpaths]
  simp only [links_add_left, links_add_right, Multiset.bind_add, ← Multiset.coe_add]
  rw [coe_untouched, coe_inside, coe_entering, coe_leaving, coe_passing]
  abel

/-! ## What the ends stand for -/

section

variable {s : Site} {side : Side} {cs : Multiset Connection} {e : Endpoint}

theorem Meets.onBoundary {b : Endpoint} (h : s.Meets side e b) :
    s.definition.onBoundary b.node = true := by
  obtain ⟨-, hnode⟩ := h
  cases side with
  | input =>
    obtain ⟨i, -, hi⟩ := Option.bind_eq_some_iff.1 hnode
    obtain ⟨n, hn, hid⟩ := List.mem_map.1 (List.mem_of_getElem? hi)
    obtain ⟨hmem, hcategory⟩ := List.mem_filter.1 hn
    exact List.any_eq_true.2 ⟨n, hmem, by simp_all⟩
  | output =>
    obtain ⟨j, -, hj⟩ := Option.bind_eq_some_iff.1 hnode
    obtain ⟨n, hn, hid⟩ := List.mem_map.1 (List.mem_of_getElem? hj)
    obtain ⟨hmem, hcategory⟩ := List.mem_filter.1 hn
    exact List.any_eq_true.2 ⟨n, hmem, by simp_all⟩

/-- An end at an inner node stands for its new place alone. -/
theorem ends_of_inner (h : s.definition.onBoundary e.node = false) :
    s.ends side cs e = {innerEnd s.callSite e} := by
  have hacross : s.across side cs e = 0 := by
    apply (Multiset.bind_congr fun c _ ↦ if_neg fun hmeets ↦ ?_).trans (Multiset.bind_zero _)
    rw [hmeets.onBoundary] at h
    cases h
  rw [ends, hacross, place, if_pos h, add_zero]

theorem mem_ends {x : Endpoint} (h : x ∈ s.ends side cs e) :
    x = innerEnd s.callSite e ∨ ∃ c ∈ cs, s.Meets side (side.near c) e ∧ x = side.far c := by
  rcases Multiset.mem_add.1 h with hplace | hacross
  · unfold place at hplace
    split at hplace
    · exact .inl (Multiset.mem_singleton.1 hplace)
    · cases hplace
  · obtain ⟨c, hc, hx⟩ := Multiset.mem_bind.1 hacross
    split at hx
    · rename_i hmeets
      exact .inr ⟨c, hc, hmeets, Multiset.mem_singleton.1 hx⟩
    · cases hx

variable (s side)

theorem paths_eq (cs : Multiset Connection) (c : Connection) :
    s.paths cs c =
      side.links (s.ends side cs (side.far c)) (s.ends side.other cs (side.near c)) := by
  cases side <;> rfl

theorem across_links (fars nears : Multiset Endpoint) (e : Endpoint) :
    s.across side (side.links fars nears) e =
      nears.bind (fun n ↦ if s.Meets side n e then fars else 0) := by
  have hpair (n : Endpoint) : fars.bind (fun a ↦ if s.Meets side n e then {a} else 0) =
      if s.Meets side n e then fars else 0 := by
    by_cases h : s.Meets side n e
    · simpa [h] using Multiset.bind_singleton fars id
    · simp [h]
  cases side with
  | input =>
    calc s.across .input (links fars nears) e
      _ = fars.bind (fun a ↦ nears.bind (fun n ↦ if s.Meets .input n e then {a} else 0)) := by
          simp only [across, links, Multiset.bind_assoc, Multiset.bind_map]
          rfl
      _ = nears.bind (fun n ↦ if s.Meets .input n e then fars else 0) := by
          rw [Multiset.bind_bind]
          simp only [hpair]
  | output =>
    calc s.across .output (links nears fars) e
      _ = nears.bind (fun n ↦ fars.bind (fun a ↦ if s.Meets .output n e then {a} else 0)) := by
          simp only [across, links, Multiset.bind_assoc, Multiset.bind_map]
          rfl
      _ = nears.bind (fun n ↦ if s.Meets .output n e then fars else 0) := by
          simp only [hpair]

/-- What one call is connected to after another one has been replaced: what it was connected to
before, or the ends that the other's macro has there. -/
theorem across_substituted (t : Site) (cs : Multiset Connection) (e : Endpoint) :
    s.across side (t.substituted cs) e = s.across side (t.apart cs) e +
      (t.definition.connections : Multiset Connection).bind (fun c ↦
        (t.ends side.other cs (side.near c)).bind (fun n ↦
          if s.Meets side n e then t.ends side cs (side.far c) else 0)) := by
  rw [substituted, across, Multiset.add_bind, Multiset.bind_assoc]
  congr 1
  apply Multiset.bind_congr
  intro c _
  rw [paths_eq t side]
  exact across_links ..

/-- Of the paths along a connection of another macro, those that the call is no part of. -/
theorem apart_paths (t : Site) (cs : Multiset Connection) (c : Connection) :
    s.apart (t.paths cs c) =
      links ((t.ends .input cs c.source).filter (fun e ↦ e.node ≠ s.callSite))
        ((t.ends .output cs c.target).filter (fun e ↦ e.node ≠ s.callSite)) :=
  filter_links _ _ (fun e ↦ e.node ≠ s.callSite)

theorem apart_substituted (t : Site) (cs : Multiset Connection) :
    s.apart (t.substituted cs) = s.apart (t.apart cs) +
      (t.definition.connections : Multiset Connection).bind (fun c ↦ s.apart (t.paths cs c)) := by
  rw [substituted, apart, Multiset.filter_add, Multiset.filter_bind]
  rfl

end

end Site

end Splice

/-- A splice where the anchors match puts the macro's nodes in the place of the call, and rewires the
connections by substituting the ends of the macro's own. -/
theorem Document.exists_splice_substituted {parent d : Document} {callSite : String} {call : Node}
    (hids : parent.IdsDistinct) (hd : d.IdsDistinct) (hcall : parent.node? callSite = some call)
    (hcount : (Splice.Site.ofCall call d).anchorCount = d.anchorCount) :
    ∃ result, parent.splice callSite d = .ok result ∧ result.name = parent.name ∧
      result.nodes =
        parent.nodes.flatMap (Node.replaceBy callSite (Splice.Site.ofCall call d).nodes) ∧
      (result.connections : Multiset Connection) =
        (Splice.Site.ofCall call d).substituted parent.connections := by
  obtain ⟨result, h, hname, hnodes, hconnections⟩ := exists_splice hids hcall hcount
  refine ⟨result, h, hname, hnodes, ?_⟩
  rw [hconnections]
  exact Splice.Site.coe_connections hd parent

end Provenance
