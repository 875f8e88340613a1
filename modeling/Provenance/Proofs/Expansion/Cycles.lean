import Mathlib.Logic.Relation
import Provenance.Proofs.Expansion.Frames
import Provenance.Proofs.Expansion.Refinement
import Provenance.Proofs.Expansion.Settled

/-!
# Calls that lead back

A call that leads back to a file that it is part of is marked in the macro that closes the cycle.
From there the mark has to come up through every macro in between, and it does as long as these are
spliced in: a macro whose anchors do not match its call is refused, and what is marked inside of it
is lost with it. So the calls that are followed here have the anchors of their macros
(`Resolver.Takes`), and each is the first node with its identifier, since only that one is looked
into (`Document.CallAt`).

A document that leads back in this way is fatal (`Watches`): each of its calls was marked, or was
replaced by a macro that is fatal itself because it leads on to the same end.
-/

open Relation

namespace Provenance

/-- The anchors of a node. -/
def Node.anchorCount (n : Node) : AnchorCount :=
  ⟨n.inputAnchors.length, n.outputAnchors.length⟩

namespace Document

/-- Only calls have references. -/
def CallsOnly (d : Document) : Prop :=
  ∀ n ∈ d.nodes, n.reference.isSome → n.category = .macroCall

theorem callsOnly_of_load {fs : FileSystem} {path : Path} {d : Document}
    (h : load fs path = .ok d) : d.CallsOnly :=
  fun _ hn ↦ category_of_load h hn

/-- A call that is found under its identifier, whatever the other calls are replaced by. -/
structure CallAt (d : Document) (n : Node) : Prop where
  first : d.node? n.id = some n
  pending : n.isPending
  clear : ∀ m ∈ d.pending, ∀ id, Splice.inner m.id id ≠ n.id

theorem CallAt.mem_pending {d : Document} {n : Node} (h : d.CallAt n) :
    n.id ∈ d.pending.map Node.id := by
  have hmem : n ∈ d.nodes := List.mem_of_find?_eq_some h.first
  exact List.mem_map_of_mem (List.mem_filter.2 ⟨hmem, h.pending⟩)

/-! ## What a splice leaves as it is -/

variable {parent d result : Document} {callSite : String} {call : Node}

theorem anchorCount_eq_count (d : Document) :
    d.anchorCount = ⟨(d.nodes.map Node.category).count .macroInput,
      (d.nodes.map Node.category).count .macroOutput⟩ := by
  unfold anchorCount boundaryInputs boundaryOutputs
  rw [List.count_eq_countP, List.count_eq_countP, List.countP_map, List.countP_map,
    List.countP_eq_length_filter, List.countP_eq_length_filter]
  rfl

/-- The nodes of a macro that are spliced in are none of its boundary. -/
theorem category_of_mem_nodes {s : Splice.Site} {n : Node} (hn : n ∈ s.nodes) :
    n.category ≠ .macroInput ∧ n.category ≠ .macroOutput := by
  obtain ⟨m, hm, rfl⟩ := List.mem_map.1 hn
  obtain ⟨hmem, hinner⟩ := List.mem_filter.1 hm
  rw [Splice.Site.isBoundary_eq, Bool.not_eq_true', onBoundary, List.any_eq_false] at hinner
  have hcategory := hinner m hmem
  simp only [decide_true, Bool.true_and, Bool.or_eq_true, decide_eq_true_eq, not_or] at hcategory
  rwa [category_innerNode]

theorem anchorCount_splice (hcall : parent.node? callSite = some call)
    (hcategory : call.category = .macroCall) (h : parent.splice callSite d = .ok result) :
    result.anchorCount = parent.anchorCount := by
  obtain ⟨before, after, hnodes, rfl, rfl⟩ := splice_ok hcall h
  have hinputs : ((Splice.Site.ofCall call d).nodes.map Node.category).count .macroInput = 0 := by
    apply List.count_eq_zero.2
    intro hmem
    obtain ⟨n, hn, heq⟩ := List.mem_map.1 hmem
    exact (category_of_mem_nodes hn).1 heq
  have houtputs : ((Splice.Site.ofCall call d).nodes.map Node.category).count .macroOutput = 0 := by
    apply List.count_eq_zero.2
    intro hmem
    obtain ⟨n, hn, heq⟩ := List.mem_map.1 hmem
    exact (category_of_mem_nodes hn).2 heq
  simp [anchorCount_eq_count, hnodes, hinputs, houtputs, hcategory]

theorem CallsOnly.splice (hparent : parent.CallsOnly) (hd : d.CallsOnly)
    (hcall : parent.node? callSite = some call) (h : parent.splice callSite d = .ok result) :
    result.CallsOnly := by
  obtain ⟨before, after, hnodes, rfl, rfl⟩ := splice_ok hcall h
  intro n hn
  have hkept (hmem : n ∈ before ++ call :: after) : n.reference.isSome → n.category = .macroCall :=
    hparent n (hnodes ▸ hmem)
  rw [List.append_assoc, List.mem_append, List.mem_append] at hn
  rcases hn with hn | hn | hn
  · exact hkept (List.mem_append_left _ hn)
  · obtain ⟨m, hm, rfl⟩ := List.mem_map.1 hn
    rw [category_innerNode, reference_innerNode]
    exact hd m (List.mem_filter.1 hm).1
  · exact hkept (List.mem_append_right _ (List.mem_cons_of_mem _ hn))

theorem CallsOnly.setGap (h : d.CallsOnly) (id : String) (gap : Option Gap) :
    (d.setGap id gap).CallsOnly := by
  have hsame := d.map_setGap (g := fun n ↦ (n.reference, n.category)) (fun _ _ ↦ rfl) id gap
  intro n hn
  have hmem : (n.reference, n.category) ∈ d.nodes.map (fun n ↦ (n.reference, n.category)) :=
    hsame ▸ List.mem_map_of_mem hn
  obtain ⟨m, hm, heq⟩ := List.mem_map.1 hmem
  obtain ⟨hreference, hcategory⟩ := Prod.mk.inj heq
  rw [← hreference, ← hcategory]
  exact h m hm

theorem anchorCount_setGap (d : Document) (id : String) (gap : Option Gap) :
    (d.setGap id gap).anchorCount = d.anchorCount := by
  rw [anchorCount_eq_count, anchorCount_eq_count, map_setGap fun _ _ ↦ rfl]

end Document

namespace Outcome

/-! ## Looking into one call -/

@[simp]
theorem isFatal_mark (o : Outcome) (id : String) (reference : Reference) (gap : Gap) :
    (o.mark id reference gap).isFatal = (o.isFatal || gap.isFatal) := by
  simp [isFatal, mark, Issue.isFatal]

/-- A macro with the anchors of its call brings its issues with it. -/
theorem isFatal_expand {o : Outcome} {id : String} {reference : Reference} {d : Definition}
    {n : Node} (hnode : o.document.node? id = some n)
    (hanchors : n.anchorCount = d.document.anchorCount) :
    (o.expand id reference d).isFatal = (o.isFatal || d.issues.any Issue.isFatal) := by
  obtain ⟨before, after, hnodes, hid, hbefore⟩ := Document.node?_eq_some_iff.1 hnode
  have hrelocated : (d.issues.map (Issue.relocate id o.document.path)).any Issue.isFatal =
      d.issues.any Issue.isFatal := by
    rw [List.any_map]
    rfl
  have hsite : (Splice.Site.ofCall n d.document).anchorCount = d.document.anchorCount := hanchors
  unfold expand
  rw [Document.splice_eq hnodes hid hbefore, if_pos hsite]
  unfold isFatal
  rw [List.any_append, hrelocated]

/-- Looking into a call leaves the rest of a document as it is, and an outcome that is fatal stays
fatal. -/
structure Keeps (id : String) (o o' : Outcome) : Prop where
  path : o'.document.path = o.document.path
  callsOnly : o.document.CallsOnly → o'.document.CallsOnly
  anchors : o.document.CallsOnly → o'.document.anchorCount = o.document.anchorCount
  fatal : o.isFatal → o'.isFatal
  others : ∀ id', id' ≠ id → (∀ inner, Splice.inner id inner ≠ id') →
    o'.document.node? id' = o.document.node? id'

variable {o : Outcome} {id : String} {reference : Reference}

theorem keeps_refl (id : String) (o : Outcome) : Keeps id o o :=
  ⟨rfl, fun h ↦ h, fun _ ↦ rfl, fun h ↦ h, fun _ _ _ ↦ rfl⟩

theorem keeps_mark (o : Outcome) (id : String) (reference : Reference) (gap : Gap) :
    Keeps id o (o.mark id reference gap) where
  path := rfl
  callsOnly h := h.setGap id (some gap)
  anchors _ := o.document.anchorCount_setGap id (some gap)
  fatal h := by simp [h]
  others id' hne _ := o.document.node?_setGap_of_ne hne (some gap)

theorem keeps_apply (hreference : o.document.reference? id = some reference) {e : Expansion}
    (he : ∀ d, e = .expanded d → d.document.CallsOnly) : Keeps id o (o.apply id reference e) := by
  cases e with
  | failed gap => exact keeps_mark o id reference gap
  | expanded d =>
    obtain ⟨call, hcall, hcallReference⟩ := Option.bind_eq_some_iff.1 hreference
    change Keeps id o (o.expand id reference d)
    unfold expand
    split
    · exact keeps_mark o id reference _
    · rename_i result hsplice
      exact {
        path := Document.path_splice hsplice
        callsOnly := fun h ↦ h.splice (he d rfl) hcall hsplice
        anchors := fun h ↦ Document.anchorCount_splice hcall
          (h call (List.mem_of_find?_eq_some hcall) (by simp [hcallReference])) hsplice
        fatal := fun h ↦ by
          unfold isFatal at h ⊢
          rw [List.any_append, h, Bool.true_or]
        others := fun id' hne hclear ↦ Document.node?_splice_of_ne hcall hsplice hne hclear }

end Outcome

namespace Resolver

variable {σ : Type}

section

variable (r : Resolver σ) (folders : List Path)

/-- Whether a call of a document means the file at a path. -/
def Refers (d : Document) (n : Node) (path : Path) : Prop :=
  d.CallAt n ∧
    ∃ reference, n.reference = some reference ∧ r.locate? folders reference d.path = some path

/-- Whether a document takes in the macro in a file: a call that means the file has the macro's
anchors. -/
def Takes (d : Document) (path : Path) : Prop :=
  ∃ n inner, r.Refers folders d n path ∧ r.load path = .ok inner ∧
    n.anchorCount = inner.anchorCount

/-- Whether the macro in one file takes in the macro in another. -/
def Joins (file path : Path) : Prop :=
  ∃ d, r.load file = .ok d ∧ r.Takes folders d path

variable (back : Path → Prop)

/-- Whether a document calls one of some files. -/
def CallsBack (d : Document) : Prop :=
  ∃ n path, r.Refers folders d n path ∧ back path

/-- Whether a file leads to one that takes itself in again, or that calls one of some files. -/
def Returns (path : Path) : Prop :=
  ∃ file, ReflTransGen (r.Joins folders) path file ∧
    (TransGen (r.Joins folders) file file ∨
      ∃ d, r.load file = .ok d ∧ r.CallsBack folders back d)

/-- Whether a document calls one of some files, or takes in a file that leads to a cycle or to one
of these files. -/
def LeadsBack (d : Document) : Prop :=
  r.CallsBack folders back d ∨ ∃ path, r.Takes folders d path ∧ r.Returns folders back path

/-- Whether a call is one by which its document leads back. -/
def Dooms (d : Document) (n : Node) : Prop :=
  ∃ path, r.Refers folders d n path ∧
    (back path ∨ ∃ inner, r.load path = .ok inner ∧ n.anchorCount = inner.anchorCount ∧
      r.LeadsBack folders back inner)

/-- What has become of a document is fatal if one of the calls that have been looked into leads
back, and the calls that are left are where they were. -/
structure Watches (d : Document) (o : Outcome) (rest : List String) : Prop where
  path : o.document.path = d.path
  callsOnly : d.CallsOnly → o.document.CallsOnly
  anchors : d.CallsOnly → o.document.anchorCount = d.anchorCount
  calls : ∃ before, d.pending.map Node.id = before ++ rest ∧ ∀ n, d.CallAt n →
    if n.id ∈ before then r.Dooms folders back d n → o.isFatal
    else o.document.node? n.id = some n

/-- What is remembered of a file is what has become of the document in it. -/
def Reports (file : Path) : Expansion → Prop
  | .failed _ => ∃ e, r.load file = .error e
  | .expanded definition => ∃ d, r.load file = .ok d ∧ r.Watches folders back d
      ⟨definition.document, definition.issues, definition.uses⟩ []

/-- Every document that leads back is fatal. -/
def vigilance : Claim σ where
  session := Quiet folders
  frame := r.Watches folders back
  known path e := ∀ file, r.files.IsCanonical file → path == file → r.Reports folders back file e

end

variable {r : Resolver σ} {folders : List Path} {back : Path → Prop}

/-! ## Leading back -/

theorem Returns.leadsBack {path : Path} {d : Document} (h : r.Returns folders back path)
    (hload : r.load path = .ok d) : r.LeadsBack folders back d := by
  obtain ⟨file, hchain, hend⟩ := h
  have hfirst {next : Path} (hjoins : r.Joins folders path next) : r.Takes folders d next := by
    obtain ⟨d', hload', htakes⟩ := hjoins
    obtain rfl := Except.ok.inj (hload.symm.trans hload')
    exact htakes
  rcases hchain.cases_head with rfl | ⟨next, hjoins, hrest⟩
  · rcases hend with hcycle | ⟨d', hload', hback⟩
    · obtain ⟨next, hjoins, hrest⟩ := TransGen.head'_iff.1 hcycle
      exact .inr ⟨next, hfirst hjoins, path, hrest, .inl hcycle⟩
    · obtain rfl := Except.ok.inj (hload.symm.trans hload')
      exact .inl hback
  · exact .inr ⟨next, hfirst hjoins, file, hrest, hend⟩

theorem LeadsBack.exists_dooms {d : Document} (h : r.LeadsBack folders back d) :
    ∃ n, d.CallAt n ∧ r.Dooms folders back d n := by
  rcases h with ⟨n, path, hrefers, hback⟩ | ⟨path, ⟨n, inner, hrefers, hload, hanchors⟩, hreturns⟩
  · exact ⟨n, hrefers.1, path, hrefers, .inl hback⟩
  · exact ⟨n, hrefers.1, path, hrefers, .inr ⟨inner, hload, hanchors, hreturns.leadsBack hload⟩⟩

theorem Watches.isFatal {d : Document} {o : Outcome} (h : r.Watches folders back d o [])
    (hleads : r.LeadsBack folders back d) : o.isFatal := by
  obtain ⟨n, hcall, hdooms⟩ := hleads.exists_dooms
  obtain ⟨before, hids, hcalls⟩ := h.calls
  have hlooked := hcalls n hcall
  rw [if_pos (by simpa [hids] using hcall.mem_pending)] at hlooked
  exact hlooked hdooms

/-! ## Watching a run -/

theorem watches_start (d : Document) :
    r.Watches folders back d (.start d) (d.pending.map Node.id) := by
  refine ⟨rfl, id, fun _ ↦ rfl, [], rfl, fun n hcall ↦ ?_⟩
  rw [if_neg List.not_mem_nil]
  exact hcall.first

theorem Watches.next {d : Document} {o o' : Outcome} {id : String} {rest : List String}
    (h : r.Watches folders back d o (id :: rest)) (hkeeps : o.Keeps id o')
    (hcall : ∀ n, o.document.node? id = some n → r.Dooms folders back d n → o'.isFatal) :
    r.Watches folders back d o' rest := by
  obtain ⟨before, hids, hcalls⟩ := h.calls
  refine ⟨hkeeps.path.trans h.path, fun hd ↦ hkeeps.callsOnly (h.callsOnly hd),
    fun hd ↦ (hkeeps.anchors (h.callsOnly hd)).trans (h.anchors hd), before ++ [id],
    by simp [hids], fun n hn ↦ ?_⟩
  have hlooked := hcalls n hn
  by_cases hbefore : n.id ∈ before
  · rw [if_pos hbefore] at hlooked
    rw [if_pos (List.mem_append_left _ hbefore)]
    exact fun hdooms ↦ hkeeps.fatal (hlooked hdooms)
  · rw [if_neg hbefore] at hlooked
    by_cases hid : n.id = id
    · rw [if_pos (by simp [hid])]
      exact hcall n (hid ▸ hlooked)
    · rw [if_neg (by simp [hbefore, hid]), hkeeps.others n.id hid ?_]
      · exact hlooked
      · have hmem : id ∈ d.pending.map Node.id := by simp [hids]
        obtain ⟨m, hm, rfl⟩ := List.mem_map.1 hmem
        exact hn.clear m hm

/-- The file that a call means is the one that the search finds for its reference. -/
theorem Dooms.locate? {d : Document} {o : Outcome} {id : String} {rest : List String} {n : Node}
    {reference : Reference} (h : r.Dooms folders back d n)
    (hwatches : r.Watches folders back d o rest) (hnode : o.document.node? id = some n)
    (hreference : o.document.reference? id = some reference) :
    ∃ path, r.locate? folders reference o.document.path = some path ∧
      (back path ∨ ∃ inner, r.load path = .ok inner ∧ n.anchorCount = inner.anchorCount ∧
        r.LeadsBack folders back inner) := by
  obtain ⟨path, ⟨-, reference', hreference', hpath⟩, hend⟩ := h
  rw [Document.reference?, hnode, Option.bind_some, hreference'] at hreference
  obtain rfl := Option.some.inj hreference
  exact ⟨path, hwatches.path ▸ hpath, hend⟩

section

variable (hcalls : ∀ file d, r.load file = .ok d → d.CallsOnly)

include hcalls

theorem Watches.apply {d : Document} {o : Outcome} {id : String} {rest : List String}
    {reference : Reference} {path : Path} {e : Expansion}
    (h : r.Watches folders back d o (id :: rest))
    (hreference : o.document.reference? id = some reference)
    (hpath : r.locate? folders reference o.document.path = some path) (hback : ¬back path)
    (he : r.Reports folders back path e) :
    r.Watches folders back d (o.apply id reference e) rest := by
  have hdefinition (definition : Definition) (heq : e = .expanded definition) :
      definition.document.CallsOnly := by
    subst heq
    obtain ⟨inner, hload, hwatches⟩ := he
    exact hwatches.callsOnly (hcalls path inner hload)
  refine h.next (Outcome.keeps_apply hreference hdefinition) fun n hnode hdooms ↦ ?_
  obtain ⟨path', hpath', hend⟩ := hdooms.locate? h hnode hreference
  obtain rfl := Option.some.inj (hpath.symm.trans hpath')
  obtain ⟨inner, hload, hanchors, hleads⟩ := hend.resolve_left hback
  cases e with
  | failed gap =>
    obtain ⟨error, herror⟩ := he
    rw [hload] at herror
    cases herror
  | expanded definition =>
    obtain ⟨inner', hload', hwatches⟩ := he
    obtain rfl := Except.ok.inj (hload.symm.trans hload')
    have hmatch : n.anchorCount = definition.document.anchorCount :=
      hanchors.trans (hwatches.anchors (hcalls _ _ hload)).symm
    have hinner := hwatches.isFatal hleads
    change (o.expand id reference definition).isFatal = true
    rw [Outcome.isFatal_expand hnode hmatch, Bool.or_eq_true]
    exact .inr hinner

theorem sustains_vigilance (hquiet : r.operator.isInteractive = false) {root : Path}
    (hback : ∀ path, back path → root == path) :
    r.Sustains (r.vigilance folders back) (fun _ ↦ True) root where
  lookup hs hlookup := by
    rw [lookup_of_quiet hquiet hs] at hlookup
    obtain ⟨-, rfl⟩ := Prod.mk.inj hlookup
    exact hs
  opening hs := ⟨hs.folders, hs.decisions⟩
  remember hs := ⟨hs.folders, hs.decisions⟩
  start _ _ := watches_start _
  skip h hreference := by
    refine h.next (Outcome.keeps_refl ..) fun n hnode hdooms ↦ ?_
    obtain ⟨path, ⟨-, reference, hsome, -⟩, -⟩ := hdooms
    rw [Document.reference?, hnode, Option.bind_some, hsome] at hreference
    cases hreference
  unresolved h hreference hs hlookup := by
    obtain ⟨hnone, -, -⟩ := locate?_of_unresolved hquiet hs hlookup
    refine h.next (Outcome.keeps_mark ..) fun n hnode hdooms ↦ ?_
    obtain ⟨path, hpath, -⟩ := hdooms.locate? h hnode hreference
    rw [hnone] at hpath
    cases hpath
  cyclic chain h _ := h.next (Outcome.keeps_mark ..) fun _ _ _ ↦ by simp [Gap.isFatal]
  apply h hreference hlocated hroot hknown := by
    obtain ⟨s, s', hs, hlookup⟩ := hlocated
    obtain ⟨hpath, -⟩ := locate?_of_located hquiet hs hlookup
    have hreports := hknown _ (isCanonical_of_locate? hpath) BEq.rfl
    exact h.apply hcalls hreference hpath (mt (hback _) hroot) hreports
  finish _ hlocated hload h := by
    obtain ⟨s, s', hs, hlookup⟩ := hlocated
    obtain ⟨hpath, -⟩ := locate?_of_located hquiet hs hlookup
    intro file hfile heq
    obtain rfl := (isCanonical_of_locate? hpath).eq_of_beq hfile heq
    exact ⟨_, hload, h⟩
  fail hlocated hload := by
    obtain ⟨s, s', hs, hlookup⟩ := hlocated
    obtain ⟨hpath, -⟩ := locate?_of_located hquiet hs hlookup
    intro file hfile heq
    obtain rfl := (isCanonical_of_locate? hpath).eq_of_beq hfile heq
    exact ⟨_, hload⟩
  spelled heq h file hfile heq' := h file hfile (BEq.trans heq heq')

/-- A document that leads back is fatal, as long as what leads back to its file was not expanded
before. -/
theorem LeadsBack.isFatal_resolve (hquiet : r.operator.isInteractive = false) {d : Document}
    (hback : ∀ path, back path → r.files.canonical d.path == path) {s : Session σ}
    (hs : (r.vigilance folders back).Memory s) (h : r.LeadsBack folders back d) :
    (r.resolve d s).1.isFatal :=
  (((sustains_vigilance hcalls hquiet hback).resolve (fun _ ↦ hs) fun _ _ ↦ trivial).2
    (watches_start d)).isFatal h

omit hcalls in
theorem memory_vigilance_start (folders : List Path) (operator : σ) :
    (r.vigilance (Context.start folders).searchFolders back).Memory ⟨.start folders, operator⟩ := by
  have hsame := Context.sameRecords_start folders
  refine ⟨⟨rfl, hsame.decisions⟩, fun path e hknown ↦ ?_⟩
  simp [Context.expansion?, hsame.expansions] at hknown

/-- Whatever was expanded before, a macro that leads into a cycle of files is remembered as
fatal. -/
theorem History.vigilance (hquiet : r.operator.isInteractive = false) {folders : List Path}
    {earlier : List Document} {s : Session σ} (h : History (· = r) folders earlier s) :
    (r.vigilance (Context.start folders).searchFolders fun _ ↦ False).Memory s := by
  refine Sustains.history (fun r' hr root ↦ ?_) (fun operator ↦ ?_) h fun _ _ ↦ trivial
  · subst hr
    exact sustains_vigilance hcalls hquiet fun _ hnever ↦ hnever.elim
  · exact (memory_vigilance_start folders operator).1

end

end Resolver

end Provenance
