import Provenance.Proofs.Expansion.Frames
import Provenance.Proofs.Expansion.Refinement
import Provenance.Proofs.Expansion.Settled

/-!
# Missing macros

A call is reported as missing or skipped only if no file was found for it. While a document is
expanded, all its calls are searched for with the search folders of that time, and these only grow.
So at the beginning of the run that opened the document, with fewer folders, no file would have been
found either (`resolve_misses`).

What a run finds out about a macro's file is remembered along with its missing calls, and nothing in
it is searched for again: if a folder was added after a macro was expanded, later runs still report
a call inside it as missing, although its file could be found now (`resolve_misses_outdated`).
-/

namespace Provenance

/-- Whether no file was found for a call. -/
def Gap.isMiss : Gap → Bool
  | missing | skipped => true
  | _ => false

namespace Search

/-- With fewer search folders no more is found. -/
theorem find?_eq_none_of_subset {fs : FileSystem} {options : SearchOptions} {r : Reference}
    {folder : Path} {few many : List Path} (hsubset : few ⊆ many)
    (h : find? fs options r folder many = none) : find? fs options r folder few = none := by
  simp only [find?_eq, Option.or_eq_none_iff] at h ⊢
  obtain ⟨hnear, hdeep, habove⟩ := h
  refine ⟨?_, ?_, habove⟩
  · apply List.find?_eq_none.2
    intro path hpath
    apply List.find?_eq_none.1 hnear
    simp only [near, List.mem_append] at hpath ⊢
    exact hpath.imp_right (fun h ↦ List.map_subset _ hsubset h)
  · unfold deep? at hdeep ⊢
    split at hdeep
    · rename_i hrecursive
      rw [if_pos hrecursive]
      apply List.findSome?_eq_none_iff.2
      exact fun path hpath ↦ List.findSome?_eq_none_iff.1 hdeep path (hsubset hpath)
    · rename_i hrecursive
      rw [if_neg hrecursive]

end Search

theorem Context.subset_addFolder (c : Context) (folder : Path) :
    c.searchFolders ⊆ (c.addFolder folder).searchFolders := by
  unfold addFolder
  split
  · exact List.Subset.refl _
  · exact List.subset_append_left ..

namespace Outcome

variable {o : Outcome} {id : String} {reference : Reference}

/-- Looking into a call leaves those calls alone whose identifiers no other node can get. -/
theorem node?_apply_of_ne (hreference : o.document.reference? id = some reference) (e : Expansion)
    {id' : String} (hne : id' ≠ id) (hclear : ∀ inner, Splice.inner id inner ≠ id') :
    (o.apply id reference e).document.node? id' = o.document.node? id' := by
  have hmark (gap : Gap) : (o.mark id reference gap).document.node? id' = o.document.node? id' :=
    o.document.node?_setGap_of_ne hne (some gap)
  obtain ⟨call, hcall, -⟩ := Option.bind_eq_some_iff.1 hreference
  cases e with
  | failed gap => exact hmark gap
  | expanded d =>
    change (o.expand id reference d).document.node? id' = _
    unfold expand
    split
    · exact hmark _
    · rename_i result hsplice
      exact Document.node?_splice_of_ne hcall hsplice hne hclear

end Outcome

theorem Document.isMiss_eq_false_of_splice {parent d : Document} {callSite : String} {gap : Gap}
    (h : parent.splice callSite d = .error gap) : gap.isMiss = false := by
  unfold splice at h
  split at h
  · obtain rfl := Except.error.inj h
    rfl
  · dsimp only at h
    split at h
    · cases h
    · obtain rfl := Except.error.inj h
      rfl

namespace Resolver

variable {σ : Type}

section

variable (r : Resolver σ)

/-- Two resolvers search the same files in the same way, but may ask different operators. -/
structure SearchesLike (r' : Resolver σ) : Prop where
  files : r'.files = r.files
  load : r'.load = r.load
  search : r'.options.search = r.options.search

/-- The sessions between which documents have been resolved one after the other, latest first. -/
inductive Chronicle (allowed : Resolver σ → Prop) (folders : List Path) : List (Session σ) → Prop
  | start (operator : σ) : Chronicle allowed folders [⟨.start folders, operator⟩]
  | resolve {s earlier r} (h : Chronicle allowed folders (s :: earlier)) (hr : allowed r)
      (d : Document) : Chronicle allowed folders ((r.resolve d s).2 :: s :: earlier)

/-- Where an issue of a document was raised: in a call of the document itself, or inside a macro
that it calls. In this case the file is given in which the call was written. -/
inductive RaisedIn (opened : List Path) : Document → Issue → Option Path → Document → Prop
  | here {d i} (hcall : i.node ∈ d.pending.map Node.id) (hdocument : i.document = d.path)
      (hreference : d.PlainIds → d.reference? i.node = some i.reference) :
      RaisedIn opened d i none d
  | inside {d callSite path q i file origin} (hcall : callSite ∈ d.pending.map Node.id)
      (hopened : path ∈ opened) (hload : r.load path = .ok q)
      (h : RaisedIn opened q i file origin) :
      RaisedIn opened d (i.relocate callSite d.path) (some (file.getD path)) origin

/-- Whether a macro's file has not been opened. The document that is resolved has no such file. -/
def isUnopened (file : Option Path) (s : Session σ) : Bool :=
  file.all (fun path ↦ !s.context.opened.any (· == path))

/-- Whether no file was to be found for a reference when the run began in which its document was
opened: that is the latest session at which the document's file was not open yet. -/
def Missed (sessions : List (Session σ)) (file : Option Path) (origin : Document)
    (reference : Reference) : Prop :=
  ∃ s, sessions.find? (isUnopened file) = some s ∧
    r.search? reference origin.path s.context.searchFolders = none

/-- What has become of a document when some calls are left in it: those calls are as they were
written, and for the calls that were missed no file was to be found. -/
structure Accounts (sessions : List (Session σ)) (opened : List Path) (d : Document) (o : Outcome)
    (rest : List String) : Prop where
  path : o.document.path = d.path
  calls : ∃ before, d.pending.map Node.id = before ++ rest
  kept : d.PlainIds → ∀ id ∈ rest, o.document.node? id = d.node? id
  misses : ∀ i ∈ o.issues, i.gap.isMiss → ∃ file origin, r.RaisedIn opened d i file origin ∧
    r.Missed sessions file origin i.reference

/-- What is remembered of a file accounts for the calls that were missed in it. -/
def Explains (sessions : List (Session σ)) (opened : List Path) (path : Path) : Expansion → Prop
  | .failed gap => gap.isMiss = false
  | .expanded definition => ∃ file d, file == path ∧ file ∈ opened ∧ r.load file = .ok d ∧
      ∀ i ∈ definition.issues, i.gap.isMiss → ∃ inner origin,
        r.RaisedIn opened d i inner origin ∧
          r.Missed sessions (some (inner.getD file)) origin i.reference

/-- All misses in a run that begins with a session are accounted for. -/
def accounting (s : Session σ) (earlier : List (Session σ)) (opened : List Path) : Claim σ where
  session t := s.context.searchFolders ⊆ t.context.searchFolders
  frame := r.Accounts (s :: earlier) opened
  known := r.Explains (s :: earlier) opened

end

/-! ## Search folders stay -/

section

variable (r : Resolver σ)

theorem subset_ask (reference : Reference) (document : Path) (left attempt : Nat) (s : Session σ) :
    s.context.searchFolders ⊆
      (r.ask reference document left attempt s).2.context.searchFolders := by
  induction left generalizing attempt s with
  | zero => exact List.Subset.refl _
  | succ left ih =>
    unfold ask
    have hasked : (r.question reference document attempt s).2.context.searchFolders =
        s.context.searchFolders := rfl
    cases hq : r.question reference document attempt s with
    | mk answer s' =>
      rw [hq] at hasked
      rw [← hasked]
      cases answer with
      | file path =>
        dsimp only
        split
        · exact List.Subset.refl _
        · exact ih _ _
      | folder path =>
        have hadded := s'.context.subset_addFolder path
        dsimp only
        split
        · split
          · exact hadded
          · exact List.Subset.trans hadded
              (ih (attempt + 1) ⟨s'.context.addFolder path, s'.operator⟩)
        · exact ih _ _
      | skip => exact List.Subset.refl _
      | skipAll => exact List.Subset.refl _
      | decline => exact List.Subset.refl _

theorem subset_lookup (reference : Reference) (document : Path) (s : Session σ) :
    s.context.searchFolders ⊆ (r.lookup reference document s).2.context.searchFolders := by
  unfold lookup
  split
  · exact List.Subset.refl _
  · split
    · exact List.Subset.refl _
    · split
      · exact List.Subset.refl _
      · exact r.subset_ask reference document r.options.maxAttempts 1 s

theorem subset_resolve (d : Document) (s : Session σ) :
    s.context.searchFolders ⊆ (r.resolve d s).2.context.searchFolders := by
  let kept (t : Session σ) : Prop := s.context.searchFolders ⊆ t.context.searchFolders
  have hlookup (reference : Reference) (document : Path) (t : Session σ) (ht : kept t) :
      kept (r.lookup reference document t).2 :=
    List.Subset.trans ht (r.subset_lookup reference document t)
  have hmove (p q : Progress σ) (h : r.Move p q) (hp : kept p.session) : kept q.session :=
    session_move hlookup (fun _ _ ht ↦ ht) (fun _ _ _ ht ↦ ht) h hp
  exact run_keeps hmove (List.Subset.refl _)

/-- A call is left unresolved only if the search finds nothing. -/
theorem search?_of_unresolved {reference : Reference} {document : Path} {s s' : Session σ}
    {gap : Gap} (h : r.lookup reference document s = (.unresolved gap, s')) :
    r.search? reference document s.context.searchFolders = none := by
  unfold lookup at h
  split at h
  · cases h
  · rename_i hnone
    exact hnone

theorem search?_eq_none_of_subset {reference : Reference} {document : Path} {few many : List Path}
    (hsubset : few ⊆ many) (h : r.search? reference document many = none) :
    r.search? reference document few = none :=
  Search.find?_eq_none_of_subset hsubset h

end

variable {r : Resolver σ} {allowed : Resolver σ → Prop} {folders : List Path}
  {sessions : List (Session σ)}

/-- The latest session knows all search folders of the others. -/
theorem Chronicle.subset (h : Chronicle allowed folders sessions) :
    ∀ s ∈ sessions.head?, ∀ t ∈ sessions, t.context.searchFolders ⊆ s.context.searchFolders := by
  induction h with
  | start operator => simp
  | @resolve s earlier r h hr d ih =>
    intro u hu t ht
    obtain rfl := Option.some.inj hu
    rcases List.mem_cons.1 ht with rfl | hearlier
    · exact List.Subset.refl _
    · exact List.Subset.trans (ih s rfl t hearlier) (r.subset_resolve d s)

/-- No file has been opened at the beginning. -/
theorem Chronicle.exists_isUnopened (h : Chronicle allowed folders sessions) (file : Option Path) :
    ∃ s, sessions.find? (isUnopened file) = some s := by
  induction h with
  | start operator =>
    refine ⟨_, List.find?_cons_of_pos ?_⟩
    simp [isUnopened, (Context.sameRecords_start folders).opened]
  | @resolve s earlier r h hr d ih =>
    cases hlatest : isUnopened file (r.resolve d s).2 with
    | true => exact ⟨_, List.find?_cons_of_pos hlatest⟩
    | false =>
      rw [List.find?_cons_of_neg (by simp [hlatest])]
      exact ih

/-- What is not found with the latest search folders was not to be found before. -/
theorem Chronicle.missed {s : Session σ} {earlier : List (Session σ)}
    (h : Chronicle allowed folders (s :: earlier)) {origin : Document} {reference : Reference}
    (hnone : r.search? reference origin.path s.context.searchFolders = none) (file : Option Path) :
    r.Missed (s :: earlier) file origin reference := by
  obtain ⟨t, ht⟩ := h.exists_isUnopened file
  exact ⟨t, ht, r.search?_eq_none_of_subset (h.subset s rfl t (List.mem_of_find?_eq_some ht)) hnone⟩

theorem Missed.search? {s : Session σ} {earlier : List (Session σ)} {origin : Document}
    {reference : Reference} (h : r.Missed (s :: earlier) none origin reference) :
    r.search? reference origin.path s.context.searchFolders = none := by
  obtain ⟨t, ht, hnone⟩ := h
  obtain rfl : s = t := Option.some.inj ht
  exact hnone

/-- Once a file is open, later runs do not change when that was. -/
theorem Missed.cons {s : Session σ} {path : Path} {origin : Document} {reference : Reference}
    (h : r.Missed sessions (some path) origin reference) (hopened : path ∈ s.context.opened) :
    r.Missed (s :: sessions) (some path) origin reference := by
  obtain ⟨t, ht, hnone⟩ := h
  refine ⟨t, ?_, hnone⟩
  have hopen : isUnopened (some path) s = false := by
    simp only [isUnopened, Option.all_some, Bool.not_eq_false', List.any_eq_true]
    exact ⟨path, hopened, BEq.rfl⟩
  rw [List.find?_cons_of_neg (by simp [hopen]), ht]

namespace RaisedIn

variable {opened opened' : List Path} {d origin : Document} {i : Issue} {file : Option Path}

theorem mono (hsubset : opened ⊆ opened') (h : r.RaisedIn opened d i file origin) :
    r.RaisedIn opened' d i file origin := by
  induction h with
  | here hcall hdocument hreference => exact .here hcall hdocument hreference
  | inside hcall hopened hload _ ih => exact .inside hcall (hsubset hopened) hload ih

theorem opened_of_some (h : r.RaisedIn opened d i file origin) : ∀ path ∈ file, path ∈ opened := by
  induction h with
  | here => simp
  | @inside d callSite path q i file origin hcall hopened hload h ih =>
    intro other hother
    cases file with
    | none =>
      obtain rfl : path = other := Option.some.inj hother
      exact hopened
    | some inner => exact ih other hother

end RaisedIn

/-! ## Looking into one call -/

section

variable {opened : List Path} {d : Document} {o o' : Outcome} {id : String} {rest : List String}

theorem accounts_start (d : Document) :
    r.Accounts sessions opened d (.start d) (d.pending.map Node.id) :=
  ⟨rfl, ⟨[], rfl⟩, fun _ _ _ ↦ rfl, fun _ hi ↦ by cases hi⟩

variable (h : r.Accounts sessions opened d o (id :: rest))

include h

theorem Accounts.mem_pending : id ∈ d.pending.map Node.id := by
  obtain ⟨before, hids⟩ := h.calls
  simp [hids]

/-- The calls that are left stay as they are, and the new issues have to be accounted for. -/
theorem Accounts.next (hpath : o'.document.path = o.document.path)
    (hothers : ∀ id', id' ≠ id → (∀ inner, Splice.inner id inner ≠ id') →
      o'.document.node? id' = o.document.node? id')
    (hissues : ∀ i ∈ o'.issues, i ∈ o.issues ∨ (i.gap.isMiss → ∃ file origin,
      r.RaisedIn opened d i file origin ∧ r.Missed sessions file origin i.reference)) :
    r.Accounts sessions opened d o' rest where
  path := hpath.trans h.path
  calls := by
    obtain ⟨before, hids⟩ := h.calls
    exact ⟨before ++ [id], by simp [hids]⟩
  kept hplain id' hid' := by
    obtain ⟨before, hids⟩ := h.calls
    obtain ⟨hne, hclear⟩ := hplain.apart hids hid'
    rw [hothers id' hne hclear]
    exact h.kept hplain id' (List.mem_cons_of_mem _ hid')
  misses i hi hmiss := (hissues i hi).elim (fun hold ↦ h.misses i hold hmiss) fun hnew ↦ hnew hmiss

/-- A call that is marked is accounted for where its document was opened. -/
theorem Accounts.mark {reference : Reference} {gap : Gap}
    (hreference : o.document.reference? id = some reference)
    (hmissed : gap.isMiss → r.Missed sessions none d reference) :
    r.Accounts sessions opened d (o.mark id reference gap) rest := by
  have hothers (id' : String) (hne : id' ≠ id) (_ : ∀ inner, Splice.inner id inner ≠ id') :
      (o.mark id reference gap).document.node? id' = o.document.node? id' :=
    o.document.node?_setGap_of_ne hne (some gap)
  apply h.next (o.path_mark id reference gap) hothers
  intro i hi
  rcases List.mem_append.1 hi with hold | hnew
  · exact .inl hold
  · rw [List.mem_singleton.1 hnew]
    refine .inr fun hmiss ↦ ⟨none, d, .here h.mem_pending h.path fun hplain ↦ ?_, hmissed hmiss⟩
    rw [Document.reference?, ← h.kept hplain id (List.mem_cons_self ..)]
    exact hreference

/-- A macro brings along the issues that are remembered of its file. -/
theorem Accounts.apply {reference : Reference} {path : Path} {e : Expansion}
    (hreference : o.document.reference? id = some reference)
    (hknown : r.Explains sessions opened path e) :
    r.Accounts sessions opened d (o.apply id reference e) rest := by
  have hothers (id' : String) (hne : id' ≠ id) (hclear : ∀ inner, Splice.inner id inner ≠ id') :
      (o.apply id reference e).document.node? id' = o.document.node? id' :=
    Outcome.node?_apply_of_ne hreference e hne hclear
  cases e with
  | failed gap =>
    have hother : gap.isMiss = false := hknown
    exact h.mark hreference fun hmiss ↦ by simp [hother] at hmiss
  | expanded definition =>
    obtain ⟨file, q, -, hopened, hload, hmisses⟩ := hknown
    cases hsplice : o.document.splice id definition.document with
    | error gap =>
      have hother : gap.isMiss = false := Document.isMiss_eq_false_of_splice hsplice
      have hmark : o.apply id reference (.expanded definition) = o.mark id reference gap := by
        simp only [Outcome.apply, Outcome.expand, hsplice]
      rw [hmark]
      exact h.mark hreference fun hmiss ↦ by simp [hother] at hmiss
    | ok result =>
      apply h.next (o.path_apply ..) hothers
      intro i hi
      simp only [Outcome.apply, Outcome.expand, hsplice] at hi
      rcases List.mem_append.1 hi with hold | hnew
      · exact .inl hold
      · obtain ⟨inner, hinner, rfl⟩ := List.mem_map.1 hnew
        refine .inr fun hmiss ↦ ?_
        obtain ⟨nested, origin, hraised, hmissed⟩ := hmisses inner hinner hmiss
        rw [h.path]
        exact ⟨_, origin, .inside h.mem_pending hopened hload hraised, hmissed⟩

end

/-! ## Whole runs -/

section

variable {s : Session σ} {earlier : List (Session σ)} {opened : List Path}

theorem SearchesLike.search?_eq {r' : Resolver σ} (h : r.SearchesLike r') (reference : Reference)
    (document : Path) (folders : List Path) :
    r'.search? reference document folders = r.search? reference document folders := by
  rw [search?, search?, h.files, h.search]

theorem sustains_accounting (hs : Chronicle allowed folders (s :: earlier)) {r' : Resolver σ}
    (hlike : r.SearchesLike r') (root : Path) :
    r'.Sustains (r.accounting s earlier opened) (· ∈ opened) root where
  lookup {t _ reference document _} ht hlookup := by
    have hsubset := r'.subset_lookup reference document t
    rw [hlookup] at hsubset
    exact List.Subset.trans ht hsubset
  opening ht := ht
  remember ht := ht
  start {_ d} _ _ := accounts_start d
  skip h _ := h.next rfl (fun _ _ _ ↦ rfl) fun _ hi ↦ .inl hi
  unresolved {d o id rest reference gap t t'} h hreference ht hlookup := by
    refine Accounts.mark h hreference fun _ ↦ ⟨s, rfl, ?_⟩
    apply r.search?_eq_none_of_subset ht
    calc r.search? reference d.path t.context.searchFolders
        = r'.search? reference o.document.path t.context.searchFolders := by
          rw [hlike.search?_eq, h.path]
      _ = none := r'.search?_of_unresolved hlookup
  cyclic _ h hreference := Accounts.mark h hreference fun hmiss ↦ by cases hmiss
  apply h hreference _ _ hknown := Accounts.apply h hreference hknown
  finish {d o path _ _} hallowed _ hload h := by
    refine ⟨path, d, BEq.rfl, hallowed, hlike.load ▸ hload, fun i hi hmiss ↦ ?_⟩
    obtain ⟨file, origin, hraised, hmissed⟩ := h.misses i hi hmiss
    refine ⟨file, origin, hraised, ?_⟩
    cases file with
    | none => exact hs.missed hmissed.search? (some path)
    | some inner => exact hmissed
  fail _ _ := rfl
  spelled {_ _ e} heq h := by
    cases e with
    | failed gap => exact h
    | expanded definition =>
      obtain ⟨file, d, hfile, hrest⟩ := h
      exact ⟨file, d, BEq.trans hfile heq, hrest⟩

theorem Explains.mono {opened' : List Path} (hsubset : opened ⊆ opened') {path : Path}
    {e : Expansion} (h : r.Explains sessions opened path e) :
    r.Explains sessions opened' path e := by
  cases e with
  | failed gap => exact h
  | expanded definition =>
    obtain ⟨file, d, hfile, hopened, hload, hmisses⟩ := h
    refine ⟨file, d, hfile, hsubset hopened, hload, fun i hi hmiss ↦ ?_⟩
    obtain ⟨inner, origin, hraised, hmissed⟩ := hmisses i hi hmiss
    exact ⟨inner, origin, hraised.mono hsubset, hmissed⟩

/-- What is remembered between two runs stays accounted for when the next one begins. -/
theorem Explains.cons {path : Path} {e : Expansion}
    (h : r.Explains sessions s.context.opened path e) :
    r.Explains (s :: sessions) s.context.opened path e := by
  cases e with
  | failed gap => exact h
  | expanded definition =>
    obtain ⟨file, d, hfile, hopened, hload, hmisses⟩ := h
    refine ⟨file, d, hfile, hopened, hload, fun i hi hmiss ↦ ?_⟩
    obtain ⟨inner, origin, hraised, hmissed⟩ := hmisses i hi hmiss
    refine ⟨inner, origin, hraised, hmissed.cons ?_⟩
    cases inner with
    | none => exact hopened
    | some nested => exact hraised.opened_of_some nested rfl

/-- A run accounts for the calls that are missed in its document, and for what it remembers. -/
theorem accounts_resolve (hs : Chronicle allowed folders (s :: earlier))
    (hknown : ∀ path e, s.context.expansion? path = some e →
      r.Explains (s :: earlier) s.context.opened path e)
    {r' : Resolver σ} (hlike : r.SearchesLike r') (d : Document) :
    let (o, t) := r'.resolve d s
    r.Accounts (s :: earlier) t.context.opened d o [] ∧
      ∀ path e, t.context.expansion? path = some e →
        r.Explains (s :: earlier) t.context.opened path e := by
  let opened := (r'.resolve d s).2.context.opened
  have hsustains : r'.Sustains (r.accounting s earlier opened) (· ∈ opened)
      (r'.files.canonical d.path) := sustains_accounting hs hlike _
  obtain ⟨⟨-, hmemory⟩, hframe⟩ := hsustains.resolve
    (fun hopened ↦ ⟨List.Subset.refl _, fun path e he ↦ (hknown path e he).mono hopened⟩)
    (fun file hfile ↦ hfile)
  exact ⟨hframe (accounts_start d), hmemory⟩

/-- All that is remembered of files is accounted for. -/
theorem Chronicle.explains (hs : Chronicle r.SearchesLike folders sessions) :
    ∀ s ∈ sessions.head?, ∀ path e, s.context.expansion? path = some e →
      r.Explains sessions s.context.opened path e := by
  induction hs with
  | start operator =>
    intro s hs path e he
    obtain rfl := Option.some.inj hs
    simp [Context.expansion?, (Context.sameRecords_start folders).expansions] at he
  | @resolve s earlier r' hs hlike d ih =>
    intro t ht path e he
    obtain rfl := Option.some.inj ht
    exact ((accounts_resolve hs (ih s rfl) hlike d).2 path e he).cons

/-- A call that is reported as missing or skipped was written in the document or in a macro's file,
and no file was to be found for it at the beginning of the run in which this file was opened. For
the document itself, and for files that had not been opened before, that is the present run. -/
theorem resolve_misses (hs : Chronicle r.SearchesLike folders (s :: earlier))
    (d : Document) :
    ∀ i ∈ (r.resolve d s).1.issues, i.gap.isMiss → ∃ file origin t,
      r.RaisedIn (r.resolve d s).2.context.opened d i file origin ∧
        (s :: earlier).find? (isUnopened file) = some t ∧
          r.search? i.reference origin.path t.context.searchFolders = none := by
  intro i hi hmiss
  have haccounts := (accounts_resolve hs (hs.explains s rfl) ⟨rfl, rfl, rfl⟩ d).1
  obtain ⟨file, origin, hraised, t, ht, hnone⟩ := haccounts.misses i hi hmiss
  exact ⟨file, origin, t, hraised, ht, hnone⟩

end

/-! ## A folder that is given too late -/

/-- The file `Q`, and the files `Ghost` and `Other` in a folder of their own. -/
def libraryFiles : FileSystem :=
  ((FileSystem.empty []).put ["Q.yxmc"] (.file ⟨#[]⟩) trivial).put ["lib"]
    (.folder [("Ghost.yxmc", .file ⟨#[]⟩), ("Other.yxmc", .file ⟨#[]⟩)])
    (Entry.ordered_folder_pair (by decide +kernel) _ _)

/-- The file `Q` calls `Ghost`. The operator does not know where that is, but gives the folder when
asked about another macro. -/
def libraryResolver : Resolver (List (Option Answer)) where
  files := libraryFiles
  load path :=
    if path.text = "/Q.yxmc" then .ok (singleton "Q" "/Q.yxmc" (.call "1" (.named "Ghost")))
    else .ok (singleton "T" path.text (.plain "1" .formula "f"))
  options := ⟨.everywhere, 3⟩
  operator := .ofPrompt Operator.script

/-- The session before the first question. -/
def librarySession : Session (List (Option Answer)) :=
  ⟨.start [], [some .decline, some (.folder ⟨"/lib"⟩)]⟩

/-- A document that calls `Q` and another macro. -/
def libraryCaller (other : String) : Document where
  name := "D"
  path := ⟨"/D.yxmd"⟩
  description := none
  nodes := [.call "1" (.named "Q"), .call "2" (.named other)]
  connections := []

/-- The end of the run in which the folder is given. -/
def libraryEnd : Progress (List (Option Answer)) :=
  libraryResolver.advance 6
    (.start (libraryCaller "Other") (libraryFiles.canonical ⟨"/D.yxmd"⟩) librarySession)

/-- What is left of the memory after it. -/
def libraryLater : Session (List (Option Answer)) :=
  (libraryResolver.resolve (libraryCaller "Other") librarySession).2

theorem libraryLater_eq : libraryLater = libraryEnd.session :=
  congrArg Prod.snd (resolve_eq_of_advance libraryEnd.eq_1.symm
    (Option.isNone_iff_eq_none.1 (by decide +kernel)))

/-- The end of the next run, for a document that calls `Q` again, and `Ghost` itself. -/
def libraryAgain : Progress (List (Option Answer)) :=
  libraryResolver.advance 6
    (.start (libraryCaller "Ghost") (libraryFiles.canonical ⟨"/D.yxmd"⟩) libraryEnd.session)

/-- The call inside `Q` is still reported, and `Ghost` can be found. -/
theorem libraryAgain_misses :
    (libraryResolver.step libraryAgain).isNone ∧
      libraryAgain.current.outcome.issues.map
          (fun i ↦ (i.reference, i.document.text, i.node, i.origin, i.gap)) =
        [(.named "Ghost", "/D.yxmd", "1/1", "", .missing)] ∧
      "/Q.yxmc" ∈ libraryAgain.session.context.opened.map Path.text ∧
      (libraryResolver.search? (.named "Ghost") ⟨"/Q.yxmc"⟩
        libraryEnd.session.context.searchFolders).isSome := by
  decide +kernel

theorem resolve_libraryLater :
    libraryResolver.resolve (libraryCaller "Ghost") libraryLater =
      (libraryAgain.current.outcome, libraryAgain.session) := by
  rw [libraryLater_eq]
  exact resolve_eq_of_advance libraryAgain.eq_1.symm
    (Option.isNone_iff_eq_none.1 libraryAgain_misses.1)

theorem resolve_misses_library :
    Chronicle libraryResolver.SearchesLike [] [libraryLater, librarySession] ∧
      (∀ i ∈ (libraryResolver.resolve (libraryCaller "Ghost") libraryLater).1.issues, i.gap.isMiss →
        ∃ file origin t,
          libraryResolver.RaisedIn
              (libraryResolver.resolve (libraryCaller "Ghost") libraryLater).2.context.opened
              (libraryCaller "Ghost") i file origin ∧
            [libraryLater, librarySession].find? (isUnopened file) = some t ∧
              libraryResolver.search? i.reference origin.path t.context.searchFolders = none) ∧
      (libraryResolver.resolve (libraryCaller "Ghost") libraryLater).1.issues ≠ [] := by
  have hs : Chronicle libraryResolver.SearchesLike [] [libraryLater, librarySession] :=
    .resolve (.start _) ⟨rfl, rfl, rfl⟩ _
  refine ⟨hs, resolve_misses hs (libraryCaller "Ghost"), ?_⟩
  rw [resolve_libraryLater]
  dsimp only
  intro hnone
  have hissues := libraryAgain_misses.2.1
  rw [hnone] at hissues
  cases hissues

/-- A call inside `Q` is reported as missing, although its file can be found with the folders that
were known when the run began. A call of the same macro in the document itself is replaced. -/
theorem resolve_misses_outdated :
    Chronicle libraryResolver.SearchesLike [] [libraryLater, librarySession] ∧
      ∃ i ∈ (libraryResolver.resolve (libraryCaller "Ghost") libraryLater).1.issues, i.gap.isMiss ∧
        ∃ file origin,
          libraryResolver.RaisedIn
              (libraryResolver.resolve (libraryCaller "Ghost") libraryLater).2.context.opened
              (libraryCaller "Ghost") i file origin ∧
            (libraryResolver.search? i.reference origin.path
              libraryLater.context.searchFolders).isSome := by
  refine ⟨.resolve (.start _) ⟨rfl, rfl, rfl⟩ _, ?_⟩
  rw [resolve_libraryLater, libraryLater_eq]
  dsimp only
  obtain ⟨-, hissues, hopened, hfound⟩ := libraryAgain_misses
  obtain ⟨⟨reference, ⟨document⟩, node, origin, gap⟩, hall, hfields⟩ :=
    List.map_eq_singleton_iff.1 hissues
  simp only [Prod.mk.injEq] at hfields
  obtain ⟨rfl, rfl, rfl, rfl, rfl⟩ := hfields
  obtain ⟨⟨file⟩, hfile, rfl⟩ := List.mem_map.1 hopened
  let q : Document := singleton "Q" "/Q.yxmc" (.call "1" (.named "Ghost"))
  let i : Issue := ⟨.named "Ghost", q.path, "1", "", .missing⟩
  have hinner : libraryResolver.RaisedIn libraryAgain.session.context.opened q i none q :=
    .here (List.mem_singleton_self _) rfl fun _ ↦ rfl
  have houter : libraryResolver.RaisedIn libraryAgain.session.context.opened
      (libraryCaller "Ghost") (i.relocate "1" (libraryCaller "Ghost").path) (some q.path) q :=
    .inside (List.mem_cons_self ..) hfile rfl hinner
  rw [hall]
  exact ⟨_, List.mem_singleton_self _, rfl, some q.path, q, houter, hfound⟩

end Resolver

end Provenance
