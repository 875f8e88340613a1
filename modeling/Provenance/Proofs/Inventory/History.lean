import Provenance.Proofs.Batch.Inventory

/-!
# What an inventory says of all that was recorded

Whatever outcomes are recorded and in whatever order, an inventory has one record for each macro that
came up in them, which says whether the macro was ever found and which workflows have to do with it
(`recounts_ofHistory`).

An outcome is recorded use by use and issue by issue, each of which mentions one macro (`Mention`). A
record reflects the mentions of its macro: that it was found wins over all else, and otherwise the
last mention counts (`Mention.status_concat`). One more mention keeps this (`Reflects.recordUse`,
`Reflects.recordIssue`), and so do outcomes and histories.
-/

namespace Provenance

/-- What a reason for which a call was not replaced says of the macro. -/
inductive Gap.Says : Gap → Status → Prop
  | missing : Says .missing .missing
  | skipped : Says .skipped .skipped
  | malformed (message : String) : Says (.malformed message) .malformed
  | anchorMismatch (expected found : AnchorCount) :
      Says (.anchorMismatch expected found) .anchorMismatch
  | cyclic (chain : List String) : Says (.cyclic chain) .cyclic

theorem Gap.says_ofGap (gap : Gap) : gap.Says (.ofGap gap) := by
  cases gap with
  | missing => exact .missing
  | skipped => exact .skipped
  | malformed message => exact .malformed message
  | anchorMismatch expected found => exact .anchorMismatch expected found
  | cyclic chain => exact .cyclic chain

/-! ## Mentions -/

/-- A macro that comes up in a workflow, because it is used or because a call of it could not be
replaced. -/
structure Mention where
  workflow : String
  name : String
  /-- Why the call could not be replaced, if it is one that could not. -/
  gap : Option Gap

namespace Mention

/-- The mentions of a macro. -/
def of (name : String) (mentions : List Mention) : List Mention :=
  mentions.filter (fun m ↦ m.name = name)

/-- What some mentions of a macro say became of it. -/
def status (mentions : List Mention) : Status :=
  if mentions.any (fun m ↦ m.gap.isNone) then .found
  else ((mentions.getLast?.bind Mention.gap).map Status.ofGap).getD .missing

theorem of_append (name : String) (mentions mentions' : List Mention) :
    of name (mentions ++ mentions') = of name mentions ++ of name mentions' :=
  List.filter_append ..

theorem mem_of {name : String} {mentions : List Mention} {m : Mention} :
    m ∈ of name mentions ↔ m ∈ mentions ∧ m.name = name := by
  simp [of]

theorem status_eq_found_iff {mentions : List Mention} :
    status mentions = .found ↔ ∃ m ∈ mentions, m.gap = none := by
  unfold status
  split
  · rename_i hany
    simpa using hany
  · rename_i hnone
    refine iff_of_false ?_ (by simpa using hnone)
    cases mentions.getLast?.bind Mention.gap with
    | none => exact Status.noConfusion
    | some gap => exact Status.ofGap_ne_found gap

/-- A use makes a macro found, and a call that could not be replaced gives it a status unless it was
found. -/
theorem status_concat (mentions : List Mention) (m : Mention) :
    status (mentions ++ [m]) =
      match m.gap with
      | none => .found
      | some gap => if status mentions = .found then .found else .ofGap gap := by
  cases hgap : m.gap with
  | none => exact status_eq_found_iff.2 ⟨m, by simp, hgap⟩
  | some gap =>
    dsimp only
    split
    · rename_i hfound
      obtain ⟨use, hmem, huse⟩ := status_eq_found_iff.1 hfound
      exact status_eq_found_iff.2 ⟨use, List.mem_append_left _ hmem, huse⟩
    · rename_i hnot
      rw [status_eq_found_iff] at hnot
      simp_all [status]

/-- What became of a macro that was not found is the last reason for which a call of it could not be
replaced. -/
theorem exists_last_gap {mentions : List Mention} (hne : mentions ≠ [])
    (hstatus : status mentions ≠ .found) :
    ∃ last, (mentions.filterMap gap).getLast? = some last ∧ status mentions = .ofGap last := by
  obtain ⟨before, m, rfl⟩ := (List.eq_nil_or_concat' mentions).resolve_left hne
  rw [status_concat] at hstatus ⊢
  cases hgap : m.gap with
  | none =>
    rw [hgap] at hstatus
    exact absurd rfl hstatus
  | some last =>
    rw [hgap] at hstatus
    refine ⟨last, by simp [hgap], if_neg fun hfound ↦ hstatus (if_pos hfound)⟩

end Mention

namespace Outcome

/-- The macros that come up in the outcome for a workflow, in the order in which they are recorded. -/
def mentions (workflow : String) (o : Outcome) : List Mention :=
  o.uses.map (fun u ↦ ⟨workflow, u.reference.name, none⟩) ++
    o.issues.map (fun issue ↦ ⟨workflow, issue.reference.name, some issue.gap⟩)

/-- Whether a macro comes up in the outcome. -/
def Mentions (o : Outcome) (name : String) : Prop :=
  (∃ u ∈ o.uses, u.reference.name = name) ∨ ∃ issue ∈ o.issues, issue.reference.name = name

theorem mem_mentions {o : Outcome} {workflow : String} {m : Mention} :
    m ∈ o.mentions workflow ↔
      (∃ u ∈ o.uses, m = ⟨workflow, u.reference.name, none⟩) ∨
        ∃ issue ∈ o.issues, m = ⟨workflow, issue.reference.name, some issue.gap⟩ := by
  simp only [mentions, List.mem_append, List.mem_map, eq_comm]

theorem mentions_iff {o : Outcome} {workflow name : String} :
    o.Mentions name ↔ ∃ m ∈ o.mentions workflow, m.name = name := by
  simp only [mem_mentions, or_and_right, exists_or]
  constructor
  · rintro (⟨u, hu, rfl⟩ | ⟨issue, hissue, rfl⟩)
    · exact .inl ⟨_, ⟨u, hu, rfl⟩, rfl⟩
    · exact .inr ⟨_, ⟨issue, hissue, rfl⟩, rfl⟩
  · rintro (⟨_, ⟨u, hu, rfl⟩, hname⟩ | ⟨_, ⟨issue, hissue, rfl⟩, hname⟩)
    · exact .inl ⟨u, hu, hname⟩
    · exact .inr ⟨issue, hissue, hname⟩

theorem workflow_of_mem_mentions {o : Outcome} {workflow : String} {m : Mention}
    (h : m ∈ o.mentions workflow) : m.workflow = workflow := by
  rcases mem_mentions.1 h with ⟨u, -, rfl⟩ | ⟨issue, -, rfl⟩ <;> rfl

/-- The reasons for which calls of a macro could not be replaced. -/
theorem filterMap_gap_mentions (o : Outcome) (workflow name : String) :
    (Mention.of name (o.mentions workflow)).filterMap Mention.gap =
      (o.issues.filter (fun issue ↦ issue.reference.name = name)).map Issue.gap := by
  simp [mentions, Mention.of, List.filter_map, Function.comp_def]

end Outcome

/-! ## Records -/

/-- A record says of a macro what its mentions say. -/
structure MacroRecord.Reflects (name : String) (mentions : List Mention) (r : MacroRecord) :
    Prop where
  name : r.name = name
  status : r.status = Mention.status mentions
  ordered : Table.Ordered r.usedBy
  users : ∀ workflow, workflow ∈ r.users ↔ ∃ m ∈ mentions, m.workflow = workflow

namespace MacroRecord.Reflects

variable {name : String} {mentions : List Mention} {r : MacroRecord}

theorem of_bare (name : String) : (bare name .missing).Reflects name [] :=
  ⟨rfl, rfl, .nil, fun workflow ↦ by simp [bare, MacroRecord.users, Table.keys]⟩

/-- One more mention of the macro. -/
theorem concat (h : r.Reflects name mentions) (m : Mention) {r' : MacroRecord}
    (hname : r'.name = r.name) (hstatus : r'.status = Mention.status (mentions ++ [m]))
    (husers : r'.usedBy = Table.insert m.workflow () r.usedBy) :
    r'.Reflects name (mentions ++ [m]) := by
  refine ⟨hname.trans h.name, hstatus, husers ▸ h.ordered.insert _ _, fun workflow ↦ ?_⟩
  rw [MacroRecord.users, husers, Table.mem_keys_insert, ← MacroRecord.users, h.users]
  simp [or_and_right, exists_or, or_comm, eq_comm]

end MacroRecord.Reflects

/-! ## Inventories -/

namespace Inventory

/-- The records of an inventory, in the order of their names, are those of the macros that some
mentions are about, and each reflects what they say of its macro. -/
structure Reflects (mentions : List Mention) (i : Inventory) : Prop where
  ordered : Table.Ordered i.macros
  names : ∀ name, name ∈ Table.keys i.macros ↔ ∃ m ∈ mentions, m.name = name
  each : ∀ name, (i.getD name).Reflects name (Mention.of name mentions)

theorem reflects_empty : empty.Reflects [] :=
  ⟨.nil, fun name ↦ by simp [empty, Table.keys], fun name ↦ .of_bare name⟩

namespace Reflects

variable {mentions : List Mention} {i i' : Inventory}

/-- One more mention changes the record of its macro and no other. -/
theorem concat (h : i.Reflects mentions) {m : Mention} {r : MacroRecord}
    (hmacros : i'.macros = Table.insert m.name r i.macros)
    (hself : (i'.getD m.name).Reflects m.name (Mention.of m.name mentions ++ [m]))
    (hother : ∀ name, m.name ≠ name → i'.getD name = i.getD name) :
    i'.Reflects (mentions ++ [m]) := by
  refine ⟨hmacros ▸ h.ordered.insert _ _, fun name ↦ ?_, fun name ↦ ?_⟩
  · rw [hmacros, Table.mem_keys_insert, h.names]
    simp [or_and_right, exists_or, or_comm, eq_comm]
  · rw [Mention.of_append]
    by_cases hname : m.name = name
    · subst hname
      simpa [Mention.of] using hself
    · rw [hother name hname]
      simpa [Mention.of, hname] using h.each name

theorem recordUse (h : i.Reflects mentions) (workflow : String) (c : Context) (u : Use) :
    (i.recordUse workflow c u).Reflects
      (mentions ++ [⟨workflow, u.reference.name, none⟩]) := by
  refine h.concat rfl ?_ fun name hne ↦ (getD_recordUse workflow c i u name).trans (if_neg hne)
  rw [getD_recordUse, if_pos rfl]
  refine (h.each _).concat _ rfl ?_ rfl
  rw [Mention.status_concat]
  rfl

theorem recordIssue (h : i.Reflects mentions) (workflow : String) (issue : Issue) :
    (i.recordIssue workflow issue).Reflects
      (mentions ++ [⟨workflow, issue.reference.name, some issue.gap⟩]) := by
  refine h.concat rfl ?_ fun name hne ↦ (getD_recordIssue workflow i issue name).trans (if_neg hne)
  rw [getD_recordIssue, if_pos rfl]
  refine (h.each _).concat _ rfl ?_ rfl
  rw [Mention.status_concat, ← (h.each _).status]
  simp [MacroRecord.addUser, MacroRecord.isFound]

/-- What adds one mention for each element of a list adds one mention after the other. -/
theorem foldl {α : Type} {f : Inventory → α → Inventory} {mention : α → Mention}
    (hf : ∀ {i mentions}, i.Reflects mentions → ∀ a, (f i a).Reflects (mentions ++ [mention a]))
    (h : i.Reflects mentions) (as : List α) :
    (as.foldl f i).Reflects (mentions ++ as.map mention) := by
  induction as generalizing i mentions with
  | nil => rwa [List.map_nil, List.append_nil]
  | cons a rest ih =>
    rw [List.map_cons, List.append_cons]
    exact ih (hf h a)

/-- An outcome adds its mentions. -/
theorem record (h : i.Reflects mentions) (workflow : String) (o : Outcome) (c : Context) :
    (i.record workflow o c).Reflects (mentions ++ o.mentions workflow) := by
  have huses := h.foldl (fun h u ↦ h.recordUse workflow c u) o.uses
  have hissues := huses.foldl (fun h issue ↦ h.recordIssue workflow issue) o.issues
  rwa [List.append_assoc] at hissues

/-- A record is found under its name and reflects what is said of the macro. -/
theorem get?_of_mem (h : i.Reflects mentions) {r : MacroRecord} (hr : r ∈ i.records) :
    i.get? r.name = some r ∧ r.Reflects r.name (Mention.of r.name mentions) := by
  obtain ⟨⟨name, r⟩, hentry, rfl⟩ := List.mem_map.1 hr
  have hget : i.get? name = some r := h.ordered.find?_eq_some hentry
  have hreflects : r.Reflects name (Mention.of name mentions) := by
    simpa [getD, hget] using h.each name
  obtain rfl := hreflects.name
  exact ⟨hget, hreflects⟩

theorem map_name_records (h : i.Reflects mentions) :
    i.records.map MacroRecord.name = Table.keys i.macros := by
  rw [records, List.map_map]
  refine List.map_congr_left fun entry hentry ↦ ?_
  have hget : i.get? entry.1 = some entry.2 := h.ordered.find?_eq_some hentry
  simpa [getD, hget] using (h.each entry.1).name

theorem pairwise_names (h : i.Reflects mentions) :
    (i.records.map MacroRecord.name).Pairwise (· < ·) :=
  h.map_name_records ▸ h.ordered.pairwise_keys

end Reflects

/-! ## Histories -/

/-- What is recorded at once: an outcome, with the name of its workflow and what was known then. -/
structure Recording where
  workflow : String
  outcome : Outcome
  context : Context

/-- The macros that come up in a recording. -/
def Recording.mentions (e : Recording) : List Mention :=
  e.outcome.mentions e.workflow

/-- The inventory that some recordings make, one after the other. -/
def ofHistory (history : List Recording) : Inventory :=
  history.foldl (fun i e ↦ i.record e.workflow e.outcome e.context) .empty

theorem reflects_ofHistory (history : List Recording) :
    (ofHistory history).Reflects (history.flatMap Recording.mentions) := by
  induction history using List.reverseRecOn with
  | nil => exact reflects_empty
  | append_singleton history e ih =>
    rw [ofHistory, List.foldl_concat, List.flatMap_append, List.flatMap_singleton]
    exact ih.record e.workflow e.outcome e.context

/-- The issues of a history that are about a macro, in order. -/
def issuesOf (name : String) (history : List Recording) : List Issue :=
  (history.flatMap (fun e ↦ e.outcome.issues)).filter (fun issue ↦ issue.reference.name = name)

/-- An inventory tells a history: which macros came up, what became of them, and which workflows have
to do with them. -/
structure Recounts (history : List Recording) (i : Inventory) : Prop where
  /-- There is one record for each name, in the order of names. -/
  ordered : (i.records.map MacroRecord.name).Pairwise (· < ·)
  get? : ∀ r ∈ i.records, i.get? r.name = some r
  /-- The macros that have a record are those that came up. -/
  names : ∀ name, (∃ r ∈ i.records, r.name = name) ↔ ∃ e ∈ history, e.outcome.Mentions name
  /-- A macro is found if it was used in some outcome. -/
  found : ∀ r ∈ i.records,
    r.status = .found ↔ ∃ e ∈ history, ∃ u ∈ e.outcome.uses, u.reference.name = r.name
  /-- Otherwise its last issue counts. -/
  unfound : ∀ r ∈ i.records, r.status ≠ .found →
    ∃ issue, (issuesOf r.name history).getLast? = some issue ∧ issue.gap.Says r.status
  /-- The users are the workflows in whose outcomes the macro came up, each once. -/
  users : ∀ r ∈ i.records, r.users.Pairwise (· < ·) ∧
    ∀ workflow, workflow ∈ r.users ↔ ∃ e ∈ history, e.workflow = workflow ∧ e.outcome.Mentions r.name
  /-- The macros that were not found are listed in the order of names. -/
  missing : (i.missing.map MacroRecord.name).Pairwise (· < ·) ∧
    ∀ r, r ∈ i.missing ↔ r ∈ i.records ∧ r.status ≠ .found
  /-- Those with at least two users are listed in the order of names. -/
  shared : (i.shared.map MacroRecord.name).Pairwise (· < ·) ∧
    ∀ r, r ∈ i.shared ↔ r ∈ i.records ∧ 2 ≤ r.users.length
  /-- The numbers of a summary add up. -/
  summary : i.summary.total = i.records.length ∧
    i.summary.total = i.summary.found + i.summary.missing ∧
    i.summary.missing = i.missing.length ∧ i.summary.shared = i.shared.length

section

variable {history : List Recording} {name : String}

theorem exists_mention_iff :
    (∃ m ∈ history.flatMap Recording.mentions, m.name = name) ↔
      ∃ e ∈ history, e.outcome.Mentions name := by
  simp only [List.mem_flatMap, Recording.mentions]
  constructor
  · rintro ⟨m, ⟨e, he, hm⟩, hname⟩
    exact ⟨e, he, Outcome.mentions_iff.2 ⟨m, hm, hname⟩⟩
  · rintro ⟨e, he, hmentions⟩
    obtain ⟨m, hm, hname⟩ := Outcome.mentions_iff.1 hmentions
    exact ⟨m, ⟨e, he, hm⟩, hname⟩

theorem exists_mention_in_iff {workflow : String} :
    (∃ m ∈ Mention.of name (history.flatMap Recording.mentions), m.workflow = workflow) ↔
      ∃ e ∈ history, e.workflow = workflow ∧ e.outcome.Mentions name := by
  simp only [Mention.mem_of, List.mem_flatMap, Recording.mentions]
  constructor
  · rintro ⟨m, ⟨⟨e, he, hm⟩, hname⟩, rfl⟩
    exact ⟨e, he, (Outcome.workflow_of_mem_mentions hm).symm, Outcome.mentions_iff.2 ⟨m, hm, hname⟩⟩
  · rintro ⟨e, he, rfl, hmentions⟩
    obtain ⟨m, hm, hname⟩ := Outcome.mentions_iff.1 hmentions
    exact ⟨m, ⟨⟨e, he, hm⟩, hname⟩, Outcome.workflow_of_mem_mentions hm⟩

theorem exists_use_iff :
    (∃ m ∈ Mention.of name (history.flatMap Recording.mentions), m.gap = none) ↔
      ∃ e ∈ history, ∃ u ∈ e.outcome.uses, u.reference.name = name := by
  simp only [Mention.mem_of, List.mem_flatMap, Recording.mentions, Outcome.mem_mentions]
  constructor
  · rintro ⟨_, ⟨⟨e, he, ⟨u, hu, rfl⟩ | ⟨issue, -, rfl⟩⟩, hname⟩, hgap⟩
    · exact ⟨e, he, u, hu, hname⟩
    · cases hgap
  · rintro ⟨e, he, u, hu, hname⟩
    exact ⟨_, ⟨⟨e, he, .inl ⟨u, hu, rfl⟩⟩, hname⟩, rfl⟩

theorem filterMap_gap_history (name : String) (history : List Recording) :
    (Mention.of name (history.flatMap Recording.mentions)).filterMap Mention.gap =
      (issuesOf name history).map Issue.gap := by
  induction history with
  | nil => rfl
  | cons e rest ih =>
    rw [List.flatMap_cons, Mention.of_append, List.filterMap_append, ih, Recording.mentions,
      Outcome.filterMap_gap_mentions, issuesOf, issuesOf, List.flatMap_cons, List.filter_append,
      List.map_append]

/-- A macro that came up without being used is what its last issue says. -/
theorem exists_last_issue (hname : ∃ e ∈ history, e.outcome.Mentions name)
    (hstatus : Mention.status (Mention.of name (history.flatMap Recording.mentions)) ≠ .found) :
    ∃ issue, (issuesOf name history).getLast? = some issue ∧
      issue.gap.Says (Mention.status (Mention.of name (history.flatMap Recording.mentions))) := by
  obtain ⟨m, hm, hmname⟩ := exists_mention_iff.2 hname
  obtain ⟨last, hlast, heq⟩ := Mention.exists_last_gap
    (List.ne_nil_of_mem (Mention.mem_of.2 ⟨hm, hmname⟩)) hstatus
  rw [filterMap_gap_history, List.getLast?_map] at hlast
  obtain ⟨issue, hissue, rfl⟩ := Option.map_eq_some_iff.1 hlast
  exact ⟨issue, hissue, heq ▸ issue.gap.says_ofGap⟩

end

/-- An inventory tells of any outcomes that were recorded, in any order, by any workflows, what there
is to tell. -/
theorem recounts_ofHistory (history : List Recording) : (ofHistory history).Recounts history := by
  have h := reflects_ofHistory history
  have hnames (name : String) : (∃ r ∈ (ofHistory history).records, r.name = name) ↔
      ∃ e ∈ history, e.outcome.Mentions name := by
    rw [← exists_mention_iff, ← h.names, ← h.map_name_records, List.mem_map]
  exact {
    ordered := h.pairwise_names
    get? := fun r hr ↦ (h.get?_of_mem hr).1
    names := hnames
    found := fun r hr ↦ by
      rw [(h.get?_of_mem hr).2.status, Mention.status_eq_found_iff, exists_use_iff]
    unfound := fun r hr hstatus ↦ by
      rw [(h.get?_of_mem hr).2.status] at hstatus ⊢
      exact exists_last_issue ((hnames r.name).1 ⟨r, hr, rfl⟩) hstatus
    users := fun r hr ↦ by
      have hreflects := (h.get?_of_mem hr).2
      refine ⟨hreflects.ordered.pairwise_keys, fun workflow ↦ ?_⟩
      rw [hreflects.users, exists_mention_in_iff]
    missing := by
      refine ⟨h.pairwise_names.sublist (List.filter_sublist.map _), fun r ↦ ?_⟩
      simp [missing, MacroRecord.isFound]
    shared := by
      refine ⟨h.pairwise_names.sublist (List.filter_sublist.map _), fun r ↦ ?_⟩
      simp only [shared, List.mem_filter, MacroRecord.isShared, decide_eq_true_iff, Nat.succ_le_iff]
    summary := by
      have hle : (ofHistory history).missing.length ≤ (ofHistory history).records.length :=
        List.length_filter_le ..
      refine ⟨rfl, ?_, rfl, rfl⟩
      simp only [summary]
      omega }

/-- A use of a macro of a given name, from a file in a folder of macros. -/
def useOf (name : String) : Use :=
  ⟨.named name, ⟨"/macros/" ++ name ++ ".yxmc"⟩, 1, 1⟩

/-- An issue with a call of a macro of a given name. -/
def issueWith (name : String) (gap : Gap) : Issue :=
  ⟨.named name, ⟨"/flow.yxmd"⟩, "1", "flow#1", gap⟩

/-- Two workflows. The first one uses `Clean` and could not use five other macros, and the second
one could not use `Clean`, and not `Trim` either, for two reasons. -/
def mixedHistory : List Recording :=
  [⟨"sales", ⟨default, [issueWith "Join" (.malformed "no end"), issueWith "Trim" .missing,
      issueWith "Sort" (.cyclic ["Sort", "Sort"]), issueWith "Pick" .missing,
      issueWith "Cut" (.anchorMismatch ⟨1, 1⟩ ⟨2, 1⟩)], [useOf "Clean"]⟩, .start []⟩,
   ⟨"mail", ⟨default, [issueWith "Clean" .missing, issueWith "Trim" (.malformed "no end"),
      issueWith "Trim" .skipped], []⟩, .start []⟩]

theorem recounts_ofHistory_mixed :
    (ofHistory mixedHistory).Recounts mixedHistory ∧
      (ofHistory mixedHistory).records.map (fun r ↦ (r.name, r.status, r.users)) =
        [("Clean", .found, ["mail", "sales"]), ("Cut", .anchorMismatch, ["sales"]),
         ("Join", .malformed, ["sales"]), ("Pick", .missing, ["sales"]),
         ("Sort", .cyclic, ["sales"]), ("Trim", .skipped, ["mail", "sales"])] ∧
      (ofHistory mixedHistory).missing.map MacroRecord.name =
        ["Cut", "Join", "Pick", "Sort", "Trim"] ∧
      (ofHistory mixedHistory).shared.map MacroRecord.name = ["Clean", "Trim"] ∧
      (ofHistory mixedHistory).summary = ⟨6, 1, 5, 2⟩ :=
  ⟨recounts_ofHistory mixedHistory, by decide +kernel⟩

end Inventory

end Provenance
