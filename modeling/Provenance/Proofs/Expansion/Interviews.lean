import Mathlib.Data.List.Nodup
import Provenance.Proofs.Expansion.Frames
import Provenance.Proofs.Expansion.Transcript

/-!
# What an operator is asked

All questions about one reference come one after the other, numbered from one and no more than
allowed (`Interview`). Whatever they lead to is recorded as a decision, so that nobody asks about the
reference again, and the refusal of all questions ends the transcript (`Session.Orderly`). In every
step of every run of a history this stays so, and transcript, search folders and decisions only
grow (`Session.Precedes`).
-/

namespace Provenance

theorem Context.pairwise_addFolder {c : Context}
    (h : c.searchFolders.Pairwise (fun a b ↦ ¬a == b)) (folder : Path) :
    (c.addFolder folder).searchFolders.Pairwise (fun a b ↦ ¬a == b) := by
  unfold addFolder
  split
  · exact h
  · rename_i hnew
    exact Path.pairwise_concat h fun other hother heq ↦
      hnew (List.any_eq_true.2 ⟨other, hother, heq⟩)

variable {σ : Type}

/-- The exchanges about a reference. -/
structure Interview (limit : Nat) (reference : Reference) (exchanges : List Exchange) : Prop where
  asked : exchanges ≠ []
  about : ∀ e ∈ exchanges, e.request.reference = reference
  attempts : exchanges.map (fun e ↦ e.request.attempt) = List.range' 1 exchanges.length
  length : exchanges.length ≤ limit

namespace Session

/-- The transcript of a session consists of interviews about different references, and the memory
goes with it. -/
structure Orderly (limit : Nat) (s : Session (List Exchange × σ)) : Prop where
  interviews : ∃ interviews : List (Reference × List Exchange),
    s.transcript = interviews.flatMap Prod.snd ∧ (interviews.map Prod.fst).Nodup ∧
      ∀ interview ∈ interviews, Interview limit interview.1 interview.2
  prompts : s.context.prompts = s.transcript.length
  decided : ∀ e ∈ s.transcript, (s.context.decision? e.request.reference).isSome
  /-- Nothing is asked after the refusal of all questions. -/
  refusal : ∀ e ∈ s.transcript.dropLast, e.answer ≠ .skipAll
  skipsAll : s.context.skipsAll ↔ ∃ e ∈ s.transcript, e.answer = .skipAll
  folders : s.context.searchFolders.Pairwise (fun a b ↦ ¬a == b)

/-- One session comes before another: nothing that was asked, added or decided is lost. -/
structure Precedes (s t : Session (List Exchange × σ)) : Prop where
  transcript : s.transcript <+: t.transcript
  folders : s.context.searchFolders <+: t.context.searchFolders
  decisions : ∀ reference decision, s.context.decision? reference = some decision →
    t.context.decision? reference = some decision

variable {s t u : Session (List Exchange × σ)}

theorem Precedes.refl (s : Session (List Exchange × σ)) : s.Precedes s :=
  ⟨List.prefix_rfl, List.prefix_rfl, fun _ _ h ↦ h⟩

theorem Precedes.trans (h : s.Precedes t) (h' : t.Precedes u) : s.Precedes u where
  transcript := h.transcript.trans h'.transcript
  folders := h.folders.trans h'.folders
  decisions reference decision hd := h'.decisions _ _ (h.decisions reference decision hd)

/-- Some questions about a reference, numbered from `attempt`, lead from one session to another. -/
structure Asks (reference : Reference) (attempt left : Nat) (exchanges : List Exchange)
    (s t : Session (List Exchange × σ)) : Prop where
  transcript : t.transcript = s.transcript ++ exchanges
  about : ∀ e ∈ exchanges, e.request.reference = reference
  attempts : exchanges.map (fun e ↦ e.request.attempt) = List.range' attempt exchanges.length
  length : exchanges.length ≤ left
  prompts : t.context.prompts = s.context.prompts + exchanges.length
  refusal : ∀ e ∈ exchanges.dropLast, e.answer ≠ .skipAll
  skipsAll : t.context.skipsAll ↔ s.context.skipsAll ∨ ∃ e ∈ exchanges, e.answer = .skipAll
  added : s.context.searchFolders <+: t.context.searchFolders
  folders : s.context.searchFolders.Pairwise (fun a b ↦ ¬a == b) →
    t.context.searchFolders.Pairwise (fun a b ↦ ¬a == b)

variable {reference : Reference} {attempt left : Nat} {exchanges : List Exchange}

theorem asks_nothing (reference : Reference) (attempt left : Nat)
    (s : Session (List Exchange × σ)) : Asks reference attempt left [] s s where
  transcript := (List.append_nil _).symm
  about := by simp
  attempts := rfl
  length := Nat.zero_le _
  prompts := rfl
  refusal := by simp
  skipsAll := by simp
  added := List.prefix_rfl
  folders := id

/-- One question, and then the others. -/
theorem Asks.cons {e : Exchange} (hanswer : e.answer ≠ .skipAll)
    (hfirst : Asks reference attempt (left + 1) [e] s t)
    (h : Asks reference (attempt + 1) left exchanges t u) :
    Asks reference attempt (left + 1) (e :: exchanges) s u where
  transcript := by rw [h.transcript, hfirst.transcript, List.append_assoc, List.singleton_append]
  about := by
    intro e' he'
    rcases List.mem_cons.1 he' with rfl | hrest
    · exact hfirst.about _ (List.mem_singleton_self _)
    · exact h.about _ hrest
  attempts := by
    have hattempt : e.request.attempt = attempt := by simpa using hfirst.attempts
    rw [List.map_cons, h.attempts, hattempt, List.length_cons, List.range'_succ]
  length := Nat.succ_le_succ h.length
  prompts := by
    rw [h.prompts, hfirst.prompts, List.length_singleton, List.length_cons]
    omega
  refusal := by
    intro e' he'
    cases exchanges with
    | nil => simp at he'
    | cons next rest =>
      rcases List.mem_cons.1 he' with rfl | hrest
      · exact hanswer
      · exact h.refusal _ hrest
  skipsAll := by
    rw [h.skipsAll, hfirst.skipsAll]
    simp [hanswer]
  added := hfirst.added.trans h.added
  folders hs := h.folders (hfirst.folders hs)

theorem Asks.addFolder (h : Asks reference attempt left exchanges s t) (folder : Path) :
    Asks reference attempt left exchanges s { t with context := t.context.addFolder folder } := by
  have hfolders := fun ht ↦ Context.pairwise_addFolder (c := t.context) ht folder
  unfold Context.addFolder at hfolders ⊢
  split
  · exact h
  · rename_i hnew
    rw [if_neg hnew] at hfolders
    exact { h with
      added := h.added.trans (List.prefix_append _ _)
      folders := fun hs ↦ hfolders (h.folders hs) }

theorem Orderly.addFolder {limit : Nat} (hs : s.Orderly limit) (folder : Path) :
    Orderly limit { s with context := s.context.addFolder folder } := by
  have hfolders := Context.pairwise_addFolder hs.folders folder
  unfold Context.addFolder at hfolders ⊢
  split
  · exact hs
  · rename_i hnew
    rw [if_neg hnew] at hfolders
    exact { hs with folders := hfolders }

/-- Before the first question nothing was asked, added or decided but the folders of the run. -/
theorem orderly_start (limit : Nat) (folders : List Path) (operator : σ) :
    Orderly limit ⟨.start folders, [], operator⟩ := by
  have hfold (c : Context) (hc : Orderly limit ⟨c, [], operator⟩) :
      Orderly limit ⟨folders.foldl Context.addFolder c, [], operator⟩ := by
    induction folders generalizing c with
    | nil => exact hc
    | cons folder rest ih => exact ih _ (hc.addFolder folder)
  refine hfold _ ⟨⟨[], rfl, .nil, by simp⟩, rfl, ?_, ?_, ?_, .nil⟩ <;> simp [transcript]

section

variable {limit : Nat} (hs : s.Orderly limit) (hnew : s.context.decision? reference = none)

include hs hnew

/-- A reference that was not decided on was not asked about. -/
theorem Orderly.not_asked {interviews : List (Reference × List Exchange)}
    (hinterviews : s.transcript = interviews.flatMap Prod.snd)
    (hall : ∀ interview ∈ interviews, Interview limit interview.1 interview.2) :
    reference ∉ interviews.map Prod.fst := by
  intro hmem
  obtain ⟨interview, hinterview, rfl⟩ := List.mem_map.1 hmem
  obtain ⟨e, he⟩ := List.exists_mem_of_ne_nil _ (hall interview hinterview).asked
  have hdecided := hs.decided e (hinterviews ▸ List.mem_flatMap.2 ⟨interview, hinterview, he⟩)
  rw [(hall interview hinterview).about e he, hnew] at hdecided
  cases hdecided

/-- An interview about another reference is put at the end. -/
theorem Orderly.interviews_append (h : Asks reference 1 left exchanges s t) (hlimit : left ≤ limit) :
    ∃ interviews : List (Reference × List Exchange),
      t.transcript = interviews.flatMap Prod.snd ∧ (interviews.map Prod.fst).Nodup ∧
        ∀ interview ∈ interviews, Interview limit interview.1 interview.2 := by
  obtain ⟨interviews, hinterviews, hnodup, hall⟩ := hs.interviews
  have htranscript := h.transcript
  by_cases hasked : exchanges = []
  · rw [hasked, List.append_nil] at htranscript
    exact ⟨interviews, htranscript.trans hinterviews, hnodup, hall⟩
  · refine ⟨interviews ++ [(reference, exchanges)], ?_, ?_, fun interview hinterview ↦ ?_⟩
    · simp [htranscript, hinterviews]
    · rw [List.map_append, List.map_singleton, ← List.concat_eq_append]
      exact hnodup.concat (hs.not_asked hnew hinterviews hall)
    · rcases List.mem_append.1 hinterview with hold | hlast
      · exact hall interview hold
      · rw [List.mem_singleton.1 hlast]
        exact ⟨hasked, h.about, h.attempts, Nat.le_trans h.length hlimit⟩

omit hs hnew in
theorem decision?_decide (hrecords : t.context.decisions = s.context.decisions)
    (reference other : Reference) (decision : Decision) :
    (t.context.decide reference decision).decision? other =
      if reference = other then some decision else s.context.decision? other := by
  rw [Context.decision?_decide, Context.decision?, hrecords, Context.decision?]

/-- The decision that an interview leads to is recorded with it. -/
theorem Asks.orderly_decide (h : Asks reference 1 left exchanges s t) (hlimit : left ≤ limit)
    (hskips : s.context.skipsAll = false) (hrecords : t.context.decisions = s.context.decisions)
    (decision : Decision) :
    Orderly limit { t with context := t.context.decide reference decision } := by
  have hinterviews := hs.interviews_append hnew h hlimit
  have hrefused : ∀ e ∈ s.transcript, e.answer ≠ .skipAll := by
    intro e he hanswer
    rw [hs.skipsAll.2 ⟨e, he, hanswer⟩] at hskips
    cases hskips
  refine ⟨hinterviews, ?_, fun e he ↦ ?_, fun e he ↦ ?_, ?_, h.folders hs.folders⟩
  · calc t.context.prompts
        = s.transcript.length + exchanges.length := by rw [h.prompts, hs.prompts]
      _ = t.transcript.length := by rw [h.transcript, List.length_append]
  · rw [decision?_decide hrecords]
    split
    · rfl
    · rename_i hne
      have hold := (List.mem_append.1 (h.transcript ▸ he)).resolve_right
        fun hlast ↦ hne (h.about e hlast).symm
      exact hs.decided e hold
  · replace he : e ∈ (s.transcript ++ exchanges).dropLast := h.transcript ▸ he
    rw [List.dropLast_append] at he
    split at he
    · exact hs.refusal e he
    · exact (List.mem_append.1 he).elim (hrefused e) (h.refusal e)
  · calc t.context.skipsAll
        ↔ (∃ e ∈ s.transcript, e.answer = .skipAll) ∨ ∃ e ∈ exchanges, e.answer = .skipAll := by
          rw [h.skipsAll, hs.skipsAll]
      _ ↔ ∃ e ∈ t.transcript, e.answer = .skipAll := by
          simp only [h.transcript, List.mem_append, or_and_right, exists_or]

omit hs in
theorem Asks.precedes_decide (h : Asks reference 1 left exchanges s t)
    (hrecords : t.context.decisions = s.context.decisions) (decision : Decision) :
    s.Precedes { t with context := t.context.decide reference decision } := by
  refine ⟨⟨exchanges, h.transcript.symm⟩, h.added, fun other earlier hearlier ↦ ?_⟩
  rw [decision?_decide hrecords, if_neg, hearlier]
  rintro rfl
  rw [hnew] at hearlier
  cases hearlier

end

end Session

namespace Resolver

variable (r : Resolver σ)

open Session

section

variable (reference : Reference) (document : Path) (attempt left : Nat)
  (s : Session (List Exchange × σ))

/-- One question, if not all of them are refused. -/
theorem asks_question (hanswer : (r.transcribed.question reference document attempt s).1 ≠ .skipAll) :
    Asks reference attempt (left + 1)
      [⟨⟨reference, document, s.context.searchFolders, attempt⟩,
        (r.transcribed.question reference document attempt s).1⟩]
      s (r.transcribed.question reference document attempt s).2 where
  transcript := rfl
  about := by simp
  attempts := rfl
  length := Nat.le_add_left 1 left
  prompts := rfl
  refusal := by simp
  skipsAll := (or_iff_left (by simpa using hanswer)).symm
  added := List.prefix_rfl
  folders := id

/-- One question, if all of them are refused. -/
theorem asks_refusal (hanswer : (r.transcribed.question reference document attempt s).1 = .skipAll) :
    Asks reference attempt (left + 1)
      [⟨⟨reference, document, s.context.searchFolders, attempt⟩, .skipAll⟩]
      s { (r.transcribed.question reference document attempt s).2 with
          context.skipsAll := true } where
  transcript := by rw [← hanswer]; rfl
  about := by simp
  attempts := rfl
  length := Nat.le_add_left 1 left
  prompts := rfl
  refusal := by simp
  skipsAll := by simp
  added := List.prefix_rfl
  folders := id

/-- However it ends, an interview asks about its reference only, and goes on until all is refused at
most. -/
theorem exists_asks : ∃ exchanges, Asks reference attempt left exchanges s
    (r.transcribed.ask reference document left attempt s).2 := by
  induction left generalizing attempt s with
  | zero => exact ⟨[], asks_nothing _ _ _ _⟩
  | succ left ih =>
    have hquestion := r.asks_question reference document attempt left s
    have hrefusal := r.asks_refusal reference document attempt left s
    unfold ask
    cases hasked : r.transcribed.question reference document attempt s with
    | mk answer s' =>
      rw [hasked] at hquestion hrefusal
      cases answer with
      | file path =>
        have hfirst := hquestion Answer.noConfusion
        dsimp only
        split
        · exact ⟨_, hfirst⟩
        · obtain ⟨rest, hrest⟩ := ih (attempt + 1) s'
          exact ⟨_, hfirst.cons Answer.noConfusion hrest⟩
      | folder path =>
        have hfirst := hquestion Answer.noConfusion
        dsimp only
        split
        · split
          · exact ⟨_, hfirst.addFolder path⟩
          · obtain ⟨rest, hrest⟩ :=
              ih (attempt + 1) { s' with context := s'.context.addFolder path }
            exact ⟨_, (hfirst.addFolder path).cons Answer.noConfusion hrest⟩
        · obtain ⟨rest, hrest⟩ := ih (attempt + 1) s'
          exact ⟨_, hfirst.cons Answer.noConfusion hrest⟩
      | skip => exact ⟨_, hquestion Answer.noConfusion⟩
      | skipAll => exact ⟨_, hrefusal rfl⟩
      | decline => exact ⟨_, hquestion Answer.noConfusion⟩

end

/-- A look-up keeps the transcript orderly, and loses nothing. -/
theorem orderly_lookup {limit : Nat} (hlimit : r.options.maxAttempts ≤ limit)
    (reference : Reference) (document : Path) {s : Session (List Exchange × σ)}
    (hs : s.Orderly limit) :
    (r.transcribed.lookup reference document s).2.Orderly limit ∧
      s.Precedes (r.transcribed.lookup reference document s).2 := by
  unfold lookup
  split
  · exact ⟨hs, .refl s⟩
  · split
    · exact ⟨hs, .refl s⟩
    · rename_i hdecision
      split
      · exact ⟨hs, .refl s⟩
      · rename_i hasks
        have hrecords :=
          r.transcribed.ask_sameRecords reference document r.options.maxAttempts 1 s
        obtain ⟨exchanges, hasked⟩ := r.exists_asks reference document 1 r.options.maxAttempts s
        have hskips : s.context.skipsAll = false := by simp_all
        exact ⟨hasked.orderly_decide hs hdecision hlimit hskips hrecords.decisions _,
          hasked.precedes_decide hdecision hrecords.decisions _⟩

/-- Once all questions have been refused, nobody is asked; what was decided before stands. -/
theorem lookup_of_refusal {limit : Nat} {reference : Reference} {document : Path}
    {s : Session (List Exchange × σ)} (hs : s.Orderly limit)
    (hrefusal : ∃ e ∈ s.transcript, e.answer = .skipAll)
    (hsearch : r.search? reference document s.context.searchFolders = none) :
    r.transcribed.lookup reference document s =
      ((s.context.decision? reference).getD (.unresolved .missing), s) := by
  have hskips : s.context.skipsAll := hs.skipsAll.2 hrefusal
  unfold lookup
  cases hdecision : s.context.decision? reference <;> simp [hsearch, hskips]

variable {r}

theorem orderly_move {limit : Nat} (hlimit : r.options.maxAttempts ≤ limit)
    {s : Session (List Exchange × σ)} {p q : Progress (List Exchange × σ)}
    (h : r.transcribed.Move p q) (hp : p.session.Orderly limit ∧ s.Precedes p.session) :
    q.session.Orderly limit ∧ s.Precedes q.session := by
  let kept (t : Session (List Exchange × σ)) : Prop := t.Orderly limit ∧ s.Precedes t
  have hlookup (reference : Reference) (document : Path) (t : Session (List Exchange × σ))
      (ht : kept t) : kept (r.transcribed.lookup reference document t).2 := by
    obtain ⟨horderly, hprecedes⟩ := r.orderly_lookup hlimit reference document ht.1
    exact ⟨horderly, ht.2.trans hprecedes⟩
  have hopening (t : Session (List Exchange × σ)) (path : Path) (ht : kept t) :
      kept (t.opening path) := ⟨{ ht.1 with }, { ht.2 with }⟩
  have hremember (t : Session (List Exchange × σ)) (path : Path) (e : Expansion) (ht : kept t) :
      kept (t.remember path e) := ⟨{ ht.1 with }, { ht.2 with }⟩
  exact session_move hlookup hopening hremember h hp

/-- The sessions in which documents have been resolved one after the other, with a transcript from
the beginning. -/
inductive Interviewed (limit : Nat) (folders : List Path) : Session (List Exchange × σ) → Prop
  | start (operator : σ) : Interviewed limit folders ⟨.start folders, [], operator⟩
  | resolve {s} (h : Interviewed limit folders s) (r : Resolver σ)
      (hlimit : r.options.maxAttempts ≤ limit) (d : Document) :
      Interviewed limit folders (r.transcribed.resolve d s).2

variable {limit : Nat} {folders : List Path}

/-- Every history can be had with a transcript. -/
theorem History.exists_interviewed {earlier : List Document} {s : Session σ}
    (h : History (fun r ↦ r.options.maxAttempts ≤ limit) folders earlier s) :
    ∃ t : Session (List Exchange × σ), Interviewed limit folders t ∧ t.bare = s := by
  induction h with
  | start operator => exact ⟨_, .start operator, rfl⟩
  | @resolve _ s r h hlimit d ih =>
    obtain ⟨t, ht, rfl⟩ := ih
    exact ⟨_, .resolve ht r hlimit d, (r.resolve_transcribed d t).2⟩

theorem Interviewed.orderly {s : Session (List Exchange × σ)} (h : Interviewed limit folders s) :
    s.Orderly limit := by
  induction h with
  | start operator => exact Session.orderly_start limit folders operator
  | @resolve s h r hlimit d ih =>
    have hstart : (r.transcribed.begin d s).session.Orderly limit ∧ s.Precedes s := ⟨ih, .refl s⟩
    exact (run_keeps (r := r.transcribed) (fun _ _ ↦ orderly_move hlimit) hstart).1

/-- At every step of every run, the operator has been asked orderly, nothing that was asked, added
or decided is lost later, and after the refusal of all questions nobody is asked again: a reference
whose file is not found is missing, unless it was decided on before. The run goes as it does without
the transcript. -/
theorem interviews_advance {s : Session (List Exchange × σ)} (hs : Interviewed limit folders s)
    (hlimit : r.options.maxAttempts ≤ limit) (d : Document) (count more : Nat) :
    let p := r.transcribed.advance count (r.transcribed.begin d s)
    let q := r.transcribed.advance more p
    p.bare = r.advance count (r.begin d s.bare) ∧
      p.session.Orderly limit ∧ s.Precedes p.session ∧ p.session.Precedes q.session ∧
      ∀ reference document, (∃ e ∈ p.session.transcript, e.answer = .skipAll) →
        r.search? reference document p.session.context.searchFolders = none →
        r.transcribed.lookup reference document p.session =
          ((p.session.context.decision? reference).getD (.unresolved .missing), p.session) := by
  intro p q
  have hp : p.session.Orderly limit ∧ s.Precedes p.session :=
    advance_keeps (fun _ _ ↦ orderly_move hlimit) count ⟨hs.orderly, .refl s⟩
  have hq : q.session.Orderly limit ∧ p.session.Precedes q.session :=
    advance_keeps (fun _ _ ↦ orderly_move hlimit) more ⟨hp.1, .refl p.session⟩
  exact ⟨r.advance_transcribed count _, hp.1, hp.2, hq.2,
    fun reference document ↦ r.lookup_of_refusal hp.1⟩

/-! ## An operator who refuses at last -/

/-- The operator gives a folder for `X` in which it is not, skips it, and refuses all questions when
asked about `Y`. -/
def curtResolver : Resolver (List (Option Answer)) where
  files := pairFiles
  load path := .error (.unsupported path)
  options := ⟨.everywhere, 3⟩
  operator := .ofPrompt Operator.script

/-- The session before the first question. -/
def curtSession : Session (List Exchange × List (Option Answer)) :=
  ⟨.start [], [], [some (.folder ⟨"/"⟩), some .skip, some .skipAll]⟩

/-- A document that calls `X`, `Y`, `X` again and `Z`. -/
def curtCaller : Document where
  name := "D"
  path := ⟨"/D.yxmd"⟩
  description := none
  nodes := [.call "1" (.named "X"), .call "2" (.named "Y"), .call "3" (.named "X"),
    .call "4" (.named "Z")]
  connections := []

/-- The run before it comes to `Z`. -/
def curtProgress : Progress (List Exchange × List (Option Answer)) :=
  curtResolver.transcribed.advance 3 (curtResolver.transcribed.begin curtCaller curtSession)

theorem interviews_advance_curt :
    Interviewed 3 [] curtSession ∧ curtResolver.options.maxAttempts ≤ 3 ∧
      (curtProgress.bare = curtResolver.advance 3 (curtResolver.begin curtCaller curtSession.bare) ∧
        curtProgress.session.Orderly 3 ∧ curtSession.Precedes curtProgress.session ∧
        curtProgress.session.Precedes
          (curtResolver.transcribed.advance 1 curtProgress).session ∧
        ∀ reference document, (∃ e ∈ curtProgress.session.transcript, e.answer = .skipAll) →
          curtResolver.search? reference document curtProgress.session.context.searchFolders =
            none →
          curtResolver.transcribed.lookup reference document curtProgress.session =
            ((curtProgress.session.context.decision? reference).getD (.unresolved .missing),
              curtProgress.session)) ∧
      (curtResolver.transcribed.advance 1 curtProgress).session.transcript.map
        (fun e ↦ (e.request.reference.name, e.request.attempt)) = [("X", 1), ("X", 2), ("Y", 1)] ∧
      (curtResolver.transcribed.advance 1 curtProgress).current.outcome.document.nodes.map Node.gap =
        [some .skipped, some .skipped, some .skipped, some .missing] :=
  ⟨.start _, Nat.le_refl 3, interviews_advance (.start _) (Nat.le_refl 3) curtCaller 3 1,
    by decide +kernel, by decide +kernel⟩

end Resolver

end Provenance
