import Mathlib.Data.List.Basic
import Provenance.Expansion.Lookup

/-!
# What the answers of an operator come to

The questions about a macro can be read off the answers alone (`Reading`): the first answer that
ends them decides (`Ends`), and the macro is skipped if none of the allowed number does. Folders
that exist are kept whether or not they help, and count for all later answers (`foldersBefore`). A
session follows this reading, changes nothing else in the memory than folders, the number of
questions and the refusal of all others, and a look-up records the decision (`ask_eq_reading`).
-/

namespace Provenance

/-- An answer refuses all questions that are left. -/
def Answer.refusesAll : Answer → Bool
  | skipAll => true
  | _ => false

namespace Operator

/-- The operator who gives some answers in turn, whatever is asked. -/
def inTurn (answers : ℕ → Answer) : Operator ℕ where
  isInteractive := true
  answer _ count := (answers count, count + 1)

end Operator

namespace Resolver

variable {σ : Type} (r : Resolver σ) (reference : Reference) (document : Path)

/-! ## Reading the answers -/

/-- The search folders after an answer. A folder that exists comes last unless it is there. -/
def foldersAfter (folders : List Path) : Answer → List Path
  | .folder path =>
    if r.files.isFolder path && !folders.any (· == path) then folders ++ [path] else folders
  | _ => folders

/-- The search folders before an answer with a given number. -/
def foldersBefore (folders : List Path) (answers : ℕ → Answer) : ℕ → List Path
  | 0 => folders
  | n + 1 => r.foldersAfter (foldersBefore folders answers n) (answers n)

/-- An answer ends the questions with a decision, given the search folders after it. -/
inductive Ends (folders : List Path) : Answer → Decision → Prop where
  | file {path : Path} (h : r.files.isFile path) :
      Ends folders (.file path) (.located (r.files.canonical path))
  | folder {path found : Path} (h : r.files.isFolder path)
      (hfound : r.search? reference document folders = some found) :
      Ends folders (.folder path) (.located (r.files.canonical found))
  | skip : Ends folders .skip (.unresolved .skipped)
  | skipAll : Ends folders .skipAll (.unresolved .skipped)
  | decline : Ends folders .decline (.unresolved .missing)

/-- How many answers are taken, and the decision that they lead to. -/
inductive Reading (limit : ℕ) (folders : List Path) (answers : ℕ → Answer) :
    ℕ → Decision → Prop where
  | ends {n : ℕ} {decision : Decision} (hn : n < limit)
      (hbefore : ∀ k < n, ∀ d,
        ¬r.Ends reference document (r.foldersBefore folders answers (k + 1)) (answers k) d)
      (h : r.Ends reference document (r.foldersBefore folders answers (n + 1)) (answers n)
        decision) :
      Reading limit folders answers (n + 1) decision
  | runsOut
      (hnone : ∀ k < limit, ∀ d,
        ¬r.Ends reference document (r.foldersBefore folders answers (k + 1)) (answers k) d) :
      Reading limit folders answers limit (.unresolved .skipped)

variable {r} {reference} {document}

theorem Ends.unique {folders : List Path} {answer : Answer} {d d' : Decision}
    (h : r.Ends reference document folders answer d)
    (h' : r.Ends reference document folders answer d') : d = d' := by
  cases h with
  | folder _ hfound =>
    cases h' with
    | folder _ hfound' =>
      rw [hfound] at hfound'
      cases hfound'
      rfl
  | file _ | skip | skipAll | decline =>
    cases h'
    rfl

/-- The first answer that ends the questions is the only one that counts. -/
theorem Reading.unique {limit n n' : ℕ} {folders : List Path} {answers : ℕ → Answer}
    {d d' : Decision}
    (h : r.Reading reference document limit folders answers n d)
    (h' : r.Reading reference document limit folders answers n' d') : n = n' ∧ d = d' := by
  cases h with
  | @ends k _ hk hbefore h =>
    cases h' with
    | @ends k' _ hk' hbefore' h' =>
      obtain hlt | rfl | hlt := Nat.lt_trichotomy k k'
      · exact absurd h (hbefore' k hlt d)
      · exact ⟨rfl, h.unique h'⟩
      · exact absurd h' (hbefore k' hlt d')
    | runsOut hnone => exact absurd h (hnone k hk d)
  | runsOut hnone =>
    cases h' with
    | @ends k' _ hk' _ h' => exact absurd h' (hnone k' hk' d')
    | runsOut => exact ⟨rfl, rfl⟩

/-! ## One answer -/

variable (r) in
/-- The memory after an answer. -/
def heard (c : Context) (answer : Answer) : Context :=
  { c with
    searchFolders := r.foldersAfter c.searchFolders answer
    skipsAll := c.skipsAll || answer.refusesAll
    prompts := c.prompts + 1 }

theorem addFolder_eq {c : Context} {path : Path} (h : r.files.isFolder path) :
    c.addFolder path =
      { c with searchFolders := r.foldersAfter c.searchFolders (.folder path) } := by
  unfold Context.addFolder foldersAfter
  by_cases hmem : c.searchFolders.any (· == path) <;> simp [h, hmem]

theorem foldersAfter_of_not_isFolder {folders : List Path} {path : Path}
    (h : ¬r.files.isFolder path) : r.foldersAfter folders (.folder path) = folders := by
  simp [foldersAfter, h]

section

variable {s : Session σ} {attempt left : ℕ} {answer : Answer} {operator : σ}
  (hanswer : r.operator.answer ⟨reference, document, s.context.searchFolders, attempt⟩ s.operator =
    (answer, operator))

include hanswer

theorem question_eq : r.question reference document attempt s =
    (answer, ⟨{ s.context with prompts := s.context.prompts + 1 }, operator⟩) := by
  rw [question, hanswer]

/-- An answer that ends the questions decides. -/
theorem ask_of_ends {decision : Decision}
    (h : r.Ends reference document (r.foldersAfter s.context.searchFolders answer) answer
      decision) :
    r.ask reference document (left + 1) attempt s =
      (decision, ⟨r.heard s.context answer, operator⟩) := by
  rw [ask, question_eq hanswer]
  cases h with
  | file hfile => simp [hfile, heard, foldersAfter, Answer.refusesAll]
  | folder hfolder hfound =>
    simp [hfolder, addFolder_eq hfolder, hfound, heard, Answer.refusesAll]
  | skip => simp [heard, foldersAfter, Answer.refusesAll]
  | skipAll => simp [heard, foldersAfter, Answer.refusesAll]
  | decline => simp [heard, foldersAfter, Answer.refusesAll]

/-- After an answer that does not end the questions, they go on. -/
theorem ask_of_not_ends
    (h : ∀ d, ¬r.Ends reference document (r.foldersAfter s.context.searchFolders answer) answer d) :
    r.ask reference document (left + 1) attempt s =
      r.ask reference document left (attempt + 1) ⟨r.heard s.context answer, operator⟩ := by
  rw [ask, question_eq hanswer]
  cases answer with
  | file path =>
    have hfile : ¬r.files.isFile path := fun hfile ↦ h _ (.file hfile)
    simp [hfile, heard, foldersAfter, Answer.refusesAll]
  | folder path =>
    by_cases hfolder : r.files.isFolder path
    · have hfound : r.search? reference document
          (r.foldersAfter s.context.searchFolders (.folder path)) = none :=
        Option.eq_none_iff_forall_ne_some.2 fun found hfound ↦ h _ (.folder hfolder hfound)
      simp [hfolder, addFolder_eq hfolder, hfound, heard, Answer.refusesAll]
    · simp [hfolder, foldersAfter_of_not_isFolder hfolder, heard, Answer.refusesAll]
  | skip => exact absurd .skip (h _)
  | skipAll => exact absurd .skipAll (h _)
  | decline => exact absurd .decline (h _)

end

/-! ## All answers -/

/-- The memory before an answer with a given number. -/
def contextBefore (r : Resolver σ) (c : Context) (answers : ℕ → Answer) : ℕ → Context
  | 0 => c
  | n + 1 => r.heard (contextBefore r c answers n) (answers n)

theorem contextBefore_eq (c : Context) (answers : ℕ → Answer) (n : ℕ) :
    r.contextBefore c answers n =
      { c with
        searchFolders := r.foldersBefore c.searchFolders answers n
        skipsAll := c.skipsAll || (List.range n).any (fun k ↦ (answers k).refusesAll)
        prompts := c.prompts + n } := by
  induction n with
  | zero => simp [contextBefore, foldersBefore]
  | succ n ih =>
    rw [contextBefore, ih, heard]
    simp [foldersBefore, List.range_succ, Bool.or_assoc, Nat.add_assoc]

variable {answers : ℕ → Answer} {states : ℕ → σ} {c : Context}

/-- The questions that are left lead to what the reading of all answers says. -/
theorem exists_reading_ask
    (hanswers : ∀ k, r.operator.answer
      ⟨reference, document, r.foldersBefore c.searchFolders answers k, k + 1⟩ (states k) =
        (answers k, states (k + 1)))
    (left n : ℕ)
    (hbefore : ∀ k < n, ∀ d,
      ¬r.Ends reference document (r.foldersBefore c.searchFolders answers (k + 1)) (answers k) d) :
    ∃ taken decision,
      r.Reading reference document (n + left) c.searchFolders answers taken decision ∧
        r.ask reference document left (n + 1) ⟨r.contextBefore c answers n, states n⟩ =
          (decision, ⟨r.contextBefore c answers taken, states taken⟩) := by
  induction left generalizing n with
  | zero => exact ⟨n, _, .runsOut hbefore, rfl⟩
  | succ left ih =>
    have hfolders : (r.contextBefore c answers n).searchFolders =
        r.foldersBefore c.searchFolders answers n := by rw [contextBefore_eq]
    have hanswer := hanswers n
    rw [← hfolders] at hanswer
    by_cases hends : ∃ d, r.Ends reference document
        (r.foldersBefore c.searchFolders answers (n + 1)) (answers n) d
    · obtain ⟨decision, hends⟩ := hends
      refine ⟨n + 1, decision, .ends (by omega) hbefore hends, ?_⟩
      rw [foldersBefore, ← hfolders] at hends
      exact ask_of_ends hanswer hends
    · have hnone : ∀ d, ¬r.Ends reference document
          (r.foldersBefore c.searchFolders answers (n + 1)) (answers n) d := fun d h ↦ hends ⟨d, h⟩
      obtain ⟨taken, decision, hreading, hask⟩ := ih (n + 1) fun k hk d ↦ by
        rcases Nat.lt_succ_iff_lt_or_eq.1 hk with hlt | rfl
        · exact hbefore k hlt d
        · exact hnone d
      refine ⟨taken, decision, by rwa [Nat.add_assoc, Nat.add_comm 1] at hreading, ?_⟩
      rw [foldersBefore, ← hfolders] at hnone
      rw [ask_of_not_ends hanswer hnone]
      exact hask

/-- The questions about a macro lead to the one decision that is read off the answers. Every answer
that is taken counts as one question, folders that exist are added, and a refusal of all questions
is noted; nothing else changes in the memory. A look-up that asks records the decision besides, and
leaves those about other macros as they are. -/
theorem ask_eq_reading {s : Session σ} (hstart : s.operator = states 0)
    (hanswers : ∀ k, r.operator.answer
      ⟨reference, document, r.foldersBefore s.context.searchFolders answers k, k + 1⟩ (states k) =
        (answers k, states (k + 1))) :
    ∃ taken decision context,
      (∀ n d,
        r.Reading reference document r.options.maxAttempts s.context.searchFolders answers n d ↔
          n = taken ∧ d = decision) ∧
        context = { s.context with
          searchFolders := r.foldersBefore s.context.searchFolders answers taken
          skipsAll := s.context.skipsAll || (List.range taken).any (fun k ↦ (answers k).refusesAll)
          prompts := s.context.prompts + taken } ∧
        r.ask reference document r.options.maxAttempts 1 s = (decision, ⟨context, states taken⟩) ∧
        (r.search? reference document s.context.searchFolders = none →
          s.context.decision? reference = none → s.context.skipsAll = false →
          r.operator.isInteractive →
            ∃ recorded, r.lookup reference document s = (decision, ⟨recorded, states taken⟩) ∧
              recorded.decision? reference = some decision ∧
              (∀ other, other ≠ reference →
                recorded.decision? other = s.context.decision? other) ∧
              { recorded with decisions := s.context.decisions } = context) := by
  obtain ⟨taken, decision, hreading, hask⟩ :=
    exists_reading_ask hanswers r.options.maxAttempts 0 (by simp)
  rw [Nat.zero_add] at hreading
  rw [contextBefore, ← hstart] at hask
  have hunique (n : ℕ) (d : Decision) :
      r.Reading reference document r.options.maxAttempts s.context.searchFolders answers n d ↔
        n = taken ∧ d = decision := by
    constructor
    · exact fun h ↦ h.unique hreading
    · rintro ⟨rfl, rfl⟩
      exact hreading
  have hcontext := contextBefore_eq (r := r) s.context answers taken
  refine ⟨taken, decision, _, hunique, hcontext, hask,
    fun hsearch hdecision hskips hinteractive ↦
      ⟨(r.contextBefore s.context answers taken).decide reference decision, ?_, ?_, ?_, ?_⟩⟩
  · have hasks : r.ask reference document r.options.maxAttempts 1 s =
        (decision, ⟨r.contextBefore s.context answers taken, states taken⟩) := hask
    simp [lookup, hsearch, hdecision, hskips, hinteractive, hasks]
  · rw [Context.decision?_decide, if_pos rfl]
  · intro other hother
    rw [Context.decision?_decide, if_neg hother.symm, hcontext]
    rfl
  · rw [hcontext]
    rfl

/-! ## A folder that is given at the last question -/

/-- A folder without files, and a macro in another one. -/
def shelfFiles : FileSystem :=
  ((FileSystem.empty []).put ["docs"] (.folder []) Entry.ordered_folder_nil).put
    ["lib", "X.yxmc"] (.file ⟨#[]⟩) trivial

/-- A file that does not exist, a folder that does not help, and the folder of the macro, which is
written in a roundabout way. -/
def shelfAnswers (n : ℕ) : Answer :=
  [.file ⟨"/X.yxmc"⟩, .folder ⟨"/docs"⟩, .folder ⟨"lib/."⟩].getD n .decline

/-- An operator may be asked three times. -/
def shelfResolver : Resolver ℕ where
  files := shelfFiles
  load path := .error (.unsupported path)
  options := ⟨.everywhere, 3⟩
  operator := .inTurn shelfAnswers

/-- The session before the first question about `X`. The operator has been asked about `Y`. -/
def shelfSession : Session ℕ :=
  ⟨{ Context.start [] with decisions := [(.named "Y", .unresolved .missing)] }, 0⟩

/-- All three answers are taken, the macro is found in the last folder, and this is recorded. -/
theorem ask_eq_reading_shelf :
    shelfSession.operator = id 0 ∧
      (∀ k, shelfResolver.operator.answer
        ⟨.named "X", ⟨"/D.yxmd"⟩,
          shelfResolver.foldersBefore shelfSession.context.searchFolders shelfAnswers k, k + 1⟩
            (id k) = (shelfAnswers k, id (k + 1))) ∧
      ∃ (taken : ℕ) (decision : Decision) (recorded : Context),
        shelfResolver.Reading (.named "X") ⟨"/D.yxmd"⟩ 3 shelfSession.context.searchFolders
            shelfAnswers taken decision ∧
          shelfResolver.lookup (.named "X") ⟨"/D.yxmd"⟩ shelfSession =
            (decision, ⟨recorded, taken⟩) ∧
          recorded.decision? (.named "X") = some decision ∧
          recorded.decision? (.named "Y") = some (.unresolved .missing) ∧
          taken = 3 ∧ decision.file?.map Path.text = some "/lib/X.yxmc" ∧
          recorded.decisions.map (fun entry ↦ (entry.1.name, entry.2.file?.map Path.text)) =
            [("X", some "/lib/X.yxmc"), ("Y", none)] ∧
          recorded.searchFolders.map Path.text = ["/docs", "lib/."] ∧ recorded.prompts = 3 := by
  have hstart : shelfSession.operator = id 0 := rfl
  have hanswers : ∀ k, shelfResolver.operator.answer
      ⟨.named "X", ⟨"/D.yxmd"⟩,
        shelfResolver.foldersBefore shelfSession.context.searchFolders shelfAnswers k, k + 1⟩
          (id k) = (shelfAnswers k, id (k + 1)) := fun _ ↦ rfl
  obtain ⟨taken, decision, context, hunique, -, -, hlookup⟩ := ask_eq_reading hstart hanswers
  have hreading := (hunique taken decision).2 ⟨rfl, rfl⟩
  have hsearch : (shelfResolver.search? (.named "X") ⟨"/D.yxmd"⟩
      shelfSession.context.searchFolders).isNone := by decide +kernel
  obtain ⟨recorded, hlooked, hsame, hothers, -⟩ :=
    hlookup (Option.isNone_iff_eq_none.1 hsearch) rfl rfl rfl
  have htaken := congrArg (fun result ↦ result.2.operator) hlooked
  have hdecision := congrArg (fun result ↦ result.1.file?.map Path.text) hlooked
  have hdecisions := congrArg (fun result ↦ result.2.context.decisions.map
    (fun entry ↦ (entry.1.name, entry.2.file?.map Path.text))) hlooked
  have hfolders := congrArg (fun result ↦ result.2.context.searchFolders.map Path.text) hlooked
  have hprompts := congrArg (fun result ↦ result.2.context.prompts) hlooked
  refine ⟨hstart, hanswers, taken, decision, recorded, hreading, hlooked, hsame,
    (hothers _ (by decide)).trans rfl, htaken.symm.trans ?_, hdecision.symm.trans ?_,
    hdecisions.symm.trans ?_, hfolders.symm.trans ?_, hprompts.symm.trans ?_⟩ <;>
    decide +kernel

end Resolver

end Provenance
