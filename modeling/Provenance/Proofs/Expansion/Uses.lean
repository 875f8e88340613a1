import Provenance.Proofs.Expansion.Memory

/-!
# Macros that were used

For each macro that is spliced in, its expansion is in the memory, with the anchors that the use
lists (`Context.Backs`). That goes for the uses inside remembered expansions too
(`Context.Consistent`), and since nothing remembered is replaced, it stays so
(`History.consistent`, `backs_resolve`).
-/

namespace Provenance

/-- The memory holds the macro of a use, with the anchors that the use lists. -/
def Context.Backs (c : Context) (u : Use) : Prop :=
  ∃ d, c.expansion? u.path = some (.expanded d) ∧ d.document.anchorCount = ⟨u.inputs, u.outputs⟩

/-- Expansions are remembered under their own paths, and the macros used in them are known. -/
def Context.Consistent (c : Context) : Prop :=
  ∀ path d, c.expansion? path = some (.expanded d) → path == d.path ∧ ∀ u ∈ d.uses, c.Backs u

namespace Context

variable {c c' : Context}

theorem Backs.mono {u : Use} (h : c.Extends c') (hu : c.Backs u) : c'.Backs u :=
  hu.imp fun d hd ↦ ⟨h u.path (.expanded d) hd.1, hd.2⟩

theorem consistent_start (folders : List Path) : (start folders).Consistent := by
  intro path d hknown
  simp [expansion?, (sameRecords_start folders).expansions] at hknown

theorem Consistent.of_expansion?_eq (h : c.Consistent)
    (heq : ∀ path, c'.expansion? path = c.expansion? path) : c'.Consistent := by
  intro path d hknown
  rw [heq] at hknown
  exact (h path d hknown).imp_right fun huses u hu ↦
    (huses u hu).mono (extends_of_expansion?_eq heq)

/-- What is remembered for the first time has to name its own path and known macros. -/
theorem Consistent.remember (h : c.Consistent) {path : Path} (hnew : c.expansion? path = none)
    {e : Expansion}
    (he : ∀ d, e = .expanded d → path == d.path ∧ ∀ u ∈ d.uses, c.Backs u) :
    (c.remember path e).Consistent := by
  have hextends := extends_remember hnew e
  intro file d hknown
  rw [expansion?_remember] at hknown
  split at hknown
  · rename_i heq
    obtain ⟨hpath, huses⟩ := he d (Option.some.inj hknown)
    exact ⟨BEq.trans (BEq.symm heq) hpath, fun u hu ↦ (huses u hu).mono hextends⟩
  · exact (h file d hknown).imp_right fun huses u hu ↦ (huses u hu).mono hextends

end Context

/-- The memory holds the macros that were used in an outcome. -/
def Outcome.Backed (c : Context) (o : Outcome) : Prop :=
  ∀ u ∈ o.uses, c.Backs u

namespace Outcome.Backed

variable {c c' : Context} {o : Outcome}

theorem mono (h : c.Extends c') (ho : o.Backed c) : o.Backed c' :=
  fun u hu ↦ (ho u hu).mono h

theorem expand (ho : o.Backed c) (id : String) (reference : Reference) {d : Definition}
    (hknown : c.expansion? d.path = some (.expanded d)) (hd : ∀ u ∈ d.uses, c.Backs u) :
    (o.expand id reference d).Backed c := by
  unfold Outcome.expand
  split
  · exact ho
  · intro u hu
    rcases List.mem_append.1 hu with hu | hu
    · exact ho u hu
    · rcases List.mem_cons.1 hu with rfl | hu
      · exact ⟨d, hknown, rfl⟩
      · exact hd u hu

theorem apply (ho : o.Backed c) (hc : c.Consistent) (id : String) (reference : Reference)
    {path : Path} {e : Expansion} (hknown : c.expansion? path = some e) :
    (o.apply id reference e).Backed c := by
  cases e with
  | failed gap => exact ho
  | expanded d =>
    obtain ⟨hpath, huses⟩ := hc path d hknown
    rw [Context.expansion?_eq_of_beq hpath] at hknown
    exact ho.expand id reference hknown huses

end Outcome.Backed

namespace Resolver

variable {σ : Type} {r : Resolver σ}

/-- The memory is consistent and holds the macros that were used in all frames. -/
structure Backed (p : Progress σ) : Prop where
  untold : p.Untold
  consistent : p.session.context.Consistent
  current : p.current.outcome.Backed p.session.context
  callers : ∀ caller ∈ p.callers, caller.frame.outcome.Backed p.session.context

/-- A move within a frame keeps what the memory backs, if it does so in that frame. -/
theorem Backed.proceed {p : Progress σ} (hp : Backed p) {queue : List String} {o : Outcome}
    {s : Session σ} (huntold : (p.proceed queue o s).Untold)
    (hextends : p.session.context.Extends s.context) (hconsistent : s.context.Consistent)
    (ho : o.Backed s.context) : Backed (p.proceed queue o s) :=
  ⟨huntold, hconsistent, ho, fun caller hcaller ↦ (hp.callers caller hcaller).mono hextends⟩

theorem backed_move {p q : Progress σ} (h : r.Move p q) (hp : Backed p) : Backed q := by
  have huntold := untold_move h hp.untold
  have hextends := extends_move h hp.untold
  have hlooked {reference : Reference} {document : Path} {decision : Decision} {s : Session σ}
      (hlookup : r.lookup reference document p.session = (decision, s)) : s.context.Consistent :=
    hp.consistent.of_expansion?_eq (expansion?_lookup hlookup)
  cases h with
  | @leave caller callers hqueue hcallers =>
    have hbelow := hp.callers
    rw [hcallers, List.forall_mem_cons] at hbelow
    let d := p.current.outcome.definition p.current.file
    have hknown : (p.leave caller callers).session.context.expansion? d.path =
        some (.expanded d) :=
      (p.expansion?_leave caller callers d.path).trans (if_pos BEq.rfl)
    refine ⟨huntold, ?_, ?_, fun caller' hcaller' ↦ (hbelow.2 caller' hcaller').mono hextends⟩
    · refine hp.consistent.remember (hp.untold.current hcallers) fun d hd ↦ ?_
      cases hd
      exact ⟨BEq.rfl, hp.current⟩
    · exact (hbelow.1.mono hextends).expand _ _ hknown (hp.current.mono hextends)
  | skip => exact hp.proceed huntold hextends hp.consistent hp.current
  | unresolved _ _ hlookup =>
    exact hp.proceed huntold hextends (hlooked hlookup) (hp.current.mono hextends)
  | cyclic _ _ hlookup =>
    exact hp.proceed huntold hextends (hlooked hlookup) (hp.current.mono hextends)
  | reuse _ _ hlookup _ hknown =>
    exact hp.proceed huntold hextends (hlooked hlookup)
      ((hp.current.mono hextends).apply (hlooked hlookup) _ _ hknown)
  | @fail id queue reference path s e _ _ hlookup _ hknown =>
    have hlater := hlooked hlookup
    have hopened : (s.opening path).context.Consistent := hlater
    exact hp.proceed huntold hextends (hopened.remember hknown fun _ ↦ nofun)
      (hp.current.mono hextends)
  | enter _ _ hlookup =>
    have hlater := hlooked hlookup
    refine ⟨huntold, hlater, fun _ ↦ nofun, List.forall_mem_cons.2 ⟨?_, ?_⟩⟩
    · exact hp.current.mono hextends
    · exact fun caller hcaller ↦ (hp.callers caller hcaller).mono hextends

/-- What a document uses is remembered when it has been resolved. -/
theorem backs_resolve (r : Resolver σ) (d : Document) {s : Session σ}
    (hs : s.context.Consistent) :
    (r.resolve d s).2.context.Consistent ∧
      (r.resolve d s).1.Backed (r.resolve d s).2.context := by
  have hstart : Backed (r.begin d s) :=
    ⟨Progress.untold_start _ _ _, hs, fun _ ↦ nofun, fun _ ↦ nofun⟩
  have hend := run_keeps (r := r) (fun _ _ ↦ backed_move) hstart
  exact ⟨hend.consistent, hend.current⟩

/-- The memory is consistent in every history. -/
theorem History.consistent {allowed : Resolver σ → Prop} {folders : List Path}
    {earlier : List Document} {s : Session σ} (h : History allowed folders earlier s) :
    s.context.Consistent := by
  induction h with
  | start => exact Context.consistent_start folders
  | resolve _ _ d ih => exact (backs_resolve _ d ih).1

end Resolver

end Provenance
