import Provenance.Json.Fields
import Provenance.Proofs.Json.RoundTrip

/-!
# Fields that were written

What records are made of is read back as it was written: numbers, lists of things that are read back
one by one, and things that may be absent. With numbers of at most 64 bits such values are readable,
too.
-/

namespace Provenance.Json

/-- A number fits 64 bits. -/
theorem word?_nat {n : Nat} (h : n ≤ maxWord) : word? (.nat n) = some n := by
  have hle : (n : Int) ≤ maxWord := by omega
  simp [word?, natUpTo?, nat, hle]

theorem list?_map {α : Type} {encode : α → Json} {decode : Json → Option α} {xs : List α}
    (h : ∀ x ∈ xs, decode (encode x) = some x) :
    list? decode (.array (xs.map encode)) = some xs := by
  change (xs.map encode).mapM decode = some xs
  induction xs with
  | nil => rfl
  | cons x rest ih =>
    obtain ⟨hx, hrest⟩ := List.forall_mem_cons.1 h
    simp [List.mapM_cons, hx, ih hrest]

theorem texts?_strings (texts : List String) : texts? (strings texts) = some texts :=
  list?_map fun _ _ ↦ rfl

theorem orNull?_eq_some {α : Type} {decode : Json → Option α} {value : Json} {x : α}
    (h : decode value = some x) (hnull : value ≠ null) :
    orNull? decode value = some (some x) := by
  unfold orNull?
  split
  · contradiction
  · rw [h, Option.map_some]

/-- What may be absent is `null` where there is nothing. -/
theorem orNull?_nullable {α : Type} {encode : α → Json} {decode : Json → Option α}
    (hdecode : ∀ value, decode (encode value) = some value)
    (hnull : ∀ value, encode value ≠ null) (x : Option α) :
    orNull? decode (nullable encode x) = some x := by
  cases x with
  | none => rfl
  | some value => exact orNull?_eq_some (hdecode value) (hnull value)

/-- What an optional field holds is the value of the field. -/
theorem field?_of_optional? {name : String} {record value : Json}
    (h : record.optional? some name = some (some value)) : record.field? name = some value := by
  unfold optional? at h
  split at h
  · cases h
  · rename_i field hfield
    unfold orNull? at h
    split at h
    · cases h
    · cases h
      exact hfield

theorem readable_nat {n depth : Nat} (h : n ≤ maxWord) : (Json.nat n).Readable depth := by
  change fitsWord n
  simp only [fitsWord, Bool.and_eq_true, decide_eq_true_eq]
  omega

theorem readableItems_map {α : Type} {encode : α → Json} {xs : List α} {depth : Nat}
    (h : ∀ x ∈ xs, (encode x).Readable depth) : ReadableItems depth (xs.map encode) := by
  refine readableItems_iff.2 fun item hitem ↦ ?_
  obtain ⟨x, hx, rfl⟩ := List.mem_map.1 hitem
  exact h x hx

theorem readable_strings (texts : List String) {depth : Nat} (hdepth : depth < maxDepth) :
    (strings texts).Readable depth :=
  ⟨hdepth, readableItems_map fun _ _ ↦ trivial⟩

end Provenance.Json
