import Provenance.Json.Fields
import Provenance.Proofs.Json.RoundTrip

/-!
# Nesting

How deep arrays and objects nest in a value (`nesting`). The reader refuses what nests deeper than
`maxDepth` (`nesting_of_read?`), and this is all that keeps a value without doubles from being read
back (`readable_iff`). Putting fields in order takes nothing but repeated fields away, so it makes
no value nest deeper, and doing it again changes nothing (`sortKeys_sortKeys`).
-/

namespace Provenance.Json

mutual

/-- How many arrays and objects are around the innermost one, itself included. -/
def nesting : Json → Nat
  | array items => nestingItems items + 1
  | object fields => nestingFields fields + 1
  | _ => 0

/-- The deepest nesting of a value of a list. -/
def nestingItems : List Json → Nat
  | [] => 0
  | item :: rest => max (nesting item) (nestingItems rest)

/-- The deepest nesting of a value of a field. -/
def nestingFields : List (String × Json) → Nat
  | [] => 0
  | (_, value) :: rest => max (nesting value) (nestingFields rest)

end

theorem nestingItems_le_iff {items : List Json} {n : Nat} :
    nestingItems items ≤ n ↔ ∀ item ∈ items, item.nesting ≤ n := by
  induction items with
  | nil => simp [nestingItems]
  | cons item rest ih => rw [nestingItems, Nat.max_le, ih, List.forall_mem_cons]

theorem nestingFields_le_iff {fields : List (String × Json)} {n : Nat} :
    nestingFields fields ≤ n ↔ ∀ field ∈ fields, field.2.nesting ≤ n := by
  induction fields with
  | nil => simp [nestingFields]
  | cons field rest ih => rw [nestingFields, Nat.max_le, ih, List.forall_mem_cons]

mutual

/-- There are no doubles in a value, and its integers fit 64 bits. -/
def Whole : Json → Prop
  | integer n => fitsWord n
  | double _ _ => False
  | array items => WholeItems items
  | object fields => WholeFields fields
  | _ => True

/-- Every value of a list is whole. -/
def WholeItems : List Json → Prop
  | [] => True
  | item :: rest => Whole item ∧ WholeItems rest

/-- Every field has a whole value. -/
def WholeFields : List (String × Json) → Prop
  | [] => True
  | (_, value) :: rest => Whole value ∧ WholeFields rest

end

theorem wholeFields_iff {fields : List (String × Json)} :
    WholeFields fields ↔ ∀ field ∈ fields, field.2.Whole := by
  induction fields with
  | nil => simp [WholeFields]
  | cons field rest ih => simp [WholeFields, ih]

/-! ## What can be read back -/

mutual

/-- A whole value is readable unless it nests too deep. -/
theorem readable_iff {value : Json} {depth : Nat} (hdepth : depth ≤ maxDepth) :
    value.Readable depth ↔ value.Whole ∧ depth + value.nesting ≤ maxDepth := by
  match value with
  | null | bool _ | string _ | integer _ | double _ _ => simp [Readable, Whole, nesting, hdepth]
  | array items =>
    rw [Readable, Whole, nesting]
    by_cases h : depth < maxDepth
    · rw [readableItems_iff_whole h, Nat.add_right_comm, Nat.add_assoc]
      exact and_iff_right h
    · exact iff_of_false (fun hread ↦ h hread.1) (fun hwhole ↦ h (by omega))
  | object fields =>
    rw [Readable, Whole, nesting]
    by_cases h : depth < maxDepth
    · rw [readableFields_iff_whole h, Nat.add_right_comm, Nat.add_assoc]
      exact and_iff_right h
    · exact iff_of_false (fun hread ↦ h hread.1) (fun hwhole ↦ h (by omega))

theorem readableItems_iff_whole {items : List Json} {depth : Nat} (hdepth : depth < maxDepth) :
    ReadableItems (depth + 1) items ↔
      WholeItems items ∧ depth + 1 + nestingItems items ≤ maxDepth := by
  match items with
  | [] => simp [ReadableItems, WholeItems, nestingItems, Nat.succ_le_of_lt hdepth]
  | item :: rest =>
    have hmax : depth + 1 + nestingItems (item :: rest) ≤ maxDepth ↔
        depth + 1 + item.nesting ≤ maxDepth ∧ depth + 1 + nestingItems rest ≤ maxDepth := by
      rw [nestingItems]
      omega
    rw [ReadableItems, WholeItems, hmax, readable_iff hdepth, readableItems_iff_whole hdepth,
      and_and_and_comm]

theorem readableFields_iff_whole {fields : List (String × Json)} {depth : Nat}
    (hdepth : depth < maxDepth) : ReadableFields (depth + 1) fields ↔
      WholeFields fields ∧ depth + 1 + nestingFields fields ≤ maxDepth := by
  match fields with
  | [] => simp [ReadableFields, WholeFields, nestingFields, Nat.succ_le_of_lt hdepth]
  | (name, value) :: rest =>
    have hmax : depth + 1 + nestingFields ((name, value) :: rest) ≤ maxDepth ↔
        depth + 1 + value.nesting ≤ maxDepth ∧ depth + 1 + nestingFields rest ≤ maxDepth := by
      rw [nestingFields]
      omega
    rw [ReadableFields, WholeFields, hmax, readable_iff hdepth, readableFields_iff_whole hdepth,
      and_and_and_comm]

end

/-! ## What the reader accepts -/

theorem nesting_of_number? {negative : Bool} {whole : List Char} {fraction : Option (List Char)}
    {exponent : Option Int} {value : Json}
    (h : number? negative whole fraction exponent = some value) : value.nesting = 0 := by
  obtain ⟨-, h⟩ | ⟨-, h⟩ := ite_eq_iff.1 h
  · cases h
    rfl
  · obtain ⟨magnitude, -, rfl⟩ := Option.map_eq_some_iff.1 h
    rfl

theorem nesting_of_readNumber {negative : Bool} {cs rest : List Char} {value : Json}
    (h : readNumber negative cs = some (value, rest)) : value.nesting = 0 := by
  unfold readNumber at h
  split at h
  · cases h
  · cases h
  · split at h
    · cases h
    · split at h
      · cases h
      · obtain ⟨number, hnumber, heq⟩ := Option.map_eq_some_iff.1 h
        obtain ⟨rfl, -⟩ := Prod.mk.inj heq
        exact nesting_of_number? hnumber

/-- What is read with some fuel stays within the depth that the reader allows, be it a value, the
items of an array or the fields of an object. -/
structure Shallow (fuel : Nat) : Prop where
  value : ∀ {depth : Nat} {cs rest : List Char} {value : Json}, depth ≤ maxDepth →
    readValue depth fuel cs = some (value, rest) → depth + value.nesting ≤ maxDepth
  items : ∀ {depth : Nat} {cs rest : List Char} {items : List Json}, depth ≤ maxDepth →
    readItems depth fuel cs = some (items, rest) → depth + nestingItems items ≤ maxDepth
  fields : ∀ {depth : Nat} {cs rest : List Char} {fields : List (String × Json)},
    depth ≤ maxDepth → readFields depth fuel cs = some (fields, rest) →
      depth + nestingFields fields ≤ maxDepth

namespace Shallow

variable {fuel : Nat} (h : Shallow fuel) {depth : Nat} (hdepth : depth ≤ maxDepth)

include h hdepth

theorem readValue_succ {cs rest : List Char} {value : Json}
    (hread : readValue depth (fuel + 1) cs = some (value, rest)) :
    depth + value.nesting ≤ maxDepth := by
  rw [readValue] at hread
  split at hread
  case h_1 | h_2 | h_3 =>
    cases hread
    exact hdepth
  case h_4 =>
    obtain ⟨read, -, heq⟩ := Option.map_eq_some_iff.1 hread
    cases heq
    exact hdepth
  case h_5 | h_8 =>
    rw [nesting_of_readNumber hread]
    exact hdepth
  case h_6 =>
    split at hread
    · cases hread
    · rename_i hopen
      split at hread
      · cases hread
        simp only [nesting, nestingItems]
        omega
      · obtain ⟨⟨items, after⟩, hitems, heq⟩ := Option.map_eq_some_iff.1 hread
        cases heq
        have hle := h.items (by omega) hitems
        rw [nesting]
        omega
  case h_7 =>
    split at hread
    · cases hread
    · rename_i hopen
      split at hread
      · cases hread
        simp only [nesting, nestingFields]
        omega
      · obtain ⟨⟨fields, after⟩, hfields, heq⟩ := Option.map_eq_some_iff.1 hread
        cases heq
        have hle := h.fields (by omega) hfields
        rw [nesting]
        omega

theorem readItems_succ {cs rest : List Char} {items : List Json}
    (hread : readItems depth (fuel + 1) cs = some (items, rest)) :
    depth + nestingItems items ≤ maxDepth := by
  rw [readItems] at hread
  split at hread
  · cases hread
  · rename_i item after hitem
    have hle := h.value hdepth hitem
    split at hread
    · obtain ⟨⟨more, after⟩, hmore, heq⟩ := Option.map_eq_some_iff.1 hread
      cases heq
      have hrest := h.items hdepth hmore
      rw [nestingItems]
      omega
    · cases hread
      simp only [nestingItems]
      omega
    · cases hread

theorem readFields_succ {cs rest : List Char} {fields : List (String × Json)}
    (hread : readFields depth (fuel + 1) cs = some (fields, rest)) :
    depth + nestingFields fields ≤ maxDepth := by
  rw [readFields] at hread
  split at hread
  · split at hread
    · cases hread
    · split at hread
      · split at hread
        · cases hread
        · rename_i value after hvalue
          have hle := h.value hdepth hvalue
          split at hread
          · obtain ⟨⟨more, after⟩, hmore, heq⟩ := Option.map_eq_some_iff.1 hread
            cases heq
            have hrest := h.fields hdepth hmore
            rw [nestingFields]
            omega
          · cases hread
            simp only [nestingFields]
            omega
          · cases hread
      · cases hread
  · cases hread

end Shallow

theorem shallow (fuel : Nat) : Shallow fuel := by
  induction fuel with
  | zero => constructor <;> intros <;> contradiction
  | succ fuel ih =>
    exact ⟨fun hdepth ↦ ih.readValue_succ hdepth, fun hdepth ↦ ih.readItems_succ hdepth,
      fun hdepth ↦ ih.readFields_succ hdepth⟩

/-- The reader refuses what nests too deep. -/
theorem nesting_of_read? {text : String} {value : Json} (h : read? text = some value) :
    value.nesting ≤ maxDepth := by
  simp only [read?] at h
  split at h
  · rename_i read rest hread
    obtain ⟨-, rfl⟩ := Option.ite_some_none_eq_some.1 h
    simpa using (shallow _).value (Nat.zero_le maxDepth) hread
  · cases h

/-! ## Fields -/

theorem nesting_of_field? {name : String} {record value : Json}
    (h : record.field? name = some value) : value.nesting < record.nesting := by
  unfold field? at h
  split at h
  · rename_i fields
    obtain ⟨field, hfind, rfl⟩ := Option.map_eq_some_iff.1 h
    have hmem : field ∈ fields := List.mem_reverse.1 (List.mem_of_find?_eq_some hfind)
    exact Nat.lt_succ_of_le (nestingFields_le_iff.1 (le_refl _) field hmem)
  · cases h

theorem nesting_of_record? {names : List String} {needed : Nat} {value record : Json}
    (h : value.record? names needed = some record) : record.nesting ≤ value.nesting := by
  unfold record? at h
  split at h
  · obtain ⟨-, h⟩ := Option.ite_none_left_eq_some.1 h
    cases h
    exact le_refl _
  · rename_i items
    obtain ⟨-, rfl⟩ := Option.ite_some_none_eq_some.1 h
    refine Nat.succ_le_succ (nestingFields_le_iff.2 fun field hfield ↦ ?_)
    exact nestingItems_le_iff.1 (le_refl _) field.2 (List.of_mem_zip hfield).2
  · cases h

/-! ## Fields in order -/

mutual

theorem nesting_sortKeys_le (value : Json) : value.sortKeys.nesting ≤ value.nesting := by
  match value with
  | null | bool _ | string _ | integer _ | double _ _ => rfl
  | array items => exact Nat.succ_le_succ (nestingItems_sortItems_le items)
  | object fields =>
    refine Nat.succ_le_succ (nestingFields_le_iff.2 fun field hfield ↦ ?_)
    exact nestingFields_le_iff.1 (nestingFields_sortFields_le fields) field
      (Table.mem_ofList hfield)

theorem nestingItems_sortItems_le (items : List Json) :
    nestingItems (sortItems items) ≤ nestingItems items := by
  match items with
  | [] => rfl
  | item :: rest =>
    have hitem := nesting_sortKeys_le item
    have hrest := nestingItems_sortItems_le rest
    rw [sortItems, nestingItems, nestingItems]
    omega

theorem nestingFields_sortFields_le (fields : List (String × Json)) :
    nestingFields (sortFields fields) ≤ nestingFields fields := by
  match fields with
  | [] => rfl
  | (_, value) :: rest =>
    have hvalue := nesting_sortKeys_le value
    have hrest := nestingFields_sortFields_le rest
    rw [sortFields, nestingFields, nestingFields]
    omega

end

mutual

theorem Whole.sortKeys {value : Json} (h : value.Whole) : value.sortKeys.Whole := by
  match value with
  | null | bool _ | string _ | integer _ => exact h
  | double _ _ => cases h
  | array items => exact WholeItems.sortItems h
  | object fields =>
    exact wholeFields_iff.2 fun field hfield ↦
      wholeFields_iff.1 (WholeFields.sortFields h) field (Table.mem_ofList hfield)

theorem WholeItems.sortItems {items : List Json} (h : WholeItems items) :
    WholeItems (sortItems items) := by
  match items with
  | [] => trivial
  | item :: rest => exact ⟨Whole.sortKeys h.1, WholeItems.sortItems h.2⟩

theorem WholeFields.sortFields {fields : List (String × Json)} (h : WholeFields fields) :
    WholeFields (sortFields fields) := by
  match fields with
  | [] => trivial
  | (_, value) :: rest => exact ⟨Whole.sortKeys h.1, WholeFields.sortFields h.2⟩

end

/-- Fields whose values are in order are left as they are. -/
theorem sortFields_eq_self {fields : List (String × Json)}
    (h : ∀ field ∈ fields, field.2.sortKeys = field.2) : sortFields fields = fields := by
  induction fields with
  | nil => rfl
  | cons field rest ih =>
    obtain ⟨hfield, hrest⟩ := List.forall_mem_cons.1 h
    rw [sortFields, hfield, ih hrest]

mutual

/-- Fields in order are left as they are. -/
theorem sortKeys_sortKeys (value : Json) : value.sortKeys.sortKeys = value.sortKeys := by
  match value with
  | null | bool _ | string _ | integer _ | double _ _ => rfl
  | array items => rw [sortKeys, sortKeys, sortItems_sortItems items]
  | object fields =>
    have hvalues : sortFields (Table.ofList (sortFields fields)) =
        Table.ofList (sortFields fields) :=
      sortFields_eq_self fun field hfield ↦
        sortKeys_of_mem_sortFields fields field (Table.mem_ofList hfield)
    rw [sortKeys, sortKeys, hvalues, (Table.ordered_ofList _).ofList_eq]

theorem sortItems_sortItems (items : List Json) :
    sortItems (sortItems items) = sortItems items := by
  match items with
  | [] => rfl
  | item :: rest =>
    rw [sortItems, sortItems, sortKeys_sortKeys item, sortItems_sortItems rest]

theorem sortKeys_of_mem_sortFields (fields : List (String × Json)) :
    ∀ field ∈ sortFields fields, field.2.sortKeys = field.2 := by
  match fields with
  | [] => exact List.forall_mem_nil _
  | (_, value) :: rest =>
    exact List.forall_mem_cons.2 ⟨sortKeys_sortKeys value, sortKeys_of_mem_sortFields rest⟩

end

end Provenance.Json
