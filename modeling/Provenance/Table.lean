/-!
# Tables

Tables keyed by text and listed in the order of their keys. `insert` replaces the value of a key
that is present; `find?` reads it back (`find?_insert`), and keys stay strictly increasing
(`Ordered.insert`), so that a table is made of its own entries again (`Ordered.ofList_eq`).
-/

namespace Provenance

/-- Keys with their values. The operations keep the keys strictly increasing. -/
abbrev Table (α : Type) := List (String × α)

namespace Table

variable {α : Type}

/-- The value of a key. -/
def find? (key : String) : Table α → Option α
  | [] => none
  | (k, v) :: rest => if k = key then some v else find? key rest

/-- Gives a key its value, in place of the one it had. -/
def insert (key : String) (value : α) : Table α → Table α
  | [] => [(key, value)]
  | (k, v) :: rest =>
    if key < k then (key, value) :: (k, v) :: rest
    else if k = key then (key, value) :: rest
    else (k, v) :: insert key value rest

/-- The keys in order. -/
def keys (table : Table α) : List String :=
  table.map Prod.fst

/-- Replaces every value by one computed from it. -/
def mapValues {β : Type} (f : α → β) (table : Table α) : Table β :=
  table.map (fun (k, v) ↦ (k, f v))

/-- The table that a list of keys and values gives when it is read from left to right. -/
def ofList (entries : List (String × α)) : Table α :=
  entries.foldl (fun table (k, v) ↦ insert k v table) []

/-- Keys strictly increase. -/
def Ordered (table : Table α) : Prop :=
  table.Pairwise (fun a b ↦ a.1 < b.1)

theorem find?_insert (key key' : String) (value : α) (table : Table α) :
    find? key' (insert key value table) = if key = key' then some value else find? key' table := by
  induction table with
  | nil => simp [insert, find?]
  | cons entry rest ih =>
    obtain ⟨k, v⟩ := entry
    unfold insert
    split
    · simp [find?]
    · split
      · rename_i hk
        subst hk
        by_cases h : k = key' <;> simp [find?, h]
      · rename_i hk
        by_cases h : k = key'
        · subst h
          simp [find?, Ne.symm hk]
        · simp [find?, h, ih]

/-- A table that is made from keys has a value for each of them. -/
theorem find?_ofList_map (keys : List String) (f : String → α) (key : String) :
    find? key (ofList (keys.map (fun key ↦ (key, f key)))) =
      if key ∈ keys then some (f key) else none := by
  have hfold (table : Table α) :
      find? key ((keys.map (fun key ↦ (key, f key))).foldl
          (fun table (k, v) ↦ insert k v table) table) =
        if key ∈ keys then some (f key) else find? key table := by
    induction keys generalizing table with
    | nil => rfl
    | cons first rest ih =>
      rw [List.map_cons, List.foldl_cons, ih, find?_insert]
      by_cases hrest : key ∈ rest
      · simp [hrest]
      · by_cases hfirst : first = key
        · simp [hfirst]
        · simp [hrest, hfirst, Ne.symm hfirst]
  exact hfold []

theorem mem_keys_insert {key key' : String} {value : α} {table : Table α} :
    key' ∈ keys (insert key value table) ↔ key' = key ∨ key' ∈ keys table := by
  induction table with
  | nil => simp [insert, keys]
  | cons head rest ih =>
    obtain ⟨k, v⟩ := head
    simp only [keys] at ih
    unfold insert
    split
    · simp [keys]
    · split
      · rename_i hk
        simp [keys, hk]
      · simp [keys, ih, or_left_comm]

theorem mem_insert {key : String} {value : α} {table : Table α} {entry : String × α}
    (h : entry ∈ insert key value table) : entry = (key, value) ∨ entry ∈ table := by
  induction table with
  | nil => simpa [insert] using h
  | cons head rest ih =>
    obtain ⟨k, v⟩ := head
    unfold insert at h
    split at h
    · simpa using h
    · split at h
      · rcases List.mem_cons.1 h with h | h
        · exact Or.inl h
        · exact Or.inr (List.mem_cons_of_mem _ h)
      · rcases List.mem_cons.1 h with h | h
        · exact Or.inr (by simp [h])
        · exact (ih h).imp id (List.mem_cons_of_mem _)

theorem Ordered.nil : Ordered ([] : Table α) := List.Pairwise.nil

theorem Ordered.insert {table : Table α} (h : Ordered table) (key : String) (value : α) :
    Ordered (insert key value table) := by
  induction table with
  | nil => simp [Ordered, Table.insert]
  | cons head rest ih =>
    obtain ⟨k, v⟩ := head
    obtain ⟨hhead, hrest⟩ := List.pairwise_cons.1 h
    unfold Table.insert
    split
    · rename_i hlt
      refine List.pairwise_cons.2 ⟨?_, h⟩
      intro entry hmem
      rcases List.mem_cons.1 hmem with rfl | hmem
      · exact hlt
      · exact String.lt_trans hlt (hhead entry hmem)
    · split
      · rename_i hk
        subst hk
        exact List.pairwise_cons.2 ⟨hhead, hrest⟩
      · rename_i hnlt hk
        refine List.pairwise_cons.2 ⟨?_, ih hrest⟩
        intro entry hmem
        rcases mem_insert hmem with rfl | hmem
        · exact Std.lt_of_le_of_ne (String.not_lt.1 hnlt) hk
        · exact hhead entry hmem

/-- A key occurs once, so that its value is found. -/
theorem Ordered.find?_eq_some {table : Table α} (h : Ordered table) {key : String} {value : α}
    (hmem : (key, value) ∈ table) : find? key table = some value := by
  induction table with
  | nil => cases hmem
  | cons head rest ih =>
    obtain ⟨k, v⟩ := head
    obtain ⟨hhead, hrest⟩ := List.pairwise_cons.1 h
    rcases List.mem_cons.1 hmem with heq | hmem
    · cases heq
      exact if_pos rfl
    · have hne : k ≠ key := fun heq ↦ String.lt_irrefl _ (heq ▸ hhead _ hmem)
      exact (if_neg hne).trans (ih hrest hmem)

theorem Ordered.pairwise_keys {table : Table α} (h : Ordered table) :
    (keys table).Pairwise (· < ·) :=
  List.pairwise_map.2 h

theorem mem_foldl_insert {entries : List (String × α)} {table : Table α} {entry : String × α}
    (h : entry ∈ entries.foldl (fun table (k, v) ↦ insert k v table) table) :
    entry ∈ entries ∨ entry ∈ table := by
  induction entries generalizing table with
  | nil => exact .inr h
  | cons first rest ih =>
    rcases ih h with hrest | hinsert
    · exact .inl (List.mem_cons_of_mem _ hrest)
    · rcases mem_insert hinsert with rfl | htable
      · exact .inl (List.mem_cons_self ..)
      · exact .inr htable

theorem mem_ofList {entries : List (String × α)} {entry : String × α}
    (h : entry ∈ ofList entries) : entry ∈ entries :=
  (mem_foldl_insert h).resolve_right List.not_mem_nil

/-- A key beyond all others comes last. -/
theorem insert_of_forall_lt {key : String} {table : Table α} (h : ∀ entry ∈ table, entry.1 < key)
    (value : α) : insert key value table = table ++ [(key, value)] := by
  induction table with
  | nil => rfl
  | cons head rest ih =>
    obtain ⟨k, v⟩ := head
    obtain ⟨hk, hrest⟩ := List.forall_mem_cons.1 h
    have hne : k ≠ key := fun heq ↦ String.lt_irrefl _ (heq ▸ hk)
    rw [insert, if_neg (String.lt_asymm hk), if_neg hne, ih hrest, List.cons_append]

theorem ordered_ofList (entries : List (String × α)) : Ordered (ofList entries) := by
  have hfold (table : Table α) (h : table.Ordered) :
      Ordered (entries.foldl (fun table (k, v) ↦ insert k v table) table) := by
    induction entries generalizing table with
    | nil => exact h
    | cons first rest ih => exact ih _ (h.insert first.1 first.2)
  exact hfold [] Ordered.nil

theorem foldl_insert_of_ordered {table entries : Table α} (h : Ordered (table ++ entries)) :
    entries.foldl (fun table (k, v) ↦ insert k v table) table = table ++ entries := by
  induction entries generalizing table with
  | nil => exact (List.append_nil table).symm
  | cons first rest ih =>
    have hlast : ∀ entry ∈ table, entry.1 < first.1 := fun entry hentry ↦
      (List.pairwise_append.1 h).2.2 entry hentry first (List.mem_cons_self ..)
    have hsplit : table ++ first :: rest = insert first.1 first.2 table ++ rest := by
      rw [insert_of_forall_lt hlast, List.append_assoc, List.singleton_append]
    rw [hsplit] at h ⊢
    exact ih h

/-- A list in the order of its keys is the table that it gives. -/
theorem Ordered.ofList_eq {table : Table α} (h : Ordered table) : ofList table = table :=
  foldl_insert_of_ordered h

end Table

end Provenance
