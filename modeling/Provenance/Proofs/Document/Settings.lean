import Provenance.Document.Source

/-!
# Settings read from elements

The settings of an element are entered one after another, and the children of one name are gathered
in one entry. Whether it holds one value or the list of several is seen from the entry itself, which
is safe because the value of an element is never a list (`ofElement_ne_list`). What is entered for a
name depends on the children of that name alone (`find?_addChildren`), so that one child gives its
value and several give the list of theirs (`entries_unambiguous`).
-/

namespace Provenance

open Markup (Element)

namespace Table

variable {α : Type}

theorem mem_keys_iff {key : String} {table : Table α} :
    key ∈ keys table ↔ (find? key table).isSome := by
  induction table with
  | nil => simp [keys, find?]
  | cons entry rest ih =>
    obtain ⟨k, v⟩ := entry
    rw [keys] at ih
    by_cases hk : k = key
    · simp [keys, find?, hk]
    · simp [keys, find?, hk, Ne.symm hk, ih]

end Table

namespace Setting

/-- What an entry holds after one more value for its name. -/
def join (held : Option Setting) (value : Setting) : Setting :=
  match held with
  | none => value
  | some (list items) => list (items ++ [value])
  | some existing => list [existing, value]

/-- What is entered for the values of one name. -/
def gathered : List Setting → Option Setting
  | [] => none
  | [value] => some value
  | values => some (list values)

theorem gathered_of_ne_nil {values : List Setting} (h : values ≠ []) : (gathered values).isSome := by
  cases values with
  | nil => exact absurd rfl h
  | cons first rest => cases rest <;> rfl

theorem gathered_of_two {values : List Setting} (h : 2 ≤ values.length) :
    gathered values = some (list values) := by
  cases values with
  | nil => simp at h
  | cons first rest =>
    cases rest with
    | nil => simp at h
    | cons next rest => rfl

theorem ofElement_eq (e : Element) : ofElement e =
    if e.children = [] ∧ e.attributes = [] then text (Text.trim e.text) else group (entries e) := by
  obtain ⟨name, attributes, children, content⟩ := e
  simp only [ofElement, entries, Bool.and_eq_true, List.isEmpty_iff]

theorem ofElement_ne_list (e : Element) (items : List Setting) : ofElement e ≠ list items := by
  rw [ofElement_eq]
  split <;> exact nofun

/-! ## Children -/

theorem merge_eq (entries : Table Setting) (name : String) (value : Setting) :
    merge entries name value = Table.insert name (join (Table.find? name entries) value) entries := by
  unfold merge join
  split <;> simp_all

/-- What is entered for a name after some children depends on those of this name alone. -/
theorem find?_addChildren (key : String) (entries : Table Setting) (children : List Element) :
    Table.find? key (addChildren entries children) =
      ((children.filter (fun c ↦ c.name = key)).map ofElement).foldl
        (fun held value ↦ some (join held value)) (Table.find? key entries) := by
  induction children generalizing entries with
  | nil => rfl
  | cons child rest ih =>
    rw [addChildren, ih, merge_eq, Table.find?_insert]
    by_cases hname : child.name = key
    · simp [hname]
    · simp [hname]

theorem ordered_addChildren {entries : Table Setting} (h : Table.Ordered entries)
    (children : List Element) : Table.Ordered (addChildren entries children) := by
  induction children generalizing entries with
  | nil => exact h
  | cons child rest ih =>
    rw [addChildren, merge_eq]
    exact ih (h.insert _ _)

theorem foldl_join_list (items values : List Setting) :
    values.foldl (fun held value ↦ some (join held value)) (some (list items)) =
      some (list (items ++ values)) := by
  induction values generalizing items with
  | nil => simp
  | cons value rest ih => rw [List.foldl_cons, join, ih, List.append_assoc, List.singleton_append]

/-- Values that are no lists are gathered as they are, one alone or several in a list. -/
theorem foldl_join_none {values : List Setting} (h : ∀ value ∈ values, ∀ items, value ≠ list items) :
    values.foldl (fun held value ↦ some (join held value)) none = gathered values := by
  cases values with
  | nil => rfl
  | cons first rest =>
    cases rest with
    | nil => rfl
    | cons next rest =>
      have hjoin : join (some first) next = list [first, next] := by
        have hfirst := h first (by simp)
        cases first with
        | list items => exact absurd rfl (hfirst items)
        | text | group => rfl
      rw [List.foldl_cons, List.foldl_cons, join, hjoin, foldl_join_list]
      rfl

/-! ## Attributes and text -/

/-- The entries so far and those for a list of attributes. -/
def addAttributes (entries : Table Setting) (attributes : List (String × String)) : Table Setting :=
  attributes.foldl (fun entries (key, value) ↦ Table.insert ("@" ++ key) (text value) entries) entries

theorem ordered_addAttributes {entries : Table Setting} (h : Table.Ordered entries)
    (attributes : List (String × String)) : Table.Ordered (addAttributes entries attributes) := by
  induction attributes generalizing entries with
  | nil => exact h
  | cons first rest ih => exact ih (h.insert _ _)

theorem find?_addAttributes_of_ne {key : String} {attributes : List (String × String)}
    (h : ∀ a ∈ attributes, "@" ++ a.1 ≠ key) (entries : Table Setting) :
    Table.find? key (addAttributes entries attributes) = Table.find? key entries := by
  induction attributes generalizing entries with
  | nil => rfl
  | cons first rest ih =>
    obtain ⟨hne, hrest⟩ := List.forall_mem_cons.1 h
    exact (ih hrest _).trans (by rw [Table.find?_insert, if_neg hne])

theorem find?_addAttributes {attributes : List (String × String)}
    (h : (attributes.map Prod.fst).Nodup) {a : String × String} (ha : a ∈ attributes)
    (entries : Table Setting) :
    Table.find? ("@" ++ a.1) (addAttributes entries attributes) = some (text a.2) := by
  induction attributes generalizing entries with
  | nil => cases ha
  | cons first rest ih =>
    obtain ⟨hfirst, hrest⟩ := List.nodup_cons.1 h
    rcases List.mem_cons.1 ha with rfl | ha
    · have hne : ∀ b ∈ rest, "@" ++ b.1 ≠ "@" ++ a.1 := fun b hb heq ↦
        hfirst ((String.append_right_inj _).1 heq ▸ List.mem_map_of_mem hb)
      exact (find?_addAttributes_of_ne hne _).trans (by rw [Table.find?_insert, if_pos rfl])
    · exact ih hrest ha _

theorem isSome_find?_addAttributes (key : String) (attributes : List (String × String))
    (entries : Table Setting) :
    (Table.find? key (addAttributes entries attributes)).isSome ↔
      (∃ a ∈ attributes, "@" ++ a.1 = key) ∨ (Table.find? key entries).isSome := by
  induction attributes generalizing entries with
  | nil => simp [addAttributes]
  | cons first rest ih =>
    rw [addAttributes, List.foldl_cons, ← addAttributes, ih, Table.find?_insert]
    by_cases hkey : "@" ++ first.1 = key
    · simp [hkey]
    · simp [hkey]

theorem find?_leaves (key : String) (e : Element) : Table.find? key (leaves e) =
    if key = "#text" ∧ Text.trim e.text ≠ "" then some (text (Text.trim e.text))
    else Table.find? key (addAttributes [] e.attributes) := by
  unfold leaves Element.content? Text.trim?
  by_cases htrim : Text.trim e.text = ""
  · simp [htrim, addAttributes]
  · simp [htrim, Table.find?_insert, addAttributes, eq_comm]

theorem ordered_leaves (e : Element) : Table.Ordered (leaves e) := by
  have hattributes : Table.Ordered (addAttributes [] e.attributes) :=
    ordered_addAttributes .nil e.attributes
  unfold leaves
  split
  · exact hattributes.insert _ _
  · exact hattributes

/-! ## Elements -/

/-- The names of an element's children are not mistaken for attributes or for its text. -/
def TagsApart (e : Element) : Prop :=
  ∀ c ∈ e.children, c.name.toList.head? ≠ some '@' ∧ c.name ≠ "#text"

/-- The entries are those of an element, each of its parts in its own entry. -/
structure Mirrors (e : Element) (entries : Table Setting) : Prop where
  ordered : Table.Ordered entries
  keys : ∀ key, key ∈ Table.keys entries ↔ (∃ a ∈ e.attributes, "@" ++ a.1 = key) ∨
    (key = "#text" ∧ Text.trim e.text ≠ "") ∨ ∃ c ∈ e.children, c.name = key
  ofAttribute : ∀ a ∈ e.attributes, Table.find? ("@" ++ a.1) entries = some (text a.2)
  ofText : Text.trim e.text ≠ "" →
    Table.find? "#text" entries = some (text (Text.trim e.text))
  ofChild : ∀ c, e.childrenNamed c.name = [c] → Table.find? c.name entries = some (ofElement c)
  ofChildren : ∀ name, 2 ≤ (e.childrenNamed name).length →
    Table.find? name entries = some (list ((e.childrenNamed name).map ofElement))

theorem find?_entries (key : String) (e : Element) : Table.find? key (entries e) =
    ((e.childrenNamed key).map ofElement).foldl (fun held value ↦ some (join held value))
      (Table.find? key (leaves e)) :=
  find?_addChildren key (leaves e) e.children

theorem find?_leaves_of_child {e : Element} (h : TagsApart e) {c : Element} (hc : c ∈ e.children) :
    Table.find? c.name (leaves e) = none := by
  obtain ⟨hmark, htext⟩ := h c hc
  have hne : ∀ a ∈ e.attributes, "@" ++ a.1 ≠ c.name := by
    intro a _ heq
    exact hmark (by simp [← heq])
  rw [find?_leaves, if_neg (fun h ↦ htext h.1), find?_addAttributes_of_ne hne]
  rfl

/-- The children of one name are gathered in one entry. -/
theorem find?_entries_of_child {e : Element} (h : TagsApart e) {c : Element} (hc : c ∈ e.children) :
    Table.find? c.name (entries e) = gathered ((e.childrenNamed c.name).map ofElement) := by
  rw [find?_entries, find?_leaves_of_child h hc]
  refine foldl_join_none fun value hvalue ↦ ?_
  obtain ⟨child, -, rfl⟩ := List.mem_map.1 hvalue
  exact ofElement_ne_list child

theorem find?_entries_of_ne {e : Element} {key : String} (h : ∀ c ∈ e.children, c.name ≠ key) :
    Table.find? key (entries e) = Table.find? key (leaves e) := by
  have hnone : e.childrenNamed key = [] := List.filter_eq_nil_iff.2 (by simpa using h)
  rw [find?_entries, hnone]
  rfl

theorem mem_keys_entries {e : Element} (htags : TagsApart e) (key : String) :
    key ∈ Table.keys (entries e) ↔ (∃ a ∈ e.attributes, "@" ++ a.1 = key) ∨
      (key = "#text" ∧ Text.trim e.text ≠ "") ∨ ∃ c ∈ e.children, c.name = key := by
  rw [Table.mem_keys_iff]
  by_cases hchild : ∃ c ∈ e.children, c.name = key
  · obtain ⟨c, hc, rfl⟩ := hchild
    have hne : (e.childrenNamed c.name).map ofElement ≠ [] :=
      List.ne_nil_of_mem (List.mem_map_of_mem (List.mem_filter.2 ⟨hc, by simp⟩))
    rw [find?_entries_of_child htags hc]
    exact iff_of_true (gathered_of_ne_nil hne) (.inr (.inr ⟨c, hc, rfl⟩))
  · have hne : ∀ c ∈ e.children, c.name ≠ key := fun c hc heq ↦ hchild ⟨c, hc, heq⟩
    rw [find?_entries_of_ne hne, find?_leaves]
    split
    · rename_i htext
      exact iff_of_true rfl (.inr (.inl htext))
    · rename_i htext
      simp [isSome_find?_addAttributes, Table.find?, htext, hchild]

theorem mirrors_entries {e : Element} (hattributes : (e.attributes.map Prod.fst).Nodup)
    (htags : TagsApart e) : Mirrors e (entries e) where
  ordered := ordered_addChildren (ordered_leaves e) e.children
  keys := mem_keys_entries htags
  ofAttribute a ha := by
    have hne : ∀ c ∈ e.children, c.name ≠ "@" ++ a.1 :=
      fun c hc heq ↦ (htags c hc).1 (by simp [heq])
    have htext : "@" ++ a.1 ≠ "#text" := by
      intro heq
      simpa using congrArg (fun name ↦ name.toList.head?) heq
    rw [find?_entries_of_ne hne, find?_leaves, if_neg fun h ↦ htext h.1,
      find?_addAttributes hattributes ha]
  ofText htext := by
    rw [find?_entries_of_ne fun c hc ↦ (htags c hc).2, find?_leaves, if_pos ⟨rfl, htext⟩]
  ofChild c honly := by
    have hmem : c ∈ e.childrenNamed c.name := honly ▸ List.mem_singleton_self c
    rw [find?_entries_of_child htags (List.mem_filter.1 hmem).1, honly]
    rfl
  ofChildren name htwo := by
    obtain ⟨c, hc⟩ := List.exists_mem_of_length_pos (Nat.lt_of_lt_of_le Nat.two_pos htwo)
    obtain ⟨hmem, hname⟩ := List.mem_filter.1 hc
    obtain rfl : c.name = name := of_decide_eq_true hname
    rw [find?_entries_of_child htags hmem]
    exact gathered_of_two (by simpa using htwo)

/-- The entries of an element are its attributes, its text and its children. A name that one child
has holds the value of that child, which is no list, and a name that several have holds the list of
their values in order. An element has its text as value exactly if it has neither attributes nor
children, and otherwise its entries. -/
theorem entries_unambiguous {e : Element} (hattributes : (e.attributes.map Prod.fst).Nodup)
    (htags : TagsApart e) : Mirrors e (entries e) ∧
      (∀ c ∈ e.children, ∀ items, ofElement c ≠ list items) ∧
      (∀ content, ofElement e = text content ↔
        (e.attributes = [] ∧ e.children = []) ∧ content = Text.trim e.text) ∧
      (e.attributes ≠ [] ∨ e.children ≠ [] → ofElement e = group (entries e)) := by
  refine ⟨mirrors_entries hattributes htags, fun c _ ↦ ofElement_ne_list c, fun content ↦ ?_, ?_⟩
  · rw [ofElement_eq, and_comm (a := e.attributes = [])]
    by_cases hbare : e.children = [] ∧ e.attributes = []
    · simp [hbare, eq_comm]
    · simp [hbare]
  · intro h
    rw [ofElement_eq, if_neg]
    exact fun hbare ↦ h.elim (· hbare.2) (· hbare.1)

instance (e : Element) : Decidable (TagsApart e) :=
  inferInstanceAs (Decidable (∀ c ∈ e.children, _ ∧ _))

/-- Two fields around a note that has a list of its own. -/
def notedFields : Element :=
  ⟨"Fields", [("mode", "sum"), ("by", "")],
    [⟨"Field", [("name", "x")], [], ""⟩,
      ⟨"Note", [], [⟨"p", [], [], "1"⟩, ⟨"p", [], [], "2"⟩], ""⟩,
      ⟨"Field", [], [], " y "⟩], " t "⟩

theorem entries_unambiguous_noted :
    (notedFields.attributes.map Prod.fst).Nodup ∧ TagsApart notedFields ∧
      Mirrors notedFields (entries notedFields) ∧
      entries notedFields =
        [("#text", text "t"), ("@by", text ""), ("@mode", text "sum"),
          ("Field", list [group [("@name", text "x")], text "y"]),
          ("Note", group [("p", list [text "1", text "2"])])] := by
  have hattributes : (notedFields.attributes.map Prod.fst).Nodup := by decide
  have htags : TagsApart notedFields := by decide
  exact ⟨hattributes, htags, (entries_unambiguous hattributes htags).1, rfl⟩

end Setting

end Provenance
