import Provenance.Proofs.Fingerprint.Layout

/-!
# Fingerprints of legible structures

The lengths of the parts need not be known if the parts can be told apart by their characters. In a
legible structure identifiers are made of characters of one kind, such as digits, and tools and
anchors of others, so that the text falls into words (`flatMap_inj_of_isWord`); the words of nodes
end in a category (`Category.append_name_inj`) and those of connections do not. Two legible
documents that are written as the same bytes have the same structure (`sameStructure_of_bytes_eq`).
With an anchor that ends in a digit a connection to one node reads like a connection to another
(`not_sameStructure_of_wired`).
-/

namespace Provenance

namespace Category

theorem mem_all (category : Category) : category ∈ all := by
  cases category <;> decide

/-- The name of a category ends in no other, unless that one is of a boundary. -/
theorem eq_or_of_suffix : ∀ a ∈ all, ∀ b ∈ all, a.name.toList <:+ b.name.toList →
    a = b ∨ b.name.toList = "macro_".toList ++ a.name.toList := by
  decide +kernel

/-- A text that ends in a category is cut in front of it in one way only, if no cut leaves the
beginning of a boundary's category behind. -/
theorem append_name_inj {a b : Category} {xs ys : List Char} (hxs : ¬"macro_".toList <:+ xs)
    (hys : ¬"macro_".toList <:+ ys) (h : xs ++ a.name.toList = ys ++ b.name.toList) :
    xs = ys ∧ a = b := by
  have hcut {a b : Category} {xs ys : List Char} (hxs : ¬"macro_".toList <:+ xs)
      (h : xs ++ a.name.toList = ys ++ b.name.toList) (hsuffix : a.name.toList <:+ b.name.toList) :
      a = b := by
    rcases eq_or_of_suffix a (mem_all a) b (mem_all b) hsuffix with heq | hlonger
    · exact heq
    · rw [hlonger, ← List.append_assoc, List.append_cancel_right_eq] at h
      exact absurd (h ▸ List.suffix_append ys _) hxs
  have heq : a = b := by
    rcases List.suffix_or_suffix_of_suffix (List.suffix_append xs a.name.toList)
      (h ▸ List.suffix_append ys b.name.toList) with hsuffix | hsuffix
    · exact hcut hxs h hsuffix
    · exact (hcut hys h.symm hsuffix).symm
  subst heq
  exact ⟨List.append_cancel_right h, rfl⟩

end Category

/-- Some characters of one kind and then some of the other. -/
@[mk_iff]
structure IsWord (isMark : Char → Bool) (word : List Char × List Char) : Prop where
  marks_ne_nil : word.1 ≠ []
  marks : word.1.all isMark
  others_ne_nil : word.2 ≠ []
  others : word.2.all (!isMark ·)

instance (isMark : Char → Bool) (word : List Char × List Char) :
    Decidable (IsWord isMark word) :=
  decidable_of_iff _ (isWord_iff isMark word).symm

variable {isMark : Char → Bool}

theorem head?_flatMap_of_isWord {ws : List (List Char × List Char)}
    (hws : ∀ w ∈ ws, IsWord isMark w) :
    ∀ c ∈ (ws.flatMap (fun w ↦ w.1 ++ w.2)).head?, isMark c := by
  cases ws with
  | nil => simp
  | cons w ws =>
    intro c hc
    have hw := hws w List.mem_cons_self
    rw [List.flatMap_cons, List.append_assoc, List.head?_append_of_ne_nil _ hw.marks_ne_nil] at hc
    exact List.all_eq_true.1 hw.marks c (List.mem_of_head? hc)

/-- Words that are written one after the other can be told apart. -/
theorem flatMap_inj_of_isWord {ws vs : List (List Char × List Char)}
    (hws : ∀ w ∈ ws, IsWord isMark w) (hvs : ∀ v ∈ vs, IsWord isMark v)
    (h : ws.flatMap (fun w ↦ w.1 ++ w.2) = vs.flatMap (fun w ↦ w.1 ++ w.2)) : ws = vs := by
  induction ws generalizing vs with
  | nil =>
    cases vs with
    | nil => rfl
    | cons v vs => simp [(hvs v List.mem_cons_self).marks_ne_nil] at h
  | cons w ws ih =>
    cases vs with
    | nil => simp [(hws w List.mem_cons_self).marks_ne_nil] at h
    | cons v vs =>
      obtain ⟨hw, hws⟩ := List.forall_mem_cons.1 hws
      obtain ⟨hv, hvs⟩ := List.forall_mem_cons.1 hvs
      have hothers {w : List Char × List Char} (hw : IsWord isMark w) (rest : List Char) :
          ∀ c ∈ (w.2 ++ rest).head?, isMark c = false := by
        intro c hc
        rw [List.head?_append_of_ne_nil _ hw.others_ne_nil] at hc
        simpa using List.all_eq_true.1 hw.others c (List.mem_of_head? hc)
      have hnext {ws : List (List Char × List Char)} (hws : ∀ w ∈ ws, IsWord isMark w) :
          ∀ c ∈ (ws.flatMap (fun w ↦ w.1 ++ w.2)).head?, (!isMark c) = false := by
        simpa using head?_flatMap_of_isWord hws
      rw [List.flatMap_cons, List.flatMap_cons, List.append_assoc, List.append_assoc] at h
      obtain ⟨hmarks, h⟩ := Text.append_inj_of_head (List.all_eq_true.1 hw.marks) (hothers hw _)
        (List.all_eq_true.1 hv.marks) (hothers hv _) h
      obtain ⟨hrest, h⟩ := Text.append_inj_of_head (List.all_eq_true.1 hw.others) (hnext hws)
        (List.all_eq_true.1 hv.others) (hnext hvs) h
      rw [Prod.ext hmarks hrest, ih hws hvs h]

namespace Node

/-- A node as a word: its identifier, and its tool with its category. -/
def word (n : Node) : List Char × List Char :=
  (n.id.toList, n.toolType.toList ++ n.category.name.toList)

/-- The tool of a node does not end like the beginning of a boundary's category. -/
def Separable (n : Node) : Prop :=
  ¬"macro_".toList <:+ n.toolType.toList

instance (n : Node) : Decidable n.Separable :=
  inferInstanceAs (Decidable (¬_))

theorem signature_eq_of_word_eq {m n : Node} (hm : m.Separable) (hn : n.Separable)
    (h : m.word = n.word) : m.signature = n.signature := by
  obtain ⟨hid, hrest⟩ := Prod.mk.inj h
  obtain ⟨htool, hcategory⟩ := Category.append_name_inj hm hn hrest
  rw [signature, signature, String.toList_inj.1 hid, String.toList_inj.1 htool, hcategory]

theorem map_signature_eq_of_map_word_eq {ms ns : List Node} (hms : ∀ m ∈ ms, m.Separable)
    (hns : ∀ n ∈ ns, n.Separable) (h : ms.map word = ns.map word) :
    ms.map signature = ns.map signature := by
  induction ms generalizing ns with
  | nil => simp_all
  | cons m ms ih =>
    cases ns with
    | nil => simp at h
    | cons n ns =>
      obtain ⟨hm, hms⟩ := List.forall_mem_cons.1 hms
      obtain ⟨hn, hns⟩ := List.forall_mem_cons.1 hns
      obtain ⟨hword, hwords⟩ := List.cons.inj h
      rw [List.map_cons, List.map_cons, signature_eq_of_word_eq hm hn hword, ih hms hns hwords]

end Node

/-- An end of a connection as a word: the node's identifier, and the anchor. -/
def Endpoint.word (e : Endpoint) : List Char × List Char :=
  (e.node.toList, e.anchor.toList)

theorem Endpoint.word_injective : Function.Injective word := by
  rintro ⟨node, anchor⟩ ⟨node', anchor'⟩ h
  simpa [word, String.toList_inj] using h

/-- The two ends of a connection as words. -/
def Connection.words (c : Connection) : List (List Char × List Char) :=
  [c.source.word, c.target.word]

theorem Connection.flatMap_words_injective :
    Function.Injective (fun cs : List Connection ↦ cs.flatMap words) := by
  intro cs ds h
  induction cs generalizing ds with
  | nil =>
    cases ds with
    | nil => rfl
    | cons d ds => simp [words] at h
  | cons c cs ih =>
    cases ds with
    | nil => simp [words] at h
    | cons d ds =>
      simp only [words, List.flatMap_cons, List.cons_append, List.nil_append, List.cons.injEq] at h
      obtain ⟨hsource, htarget, hrest⟩ := h
      obtain rfl : c = d := by
        rw [Connection.mk.injEq]
        exact ⟨Endpoint.word_injective hsource, Endpoint.word_injective htarget⟩
      rw [ih hrest]

/-- Whether a word ends in the name of a category. -/
def endsInCategory (word : List Char × List Char) : Bool :=
  Category.all.any (fun category ↦ category.name.toList.isSuffixOf word.2)

theorem Node.endsInCategory_word (n : Node) : endsInCategory n.word := by
  simp only [endsInCategory, word, List.any_eq_true, List.isSuffixOf_iff_suffix]
  exact ⟨n.category, n.category.mem_all, List.suffix_append ..⟩

namespace Document

variable {d e : Document}

/-- The words that tell of a document's nodes. -/
def nodeWords (d : Document) : List (List Char × List Char) :=
  (Node.sorted d.nodes).map Node.word

/-- The words that tell of a document's connections. -/
def connectionWords (d : Document) : List (List Char × List Char) :=
  (d.connections.mergeSort Connection.le).flatMap Connection.words

theorem toList_structureText_eq_flatMap (d : Document) :
    d.structureText.toList = (d.nodeWords ++ d.connectionWords).flatMap (fun w ↦ w.1 ++ w.2) := by
  simp [toList_structureText, records, nodeWords, connectionWords, List.flatMap_def,
    List.flatten_flatten, Function.comp_def, Node.parts, Node.word, Connection.parts,
    Connection.words, Endpoint.word]

/-- The words of a document can be read from its text: identifiers are made of marks, and tools,
categories and anchors of other characters; no tool ends like the beginning of a boundary's
category, and no anchor ends like a category. -/
@[mk_iff]
structure Legible (isMark : Char → Bool) (d : Document) : Prop where
  nodes : ∀ n ∈ d.nodes, IsWord isMark n.word ∧ n.Separable
  connections : ∀ c ∈ d.connections, ∀ w ∈ c.words, IsWord isMark w ∧ endsInCategory w = false

instance (isMark : Char → Bool) (d : Document) : Decidable (d.Legible isMark) :=
  decidable_of_iff _ (legible_iff isMark d).symm

theorem Legible.of_mem_connectionWords (h : d.Legible isMark) :
    ∀ w ∈ d.connectionWords, IsWord isMark w ∧ endsInCategory w = false := by
  intro w hw
  obtain ⟨c, hc, hw⟩ := List.mem_flatMap.1 hw
  exact h.connections c ((List.mergeSort_perm ..).subset hc) w hw

theorem Legible.isWord (h : d.Legible isMark) :
    ∀ w ∈ d.nodeWords ++ d.connectionWords, IsWord isMark w := by
  intro w hw
  rcases List.mem_append.1 hw with hw | hw
  · obtain ⟨n, hn, rfl⟩ := List.mem_map.1 hw
    exact (h.nodes n ((Node.sorted_perm _).subset hn)).1
  · exact (h.of_mem_connectionWords w hw).1

theorem Legible.separable (h : d.Legible isMark) : ∀ n ∈ Node.sorted d.nodes, n.Separable :=
  fun n hn ↦ (h.nodes n ((Node.sorted_perm _).subset hn)).2

theorem Legible.sameStructure (hd : d.Legible isMark) (he : e.Legible isMark)
    (h : d.structureText = e.structureText) : d.SameStructure e := by
  have hwords : d.nodeWords ++ d.connectionWords = e.nodeWords ++ e.connectionWords := by
    apply flatMap_inj_of_isWord hd.isWord he.isWord
    rw [← toList_structureText_eq_flatMap, h, toList_structureText_eq_flatMap]
  have hnodes (d : Document) : ∀ w ∈ d.nodeWords, endsInCategory w := by
    intro w hw
    obtain ⟨n, -, rfl⟩ := List.mem_map.1 hw
    exact n.endsInCategory_word
  have hconnections {d : Document} (hd : d.Legible isMark) :
      ∀ w ∈ d.connectionWords.head?, endsInCategory w = false :=
    fun w hw ↦ (hd.of_mem_connectionWords w (List.mem_of_head? hw)).2
  obtain ⟨hleft, hright⟩ := Text.append_inj_of_head (hnodes d) (hconnections hd) (hnodes e)
    (hconnections he) hwords
  exact .of_sorted (Node.map_signature_eq_of_map_word_eq hd.separable he.separable hleft)
    (Connection.flatMap_words_injective hright)

/-- If two documents are written as the same bytes, they have the same structure if both are
legible; otherwise it is the layout that tells whether they have. -/
theorem sameStructure_of_bytes_eq
    (h : d.structureText.toUTF8.toList = e.structureText.toUTF8.toList) :
    (∀ isMark, d.Legible isMark → e.Legible isMark → d.SameStructure e) ∧
      (d.layout = e.layout → d.SameStructure e) ∧
      ((d.nodes.map Node.id).Nodup → d.SameStructure e → d.layout = e.layout) := by
  have htext : d.structureText = e.structureText := by
    rw [Text.toList_toUTF8, Text.toList_toUTF8] at h
    exact Text.bytes_injective h
  exact ⟨fun _ hd he ↦ hd.sameStructure he htext, sameStructure_of_layout_eq htext,
    layout_eq_of_sameStructure⟩

theorem sameStructure_of_bytes_eq_shuffled :
    tidyMacro.structureText.toUTF8.toList = shuffledMacro.structureText.toUTF8.toList ∧
      tidyMacro.Legible Char.isDigit ∧ shuffledMacro.Legible Char.isDigit ∧
      tidyMacro.layout = shuffledMacro.layout ∧ tidyMacro.SameStructure shuffledMacro := by
  have hsame : tidyMacro.SameStructure shuffledMacro := ⟨by decide, by decide⟩
  have hrecords := records_eq_of_sameStructure (by decide) hsame
  have hbytes :
      tidyMacro.structureText.toUTF8.toList = shuffledMacro.structureText.toUTF8.toList := by
    rw [structureText_eq, structureText_eq, hrecords]
  have htidy : tidyMacro.Legible Char.isDigit := by decide
  have hshuffled : shuffledMacro.Legible Char.isDigit := by decide
  obtain ⟨hlegible, -, hlayout⟩ := sameStructure_of_bytes_eq hbytes
  exact ⟨hbytes, htidy, hshuffled, hlayout (by decide) hsame, hlegible _ htidy hshuffled⟩

/-- The records of a document whose nodes and connections are in order. -/
theorem records_of_pairwise (hnodes : d.nodes.Pairwise (fun m n ↦ m.id ≤ n.id))
    (hconnections : d.connections.Pairwise (fun a b ↦ a.le b)) :
    d.records = d.nodes.map Node.parts ++ d.connections.map Connection.parts := by
  rw [records, Node.sorted, List.mergeSort_of_pairwise (by simpa using hnodes),
    List.mergeSort_of_pairwise hconnections]

/-- A filter and two formulas. -/
def wiredNodes : List Node :=
  [{ Node.plain "1" .filter "Filter" with toolType := "Filter" },
   { Node.plain "12" .formula "Formula" with toolType := "Formula" },
   { Node.plain "2" .formula "Formula" with toolType := "Formula" }]

/-- Data flow from an anchor with a number to the node `2`. -/
def wiredToSecond : Document where
  name := "A"
  path := ⟨"A.yxmc"⟩
  description := none
  nodes := wiredNodes
  connections := [⟨⟨"1", "Output1"⟩, ⟨"2", "Input"⟩⟩]

/-- From another anchor of the same node, data flow to the node `12`. -/
def wiredToTwelfth : Document where
  name := "B"
  path := ⟨"B.yxmc"⟩
  description := none
  nodes := wiredNodes
  connections := [⟨⟨"1", "Output"⟩, ⟨"12", "Input"⟩⟩]

theorem records_wiredToSecond : wiredToSecond.records =
    [["1", "Filter", "filter"], ["12", "Formula", "formula"], ["2", "Formula", "formula"],
     ["1", "Output1", "2", "Input"]] := by
  rw [records_of_pairwise (by decide) (by decide)]
  rfl

theorem records_wiredToTwelfth : wiredToTwelfth.records =
    [["1", "Filter", "filter"], ["12", "Formula", "formula"], ["2", "Formula", "formula"],
     ["1", "Output", "12", "Input"]] := by
  rw [records_of_pairwise (by decide) (by decide)]
  rfl

theorem structureText_wired : wiredToSecond.structureText = wiredToTwelfth.structureText := by
  rw [structureText_eq, structureText_eq, records_wiredToSecond, records_wiredToTwelfth]
  decide

/-- Two different structures are written as the same bytes and have the same fingerprint. -/
theorem not_sameStructure_of_wired :
    wiredToSecond.structureText.toUTF8.toList = wiredToTwelfth.structureText.toUTF8.toList ∧
      wiredToSecond.fingerprint = wiredToTwelfth.fingerprint ∧
      ¬wiredToSecond.SameStructure wiredToTwelfth := by
  rw [fingerprint, fingerprint, structureText_wired]
  exact ⟨rfl, rfl, fun h ↦ absurd h.connections (by decide)⟩

end Document

end Provenance
