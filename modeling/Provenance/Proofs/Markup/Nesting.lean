import Provenance.Markup.Element

/-!
# Elements and their events

The events that describe an element are its tags and the pieces of its content between them, in
order: character data, remarks and the events of the child elements (`Describes`). An assembly turns
them into the element again, whatever else is open at the time (`foldl_describes`). If the events
end before the element does, the one that is still open and innermost is the one after whose start
tag there are only whole pieces (`Innermost`), and it is the one that the fault names
(`ofEvents_of_describes`).
-/

namespace Provenance.Markup

/-- Whether an event can stand outside the root: character data or a remark. -/
def Event.isAside : Event → Bool
  | text _ | rawText _ | remark => true
  | startTag _ _ | emptyTag _ _ | endTag _ => false

/-- Whole pieces of the content of an element, with the child elements and the character data that
they add up to. -/
inductive Content : List Event → List Element → String → Prop
  | nil : Content [] [] ""
  | text (piece : String) {events : List Event} {children : List Element} {data : String}
      (rest : Content events children data) :
      Content (.text piece :: events) children (piece ++ data)
  | rawText (piece : String) {events : List Event} {children : List Element} {data : String}
      (rest : Content events children data) :
      Content (.rawText piece :: events) children (piece ++ data)
  | remark {events : List Event} {children : List Element} {data : String}
      (rest : Content events children data) : Content (.remark :: events) children data
  | emptyTag (name : String) (attributes : List (String × String)) {events : List Event}
      {children : List Element} {data : String} (rest : Content events children data) :
      Content (.emptyTag name attributes :: events) (⟨name, attributes, [], ""⟩ :: children) data
  | tags (name : String) (attributes : List (String × String)) (closing : String)
      {within events : List Event} {inner children : List Element} {text data : String}
      (content : Content within inner text) (rest : Content events children data) :
      Content (.startTag name attributes :: within ++ .endTag closing :: events)
        (⟨name, attributes, inner, text⟩ :: children) data

/-- The events of one element: an empty tag, or a start tag, its content and an end tag. -/
inductive Describes : List Event → Element → Prop
  | emptyTag (name : String) (attributes : List (String × String)) :
      Describes [.emptyTag name attributes] ⟨name, attributes, [], ""⟩
  | tags (name : String) (attributes : List (String × String)) (closing : String)
      {events : List Event} {children : List Element} {text : String}
      (content : Content events children text) :
      Describes (.startTag name attributes :: events ++ [.endTag closing])
        ⟨name, attributes, children, text⟩

/-- The events end in the content of an element with a given name, and in none inside it. -/
def Innermost (name : String) (events : List Event) : Prop :=
  ∃ before attributes content children text,
    events = before ++ .startTag name attributes :: content ∧ Content content children text

variable {events front before after : List Event} {e : Element} {children : List Element}
  {text name : String}

/-! ## Whole elements -/

theorem Content.child (h : Describes front e) (rest : Content events children text) :
    Content (front ++ events) (e :: children) text := by
  cases h with
  | emptyTag name attributes => exact .emptyTag name attributes rest
  | tags name attributes closing content =>
    rw [List.append_assoc]
    exact .tags name attributes closing content rest

-- by recursion on the tree
mutual

/-- Every element is described by some events. -/
theorem exists_describes : (e : Element) → ∃ events, Describes events e
  | ⟨name, attributes, children, text⟩ => by
    obtain ⟨events, hevents⟩ := exists_content text children
    exact ⟨_, .tags name attributes name hevents⟩

theorem exists_content (text : String) :
    (children : List Element) → ∃ events, Content events children text
  | [] => ⟨_, by simpa using Content.text text .nil⟩
  | child :: rest => by
    obtain ⟨events, hevents⟩ := exists_content text rest
    obtain ⟨front, hfront⟩ := exists_describes child
    exact ⟨_, hevents.child hfront⟩

end

namespace Assembly

/-- Content goes to the innermost open element and leaves the others as they are. -/
theorem foldl_content (h : Content events children text) (inner : Element) (outer : List Element)
    (root? : Option Element) :
    events.foldl step ⟨inner :: outer, root?⟩ =
      ⟨{ inner with children := inner.children ++ children, text := inner.text ++ text } :: outer,
        root?⟩ := by
  induction h generalizing inner outer with
  | nil =>
    obtain ⟨name, attributes, before, data⟩ := inner
    simp
  | text piece _ ih => rw [List.foldl_cons, step, addText, ih, String.append_assoc]
  | rawText piece _ ih => rw [List.foldl_cons, step, addText, ih, String.append_assoc]
  | remark _ ih => rw [List.foldl_cons, step, ih]
  | emptyTag name attributes _ ih =>
    rw [List.foldl_cons, step, attach, ih, List.append_assoc]
    rfl
  | tags name attributes closing _ _ ihContent ih =>
    simp only [List.cons_append, List.foldl_cons, List.foldl_append, step, ihContent, attach, ih,
      List.nil_append, String.empty_append, List.append_assoc]

/-- The events of an element attach it, whatever is open. -/
theorem foldl_describes (h : Describes events e) (a : Assembly) :
    events.foldl step a = a.attach e := by
  cases h with
  | emptyTag name attributes => rfl
  | tags name attributes closing content =>
    rw [List.cons_append, List.foldl_cons, List.foldl_append, step, foldl_content content]
    simp [step]

theorem foldl_asides (h : ∀ event ∈ events, event.isAside) (root? : Option Element) :
    events.foldl step ⟨[], root?⟩ = ⟨[], root?⟩ := by
  induction events with
  | nil => rfl
  | cons event rest ih =>
    obtain ⟨hevent, hrest⟩ := List.forall_mem_cons.1 h
    rw [List.foldl_cons]
    cases event with
    | text | rawText | remark => exact ih hrest
    | startTag | emptyTag | endTag => cases hevent

end Assembly

/-! ## Events that end too early -/

namespace Innermost

theorem append (h : Innermost name events) (before : List Event) :
    Innermost name (before ++ events) := by
  obtain ⟨before', attributes, content, children, text, rfl, hcontent⟩ := h
  exact ⟨before ++ before', attributes, content, children, text, by simp, hcontent⟩

theorem of_content (h : Content events children text) (name : String)
    (attributes : List (String × String)) : Innermost name (.startTag name attributes :: events) :=
  ⟨[], attributes, events, children, text, rfl, h⟩

/-- The innermost open element is on top, whatever came before its start tag. -/
theorem ofEvents_eq (h : Innermost name events) :
    Element.ofEvents events = .error (.unclosed name) := by
  obtain ⟨before, attributes, content, children, text, rfl, hcontent⟩ := h
  rw [Element.ofEvents, List.foldl_append, List.foldl_cons, Assembly.step,
    Assembly.foldl_content hcontent]
  rfl

end Innermost

/-- The events are whole pieces of content, or they end inside an element. -/
def StartsContent (events : List Event) : Prop :=
  (∃ children text, Content events children text) ∨ ∃ name, Innermost name events

theorem startsContent_of_prefix_cons {event : Event} (hfront : front <+: event :: events)
    (hrest : ∀ rest, rest <+: events → StartsContent rest)
    (hcons : ∀ {rest children text}, Content rest children text → StartsContent (event :: rest)) :
    StartsContent front := by
  rcases List.prefix_cons_iff.1 hfront with rfl | ⟨rest, rfl, hprefix⟩
  · exact .inl ⟨_, _, .nil⟩
  · rcases hrest rest hprefix with ⟨_, _, hcontent⟩ | ⟨name, hname⟩
    · exact hcons hcontent
    · exact .inr ⟨name, hname.append [event]⟩

theorem StartsContent.innermost_startTag (h : StartsContent events) (name : String)
    (attributes : List (String × String)) :
    ∃ inner, Innermost inner (.startTag name attributes :: events) := by
  rcases h with ⟨_, _, hcontent⟩ | ⟨inner, hinner⟩
  · exact ⟨name, .of_content hcontent name attributes⟩
  · exact ⟨inner, hinner.append [.startTag name attributes]⟩

/-- Content that is cut off anywhere ends between two of its pieces or inside an element. -/
theorem Content.startsContent_of_prefix (h : Content events children text) (hfront : front <+: events) :
    StartsContent front := by
  induction h generalizing front with
  | nil =>
    obtain rfl := List.prefix_nil.1 hfront
    exact .inl ⟨_, _, .nil⟩
  | text piece _ ih =>
    exact startsContent_of_prefix_cons hfront (fun _ ↦ ih) fun h ↦ .inl ⟨_, _, h.text piece⟩
  | rawText piece _ ih =>
    exact startsContent_of_prefix_cons hfront (fun _ ↦ ih) fun h ↦ .inl ⟨_, _, h.rawText piece⟩
  | remark _ ih =>
    exact startsContent_of_prefix_cons hfront (fun _ ↦ ih) fun h ↦ .inl ⟨_, _, h.remark⟩
  | emptyTag name attributes _ ih =>
    exact startsContent_of_prefix_cons hfront (fun _ ↦ ih) fun h ↦
      .inl ⟨_, _, h.emptyTag name attributes⟩
  | @tags name attributes closing within events _ _ _ _ content _ ihContent ih =>
    rcases List.prefix_cons_iff.1 hfront with rfl | ⟨rest, rfl, more, hmore⟩
    · exact .inl ⟨_, _, .nil⟩
    -- cut off in the content of the element, before its end tag, or after it
    rcases List.append_eq_append_iff.1 hmore with ⟨cut, hcut, -⟩ | ⟨next, rfl, hnext⟩
    · exact .inr ((ihContent ⟨cut, hcut.symm⟩).innermost_startTag name attributes)
    cases next with
    | nil => exact .inr (by simpa using StartsContent.innermost_startTag (.inl ⟨_, _, content⟩) ..)
    | cons event next =>
      obtain ⟨rfl, rfl⟩ := List.cons.inj hnext
      rcases ih (List.prefix_append next more) with ⟨_, _, hnext⟩ | ⟨inner, hinner⟩
      · exact .inl ⟨_, _, content.tags name attributes closing hnext⟩
      · have hwhole := hinner.append (.startTag name attributes :: (within ++ [.endTag closing]))
        exact .inr ⟨inner, by simpa using hwhole⟩

/-- An element whose events end too early is open, or one inside it is. -/
theorem Describes.exists_innermost (h : Describes events e) (hfront : front <+: events)
    (hne : front ≠ []) (hproper : front ≠ events) : ∃ name, Innermost name front := by
  cases h with
  | emptyTag name attributes =>
    rcases List.prefix_cons_iff.1 hfront with rfl | ⟨rest, rfl, hrest⟩
    · exact absurd rfl hne
    · exact absurd (by rw [List.prefix_nil.1 hrest]) hproper
  | tags name attributes closing content =>
    obtain rfl | hfront := List.prefix_concat_iff.1 hfront
    · exact absurd rfl hproper
    · rcases List.prefix_cons_iff.1 hfront with rfl | ⟨rest, rfl, hrest⟩
      · exact absurd rfl hne
      · exact (content.startsContent_of_prefix hrest).innermost_startTag name attributes

/-! ## Elements of texts -/

theorem Element.ofText_eq {source : String} (h : Event.ofText source = .ok events) :
    ofText source = ofEvents events := by
  rw [ofText, h]

/-- The events of an element give the element back, whatever asides stand before and after them. If
they end too early, the fault names the innermost element that is open. A text has the element, or
the fault, of the events that are read from it. -/
theorem Element.ofEvents_of_describes (h : Describes events e)
    (hbefore : ∀ event ∈ before, event.isAside) (hafter : ∀ event ∈ after, event.isAside) :
    ofEvents (before ++ events ++ after) = .ok e ∧
      (∀ source, Event.ofText source = .ok (before ++ events ++ after) → ofText source = .ok e) ∧
      ∀ front, front <+: events → front ≠ [] → front ≠ events →
        ∃ name, Innermost name front ∧ ofEvents (before ++ front) = .error (.unclosed name) ∧
          ∀ source, Event.ofText source = .ok (before ++ front) →
            ofText source = .error (.unclosed name) := by
  have hwhole : ofEvents (before ++ events ++ after) = .ok e := by
    rw [ofEvents, List.foldl_append, List.foldl_append, Assembly.empty,
      Assembly.foldl_asides hbefore, Assembly.foldl_describes h, Assembly.attach,
      Assembly.foldl_asides hafter]
    rfl
  refine ⟨hwhole, fun source hsource ↦ (ofText_eq hsource).trans hwhole, ?_⟩
  intro front hfront hne hproper
  obtain ⟨name, hname⟩ := h.exists_innermost hfront hne hproper
  have hcut : ofEvents (before ++ front) = .error (.unclosed name) := (hname.append before).ofEvents_eq
  exact ⟨name, hname, hcut, fun source hsource ↦ (ofText_eq hsource).trans hcut⟩

/-- Character data around an empty element, a remark and a nested element. -/
def mixedElement : Element :=
  ⟨"a", [("k", "<")], [⟨"b", [], [], ""⟩, ⟨"c", [], [], " y "⟩], "xz"⟩

def mixedEvents : List Event :=
  [.startTag "a" [("k", "<")], .text "x", .emptyTag "b" [], .remark, .startTag "c" [],
    .rawText " y ", .endTag "c", .text "z", .endTag "a"]

def mixedSource : String :=
  "<?x?><a k='&lt;'> x <b/><!--b--><c><![CDATA[ y ]]></c>z</a> end"

theorem describes_mixed : Describes mixedEvents mixedElement :=
  .tags "a" _ "a" (.text "x" (.emptyTag "b" [] (.remark
    (.tags "c" [] "c" (.rawText " y " .nil) (.text "z" .nil)))))

/-- The whole text, and its events up to the nested element. -/
theorem Element.ofEvents_of_describes_mixed :
    Describes mixedEvents mixedElement ∧
      Event.ofText mixedSource = .ok ([.remark] ++ mixedEvents ++ [.text "end"]) ∧
      ofText mixedSource = .ok mixedElement ∧
      ∃ name, Innermost name (mixedEvents.take 6) ∧
        ofEvents ([.remark] ++ mixedEvents.take 6) = .error (.unclosed name) := by
  have hevents : (Event.ofText mixedSource).toOption =
      some ([.remark] ++ mixedEvents ++ [.text "end"]) := by decide +kernel
  have hsource : Event.ofText mixedSource = .ok ([.remark] ++ mixedEvents ++ [.text "end"]) := by
    cases hread : Event.ofText mixedSource with
    | error e => simp [hread, Except.toOption] at hevents
    | ok events => simpa [hread, Except.toOption] using hevents
  have hbefore : ∀ event ∈ [Event.remark], event.isAside := by decide
  have hafter : ∀ event ∈ [Event.text "end"], event.isAside := by decide
  obtain ⟨-, hwhole, hcut⟩ := ofEvents_of_describes describes_mixed hbefore hafter
  obtain ⟨name, hname, hunclosed, -⟩ := hcut (mixedEvents.take 6) ( List.take_prefix ..)
    (by decide) (by decide)
  exact ⟨describes_mixed, hsource, hwhole _ hsource, name, hname, hunclosed⟩

end Provenance.Markup
