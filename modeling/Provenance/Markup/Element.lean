import Provenance.Markup.Event

/-!
# Elements

The tree that a sequence of markup events describes. `Assembly` holds the elements that are still
open, innermost first, and the first top-level element that was closed; `Element.ofEvents` runs it
over a whole sequence.
-/

namespace Provenance.Markup

/-- An element with its attributes and child elements in order, and all of its own character data.
-/
structure Element where
  name : String
  attributes : List (String × String)
  children : List Element
  text : String
  deriving Inhabited

/-- Why a text holds no element. The position of a flaw is the number of bytes before it. -/
inductive Fault where
  | notWellFormed (position : Nat) (flaw : Flaw)
  | unclosed (name : String)
  | noRoot
  deriving DecidableEq, Repr

namespace Fault

def message : Fault → String
  | notWellFormed position flaw => s!"XML syntax error at byte {position}: {flaw.message}"
  | unclosed name => s!"Unclosed element <{name}> at end of document"
  | noRoot => "Document has no root element"

end Fault

namespace Element

/-- The value of an attribute. -/
def attribute? (e : Element) (key : String) : Option String :=
  (e.attributes.find? (fun entry ↦ entry.1 = key)).map Prod.snd

/-- The children with a given name. -/
def childrenNamed (e : Element) (name : String) : List Element :=
  e.children.filter (fun c ↦ c.name = name)

/-- The first child with a given name. -/
def child? (e : Element) (name : String) : Option Element :=
  e.children.find? (fun c ↦ c.name = name)

/-- The element reached by taking the first child with each name of a list in turn. -/
def follow? (e : Element) : List String → Option Element
  | [] => some e
  | name :: names =>
    match e.child? name with
    | some child => child.follow? names
    | none => none

/-- The element at a path of names separated by `/`. -/
def path? (e : Element) (path : String) : Option Element :=
  e.follow? (Text.split '/' path)

mutual

/-- The first element with a given name below this one, an element before those inside it. -/
def descendant? (name : String) : Element → Option Element
  | ⟨_, _, children, _⟩ => descendantIn? name children

/-- The first element with a given name among some elements and those inside them. -/
def descendantIn? (name : String) : List Element → Option Element
  | [] => none
  | child :: rest =>
    if child.name = name then some child
    else (descendant? name child).or (descendantIn? name rest)

end

/-- The character data without the blanks at its ends, if anything is left of it. -/
def content? (e : Element) : Option String :=
  Text.trim? e.text

end Element

/-- The elements that are open, innermost first, and the root once it is closed. -/
structure Assembly where
  pending : List Element
  root? : Option Element

namespace Assembly

def empty : Assembly := ⟨[], none⟩

/-- Adds character data to the innermost open element; outside the root it is dropped. -/
def addText (a : Assembly) (content : String) : Assembly :=
  match a.pending with
  | [] => a
  | inner :: outer => { a with pending := { inner with text := inner.text ++ content } :: outer }

/-- Adds a finished element to the innermost open one. Of those outside all others the first is the
root and the rest are dropped. -/
def attach (element : Element) (a : Assembly) : Assembly :=
  match a.pending with
  | [] => { a with root? := a.root?.or (some element) }
  | inner :: outer =>
    { a with pending := { inner with children := inner.children ++ [element] } :: outer }

/-- The assembly after one more event. -/
def step (a : Assembly) : Event → Assembly
  | .startTag name attributes => { a with pending := ⟨name, attributes, [], ""⟩ :: a.pending }
  | .emptyTag name attributes => a.attach ⟨name, attributes, [], ""⟩
  | .endTag _ =>
    match a.pending with
    | [] => a
    | inner :: outer => attach inner { a with pending := outer }
  | .text content => a.addText content
  | .rawText content => a.addText content
  | .remark => a

/-- The root, if every element has been closed. -/
def finish (a : Assembly) : Except Fault Element :=
  match a.pending with
  | inner :: _ => .error (.unclosed inner.name)
  | [] =>
    match a.root? with
    | some root => .ok root
    | none => .error .noRoot

end Assembly

namespace Element

/-- The root element that a sequence of events describes. -/
def ofEvents (events : List Event) : Except Fault Element :=
  (events.foldl Assembly.step .empty).finish

/-- The root element of a text. -/
def ofText (text : String) : Except Fault Element :=
  match Event.ofText text with
  | .ok events => ofEvents events
  | .error (flaw, position) => .error (.notWellFormed position flaw)

end Element

end Provenance.Markup
