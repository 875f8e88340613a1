import Provenance.Text

/-!
# Paths

A path is kept exactly as it was written, and compared by what it names: repeated and trailing
separators do not count, nor does a `.` after the first component. `join`, `parent`, `fileName?`,
`fileStem?` and `extension?` are lexical; none of them looks at a file system.

The main facts are that `==` is equality of components (`beq_iff`) and that `join` keeps an absolute
right side (`join_of_isAbsolute`).
-/

namespace Provenance

/-- A path as written. -/
structure Path where
  text : String
  deriving Repr, Inhabited

/-- A text that can be the name of a file or folder. -/
def IsName (text : String) : Prop :=
  text ≠ "" ∧ text ≠ "." ∧ text ≠ ".." ∧ '/' ∉ text.toList

instance : DecidablePred IsName :=
  fun _ ↦ inferInstanceAs (Decidable (_ ∧ _ ∧ _ ∧ _))

/-- What a path is made of. A `.` is a component only where it begins a relative path. -/
inductive Component where
  | root
  | current
  | parent
  | normal (name : String)
  deriving DecidableEq, Repr

namespace Component

/-- The component that a single segment names; empty segments and `.` name none. -/
def ofSegment? (segment : List Char) : Option Component :=
  if segment = [] ∨ segment = ['.'] then none
  else if segment = ['.', '.'] then some .parent
  else some (.normal (String.ofList segment))

theorem ofSegment?_toList {name : String} (h : IsName name) :
    ofSegment? name.toList = some (.normal name) := by
  obtain ⟨hempty, hcurrent, hparent, -⟩ := h
  have hne : name.toList ≠ [] := fun h ↦ hempty (String.toList_inj.1 h)
  have hdot : name.toList ≠ ['.'] := fun h ↦ hcurrent (String.toList_inj.1 h)
  have hdots : name.toList ≠ ['.', '.'] := fun h ↦ hparent (String.toList_inj.1 h)
  simp [ofSegment?, hne, hdot, hdots]

theorem isName_of_ofSegment? {segment : List Char} {name : String}
    (h : ofSegment? segment = some (.normal name)) (hsep : '/' ∉ segment) : IsName name := by
  unfold ofSegment? at h
  split at h
  · cases h
  · rename_i hne
    split at h
    · cases h
    · rename_i hdots
      injection h with h
      injection h with h
      subst h
      obtain ⟨hempty, hdot⟩ := not_or.1 hne
      refine ⟨fun h ↦ hempty ?_, fun h ↦ hdot ?_, fun h ↦ hdots ?_, by simpa using hsep⟩ <;>
        simpa using congrArg String.toList h

/-- The root comes first, then `.`, `..` and the names in order of their characters. -/
def compare : Component → Component → Ordering
  | .root, .root => .eq
  | .root, _ => .lt
  | .current, .root => .gt
  | .current, .current => .eq
  | .current, _ => .lt
  | .parent, .parent => .eq
  | .parent, .normal _ => .lt
  | .parent, _ => .gt
  | .normal a, .normal b => Ord.compare a b
  | .normal _, _ => .gt

end Component

namespace Path

/-- The part of a path before its segments: `/`, a leading `.`, or nothing. -/
inductive Head where
  | root
  | current
  | none
  deriving DecidableEq, Repr

namespace Head

def chars : Head → List Char
  | .root => ['/']
  | .current => ['.']
  | .none => []

def components : Head → List Component
  | .root => [.root]
  | .current => [.current]
  | .none => []

end Head

/-- A path's head and the characters after it. -/
def headAndBody (p : Path) : Head × List Char :=
  match p.text.toList with
  | '/' :: body => (.root, body)
  | ['.'] => (.current, [])
  | '.' :: '/' :: body => (.current, '/' :: body)
  | body => (.none, body)

/-- The components in order. -/
def components (p : Path) : List Component :=
  let (head, body) := p.headAndBody
  head.components ++ (Text.pieces '/' body).filterMap Component.ofSegment?

instance : BEq Path where
  beq p q := p.components == q.components

theorem beq_iff (p q : Path) : (p == q) = true ↔ p.components = q.components := by
  change (p.components == q.components) = true ↔ _
  simp

instance : EquivBEq Path where
  rfl := by simp [beq_iff]
  symm h := by rw [beq_iff] at h ⊢; exact h.symm
  trans h h' := by rw [beq_iff] at h h' ⊢; exact h.trans h'

/-- The order of two component lists, the shorter first if one begins the other. -/
def compareComponents : List Component → List Component → Ordering
  | [], [] => .eq
  | [], _ :: _ => .lt
  | _ :: _, [] => .gt
  | a :: as, b :: bs => (a.compare b).then (compareComponents as bs)

/-- Paths are ordered component by component. -/
def compare (p q : Path) : Ordering :=
  compareComponents p.components q.components

/-- Whether a path comes before another or is equal to it. -/
def le (p q : Path) : Bool :=
  p.compare q != .gt

def isAbsolute (p : Path) : Bool :=
  p.headAndBody.1 = .root

/-- The path of an entry of the directory `p`. -/
def child (p : Path) (name : String) : Path :=
  if p.text = "" ∨ p.text.toList.getLast? = some '/' then ⟨p.text ++ name⟩
  else ⟨p.text ++ "/" ++ name⟩

/-- The path `q` read from the directory `p`. -/
def join (p q : Path) : Path :=
  if q.isAbsolute then q else p.child q.text

theorem join_of_isAbsolute {p q : Path} (h : q.isAbsolute) : p.join q = q :=
  if_pos h

theorem join_eq_child {p q : Path} (h : q.isAbsolute = false) : p.join q = p.child q.text :=
  if_neg (by simp [h])

theorem utf8ByteSize_le_child (p : Path) (name : String) :
    p.text.utf8ByteSize ≤ (p.child name).text.utf8ByteSize := by
  unfold child
  split
  · simp
  · simp
    omega

/-- Whether a segment names no component. -/
def isIdle (segment : List Char) : Bool :=
  (Component.ofSegment? segment).isNone

/-- The segments of a path's body in reverse order, without the idle ones at its end. -/
def reverseSegments (p : Path) : List (List Char) :=
  (Text.pieces '/' p.headAndBody.2).reverse.dropWhile isIdle

/-- The path without its last component. The root and the empty path have none. -/
def parent? (p : Path) : Option Path :=
  let (head, _) := p.headAndBody
  match p.reverseSegments with
  | [] => if head = .current then some ⟨""⟩ else none
  | _ :: before =>
    let kept := (before.dropWhile isIdle).reverse
    some ⟨String.ofList (head.chars ++ ['/'].intercalate kept)⟩

/-- The directory that a file lies in, `.` where the path has no parent. -/
def directory (p : Path) : Path :=
  p.parent?.getD ⟨"."⟩

/-- The last component, if it is a name. -/
def fileName? (p : Path) : Option String :=
  match p.reverseSegments with
  | segment :: _ =>
    match Component.ofSegment? segment with
    | some (.normal name) => some name
    | _ => none
  | [] => none

/-- A file name cut at its last point, unless nothing but that point comes before the cut. -/
def splitName (name : String) : String × Option String :=
  match Text.splitLast? '.' name.toList with
  | some (stem@(_ :: _), after) => (String.ofList stem, some (String.ofList after))
  | _ => (name, none)

/-- The file name without its extension. -/
def fileStem? (p : Path) : Option String :=
  p.fileName?.map (fun name ↦ (splitName name).1)

/-- What follows the last point of the file name. -/
def extension? (p : Path) : Option String :=
  p.fileName?.bind (fun name ↦ (splitName name).2)

/-- Whether the extension is one of `extensions` when the letters are read in lower case. -/
def hasExtension (extensions : List String) (p : Path) : Bool :=
  extensions.contains (Text.lowercase (p.extension?.getD ""))

end Path

end Provenance
