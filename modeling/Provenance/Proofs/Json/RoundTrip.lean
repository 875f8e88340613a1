import Mathlib.Data.List.Basic
import Mathlib.Data.List.DropRight
import Provenance.Json.Reader
import Provenance.Proofs.Text.Digits

/-!
# Reading what was written

A value that is written is read back as it was, in either layout and with anything after it that does
not go on with a number (`readValue_write`). Left out are doubles, which the reader does not always
round to the nearest one, integers of more than 64 bits, and containers that nest too deep
(`Readable`). So the text of a readable value holds this value (`read?_indented`, `read?_compact`).
-/

namespace Provenance

namespace Json

/-! ## Digits -/

theorem toNat_toDigits (n : Nat) : Digits.toNat 10 (Nat.toDigits 10 n) = n := by
  have hdigits : ∀ c ∈ Nat.toDigits 10 n, c.isDigit := fun c hc ↦
    Nat.isDigit_of_mem_toDigits (by decide) (by decide) hc
  rw [Digits.toNat_eq_ofDigitChars hdigits, Nat.ofDigitChars_ten_toDigits]

/-- Only zero begins with a zero. -/
theorem head?_toDigits_ne_zero {n : Nat} (h : n ≠ 0) : (Nat.toDigits 10 n).head? ≠ some '0' := by
  induction n using Nat.strongRecOn with
  | ind n ih =>
    by_cases hlt : n < 10
    · have hsmall : ∀ m < 10, m ≠ 0 → Nat.digitChar m ≠ '0' := by decide
      rw [Nat.toDigits_of_lt_base hlt]
      exact fun heq ↦ hsmall n hlt h (Option.some.inj heq)
    · have hle : 10 ≤ n := Nat.le_of_not_lt hlt
      rw [Nat.toDigits_of_base_le (by decide) hle, List.head?_append_of_ne_nil _ Nat.toDigits_ne_nil]
      exact ih (n / 10) (by omega) (by omega)

/-! ## Numbers -/

/-- What follows cannot belong to a number. -/
def Ends (rest : List Char) : Prop :=
  ∀ c ∈ rest.head?, c.isDigit = false ∧ c ≠ '.' ∧ c ≠ 'e' ∧ c ≠ 'E'

theorem ends_nil : Ends [] := by simp [Ends]

theorem ends_cons {c : Char} {rest : List Char} :
    Ends (c :: rest) ↔ c.isDigit = false ∧ c ≠ '.' ∧ c ≠ 'e' ∧ c ≠ 'E' := by
  simp [Ends]

theorem spanDigits_append {digits rest : List Char} (hdigits : ∀ c ∈ digits, c.isDigit)
    (hrest : Ends rest) : spanDigits (digits ++ rest) = (digits, rest) := by
  have hstop : rest.takeWhile Char.isDigit = [] ∧ rest.dropWhile Char.isDigit = rest := by
    cases rest with
    | nil => exact ⟨rfl, rfl⟩
    | cons c rest => simp [(ends_cons.1 hrest).1]
  rw [spanDigits, List.takeWhile_append_of_pos hdigits, List.dropWhile_append_of_pos hdigits,
    hstop.1, hstop.2, List.append_nil]

theorem readFraction_of_ends {rest : List Char} (h : Ends rest) :
    readFraction rest = some (none, rest) := by
  cases rest with
  | nil => rfl
  | cons c rest =>
    unfold readFraction
    split
    · rename_i heq
      exact absurd (List.cons.inj heq).1 (ends_cons.1 h).2.1
    · rfl

theorem readExponent_of_ends {rest : List Char} (h : Ends rest) :
    readExponent rest = some (none, rest) := by
  cases rest with
  | nil => rfl
  | cons c rest =>
    obtain ⟨-, -, hlower, hupper⟩ := ends_cons.1 h
    simp [readExponent, hlower, hupper]

theorem readNumber_toDigits (negative : Bool) (n : Nat) {rest : List Char} (hrest : Ends rest)
    (hfits : fitsWord (if negative then -n else n)) (hzero : ¬(negative ∧ n = 0)) :
    readNumber negative (Nat.toDigits 10 n ++ rest) =
      some (integer (if negative then -n else n), rest) := by
  have hdigits : ∀ c ∈ Nat.toDigits 10 n, c.isDigit := fun c hc ↦
    Nat.isDigit_of_mem_toDigits (by decide) (by decide) hc
  unfold readNumber
  rw [spanDigits_append hdigits hrest]
  split
  · rename_i heq
    exact absurd (congrArg Prod.fst heq) Nat.toDigits_ne_nil
  · rename_i c cs _ heq
    have hdigits : Nat.toDigits 10 n = '0' :: c :: cs := congrArg Prod.fst heq
    by_cases hn : n = 0
    · subst hn
      cases hdigits
    · exact absurd (by rw [hdigits]; rfl) (head?_toDigits_ne_zero hn)
  · rename_i whole after _ _ heq
    obtain ⟨rfl, rfl⟩ := Prod.mk.inj heq
    simp only [readFraction_of_ends hrest, readExponent_of_ends hrest]
    simp only [number?, toNat_toDigits]
    rw [if_pos ⟨rfl, rfl, hfits, by simpa using hzero⟩]
    rfl

/-! ## Texts -/

theorem toNat?_control : ∀ n < 0x20,
    Digits.toNat? 16 ['0', '0', Digits.hex (n / 16), Digits.hex n] = some n := by
  decide

/-- A character as it is written inside quotes is read as one character. -/
theorem readChars_escape (c : Char) (fuel : Nat) (read rest : List Char) :
    readChars (fuel + 1) read (escape c ++ rest) = readChars fuel (c :: read) rest := by
  unfold escape
  split
  case h_8 =>
    rename_i hquote hslash _ _ _ _ _
    split
    · rename_i hlt
      have hunit := toNat?_control c.toNat hlt
      have hlow : ¬(0xD800 ≤ c.toNat ∧ c.toNat < 0xDC00) := by omega
      have hhigh : ¬(0xDC00 ≤ c.toNat ∧ c.toNat < 0xE000) := by omega
      simp [readChars, unescape?, unit?, hunit, hlow, hhigh]
    · rename_i hge
      rw [List.singleton_append, readChars]
      · rw [if_neg hge]
      · exact hquote
      · exact hslash
  all_goals rfl

theorem escape_ne_nil (c : Char) : escape c ≠ [] := by
  unfold escape
  split
  case h_8 => split <;> simp
  all_goals simp

theorem readChars_flatMap_escape (cs : List Char) {fuel : Nat} (read rest : List Char)
    (hfuel : (cs.flatMap escape).length < fuel) :
    readChars fuel read (cs.flatMap escape ++ '"' :: rest) = some (read.reverse ++ cs, rest) := by
  induction cs generalizing fuel read with
  | nil =>
    cases fuel with
    | zero => omega
    | succ fuel => simp [readChars]
  | cons c cs ih =>
    have hc := List.length_pos_of_ne_nil (escape_ne_nil c)
    rw [List.flatMap_cons, List.length_append] at hfuel
    cases fuel with
    | zero => omega
    | succ fuel =>
      rw [List.flatMap_cons, List.append_assoc, readChars_escape, ih (c :: read) (by omega)]
      simp

theorem readText_quote (text : String) (rest : List Char) :
    readText (text.toList.flatMap escape ++ '"' :: rest) = some (text, rest) := by
  have hfuel : (text.toList.flatMap escape).length <
      (text.toList.flatMap escape ++ '"' :: rest).length + 1 := by
    rw [List.length_append]
    omega
  rw [readText, readChars_flatMap_escape text.toList [] rest hfuel]
  simp

/-! ## Values -/

mutual

/-- A value that is read back as it is: there are no doubles in it, its integers fit 64 bits, and its
containers do not nest too deep. -/
def Readable (depth : Nat) : Json → Prop
  | integer n => fitsWord n
  | double _ _ => False
  | array items => depth < maxDepth ∧ ReadableItems (depth + 1) items
  | object fields => depth < maxDepth ∧ ReadableFields (depth + 1) fields
  | _ => True

/-- Every value of a list is readable. -/
def ReadableItems (depth : Nat) : List Json → Prop
  | [] => True
  | item :: rest => Readable depth item ∧ ReadableItems depth rest

/-- Every field has a readable value. -/
def ReadableFields (depth : Nat) : List (String × Json) → Prop
  | [] => True
  | (_, value) :: rest => Readable depth value ∧ ReadableFields depth rest

end

theorem readableItems_iff {depth : Nat} {items : List Json} :
    ReadableItems depth items ↔ ∀ item ∈ items, Readable depth item := by
  induction items with
  | nil => simp [ReadableItems]
  | cons item rest ih => simp [ReadableItems, ih]

theorem readableFields_iff {depth : Nat} {fields : List (String × Json)} :
    ReadableFields depth fields ↔ ∀ field ∈ fields, Readable depth field.2 := by
  induction fields with
  | nil => simp [ReadableFields]
  | cons field rest ih => simp [ReadableFields, ih]

/-- Nothing but what may stand between tokens. -/
def Blank (cs : List Char) : Prop :=
  ∀ c ∈ cs, c = ' ' ∨ c = '\n' ∨ c = '\t' ∨ c = '\r'

theorem skipBlanks_append {blanks : List Char} (h : Blank blanks) (rest : List Char) :
    skipBlanks (blanks ++ rest) = skipBlanks rest := by
  refine List.dropWhile_append_of_pos fun c hc ↦ ?_
  rcases h c hc with rfl | rfl | rfl | rfl <;> rfl

theorem ends_append {blanks : List Char} (h : Blank blanks) {rest : List Char} (hrest : Ends rest) :
    Ends (blanks ++ rest) := by
  cases blanks with
  | nil => exact hrest
  | cons c blanks =>
    rw [List.cons_append, ends_cons]
    rcases h c (List.mem_cons_self ..) with rfl | rfl | rfl | rfl <;> decide

/-- A layout adds nothing but blanks to the tokens. -/
structure Layout.Plain (layout : Layout) : Prop where
  gap : ∀ depth, Blank (layout.gap depth)
  colon : ∃ blanks, layout.colon = ':' :: blanks ∧ Blank blanks

theorem plain_compact : Layout.compact.Plain where
  gap _ := List.forall_mem_nil _
  colon := ⟨[], rfl, List.forall_mem_nil _⟩

theorem plain_indented : Layout.indented.Plain where
  gap depth c hc := by
    rcases List.mem_cons.1 hc with rfl | hc
    · exact .inr (.inl rfl)
    · exact .inl (List.eq_of_mem_replicate hc)
  colon := ⟨[' '], rfl, by simp [Blank]⟩

theorem exists_toDigits (n : Nat) :
    ∃ c cs, Nat.toDigits 10 n = c :: cs ∧ c.isDigit := by
  obtain ⟨c, cs, hcs⟩ := List.exists_cons_of_ne_nil (Nat.toDigits_ne_nil (n := n) (b := 10))
  have hc := Nat.isDigit_of_mem_toDigits (b := 10) (n := n) (c := c) (by decide) (by decide)
  exact ⟨c, cs, hcs, hc (by rw [hcs]; exact List.mem_cons_self ..)⟩

theorem skipBlanks_of_isDigit {c : Char} (hc : c.isDigit) (cs : List Char) :
    skipBlanks (c :: cs) = c :: cs := by
  refine List.dropWhile_cons_of_neg ?_
  simp only [Bool.or_eq_true, decide_eq_true_eq]
  rintro (((rfl | rfl) | rfl) | rfl) <;> exact absurd hc (by decide)

theorem readValue_of_isDigit {c : Char} (hc : c.isDigit) (depth fuel : Nat) (cs : List Char) :
    readValue depth (fuel + 1) (c :: cs) = readNumber false (c :: cs) := by
  rw [readValue, skipBlanks_of_isDigit hc]
  split
  case h_8 => rfl
  all_goals
    rename_i heq
    obtain ⟨rfl, -⟩ := List.cons.inj heq
    exact absurd hc (by decide)

theorem readValue_integerChars {n : Int} (hn : fitsWord n) {rest : List Char} (hrest : Ends rest)
    (depth fuel : Nat) :
    readValue depth (fuel + 1) (integerChars n ++ rest) = some (integer n, rest) := by
  unfold integerChars
  split
  · rename_i hneg
    have hvalue : (if true then -(n.natAbs : Int) else n.natAbs) = n := by
      rw [if_pos rfl]
      omega
    have hread := readNumber_toDigits true n.natAbs hrest (by rwa [hvalue])
      (by omega)
    rw [hvalue] at hread
    rw [List.cons_append, readValue]
    exact hread
  · rename_i hpos
    have hvalue : (if false then -(n.natAbs : Int) else n.natAbs) = n := by
      rw [if_neg Bool.false_ne_true]
      omega
    have hread := readNumber_toDigits false n.natAbs hrest (by rwa [hvalue])
      (by simp)
    rw [hvalue] at hread
    obtain ⟨c, cs, hdigits, hc⟩ := exists_toDigits n.natAbs
    rw [hdigits, List.cons_append] at hread ⊢
    rw [readValue_of_isDigit hc, hread]

/-- A value begins with a character that is neither blank nor a closing bracket. -/
theorem exists_write (layout : Layout) (d : Nat) {depth : Nat} {value : Json}
    (h : value.Readable depth) : ∃ c cs, write layout d value = c :: cs ∧ c ≠ ']' ∧
      ∀ rest, skipBlanks (c :: rest) = c :: rest := by
  match value with
  | null => exact ⟨'n', _, rfl, by decide, fun _ ↦ rfl⟩
  | bool true => exact ⟨'t', _, rfl, by decide, fun _ ↦ rfl⟩
  | bool false => exact ⟨'f', _, rfl, by decide, fun _ ↦ rfl⟩
  | string _ => exact ⟨'"', _, rfl, by decide, fun _ ↦ rfl⟩
  | array [] | array (_ :: _) => exact ⟨'[', _, rfl, by decide, fun _ ↦ rfl⟩
  | object [] | object (_ :: _) => exact ⟨'\x7b', _, rfl, by decide, fun _ ↦ rfl⟩
  | double _ _ => cases h
  | integer n =>
    obtain ⟨c, cs, hdigits, hc⟩ := exists_toDigits n.natAbs
    by_cases hn : n < 0
    · exact ⟨'-', _, if_pos hn, by decide, fun _ ↦ rfl⟩
    · refine ⟨c, cs, (if_neg hn).trans hdigits, ?_, skipBlanks_of_isDigit hc⟩
      rintro rfl
      exact absurd hc (by decide)

theorem ends_writeItems (layout : Layout) (d : Nat) (items : List Json) {rest : List Char}
    (h : Ends rest) : Ends (writeItems layout d items ++ rest) := by
  cases items with
  | nil => exact h
  | cons item items => exact ends_cons.2 (by decide)

theorem ends_writeFields (layout : Layout) (d : Nat) (fields : List (String × Json))
    {rest : List Char} (h : Ends rest) : Ends (writeFields layout d fields ++ rest) := by
  cases fields with
  | nil => exact h
  | cons field fields => exact ends_cons.2 (by decide)

/-! ### Blanks before a token -/

theorem skipBlanks_skipBlanks (cs : List Char) : skipBlanks (skipBlanks cs) = skipBlanks cs :=
  List.dropWhile_idempotent ..

theorem readValue_skipBlanks (depth fuel : Nat) (cs : List Char) :
    readValue depth fuel (skipBlanks cs) = readValue depth fuel cs := by
  cases fuel with
  | zero => rw [readValue, readValue]
  | succ fuel => rw [readValue, skipBlanks_skipBlanks, readValue]

theorem readItems_skipBlanks (depth fuel : Nat) (cs : List Char) :
    readItems depth fuel (skipBlanks cs) = readItems depth fuel cs := by
  cases fuel with
  | zero => rw [readItems, readItems]
  | succ fuel => rw [readItems, readValue_skipBlanks, readItems]

theorem readFields_skipBlanks (depth fuel : Nat) (cs : List Char) :
    readFields depth fuel (skipBlanks cs) = readFields depth fuel cs := by
  cases fuel with
  | zero => rw [readFields, readFields]
  | succ fuel => rw [readFields, skipBlanks_skipBlanks, readFields]

/-! ### Containers -/

theorem readValue_array {depth : Nat} (hdepth : depth < maxDepth) {fuel : Nat} {c : Char}
    {cs cs' rest : List Char} {items : List Json} (hcs : skipBlanks cs = c :: cs') (hc : c ≠ ']')
    (hitems : readItems (depth + 1) fuel cs = some (items, rest)) :
    readValue depth (fuel + 1) ('[' :: cs) = some (array items, rest) := by
  change (if maxDepth ≤ depth then none else _) = _
  rw [if_neg (Nat.not_le.2 hdepth), hcs]
  split
  · rename_i heq
    exact absurd (List.cons.inj heq).1 hc
  · rw [← hcs, readItems_skipBlanks, hitems]
    rfl

theorem readValue_object {depth : Nat} (hdepth : depth < maxDepth) {fuel : Nat} {c : Char}
    {cs cs' rest : List Char} {fields : List (String × Json)} (hcs : skipBlanks cs = c :: cs')
    (hc : c ≠ '\x7d') (hfields : readFields (depth + 1) fuel cs = some (fields, rest)) :
    readValue depth (fuel + 1) ('\x7b' :: cs) = some (object fields, rest) := by
  change (if maxDepth ≤ depth then none else _) = _
  rw [if_neg (Nat.not_le.2 hdepth), hcs]
  split
  · rename_i heq
    exact absurd (List.cons.inj heq).1 hc
  · rw [← hcs, readFields_skipBlanks, hfields]
    rfl

theorem readItems_last {depth fuel : Nat} {cs after rest : List Char} {item : Json}
    (hitem : readValue depth fuel cs = some (item, after)) (hclose : skipBlanks after = ']' :: rest) :
    readItems depth (fuel + 1) cs = some ([item], rest) := by
  simp [readItems, hitem, hclose]

theorem readItems_next {depth fuel : Nat} {cs after cs' rest : List Char} {item : Json}
    {items : List Json} (hitem : readValue depth fuel cs = some (item, after))
    (hcomma : skipBlanks after = ',' :: cs')
    (hitems : readItems depth fuel cs' = some (items, rest)) :
    readItems depth (fuel + 1) cs = some (item :: items, rest) := by
  simp [readItems, hitem, hcomma, hitems]

theorem skipBlanks_quote (name : String) (after : List Char) :
    skipBlanks (quote name ++ after) = '"' :: (name.toList.flatMap escape ++ '"' :: after) := by
  simp [quote, skipBlanks]

theorem readFields_last {depth fuel : Nat} {name : String} {cs cs' after rest : List Char}
    {value : Json} (hcolon : skipBlanks cs = ':' :: cs')
    (hvalue : readValue depth fuel cs' = some (value, after))
    (hclose : skipBlanks after = '\x7d' :: rest) :
    readFields depth (fuel + 1) (quote name ++ cs) = some ([(name, value)], rest) := by
  simp [readFields, skipBlanks_quote, readText_quote, hcolon, hvalue, hclose]

theorem readFields_next {depth fuel : Nat} {name : String} {cs cs' after cs'' rest : List Char}
    {value : Json} {fields : List (String × Json)} (hcolon : skipBlanks cs = ':' :: cs')
    (hvalue : readValue depth fuel cs' = some (value, after))
    (hcomma : skipBlanks after = ',' :: cs'')
    (hfields : readFields depth fuel cs'' = some (fields, rest)) :
    readFields depth (fuel + 1) (quote name ++ cs) = some ((name, value) :: fields, rest) := by
  simp [readFields, skipBlanks_quote, readText_quote, hcolon, hvalue, hcomma, hfields]

/-- With some fuel the reader reads back what is not too long for it, be it a value, the items of an
array or the fields of an object. -/
structure Reads (layout : Layout) (fuel : Nat) : Prop where
  value : ∀ (value : Json) (depth d : Nat) (rest : List Char), value.Readable depth → Ends rest →
    2 * (write layout d value).length ≤ fuel →
      readValue depth fuel (write layout d value ++ rest) = some (value, rest)
  items : ∀ (item : Json) (items : List Json) (depth d : Nat) (close rest : List Char),
    ReadableItems depth (item :: items) → Blank close →
    2 * ((write layout d item).length + (writeItems layout d items).length) < fuel →
      readItems depth fuel
        (write layout d item ++ (writeItems layout d items ++ (close ++ ']' :: rest))) =
          some (item :: items, rest)
  fields : ∀ (name : String) (value : Json) (fields : List (String × Json)) (depth d : Nat)
    (close rest : List Char), ReadableFields depth ((name, value) :: fields) → Blank close →
    2 * ((write layout d value).length + (writeFields layout d fields).length) < fuel →
      readFields depth fuel (quote name ++ (layout.colon ++ (write layout d value ++
        (writeFields layout d fields ++ (close ++ '\x7d' :: rest))))) =
          some ((name, value) :: fields, rest)

section

variable {layout : Layout} (hlayout : layout.Plain) {fuel : Nat} (h : Reads layout fuel)

include hlayout h

theorem Reads.readValue_succ {value : Json} {depth d : Nat} {rest : List Char}
    (hvalue : value.Readable depth) (hrest : Ends rest)
    (hfuel : 2 * (write layout d value).length ≤ fuel + 1) :
    readValue depth (fuel + 1) (write layout d value ++ rest) = some (value, rest) := by
  match value with
  | null | bool true | bool false => rfl
  | string text => simp [write, quote, readValue, skipBlanks, readText_quote]
  | integer n => exact readValue_integerChars hvalue hrest depth fuel
  | double _ _ => cases hvalue
  | array [] =>
    have hopen : ¬maxDepth ≤ depth := Nat.not_le.2 hvalue.1
    simp [write, readValue, skipBlanks, hopen]
  | array (item :: items) =>
    obtain ⟨hdepth, hitems⟩ := hvalue
    obtain ⟨c, cs, hwrite, hc, hstart⟩ := exists_write layout (d + 1) hitems.1
    simp only [write, List.length_append, List.length_cons, List.length_nil] at hfuel
    have hread := h.items item items (depth + 1) (d + 1) (layout.gap d) rest hitems
      (hlayout.gap d) (by omega)
    have hopen : skipBlanks (layout.gap (d + 1) ++ (write layout (d + 1) item ++
        (writeItems layout (d + 1) items ++ (layout.gap d ++ ']' :: rest)))) =
          c :: (cs ++ (writeItems layout (d + 1) items ++ (layout.gap d ++ ']' :: rest))) := by
      rw [skipBlanks_append (hlayout.gap _), hwrite]
      exact hstart _
    rw [← readItems_skipBlanks, ← skipBlanks_append (hlayout.gap (d + 1)), readItems_skipBlanks]
      at hread
    simpa [write] using readValue_array hdepth hopen hc hread
  | object [] =>
    have hopen : ¬maxDepth ≤ depth := Nat.not_le.2 hvalue.1
    simp [write, readValue, skipBlanks, hopen]
  | object ((name, value) :: fields) =>
    obtain ⟨hdepth, hfields⟩ := hvalue
    simp only [write, List.length_append, List.length_cons, List.length_nil] at hfuel
    have hread := h.fields name value fields (depth + 1) (d + 1) (layout.gap d) rest hfields
      (hlayout.gap d) (by omega)
    have hopen : skipBlanks (layout.gap (d + 1) ++ (quote name ++ (layout.colon ++
        (write layout (d + 1) value ++ (writeFields layout (d + 1) fields ++
          (layout.gap d ++ '\x7d' :: rest)))))) =
          '"' :: (name.toList.flatMap escape ++ ['"'] ++ (layout.colon ++
            (write layout (d + 1) value ++ (writeFields layout (d + 1) fields ++
              (layout.gap d ++ '\x7d' :: rest))))) := by
      rw [skipBlanks_append (hlayout.gap _)]
      rfl
    rw [← readFields_skipBlanks, ← skipBlanks_append (hlayout.gap (d + 1)), readFields_skipBlanks]
      at hread
    simpa [write] using readValue_object hdepth hopen (by decide) hread

theorem Reads.readItems_succ {item : Json} {items : List Json} {depth d : Nat}
    {close rest : List Char} (hitems : ReadableItems depth (item :: items)) (hclose : Blank close)
    (hfuel : 2 * ((write layout d item).length + (writeItems layout d items).length) < fuel + 1) :
    readItems depth (fuel + 1)
      (write layout d item ++ (writeItems layout d items ++ (close ++ ']' :: rest))) =
        some (item :: items, rest) := by
  have hends : Ends (close ++ ']' :: rest) := ends_append hclose (ends_cons.2 (by decide))
  have hitem := h.value item depth d _ hitems.1 (ends_writeItems layout d items hends) (by omega)
  match items with
  | [] =>
    refine readItems_last hitem ?_
    rw [writeItems, List.nil_append, skipBlanks_append hclose]
    rfl
  | next :: more =>
    simp only [writeItems, List.length_append, List.length_cons] at hfuel
    have hread := h.items next more depth d close rest hitems.2 hclose (by omega)
    rw [← readItems_skipBlanks, ← skipBlanks_append (hlayout.gap d), readItems_skipBlanks] at hread
    exact readItems_next hitem (by simp [writeItems, skipBlanks]) hread

theorem Reads.readFields_succ {name : String} {value : Json} {fields : List (String × Json)}
    {depth d : Nat} {close rest : List Char} (hfields : ReadableFields depth ((name, value) :: fields))
    (hclose : Blank close)
    (hfuel : 2 * ((write layout d value).length + (writeFields layout d fields).length) < fuel + 1) :
    readFields depth (fuel + 1) (quote name ++ (layout.colon ++ (write layout d value ++
      (writeFields layout d fields ++ (close ++ '\x7d' :: rest))))) =
        some ((name, value) :: fields, rest) := by
  have hends : Ends (close ++ '\x7d' :: rest) := ends_append hclose (ends_cons.2 (by decide))
  obtain ⟨blanks, hcolon, hblanks⟩ := hlayout.colon
  have hread := h.value value depth d _ hfields.1 (ends_writeFields layout d fields hends) (by omega)
  rw [← readValue_skipBlanks, ← skipBlanks_append hblanks, readValue_skipBlanks] at hread
  have hsplit (after : List Char) : skipBlanks (layout.colon ++ after) = ':' :: (blanks ++ after) := by
    rw [hcolon]
    rfl
  match fields with
  | [] =>
    refine readFields_last (hsplit _) hread ?_
    rw [writeFields, List.nil_append, skipBlanks_append hclose]
    rfl
  | (next, value') :: more =>
    simp only [writeFields, List.length_append, List.length_cons] at hfuel
    have hmore := h.fields next value' more depth d close rest hfields.2 hclose (by omega)
    rw [← readFields_skipBlanks, ← skipBlanks_append (hlayout.gap d), readFields_skipBlanks] at hmore
    exact readFields_next (hsplit _) hread (by simp [writeFields, skipBlanks]) hmore

omit h

theorem reads (fuel : Nat) : Reads layout fuel := by
  induction fuel with
  | zero =>
    refine ⟨fun value depth d rest hvalue _ hfuel ↦ ?_, fun _ _ _ _ _ _ _ _ hfuel ↦ ?_,
      fun _ _ _ _ _ _ _ _ _ hfuel ↦ ?_⟩
    · obtain ⟨c, cs, hwrite, -⟩ := exists_write layout d hvalue
      rw [hwrite, List.length_cons] at hfuel
      omega
    all_goals omega
  | succ fuel ih =>
    exact ⟨fun _ _ _ _ ↦ ih.readValue_succ hlayout, fun _ _ _ _ _ _ ↦ ih.readItems_succ hlayout,
      fun _ _ _ _ _ _ _ ↦ ih.readFields_succ hlayout⟩

end

theorem read?_write {layout : Layout} (hlayout : layout.Plain) {value : Json}
    (h : value.Readable 0) : read? (String.ofList (write layout 0 value)) = some value := by
  have hread := (reads hlayout (2 * (write layout 0 value).length + 1)).value value 0 0 [] h ends_nil
    (by omega)
  rw [List.append_nil] at hread
  simp [read?, hread, skipBlanks]

/-- A text of a readable value holds this value. -/
theorem read?_indented {value : Json} (h : value.Readable 0) : read? value.indented = some value :=
  read?_write plain_indented h

theorem read?_compact {value : Json} (h : value.Readable 0) : read? value.compact = some value :=
  read?_write plain_compact h

end Json

end Provenance
