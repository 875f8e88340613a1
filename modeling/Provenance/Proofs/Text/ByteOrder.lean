/-!
# The order of texts as bytes

A text is determined by its UTF-8 bytes (`bytes_injective`). Texts are compared by their characters.
This is the order of their bytes: of two characters the lesser has the lesser byte where their
encodings first differ (`utf8EncodeChar_append_lt`), and so has the lesser of two texts
(`bytes_lt_bytes`) and of two sequences of texts (`map_bytes_lt_map_bytes`).
-/

namespace Provenance.Text

/-- The UTF-8 bytes of a text. -/
def bytes (text : String) : List UInt8 :=
  text.toUTF8.data.toList

theorem bytes_eq_flatMap (text : String) :
    bytes text = text.toList.flatMap String.utf8EncodeChar := by
  have htext : text.toUTF8 = (text.toList.flatMap String.utf8EncodeChar).toByteArray := by
    rw [← List.utf8Encode, ← String.toByteArray_ofList, String.ofList_toList]
    rfl
  rw [bytes, htext, List.toList_data_toByteArray]

theorem loop_toList_eq (content : ByteArray) (i : Nat) (before : List UInt8) :
    ByteArray.toList.loop content i before = before.reverse ++ content.data.toList.drop i := by
  fun_induction ByteArray.toList.loop content i before with
  | case1 i before hi ih =>
    have hlength : i < content.data.toList.length := hi
    have hget : content.get! i = content.data.toList[i] := getElem!_pos content.data i hi
    rw [ih, List.drop_eq_getElem_cons hlength, hget]
    simp
  | case2 i before hi => rw [List.drop_of_length_le (Nat.not_lt.1 hi), List.append_nil]

theorem toList_toUTF8 (text : String) : text.toUTF8.toList = bytes text :=
  loop_toList_eq ..

theorem bytes_injective {a b : String} (h : bytes a = bytes b) : a = b := by
  have hdata : a.toUTF8 = b.toUTF8 := ByteArray.ext (Array.toList_inj.1 h)
  rwa [String.toUTF8_eq_toByteArray, String.toUTF8_eq_toByteArray, String.toByteArray_inj] at hdata

/-- Whatever follows two characters, their bytes stand in the order of the characters. -/
theorem utf8EncodeChar_append_lt {c d : Char} (h : c < d) (s t : List UInt8) :
    String.utf8EncodeChar c ++ s < String.utf8EncodeChar d ++ t := by
  have hlt : c.val.toNat < d.val.toNat := h
  have hbound : d.val.toNat < 1114112 := by
    rcases d.valid with hd | hd <;> omega
  unfold String.utf8EncodeChar
  generalize c.val.toNat = v at *
  generalize d.val.toNat = w at *
  -- no byte is cut off
  have hlead (n : Nat) : (n % 32 + 192) % 2 ^ 8 = n % 32 + 192 ∧
      (n % 16 + 224) % 2 ^ 8 = n % 16 + 224 ∧ (n % 8 + 240) % 2 ^ 8 = n % 8 + 240 := by omega
  have hrest (n : Nat) : (n % 64 + 128) % 2 ^ 8 = n % 64 + 128 := by omega
  -- the digits to base 64 of two numbers with four digits each: the first that differ decide
  have hv : v / 262144 % 8 = v / 262144 := Nat.mod_eq_of_lt (by omega)
  have hw : w / 262144 % 8 = w / 262144 := Nat.mod_eq_of_lt (by omega)
  have hfirst : v / 262144 < w / 262144 ∨ v / 262144 = w / 262144 ∧ v % 262144 < w % 262144 := by
    omega
  have hsecond : v % 262144 < w % 262144 → v / 4096 % 64 < w / 4096 % 64 ∨
      v / 4096 % 64 = w / 4096 % 64 ∧ v % 4096 < w % 4096 := by omega
  have hthird : v % 4096 < w % 4096 → v / 64 % 64 < w / 64 % 64 ∨
      v / 64 % 64 = w / 64 % 64 ∧ v % 64 < w % 64 := by omega
  -- the lengths of the encodings are those of the ranges that the characters lie in
  dsimp only
  split <;> split <;> (try split) <;> (try split) <;> (try split) <;> (try split) <;>
    simp only [List.cons_append, List.nil_append, List.cons_lt_cons_iff, UInt8.lt_iff_toNat_lt,
      ← UInt8.toNat_inj, UInt8.toNat_ofNat', hlead, hrest] <;>
    omega

theorem bytes_lt_bytes {a b : String} (h : a < b) : bytes a < bytes b := by
  rw [bytes_eq_flatMap, bytes_eq_flatMap]
  have hchars : a.toList < b.toList := h
  generalize a.toList = cs at hchars
  generalize b.toList = ds at hchars
  induction cs generalizing ds with
  | nil =>
    cases ds with
    | nil => exact absurd hchars (List.lt_irrefl _)
    | cons d ds =>
      obtain ⟨first, rest, hd⟩ := List.exists_cons_of_ne_nil (String.utf8EncodeChar_ne_nil (c := d))
      rw [List.flatMap_nil, List.flatMap_cons, hd]
      exact List.nil_lt_cons ..
  | cons c cs ih =>
    cases ds with
    | nil => exact absurd hchars (List.not_lt_nil _)
    | cons d ds =>
      rw [List.flatMap_cons, List.flatMap_cons]
      rcases List.cons_lt_cons_iff.1 hchars with hlt | ⟨rfl, hlt⟩
      · exact utf8EncodeChar_append_lt hlt _ _
      · exact List.append_left_lt (ih ds hlt)

theorem map_bytes_lt_map_bytes {xs ys : List String} (h : xs < ys) :
    xs.map bytes < ys.map bytes := by
  induction xs generalizing ys with
  | nil =>
    cases ys with
    | nil => exact absurd h (List.lt_irrefl _)
    | cons y ys => exact List.nil_lt_cons ..
  | cons x xs ih =>
    cases ys with
    | nil => exact absurd h (List.not_lt_nil _)
    | cons y ys =>
      refine List.cons_lt_cons_iff.2 ((List.cons_lt_cons_iff.1 h).imp bytes_lt_bytes ?_)
      exact And.imp (congrArg bytes) ih

end Provenance.Text
