import SatSearch.Dimacs.Reader
import Mathlib.Data.List.Induction
import Mathlib.Data.Nat.Notation

/-!
# Texts as bytes

A text is a row of lines with line feeds between them, and its bytes are its UTF-8 encoding. Cutting
the bytes at line feeds and decoding the pieces gives back the lines. Only an empty line at the end
does not show: it makes the difference between a last line that is ended by a line feed and one that
is not.
-/

namespace SatSearch

namespace Text

variable {α : Type} {mark : α → Bool} {xs : List α}

/-- The lines with line feeds between them. -/
def join (ls : List (List Char)) : List Char := ['\n'].intercalate ls

/-- A single line is joined to itself. -/
@[simp] theorem join_singleton (l : List Char) : join [l] = l := List.append_nil l

/-- A line feed goes between the first line and the others. -/
theorem join_cons (l : List Char) {ls : List (List Char)} (h : ls ≠ []) :
    join (l :: ls) = l ++ '\n' :: join ls := by
  obtain ⟨l', ls, rfl⟩ := List.exists_cons_of_ne_nil h
  rw [join, List.intercalate_cons_cons, List.append_assoc, List.singleton_append, join]

/-- What comes before the first terminator is the first line. -/
theorem lines_append_cons {b : α} (hb : mark b = true) (hxs : ∀ x ∈ xs, mark x = false)
    (ys : List α) : lines mark (xs ++ b :: ys) = xs :: lines mark ys := by
  induction xs with
  | nil => simp [lines_cons, addFront, hb]
  | cons x xs ih =>
    obtain ⟨hx, hxs⟩ := List.forall_mem_cons.mp hxs
    simp [lines_cons, addFront, hx, ih hxs]

/-- Without a terminator there is at most one line. -/
theorem lines_of_unmarked (hxs : ∀ x ∈ xs, mark x = false) :
    lines mark xs = if xs = [] then [] else [xs] := by
  induction xs with
  | nil => rfl
  | cons x xs ih =>
    obtain ⟨hx, hxs⟩ := List.forall_mem_cons.mp hxs
    cases xs <;> simp [lines_cons, addFront, hx, ih hxs]

end Text

namespace Dimacs

/-- The bytes of a text in UTF-8. -/
def encode (cs : List Char) : List UInt8 := cs.flatMap String.utf8EncodeChar

/-- Text is encoded piece by piece. -/
theorem encode_append (cs ds : List Char) : encode (cs ++ ds) = encode cs ++ encode ds :=
  List.flatMap_append

/-- Only the empty text is encoded by no bytes. -/
theorem encode_eq_nil_iff {cs : List Char} : encode cs = [] ↔ cs = [] := by
  refine ⟨fun h => ?_, fun h => h ▸ rfl⟩
  cases cs with
  | nil => rfl
  | cons c cs => exact absurd (List.append_eq_nil_iff.mp h).1 String.utf8EncodeChar_ne_nil

/-- The bytes of the text that has these characters. -/
theorem toByteArray_eq_encode (cs : List Char) :
    (String.ofList cs).toByteArray = ⟨(encode cs).toArray⟩ := by
  rw [String.toByteArray_ofList]
  exact ByteArray.ext List.data_toByteArray

/-- Bytes of a text are decoded to that text. -/
theorem decode?_encode (cs : List Char) : decode? (encode cs) = some cs := by
  rw [decode?, ← toByteArray_eq_encode, String.fromUTF8?,
    dif_pos (String.ofList cs).isValidUTF8, Option.map_some]
  exact congrArg some String.toList_ofList

/-- Only the bytes of a text are decoded to it. -/
theorem decode?_eq_some_iff {bytes : List UInt8} {cs : List Char} :
    decode? bytes = some cs ↔ bytes = encode cs := by
  refine ⟨fun h => ?_, fun h => h ▸ decode?_encode cs⟩
  obtain ⟨text, htext, rfl⟩ := Option.map_eq_some_iff.mp h
  rw [String.fromUTF8?] at htext
  split at htext
  case isFalse => cases htext
  case isTrue hvalid =>
    have hbytes : text.toByteArray = ⟨bytes.toArray⟩ := by
      rw [← Option.some.inj htext, String.fromUTF8]
    rw [← String.ofList_toList (s := text), toByteArray_eq_encode] at hbytes
    exact (List.toArray_inj (ByteArray.mk.inj hbytes)).symm

/-- A byte below 128 is the encoding of one character only. -/
theorem toNat_of_mem_utf8EncodeChar {c : Char} {b : UInt8} (hb : b.toNat < 128)
    (h : b ∈ String.utf8EncodeChar c) : c.toNat = b.toNat := by
  simp only [String.utf8EncodeChar] at h
  split at h
  · simp only [List.mem_singleton, ← UInt8.toNat_inj, UInt8.toNat_ofNat'] at h
    have hc : c.toNat = c.val.toNat := rfl
    omega
  -- All bytes of a longer encoding are at least 128.
  · exfalso
    split at h
    · simp only [List.mem_cons, List.not_mem_nil, or_false, ← UInt8.toNat_inj,
        UInt8.toNat_ofNat'] at h
      omega
    · split at h <;>
      · simp only [List.mem_cons, List.not_mem_nil, or_false, ← UInt8.toNat_inj,
          UInt8.toNat_ofNat'] at h
        omega

/-- Only the line feed is encoded with the byte that ends lines. -/
theorem lineFeed_mem_utf8EncodeChar {c : Char} (h : 10 ∈ String.utf8EncodeChar c) : c = '\n' :=
  Char.toNat_inj.mp (toNat_of_mem_utf8EncodeChar (by decide) h)

/-- A character at the end is encoded at the end. -/
theorem encode_concat (cs : List Char) (c : Char) :
    encode (cs ++ [c]) = encode cs ++ String.utf8EncodeChar c := by
  rw [encode_append]
  exact congrArg (encode cs ++ ·) (List.append_nil _)

/-- An ASCII character at the end of a line is decoded by itself. -/
theorem decode?_concat {c : Char} {b : UInt8} (hb : b.toNat < 128)
    (hc : String.utf8EncodeChar c = [b]) (bytes : List UInt8) :
    decode? (bytes ++ [b]) = (decode? bytes).map (· ++ [c]) := by
  cases hbytes : decode? bytes with
  | some cs =>
    rw [decode?_eq_some_iff.mp hbytes, ← hc, ← encode_concat, decode?_encode]
    rfl
  | none =>
    rw [Option.map_none, Option.eq_none_iff_forall_ne_some]
    intro ds hds
    rw [decode?_eq_some_iff] at hds
    cases ds using List.reverseRecOn with
    | nil => simp [encode] at hds
    | append_singleton ds d =>
      obtain ⟨init, x, hx⟩ :=
        (List.eq_nil_or_concat (String.utf8EncodeChar d)).resolve_left String.utf8EncodeChar_ne_nil
      have hsplit := hds
      rw [encode_concat, hx, List.concat_eq_append, ← List.append_assoc] at hsplit
      obtain rfl := List.singleton_inj.mp (List.append_inj' hsplit rfl).2
      -- Only one character has this byte in its encoding, so it is the last one.
      have hd : d.toNat = b.toNat := toNat_of_mem_utf8EncodeChar hb (by simp [hx])
      have hc' : c.toNat = b.toNat := toNat_of_mem_utf8EncodeChar hb (by simp [hc])
      obtain rfl := Char.toNat_inj.mp (hd.trans hc'.symm)
      rw [encode_concat, hc] at hds
      rw [decode?_eq_some_iff.mpr (List.append_cancel_right hds)] at hbytes
      cases hbytes

/-- The bytes of a text without line feeds are no line feeds. -/
theorem not_lineFeed_of_mem_encode {cs : List Char} (hcs : '\n' ∉ cs) :
    ∀ b ∈ encode cs, decide (b = 10) = false := by
  intro b hb
  obtain ⟨c, hc, hb⟩ := List.mem_flatMap.mp hb
  refine decide_eq_false ?_
  rintro rfl
  exact hcs (lineFeed_mem_utf8EncodeChar hb ▸ hc)

/-- The bytes of lines are cut into the bytes of each line. -/
theorem lines_encode_join {ls : List (List Char)} {last : List Char}
    (hls : ∀ l ∈ ls, '\n' ∉ l) (hlast : '\n' ∉ last) :
    lines (encode (Text.join (ls ++ [last]))) =
      ls.map encode ++ if last = [] then [] else [encode last] := by
  induction ls with
  | nil =>
    rw [List.nil_append, Text.join_singleton, lines,
      Text.lines_of_unmarked (not_lineFeed_of_mem_encode hlast), List.map_nil, List.nil_append]
    simp only [encode_eq_nil_iff]
  | cons l ls ih =>
    obtain ⟨hl, hls⟩ := List.forall_mem_cons.mp hls
    rw [List.cons_append, Text.join_cons l (by simp), encode_append, lines]
    refine (Text.lines_append_cons rfl (not_lineFeed_of_mem_encode hl) _).trans ?_
    exact congrArg (encode l :: ·) (ih hls)

end Dimacs

end SatSearch
