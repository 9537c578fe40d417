/-
LetFn/Proofs/Places.lean

Places in a text, and what they say of the byte they are the places of.

The lines of a text are its pieces when it is cut behind each newline.  Such
a piece is never empty; where the text ends with a newline, or is empty, there
is one more line, so that the end of the text lies in a line as well
(`cutBehindNewlines_iff`).

In UTF-8 no byte but that of a newline has its value (`mem_utf8EncodeChar`),
and of the bytes of a line only the very last one can be it.  So the newlines
among the bytes before a place are those of the lines before it, wherever in
its line the place is, also within a character (`LiesIn.count_newline`).

Main statement: `Line.lineAt_eq_some_iff_marks`.
-/
import LetFn.Text.Line

namespace LetFn.Text

variable {text line : List Char}
variable {pieces earlier later : List (List Char)}
variable {offset : Nat}

/-! ### Newlines and lines -/

/-- A text is a line without a newline, or such a line with its newline and
another text behind it. -/
theorem newline_induction {motive : List Char → Prop}
    (last : ∀ line, '\n' ∉ line → motive line)
    (newline : ∀ line text, '\n' ∉ line → motive text → motive (line ++ '\n' :: text))
    (text : List Char) : motive text := by
  induction hn : text.length using Nat.strongRecOn generalizing text with
  | ind n ih =>
    by_cases h : '\n' ∈ text
    · obtain ⟨line, rest, rfl, hline⟩ := List.eq_append_cons_of_mem h
      refine newline line rest hline (ih _ ?_ rest rfl)
      rw [← hn, List.length_append, List.length_cons]
      omega
    · exact last text h

theorem lines_of_not_mem (h : '\n' ∉ line) : lines line = [line] := by
  induction line with
  | nil => rfl
  | cons c line ih =>
    rw [lines, if_neg (List.ne_of_not_mem_cons h).symm, ih (List.not_mem_of_not_mem_cons h)]

theorem lines_append_newline (h : '\n' ∉ line) (text : List Char) :
    lines (line ++ '\n' :: text) = (line ++ ['\n']) :: lines text := by
  induction line with
  | nil => exact if_pos rfl
  | cons c line ih =>
    rw [List.cons_append, lines, if_neg (List.ne_of_not_mem_cons h).symm,
      ih (List.not_mem_of_not_mem_cons h)]
    rfl

/-- The line has one newline, at its end. -/
def Ended (line : List Char) : Prop := ∃ front, '\n' ∉ front ∧ line = front ++ ['\n']

theorem Ended.ne_nil (h : Ended line) : line ≠ [] := by
  obtain ⟨front, -, rfl⟩ := h
  exact List.append_ne_nil_of_right_ne_nil _ (List.cons_ne_nil _ _)

/-- Every line but the last one is ended by its newline. -/
theorem ended_of_lines (h : lines text = earlier ++ line :: later) :
    (∀ l ∈ earlier, Ended l) ∧ (later ≠ [] → Ended line) ∧ (later = [] → '\n' ∉ line) := by
  induction text using newline_induction generalizing earlier with
  | last text htext =>
    -- one line only, and it is the last
    rw [lines_of_not_mem htext] at h
    rcases List.append_eq_singleton_iff.mp h.symm with ⟨rfl, h⟩ | ⟨-, h⟩
    · obtain ⟨rfl, rfl⟩ := List.cons.inj h
      exact ⟨List.forall_mem_nil _, fun hne => absurd rfl hne, fun _ => htext⟩
    · exact absurd h (List.cons_ne_nil _ _)
  | newline front text hfront ih =>
    -- the line in question is the first one, which has its newline, or a later one
    rw [lines_append_newline hfront] at h
    rcases earlier with - | ⟨first, earlier⟩
    · obtain ⟨rfl, rfl⟩ := List.cons.inj h
      exact ⟨List.forall_mem_nil _, fun _ => ⟨front, hfront, rfl⟩,
        fun hnil => absurd hnil (lines_ne_nil text)⟩
    · obtain ⟨rfl, hlines⟩ := List.cons.inj h
      obtain ⟨hearlier, hline⟩ := ih hlines
      exact ⟨List.forall_mem_cons.mpr ⟨⟨front, hfront, rfl⟩, hearlier⟩, hline⟩

/-- An empty line is the last one. -/
theorem later_eq_nil (h : lines text = earlier ++ [] :: later) : later = [] :=
  Decidable.byContradiction fun hne => ((ended_of_lines h).2.1 hne).ne_nil rfl

/-- The last line is empty behind a newline, and where there is no other line. -/
theorem last_eq_nil_iff (h : lines text = earlier ++ [line]) :
    line = [] ↔ text = [] ∨ ['\n'] <:+ text := by
  obtain ⟨hearlier, -, hline⟩ := ended_of_lines h
  have htext : text = earlier.flatten ++ line := by
    rw [← flatten_lines text, h, List.flatten_append, List.flatten_singleton]
  constructor
  · rintro rfl
    rw [List.append_nil] at htext
    -- the line before the empty one ends with the newline of the text
    rcases List.eq_nil_or_concat earlier with rfl | ⟨before, last, rfl⟩
    · exact .inl htext
    · obtain ⟨front, -, rfl⟩ := hearlier last (by simp)
      exact .inr ⟨before.flatten ++ front, by simp [htext]⟩
  · rintro (hnil | ⟨front, hfront⟩)
    · exact (List.append_eq_nil_iff.mp (htext.symm.trans hnil)).2
    · -- the last character is a newline, and would be one of the line
      rcases List.eq_nil_or_concat line with hnil | ⟨before, c, rfl⟩
      · exact hnil
      · rw [htext, List.concat_eq_append, ← List.append_assoc] at hfront
        obtain ⟨-, hc⟩ := List.append_inj' hfront rfl
        obtain rfl : '\n' = c := List.singleton_inj.mp hc
        exact absurd (by simp) (hline rfl)

/-! ### Pieces -/

/-- The pieces of a text that is cut behind each newline. -/
inductive CutBehindNewlines : List Char → List (List Char) → Prop
  | nothing : CutBehindNewlines [] []
  /-- What stands behind the last newline is a piece of its own. -/
  | last (front : List Char) (hne : front ≠ []) (h : '\n' ∉ front) :
      CutBehindNewlines front [front]
  | newline (front rest : List Char) (others : List (List Char)) (h : '\n' ∉ front)
      (hothers : CutBehindNewlines rest others) :
      CutBehindNewlines (front ++ '\n' :: rest) ((front ++ ['\n']) :: others)

/-- The lines that are not empty. -/
def nonemptyLines (text : List Char) : List (List Char) := (lines text).filter (· ≠ [])

theorem nonemptyLines_append_newline (h : '\n' ∉ line) (text : List Char) :
    nonemptyLines (line ++ '\n' :: text) = (line ++ ['\n']) :: nonemptyLines text := by
  rw [nonemptyLines, lines_append_newline h, List.filter_cons_of_pos (by simp)]
  rfl

/-- A text has one list of pieces: its lines, but for an empty one at the end. -/
theorem cutBehindNewlines_iff : CutBehindNewlines text pieces ↔ pieces = nonemptyLines text := by
  constructor
  · -- by the pieces
    intro h
    induction h with
    | nothing => rfl
    | last front hne h =>
      rw [nonemptyLines, lines_of_not_mem h, List.filter_cons_of_pos (by simpa using hne)]
      rfl
    | newline front rest others h _ ih => rw [nonemptyLines_append_newline h, ih]
  · rintro rfl
    -- by the newlines of the text
    induction text using newline_induction with
    | last line h =>
      rw [nonemptyLines, lines_of_not_mem h]
      rcases line with - | ⟨c, line⟩
      · exact .nothing
      · exact .last _ (List.cons_ne_nil _ _) h
    | newline line text h ih =>
      rw [nonemptyLines_append_newline h]
      exact .newline line text _ h ih

theorem nonemptyLines_of_lines (h : lines text = earlier ++ line :: later) :
    nonemptyLines text = earlier ++ (line :: later).filter (· ≠ []) := by
  have hearlier : earlier.filter (· ≠ []) = earlier :=
    List.filter_eq_self.mpr fun l hl => decide_eq_true ((ended_of_lines h).1 l hl).ne_nil
  rw [nonemptyLines, h, List.filter_append, hearlier]

/-- The pieces before a line are the lines before it. -/
theorem take_nonemptyLines (h : lines text = earlier ++ line :: later) :
    (nonemptyLines text).take earlier.length = earlier := by
  rw [nonemptyLines_of_lines h, List.take_left]

/-- A line that is not empty is a piece with the same number. -/
theorem getElem?_nonemptyLines (h : lines text = earlier ++ line :: later) :
    (nonemptyLines text)[earlier.length]? = if line = [] then none else some line := by
  rw [nonemptyLines_of_lines h, List.getElem?_append_right (Nat.le_refl _), Nat.sub_self]
  split
  · next hnil =>
    subst hnil
    rw [later_eq_nil h]
    rfl
  · next hne =>
    rw [List.filter_cons_of_pos (by simpa using hne)]
    rfl

/-! ### Newlines among bytes -/

/-- The bytes of a text in UTF-8. -/
def utf8Bytes (text : List Char) : List UInt8 := text.flatMap String.utf8EncodeChar

theorem utf8Bytes_append (front rest : List Char) :
    utf8Bytes (front ++ rest) = utf8Bytes front ++ utf8Bytes rest := List.flatMap_append

theorem length_utf8Bytes (text : List Char) : (utf8Bytes text).length = byteCount text := by
  induction text with
  | nil => rfl
  | cons c text ih =>
    rw [utf8Bytes, List.flatMap_cons, List.length_append, String.length_utf8EncodeChar,
      byteCount_cons]
    exact congrArg _ ih

theorem toList_toUTF8 (content : String) :
    content.toUTF8.data.toList = utf8Bytes content.toList := by
  have h : content.toUTF8 = (String.ofList content.toList).toByteArray := by
    rw [String.ofList_toList]
    rfl
  rw [h, String.toByteArray_ofList, List.utf8Encode, List.toList_data_toByteArray, utf8Bytes]

theorem newline_eq_ofNat_iff {n : Nat} (h : n < 256) : 0x0a = UInt8.ofNat n ↔ n = 10 := by
  rw [← UInt8.toNat_inj, UInt8.toNat_ofNat_of_lt' h]
  exact eq_comm

/-- The byte of a newline is in no other character. -/
theorem mem_utf8EncodeChar {c : Char} : 0x0a ∈ String.utf8EncodeChar c ↔ c = '\n' := by
  have hc : c = '\n' ↔ c.val.toNat = 10 := Char.toNat_inj.symm
  rw [hc, String.utf8EncodeChar]
  split
  · rw [List.mem_singleton, newline_eq_ofNat_iff (by omega)]
  -- each byte of a longer character is 128 or more
  split
  · simp (disch := omega) only [List.mem_cons, List.not_mem_nil, or_false, newline_eq_ofNat_iff]
    omega
  split
  · simp (disch := omega) only [List.mem_cons, List.not_mem_nil, or_false, newline_eq_ofNat_iff]
    omega
  · simp (disch := omega) only [List.mem_cons, List.not_mem_nil, or_false, newline_eq_ofNat_iff]
    omega

theorem not_mem_utf8Bytes (h : '\n' ∉ text) : 0x0a ∉ utf8Bytes text := by
  intro hmem
  obtain ⟨c, hc, hbyte⟩ := List.mem_flatMap.mp hmem
  exact h (mem_utf8EncodeChar.mp hbyte ▸ hc)

theorem Ended.count_newline (h : Ended line) : (utf8Bytes line).count 0x0a = 1 := by
  obtain ⟨front, hfront, rfl⟩ := h
  rw [utf8Bytes_append, List.count_append, List.count_eq_zero.mpr (not_mem_utf8Bytes hfront)]
  rfl

theorem count_newline_flatten (h : ∀ l ∈ earlier, Ended l) :
    (utf8Bytes earlier.flatten).count 0x0a = earlier.length := by
  induction earlier with
  | nil => rfl
  | cons first earlier ih =>
    obtain ⟨hfirst, hearlier⟩ := List.forall_mem_cons.mp h
    rw [List.flatten_cons, utf8Bytes_append, List.count_append, hfirst.count_newline, ih hearlier,
      List.length_cons, Nat.add_comm]

namespace Line

variable {place place' : Line}

/-- The bytes of its line before a place are no newlines. -/
theorem LiesIn.not_mem_take (h : place.LiesIn 1 earlier later offset)
    (hended : later ≠ [] → Ended place.text) (hlast : later = [] → '\n' ∉ place.text) :
    0x0a ∉ (utf8Bytes place.text).take place.column := by
  -- the last line has no newline at all
  by_cases hlater : later = []
  · exact fun hmem => not_mem_utf8Bytes (hlast hlater) (List.mem_of_mem_take hmem)
  · obtain ⟨front, hfront, htext⟩ := hended hlater
    have hlt := h.column_lt hlater
    rw [htext, byteCount_append] at hlt
    -- the newline is the last byte, and that is not before the place
    have hle : place.column ≤ (utf8Bytes front).length := by
      rw [length_utf8Bytes]
      exact Nat.le_of_lt_succ hlt
    rw [htext, utf8Bytes_append, List.take_append_of_le_length hle]
    exact fun hmem => not_mem_utf8Bytes hfront (List.mem_of_mem_take hmem)

/-- There are as many newlines before a place as lines. -/
theorem LiesIn.count_newline (h : place.LiesIn 1 earlier later offset)
    (hlines : lines text = earlier ++ place.text :: later) :
    ((utf8Bytes text).take offset).count 0x0a = earlier.length := by
  obtain ⟨hearlier, hended, hlast⟩ := ended_of_lines hlines
  have hcolumn : place.column ≤ (utf8Bytes place.text).length := by
    rw [length_utf8Bytes]
    exact h.column_le
  have hoffset : offset = (utf8Bytes earlier.flatten).length + place.column := by
    rw [length_utf8Bytes, h.offset]
  rw [← flatten_lines text, hlines, List.flatten_append, List.flatten_cons, utf8Bytes_append,
    utf8Bytes_append, hoffset, List.take_length_add_append,
    List.take_append_of_le_length hcolumn, List.count_append, count_newline_flatten hearlier,
    List.count_eq_zero.mpr (h.not_mem_take hended hlast), Nat.add_zero]

/-- A place is in an empty line exactly at the end of a text that ends with a
newline, or is empty. -/
theorem LiesIn.text_eq_nil_iff (h : place.LiesIn 1 earlier later offset)
    (hlines : lines text = earlier ++ place.text :: later) :
    place.text = [] ↔ offset = byteCount text ∧ (text = [] ∨ ['\n'] <:+ text) := by
  have hoffset := h.offset
  have hcolumn := h.column_le
  have hsize : byteCount text =
      byteCount earlier.flatten + (byteCount place.text + byteCount later.flatten) := by
    rw [← byteCount_append, ← byteCount_append, ← List.flatten_cons, ← List.flatten_append,
      ← hlines, flatten_lines]
  constructor
  · -- an empty line is the last one, so nothing stands behind the place
    intro hnil
    rw [hnil] at hlines hcolumn hsize
    obtain rfl := later_eq_nil hlines
    rw [List.flatten_nil, byteCount_nil] at hsize
    rw [byteCount_nil] at hcolumn
    exact ⟨by omega, (last_eq_nil_iff hlines).mp rfl⟩
  · rintro ⟨hend, hends⟩
    -- at the end of the text there is no later line: a place in an ended line is before its end
    have hlater : later = [] := Decidable.byContradiction fun hne => by
      have := h.column_lt hne
      omega
    exact (last_eq_nil_iff (hlater ▸ hlines)).mpr hends

/-! ### Places -/

/-- The place is that of byte `offset` of a text with the given pieces. -/
structure Marks (place : Line) (content : String) (pieces : List (List Char)) (offset : Nat) :
    Prop where
  /-- There are as many lines before the line as newlines before the byte. -/
  number : place.number = (content.toUTF8.data.toList.take offset).count 0x0a + 1
  /-- The line is the piece with its number, and empty behind the last piece. -/
  text : place.text = pieces[place.number - 1]?.getD []
  /-- Behind the last piece is only the end of a text that ends with a newline,
  or is empty. -/
  behind : pieces[place.number - 1]? = none ↔
    offset = content.utf8ByteSize ∧ (content = "" ∨ ['\n'] <:+ content.toList)
  column_le : place.column ≤ byteCount place.text
  /-- Before the byte are the bytes of the pieces before the line, and the column. -/
  offset : byteCount (pieces.take (place.number - 1)).flatten + place.column = offset

variable {content : String}

theorem marks_of_lineAt? (h : lineAt? content.toList offset = some place) :
    place.Marks content (nonemptyLines content.toList) offset := by
  obtain ⟨earlier, later, hlines, hlies⟩ := locate_eq_some_iff.mp h
  have hnumber : place.number = earlier.length + 1 := hlies.number.trans (Nat.add_comm _ _)
  have hindex : place.number - 1 = earlier.length := Nat.sub_eq_of_eq_add hnumber
  have hpiece := getElem?_nonemptyLines hlines
  have hnil := hlies.text_eq_nil_iff hlines
  rw [← hindex] at hpiece
  rw [byteCount_toList, String.toList_eq_nil_iff] at hnil
  -- the number, the text, where there is no piece, and the offset
  refine ⟨?_, ?_, ?_, hlies.column_le, ?_⟩
  · rw [toList_toUTF8, hlies.count_newline hlines, hnumber]
  · rw [hpiece]
    split
    · next h => exact h
    · rfl
  · rw [hpiece, ← hnil]
    split
    · next h => exact iff_of_true rfl h
    · next h => exact iff_of_false (Option.some_ne_none _) h
  · rw [hindex, take_nonemptyLines hlines, hlies.offset]

/-- A byte has one place. -/
theorem Marks.unique (h : place.Marks content pieces offset)
    (h' : place'.Marks content pieces offset) : place = place' := by
  obtain ⟨number, text, column⟩ := place
  obtain ⟨number', text', column'⟩ := place'
  obtain rfl : number = number' := h.number.trans h'.number.symm
  obtain rfl : text = text' := h.text.trans h'.text.symm
  obtain rfl : column = column' := Nat.add_left_cancel (h.offset.trans h'.offset.symm)
  rfl

/-- **An offset and its place in the lines of a text determine each other.**  An
offset past the end has no place.  Any other one has exactly one: its number
counts the newlines among the bytes before the offset, its text is the piece with
that number when the text is cut behind each newline, and its column is what the
bytes of the pieces before that one leave of the offset. -/
theorem lineAt_eq_some_iff_marks (content : String) (offset : Nat) :
    (lineAt? content.toList offset = none ↔ content.utf8ByteSize < offset) ∧
    ∃ pieces, (∀ ps, CutBehindNewlines content.toList ps ↔ ps = pieces) ∧
      ∀ place : Line, lineAt? content.toList offset = some place ↔
        offset ≤ content.utf8ByteSize ∧ place.Marks content pieces offset := by
  have hsome : (lineAt? content.toList offset).isSome ↔ offset ≤ content.utf8ByteSize := by
    rw [isSome_lineAt?, byteCount_toList]
  refine ⟨?_, nonemptyLines content.toList, fun ps => cutBehindNewlines_iff, fun place => ?_⟩
  · rw [← Option.not_isSome_iff_eq_none, hsome, Nat.not_le]
  · constructor
    · intro h
      exact ⟨hsome.mp (Option.isSome_of_eq_some h), marks_of_lineAt? h⟩
    · rintro ⟨hle, hmarks⟩
      -- there is a place at the offset, and only one has these marks
      obtain ⟨found, hfound⟩ := Option.isSome_iff_exists.mp (hsome.mpr hle)
      rw [hfound, hmarks.unique (marks_of_lineAt? hfound)]

/-- A place within a character, behind an empty line. -/
example : lineAt? "a\n\né".toList 4 = some ⟨3, ['é'], 1⟩ := by decide

end Line

end LetFn.Text
