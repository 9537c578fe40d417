/-
LetFn/Text/Line.lean

Lines of a text, and the line in which a byte offset lies.

A newline belongs to the line it ends.  Behind a final newline stands one
more line, which is empty, so that the end of a text always lies in its last
line.  An offset is located by walking the lines: it lies in the first one
that is longer than what is left of the offset, and the last line takes its
own end as well.

Main statements: the lines of a text joined are the text
(`flatten_lines`), there is a line at an offset exactly when the offset is not
past the end (`isSome_lineAt?`), and the line found is the one in which the
offset lies (`locate_eq_some_iff`).
-/
import LetFn.Text.Bytes

namespace LetFn.Text

/-- A line of a text, with a place in it. -/
structure Line where
  /-- The number of the line, counted from 1. -/
  number : Nat
  /-- The characters of the line, with the newline that ends it. -/
  text : List Char
  /-- How many bytes of the line stand before the place. -/
  column : Nat
  deriving DecidableEq, Repr

/-- The lines of a text, each with its newline; the last one has none. -/
def lines : List Char → List (List Char)
  | [] => [[]]
  | c :: text =>
    if c = '\n' then [c] :: lines text
    else
      match lines text with
      | [] => [[c]]
      | first :: later => (c :: first) :: later

/-- Finds byte `offset` in lines that are numbered from `number` on. -/
def locate (number : Nat) : List (List Char) → Nat → Option Line
  | [], _ => none
  | [last], offset => if offset ≤ byteCount last then some ⟨number, last, offset⟩ else none
  | first :: next :: later, offset =>
    if offset < byteCount first then some ⟨number, first, offset⟩
    else locate (number + 1) (next :: later) (offset - byteCount first)

/-- The line in which byte `offset` of a text lies. -/
def lineAt? (text : List Char) (offset : Nat) : Option Line :=
  locate 1 (lines text) offset

/-- Byte `offset` lies in the line of the place, and there are lines before it
and behind it.  Behind a line that is not the last one, the next one begins. -/
structure Line.LiesIn (place : Line) (number : Nat) (earlier later : List (List Char))
    (offset : Nat) : Prop where
  number : place.number = number + earlier.length
  offset : byteCount earlier.flatten + place.column = offset
  column_le : place.column ≤ byteCount place.text
  column_lt : later ≠ [] → place.column < byteCount place.text

theorem lines_ne_nil (text : List Char) : lines text ≠ [] := by
  cases text with
  | nil => simp [lines]
  | cons c text =>
    rw [lines]
    split
    · simp
    · split <;> simp

theorem flatten_lines (text : List Char) : (lines text).flatten = text := by
  induction text with
  | nil => rfl
  | cons c text ih =>
    rw [lines]
    split
    · simp [ih]
    · split
      · next h => exact absurd h (lines_ne_nil text)
      · next h => rw [h] at ih; simpa using ih

theorem isSome_locate {number offset : Nat} {texts : List (List Char)} (h : texts ≠ []) :
    (locate number texts offset).isSome ↔ offset ≤ byteCount texts.flatten := by
  fun_induction locate number texts offset with
  | case1 => exact absurd rfl h
  | case2 number last offset hle => simpa using hle
  | case3 number last offset hle => simpa using hle
  | case4 number first next later offset hlt =>
    simp only [Option.isSome_some, true_iff, List.flatten_cons, byteCount_append]
    omega
  | case5 number first next later offset hge ih =>
    rw [ih (by simp)]
    simp only [List.flatten_cons, byteCount_append]
    omega

theorem isSome_lineAt? {text : List Char} {offset : Nat} :
    (lineAt? text offset).isSome ↔ offset ≤ byteCount text := by
  rw [lineAt?, isSome_locate (lines_ne_nil text), flatten_lines]

/-- The offset lies in the line of the place that is found. -/
theorem exists_liesIn {number offset : Nat} {texts : List (List Char)} {place : Line}
    (h : locate number texts offset = some place) :
    ∃ earlier later, texts = earlier ++ place.text :: later ∧
      place.LiesIn number earlier later offset := by
  fun_induction locate number texts offset with
  | case1 => cases h
  -- in the last line, where the end of the text is a place as well
  | case2 number last offset hle =>
    cases h
    exact ⟨[], [], rfl, rfl, Nat.zero_add _, hle, fun hne => absurd rfl hne⟩
  | case3 => cases h
  | case4 number first next later offset hlt =>
    cases h
    exact ⟨[], next :: later, rfl, rfl, Nat.zero_add _, Nat.le_of_lt hlt, fun _ => hlt⟩
  | case5 number first next later offset hge ih =>
    obtain ⟨earlier, later', htexts, hplace⟩ := ih h
    -- in a later line: the first one is before it, with all of its bytes
    refine ⟨first :: earlier, later', by rw [htexts, List.cons_append], ?_, ?_,
      hplace.column_le, hplace.column_lt⟩
    · rw [hplace.number, List.length_cons, Nat.add_assoc, Nat.add_comm 1]
    · rw [List.flatten_cons, byteCount_append, Nat.add_assoc, hplace.offset]
      exact Nat.add_sub_cancel' (Nat.not_lt.mp hge)

/-- A place in whose line the offset lies is found. -/
theorem Line.LiesIn.locate_eq {number offset : Nat} {earlier later : List (List Char)}
    {place : Line} (h : place.LiesIn number earlier later offset) :
    locate number (earlier ++ place.text :: later) offset = some place := by
  obtain ⟨n, line, column⟩ := place
  induction earlier generalizing number offset with
  | nil =>
    obtain ⟨rfl, rfl, hle, hlt⟩ := h
    rw [List.nil_append, List.flatten_nil, byteCount_nil, Nat.zero_add]
    cases later with
    | nil => exact if_pos hle
    | cons next later => exact if_pos (hlt (List.cons_ne_nil _ _))
  | cons first earlier ih =>
    obtain ⟨hnumber, hoffset, hle, hlt⟩ := h
    rw [List.flatten_cons, byteCount_append, Nat.add_assoc] at hoffset
    obtain ⟨next, rest, hrest⟩ : ∃ next rest, earlier ++ line :: later = next :: rest :=
      List.exists_cons_of_ne_nil (List.append_ne_nil_of_right_ne_nil _ (List.cons_ne_nil _ _))
    -- the place is not in the first line, which ends before it
    have hfar : ¬ offset < byteCount first := by omega
    rw [List.cons_append, hrest, locate, if_neg hfar, ← hrest]
    refine ih ⟨?_, (Nat.sub_eq_of_eq_add' hoffset.symm).symm, hle, hlt⟩
    rw [hnumber, List.length_cons, Nat.add_assoc, Nat.add_comm 1]

/-- A place is found exactly if the offset lies in its line. -/
theorem locate_eq_some_iff {number offset : Nat} {texts : List (List Char)} {place : Line} :
    locate number texts offset = some place ↔
      ∃ earlier later, texts = earlier ++ place.text :: later ∧
        place.LiesIn number earlier later offset := by
  constructor
  · exact exists_liesIn
  · rintro ⟨earlier, later, rfl, h⟩
    exact h.locate_eq

end LetFn.Text
