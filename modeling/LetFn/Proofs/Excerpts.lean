/-
LetFn/Proofs/Excerpts.lean

What a report shows of the source, and where its caret stands.

Every diagnostic of a source has a place in it, however long the source is
(`offset_le_of_mem_tokenize`), so that every report has an excerpt.  It shows
the line of the place without its indent, and the caret stands behind as many
dashes as there are bytes between the first character shown and the place.

Widths are taken to be unlimited (`alignRight`).  A formatter that caps them at
65535 draws the same as long as the place is at most 65534 bytes behind the
first character shown.

One dash is as wide as one character, and not as one byte.  So the caret
stands under the character of the place exactly if each character shown in
front of it takes one byte; where another character is in front, a blank of
another script or a stray one, the caret stands too far to the right
(`exists_caret_beside`).

Main statement: `report_of_mem_errors`.
-/
import LetFn.Diagnostic.Excerpt
import LetFn.Proofs.Diagnosis

namespace LetFn

open LetFn.Text (byteCount byteCount_append)

variable {file source : String}
variable {n : Nat} {text front rest lead tail : List Char}

/-! ### Characters and bytes -/

namespace Text

/-- The characters of the text that end at byte `n`, or before it. -/
def charsBefore : Nat → List Char → List Char
  | _, [] => []
  | n, c :: text => if c.utf8Size ≤ n then c :: charsBefore (n - c.utf8Size) text else []

theorem charsBefore_zero (text : List Char) : charsBefore 0 text = [] := by
  cases text with
  | nil => rfl
  | cons c text => exact if_neg (Nat.not_le.mpr c.utf8Size_pos)

/-- Where a character begins, the characters before it are the front of the text. -/
theorem charsBefore_byteCount (front rest : List Char) :
    charsBefore (byteCount front) (front ++ rest) = front := by
  induction front with
  | nil => exact charsBefore_zero rest
  | cons c front ih =>
    rw [List.cons_append, byteCount_cons, charsBefore, if_pos (Nat.le_add_right _ _),
      Nat.add_sub_cancel_left, ih]

theorem byteCount_charsBefore_le (n : Nat) (text : List Char) :
    byteCount (charsBefore n text) ≤ n := by
  fun_induction charsBefore n text with
  | case1 => exact Nat.zero_le _
  | case2 n c text hc ih =>
    rw [byteCount_cons]
    omega
  | case3 => exact Nat.zero_le _

theorem length_le_byteCount (text : List Char) : text.length ≤ byteCount text := by
  induction text with
  | nil => exact Nat.le_refl 0
  | cons c text ih =>
    have := c.utf8Size_pos
    rw [List.length_cons, byteCount_cons]
    omega

/-- A text has as many characters as bytes if each character takes one byte. -/
theorem length_eq_byteCount_iff :
    text.length = byteCount text ↔ ∀ c ∈ text, c.utf8Size = 1 := by
  induction text with
  | nil => exact ⟨fun _ => List.forall_mem_nil _, fun _ => rfl⟩
  | cons c text ih =>
    have := c.utf8Size_pos
    have := length_le_byteCount text
    rw [List.forall_mem_cons, ← ih, List.length_cons, byteCount_cons]
    omega

/-- Of two fronts of a text, the one with fewer bytes is a front of the other. -/
theorem exists_append_of_byteCount_le (h : front ++ rest = lead ++ tail)
    (hle : byteCount lead ≤ byteCount front) :
    ∃ mid, front = lead ++ mid ∧ tail = mid ++ rest := by
  rcases List.append_eq_append_iff.mp h with ⟨ys, rfl, rfl⟩ | ⟨mid, rfl, rfl⟩
  · rw [byteCount_append] at hle
    obtain rfl : ys = [] := eq_nil_of_byteCount (by omega)
    exact ⟨[], by rw [List.append_nil, List.append_nil], rfl⟩
  · exact ⟨mid, rfl, rfl⟩

end Text

/-! ### Places of tokens -/

/-- A character begins at the place of every token, or the source ends there. -/
theorem exists_front_of_mem_tokenize (file : String) (hsize : source.utf8ByteSize ≤ maxOffset) :
    ∀ t ∈ tokenize file source, ∃ front rest, source.toList = front ++ rest ∧
      byteCount front = t.span.start.offset := by
  obtain ⟨stop, -, -, htiled⟩ := tiled_stream file 0 source.toList
  refine List.forall_mem_append.mpr ⟨fun t ht => ?_, List.forall_mem_singleton.mpr ?_⟩
  · obtain ⟨front, rest, htext, hfront⟩ := ((htiled [] rfl).standsIn t ht).2.2.standsAt
    exact ⟨front, t.text.toList ++ rest, by rw [← List.append_assoc]; exact htext, hfront⟩
  · refine ⟨source.toList, [], (List.append_nil _).symm, ?_⟩
    rw [TokenStream.last_ofSource file hsize, Text.byteCount_toList]
    exact (saturate_of_le hsize).symm

/-! ### Excerpts -/

/-- The lines that show a text under a number, with a caret behind some dashes. -/
def drawn (number : Nat) (text : List Char) (dashes : Nat) : List String :=
  let label := Text.decimal number
  let margin := String.ofList (List.replicate (label.length + 1) ' ') ++ "|"
  [margin, label ++ " | " ++ String.ofList (Text.trimEnd text),
    margin ++ " " ++ (String.ofList (List.replicate dashes '-') ++ "^")]

theorem alignRight_of_length_one {filler : Char} {width : Nat} {mark : String}
    (h : mark.length = 1) :
    alignRight filler (width + 1) mark =
      String.ofList (List.replicate width filler) ++ mark := by
  rw [alignRight, h, Nat.add_sub_cancel]

namespace Text.Line

/-- The text of the line that an excerpt shows. -/
def shown (place : Line) : List Char := place.text.dropWhile isIndent

/-- How many bytes of what is shown stand before the place. -/
def distance (place : Line) : Nat := place.column - byteCount (place.text.takeWhile isIndent)

theorem byteCount_text (place : Line) :
    byteCount place.text = byteCount (place.text.takeWhile isIndent) + byteCount place.shown := by
  rw [shown, ← byteCount_append, List.takeWhile_append_dropWhile]

variable {place : Line} {number offset : Nat} {earlier later : List (List Char)}

/-- Where a character begins at the place, the bytes that stand before it are
those of whole characters. -/
theorem LiesIn.byteCount_charsBefore (h : place.LiesIn number earlier later offset)
    (htext : front ++ rest = (earlier ++ place.text :: later).flatten)
    (hfront : byteCount front = offset) :
    byteCount (charsBefore place.distance place.shown) = place.distance := by
  rcases Nat.eq_zero_or_pos place.distance with hzero | hpos
  · rw [hzero, charsBefore_zero, byteCount_nil]
  · have hoffset := h.offset
    have hcolumn := h.column_le
    rw [place.byteCount_text] at hcolumn
    rw [distance] at hpos
    have hsplit : front ++ rest =
        (earlier.flatten ++ place.text.takeWhile isIndent) ++ (place.shown ++ later.flatten) := by
      rw [htext, List.flatten_append, List.flatten_cons, shown]
      simp only [List.append_assoc]
      rw [← List.append_assoc (List.takeWhile _ _), List.takeWhile_append_dropWhile]
    obtain ⟨mid, rfl, hmid⟩ := exists_append_of_byteCount_le hsplit (by
      rw [byteCount_append]
      omega)
    rw [byteCount_append, byteCount_append] at hfront
    have hdistance : byteCount mid = place.distance := by
      rw [distance]
      omega
    -- the place lies in the line, so what stands before it does as well
    obtain ⟨behind, hshown, -⟩ := exists_append_of_byteCount_le hmid (by omega)
    rw [hshown, ← hdistance, charsBefore_byteCount]

end Text.Line

theorem excerpt_eq_drawn (place : Text.Line) :
    excerpt place = drawn place.number place.shown place.distance := by
  -- an indent has as many characters as bytes
  have hindent : (place.text.takeWhile isIndent).length =
      byteCount (place.text.takeWhile isIndent) := by
    refine Text.length_eq_byteCount_iff.mpr fun c hc => ?_
    have hc := List.all_eq_true.mp List.all_takeWhile c hc
    rw [isIndent, Bool.or_eq_true, beq_iff_eq, beq_iff_eq] at hc
    rcases hc with rfl | rfl <;> rfl
  rw [excerpt, drawn, alignRight_of_length_one rfl, alignRight_of_length_one rfl, hindent]
  rfl

/-! ### Reports -/

/-- There are as many dashes as characters if the characters fill the bytes,
one byte each. -/
theorem eq_length_charsBefore_iff :
    n = (Text.charsBefore n text).length ↔ byteCount (Text.charsBefore n text) = n ∧
      ∀ c ∈ Text.charsBefore n text, c.utf8Size = 1 := by
  have hle := Text.byteCount_charsBefore_le n text
  have hlength := Text.length_le_byteCount (Text.charsBefore n text)
  rw [← Text.length_eq_byteCount_iff]
  omega

/-- **Where the caret of a report stands.**  The report of a diagnostic shows
the line of its place without the spaces and tabs in front, and the caret
stands behind as many dashes as there are bytes of what is shown before the
place.  These are as many as there are characters exactly if each of these
characters takes one byte.  The width of the dashes is taken to be unlimited,
also where a formatter would cap it at 65535. -/
theorem report_of_mem_errors (path file source : String) (e : Diagnostic)
    (he : e ∈ (parseSource file source).errors) :
    ∃ (place : Text.Line) (earlier later : List (List Char)),
      Text.lines source.toList = earlier ++ place.text :: later ∧
      place.LiesIn 1 earlier later e.position.offset ∧
      e.report path source =
        e.headline :: ("-> " ++ path) :: drawn place.number place.shown place.distance ∧
      (place.distance = (Text.charsBefore place.distance place.shown).length ↔
        byteCount (Text.charsBefore place.distance place.shown) = place.distance ∧
          ∀ c ∈ Text.charsBefore place.distance place.shown, c.utf8Size = 1) ∧
      (source.utf8ByteSize < UInt32.size →
        byteCount (Text.charsBefore place.distance place.shown) = place.distance) := by
  -- the error is where a token begins, so it is in the source
  obtain ⟨t, ht, hplace, -⟩ := pointsInto_parse _ e he
  have hle : e.position.offset ≤ byteCount source.toList := by
    rw [Text.byteCount_toList, ← hplace]
    exact offset_le_of_mem_tokenize file source t ht
  obtain ⟨place, hfound⟩ := Option.isSome_iff_exists.mp (Text.isSome_lineAt?.mpr hle)
  obtain ⟨earlier, later, hlines, hlies⟩ := Text.locate_eq_some_iff.mp hfound
  refine ⟨place, earlier, later, hlines, hlies, ?_, eq_length_charsBefore_iff, fun hsize => ?_⟩
  · rw [Diagnostic.report, hfound, ← excerpt_eq_drawn]
  · -- what stands before a token are whole characters
    obtain ⟨front, rest, htext, hfront⟩ :=
      exists_front_of_mem_tokenize file (Nat.le_sub_one_of_lt hsize) t ht
    apply hlies.byteCount_charsBefore
    case htext => rw [← hlines, Text.flatten_lines, ← htext]
    case hfront => rw [hfront, hplace]

/-- A diagnostic in the second line, behind an indent. -/
theorem report_of_mem_errors_example :
    let source := "let a = 1;\n\tlet b = @;"
    let e : Diagnostic := ⟨.noExpression .illegal "@", ⟨20, "shell"⟩⟩
    e ∈ (parseSource "shell" source).errors ∧
      ∃ (place : Text.Line) (earlier later : List (List Char)),
        Text.lines source.toList = earlier ++ place.text :: later ∧
        place.LiesIn 1 earlier later e.position.offset ∧
        e.report "some/source" source =
          e.headline :: "-> some/source" :: drawn place.number place.shown place.distance ∧
        (place.distance = (Text.charsBefore place.distance place.shown).length ↔
          byteCount (Text.charsBefore place.distance place.shown) = place.distance ∧
            ∀ c ∈ Text.charsBefore place.distance place.shown, c.utf8Size = 1) ∧
        (source.utf8ByteSize < UInt32.size →
          byteCount (Text.charsBefore place.distance place.shown) = place.distance) := by
  intro source e
  have he : e ∈ (parseSource "shell" source).errors := by decide +kernel
  exact ⟨he, report_of_mem_errors "some/source" "shell" source e he⟩

/-- A caret that stands too far to the right: the blank in front of the name
takes two bytes, and there are nine dashes for eight characters. -/
theorem exists_caret_beside :
    let source := "let\u00a0a = @;"
    let e : Diagnostic := ⟨.noExpression .illegal "@", ⟨9, "shell"⟩⟩
    let place : Text.Line := ⟨1, source.toList, 9⟩
    e ∈ (parseSource "shell" source).errors ∧
      Text.lineAt? source.toList e.position.offset = some place ∧
      e.report "some/source" source =
        [e.headline, "-> some/source", "  |", "1 | let\u00a0a = @;", "  | ---------^"] ∧
      (Text.charsBefore place.distance place.shown).length = 8 := by
  decide +kernel

end LetFn
