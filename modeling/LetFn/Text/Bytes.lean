/-
LetFn/Text/Bytes.lean

Offsets into a text count the bytes of its UTF-8 form, while the text itself
is handled character by character.  `byteCount` measures a stretch of
characters, and `dropBytes?` goes the other way: it finds the characters
from a byte on, if a character begins there.

Main statement: `dropBytes? n text` is the rest of `text` behind a front of
exactly `n` bytes, whenever there is such a front (`dropBytes?_eq_some_iff`).
-/
namespace LetFn.Text

/-- How many bytes the characters take in UTF-8. -/
def byteCount : List Char → Nat
  | [] => 0
  | c :: text => c.utf8Size + byteCount text

@[simp] theorem byteCount_nil : byteCount [] = 0 := rfl

@[simp] theorem byteCount_cons (c : Char) (text : List Char) :
    byteCount (c :: text) = c.utf8Size + byteCount text := rfl

@[simp] theorem byteCount_append (front rest : List Char) :
    byteCount (front ++ rest) = byteCount front + byteCount rest := by
  induction front with
  | nil => simp
  | cons c front ih => rw [List.cons_append, byteCount_cons, byteCount_cons, ih, Nat.add_assoc]

/-- A string is as long as its characters. -/
theorem utf8ByteSize_ofList (text : List Char) :
    (String.ofList text).utf8ByteSize = byteCount text := by
  induction text with
  | nil => rfl
  | cons c text ih =>
    rw [← List.singleton_append, String.ofList_append, String.utf8ByteSize_append, ih]
    simp

theorem byteCount_toList (text : String) : byteCount text.toList = text.utf8ByteSize := by
  rw [← utf8ByteSize_ofList, String.ofList_toList]

/-- The characters behind the first `n` bytes; nothing where byte `n` lies
past the end or inside a character. -/
def dropBytes? : Nat → List Char → Option (List Char)
  | 0, text => some text
  | _ + 1, [] => none
  | n + 1, c :: text => if c.utf8Size ≤ n + 1 then dropBytes? (n + 1 - c.utf8Size) text else none

theorem dropBytes?_byteCount (front rest : List Char) :
    dropBytes? (byteCount front) (front ++ rest) = some rest := by
  induction front with
  | nil => simp [dropBytes?]
  | cons c front ih =>
    obtain ⟨k, hk⟩ : ∃ k, c.utf8Size + byteCount front = k + 1 :=
      ⟨_, (Nat.succ_pred_eq_of_pos (Nat.add_pos_left c.utf8Size_pos _)).symm⟩
    have hle : c.utf8Size ≤ k + 1 := by omega
    have hsub : k + 1 - c.utf8Size = byteCount front := by omega
    rw [byteCount_cons, hk, List.cons_append, dropBytes?, if_pos hle, hsub, ih]

theorem dropBytes?_eq_some_iff {n : Nat} {text rest : List Char} :
    dropBytes? n text = some rest ↔ ∃ front, text = front ++ rest ∧ byteCount front = n := by
  constructor
  · intro h
    fun_induction dropBytes? n text with
    | case1 text => exact ⟨[], by simpa using h, rfl⟩
    | case2 => simp at h
    | case3 n c text hc ih =>
      obtain ⟨front, rfl, hn⟩ := ih h
      exact ⟨c :: front, rfl, by rw [byteCount_cons]; omega⟩
    | case4 => simp at h
  · rintro ⟨front, rfl, rfl⟩
    exact dropBytes?_byteCount front rest

end LetFn.Text
