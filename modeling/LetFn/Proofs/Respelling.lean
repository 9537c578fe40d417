/-
LetFn/Proofs/Respelling.lean

The texts of the tokens of a source, put down again with a space between any
two of them, are read as the same tokens.

Each token was found in a place of its own: `12abc` makes two, and `= =` is
not `==`.  But the first lexeme of a text is also the first lexeme of its own
characters (`Lexeme.Heads.alone`), and it does not go on over a space unless
it is a run of blanks or a comment, of which no token is made.  So every token
stands alone (`alone_ofSource`), and a row of such texts is laid out as these
very words (`laidOut_intercalate`).

Main statement: `tokenize_spaced`.
-/
import LetFn.Proofs.Layout
import LetFn.Proofs.LongestMatch

namespace LetFn

variable {t : Token} {ts : List Token}
variable {words : List String} {rest : List Char}

/-! ### Tokens that stand alone -/

/-- The text of the token is a lexeme by itself, of which such a token is made. -/
def Token.StandsAlone (t : Token) : Prop :=
  ∃ l : Lexeme, l.Heads t.text.toList ∧ l.text = t.text.toList ∧ l.tokenKind? = some t.kind

/-- Every token of a source stands alone. -/
theorem standsAlone_ofSource (file source : String) :
    ∀ t ∈ (TokenStream.ofSource file source).pending, t.StandsAlone := by
  apply Cursor.stream_induction (motive := fun _ _ ts _ => ∀ t ∈ ts, t.StandsAlone)
  case ended => exact fun _ => List.forall_mem_nil _
  case silent => exact fun _ _ _ h => h
  case token =>
    intro offset x xs rest ts last kind _ _ hk h
    -- what a lexeme is with something behind it, it is by itself
    refine List.forall_mem_cons.mpr ⟨⟨Lexeme.first x xs, ?_, ?_, hk⟩, h⟩
    · show (Lexeme.first x xs).Heads (String.ofList (Lexeme.first x xs).text).toList
      rw [String.toList_ofList]
      exact (Lexeme.heads_first x xs).alone
    · exact String.toList_ofList.symm

/-! ### Rows of words -/

/-- A space in front of a layout belongs to the gap before the first word. -/
theorem LaidOut.space (h : LaidOut words rest) : LaidOut words (' ' :: rest) := by
  cases h with
  | done hgap => exact .done (.blank rfl hgap)
  | word hgap htext hk hlater => exact .word (.blank rfl hgap) htext hk hlater

/-- A token that stands alone is a word where nothing follows it, or a space. -/
theorem Token.StandsAlone.laidOut (h : t.StandsAlone) (hrest : ∀ c ∈ rest.head?, c = ' ')
    (hlater : LaidOut words rest) : LaidOut (t.text :: words) (t.text.toList ++ rest) := by
  obtain ⟨l, hheads, htext, hk⟩ := h
  have hne := hheads.ne_nil
  rw [← htext, ← List.append_nil l.text] at hheads
  -- what follows is a space, and that keeps apart whatever makes a token
  have hword : l.Heads (l.text ++ rest) := by
    refine hheads.congr fun c hc => .inl ?_
    obtain rfl := hrest c hc
    exact hheads.apartFrom_of_token hk (.inl rfl)
  obtain ⟨x, xs, hcons⟩ := List.exists_cons_of_ne_nil hne
  rw [htext, hcons, List.cons_append] at hword
  have hfirst := Lexeme.heads_iff.mp hword
  have hlaid : LaidOut (String.ofList (x :: xs) :: words) ([] ++ (x :: xs ++ rest)) :=
    .word .nil (by rw [hfirst, htext, hcons]) (by rw [hfirst, hk]) hlater
  rwa [List.nil_append, ← hcons, String.ofList_toList] at hlaid

/-- Tokens that stand alone are laid out by their texts with spaces between them. -/
theorem laidOut_intercalate (h : ∀ t ∈ ts, t.StandsAlone) :
    LaidOut (ts.map (·.text)) (" ".intercalate (ts.map (·.text))).toList := by
  induction ts with
  | nil => exact .done .nil
  | cons t ts ih =>
    obtain ⟨ht, hts⟩ := List.forall_mem_cons.mp h
    rcases ts with - | ⟨u, us⟩
    · -- the last word
      have hlaid : LaidOut [t.text] (t.text.toList ++ []) :=
        ht.laidOut (fun _ hc => by cases hc) (.done .nil)
      rwa [List.append_nil] at hlaid
    · have htext : (" ".intercalate ((t :: u :: us).map (·.text))).toList =
          t.text.toList ++ ' ' :: (" ".intercalate ((u :: us).map (·.text))).toList :=
        toList_intercalate_cons_cons " " t.text u.text _
      rw [htext]
      exact ht.laidOut (fun c hc => (Option.some.inj hc).symm) (ih hts).space

/-! ### Sources -/

/-- The texts of the tokens before the end, with a space between any two. -/
def spaced (ts : List Token) : String :=
  " ".intercalate ((ts.filter fun t => t.kind ≠ .eof).map (·.text))

/-- **Token spellings read back.**  The texts of the tokens of a source, with
a space between any two of them, are read as tokens of the same kinds with the
same texts, in the same order, and then comes the end. -/
theorem tokenize_spaced (file file' source : String)
    (hsize : (spaced (tokenize file source)).utf8ByteSize < UInt32.size) :
    ∃ ts, tokenize file' (spaced (tokenize file source)) =
        ts ++ [.eof (.ofByte file' (spaced (tokenize file source)).utf8ByteSize)] ∧
      List.Forall₂ Token.Alike ((tokenize file source).filter fun t => t.kind ≠ .eof) ts := by
  have hle := Nat.le_sub_one_of_lt hsize
  have hpending : ((tokenize file source).filter fun t => t.kind ≠ .eof) =
      (TokenStream.ofSource file source).pending := TokenStream.filter_toList _
  -- the words are laid out, so they are what the text is scanned into
  have hlaid := laidOut_intercalate (standsAlone_ofSource file source)
  rw [← hpending] at hlaid
  have htexts := hlaid.scans.ofSource file' hle
  refine ⟨(TokenStream.ofSource file' (spaced (tokenize file source))).pending, ?_, ?_⟩
  · rw [← TokenStream.last_ofSource file' hle]
    rfl
  · -- on either side kind and text of a token tell each other
    apply forall₂_alike_of_texts
    case hts =>
      rw [hpending]
      exact ofText?_pending file source
    case hus => exact ofText?_pending file' _
    case h => exact htexts.symm

/-- Tokens that stood close together, with stray characters among them. -/
theorem tokenize_spaced_example :
    let source := "12abc=/ /é!=@// no token"
    (spaced (tokenize "shell" source)).utf8ByteSize < UInt32.size ∧
      spaced (tokenize "shell" source) = "12 abc = / / é != @" ∧
      ∃ ts, tokenize "words" (spaced (tokenize "shell" source)) =
          ts ++ [.eof (.ofByte "words" (spaced (tokenize "shell" source)).utf8ByteSize)] ∧
        List.Forall₂ Token.Alike
          ((tokenize "shell" source).filter fun t => t.kind ≠ .eof) ts := by
  intro source
  have hsize : (spaced (tokenize "shell" source)).utf8ByteSize < UInt32.size := by
    decide +kernel
  exact ⟨hsize, by decide +kernel, tokenize_spaced "shell" "words" source hsize⟩

end LetFn
