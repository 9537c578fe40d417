/-
LetFn/Proofs/Layout.lean

Layout is irrelevant: what a list of tokens is read as depends on their kinds
and texts alone, and not on where they stand.

Relocation to one and the same position makes equal lists of two that agree
in kind and text, and equal streams of these, whether they have an end of
their own or not (`relocate_ofTokens`).  So what comes of reading them is the
same once it has been relocated; and neither the canonical text of a program
nor what is wrong with a source is changed by that.

The text of a token tells its kind (`ofText?_pending`), because a lexeme is
the first one of its own text, and blanks and comments are passed over
(`scans_filler`).  So the tokens of two sources are alike exactly if both
sources lay out the same words (`LaidOut`).

Main statement: `parseTokens_layout`.
-/
import Mathlib.Data.List.Forall2
import LetFn.Proofs.Canonical
import LetFn.Proofs.LongestMatch
import LetFn.Proofs.Relocation

namespace LetFn

open LetFn.Text (byteCount byteCount_append)

variable {file file' : String}
variable {ts us : List Token}

/-! ### Tokens without their places -/

/-- The tokens are of one kind and have one text, wherever they stand. -/
def Token.Alike (t u : Token) : Prop := t.kind = u.kind ∧ t.text = u.text

/-- Takes every position to the same one. -/
def nowhere : Position → Position := fun _ => .null

theorem Token.alike_iff {t u : Token} : t.Alike u ↔ t.relocate nowhere = u.relocate nowhere := by
  simp [Token.Alike, Token.relocate, Span.relocate, nowhere]

/-- Lists of tokens agree where they are the same without their places. -/
theorem forall₂_alike_iff :
    List.Forall₂ Token.Alike ts us ↔
      ts.map (Token.relocate nowhere) = us.map (Token.relocate nowhere) := by
  rw [← List.forall₂_eq_eq_eq, List.forall₂_map_left_iff, List.forall₂_map_right_iff]
  exact ⟨fun h => h.imp fun _ _ => Token.alike_iff.mp,
    fun h => h.imp fun _ _ => Token.alike_iff.mpr⟩

/-- The end of a list is put nowhere, also if it is missing. -/
theorem relocate_lastOf (file : String) (ts : List Token) :
    (TokenStream.lastOf file ts).relocate nowhere =
      TokenStream.lastOf Position.null.file (ts.map (Token.relocate nowhere)) := by
  -- every token is moved to the same place, so the last one ends there
  have hoffset : TokenStream.endOffset (ts.map (Token.relocate nowhere)) =
      Position.null.offset := by
    rw [TokenStream.endOffset, List.getLast?_map]
    cases ts.getLast? <;> rfl
  rw [TokenStream.lastOf, TokenStream.lastOf, hoffset, List.find?_map]
  show Token.relocate nowhere ((ts.find? fun t => t.kind = .eof).getD _) =
    ((ts.find? fun t => t.kind = .eof).map _).getD _
  cases ts.find? fun t => t.kind = .eof <;> rfl

theorem relocate_ofTokens (file : String) (ts : List Token) :
    (TokenStream.ofTokens file ts).relocate nowhere =
      .ofTokens Position.null.file (ts.map (Token.relocate nowhere)) := by
  ext1
  · show (ts.takeWhile fun t => t.kind ≠ .eof).map (Token.relocate nowhere) =
      (ts.map (Token.relocate nowhere)).takeWhile fun t => t.kind ≠ .eof
    rw [List.takeWhile_map]
    rfl
  · exact relocate_lastOf file ts

/-! ### Programs without their places -/

/-- The programs are the same without the places of their nodes and tokens,
have the same canonical text, and the same is wrong with their sources, in
the same order. -/
structure Parsed.Alike (p q : Parsed) : Prop where
  program : p.program.map (Origin.relocate nowhere) = q.program.map (Origin.relocate nowhere)
  render : p.program.render = q.program.render
  causes : p.errors.map (·.cause) = q.errors.map (·.cause)

theorem parsed_alike_of_relocate {s t : TokenStream} (h : s.relocate nowhere = t.relocate nowhere) :
    (parse s).Alike (parse t) := by
  have key : parse (s.relocate nowhere) = parse (t.relocate nowhere) := congrArg parse h
  rw [parse_relocate, parse_relocate, Parsed.mk.injEq] at key
  obtain ⟨hprogram, herrors⟩ := key
  refine ⟨hprogram, ?_, ?_⟩
  · -- the canonical text does not depend on where the nodes come from
    rw [← Program.render_map (Origin.relocate nowhere), hprogram, Program.render_map]
  · have hcauses := congrArg (List.map (·.cause)) herrors
    rwa [List.map_map, List.map_map] at hcauses

/-! ### Sources -/

/-- The kind of the token that a text begins with. -/
def Kind.ofText? (text : String) : Option Kind :=
  match text.toList with
  | [] => none
  | c :: cs => (Lexeme.first c cs).tokenKind?

/-- The text of a lexeme is such a lexeme on its own. -/
theorem ofText?_first (c : Char) (text : List Char) :
    Kind.ofText? (String.ofList (Lexeme.first c text).text) =
      (Lexeme.first c text).tokenKind? := by
  have halone := (Lexeme.heads_first c text).alone
  obtain ⟨x, xs, hcons⟩ := List.exists_cons_of_ne_nil (Lexeme.text_first_ne_nil c text)
  rw [hcons] at halone
  rw [Kind.ofText?, String.toList_ofList, hcons]
  exact congrArg Lexeme.tokenKind? (Lexeme.heads_iff.mp halone)

/-- The text of a token of a source tells its kind. -/
theorem ofText?_pending (file source : String) :
    ∀ t ∈ (TokenStream.ofSource file source).pending, Kind.ofText? t.text = some t.kind := by
  apply Cursor.stream_induction
    (motive := fun _ _ ts _ => ∀ t ∈ ts, Kind.ofText? t.text = some t.kind)
  case ended => exact fun _ => List.forall_mem_nil _
  case silent => exact fun _ _ _ h => h
  case token => exact fun _ _ hk h => List.forall_mem_cons.mpr ⟨(ofText?_first _ _).trans hk, h⟩

/-- Where texts tell the kinds, tokens of the same texts are alike. -/
theorem forall₂_alike_of_texts (hts : ∀ t ∈ ts, Kind.ofText? t.text = some t.kind)
    (hus : ∀ u ∈ us, Kind.ofText? u.text = some u.kind)
    (h : ts.map (·.text) = us.map (·.text)) : List.Forall₂ Token.Alike ts us := by
  induction ts generalizing us with
  | nil =>
    obtain rfl := List.map_eq_nil_iff.mp h.symm
    exact .nil
  | cons t ts ih =>
    obtain ⟨u, us, rfl, htext, hrest⟩ := List.map_eq_cons_iff.mp h.symm
    obtain ⟨ht, hts⟩ := List.forall_mem_cons.mp hts
    obtain ⟨hu, hus⟩ := List.forall_mem_cons.mp hus
    replace htext : u.text = t.text := htext
    -- the one text tells the kind of both tokens
    rw [htext, ht] at hu
    exact .cons ⟨Option.some.inj hu, htext.symm⟩ (ih hts hus hrest.symm)

theorem text_last_ofSource (file source : String) :
    (TokenStream.ofSource file source).last.text = "EOF" := by
  obtain ⟨stop, -, hlast, -⟩ := tiled_stream file 0 source.toList
  exact congrArg Token.text hlast

/-- Tokens of two sources are alike exactly where their texts are the same. -/
theorem tokenize_alike_iff {source source' : String} :
    List.Forall₂ Token.Alike (tokenize file source) (tokenize file' source') ↔
      (TokenStream.ofSource file source).pending.map (·.text) =
        (TokenStream.ofSource file' source').pending.map (·.text) := by
  let s := TokenStream.ofSource file source
  let s' := TokenStream.ofSource file' source'
  constructor
  · intro h
    -- the texts of all tokens agree, and both ends are one token
    have htexts : List.Forall₂ (· = ·) (s.toList.map (·.text)) (s'.toList.map (·.text)) :=
      List.rel_map (fun t u h => h.2) h
    rw [List.forall₂_eq_eq_eq, TokenStream.toList, TokenStream.toList, List.map_append,
      List.map_append] at htexts
    exact (List.append_inj' htexts rfl).1
  · intro h
    -- the ends are alike, whatever the sources
    have hlast : s.last.Alike s'.last :=
      ⟨s.kind_last.trans s'.kind_last.symm,
        (text_last_ofSource file source).trans (text_last_ofSource file' source').symm⟩
    refine List.rel_append (forall₂_alike_of_texts ?_ ?_ h) (.cons hlast .nil)
    · exact ofText?_pending file source
    · exact ofText?_pending file' source'

/-! ### Layouts -/

/-- The text is made of the words, one behind the other, with blanks and
comments around them.  Each word makes a token, and is not part of a longer
one. -/
inductive LaidOut : List String → List Char → Prop
  | done {gap : List Char} : IsFiller [] gap → LaidOut [] gap
  | word {gap xs rest : List Char} {x : Char} {k : Kind} {words : List String} :
      IsFiller (x :: xs ++ rest) gap → (Lexeme.first x (xs ++ rest)).text = x :: xs →
      (Lexeme.first x (xs ++ rest)).tokenKind? = some k → LaidOut words rest →
      LaidOut (String.ofList (x :: xs) :: words) (gap ++ (x :: xs ++ rest))

variable {gap rest text : List Char} {words : List String}

theorem scans_filler (h : IsFiller rest gap) : Scans gap rest (· = []) := by
  induction h with
  | nil => exact .nil rfl
  | blank hc _ ih => exact scans_blank hc ih
  | comment hline hrest _ ih => exact scans_comment hline hrest ih

/-- The words of a layout are the texts of its tokens. -/
theorem LaidOut.scans (h : LaidOut words text) :
    Scans text [] fun ts => ts.map (·.text) = words := by
  induction h with
  | done hgap =>
    refine (scans_filler hgap).imp ?_
    rintro _ rfl
    rfl
  | @word gap xs rest x k words hgap htext hk _ ih =>
    have hl : Lexeme.first x (xs ++ rest) = ⟨(Lexeme.first x (xs ++ rest)).kind, x :: xs⟩ := by
      rw [← htext]
    rw [hl] at hk
    -- the word makes its token
    have hword : Scans (x :: xs) (rest ++ []) (IsToken k (x :: xs)) := by
      rw [List.append_nil]
      exact scans_lexeme hl hk
    -- and the gap before it makes none
    have hbefore : Scans gap (x :: xs ++ rest ++ []) (· = []) := by
      rw [List.append_nil]
      exact scans_filler hgap
    apply hbefore.append
    rintro _ rfl
    refine hword.token fun t _ ht => ih.imp fun ts hts => ?_
    show t.text :: ts.map (·.text) = _
    rw [ht, hts]

/-- A lexeme that makes no token is part of the first gap. -/
theorem LaidOut.silent {x : Char} {xs : List Char}
    (hk : (Lexeme.first x xs).tokenKind? = none)
    (hrest : x :: xs = (Lexeme.first x xs).text ++ rest) (h : LaidOut words rest) :
    LaidOut words (x :: xs) := by
  rw [hrest]
  -- the first gap becomes longer by the lexeme
  cases h with
  | done hgap => exact .done (hgap.lexeme hk (by rwa [List.append_nil]))
  | word hgap htext hkind hlater =>
    rw [← List.append_assoc]
    exact .word (hgap.lexeme hk hrest) htext hkind hlater

/-- A lexeme that makes a token is the first word, with no gap before it. -/
theorem LaidOut.lexeme {x : Char} {xs : List Char} {k : Kind}
    (hk : (Lexeme.first x xs).tokenKind? = some k)
    (hrest : x :: xs = (Lexeme.first x xs).text ++ rest) (h : LaidOut words rest) :
    LaidOut (String.ofList (Lexeme.first x xs).text :: words) (x :: xs) := by
  obtain ⟨y, ys, htext⟩ := List.exists_cons_of_ne_nil (Lexeme.text_first_ne_nil x xs)
  rw [htext] at hrest ⊢
  obtain ⟨rfl, rfl⟩ := List.cons.inj hrest
  exact .word .nil htext hk h

/-- Every text is a layout of the texts of its tokens. -/
theorem laidOut_stream (file : String) (offset : Nat) (text : List Char) :
    offset + byteCount text ≤ maxOffset →
      LaidOut ((Cursor.stream ⟨file, offset, text⟩).pending.map (·.text)) text := by
  -- lexeme by lexeme: a blank or comment goes to the gap, a token is the next word
  apply Cursor.stream_induction (motive := fun offset text ts _ =>
    offset + byteCount text ≤ maxOffset → LaidOut (ts.map (·.text)) text)
  case ended =>
    rintro offset text (rfl | hlt) hle
    · exact .done .nil
    · omega
  case silent =>
    rintro offset x xs rest ts last hrest - hk h hle
    rw [byteCount_first hrest, ← Nat.add_assoc] at hle
    exact .silent hk hrest (h hle)
  case token =>
    rintro offset x xs rest ts last kind hrest - hk h hle
    rw [byteCount_first hrest, ← Nat.add_assoc] at hle
    exact .lexeme hk hrest (h hle)

theorem laidOut_ofSource (file : String) {source : String}
    (hsize : source.utf8ByteSize ≤ maxOffset) :
    LaidOut ((TokenStream.ofSource file source).pending.map (·.text)) source.toList := by
  apply laidOut_stream file 0
  rwa [Nat.zero_add, Text.byteCount_toList]

/-- Two sources have tokens that are alike exactly if they lay out the same words. -/
theorem tokenize_alike_iff_laidOut {source source' : String}
    (hsize : source.utf8ByteSize ≤ maxOffset) (hsize' : source'.utf8ByteSize ≤ maxOffset) :
    List.Forall₂ Token.Alike (tokenize file source) (tokenize file' source') ↔
      ∃ words, LaidOut words source.toList ∧ LaidOut words source'.toList := by
  rw [tokenize_alike_iff]
  constructor
  · -- the words are the texts of the tokens
    intro h
    exact ⟨_, laidOut_ofSource file hsize, h ▸ laidOut_ofSource file' hsize'⟩
  · rintro ⟨words, h, h'⟩
    rw [h.scans.ofSource file hsize, h'.scans.ofSource file' hsize']

/-- **Layout is irrelevant.**  Lists of tokens that agree in kind and text are
read alike, wherever their tokens stand, whether they have an end of their own
or not, and whatever name stands for a missing one.  The tokens of two sources
agree exactly if the sources differ in nothing but the blanks and comments
around the same words. -/
theorem parseTokens_layout (file file' : String) :
    (∀ ts us, List.Forall₂ Token.Alike ts us →
      (parseTokens file ts).Alike (parseTokens file' us)) ∧
    ∀ name name' source source', source.utf8ByteSize < UInt32.size →
      source'.utf8ByteSize < UInt32.size →
      (List.Forall₂ Token.Alike (tokenize name source) (tokenize name' source') ↔
        ∃ words, LaidOut words source.toList ∧ LaidOut words source'.toList) := by
  constructor
  · intro ts us h
    apply parsed_alike_of_relocate
    rw [relocate_ofTokens, relocate_ofTokens, forall₂_alike_iff.mp h]
  · intro name name' source source' hsize hsize'
    exact tokenize_alike_iff_laidOut (Nat.le_sub_one_of_lt hsize) (Nat.le_sub_one_of_lt hsize')

/-- A broken source in two layouts, whose last statement is read; the lists have
no end of their own. -/
theorem parseTokens_layout_example :
    let source := "let = 1; x + (y; z * 2"
    let source' := "let  =1 ; // no name\n x+(\ty;z*2 //"
    let ts := (TokenStream.ofSource "shell" source).pending
    let us := (TokenStream.ofSource "script" source').pending
    (∃ words, LaidOut words source.toList ∧ LaidOut words source'.toList) ∧
      List.Forall₂ Token.Alike ts us ∧ ts ≠ us ∧ (parseTokens "left" ts).errors.length = 2 ∧
      (parseTokens "left" ts).program.render = "(z * 2);" ∧
      (parseTokens "left" ts).Alike (parseTokens "right" us) := by
  intro source source' ts us
  obtain ⟨hread, hsources⟩ := parseTokens_layout "left" "right"
  have hlists : List.Forall₂ Token.Alike ts us := forall₂_alike_iff.mpr (by decide +kernel)
  have hwords := (hsources "shell" "script" source source' (by decide +kernel)
    (by decide +kernel)).mp (forall₂_alike_iff.mpr (by decide +kernel))
  exact ⟨hwords, hlists, by decide +kernel, by decide +kernel, by decide +kernel,
    hread ts us hlists⟩

end LetFn
