/-
LetFn/Proofs/Braces.lean

Counting braces.

`Leads d ts e` says that `ts` open and close braces in such a way that of `d`
open ones `e` are left, and never close one that is not open.  Tokens are
balanced if they lead from nothing open to nothing open; `balanced_iff` says
so in terms of prefixes and totals.

A reader who has come from `r` to `s` has passed the tokens in between.
`Reaches r k s` says that they leave `k` braces open; at the end of the
source that number does not matter any more, as nothing is left to close
them.

Main statement: within the braces of a block whose content is balanced, a
reader with no brace left open stops in front of no closing brace but that
of the block itself (`Leads.stops`).
-/
import Mathlib.Data.List.Infix
import LetFn.Proofs.Reading

namespace LetFn

/-! ### Braces left open -/

/-- Does a token of this kind open or close a brace? -/
def Kind.isBrace : Kind → Bool
  | openCurly | closeCurly => true
  | _ => false

theorem Kind.isBrace_eq_false_iff {kind : Kind} :
    kind.isBrace = false ↔ kind ≠ openCurly ∧ kind ≠ closeCurly := by
  cases kind <;> simp [isBrace]

/-- No brace continues an expression. -/
theorem Kind.isBrace_eq_false_of_lt {kind : Kind} (h : Precedence.lowest < kind.precedence) :
    kind.isBrace = false := by
  rw [isBrace_eq_false_iff]
  constructor <;> rintro rfl <;> exact Nat.lt_irrefl 0 h

/-- Of `d` open braces the tokens leave `e`, and they close none that is not open. -/
inductive Leads : Nat → List Token → Nat → Prop
  | nil {d} : Leads d [] d
  | opening {d e t ts} : t.kind = .openCurly → Leads (d + 1) ts e → Leads d (t :: ts) e
  | closing {d e t ts} : t.kind = .closeCurly → Leads d ts e → Leads (d + 1) (t :: ts) e
  | other {d e t ts} : t.kind ≠ .openCurly → t.kind ≠ .closeCurly → Leads d ts e →
      Leads d (t :: ts) e

variable {d e k : Nat}
variable {t : Token}
variable {ts us vs : List Token}

theorem Leads.append (h : Leads d ts e) (h' : Leads e us k) : Leads d (ts ++ us) k := by
  induction h with
  | nil => exact h'
  | opening ht _ ih => exact .opening ht (ih h')
  | closing ht _ ih => exact .closing ht (ih h')
  | other ho hc _ ih => exact .other ho hc (ih h')

theorem Leads.split (h : Leads d (ts ++ us) k) : ∃ e, Leads d ts e ∧ Leads e us k := by
  induction ts generalizing d with
  | nil => exact ⟨d, .nil, h⟩
  | cons t ts ih =>
    cases h with
    | opening ht h =>
      obtain ⟨e, hts, hus⟩ := ih h
      exact ⟨e, .opening ht hts, hus⟩
    | closing ht h =>
      obtain ⟨e, hts, hus⟩ := ih h
      exact ⟨e, .closing ht hts, hus⟩
    | other ho hc h =>
      obtain ⟨e, hts, hus⟩ := ih h
      exact ⟨e, .other ho hc hts, hus⟩

theorem Leads.unique (h : Leads d ts e) (h' : Leads d ts k) : e = k := by
  -- the first token alone decides which rule both derivations begin with
  induction h with
  | nil =>
    cases h'
    rfl
  | opening ht _ ih =>
    cases h' with
    | opening _ h' => exact ih h'
    | closing hc _ => exact absurd (ht.symm.trans hc) (by decide)
    | other ho _ _ => exact absurd ht ho
  | closing ht _ ih =>
    cases h' with
    | opening ho _ => exact absurd (ht.symm.trans ho) (by decide)
    | closing _ h' => exact ih h'
    | other _ hc _ => exact absurd ht hc
  | other ho hc _ ih =>
    cases h' with
    | opening ho' _ => exact absurd ho' ho
    | closing hc' _ => exact absurd hc' hc
    | other _ _ h' => exact ih h'

/-- No brace can be closed where none is open. -/
theorem Leads.not_closing (h : Leads 0 (t :: ts) e) : t.kind ≠ .closeCurly := by
  cases h with
  | opening ho _ =>
    rw [ho]
    decide
  | other _ hc _ => exact hc

/-! ### Balanced tokens -/

/-- How many of the tokens open a brace. -/
def opens (ts : List Token) : Nat := ts.countP (·.kind = .openCurly)

/-- How many of the tokens close a brace. -/
def closes (ts : List Token) : Nat := ts.countP (·.kind = .closeCurly)

/-- No prefix closes more braces than it opens, and the whole closes as many as it opens. -/
def Balanced (ts : List Token) : Prop :=
  (∀ us, us <+: ts → closes us ≤ opens us) ∧ closes ts = opens ts

instance : DecidablePred Balanced := fun ts =>
  decidable_of_iff ((∀ us ∈ ts.inits, closes us ≤ opens us) ∧ closes ts = opens ts) <| by
    simp only [Balanced, List.mem_inits]

theorem forall_prefix_cons {P : List Token → Prop} :
    (∀ us, us <+: t :: ts → P us) ↔ P [] ∧ ∀ us, us <+: ts → P (t :: us) := by
  constructor
  · exact fun h => ⟨h [] List.nil_prefix, fun us hus => h _ (List.cons_prefix_cons.mpr ⟨rfl, hus⟩)⟩
  · rintro ⟨hnil, hcons⟩ us hus
    rcases List.prefix_cons_iff.mp hus with rfl | ⟨vs, rfl, hvs⟩
    · exact hnil
    · exact hcons vs hvs

theorem opens_cons : opens (t :: ts) = opens ts + if t.kind = .openCurly then 1 else 0 := by
  simp [opens, List.countP_cons]

theorem closes_cons : closes (t :: ts) = closes ts + if t.kind = .closeCurly then 1 else 0 := by
  simp [closes, List.countP_cons]

theorem Leads.counts (h : Leads d ts e) :
    (∀ us, us <+: ts → closes us ≤ d + opens us) ∧ e + closes ts = d + opens ts := by
  -- on the derivation; a prefix is empty, or begins with the first token
  induction h with
  | nil => simp [opens, closes]
  | opening ht _ ih =>
    simp only [forall_prefix_cons, opens_cons, closes_cons, ht, if_pos, reduceCtorEq, if_false]
    exact ⟨⟨Nat.zero_le _, fun us hus => by have := ih.1 us hus; omega⟩, by omega⟩
  | closing ht _ ih =>
    simp only [forall_prefix_cons, opens_cons, closes_cons, ht, if_pos, reduceCtorEq, if_false]
    exact ⟨⟨Nat.zero_le _, fun us hus => by have := ih.1 us hus; omega⟩, by omega⟩
  | other ho hc _ ih =>
    simp only [forall_prefix_cons, opens_cons, closes_cons, if_neg ho, if_neg hc]
    exact ⟨⟨Nat.zero_le _, fun us hus => by have := ih.1 us hus; omega⟩, by omega⟩

theorem leads_of_counts (hpre : ∀ us, us <+: ts → closes us ≤ d + opens us)
    (htotal : e + closes ts = d + opens ts) : Leads d ts e := by
  induction ts generalizing d with
  | nil =>
    obtain rfl : e = d := htotal
    exact .nil
  | cons t ts ih =>
    simp only [forall_prefix_cons, opens_cons, closes_cons] at hpre htotal
    -- the first token decides which rule applies
    by_cases ho : t.kind = .openCurly
    · simp only [ho, if_pos, reduceCtorEq, if_false] at hpre htotal
      exact .opening ho (ih (fun us hus => by have := hpre.2 us hus; omega) (by omega))
    · by_cases hc : t.kind = .closeCurly
      · simp only [hc, if_pos, reduceCtorEq, if_false] at hpre htotal
        -- the brace alone is a prefix, so that one is open before it
        cases d with
        | zero => exact absurd (hpre.2 [] List.nil_prefix) (by simp [opens, closes])
        | succ d =>
          have hpre' : ∀ us, us <+: ts → closes us ≤ d + opens us := fun us hus => by
            have := hpre.2 us hus
            omega
          exact .closing hc (ih hpre' (by omega))
      · simp only [if_neg ho, if_neg hc] at hpre htotal
        exact .other ho hc (ih hpre.2 htotal)

/-- Tokens are balanced if they leave no brace open and close none that is not open. -/
theorem balanced_iff : Balanced ts ↔ Leads 0 ts 0 := by
  constructor
  · rintro ⟨hpre, htotal⟩
    exact leads_of_counts (by simpa using hpre) (by omega)
  · intro h
    obtain ⟨hpre, htotal⟩ := h.counts
    exact ⟨by simpa using hpre, by omega⟩

/-- A reader who has opened `k` more braces than closed within a balanced
content, and stands before a closing brace, stands before the one behind the
content if `k` is zero, and before one of the content if it is not. -/
theorem Leads.stops {inner closing : Token} {rest ws : List Token} (hts : Leads 0 ts 0)
    (hclose : closing.kind = .closeCurly) (hus : Leads 0 us k) (hinner : inner.kind = .closeCurly)
    (h : ts ++ closing :: rest = us ++ inner :: ws) :
    (k = 0 ∧ us = ts ∧ inner = closing ∧ ws = rest) ∨
      (k ≠ 0 ∧ ∃ vs, ts = us ++ inner :: vs ∧ ws = vs ++ closing :: rest) := by
  rcases List.append_eq_append_iff.mp h with ⟨vs, rfl, hvs⟩ | ⟨vs, rfl, hvs⟩
  · -- the content has been passed as a whole
    obtain ⟨e, hfirst, hlater⟩ := hus.split
    obtain rfl := hts.unique hfirst
    rcases vs with - | ⟨v, vs⟩
    · obtain ⟨rfl, rfl⟩ := List.cons.inj hvs
      cases hlater
      exact .inl ⟨rfl, by simp, rfl, rfl⟩
    · obtain ⟨rfl, -⟩ := List.cons.inj hvs
      exact absurd hclose hlater.not_closing
  · -- the reader stands within the content, or right behind it
    obtain ⟨e, hfirst, hlater⟩ := hts.split
    obtain rfl := hus.unique hfirst
    rcases vs with - | ⟨v, vs⟩
    · obtain ⟨rfl, rfl⟩ := List.cons.inj hvs
      cases hlater
      exact .inl ⟨rfl, by simp, rfl, rfl⟩
    · obtain ⟨rfl, rfl⟩ := List.cons.inj hvs
      refine .inr ⟨?_, vs, rfl, rfl⟩
      rintro rfl
      exact absurd hinner hlater.not_closing

/-! ### Where a reader stands -/

namespace TokenStream

variable {r s : TokenStream}

/-- Between `r` and `s`, `k` more braces are opened than closed, and none is
closed that is not open; at the end of the source the number does not matter. -/
def Reaches (r : TokenStream) (k : Nat) (s : TokenStream) : Prop :=
  ∃ us e, r.pending = us ++ s.pending ∧ Leads 0 us e ∧ (s.pending = [] ∨ e = k)

theorem Reaches.refl : r.Reaches 0 r :=
  ⟨[], 0, rfl, .nil, .inr rfl⟩

/-- At the end of the source, a reader may stand with any number of open braces. -/
theorem Reaches.at_end (h : r.Reaches d s) (hs : s.pending = []) : r.Reaches k s := by
  obtain ⟨us, e, hus, hleads, -⟩ := h
  exact ⟨us, e, hus, hleads, .inl hs⟩

/-- A reader who moves on passes the current token. -/
theorem Reaches.step (h : r.Reaches d s) (ht : Leads d [s.current] k) : r.Reaches k s.advance := by
  obtain ⟨us, e, hus, hleads, he⟩ := h
  -- at the end of the source nothing is passed
  rcases hs : s.pending with - | ⟨t, rest⟩
  · refine ⟨us, e, ?_, hleads, .inl ?_⟩
    · rw [hus, pending_advance, hs]
      rfl
    · rw [pending_advance, hs]
      rfl
  · obtain rfl : e = d := he.resolve_left (by simp [hs])
    rw [current_of_pending hs] at ht
    refine ⟨us ++ [t], k, ?_, hleads.append ht, .inr rfl⟩
    rw [hus, pending_advance_of_pending hs, hs, List.append_assoc]
    rfl

theorem Reaches.step_opening (h : r.Reaches d s) (hk : s.current.kind = .openCurly) :
    r.Reaches (d + 1) s.advance :=
  h.step (.opening hk .nil)

theorem Reaches.step_closing (h : r.Reaches (d + 1) s) (hk : s.current.kind = .closeCurly) :
    r.Reaches d s.advance :=
  h.step (.closing hk .nil)

theorem Reaches.step_other (h : r.Reaches d s) (ho : s.current.kind ≠ .openCurly)
    (hc : s.current.kind ≠ .closeCurly) : r.Reaches d s.advance :=
  h.step (.other ho hc .nil)

/-- The current token of `s` has been read, too, and `k` braces are open
behind it.  What has been read last may close a brace but never opens one. -/
inductive Passed (r : TokenStream) (k : Nat) (s : TokenStream) : Prop
  | closing : s.current.kind = .closeCurly → r.Reaches (k + 1) s → Passed r k s
  | other : s.current.kind ≠ .openCurly → s.current.kind ≠ .closeCurly → r.Reaches k s →
      Passed r k s

theorem Passed.reaches (h : r.Passed k s) : r.Reaches k s.advance := by
  cases h with
  | closing hk h => exact h.step_closing hk
  | other ho hc h => exact h.step_other ho hc

/-- A token that is no brace is read. -/
theorem Reaches.passed {kind : Kind} (h : r.Reaches k s) (hk : s.current.kind = kind)
    (hb : kind.isBrace = false) : r.Passed k s := by
  obtain ⟨ho, hc⟩ := Kind.isBrace_eq_false_iff.mp hb
  exact .other (hk ▸ ho) (hk ▸ hc) h

end TokenStream

end LetFn
