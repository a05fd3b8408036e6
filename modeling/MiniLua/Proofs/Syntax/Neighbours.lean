import Mathlib.Data.List.Chain
import MiniLua.Proofs.Syntax.First
/-!
# Which tokens stand side by side

Only names and closing parentheses are ever followed by a link: in an instance of a form no
constant, no `}` and no `end` stands directly before `(`, `.` or `:` (`block_isChain`). Whether two parts
of a form can break that depends on how the first may end and the second may start, and on
whether they may be empty. `Item.edge` works that out for a form, `Edged` says that a list of
tokens is as worked out, and the productions are checked one by one (`rule_edge`).
-/

namespace MiniLua.Syntax

open MiniLua.Parser

variable {f g : List Item} {i : Item} {k : Terminal} {n : Nonterminal} {t : Token} {u v w : List Token}

/-! ## Tokens -/

/-- The last token of a constant, a table or a function. -/
def Solid (t : Token) : Prop :=
  Terminal.literal.Matches t ∨ (Terminal.symbol "\x7d").Matches t ∨ (Terminal.keyword "end").Matches t

/-- A token that starts no link. -/
def NoLink (t : Token) : Prop := t.isSymbol "(" = false ∧ t.isSymbol "." = false ∧ t.isSymbol ":" = false

/-- What one token and the next may be. -/
def Apart (t u : Token) : Prop := Solid t → NoLink u

namespace Terminal

/-- Whether it may stand for the last token of a constant, a table or a function. -/
def solid : Terminal → Bool
  | keyword word => word = "end"
  | symbol text => text = "\x7d"
  | literal => true
  | _ => false

/-- Whether it may stand for the first token of a link. -/
def links : Terminal → Bool
  | symbol text => text ∈ ["(", ".", ":"]
  | _ => false

theorem Matches.solid (h : k.Matches t) (ht : Solid t) : k.solid = true := by
  have hop : t.kind = .operator ∨ t.kind = .keyword → t.value ≠ "end" → False := by
    intro hk hv
    rcases ht with ht | ht | ht
    · rcases ht with ht | ht | ht | ht <;> simp [ht] at hk
    · simp [ht.1] at hk
    · exact hv ht.2
  cases k with
  | keyword word =>
    rcases ht with ht | ht | ht
    · simp [Matches, h.1] at ht
    · simp [Matches, h.1] at ht
    · exact decide_eq_true (h.2.symm.trans ht.2)
  | symbol text =>
    rcases ht with ht | ht | ht
    · simp [Matches, h.1] at ht
    · exact decide_eq_true (h.2.symm.trans ht.2)
    · simp [Matches, h.1] at ht
  | operator text =>
    rcases ht with ht | ht | ht <;> simp [Matches, h.1] at ht
  | name =>
    have hk : t.kind = .identifier := h
    rcases ht with ht | ht | ht <;> simp [Matches, hk] at ht
  | literal => rfl
  | unaryOp =>
    refine (hop h.1 fun hv => ?_).elim
    have hmem := h.2
    rw [hv] at hmem
    revert hmem
    decide
  | binaryOp =>
    refine (hop h.1 fun hv => ?_).elim
    have hmem := h.2
    rw [hv] at hmem
    revert hmem
    decide

theorem Matches.noLink (h : k.Matches t) (hk : k.links = false) : NoLink t := by
  have hkind : t.kind ≠ .symbol → NoLink t := by
    intro ht
    simp [NoLink, Token.isSymbol, Token.is, ht]
  cases k with
  | keyword word => exact hkind (by simp [h.1])
  | symbol text =>
    simp only [links, List.mem_cons, List.not_mem_nil, or_false, decide_eq_false_iff_not, not_or] at hk
    simpa [NoLink, Token.isSymbol, Token.is, h.1, h.2] using hk
  | operator text => exact hkind (by simp [h.1])
  | name => exact hkind (by simp [show t.kind = .identifier from h])
  | literal => exact hkind (by rcases h with h | h | h | h <;> simp [h])
  | unaryOp => exact hkind (by rcases h.1 with h | h <;> simp [h])
  | binaryOp => exact ⟨isSymbol_of_binaryOp h _, isSymbol_of_binaryOp h _, isSymbol_of_binaryOp h _⟩

end Terminal

/-! ## Forms -/

/-- What matters of a form: whether it may be empty, start a link or end with a solid token, and
whether its parts keep these apart. -/
structure Edge where
  empty : Bool
  links : Bool
  solid : Bool
  apart : Bool
deriving DecidableEq

namespace Edge

/-- One form and then another. -/
def append (a b : Edge) : Edge where
  empty := a.empty && b.empty
  links := a.links || (a.empty && b.links)
  solid := b.solid || (b.empty && a.solid)
  apart := a.apart && b.apart && !(a.solid && b.links)

/-- Once or not at all. -/
def option (a : Edge) : Edge := { a with empty := true }

/-- Any number of times. -/
def many (a : Edge) : Edge := { a with empty := true, apart := a.apart && !(a.solid && a.links) }

/-- Whatever is so of the first is so of the second. -/
def Le (a b : Edge) : Prop :=
  (a.empty → b.empty) ∧ (a.links → b.links) ∧ (a.solid → b.solid) ∧ (b.apart → a.apart)

instance (a b : Edge) : Decidable (a.Le b) := inferInstanceAs (Decidable (_ ∧ _))

theorem le_option (a : Edge) : a.Le a.option := ⟨fun _ => rfl, id, id, id⟩

theorem le_many (a : Edge) : a.Le a.many := ⟨fun _ => rfl, id, id, fun h => (Bool.and_eq_true_iff.1 h).1⟩

theorem many_append_le (a b : Edge) : (a.many.append (a.many.append b)).Le (a.many.append b) := by
  simp only [Le, append, many]
  grind

end Edge

/-- A statement starts with a word and may end with what ends an expression or a block. -/
def Nonterminal.edge : Nonterminal → Edge
  | block => ⟨true, false, true, true⟩
  | stmt | loopBody | table => ⟨false, false, true, true⟩
  | functionBody | expr | operand | field => ⟨false, true, true, true⟩
  | link | arguments => ⟨false, true, false, true⟩

mutual

def Item.edge : Item → Edge
  | .one k => ⟨false, k.links, k.solid, true⟩
  | .of n => n.edge
  | .many form => (formEdge form).many
  | .option form => (formEdge form).option

/-- The parts of a form in a row. -/
def formEdge : List Item → Edge
  | [] => ⟨true, false, false, true⟩
  | i :: f => i.edge.append (formEdge f)

end

/-- In no production two parts come together that would have to be kept apart. -/
theorem rule_edge (h : Rule n g) : (formEdge g).Le n.edge := by
  cases h <;> decide

/-! ## Instances -/

/-- The tokens are as worked out for a form. -/
structure Edged (e : Edge) (w : List Token) : Prop where
  empty : w = [] → e.empty = true
  links : ∀ t ∈ w.head?, ¬ NoLink t → e.links = true
  solid : ∀ t ∈ w.getLast?, Solid t → e.solid = true
  apart : e.apart = true → w.IsChain Apart

namespace Edged

variable {a b : Edge}

theorem mono (h : Edged a w) (hab : a.Le b) : Edged b w where
  empty hw := hab.1 (h.empty hw)
  links t ht hl := hab.2.1 (h.links t ht hl)
  solid t ht hs := hab.2.2.1 (h.solid t ht hs)
  apart hb := h.apart (hab.2.2.2 hb)

theorem nil (ha : a.empty = true) : Edged a [] where
  empty _ := ha
  links := nofun
  solid := nofun
  apart _ := .nil

theorem one (h : k.Matches t) : Edged (Item.one k).edge [t] where
  empty := nofun
  links u hu hl := by
    cases hu
    exact Bool.of_not_eq_false fun hk => hl (h.noLink hk)
  solid u hu hs := by
    cases hu
    exact h.solid hs
  apart _ := .singleton t

theorem append (ha : Edged a u) (hb : Edged b w) : Edged (a.append b) (u ++ w) where
  empty h := by
    obtain ⟨hu, hw⟩ := List.append_eq_nil_iff.1 h
    simp [Edge.append, ha.empty hu, hb.empty hw]
  links t ht hl := by
    cases u with
    | nil => simp [Edge.append, ha.empty rfl, hb.links t ht hl]
    | cons x u => simp [Edge.append, ha.links t ht hl]
  solid t ht hs := by
    cases w with
    | nil =>
      rw [List.append_nil] at ht
      simp [Edge.append, hb.empty rfl, ha.solid t ht hs]
    | cons x w =>
      rw [List.getLast?_append_cons] at ht
      simp [Edge.append, hb.solid t ht hs]
  apart h := by
    simp only [Edge.append, Bool.and_eq_true, Bool.not_eq_true', Bool.and_eq_false_imp] at h
    refine List.isChain_append.2 ⟨ha.apart h.1.1, hb.apart h.1.2, fun x hx y hy hs => ?_⟩
    -- The last token of the first part is solid, so the second one starts no link.
    by_contra hl
    have := hb.links y hy hl
    rw [h.2 (ha.solid x hx hs)] at this
    cases this

end Edged

theorem Derives.edged (h : Derives f w) : Edged (formEdge f) w := by
  induction h with
  | nil => exact .nil rfl
  | one hk _ ih => exact (Edged.one hk).append ih
  | rule hr _ _ ihg ih => exact (ihg.mono (rule_edge hr)).append ih
  | @headed t u v _ _ ht _ _ _ ihe ih =>
    -- Its first token is a name, which starts no link.
    have hfirst : ∀ x ∈ (t :: u :: v).head?, ¬ NoLink x → Nonterminal.stmt.edge.links = true := by
      intro x hx hl
      cases hx
      exact absurd (ht.noLink rfl) hl
    exact Edged.append (a := Nonterminal.stmt.edge) ⟨nofun, hfirst, fun _ _ _ => rfl, fun _ => ihe.apart rfl⟩ ih
  | skip _ ih => exact (Edged.nil rfl).append ih
  | take _ _ ihg ih => exact (ihg.mono (Edge.le_option _)).append ih
  | stop _ ih => exact (Edged.nil rfl).append ih
  | again _ _ ihg ih => exact ((ihg.mono (Edge.le_many _)).append ih).mono (Edge.many_append_le _ _)

/-- No link follows a constant, a table or a function in a program. -/
theorem block_isChain (h : Derives [.block] w) : w.IsChain Apart := h.edged.apart rfl

end MiniLua.Syntax
