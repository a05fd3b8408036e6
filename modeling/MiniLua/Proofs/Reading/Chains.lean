import MiniLua.Proofs.Canonical.Nested
import MiniLua.Proofs.Cursors.Discipline
import MiniLua.Proofs.Reading.Stopping
import MiniLua.Proofs.Trees.Making
/-!
# Chains of links

A name or an expression in parentheses is read together with all links behind it, each around what was read
before it (`Expr.chain`, `Cursor.run_chain`). The arguments of the links, and the expression in the parentheses, may be any
tokens that are a whole expression by themselves (`Whole`): such tokens are read as the same expression wherever one can
stand, as arguments that are lone tokens too (`ReadsWhole`).
-/

namespace MiniLua

open MiniLua.Parser MiniLua.Syntax

/-! ## Links -/

/-- A link: a call, a member, or the call of a method that is given its receiver. -/
inductive Link
  | call (args : List Expr)
  | member (name : String)
  | method (name : String) (args : List Expr)

/-- The links around an expression, the first of them innermost. A member and the call behind it are one link. -/
def Expr.chain : Expr → List Link → Expr
  | e, [] => e
  | .var x, .call args :: links => chain (.namedCall x args) links
  | e, .call args :: links => chain (.call e args) links
  | e, .member x :: .call args :: links => chain (.methodCall e x args false) links
  | e, .member x :: links => chain (.member e x) links
  | e, .method x args :: links => chain (.methodCall e x (e :: args) true) links

section
variable (φ : Expr → List Token → Prop)

/-- The tokens of a link, with those of its arguments as said. -/
inductive LinkTokens : Link → List Token → Prop
  | call {args w} : Grouped φ args w → LinkTokens (.call args) w
  | member {dot t} : dot.isSymbol "." = true → t.kind = .identifier → LinkTokens (.member t.value) [dot, t]
  | method {colon t args w} : colon.isSymbol ":" = true → t.kind = .identifier → Grouped φ args w →
    LinkTokens (.method t.value args) (colon :: t :: w)

/-- The tokens of what links may follow: a name, or an expression in parentheses. -/
inductive BaseTokens : Expr → List Token → Prop
  | name {t} : t.kind = .identifier → BaseTokens (.var t.value) [t]
  | group {o e w c} : o.isSymbol "(" = true → φ e w → c.isSymbol ")" = true → BaseTokens e (o :: (w ++ [c]))

end

/-! ## Whole expressions -/

/-- What a call for an expression with `n` levels left makes of tokens that it takes up to their end. -/
def WholeWithin (n : Nat) (e : Expr) (w : List Token) : Prop := (Inner.ofLevels n).expr .lowest w = .ok (e, [])

/-- What a call for an expression makes of tokens that it takes up to their end, if it has levels enough. -/
def Whole (e : Expr) (w : List Token) : Prop := ∃ n, WholeWithin n e w

variable {inner : Inner} {φ : Expr → List Token → Prop} {n : Nat} {e : Expr} {args : List Expr}
  {ls : List Link} {t u : Token} {v w us rest : List Token}

/-- Tokens that are a whole expression are read as it where an expression or an argument may stand. -/
structure ReadsWhole (inner : Inner) (φ : Expr → List Token → Prop) : Prop where
  takes : inner.Takes 0
  starts : ∀ {e w}, φ e w → ∃ t v, w = t :: v ∧ StartsExpr t
  expr : ∀ {e w}, φ e w → (inner.expr .lowest).ReadsAs w e AfterExpr
  argument : ∀ {e w}, φ e w → inner.argument.ReadsAs w e AfterItem

theorem WholeWithin.run (h : WholeWithin n e w) : (Inner.ofLevels n).expr .lowest (w ++ []) = .ok (e, []) := by
  rwa [List.append_nil]

theorem WholeWithin.expr (h : WholeWithin n e w) : ((Inner.ofLevels n).expr .lowest).ReadsAs w e AfterExpr :=
  fun _ hus => (ofLevels_upTo ahead_nil hus n .lowest).stops h.run

theorem ReadsWhole.ofLevels (n : Nat) : ReadsWhole (.ofLevels n) (WholeWithin n) where
  takes := (Inner.ofLevels_takes n).zero
  starts h := exists_starts (WholeWithin.run h)
  expr := WholeWithin.expr
  argument h := readsAs_argument (WholeWithin.expr h)

/-- Without a limit there are always levels enough. -/
theorem ReadsWhole.unlimited : ReadsWhole .unlimited Whole where
  takes := Inner.unlimited_takes
  starts := fun ⟨n, h⟩ => (ReadsWhole.ofLevels n).starts h
  expr := fun ⟨n, h⟩ us hus => ((Inner.ofLevels_below_unlimited n).expr .lowest).ok (h.expr us hus)
  argument := fun ⟨n, h⟩ us hus => (Inner.ofLevels_below_unlimited n).argument.ok (readsAs_argument h.expr us hus)

/-! ## Rows of links -/

theorem Grouped.starts (h : Grouped φ args w) : ∃ t v, w = t :: v ∧ t.isSymbol "(" = true := by
  cases h with
  | none ho _ => exact ⟨_, _, rfl, ho⟩
  | some ho _ _ => exact ⟨_, _, rfl, ho⟩

/-- The links go on with no call. -/
theorem Row.uncalled (h : Row (LinkTokens φ) ls w) (hls : ∀ args more, ls ≠ .call args :: more) (hus : Unlinked us) :
    Ahead (fun t => t.isSymbol "(" = false) (w ++ us) := by
  cases h with
  | nil => exact hus.mono fun _ ht => ht.1
  | cons hlink _ =>
    cases hlink with
    | call => exact absurd rfl (hls _ _)
    | member hdot _ => exact ahead_cons.2 (by simp [Token.isSymbol, Token.is, isSymbol_iff.1 hdot])
    | method hcolon _ _ => exact ahead_cons.2 (by simp [Token.isSymbol, Token.is, isSymbol_iff.1 hcolon])

namespace ReadsWhole

variable (h : ReadsWhole inner φ) {F : List Token → Prop}
include h

theorem arguments (hargs : Grouped φ args w) : (Parser.arguments inner).ReadsAs w args F := by
  refine parenthesized_grouped h.takes.argument h.argument (fun he => ?_) hargs
  obtain ⟨t, v, rfl, ht⟩ := h.starts he
  exact ⟨t, v, rfl, ht.isSymbol_eq_false (by decide)⟩

/-- All links are read, each around what was read before it. -/
theorem links (hls : Row (LinkTokens φ) ls w) : (Parser.links inner e).ReadsAs w (e.chain ls) Unlinked := by
  have hp := progressive_link h.takes
  -- A call is read alike behind a name and behind any other expression.
  have hcall : ∀ {e e' : Expr} {args v w}, Grouped φ args v → (Parser.links inner (e.applyTo args)).ReadsAs w e' Unlinked →
      (Parser.links inner e).ReadsAs (v ++ w) e' Unlinked := by
    intro e e' args v w hargs hmore
    obtain ⟨o, v, rfl, ho⟩ := hargs.starts
    exact repeating_step (G := fun _ => True) hp (if_pos ho) (h.arguments hargs).bind_pure hmore fun _ _ => trivial
  fun_induction Expr.chain e ls generalizing w with
  | case1 e =>
    cases hls
    exact fun us hus => links_of_unlinked inner hus e
  | case2 x args ls ih =>
    obtain _ | ⟨⟨hargs⟩, hls⟩ := hls
    exact hcall hargs (ih hls)
  | case3 e args ls hvar ih =>
    obtain _ | ⟨⟨hargs⟩, hls⟩ := hls
    have happly : e.applyTo args = .call e args := by
      cases e with
      | var x => exact absurd rfl (hvar x)
      | _ => rfl
    exact hcall hargs (happly ▸ ih hls)
  | case4 e x args ls ih =>
    obtain _ | ⟨_ | ⟨hdot, hx⟩, _ | ⟨⟨hargs⟩, hls⟩⟩ := hls
    obtain ⟨o, v, rfl, ho⟩ := hargs.starts
    rw [← List.append_assoc]
    have hcalled := memberCall_readsAs (w := o :: v) hdot hx (fun _ => ho) (h.arguments hargs (F := fun _ => True)) e
    exact repeating_step hp (link?_dot hdot) hcalled (ih hls) fun _ _ => trivial
  | case5 e x ls hnone ih =>
    obtain _ | ⟨_ | ⟨hdot, hx⟩, hls⟩ := hls
    exact repeating_step hp (link?_dot hdot) (member_readsAs hdot hx e) (ih hls) fun us hus => hls.uncalled hnone hus
  | case6 e x args ls ih =>
    obtain _ | ⟨_ | _ | ⟨hcolon, hx, hargs⟩, hls⟩ := hls
    have hcalled := methodCall_readsAs hcolon hx (h.arguments hargs (F := fun _ => True)) e
    exact repeating_step hp (link?_colon hcolon) hcalled (ih hls) fun _ _ => trivial

/-- What links may follow is read with all links behind it. -/
theorem operand (hbase : BaseTokens φ e v) (hls : Row (LinkTokens φ) ls w) :
    (Parser.operand inner).ReadsAs (v ++ w) (e.chain ls) Unlinked := by
  intro us hus
  cases hbase with
  | name ht => exact (operand_name ht _).trans (h.links hls us hus)
  | group ho he hc =>
    have hgroup : (Parser.grouping inner).ReadsAs _ e fun _ => True :=
      (readsAs_satisfy ho).bind_token ((h.expr he).bind (readsAs_satisfy hc).bind_pure fun us _ =>
        ahead_cons.2 (continuesExpr_symbol (by decide) (Terminal.symbol_iff.2 hc)))
    exact (operand_group ho _).trans (hgroup.bind (h.links hls) (fun _ _ => trivial) us hus)

end ReadsWhole

/-! ## Runs -/

namespace Cursor

section
variable {α : Type} {c : Cursor} {p : Inner → Parser α} {a : α}

/-- A run that takes certain tokens moves the cursor behind them. -/
theorem run_of_read (hw : w ≠ []) (hrest : c.rest = w ++ rest) (h : p c.inner (w ++ rest) = .ok (a, rest)) :
    c.run p = (.ok a, { c with index := c.index + w.length }) := by
  have hindex : c.tokens.length - rest.length = c.index + w.length := by
    have hlength : c.tokens.length - c.index = (w ++ rest).length := by rw [← hrest, Cursor.rest, List.length_drop]
    have hpos := List.length_pos_iff.2 hw
    rw [List.length_append] at hlength
    omega
  rw [run_of_ok (hrest ▸ h), hindex]

/-- What is read without a limit is read with one, or levels run out. -/
theorem run_of_unlimited (hbelow : Below True (p c.inner) (p .unlimited)) (hw : w ≠ []) (hrest : c.rest = w ++ rest)
    (h : p .unlimited (w ++ rest) = .ok (a, rest)) :
    c.run p = (.ok a, { c with index := c.index + w.length }) ∨
      ∃ err, (c.run p).1 = .error err ∧ err.cause = .nestingTooDeep maxNesting := by
  have hends : EndsAs True (p c.inner (w ++ rest)) (.ok (a, rest)) := h ▸ hbelow (w ++ rest)
  obtain hrun | ⟨failure, hrun, hfault⟩ := hends.ok_or_tooDeep
  · exact .inl (run_of_read hw hrest hrun)
  · exact .inr ⟨_, by rw [run_of_error (hrest ▸ hrun)], Failure.error_cause_of_tooDeep hfault⟩

end

/-- A name or an expression in parentheses, and all links behind it, are read as the chain of these links around it, or
levels run out. They do not if each part can be read with the levels that are left here. -/
theorem run_chain {c : Cursor} (hbase : BaseTokens Whole e v) (hls : Row (LinkTokens Whole) ls w)
    (hrest : c.rest = v ++ w ++ rest) (hstop : Unlinked rest) :
    (c.run Parser.operand = (.ok (e.chain ls), { c with index := c.index + (v ++ w).length }) ∨
      ∃ err, (c.run Parser.operand).1 = .error err ∧ err.cause = .nestingTooDeep maxNesting) ∧
    (BaseTokens (WholeWithin (maxNesting - c.depth)) e v → Row (LinkTokens (WholeWithin (maxNesting - c.depth))) ls w →
      c.run Parser.operand = (.ok (e.chain ls), { c with index := c.index + (v ++ w).length })) := by
  have hw : v ++ w ≠ [] := by cases hbase <;> simp
  constructor
  · have hbelow := (Below.congruence True).operand (Inner.ofLevels_below_unlimited (maxNesting - c.depth))
    exact run_of_unlimited hbelow hw hrest (ReadsWhole.unlimited.operand hbase hls rest hstop)
  · intro hbase hls
    exact run_of_read hw hrest ((ReadsWhole.ofLevels _).operand hbase hls rest hstop)

/-- The tokens `(f)(x).g(y):m(1).k`, in front of a `+`. -/
def chainTokens : List Token :=
  [.plain .symbol "(", .plain .identifier "f", .plain .symbol ")",
    .plain .symbol "(", .plain .identifier "x", .plain .symbol ")",
    .plain .symbol ".", .plain .identifier "g", .plain .symbol "(", .plain .identifier "y", .plain .symbol ")",
    .plain .symbol ":", .plain .identifier "m", .plain .symbol "(", .plain .number "1", .plain .symbol ")",
    .plain .symbol ".", .plain .identifier "k", .plain .operator "+"]

/-- The name in parentheses is called by name, the member `g` is called with its argument only, and what is called with
the colon is its own first argument. -/
theorem run_chain_mixed :
    let g : Expr := .methodCall (.namedCall "f" [.var "x"]) "g" [.var "y"] false
    (Cursor.ofTokens chainTokens "f").run Parser.operand =
      (.ok (.member (.methodCall g "m" [g, .literal (.number "1")] true) "k"), ⟨chainTokens, "f", 18, 0⟩) := by
  have hone : ∀ {φ : Expr → List Token → Prop} {e t}, φ e [t] →
      Grouped φ [e] [.plain .symbol "(", t, .plain .symbol ")"] := fun h => .some rfl (.mk h .nil) rfl
  have hlinks : ∀ {φ : Expr → List Token → Prop}, φ (.var "x") [.plain .identifier "x"] →
      φ (.var "y") [.plain .identifier "y"] → φ (.literal (.number "1")) [.plain .number "1"] →
      Row (LinkTokens φ) [.call [.var "x"], .member "g", .call [.var "y"], .method "m" [.literal (.number "1")], .member "k"]
        ((chainTokens.drop 3).take 15) := by
    intro φ hx hy h1
    have hg : LinkTokens φ (.member "g") [.plain .symbol ".", .plain .identifier "g"] :=
      .member (t := .plain .identifier "g") rfl rfl
    have hm : LinkTokens φ (.method "m" [.literal (.number "1")])
        [.plain .symbol ":", .plain .identifier "m", .plain .symbol "(", .plain .number "1", .plain .symbol ")"] :=
      .method (t := .plain .identifier "m") rfl rfl (hone h1)
    have hk : LinkTokens φ (.member "k") [.plain .symbol ".", .plain .identifier "k"] :=
      .member (t := .plain .identifier "k") rfl rfl
    exact .cons (.call (hone hx)) (.cons hg (.cons (.call (hone hy)) (.cons hm (.cons hk .nil))))
  have hf : WholeWithin maxNesting (.var "f") [.plain .identifier "f"] := rfl
  have hx : WholeWithin maxNesting (.var "x") [.plain .identifier "x"] := rfl
  have hy : WholeWithin maxNesting (.var "y") [.plain .identifier "y"] := rfl
  have h1 : WholeWithin maxNesting (.literal (.number "1")) [.plain .number "1"] := rfl
  have hstop : Unlinked [.plain .operator "+"] := ahead_cons.2 (by decide)
  exact (run_chain (.group rfl ⟨_, hf⟩ rfl) (hlinks ⟨_, hx⟩ ⟨_, hy⟩ ⟨_, h1⟩) (by rfl) hstop).2
    (.group rfl hf rfl) (hlinks hx hy h1)

end Cursor
end MiniLua
