import MiniLua.Proofs.Canonical.RoundTrip
import MiniLua.Proofs.Trees.Making
/-!
# How trees are put together

Whatever is claimed of a tree and of the tokens that it was read from has to be kept by each way
to put a tree together, and that is enough. `Construction` lists these ways for three families of
claims, of expressions, of the fields of a table and of statements. The numbers are levels of
nesting: with `n` of them left, what is nested has one less (`Nested`). A lone argument needs
none. `Construction.program` says that a family that is kept holds of every program.
-/

namespace MiniLua

open MiniLua.Parser

/-! ## Parts of trees -/

/-- A constant or a name, of one token. -/
inductive Leaf : Expr → List Token → Prop
  | literal {t v} : Literal.ofToken? t = some v → Leaf (.literal v) [t]
  | name {t} : t.kind = .identifier → Leaf (.var t.value) [t]

/-- One level further in. -/
def Nested {α : Type} (X : Nat → α → List Token → Prop) (n : Nat) (a : α) (w : List Token) : Prop :=
  ∃ m, n = m + 1 ∧ X m a w

section
variable (X : Nat → Expr → List Token → Prop) (S : Nat → Stmt → List Token → Prop) (n : Nat)

/-- An argument of a call. -/
inductive Argument : Expr → List Token → Prop
  | lone {e w} : Leaf e w → Argument e w
  | nested {e w} : Nested X n e w → Argument e w

/-- Statements one after another: none before the last is a bare `return`. -/
structure Statements (ss : List Stmt) (w : List Token) : Prop where
  each : Row (S n) ss w
  bare : ∀ s ∈ ss.dropLast, s ≠ .ret []

/-- The statements of a block. -/
def NestedBlock : List Stmt → List Token → Prop := Nested (Statements S) n

/-- Parameters and the body of a function, up to its `end`. -/
inductive FunctionBody : List String → List Stmt → List Token → Prop
  | mk {params body v w t} : Grouped (fun x w => ∃ t, w = [t] ∧ t.kind = .identifier ∧ x = t.value) params v →
    NestedBlock S n body w → t.isKeyword "end" = true → FunctionBody params body (v ++ (w ++ [t]))

/-- The body of a loop, from `do` to `end`. -/
inductive LoopBody : List Stmt → List Token → Prop
  | mk {t body w u} : t.isKeyword "do" = true → NestedBlock S n body w → u.isKeyword "end" = true →
    LoopBody body (t :: (w ++ [u]))

/-- A condition and the block that it guards. -/
inductive Guarded : Expr → List Stmt → List Token → Prop
  | mk {e v t body w} : Nested X n e v → t.isKeyword "then" = true → NestedBlock S n body w →
    Guarded e body (v ++ t :: w)

/-- An `elseif` arm. -/
inductive Arm : Branch → List Token → Prop
  | mk {t e body w} : t.isKeyword "elseif" = true → Guarded X S n e body w → Arm (.mk e body) (t :: w)

/-- What follows the arms of an `if`. -/
inductive Otherwise : List Stmt → List Token → Prop
  | none : Otherwise [] []
  | some {t body w} : t.isKeyword "else" = true → NestedBlock S n body w → Otherwise body (t :: w)

/-- The step of a loop over a range. -/
inductive Step : Option Expr → List Token → Prop
  | none : Step none []
  | some {t e w} : t.isSymbol "," = true → Nested X n e w → Step (some e) (t :: w)

end

/-- The second variable of a loop over an iterator. -/
inductive SecondName : Option String → List Token → Prop
  | none : SecondName none []
  | some {t u} : t.isSymbol "," = true → u.kind = .identifier → SecondName (some u.value) [t, u]

/-- Where a field of a table may start: after no other tokens of the table, or after a comma. -/
def StartsField (v : List Token) : Prop := ∀ t, v.getLast? = some t → t.isSymbol "," = true

/-! ## Ways to put a tree together -/

/-- Claims of expressions, of the fields of a table (the elements last one first) and of
statements, that hold of what is put together if they hold of the parts. -/
structure Construction (X : Nat → Expr → List Token → Prop) (F : Nat → List Expr × List Entry → List Token → Prop)
    (S : Nat → Stmt → List Token → Prop) : Prop where
  leaf : ∀ {n e w}, Leaf e w → X n e w
  group : ∀ {n t e w u}, t.isSymbol "(" = true → Nested X n e w → u.isSymbol ")" = true → X n e (t :: (w ++ [u]))
  unary : ∀ {n t op e w}, UnaryOp.ofToken? t = some op → Nested X n e w → X n (.unary op e) (t :: w)
  binary : ∀ {n l v t op r w}, X n l v → BinaryOp.ofToken? t = some op → Nested X n r w →
    X n (.binary l op r) (v ++ t :: w)
  call : ∀ {n e v args w}, X n e v → Grouped (Argument X n) args w → X n (e.applyTo args) (v ++ w)
  member : ∀ {n e v t u}, X n e v → t.isSymbol "." = true → u.kind = .identifier →
    X n (.member e u.value) (v ++ [t, u])
  methodCall : ∀ {n e v t u args w}, X n e v → t.isSymbol "." = true → u.kind = .identifier →
    Grouped (Argument X n) args w → X n (.methodCall e u.value args false) (v ++ t :: u :: w)
  colonCall : ∀ {n e v t u args w}, X n e v → t.isSymbol ":" = true → u.kind = .identifier →
    Grouped (Argument X n) args w → X n (.methodCall e u.value (e :: args) true) (v ++ t :: u :: w)
  function : ∀ {n t params body w}, t.isKeyword "function" = true → FunctionBody S n params body w →
    X n (.function params body) (t :: w)
  table : ∀ {n t fields w u}, t.isSymbol "\x7b" = true → F n fields w → u.isSymbol "\x7d" = true →
    X n (.table fields.1.reverse fields.2) (t :: (w ++ [u]))
  noField : ∀ {n}, F n ([], []) []
  element : ∀ {n fields v e w}, F n fields v → StartsField v → Nested X n e w → F n (e :: fields.1, fields.2) (v ++ w)
  entry : ∀ {n fields v t u e w}, F n fields v → StartsField v → t.kind = .identifier → u.isOperator "=" = true →
    Nested X n e w → F n (fields.1, Entry.insert t.value e fields.2) (v ++ t :: u :: w)
  comma : ∀ {n fields v t}, F n fields v → t.isSymbol "," = true → F n fields (v ++ [t])
  expr : ∀ {n t u e w}, t.kind = .identifier → continuesExpr u = true → Nested X n e (t :: u :: w) →
    S n (.expr e) (t :: u :: w)
  assign : ∀ {n t u e w}, t.kind = .identifier → u.isOperator "=" = true → Nested X n e w →
    S n (.assign t.value e) (t :: u :: w)
  definition : ∀ {n t u params body w}, t.isKeyword "function" = true → u.kind = .identifier →
    FunctionBody S n params body w → S n (.expr (.definition u.value params body)) (t :: u :: w)
  localFunction : ∀ {n s t u params body w}, s.isKeyword "local" = true → t.isKeyword "function" = true →
    u.kind = .identifier → FunctionBody S n params body w →
    S n (.localVar u.value (some (.definition u.value params body))) (s :: t :: u :: w)
  localVar : ∀ {n s t}, s.isKeyword "local" = true → t.kind = .identifier → S n (.localVar t.value none) [s, t]
  localInit : ∀ {n s t u e w}, s.isKeyword "local" = true → t.kind = .identifier → u.isOperator "=" = true →
    Nested X n e w → S n (.localVar t.value (some e)) (s :: t :: u :: w)
  bareReturn : ∀ {n t}, t.isKeyword "return" = true → S n (.ret []) [t]
  ret : ∀ {n t es w}, t.isKeyword "return" = true → Listed (Nested X n) es w → S n (.ret es) (t :: w)
  ifThen : ∀ {n t e body u bs v otherwise w z}, t.isKeyword "if" = true → Guarded X S n e body u →
    Row (Arm X S n) bs v → Otherwise S n otherwise w → z.isKeyword "end" = true →
    S n (.ifThen e body bs otherwise) (t :: (u ++ (v ++ (w ++ [z]))))
  whileLoop : ∀ {n t e v body w}, t.isKeyword "while" = true → Nested X n e v → LoopBody S n body w →
    S n (.whileLoop e body) (t :: (v ++ w))
  repeatLoop : ∀ {n t body v u e w}, t.isKeyword "repeat" = true → NestedBlock S n body v → u.isKeyword "until" = true →
    Nested X n e w → S n (.repeatLoop body e) (t :: (v ++ u :: w))
  forRange : ∀ {n t x q start u c limit v step w body z}, t.isKeyword "for" = true → x.kind = .identifier →
    q.isOperator "=" = true → Nested X n start u → c.isSymbol "," = true → Nested X n limit v → Step X n step w →
    LoopBody S n body z →
    S n (.forRange x.value start limit step body) (t :: x :: q :: (u ++ c :: (v ++ (w ++ z))))
  forIn : ∀ {n t x value v i e w body z}, t.isKeyword "for" = true → x.kind = .identifier → SecondName value v →
    i.isKeyword "in" = true → Nested X n e w → LoopBody S n body z →
    S n (.forIn x.value value e body) (t :: x :: (v ++ i :: (w ++ z)))

/-! ## What the productions make -/

variable {X : Nat → Expr → List Token → Prop} {F : Nat → List Expr × List Entry → List Token → Prop}
  {S : Nat → Stmt → List Token → Prop} {n : Nat} {inner : Inner} {e : Expr} {t : Token} {v : List Token}

/-- What is nested in a production with `n` levels left. -/
structure Inner.Makes (X : Nat → Expr → List Token → Prop) (S : Nat → Stmt → List Token → Prop) (n : Nat)
    (inner : Inner) : Prop where
  reads : Syntax.NestedReads inner
  expr : ∀ bound, (inner.expr bound).Makes (Nested X n)
  argument : inner.argument.Makes (Argument X n)
  block : inner.block.Makes (NestedBlock S n)

theorem makes_primary : primary.Makes Leaf := by
  refine makes_look fun t us => ?_
  split
  · next v hv => exact .next_bind (makes_pure (.literal hv) us)
  · by_cases ht : t.kind = .identifier
    · rw [if_pos ht]
      exact .next_bind (makes_pure (.name ht) us)
    · rw [if_neg ht]
      exact makes_fail _ _

theorem makes_valueName : valueName.Makes SecondName := by
  refine makes_check (fun t us ht => .next_bind (makes_name.bind_pure ?_ us)) ?_
  · rintro _ _ ⟨u, rfl, hu, rfl⟩
    exact .some ht hu
  · exact makes_check (fun _ us _ => makes_pure .none _) (makes_fail _)

namespace Construction

variable (h : Construction X F S) (hi : inner.Makes X S n)

/-! ### Expressions -/

section
include hi

theorem makes_arguments : (arguments inner).Makes (Grouped (Argument X n)) := makes_parenthesized hi.argument

theorem makes_functionBody : (functionBody inner).Makes fun f w => FunctionBody S n f.1 f.2 w := by
  refine (makes_parenthesized makes_name).bind fun params v hv => hi.block.bind fun body w hw => ?_
  refine (makes_keyword "end").bind ?_
  rintro t _ ⟨rfl, ht⟩
  exact makes_pure (.mk hv hw ht)

theorem makes_namedFunction : (namedFunction inner).Makes fun f w =>
    ∃ t u v, w = t :: u :: v ∧ t.isKeyword "function" = true ∧ u.kind = .identifier ∧ f.1 = u.value ∧
      FunctionBody S n f.2.1 f.2.2 v := by
  refine (makes_keyword _).bind ?_
  rintro t _ ⟨rfl, ht⟩
  refine makes_name.bind ?_
  rintro _ _ ⟨u, rfl, hu, rfl⟩
  exact (makes_functionBody hi).bind_pure fun f w hf => ⟨t, u, w, rfl, ht, hu, rfl, hf⟩

theorem makes_loopBody : (loopBody inner).Makes (LoopBody S n) := by
  refine (makes_keyword _).bind ?_
  rintro t _ ⟨rfl, ht⟩
  refine hi.block.bind fun body w hw => (makes_keyword _).bind ?_
  rintro u _ ⟨rfl, hu⟩
  exact makes_pure (.mk ht hw hu)

theorem makes_guarded : (guarded inner).Makes fun arm w => Guarded X S n arm.1 arm.2 w := by
  refine (hi.expr _).bind fun e v he => (makes_keyword _).bind ?_
  rintro t _ ⟨rfl, ht⟩
  exact hi.block.bind_pure fun body w hw => .mk he ht hw

theorem makes_otherwise : (Parser.otherwise inner).Makes (Otherwise S n) :=
  makes_check (fun _ us ht => .next_bind ((hi.block us).mono fun _ _ hw => .some ht hw)) (makes_pure .none)

theorem makes_step : (Parser.step inner).Makes (Step X n) :=
  makes_check (fun _ us ht => .next_bind ((hi.expr _ us).bind_pure fun _ _ he => .some ht he)) (makes_pure .none)

end

section
include h hi

theorem makes_grouping : (grouping inner).Makes (X n) := by
  refine (makes_symbol _).bind ?_
  rintro t _ ⟨rfl, ht⟩
  refine (hi.expr _).bind fun e w he => (makes_symbol _).bind ?_
  rintro u _ ⟨rfl, hu⟩
  exact makes_pure (h.group ht he hu)

theorem makes_link {link : Expr → Parser Expr} (hl : link? inner t = some link) (he : X n e v) :
    (link e).Makes fun e' w => X n e' (v ++ w) := by
  obtain ⟨-, rfl⟩ | ⟨-, rfl⟩ | ⟨-, rfl⟩ := link?_eq_some hl
  · exact (makes_arguments hi).bind_pure fun args w hargs => h.call he hargs
  · refine (makes_symbol ".").bind ?_
    rintro t _ ⟨rfl, ht⟩
    refine makes_name.bind ?_
    rintro _ _ ⟨u, rfl, hu, rfl⟩
    refine makes_check (fun c us _ => ?_) (makes_pure (h.member he ht hu))
    exact (makes_arguments hi _).bind_pure fun args w hargs => h.methodCall he ht hu hargs
  · refine (makes_symbol ":").bind ?_
    rintro t _ ⟨rfl, ht⟩
    refine makes_name.bind ?_
    rintro _ _ ⟨u, rfl, hu, rfl⟩
    exact (makes_arguments hi).bind_pure fun args w hargs => h.colonCall he ht hu hargs

theorem makes_links (he : X n e v) : (links inner e).Makes fun e' w => X n e' (v ++ w) :=
  makes_repeating (fun _ _ he _ _ hl us => h.makes_link hi hl he (_ :: us)) he

theorem makes_field {fields : List Expr × List Entry} (hf : F n fields v) (hv : StartsField v) :
    (field inner fields).Makes fun fields' w => F n fields' (v ++ w) := by
  intro ts
  unfold field
  refine .choice (fun hn => ?_) ((hi.expr _ ts).bind_pure fun e w he => h.element hf hv he)
  match ts, hn with
  | t :: u :: us, hn =>
    have htu : t.kind = .identifier ∧ u.isOperator "=" = true := by simpa [startsNamed] using hn
    exact .next_bind (.next_bind ((hi.expr _ us).bind_pure fun e w he => h.entry hf hv htu.1 htu.2 he))

theorem makes_fieldOrEnd {fields : List Expr × List Entry} (hf : F n fields v) (hv : StartsField v) :
    (fieldOrEnd inner fields).Makes fun fields' w => F n fields' (v ++ w) := by
  have hnone : F n fields (v ++ []) := by rwa [List.append_nil]
  exact makes_check (fun t us _ => makes_pure (φ := fun fields' w => F n fields' (v ++ w)) hnone _) (h.makes_field hi hf hv)

theorem makes_nextFields {fields : List Expr × List Entry} (hf : F n fields v) :
    (repeating (nextField? inner) fields).Makes fun fields' w => F n fields' (v ++ w) := by
  refine makes_repeating (fun fields v hf t round hr us => ?_) hf
  obtain ⟨ht, rfl⟩ := nextField?_eq_some hr
  have hv : StartsField (v ++ [t]) := fun u hu => by simp_all
  refine .next_bind ((h.makes_fieldOrEnd hi (h.comma hf ht) hv us).mono fun fields' w hw => ?_)
  rwa [List.append_assoc] at hw

theorem makes_table : (Parser.table inner).Makes (X n) := by
  refine (makes_symbol _).bind ?_
  rintro t _ ⟨rfl, ht⟩
  refine (h.makes_fieldOrEnd hi h.noField nofun).bind fun fields v hv => (h.makes_nextFields hi hv).bind fun fields w hw => ?_
  refine (makes_symbol _).bind ?_
  rintro u _ ⟨rfl, hu⟩
  have := h.table ht hw hu
  refine makes_pure ?_
  simpa using this

theorem makes_function : (Parser.function inner).Makes (X n) := by
  refine (makes_keyword _).bind ?_
  rintro t _ ⟨rfl, ht⟩
  exact (makes_functionBody hi).bind_pure fun f w hf => h.function ht hf

theorem makes_operand : (operand inner).Makes (X n) := by
  refine makes_look fun t us => ?_
  split
  · next op hop => exact .next_bind ((hi.expr _ us).bind_pure fun e w he => h.unary hop he)
  · have hprimary : primary.MakesAt (X n) (t :: us) := (makes_primary _).mono fun e w he => h.leaf he
    split
    · exact hprimary
    · exact hprimary
    · exact hprimary
    · exact hprimary
    · next ht => exact .next_bind (h.makes_links hi (h.leaf (.name ht)) us)
    · split
      · exact (h.makes_grouping hi).bind (fun e v he => h.makes_links hi he) _
      · split
        · exact h.makes_table hi _
        · exact makes_fail _ _
    · split
      · exact h.makes_function hi _
      · exact makes_fail _ _
    · exact makes_fail _ _

theorem makes_climb (bound : Precedence) : (climb inner bound).Makes (X n) := by
  refine (h.makes_operand hi).bind fun e v he => makes_repeating (fun l v hl t round hr us => ?_) he
  obtain ⟨op, hop, -, rfl⟩ := tighter?_eq_some hr
  exact .next_bind ((hi.expr _ us).bind_pure fun e w he => h.binary hl hop he)

/-! ### Statements -/

theorem makes_localStmt : (localStmt inner).Makes (S n) := by
  refine (makes_keyword _).bind ?_
  rintro s _ ⟨rfl, hs⟩
  rw [localFunction_eq]
  refine makes_check (fun t us _ => ?_) ?_
  · refine (makes_namedFunction hi _).bind_pure ?_
    rintro ⟨_, params, body⟩ _ ⟨t, u, w, rfl, ht, hu, rfl, hbody⟩
    exact h.localFunction hs ht hu hbody
  · refine makes_name.bind ?_
    rintro _ _ ⟨t, rfl, ht, rfl⟩
    refine makes_check (fun u us hu => .next_bind ?_) (makes_pure (h.localVar hs ht))
    exact (hi.expr _ us).bind_pure fun e w he => h.localInit hs ht hu he

theorem makes_definition : (functionStmt inner).Makes (S n) := by
  refine Makes.map (φ := fun e w => S n (.expr e) w) ((makes_namedFunction hi).bind_pure ?_) fun _ _ hs => hs
  rintro ⟨_, params, body⟩ _ ⟨t, u, w, rfl, ht, hu, rfl, hbody⟩
  exact h.definition ht hu hbody

theorem makes_assignment : (assignment inner).Makes (S n) := by
  refine makes_name.bind ?_
  rintro _ _ ⟨t, rfl, ht, rfl⟩
  refine (makes_operator _).bind ?_
  rintro u _ ⟨rfl, hu⟩
  exact (hi.expr _).bind_pure fun e w he => h.assign ht hu he

theorem makes_returnStmt : (returnStmt inner).Makes (S n) := by
  refine (makes_keyword _).bind ?_
  rintro t _ ⟨rfl, ht⟩
  refine makes_check (fun _ us _ => ?_) (makes_pure (h.bareReturn ht))
  exact (makes_separated (hi.expr _) _).bind_pure fun es w hes => h.ret ht hes

theorem makes_ifStmt : (ifStmt inner).Makes (S n) := by
  refine (makes_keyword _).bind ?_
  rintro t _ ⟨rfl, ht⟩
  refine (makes_guarded hi).bind fun arm u hu => (makes_many (φ := Arm X S n) fun z us hz => ?_).bind fun bs v hv => ?_
  · exact .next_bind ((makes_guarded hi us).bind_pure fun arm w hw => .mk hz hw)
  · refine (makes_otherwise hi).bind fun otherwise w hw => (makes_keyword _).bind ?_
    rintro z _ ⟨rfl, hz⟩
    exact makes_pure (h.ifThen ht hu hv hw hz)

theorem makes_whileStmt : (whileStmt inner).Makes (S n) := by
  refine (makes_keyword _).bind ?_
  rintro t _ ⟨rfl, ht⟩
  exact (hi.expr _).bind fun e v he => (makes_loopBody hi).bind_pure fun body w hw => h.whileLoop (v := v) ht he hw

theorem makes_repeatStmt : (repeatStmt inner).Makes (S n) := by
  refine (makes_keyword _).bind ?_
  rintro t _ ⟨rfl, ht⟩
  refine hi.block.bind fun body v hbody => (makes_keyword _).bind ?_
  rintro u _ ⟨rfl, hu⟩
  exact (hi.expr _).bind_pure fun e w he => h.repeatLoop (v := v) ht hbody hu he

theorem makes_forRange {t x : Token} (ht : t.isKeyword "for" = true) (hx : x.kind = .identifier) {q : Token} {us : List Token}
    (hq : q.isOperator "=" = true) :
    (Parser.forRange inner x.value).MakesAt (fun s w => S n s (t :: x :: w)) (q :: us) := by
  refine .next_bind ((hi.expr _).bind (fun start u hs => (makes_symbol _).bind ?_) us)
  rintro c _ ⟨rfl, hc⟩
  refine (hi.expr _).bind fun limit v hl => (makes_step hi).bind fun step w hw => ?_
  exact (makes_loopBody hi).bind_pure fun body z hz => h.forRange (v := v) (w := w) ht hx hq hs hc hl hw hz

theorem makes_forIn {t x : Token} (ht : t.isKeyword "for" = true) (hx : x.kind = .identifier) :
    (Parser.forIn inner x.value).Makes fun s w => S n s (t :: x :: w) := by
  refine makes_valueName.bind fun value v hv => (makes_keyword _).bind ?_
  rintro i _ ⟨rfl, hkw⟩
  exact (hi.expr _).bind fun e w he => (makes_loopBody hi).bind_pure fun body z hz => h.forIn (w := w) ht hx hv hkw he hz

theorem makes_forStmt : (forStmt inner).Makes (S n) := by
  refine (makes_keyword _).bind ?_
  rintro t _ ⟨rfl, ht⟩
  refine makes_name.bind ?_
  rintro _ _ ⟨x, rfl, hx, rfl⟩
  exact makes_check (fun q us hq => h.makes_forRange hi ht hx hq) (h.makes_forIn hi ht hx)

theorem makes_headed (head : StmtHead) : (headed inner head).Makes (S n) := by
  cases head with
  | function => exact h.makes_definition hi
  | localVar => exact h.makes_localStmt hi
  | ret => exact h.makes_returnStmt hi
  | ifThen => exact h.makes_ifStmt hi
  | forLoop => exact h.makes_forStmt hi
  | whileLoop => exact h.makes_whileStmt hi
  | repeatLoop => exact h.makes_repeatStmt hi

/-- The expression takes both tokens that a statement with it is known by. -/
theorem makes_exprStmt {u : Token} {us : List Token} (ht : t.kind = .identifier) (hu : continuesExpr u = true) :
    (Stmt.expr <$> inner.expr .lowest).MakesAt (S n) (t :: u :: us) := by
  have hstart : (inner.expr .lowest).MakesAt (fun e w => Nested X n e w ∧ ∃ v, w = t :: u :: v) (t :: u :: us) := by
    intro e rest he
    obtain ⟨w, hw, hnested⟩ := hi.expr .lowest _ e rest he
    refine ⟨w, hw, hnested, ?_⟩
    have hlen := (hi.reads.takes.expr .lowest).length_of_ok he
    cases w with
    | nil =>
      obtain rfl : t :: u :: us = rest := hw
      exact absurd hlen (by omega)
    | cons _ w =>
      obtain ⟨rfl, hus⟩ := List.cons.inj hw
      cases w with
      | nil =>
        obtain rfl : u :: us = rest := hus
        rw [hi.reads.name ht he] at hu
        cases hu
      | cons _ v =>
        obtain ⟨rfl, -⟩ := List.cons.inj hus
        exact ⟨v, rfl⟩
  refine hstart.map ?_
  rintro e _ ⟨he, v, rfl⟩
  exact h.expr ht hu he

theorem makes_nameStmt {us : List Token} (ht : t.kind = .identifier) : (nameStmt inner).MakesAt (S n) (t :: us) := by
  cases us with
  | nil => rintro _ _ ⟨⟩
  | cons u us =>
    rcases nameStmt_dispatch inner u with ⟨-, hrun⟩ | ⟨hu, hrun⟩ | hrun
    · exact (h.makes_assignment hi _).congr (hrun t us)
    · exact (h.makes_exprStmt hi ht hu).congr (hrun t us)
    · intro _ _ hs
      rw [hrun] at hs
      cases hs

theorem makes_stmt : (stmt inner).Makes (S n) := by
  intro ts
  cases ts with
  | nil => rintro _ _ ⟨⟩
  | cons t us =>
    rcases stmt_dispatch inner t with ⟨ht, hrun⟩ | ⟨head, hrun⟩ | hrun
    · exact (h.makes_nameStmt hi ht).congr (hrun us)
    · exact (h.makes_headed hi head _).congr (hrun us)
    · exact (makes_fail _ _).congr (hrun us)

theorem makes_stmts (test : Token → Bool) : (many test (stmt inner)).Makes (Row (S n)) :=
  makes_many fun _ _ _ => h.makes_stmt hi _

end

/-! ## Programs -/

include h

theorem makes_statements (hi : (Inner.ofLevels n).Makes X S n) (test : Token → Bool) :
    (many test (stmt (.ofLevels n))).Makes (Statements S n) := by
  intro ts ss us hss
  obtain ⟨w, hw, heach⟩ := h.makes_stmts hi test ts ss us hss
  exact ⟨w, hw, heach, (returned_of_stmts (rereads n) hss).bare⟩

theorem ofLevels_makes (n : Nat) : (Inner.ofLevels n).Makes X S n := by
  have hargument : ∀ {n} {expr : Precedence → Parser Expr}, (∀ bound, (expr bound).Makes (Nested X n)) →
      (Parser.argument (expr .lowest)).Makes (Argument X n) := fun he ts =>
    .choice (fun _ => (makes_primary ts).mono fun _ _ => .lone) ((he _ ts).mono fun _ _ => .nested)
  induction n with
  | zero =>
    have he : ∀ bound, ((Inner.ofLevels 0).expr bound).Makes (Nested X 0) := fun _ => makes_fail _
    exact ⟨Syntax.ofLevels_reads 0, he, hargument he, makes_fail _⟩
  | succ n ih =>
    have he : ∀ bound, ((Inner.ofLevels (n + 1)).expr bound).Makes (Nested X (n + 1)) := fun bound =>
      Makes.nested fun ts => (h.makes_climb ih bound ts).mono fun _ _ he => ⟨n, rfl, he⟩
    refine ⟨Syntax.ofLevels_reads (n + 1), he, hargument he, Makes.nested fun ts => ?_⟩
    exact (h.makes_statements ih _ ts).mono fun _ _ hss => ⟨n, rfl, hss⟩

/-- What is kept by every way to put a tree together holds of each statement of a program and of
the tokens that it was read from. -/
theorem program {limit : Nat} {ts : List Token} {file : String} {p : List Stmt} (hp : parseWithin limit ts file = .ok p) :
    Statements S limit p ts := by
  obtain ⟨rest, hrun⟩ := parseWithin_eq_ok.1 hp
  obtain ⟨w, rfl, hw⟩ := h.makes_statements (h.ofLevels_makes limit) _ _ _ _ hrun
  obtain rfl := program_rest (Inner.ofLevels_takes limit) hrun
  rwa [List.append_nil]

end Construction

end MiniLua
