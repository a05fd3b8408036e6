import MiniLua.Proofs.Trees.Construction
/-!
# Trees that can be interpreted

What whoever walks over a program may rely on at every node of it (`Node.WellFormed`): where a function
with a name may stand, what a statement may consist of, what may be called, and that nothing follows a bare
`return`. Each way to put a tree together keeps this, if it also keeps in mind by which tokens an expression
starts (`SoundExpr`): an expression that starts with a name is that name alone, or a call, a member or the
operation of an operator.
-/

namespace MiniLua

open MiniLua.Parser

/-! ## Nodes -/

/-- A part of a program. -/
inductive Node
  | expr (e : Expr)
  | stmt (s : Stmt)
  | block (ss : List Stmt)

namespace Node

/-- The parts that a part directly consists of. -/
def children : Node → List Node
  | expr (.literal _) | expr (.var _) => []
  | expr (.binary left _ right) => [expr left, expr right]
  | expr (.unary _ operand) => [expr operand]
  | expr (.namedCall _ args) => args.map expr
  | expr (.call callee args) => expr callee :: args.map expr
  | expr (.methodCall receiver _ args _) => expr receiver :: args.map expr
  | expr (.member object _) => [expr object]
  | expr (.table elements entries) => elements.map expr ++ entries.map fun e => expr e.value
  | expr (.definition _ _ body) | expr (.function _ body) => [block body]
  | stmt (.expr value) | stmt (.assign _ value) => [expr value]
  | stmt (.localVar _ init) => init.toList.map expr
  | stmt (.ret values) => values.map expr
  | stmt (.ifThen condition body elseifs otherwise) =>
    expr condition :: block body :: (elseifs.flatMap (fun b => [expr b.condition, block b.body]) ++ [block otherwise])
  | stmt (.whileLoop condition body) => [expr condition, block body]
  | stmt (.repeatLoop body condition) => [block body, expr condition]
  | stmt (.forRange _ start limit step body) => expr start :: expr limit :: (step.toList.map expr ++ [block body])
  | stmt (.forIn _ _ iterator body) => [expr iterator, block body]
  | block ss => ss.map stmt

/-- A part of a part, at any depth. -/
inductive Within : Node → Node → Prop
  | self {n} : Within n n
  | child {n c m} : c ∈ m.children → Within n c → Within n m

end Node

namespace Expr

/-- Whether an expression is one that goes on behind a name. -/
def continuesName : Expr → Bool
  | namedCall .. | call .. | methodCall .. | member .. | binary .. => true
  | _ => false

end Expr

/-- What is so of every node of a program. -/
structure Node.WellFormed (n : Node) : Prop where
  /-- A call with a colon has its receiver as its first argument. -/
  receiver : ∀ e method args, n = .expr (.methodCall e method args true) → args.head? = some e
  /-- What is called as a value is no plain name. -/
  callee : ∀ name args, n ≠ .expr (.call (.var name) args)
  /-- A function with a name is a statement, or what a local variable of that name starts as. -/
  definition : ∀ name params body, .expr (.definition name params body) ∈ n.children →
    n = .stmt (.expr (.definition name params body)) ∨
      n = .stmt (.localVar name (some (.definition name params body)))
  /-- An expression that is a statement is a function with a name, a call, a member or a binary operation. -/
  standing : ∀ e, n = .stmt (.expr e) → e.isDefinition = true ∨ e.continuesName = true
  /-- Nothing follows a `return` without values. -/
  bareReturn : ∀ before after, n = .block (before ++ .ret [] :: after) → after = []

/-! ## Sound parts -/

namespace Node

/-- Every part of a part is well formed. -/
def Sound (n : Node) : Prop := ∀ m, Within m n → m.WellFormed

/-- A sound part that may stand anywhere, so no function with a name. -/
structure Free (n : Node) : Prop where
  sound : n.Sound
  anonymous : ∀ name params body, n ≠ .expr (.definition name params body)

variable {n : Node} {e : Expr} {s : Stmt} {ss : List Stmt}

theorem sound_of_children (h : n.WellFormed) (hc : ∀ c ∈ n.children, c.Sound) : n.Sound := by
  intro m hm
  cases hm with
  | self => exact h
  | child hmem hm => exact hc _ hmem m hm

theorem free_expr (hdefinition : ∀ name params body, e ≠ .definition name params body)
    (hreceiver : ∀ r method args, e = .methodCall r method args true → args.head? = some r)
    (hcallee : ∀ name args, e ≠ .call (.var name) args) (hc : ∀ c ∈ (expr e).children, c.Free) : (expr e).Free where
  sound := by
    refine sound_of_children ?_ fun c hmem => (hc c hmem).sound
    exact {
      receiver := fun r method args h => hreceiver r method args (Node.expr.inj h)
      callee := fun name args h => hcallee name args (Node.expr.inj h)
      definition := fun name params body hmem => absurd rfl ((hc _ hmem).anonymous name params body)
      standing := nofun
      bareReturn := nofun }
  anonymous := fun name params body h => hdefinition name params body (Node.expr.inj h)

/-- A statement that is no expression. -/
theorem sound_stmt (hexpr : ∀ e, s ≠ .expr e) (hc : ∀ c ∈ (stmt s).children, c.Free) : (stmt s).Sound :=
  sound_of_children
    { receiver := nofun
      callee := nofun
      definition := fun name params body hmem => absurd rfl ((hc _ hmem).anonymous name params body)
      standing := fun e h => absurd (Node.stmt.inj h) (hexpr e)
      bareReturn := nofun }
    fun c hmem => (hc c hmem).sound

theorem sound_standing (he : (expr e).Free) (hgo : e.continuesName = true) : (stmt (.expr e)).Sound := by
  refine sound_of_children ?_ (by simpa [children] using he.sound)
  exact {
    receiver := nofun
    callee := nofun
    definition := fun name params body hmem => by
      obtain rfl : .definition name params body = e := by simpa [children] using hmem
      cases hgo
    standing := fun e' h => by
      obtain rfl : e = e' := by simpa using h
      exact .inr hgo
    bareReturn := nofun }

theorem free_block (hbare : ∀ s ∈ ss.dropLast, s ≠ .ret []) (hc : ∀ s ∈ ss, (stmt s).Sound) : (block ss).Free where
  sound := by
    refine sound_of_children ?_ (by simpa [children] using hc)
    exact {
      receiver := nofun
      callee := nofun
      definition := fun name params body hmem => by simp [children] at hmem
      standing := nofun
      bareReturn := fun before after h => by
        obtain rfl := Node.block.inj h
        refine Decidable.byContradiction fun hafter => hbare (.ret []) ?_ rfl
        rw [List.dropLast_append_of_ne_nil (List.cons_ne_nil _ after), List.dropLast_cons_of_ne_nil hafter]
        exact List.mem_append_right before List.mem_cons_self }
  anonymous := nofun

/-- A function with a name where one may stand. -/
theorem sound_definition {name : String} {params : List String} {body : List Stmt} (hbody : (block body).Free)
    (hs : s = .expr (.definition name params body) ∨ s = .localVar name (some (.definition name params body))) :
    (stmt s).Sound := by
  have hexpr : (expr (.definition name params body)).Sound := by
    refine sound_of_children ?_ (by simpa [children] using hbody.sound)
    exact {
      receiver := nofun
      callee := nofun
      definition := fun name params body hmem => by simp [children] at hmem
      standing := nofun
      bareReturn := nofun }
  have hchildren : (stmt s).children = [expr (.definition name params body)] := by
    rcases hs with rfl | rfl <;> rfl
  refine sound_of_children ?_ (by simpa [hchildren] using hexpr)
  exact {
    receiver := nofun
    callee := nofun
    definition := fun name' params' body' hmem => by
      rw [hchildren] at hmem
      obtain ⟨rfl, rfl, rfl⟩ : name' = name ∧ params' = params ∧ body' = body := by simpa using hmem
      exact hs.imp (congrArg Node.stmt) (congrArg Node.stmt)
    standing := fun e h => by
      obtain rfl := Node.stmt.inj h
      rcases hs with h | h
      · obtain rfl := Stmt.expr.inj h
        exact .inl rfl
      · cases h
    bareReturn := nofun }

end Node

/-! ## Sound parts are put together -/

open Node

/-- What is kept of an expression: that it is sound, and what it is if it starts with a name. -/
structure SoundExpr (e : Expr) (w : List Token) : Prop where
  free : (Node.expr e).Free
  named : ∀ t v, w = t :: v → t.kind = .identifier → v = [] ∨ e.continuesName = true

/-- What is kept of the fields of a table. -/
structure SoundFields (fields : List Expr × List Entry) : Prop where
  elements : ∀ e ∈ fields.1, (Node.expr e).Free
  entries : ∀ a ∈ fields.2, (Node.expr a.value).Free

section
variable {n : Nat} {e : Expr} {es : List Expr} {body : List Stmt} {params : List String} {w : List Token}

theorem Nested.free (h : Nested (fun _ => SoundExpr) n e w) : (Node.expr e).Free := by
  obtain ⟨_, -, h⟩ := h
  exact h.free

theorem Leaf.free (h : Leaf e w) : (Node.expr e).Free := by
  cases h <;> exact free_expr nofun nofun nofun nofun

theorem Argument.free (h : Argument (fun _ => SoundExpr) n e w) : (Node.expr e).Free := by
  cases h with
  | lone h => exact h.free
  | nested h => exact h.free

theorem free_arguments (h : Grouped (Argument (fun _ => SoundExpr) n) es w) : ∀ c ∈ es.map Node.expr, c.Free := by
  rintro _ hc
  obtain ⟨e, he, rfl⟩ := List.mem_map.1 hc
  obtain ⟨_, h⟩ := h.exists_of_mem he
  exact h.free

theorem Statements.free (h : Statements (fun _ s _ => (Node.stmt s).Sound) n body w) : (Node.block body).Free := by
  refine free_block h.bare fun s hs => ?_
  obtain ⟨_, -, hsound⟩ := h.each.exists_of_mem hs
  exact hsound

theorem NestedBlock.free (h : NestedBlock (fun _ s _ => (Node.stmt s).Sound) n body w) : (Node.block body).Free := by
  obtain ⟨_, -, h⟩ := h
  exact h.free

theorem FunctionBody.free (h : FunctionBody (fun _ s _ => (Node.stmt s).Sound) n params body w) : (Node.block body).Free := by
  obtain ⟨-, hbody, -⟩ := h
  exact hbody.free

theorem LoopBody.free (h : LoopBody (fun _ s _ => (Node.stmt s).Sound) n body w) : (Node.block body).Free := by
  obtain ⟨-, hbody, -⟩ := h
  exact hbody.free

theorem Otherwise.free (h : Otherwise (fun _ s _ => (Node.stmt s).Sound) n body w) : (Node.block body).Free := by
  cases h with
  | none => exact free_block nofun nofun
  | some _ hbody => exact hbody.free

end

theorem SoundExpr.of_head {e : Expr} {t : Token} {w : List Token} (h : (Node.expr e).Free) (ht : t.kind ≠ .identifier) :
    SoundExpr e (t :: w) where
  free := h
  named := by
    rintro _ _ ⟨⟩ hk
    exact absurd hk ht

theorem SoundExpr.of_continuesName {e : Expr} {w : List Token} (h : (Node.expr e).Free) (hgo : e.continuesName = true) :
    SoundExpr e w :=
  ⟨h, fun _ _ _ _ => .inr hgo⟩

/-- The call of a sound expression: of a name by the name. -/
theorem SoundExpr.applyTo {e : Expr} {args : List Expr} {w : List Token} (he : (Node.expr e).Free)
    (hargs : ∀ c ∈ args.map Node.expr, c.Free) : SoundExpr (e.applyTo args) w := by
  cases e with
  | var name => exact .of_continuesName (free_expr nofun nofun nofun hargs) rfl
  | _ => exact .of_continuesName (free_expr nofun nofun (by simp [Expr.applyTo]) (List.forall_mem_cons.2 ⟨he, hargs⟩)) rfl

theorem soundConstruction :
    Construction (fun _ => SoundExpr) (fun _ fields _ => SoundFields fields) (fun _ s _ => (Node.stmt s).Sound) where
  leaf h := by
    refine ⟨h.free, ?_⟩
    cases h <;> exact fun _ _ hw _ => .inl (List.cons.inj hw).2.symm
  group ht he _ := .of_head he.free (by simp [isSymbol_iff.1 ht])
  unary hop he := by
    refine .of_head (free_expr nofun nofun nofun (by simpa [children] using he.free)) ?_
    rcases (UnaryOp.text_of_ofToken? hop).1 with hk | hk <;> simp [hk]
  binary hl _ hr := .of_continuesName (free_expr nofun nofun nofun (by simpa [children] using ⟨hl.free, hr.free⟩)) rfl
  call he hargs := .applyTo he.free (free_arguments hargs)
  member he _ _ := .of_continuesName (free_expr nofun nofun nofun (by simpa [children] using he.free)) rfl
  methodCall he _ _ hargs :=
    .of_continuesName (free_expr nofun (by simp) nofun (List.forall_mem_cons.2 ⟨he.free, free_arguments hargs⟩)) rfl
  colonCall he _ _ hargs := by
    refine .of_continuesName (free_expr nofun ?_ nofun ?_) rfl
    · rintro _ _ _ ⟨⟩
      rfl
    · exact List.forall_mem_cons.2 ⟨he.free, List.forall_mem_cons.2 ⟨he.free, free_arguments hargs⟩⟩
  function ht h := .of_head (free_expr nofun nofun nofun (by simpa [children] using h.free)) (by simp [isKeyword_iff.1 ht])
  table ht h _ := by
    refine .of_head (free_expr nofun nofun nofun fun c hc => ?_) (by simp [isSymbol_iff.1 ht])
    simp only [children, List.mem_append, List.mem_map, List.mem_reverse] at hc
    obtain ⟨e, he, rfl⟩ | ⟨a, ha, rfl⟩ := hc
    · exact h.elements e he
    · exact h.entries a ha
  noField := ⟨nofun, nofun⟩
  element hf _ he := ⟨List.forall_mem_cons.2 ⟨he.free, hf.elements⟩, hf.entries⟩
  entry hf _ _ _ he := by
    refine ⟨hf.elements, fun a ha => ?_⟩
    rcases Entry.mem_insert ha with rfl | ha
    · exact he.free
    · exact hf.entries a ha
  comma hf _ := hf
  expr ht _ he := by
    obtain ⟨_, -, he⟩ := he
    rcases he.named _ _ rfl ht with hnil | hgo
    · cases hnil
    · exact sound_standing he.free hgo
  assign _ _ he := sound_stmt nofun (by simpa [children] using he.free)
  definition _ _ hbody := sound_definition hbody.free (.inl rfl)
  localFunction _ _ _ hbody := sound_definition hbody.free (.inr rfl)
  localVar _ _ := sound_stmt nofun nofun
  localInit _ _ _ he := sound_stmt nofun (by simpa [children] using he.free)
  bareReturn _ := sound_stmt nofun nofun
  ret _ hes := by
    refine sound_stmt nofun fun c hc => ?_
    obtain ⟨e, he, rfl⟩ := List.mem_map.1 hc
    obtain ⟨_, h⟩ := hes.exists_of_mem he
    exact h.free
  ifThen _ harm hbs ho _ := by
    obtain ⟨he, -, hbody⟩ := harm
    refine sound_stmt nofun fun c hc => ?_
    simp only [children, List.mem_cons, List.mem_append, List.mem_flatMap, List.not_mem_nil, or_false] at hc
    rcases hc with rfl | rfl | ⟨b, hb, hc⟩ | rfl
    · exact he.free
    · exact hbody.free
    · obtain ⟨_, -, ⟨-, he, -, hbody⟩⟩ := hbs.exists_of_mem hb
      rcases hc with rfl | rfl
      · exact he.free
      · exact hbody.free
    · exact ho.free
  whileLoop _ he hbody := sound_stmt nofun (by simpa [children] using ⟨he.free, hbody.free⟩)
  repeatLoop _ hbody _ he := sound_stmt nofun (by simpa [children] using ⟨hbody.free, he.free⟩)
  forRange _ _ _ hs _ hl hst hbody := by
    refine sound_stmt nofun (List.forall_mem_cons.2 ⟨hs.free, List.forall_mem_cons.2 ⟨hl.free, ?_⟩⟩)
    cases hst with
    | none => simpa using hbody.free
    | some _ he => simpa using ⟨he.free, hbody.free⟩
  forIn _ _ _ _ he hbody := sound_stmt nofun (by simpa [children] using ⟨he.free, hbody.free⟩)

/-! ## Programs -/

/-- Every part of a program is well formed, at any depth. -/
theorem parse_wellFormed {ts : List Token} {file : String} {p : List Stmt} (h : parse ts file = .ok p) :
    ∀ n : Node, n.Within (.block p) → n.WellFormed :=
  (soundConstruction.program h).free.sound

/-- A call with a colon in the body of a local function, behind which there is a bare `return`. -/
theorem parse_wellFormed_localFunction :
    parse [.plain .keyword "local", .plain .keyword "function", .plain .identifier "f", .plain .symbol "(", .plain .symbol ")",
        .plain .identifier "a", .plain .symbol ":", .plain .identifier "b", .plain .symbol "(", .plain .symbol ")",
        .plain .keyword "return", .plain .keyword "end"] "f" =
      .ok [.localVar "f" (some (.definition "f" [] [.expr (.methodCall (.var "a") "b" [.var "a"] true), .ret []]))] ∧
    (Node.block [.expr (.methodCall (.var "a") "b" [.var "a"] true), .ret []]).WellFormed := by
  have h : parse [.plain .keyword "local", .plain .keyword "function", .plain .identifier "f", .plain .symbol "(",
      .plain .symbol ")", .plain .identifier "a", .plain .symbol ":", .plain .identifier "b", .plain .symbol "(",
      .plain .symbol ")", .plain .keyword "return", .plain .keyword "end"] "f" =
    .ok [.localVar "f" (some (.definition "f" [] [.expr (.methodCall (.var "a") "b" [.var "a"] true), .ret []]))] :=
    parseWithin_eq_ok.2 ⟨[], rfl⟩
  refine ⟨h, parse_wellFormed h _ ?_⟩
  exact .child (List.mem_singleton_self _) (.child (List.mem_singleton_self _) (.child (List.mem_singleton_self _) .self))

end MiniLua
