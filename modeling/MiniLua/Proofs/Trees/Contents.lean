import MiniLua.Proofs.Scanning.Layout
import MiniLua.Proofs.Trees.Construction
import Mathlib.Algebra.Order.Group.Multiset
/-!
# What a program contains

The names, the constants and the operators of a program are those of its source, each of them as many
times (`parseSource_contents`). Each way to put a tree together keeps count of the tokens that it takes. A
table loses a field whose key is given again, so that does not occur; what else there is behind a brace and
before `=` is a key that the table has not got yet (`KeptFields`). The receiver that a call with a colon
holds among its arguments, and the name that a local function has twice, count once.
-/

namespace MiniLua

open MiniLua.Parser

/-! ## Tokens -/

/-- What a token contributes to a program, if it does: a name, a constant or an operator. -/
def Token.content? (t : Token) : Option (Token.Kind × String) :=
  match t.kind with
  | .identifier | .number | .string | .boolean | .nil => some (t.kind, t.value)
  | .operator => if t.value = "=" then none else some (.operator, t.value)
  | .keyword => if t.value ∈ ["and", "or", "not"] then some (.operator, t.value) else none
  | .symbol => none

/-- The names, constants and operators among some tokens. -/
def contents (ts : List Token) : Multiset (Token.Kind × String) := ts.filterMap Token.content?

/-- Tokens that close all braces that they open, and no others. -/
inductive Balanced : List Token → Prop
  | nil : Balanced []
  | cons {t w} : t.isSymbol "\x7b" = false → t.isSymbol "\x7d" = false → Balanced w → Balanced (t :: w)
  | braces {t v u w} : t.isSymbol "\x7b" = true → Balanced v → u.isSymbol "\x7d" = true → Balanced w →
    Balanced (t :: (v ++ u :: w))

/-- Behind the brace that opens a table there is a field with this key, and the table is still open. -/
def HasField (key : String) (w : List Token) : Prop :=
  ∃ u k q v, w = u ++ k :: q :: v ∧ Balanced u ∧ StartsField u ∧ k.kind = .identifier ∧ k.value = key ∧
    q.isOperator "=" = true ∧ Balanced v

/-- Among some tokens there is a table with two fields of the same key. -/
def RepeatsKey (ts : List Token) : Prop :=
  ∃ before t w k q after, ts = before ++ t :: (w ++ k :: q :: after) ∧ t.isSymbol "\x7b" = true ∧ StartsField w ∧
    k.kind = .identifier ∧ q.isOperator "=" = true ∧ HasField k.value w

/-! ## Trees -/

def Literal.content : Literal → Token.Kind × String
  | number text => (.number, text)
  | string value => (.string, value)
  | boolean value => (.boolean, if value then "true" else "false")
  | nil => (.nil, "nil")

/-- Some names. -/
def nameContents (names : List String) : Multiset (Token.Kind × String) := names.map (Token.Kind.identifier, ·)

mutual

/-- The names, constants and operators of an expression. What a call with a colon has as its first argument is
its receiver once more. -/
def Expr.contents : Expr → Multiset (Token.Kind × String)
  | .literal v => {v.content}
  | .binary l op r => l.contents + ({(.operator, op.text)} + r.contents)
  | .unary op e => {(.operator, op.text)} + e.contents
  | .var x => {(.identifier, x)}
  | .namedCall x args => {(.identifier, x)} + exprsContents args
  | .call e args => e.contents + exprsContents args
  | .methodCall e x (_ :: args) true => e.contents + ({(.identifier, x)} + exprsContents args)
  | .methodCall e x args _ => e.contents + ({(.identifier, x)} + exprsContents args)
  | .member e x => e.contents + {(.identifier, x)}
  | .table elements entries => exprsContents elements + entriesContents entries
  | .definition x params body => {(.identifier, x)} + (nameContents params + blockContents body)
  | .function params body => nameContents params + blockContents body

def exprsContents : List Expr → Multiset (Token.Kind × String)
  | [] => 0
  | e :: es => e.contents + exprsContents es

def Entry.contents : Entry → Multiset (Token.Kind × String)
  | .mk key e => {(.identifier, key)} + e.contents

def entriesContents : List Entry → Multiset (Token.Kind × String)
  | [] => 0
  | a :: as => a.contents + entriesContents as

/-- The contents of a value that a variable starts as, if there is one. -/
def initContents : Option Expr → Multiset (Token.Kind × String)
  | none => 0
  | some e => e.contents

/-- The names, constants and operators of a statement. A local function has its name twice. -/
def Stmt.contents : Stmt → Multiset (Token.Kind × String)
  | .expr e => e.contents
  | .assign x e => {(.identifier, x)} + e.contents
  | .localVar x init => (if init.any Expr.isDefinition then 0 else {(.identifier, x)}) + initContents init
  | .ret es => exprsContents es
  | .ifThen e body bs otherwise => e.contents + blockContents body + (branchesContents bs + blockContents otherwise)
  | .whileLoop e body => e.contents + blockContents body
  | .repeatLoop body e => blockContents body + e.contents
  | .forRange x start limit step body =>
    {(.identifier, x)} + (start.contents + (limit.contents + (initContents step + blockContents body)))
  | .forIn x value e body => {(.identifier, x)} + (nameContents value.toList + (e.contents + blockContents body))

/-- The names, constants and operators of a block, and of a program. -/
def blockContents : List Stmt → Multiset (Token.Kind × String)
  | [] => 0
  | s :: ss => s.contents + blockContents ss

def Branch.contents : Branch → Multiset (Token.Kind × String)
  | .mk e body => e.contents + blockContents body

def branchesContents : List Branch → Multiset (Token.Kind × String)
  | [] => 0
  | b :: bs => b.contents + branchesContents bs

end

section
variable {α : Type}

/-- What several things contain. -/
def contentsOf (f : α → Multiset (Token.Kind × String)) (as : List α) : Multiset (Token.Kind × String) := (as.map f).sum

theorem exprsContents_eq (es : List Expr) : exprsContents es = contentsOf Expr.contents es := by
  induction es with
  | nil => rfl
  | cons e es ih => rw [exprsContents, ih]; rfl

theorem blockContents_eq (ss : List Stmt) : blockContents ss = contentsOf Stmt.contents ss := by
  induction ss with
  | nil => rfl
  | cons s ss ih => rw [blockContents, ih]; rfl

theorem branchesContents_eq (bs : List Branch) : branchesContents bs = contentsOf Branch.contents bs := by
  induction bs with
  | nil => rfl
  | cons b bs ih => rw [branchesContents, ih]; rfl

theorem nameContents_eq (names : List String) : nameContents names = contentsOf (fun x => {(.identifier, x)}) names := by
  induction names with
  | nil => rfl
  | cons x names ih => rw [contentsOf, List.map_cons, List.sum_cons, ← contentsOf, ← ih]; rfl

end

theorem exprsContents_reverse (es : List Expr) : exprsContents es.reverse = exprsContents es := by
  rw [exprsContents_eq, exprsContents_eq, contentsOf, contentsOf, List.map_reverse, List.sum_reverse]

/-- A new entry is one more. -/
theorem entriesContents_insert {key : String} {e : Expr} {as : List Entry} (h : ∀ a ∈ as, a.key ≠ key) :
    entriesContents (Entry.insert key e as) = {(.identifier, key)} + e.contents + entriesContents as := by
  induction as with
  | nil => rfl
  | cons a as ih =>
    obtain ⟨ha, has⟩ := List.forall_mem_cons.1 h
    rw [Entry.insert]
    split
    · rfl
    · rw [if_neg (Ne.symm ha), entriesContents, ih has, entriesContents, add_left_comm]

@[simp] theorem Expr.contents_methodCall_dot (e : Expr) (x : String) (args : List Expr) :
    (Expr.methodCall e x args false).contents = e.contents + ({(.identifier, x)} + exprsContents args) := by
  cases args <;> rfl

theorem Expr.contents_applyTo (e : Expr) (args : List Expr) :
    (e.applyTo args).contents = e.contents + exprsContents args := by
  cases e <;> rfl

/-! ## Braces and fields -/

section
variable {t : Token} {u v w : List Token} {key : String}

theorem contents_cons (t : Token) (w : List Token) : contents (t :: w) = contents [t] + contents w := by
  unfold contents
  cases h : t.content? <;> simp [h]

theorem contents_append (v w : List Token) : contents (v ++ w) = contents v + contents w := by
  simp [contents, List.filterMap_append]

theorem Balanced.append (hv : Balanced v) (hw : Balanced w) : Balanced (v ++ w) := by
  induction hv with
  | nil => exact hw
  | cons hopen hclose _ ih => exact .cons hopen hclose ih
  | braces hopen hin hclose _ _ ih =>
    rw [List.cons_append, List.append_assoc]
    exact .braces hopen hin hclose ih

theorem Balanced.single (hopen : t.isSymbol "\x7b" = false) (hclose : t.isSymbol "\x7d" = false) : Balanced [t] :=
  .cons hopen hclose .nil

theorem HasField.append (h : HasField key v) (hw : Balanced w) : HasField key (v ++ w) := by
  obtain ⟨u, k, q, v, rfl, hu, hstart, hk, hkey, hq, hv⟩ := h
  exact ⟨u, k, q, v ++ w, by simp, hu, hstart, hk, hkey, hq, hv.append hw⟩

theorem RepeatsKey.append_right (h : RepeatsKey v) (w : List Token) : RepeatsKey (v ++ w) := by
  obtain ⟨before, t, u, k, q, after, rfl, h⟩ := h
  exact ⟨before, t, u, k, q, after ++ w, by simp, h⟩

theorem RepeatsKey.append_left (h : RepeatsKey w) (v : List Token) : RepeatsKey (v ++ w) := by
  obtain ⟨before, t, u, k, q, after, rfl, h⟩ := h
  exact ⟨v ++ before, t, u, k, q, after, by simp, h⟩

/-- Equal keys are equal names in front of two equals signs. -/
theorem RepeatsKey.exists_lt (h : RepeatsKey ts) : ∃ j < ts.length, ∃ i < j,
    ts[i + 1]?.any (·.isOperator "=") ∧ ts[j + 1]?.any (·.isOperator "=") ∧ ts[i]?.map (·.value) = ts[j]?.map (·.value) := by
  obtain ⟨before, t, -, k, q, after, rfl, -, -, -, hq, u, k', q', v, rfl, -, -, -, hvalue, hq', -⟩ := h
  have hfirst : before ++ t :: ((u ++ k' :: q' :: v) ++ k :: q :: after) =
      (before ++ t :: u) ++ k' :: q' :: (v ++ k :: q :: after) := by simp
  have hsecond : before ++ t :: ((u ++ k' :: q' :: v) ++ k :: q :: after) =
      (before ++ t :: (u ++ k' :: q' :: v)) ++ k :: q :: after := by simp
  refine ⟨(before ++ t :: (u ++ k' :: q' :: v)).length, ?_, (before ++ t :: u).length, ?_, ?_, ?_, ?_⟩
  · simp
  · simp
  · rw [hfirst, List.getElem?_append_right (Nat.le_succ _)]
    simpa using hq'
  · rw [hsecond, List.getElem?_append_right (Nat.le_succ _)]
    simpa using hq
  · conv_lhs => rw [hfirst, List.getElem?_append_right (Nat.le_refl _)]
    rw [hsecond, List.getElem?_append_right (Nat.le_refl _)]
    simpa using hvalue

end

/-! ## Tokens of a source -/

/-- A token that some text spells. -/
def Token.Spelled (t : Token) : Prop := ∃ w, Lexeme.Spells t.kind w t.value.toList

/-- Tokens that are spelled, without a table that repeats a key. -/
structure Tidy (w : List Token) : Prop where
  spelled : ∀ t ∈ w, t.Spelled
  distinct : ¬ RepeatsKey w

section
variable {t : Token} {v w : List Token}

theorem Tidy.left (h : Tidy (v ++ w)) : Tidy v :=
  ⟨fun t ht => h.spelled t (List.mem_append_left w ht), fun hr => h.distinct (hr.append_right w)⟩

theorem Tidy.right (h : Tidy (v ++ w)) : Tidy w :=
  ⟨fun t ht => h.spelled t (List.mem_append_right v ht), fun hr => h.distinct (hr.append_left v)⟩

theorem Tidy.head (h : Tidy (t :: w)) : t.Spelled := h.spelled t List.mem_cons_self

theorem Token.Spelled.reserved (h : t.Spelled) (hk : t.kind = .keyword ∨ t.kind = .boolean ∨ t.kind = .nil) :
    Token.Kind.reserved? t.value = some t.kind := by
  obtain ⟨w, h⟩ := h
  generalize hv : t.value.toList = value at h
  generalize t.kind = kind at h hk
  cases h with
  | reserved h => rwa [← hv, String.ofList_toList] at h
  | _ => simp at hk

theorem Token.Spelled.boolean (h : t.Spelled) (hk : t.kind = .boolean) : t.value = "true" ∨ t.value = "false" := by
  have hr := h.reserved (.inr (.inl hk))
  rw [hk, Kind.reserved?] at hr
  split at hr
  · cases hr
  split at hr
  · next hv => simpa using hv
  split at hr <;> cases hr

theorem Token.Spelled.nil (h : t.Spelled) (hk : t.kind = .nil) : t.value = "nil" := by
  have hr := h.reserved (.inr (.inr hk))
  rw [hk, Kind.reserved?] at hr
  split at hr
  · cases hr
  split at hr
  · cases hr
  split at hr
  · next hv => exact hv
  · cases hr

/-! ## What is kept -/

/-- Tokens with these contents, if they are tidy. -/
structure Kept (k : Multiset (Token.Kind × String)) (w : List Token) : Prop where
  balanced : Balanced w
  contents : Tidy w → k = contents w

section
variable {k l : Multiset (Token.Kind × String)} {u : Token} {text : String}

theorem Kept.nil : Kept 0 [] := ⟨.nil, fun _ => rfl⟩

theorem Kept.append (hv : Kept k v) (hw : Kept l w) : Kept (k + l) (v ++ w) where
  balanced := hv.balanced.append hw.balanced
  contents h := by rw [contents_append, hv.contents h.left, hw.contents h.right]

theorem Kept.cons (ht : Kept k [t]) (hw : Kept l w) : Kept (k + l) (t :: w) := ht.append hw

theorem Kept.skip (ht : Kept 0 [t]) (hw : Kept k w) : Kept k (t :: w) := by
  have h := ht.cons hw
  rwa [zero_add] at h

theorem Kept.snoc_skip (hw : Kept k w) (ht : Kept 0 [t]) : Kept k (w ++ [t]) := by
  have h := hw.append ht
  rwa [add_zero] at h

theorem Kept.braces (ht : t.isSymbol "\x7b" = true) (hw : Balanced w) (hk : Tidy (t :: w) → k = MiniLua.contents w)
    (hu : u.isSymbol "\x7d" = true) : Kept k (t :: (w ++ [u])) where
  balanced := .braces ht hw hu .nil
  contents h := by
    have hsymbol : ∀ {t : Token} {text : String}, t.isSymbol text = true → MiniLua.contents [t] = 0 := by
      intro t text ht
      simp [MiniLua.contents, Token.content?, isSymbol_iff.1 ht]
    rw [← List.cons_append] at h
    rw [contents_cons, contents_append, hsymbol ht, hsymbol hu, zero_add, add_zero, hk h.left]

/-- A token that is no brace. -/
theorem kept_token (hk : t.kind = .symbol → t.value ≠ "\x7b" ∧ t.value ≠ "\x7d")
    (hc : t.Spelled → k = contents [t]) : Kept k [t] := by
  refine ⟨.single ?_ ?_, fun h => hc h.head⟩
  · rw [Bool.eq_false_iff]
    exact fun h => (hk (isSymbol_iff.1 h).1).1 (isSymbol_iff.1 h).2
  · rw [Bool.eq_false_iff]
    exact fun h => (hk (isSymbol_iff.1 h).1).2 (isSymbol_iff.1 h).2

theorem kept_keyword (ht : t.isKeyword text = true) (htext : text ∉ ["and", "or", "not"]) : Kept 0 [t] := by
  obtain ⟨hk, rfl⟩ := isKeyword_iff.1 ht
  exact kept_token (by simp [hk]) fun _ => by simp [contents, Token.content?, hk, htext]

theorem kept_symbol (ht : t.isSymbol text = true) (htext : text ≠ "\x7b" ∧ text ≠ "\x7d") : Kept 0 [t] := by
  obtain ⟨hk, rfl⟩ := isSymbol_iff.1 ht
  exact kept_token (fun _ => htext) fun _ => by simp [contents, Token.content?, hk]

theorem kept_equals (ht : t.isOperator "=" = true) : Kept 0 [t] := by
  obtain ⟨hk, hv⟩ := isOperator_iff.1 ht
  exact kept_token (by simp [hk]) fun _ => by simp [contents, Token.content?, hk, hv]

theorem kept_name (ht : t.kind = .identifier) : Kept {(.identifier, t.value)} [t] :=
  kept_token (by simp [ht]) fun _ => by simp [contents, Token.content?, ht]

/-- A token with the text of an operator that is no equals sign, and which is a keyword just if it is one of those
that are operators. -/
theorem kept_operator (hk : t.kind = .operator ∨ t.kind = .keyword) (hequals : t.value ≠ "=")
    (hkeyword : Token.Kind.reserved? t.value = some .keyword → t.value ∈ ["and", "or", "not"]) :
    Kept {(.operator, t.value)} [t] := by
  refine kept_token (by rcases hk with hk | hk <;> simp [hk]) fun hs => ?_
  rcases hk with hk | hk
  · simp [contents, Token.content?, hk, hequals]
  · have hmem := hkeyword (hk ▸ hs.reserved (.inl hk))
    simp [contents, Token.content?, hk, hmem]

theorem kept_binaryOp {op : BinaryOp} (h : BinaryOp.ofToken? t = some op) : Kept {(.operator, op.text)} [t] := by
  obtain ⟨hk, hv⟩ := BinaryOp.text_of_ofToken? h
  rw [← hv]
  apply kept_operator hk <;> rw [hv] <;> cases op <;> decide

theorem kept_unaryOp {op : UnaryOp} (h : UnaryOp.ofToken? t = some op) : Kept {(.operator, op.text)} [t] := by
  obtain ⟨hk, hv⟩ := UnaryOp.text_of_ofToken? h
  rw [← hv]
  apply kept_operator hk <;> rw [hv] <;> cases op <;> decide

theorem kept_literal {v : Literal} (h : Literal.ofToken? t = some v) : Kept {v.content} [t] := by
  unfold Literal.ofToken? at h
  split at h
  · next hk =>
    cases h
    exact kept_token (by simp [hk]) fun _ => by simp [contents, Token.content?, hk, Literal.content]
  · next hk =>
    cases h
    exact kept_token (by simp [hk]) fun _ => by simp [contents, Token.content?, hk, Literal.content]
  · next hk =>
    cases h
    refine kept_token (by simp [hk]) fun hs => ?_
    rcases hs.boolean hk with hv | hv <;> simp [contents, Token.content?, hk, hv, Literal.content]
  · next hk =>
    cases h
    refine kept_token (by simp [hk]) fun hs => ?_
    simp [contents, Token.content?, hk, hs.nil hk, Literal.content]
  · cases h

section
variable {α : Type} {f : α → Multiset (Token.Kind × String)} {φ : α → List Token → Prop} {as : List α}

theorem kept_row (hφ : ∀ a v, φ a v → Kept (f a) v) (h : Row φ as w) : Kept (contentsOf f as) w := by
  induction h with
  | nil => exact .nil
  | cons ha _ ih => exact (hφ _ _ ha).append ih

theorem kept_listed (hφ : ∀ a v, φ a v → Kept (f a) v) (h : Listed φ as w) : Kept (contentsOf f as) w := by
  obtain ⟨ha, has⟩ := h
  refine (hφ _ _ ha).append (kept_row ?_ has)
  rintro a _ ⟨ht, ha⟩
  exact (kept_symbol ht (by decide)).skip (hφ _ _ ha)

theorem kept_grouped (hφ : ∀ a v, φ a v → Kept (f a) v) (h : Grouped φ as w) : Kept (contentsOf f as) w := by
  cases h with
  | none ht hc => exact (kept_symbol ht (by decide)).skip (kept_symbol hc (by decide))
  | some ht has hc => exact (kept_symbol ht (by decide)).skip ((kept_listed hφ has).snoc_skip (kept_symbol hc (by decide)))

end

end

end

/-- What is kept of an expression: its contents, and that it may stand where no function with a name does. -/
structure KeptExpr (e : Expr) (w : List Token) : Prop where
  kept : Kept e.contents w
  anonymous : e.isDefinition = false

/-- What is kept of the fields of a table that is still open. -/
structure KeptFields (fields : List Expr × List Entry) (w : List Token) : Prop where
  balanced : Balanced w
  keys : ∀ a ∈ fields.2, HasField a.key w
  contents : ∀ t, t.isSymbol "\x7b" = true → Tidy (t :: w) → exprsContents fields.1 + entriesContents fields.2 = contents w

/-- What is kept of a statement. -/
def KeptStmt (s : Stmt) (w : List Token) : Prop := Kept s.contents w

section
variable {n : Nat} {e : Expr} {es : List Expr} {s : Stmt} {body : List Stmt} {params : List String} {t u q : Token}
  {fields : List Expr × List Entry} {v w : List Token}

theorem Leaf.kept (h : Leaf e w) : KeptExpr e w := by
  cases h with
  | literal hv => exact ⟨kept_literal hv, rfl⟩
  | name ht => exact ⟨kept_name ht, rfl⟩

theorem Nested.kept (h : Nested (fun _ => KeptExpr) n e w) : KeptExpr e w := by
  obtain ⟨_, -, h⟩ := h
  exact h

theorem Argument.kept (h : Argument (fun _ => KeptExpr) n e w) : KeptExpr e w := by
  cases h with
  | lone h => exact h.kept
  | nested h => exact h.kept

theorem kept_arguments (h : Grouped (Argument (fun _ => KeptExpr) n) es w) : Kept (exprsContents es) w := by
  rw [exprsContents_eq]
  exact kept_grouped (fun _ _ h => h.kept.kept) h

theorem NestedBlock.kept (h : NestedBlock (fun _ => KeptStmt) n body w) : Kept (blockContents body) w := by
  obtain ⟨_, -, h⟩ := h
  rw [blockContents_eq]
  exact kept_row (fun _ _ h => h) h.each

theorem FunctionBody.kept (h : FunctionBody (fun _ => KeptStmt) n params body w) :
    Kept (nameContents params + blockContents body) w := by
  obtain ⟨hparams, hbody, ht⟩ := h
  rw [nameContents_eq]
  refine .append (kept_grouped ?_ hparams) (hbody.kept.snoc_skip (kept_keyword ht (by decide)))
  rintro _ _ ⟨t, rfl, ht, rfl⟩
  exact kept_name ht

theorem LoopBody.kept (h : LoopBody (fun _ => KeptStmt) n body w) : Kept (blockContents body) w := by
  obtain ⟨ht, hbody, hu⟩ := h
  exact (kept_keyword ht (by decide)).skip (hbody.kept.snoc_skip (kept_keyword hu (by decide)))

theorem Guarded.kept (h : Guarded (fun _ => KeptExpr) (fun _ => KeptStmt) n e body w) :
    Kept (e.contents + blockContents body) w := by
  obtain ⟨he, ht, hbody⟩ := h
  exact he.kept.kept.append ((kept_keyword ht (by decide)).skip hbody.kept)

theorem kept_arms {bs : List Branch} (h : Row (Arm (fun _ => KeptExpr) (fun _ => KeptStmt) n) bs w) :
    Kept (branchesContents bs) w := by
  rw [branchesContents_eq]
  refine kept_row ?_ h
  rintro _ _ ⟨ht, h⟩
  exact (kept_keyword ht (by decide)).skip h.kept

theorem Otherwise.kept (h : Otherwise (fun _ => KeptStmt) n body w) : Kept (blockContents body) w := by
  cases h with
  | none => exact .nil
  | some ht hbody => exact (kept_keyword ht (by decide)).skip hbody.kept

theorem Step.kept {step : Option Expr} (h : Step (fun _ => KeptExpr) n step w) : Kept (initContents step) w := by
  cases h with
  | none => exact .nil
  | some ht he => exact (kept_symbol ht (by decide)).skip he.kept.kept

theorem SecondName.kept {value : Option String} (h : SecondName value w) : Kept (nameContents value.toList) w := by
  cases h with
  | none => exact .nil
  | some ht hu => exact (kept_symbol ht (by decide)).skip (kept_name hu)

/-- One more field with a key: the key is new if none is repeated. -/
theorem KeptFields.entry (hf : KeptFields fields v) (hv : StartsField v) (ht : t.kind = .identifier)
    (hq : q.isOperator "=" = true) (he : KeptExpr e w) :
    KeptFields (fields.1, Entry.insert t.value e fields.2) (v ++ t :: q :: w) := by
  have hfield : Kept ({(.identifier, t.value)} + e.contents) (t :: q :: w) :=
    (kept_name ht).cons ((kept_equals hq).skip he.kept)
  refine ⟨hf.balanced.append hfield.balanced, fun a ha => ?_, fun z hz h => ?_⟩
  · rcases Entry.mem_insert ha with rfl | ha
    · exact ⟨v, t, q, w, rfl, hf.balanced, hv, ht, rfl, hq, he.kept.balanced⟩
    · exact (hf.keys a ha).append hfield.balanced
  · have hnew : ∀ a ∈ fields.2, a.key ≠ t.value := by
      intro a ha hkey
      exact h.distinct ⟨[], z, v, t, q, w, rfl, hz, hv, ht, hq, hkey ▸ hf.keys a ha⟩
    rw [← List.cons_append] at h
    rw [contents_append, ← hf.contents z hz h.left, ← hfield.contents h.right, entriesContents_insert hnew,
      ← add_assoc, add_right_comm, add_assoc]

end

theorem contentsConstruction : Construction (fun _ => KeptExpr) (fun _ => KeptFields) (fun _ => KeptStmt) where
  leaf h := h.kept
  group ht he hu :=
    ⟨(kept_symbol ht (by decide)).skip (he.kept.kept.snoc_skip (kept_symbol hu (by decide))), he.kept.anonymous⟩
  unary hop he := ⟨(kept_unaryOp hop).cons he.kept.kept, rfl⟩
  binary hl hop hr := ⟨hl.kept.append ((kept_binaryOp hop).cons hr.kept.kept), rfl⟩
  call {_ e _ _ _} he hargs := by
    refine ⟨?_, by cases e <;> rfl⟩
    rw [Expr.contents_applyTo]
    exact he.kept.append (kept_arguments hargs)
  member he ht hu := ⟨he.kept.append ((kept_symbol ht (by decide)).skip (kept_name hu)), rfl⟩
  methodCall he ht hu hargs := by
    refine ⟨?_, rfl⟩
    rw [Expr.contents_methodCall_dot]
    exact he.kept.append ((kept_symbol ht (by decide)).skip ((kept_name hu).cons (kept_arguments hargs)))
  colonCall he ht hu hargs :=
    ⟨he.kept.append ((kept_symbol ht (by decide)).skip ((kept_name hu).cons (kept_arguments hargs))), rfl⟩
  function ht h := ⟨(kept_keyword ht (by decide)).skip h.kept, rfl⟩
  table ht hf hu := by
    refine ⟨.braces ht hf.balanced (fun h => ?_) hu, rfl⟩
    rw [Expr.contents, exprsContents_reverse, hf.contents _ ht h]
  noField := ⟨.nil, nofun, fun _ _ _ => rfl⟩
  element hf _ he := by
    have hkept := he.kept.kept
    refine ⟨hf.balanced.append hkept.balanced, fun a ha => (hf.keys a ha).append hkept.balanced, fun t ht h => ?_⟩
    rw [← List.cons_append] at h
    rw [contents_append, ← hf.contents t ht h.left, ← hkept.contents h.right, exprsContents, add_assoc, add_comm]
  entry hf hv ht hq he := hf.entry hv ht hq he.kept
  comma hf ht := by
    have hcomma := kept_symbol ht (by decide)
    refine ⟨hf.balanced.append hcomma.balanced, fun a ha => (hf.keys a ha).append hcomma.balanced, fun t ht h => ?_⟩
    rw [← List.cons_append] at h
    rw [contents_append, ← hf.contents t ht h.left, ← hcomma.contents h.right, add_zero]
  expr _ _ he := he.kept.kept
  assign ht hu he := (kept_name ht).cons ((kept_equals hu).skip he.kept.kept)
  definition ht hu hbody := (kept_keyword ht (by decide)).skip ((kept_name hu).cons hbody.kept)
  localFunction hs ht hu hbody := by
    have h := (kept_keyword hs (by decide)).skip ((kept_keyword ht (by decide)).skip ((kept_name hu).cons hbody.kept))
    rw [← zero_add (_ + _)] at h
    exact h
  localVar hs ht := (kept_keyword hs (by decide)).skip (kept_name ht)
  localInit hs ht hu he := by
    have h := (kept_keyword hs (by decide)).skip ((kept_name ht).cons ((kept_equals hu).skip he.kept.kept))
    simpa [KeptStmt, Stmt.contents, initContents, he.kept.anonymous] using h
  bareReturn ht := kept_keyword ht (by decide)
  ret ht hes := by
    refine (kept_keyword ht (by decide)).skip ?_
    rw [Stmt.contents, exprsContents_eq]
    exact kept_listed (fun _ _ h => h.kept.kept) hes
  ifThen ht harm hbs ho hz := by
    have hrest := (kept_arms hbs).append (ho.kept.snoc_skip (kept_keyword hz (by decide)))
    exact (kept_keyword ht (by decide)).skip (harm.kept.append hrest)
  whileLoop ht he hbody := (kept_keyword ht (by decide)).skip (he.kept.kept.append hbody.kept)
  repeatLoop ht hbody hu he :=
    (kept_keyword ht (by decide)).skip (hbody.kept.append ((kept_keyword hu (by decide)).skip he.kept.kept))
  forRange ht hx hq hs hc hl hst hbody := by
    have hrest := (kept_symbol hc (by decide)).skip (hl.kept.kept.append (hst.kept.append hbody.kept))
    exact (kept_keyword ht (by decide)).skip ((kept_name hx).cons ((kept_equals hq).skip (hs.kept.kept.append hrest)))
  forIn ht hx hv hi he hbody := by
    have hrest := (kept_keyword hi (by decide)).skip (he.kept.kept.append hbody.kept)
    exact (kept_keyword ht (by decide)).skip ((kept_name hx).cons (hv.kept.append hrest))

/-! ## Programs -/

/-- The tokens of a source are spelled. -/
theorem spelled_of_tokenize {source file : String} {ts : List Token} (h : tokenize source file = .ok ts) {t : Token}
    (ht : t ∈ ts) : t.Spelled := by
  obtain ⟨-, w, -, -, hspells, -⟩ := Piece.exists_lexeme h ht
  exact ⟨w, hspells⟩

/-- The names, the constants and the operators of a program are those of its source, each as many times, if
no table of the source repeats a key. -/
theorem parseSource_contents {source file : String} {ts : List Token} {p : List Stmt} (h : parseSource source file = .ok p)
    (hts : tokenize source file = .ok ts) (hkeys : ¬ RepeatsKey ts) : blockContents p = contents ts := by
  have hp : parseWithin maxNesting ts file = .ok p := by
    rw [parseSource, hts] at h
    cases hr : parse ts file with
    | error e => simp [hr] at h
    | ok q =>
      obtain rfl : q = p := by simpa [hr] using h
      exact hr
  have hkept := kept_row (fun _ _ h => h) (contentsConstruction.program hp).each
  rw [blockContents_eq]
  exact hkept.contents ⟨fun _ => spelled_of_tokenize hts, hkeys⟩

/-- A table with two keys, with a call of a method and an operator for a value. -/
theorem parseSource_contents_table :
    ∃ ts, tokenize "return \x7ba=1,b=x:f()-2\x7d" "f" = .ok ts ∧
      parseSource "return \x7ba=1,b=x:f()-2\x7d" "f" =
        .ok [.ret [.table [] [.mk "a" (.literal (.number "1")),
          .mk "b" (.binary (.methodCall (.var "x") "f" [.var "x"] true) .sub (.literal (.number "2")))]]] ∧
      blockContents [.ret [.table [] [.mk "a" (.literal (.number "1")),
          .mk "b" (.binary (.methodCall (.var "x") "f" [.var "x"] true) .sub (.literal (.number "2")))]]] = contents ts := by
  have hts : tokenize "return \x7ba=1,b=x:f()-2\x7d" "f" =
      .ok [⟨.keyword, "return", .ofNat "f" 0 6⟩, ⟨.symbol, "\x7b", .ofNat "f" 7 1⟩,
        ⟨.identifier, "a", .ofNat "f" 8 1⟩, ⟨.operator, "=", .ofNat "f" 9 1⟩, ⟨.number, "1", .ofNat "f" 10 1⟩,
        ⟨.symbol, ",", .ofNat "f" 11 1⟩, ⟨.identifier, "b", .ofNat "f" 12 1⟩, ⟨.operator, "=", .ofNat "f" 13 1⟩,
        ⟨.identifier, "x", .ofNat "f" 14 1⟩, ⟨.symbol, ":", .ofNat "f" 15 1⟩, ⟨.identifier, "f", .ofNat "f" 16 1⟩,
        ⟨.symbol, "(", .ofNat "f" 17 1⟩, ⟨.symbol, ")", .ofNat "f" 18 1⟩, ⟨.operator, "-", .ofNat "f" 19 1⟩,
        ⟨.number, "2", .ofNat "f" 20 1⟩, ⟨.symbol, "\x7d", .ofNat "f" 21 1⟩] := by
    -- One lexeme a step; the blank makes no token.
    iterate 17 refine (scan_of_ok rfl).trans ?_
    exact scan_nil _ _ _
  have h : parseSource "return \x7ba=1,b=x:f()-2\x7d" "f" =
      .ok [.ret [.table [] [.mk "a" (.literal (.number "1")),
        .mk "b" (.binary (.methodCall (.var "x") "f" [.var "x"] true) .sub (.literal (.number "2")))]]] := by
    rw [parseSource, hts]
    rfl
  exact ⟨_, hts, h, parseSource_contents h hts fun hrepeats => absurd hrepeats.exists_lt (by decide)⟩

end MiniLua
