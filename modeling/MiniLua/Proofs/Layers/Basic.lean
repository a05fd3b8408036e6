import MiniLua.Proofs.Reading.Levels
import MiniLua.Proofs.Reading.Lookahead
/-!
# Expressions in layers

The grammar of expressions with one layer for each strength of operators:

    or   = and {"or" and}
    and  = cmp {"and" cmp}
    cmp  = cat {("<" | ">" | "<=" | ">=" | "~=" | "==") cat}
    cat  = add {".." add}
    add  = mul {("+" | "-") mul}
    mul  = un {("*" | "/" | "%") un}
    un   = ("-" | "not" | "#") un | pow
    pow  = operand ["^" un]

Each chain is folded to the left. Every layer lists its operators with how they are written
(`writtenAs?`); there is no table of strengths. What is nested in an operand is read in layers
again, and a lone argument like any other expression. `read` has as many levels as it needs.
-/

namespace MiniLua.Layered

open MiniLua.Parser

/-! ## Operators -/

/-- Whether a token is an operator or a keyword that is written so. -/
def writtenSo (text : String) (t : Token) : Bool :=
  (t.kind = .operator || t.kind = .keyword) && t.value = text

/-- The one of some operators, each with how it is written, that a token is. -/
def writtenAs? {α : Type} (ops : List (String × α)) (t : Token) : Option α :=
  (ops.find? fun op => writtenSo op.1 t).map (·.2)

/-- The prefix operator that a token is. -/
def prefixAs? : Token → Option UnaryOp :=
  writtenAs? [("-", .neg), ("not", .not), ("#", .length)]

theorem writtenSo_iff {text : String} {t : Token} :
    writtenSo text t = true ↔ (t.kind = .operator ∨ t.kind = .keyword) ∧ t.value = text := by
  simp [writtenSo]

/-- The operator found in a list is the one that the token is, if the texts tell which one that is. -/
theorem writtenAs?_eq_some_iff {α : Type} {ops : List (String × α)} {t : Token} {found : Option α}
    (h : ∀ p ∈ ops, writtenSo p.1 t = true ↔ found = some p.2) {op : α} :
    writtenAs? ops t = some op ↔ found = some op ∧ op ∈ ops.map (·.2) := by
  have hread : ∀ p, ops.find? (fun op => writtenSo op.1 t) = some p → p ∈ ops ∧ found = some p.2 := fun p hp =>
    have hmem := List.mem_of_find?_eq_some hp
    ⟨hmem, (h p hmem).1 (List.find?_some (p := fun op : String × α => writtenSo op.1 t) hp)⟩
  rw [writtenAs?, Option.map_eq_some_iff]
  constructor
  · rintro ⟨p, hp, rfl⟩
    obtain ⟨hmem, hfound⟩ := hread p hp
    exact ⟨hfound, List.mem_map_of_mem hmem⟩
  · rintro ⟨hfound, hop⟩
    obtain ⟨p, hmem, rfl⟩ := List.mem_map.1 hop
    cases hq : ops.find? fun op => writtenSo op.1 t with
    | none => exact absurd ((h p hmem).2 hfound) (List.find?_eq_none.1 hq p hmem)
    | some q => exact ⟨q, rfl, Option.some.inj ((hread q hq).2.symm.trans hfound)⟩

theorem writtenSo_text_iff {op : BinaryOp} {t : Token} : writtenSo op.text t = true ↔ BinaryOp.ofToken? t = some op := by
  rw [writtenSo_iff]
  constructor
  · rintro ⟨hk | hk, hv⟩ <;> simp [BinaryOp.ofToken?, hk, hv]
  · exact BinaryOp.text_of_ofToken?

/-- A layer takes a token for the operator it is, if that is one of the layer. -/
theorem writtenAs?_binary {ops : List (String × BinaryOp)} (htext : ∀ p ∈ ops, p.1 = p.2.text) {t : Token} {op : BinaryOp} :
    writtenAs? ops t = some op ↔ BinaryOp.ofToken? t = some op ∧ op ∈ ops.map (·.2) :=
  writtenAs?_eq_some_iff fun p hp => htext p hp ▸ writtenSo_text_iff

theorem prefixAs?_eq (t : Token) : prefixAs? t = UnaryOp.ofToken? t := by
  have htext : ∀ p ∈ [("-", UnaryOp.neg), ("not", .not), ("#", .length)],
      writtenSo p.1 t = true ↔ UnaryOp.ofToken? t = some p.2 := by
    intro p hp
    have hp' : p.1 = p.2.text := by
      revert p
      decide
    rw [hp', writtenSo_iff]
    constructor
    · rintro ⟨hk | hk, hv⟩ <;> simp [UnaryOp.ofToken?, hk, hv]
    · exact UnaryOp.text_of_ofToken?
  refine Option.ext fun op => (writtenAs?_eq_some_iff htext).trans (and_iff_left ?_)
  cases op <;> decide

/-! ## Layers -/

section
variable (inner : Inner)

/-- A constant, a table, a function, or a name or parentheses with their links. -/
def operand : Parser Expr :=
  look .expression fun t =>
    match t.kind with
    | .number | .string | .boolean | .nil => primary
    | .identifier => do
      let _ ← next
      links inner (.var t.value)
    | .symbol =>
      if t.value = "(" then do
        let e ← grouping inner
        links inner e
      else if t.value = "\x7b" then table inner
      else unexpectedToken
    | .keyword => if t.value = "function" then function inner else unexpectedToken
    | .operator => unexpectedToken

def pow : Parser Expr := do
  let base ← operand inner
  if ← check (writtenSo "^") then
    let _ ← next
    let exponent ← inner.expr .unary
    pure (.binary base .pow exponent)
  else pure base

/-- A prefix operator with what it works on, or else something without one. -/
def prefixed (plain : Parser Expr) : Parser Expr :=
  look .expression fun t =>
    match prefixAs? t with
    | some op => do
      let _ ← next
      let e ← inner.expr .unary
      pure (.unary op e)
    | none => plain

def un : Parser Expr := prefixed inner (pow inner)

/-- An operator of a layer, taken for the next token, and the item after it. -/
def fold? (ops : List (String × BinaryOp)) (item : Parser Expr) (t : Token) : Option (Expr → Parser Expr) :=
  match writtenAs? ops t with
  | some op =>
    some fun left => do
      let _ ← next
      let right ← item
      pure (.binary left op right)
  | none => none

/-- Items with operators of a layer between them, folded to the left. -/
def chain (ops : List (String × BinaryOp)) (item : Parser Expr) : Parser Expr := do
  let first ← item
  repeating (fold? ops item) first

def mul : Parser Expr := chain [("*", .mul), ("/", .div), ("%", .mod)] (un inner)

def add : Parser Expr := chain [("+", .add), ("-", .sub)] (mul inner)

def cat : Parser Expr := chain [("..", .concat)] (add inner)

def cmp : Parser Expr := chain [("<", .lt), (">", .gt), ("<=", .le), (">=", .ge), ("~=", .ne), ("==", .eq)] (cat inner)

def andChain : Parser Expr := chain [("and", .and)] (cmp inner)

def orChain : Parser Expr := chain [("or", .or)] (andChain inner)

/-- The layer of what binds tighter than a bound. -/
def layer : Precedence → Parser Expr
  | .lowest => orChain inner
  | .or => andChain inner
  | .and => cmp inner
  | .comparison => cat inner
  | .concat => add inner
  | .additive => mul inner
  | .multiplicative => un inner
  | .unary => un inner
  | .power => prefixed inner (operand inner)

end

/-- What is nested in a layer, with a number of levels left. -/
def nest : Nat → Inner
  | 0 => ⟨fun _ => fail .tooDeep, fail .tooDeep, fail .tooDeep⟩
  | n + 1 =>
    let inner := nest n
    ⟨fun bound => nested (layer inner bound), nested (layer inner .lowest), nested (block inner)⟩

/-- Reads the layer of a bound, with more levels than there are tokens. -/
def read (bound : Precedence) : Parser Expr := fun ts => (nest (ts.length + 1)).expr bound ts

/-! ## Layers take tokens -/

section
variable {inner : Inner} {k n : Nat} (h : inner.Takes n)

theorem fold?_eq_some {ops : List (String × BinaryOp)} {item : Parser Expr} {t : Token} {round : Expr → Parser Expr}
    (hr : fold? ops item t = some round) :
    ∃ op, round = fun left => next >>= fun _ => item >>= fun right => pure (.binary left op right) := by
  unfold fold? at hr
  split at hr
  · next op _ => exact ⟨op, (Option.some.inj hr).symm⟩
  · cases hr

theorem takes_fold {ops : List (String × BinaryOp)} {item : Parser Expr} (hi : item.Takes 1 k) {t : Token}
    {round : Expr → Parser Expr} (hr : fold? ops item t = some round) (left : Expr) : (round left).Takes 1 k := by
  obtain ⟨op, rfl⟩ := fold?_eq_some hr
  exact (takes_next.bind fun _ => (hi.of_le (Nat.le_refl 1) (Nat.sub_le k 1)).bind fun _ => takes_pure _).of_le
    (by omega) (Nat.le_refl k)

theorem takes_chain {ops : List (String × BinaryOp)} {item : Parser Expr} (hi : item.Takes 1 k) :
    (chain ops item).Takes 1 k := by
  unfold chain
  exact hi.bind fun _ => (Takes.repeating (fun _ _ hr => takes_fold hi hr) _).of_le (Nat.le_refl 0) (Nat.sub_le k 1)

theorem progressive_fold {ops : List (String × BinaryOp)} {item : Parser Expr} (hi : item.Takes 1 k) :
    Progressive (fold? ops item) :=
  fun _ _ hr left => takes_fold (hi.of_le (Nat.le_refl 1) (Nat.zero_le k)) hr left

include h

theorem takes_operand : (operand inner).Takes 1 (n + 1) := by
  unfold operand
  refine .look fun t => ?_
  split
  · exact takes_primary
  · exact takes_primary
  · exact takes_primary
  · exact takes_primary
  · exact takes_next.bind fun _ => (takes_links h _).of_le (Nat.le_refl 0) (by omega)
  · refine .ite ?_ (.ite (takes_table h) (takes_fail nofun))
    exact (takes_grouping h).bind fun _ => (takes_links h _).of_le (Nat.le_refl 0) (by omega)
  · exact .ite (takes_function h) (takes_fail nofun)
  · exact takes_fail nofun

theorem takes_prefixed {plain : Parser Expr} (hp : plain.Takes 1 (n + 1)) : (prefixed inner plain).Takes 1 (n + 1) := by
  unfold prefixed
  refine .look fun t => ?_
  split
  · exact (takes_next.bind fun _ => (h.expr _).bind fun _ => takes_pure _).of_le (by omega) (Nat.le_refl _)
  · exact hp

theorem takes_pow : (pow inner).Takes 1 (n + 1) := by
  unfold pow
  refine (takes_operand h).bind fun _ => (takes_check _).bind fun _ => .ite ?_ (takes_pure _)
  exact (takes_next.bind fun _ => ((h.expr _).of_le (Nat.le_refl 1) (by omega)).bind fun _ => takes_pure _).of_le
    (by omega) (Nat.le_refl _)

theorem takes_un : (un inner).Takes 1 (n + 1) := takes_prefixed h (takes_pow h)

theorem takes_layer (bound : Precedence) : (layer inner bound).Takes 1 (n + 1) := by
  have hm : (mul inner).Takes 1 (n + 1) := takes_chain (takes_un h)
  have hc : (cmp inner).Takes 1 (n + 1) := takes_chain (takes_chain (takes_chain hm))
  cases bound with
  | lowest => exact takes_chain (takes_chain hc)
  | or => exact takes_chain hc
  | and => exact hc
  | comparison => exact takes_chain (takes_chain hm)
  | concat => exact takes_chain hm
  | additive => exact hm
  | multiplicative => exact takes_un h
  | unary => exact takes_un h
  | power => exact takes_prefixed h (takes_operand h)
end

theorem nest_takes (n : Nat) : (nest n).Takes n := by
  induction n with
  | zero =>
    refine ⟨fun _ ts => ?_, fun ts => ?_, fun ts => ?_⟩
    · exact ⟨List.suffix_refl _, fun _ => Nat.le_refl _⟩
    · exact ⟨List.suffix_refl _, fun _ => Nat.le_refl _⟩
    · exact ⟨List.suffix_refl _, fun _ => Nat.le_refl _⟩
  | succ n ih =>
    exact ⟨fun bound => (takes_layer ih bound).nested, (takes_layer ih _).nested, (takes_block ih).nested⟩

/-! ## Layers keep relations -/

section
variable {R : {α : Type} → Parser α → Parser α → Prop} (hR : Congruence @R) {inner inner' : Inner}
include hR

theorem related_chain {k k' : Nat} {ops : List (String × BinaryOp)} {item item' : Parser Expr} (ht : item.Takes 1 k)
    (ht' : item'.Takes 1 k') (hi : R item item') : R (chain ops item) (chain ops item') := by
  unfold chain
  refine hR.bind hi fun left => hR.repeating (progressive_fold ht) (progressive_fold ht') (fun t => ?_) left
  unfold fold?
  split
  · exact .some fun _ => hR.bind hR.next fun _ => hR.bind hi fun _ => hR.pure _
  · exact .none

variable (h : Agree @R inner inner')
include h

theorem related_operand : R (operand inner) (operand inner') := by
  unfold operand
  refine hR.look _ fun t => ?_
  split
  · exact hR.primary
  · exact hR.primary
  · exact hR.primary
  · exact hR.primary
  · exact hR.bind hR.next fun _ => hR.links h _
  · exact hR.ite (hR.bind (hR.grouping h) fun _ => hR.links h _) (hR.ite (hR.table h) (hR.fail _ nofun))
  · exact hR.ite (hR.function h) (hR.fail _ nofun)
  · exact hR.fail _ nofun

theorem related_prefixed {plain plain' : Parser Expr} (hp : R plain plain') :
    R (prefixed inner plain) (prefixed inner' plain') := by
  unfold prefixed
  refine hR.look _ fun t => ?_
  split
  · exact hR.bind hR.next fun _ => hR.bind (h.expr _) fun _ => hR.pure _
  · exact hp

theorem related_un : R (un inner) (un inner') := by
  refine related_prefixed hR h (hR.bind (related_operand hR h) fun _ => hR.bind (hR.check _) fun _ => hR.ite ?_ (hR.pure _))
  exact hR.bind hR.next fun _ => hR.bind (h.expr _) fun _ => hR.pure _

theorem related_layer (bound : Precedence) : R (layer inner bound) (layer inner' bound) := by
  have ht := h.takes
  have ht' := h.takes'
  have hu := related_un hR h
  have hm : R (mul inner) (mul inner') := related_chain hR (takes_un ht) (takes_un ht') hu
  have ha : R (add inner) (add inner') := related_chain hR (takes_layer ht .additive) (takes_layer ht' .additive) hm
  have hc : R (cat inner) (cat inner') := related_chain hR (takes_layer ht .concat) (takes_layer ht' .concat) ha
  have hp : R (cmp inner) (cmp inner') := related_chain hR (takes_layer ht .comparison) (takes_layer ht' .comparison) hc
  have hn : R (andChain inner) (andChain inner') := related_chain hR (takes_layer ht .and) (takes_layer ht' .and) hp
  cases bound with
  | lowest => exact related_chain hR (takes_layer ht .or) (takes_layer ht' .or) hn
  | or => exact hn
  | and => exact hp
  | comparison => exact hc
  | concat => exact ha
  | additive => exact hm
  | multiplicative => exact hu
  | unary => exact hu
  | power => exact related_prefixed hR h (related_operand hR h)
end

end MiniLua.Layered
