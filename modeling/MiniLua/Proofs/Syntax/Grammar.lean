import MiniLua.Proofs.Reading.Lookahead
/-!
# The grammar

The language as productions over tokens, apart from how it is read:

    block        = {stmt} ["return"]
    stmt         = name "=" expr
                 | expr that starts with a name and "(", ".", ":" or a binary operator
                 | "function" name functionBody
                 | "local" name ["=" expr]
                 | "local" "function" name functionBody
                 | "return" expr {"," expr}
                 | "if" expr "then" block {"elseif" expr "then" block} ["else" block] "end"
                 | "while" expr loopBody
                 | "repeat" block "until" expr
                 | "for" name "=" expr "," expr ["," expr] loopBody
                 | "for" name ["," name] "in" expr loopBody
    functionBody = "(" [name {"," name}] ")" block "end"
    loopBody     = "do" block "end"
    expr         = operand {binop operand}
    operand      = unop operand | literal | table | "function" functionBody
                 | name {link} | "(" expr ")" {link}
    link         = arguments | "." name [arguments] | ":" name arguments
    arguments    = "(" [expr {"," expr}] ")"
    table        = "{" [field {"," field} [","]] "}"
    field        = name "=" expr | expr

A `return` without values can only end its block. Operators have no strength here: any
sequence of operands with operators between them is an expression.
-/

namespace MiniLua.Syntax

/-- What one token must be. -/
inductive Terminal
  | keyword (word : String)
  | symbol (text : String)
  | operator (text : String)
  | name
  | literal
  | unaryOp
  | binaryOp

def Terminal.Matches : Terminal → Token → Prop
  | keyword word, t => t.kind = .keyword ∧ t.value = word
  | symbol text, t => t.kind = .symbol ∧ t.value = text
  | operator text, t => t.kind = .operator ∧ t.value = text
  | name, t => t.kind = .identifier
  | literal, t => t.kind = .number ∨ t.kind = .string ∨ t.kind = .boolean ∨ t.kind = .nil
  | unaryOp, t => (t.kind = .operator ∨ t.kind = .keyword) ∧ t.value ∈ ["-", "not", "#"]
  | binaryOp, t => (t.kind = .operator ∨ t.kind = .keyword) ∧
    t.value ∈ ["^", "*", "/", "%", "+", "-", "..", "<", ">", "<=", ">=", "~=", "==", "and", "or"]

theorem Terminal.keyword_iff {word : String} {t : Token} : (keyword word).Matches t ↔ t.isKeyword word = true :=
  Token.is_iff.symm

theorem Terminal.symbol_iff {text : String} {t : Token} : (symbol text).Matches t ↔ t.isSymbol text = true :=
  Token.is_iff.symm

theorem Terminal.operator_iff {text : String} {t : Token} : (operator text).Matches t ↔ t.isOperator text = true :=
  Token.is_iff.symm

theorem Terminal.literal_iff {t : Token} : literal.Matches t ↔ ∃ v, Literal.ofToken? t = some v := by
  cases hk : t.kind <;> simp [Matches, Literal.ofToken?, hk]

/-- A token is an operator before an operand where the parser takes it for one. -/
theorem Terminal.unaryOp_iff {t : Token} : unaryOp.Matches t ↔ ∃ op, UnaryOp.ofToken? t = some op := by
  constructor
  · rintro ⟨hkind, hvalue⟩
    obtain ⟨op, -, hop⟩ := List.mem_map.1 (show t.value ∈ [UnaryOp.neg, .not, .length].map UnaryOp.text from hvalue)
    exact ⟨op, by rcases hkind with hk | hk <;> simp [UnaryOp.ofToken?, hk, ← hop]⟩
  · rintro ⟨op, h⟩
    obtain ⟨hkind, hvalue⟩ := UnaryOp.text_of_ofToken? h
    exact ⟨hkind, by rw [hvalue]; cases op <;> decide⟩

theorem Terminal.binaryOp_iff {t : Token} : binaryOp.Matches t ↔ ∃ op, BinaryOp.ofToken? t = some op := by
  constructor
  · rintro ⟨hkind, hvalue⟩
    obtain ⟨op, -, hop⟩ := List.mem_map.1 (show t.value ∈ [BinaryOp.pow, .mul, .div, .mod, .add, .sub, .concat, .lt, .gt, .le, .ge, .ne,
      .eq, .and, .or].map BinaryOp.text from hvalue)
    exact ⟨op, by rcases hkind with hk | hk <;> simp [BinaryOp.ofToken?, hk, ← hop]⟩
  · rintro ⟨op, h⟩
    obtain ⟨hkind, hvalue⟩ := BinaryOp.text_of_ofToken? h
    exact ⟨hkind, by rw [hvalue]; cases op <;> decide⟩

inductive Nonterminal
  | block
  | stmt
  | functionBody
  | loopBody
  | expr
  | operand
  | link
  | arguments
  | table
  | field
deriving DecidableEq

/-- A place in a production. -/
inductive Item
  | one (k : Terminal)
  | of (n : Nonterminal)
  /-- A form any number of times. -/
  | many (form : List Item)
  /-- A form once or not at all. -/
  | option (form : List Item)

namespace Item

abbrev kw (word : String) : Item := .one (.keyword word)
abbrev sym (text : String) : Item := .one (.symbol text)
abbrev op (text : String) : Item := .one (.operator text)
abbrev name : Item := .one .name
abbrev literal : Item := .one .literal
abbrev unaryOp : Item := .one .unaryOp
abbrev binaryOp : Item := .one .binaryOp
abbrev block : Item := .of .block
abbrev stmt : Item := .of .stmt
abbrev functionBody : Item := .of .functionBody
abbrev loopBody : Item := .of .loopBody
abbrev expr : Item := .of .expr
abbrev operand : Item := .of .operand
abbrev link : Item := .of .link
abbrev arguments : Item := .of .arguments
abbrev table : Item := .of .table
abbrev field : Item := .of .field

/-- One or more, with commas between them. -/
abbrev separated (form : List Item) : List Item := form ++ [.many (.sym "," :: form)]

/-- None or more in parentheses, with commas between them. -/
abbrev parenthesized (form : List Item) : List Item := [.sym "(", .option (separated form), .sym ")"]

end Item

/-- The productions. -/
inductive Rule : Nonterminal → List Item → Prop
  | block : Rule .block [.many [.stmt], .option [.kw "return"]]
  | assign : Rule .stmt [.name, .op "=", .expr]
  | function : Rule .stmt [.kw "function", .name, .functionBody]
  | localVar : Rule .stmt [.kw "local", .name, .option [.op "=", .expr]]
  | localFunction : Rule .stmt [.kw "local", .kw "function", .name, .functionBody]
  | ret : Rule .stmt (.kw "return" :: Item.separated [.expr])
  | ifThen : Rule .stmt [.kw "if", .expr, .kw "then", .block, .many [.kw "elseif", .expr, .kw "then", .block],
      .option [.kw "else", .block], .kw "end"]
  | whileLoop : Rule .stmt [.kw "while", .expr, .loopBody]
  | repeatLoop : Rule .stmt [.kw "repeat", .block, .kw "until", .expr]
  | forRange : Rule .stmt [.kw "for", .name, .op "=", .expr, .sym ",", .expr, .option [.sym ",", .expr], .loopBody]
  | forIn : Rule .stmt [.kw "for", .name, .option [.sym ",", .name], .kw "in", .expr, .loopBody]
  | functionBody : Rule .functionBody (Item.parenthesized [.name] ++ [.block, .kw "end"])
  | loopBody : Rule .loopBody [.kw "do", .block, .kw "end"]
  | expr : Rule .expr [.operand, .many [.binaryOp, .operand]]
  | unary : Rule .operand [.unaryOp, .operand]
  | literal : Rule .operand [.literal]
  | table : Rule .operand [.table]
  | lambda : Rule .operand [.kw "function", .functionBody]
  | name : Rule .operand [.name, .many [.link]]
  | group : Rule .operand [.sym "(", .expr, .sym ")", .many [.link]]
  | call : Rule .link [.arguments]
  | member : Rule .link [.sym ".", .name, .option [.arguments]]
  | method : Rule .link [.sym ":", .name, .arguments]
  | arguments : Rule .arguments (Item.parenthesized [.expr])
  | fields : Rule .table [.sym "\x7b", .option [.field, .many [.sym ",", .field], .option [.sym ","]], .sym "\x7d"]
  | named : Rule .field [.name, .op "=", .expr]
  | positional : Rule .field [.expr]

/-- What may follow a name at the start of an expression that is a statement. -/
def Continues (t : Token) : Prop :=
  (Terminal.symbol "(").Matches t ∨ (Terminal.symbol ".").Matches t ∨ (Terminal.symbol ":").Matches t ∨
    Terminal.binaryOp.Matches t

theorem continues_iff {t : Token} : Continues t ↔ Parser.continuesExpr t = true := by
  rw [Continues, Terminal.symbol_iff, Terminal.symbol_iff, Terminal.symbol_iff, Terminal.binaryOp_iff]
  simp [Parser.continuesExpr, Option.isSome_iff_exists, or_assoc]

/-- `Derives form w`: the tokens `w` are an instance of the form. -/
inductive Derives : List Item → List Token → Prop
  | nil : Derives [] []
  | one {k t f w} : k.Matches t → Derives f w → Derives (.one k :: f) (t :: w)
  | rule {n g f u w} : Rule n g → Derives g u → Derives f w → Derives (.of n :: f) (u ++ w)
  /-- An expression that stands as a statement. -/
  | headed {t u v f w} : Terminal.name.Matches t → Continues u → Derives [.expr] (t :: u :: v) → Derives f w →
      Derives (.stmt :: f) (t :: u :: v ++ w)
  | skip {g f w} : Derives f w → Derives (.option g :: f) w
  | take {g f u w} : Derives g u → Derives f w → Derives (.option g :: f) (u ++ w)
  | stop {g f w} : Derives f w → Derives (.many g :: f) w
  | again {g f u w} : Derives g u → Derives (.many g :: f) w → Derives (.many g :: f) (u ++ w)

namespace Derives

variable {f g : List Item} {i : Item} {k : Terminal} {n : Nonterminal} {t : Token} {u v w : List Token}

/-! ## Forms and their parts -/

theorem append (h : Derives f u) (h' : Derives g v) : Derives (f ++ g) (u ++ v) := by
  induction h with
  | nil => exact h'
  | one hk _ ih => exact .one hk ih
  | rule hr hg _ _ ih =>
    rw [List.append_assoc]
    exact .rule hr hg ih
  | headed ht hu he _ _ ih =>
    rw [List.append_assoc]
    exact .headed ht hu he ih
  | skip _ ih => exact .skip ih
  | take hg _ _ ih =>
    rw [List.append_assoc]
    exact .take hg ih
  | stop _ ih => exact .stop ih
  | again hg _ _ ih =>
    rw [List.append_assoc]
    exact .again hg ih

/-- A form may be split in front of its first item, so only splits behind that are left to show. -/
theorem split_of_cons {item : Item} {form : List Item} (h : Derives (item :: form) w) (hfg : f ++ g = item :: form)
    (hsplit : ∀ f', f' ++ g = form → ∃ u v, w = u ++ v ∧ Derives (item :: f') u ∧ Derives g v) :
    ∃ u v, w = u ++ v ∧ Derives f u ∧ Derives g v := by
  rcases List.append_eq_cons_iff.1 hfg with ⟨rfl, rfl⟩ | ⟨f', rfl, rfl⟩
  · exact ⟨[], w, rfl, .nil, h⟩
  · exact hsplit f' rfl

theorem split (h : Derives (f ++ g) w) : ∃ u v, w = u ++ v ∧ Derives f u ∧ Derives g v := by
  generalize hfg : f ++ g = form at h
  induction h generalizing f with
  | nil =>
    obtain ⟨rfl, rfl⟩ := List.append_eq_nil_iff.1 hfg
    exact ⟨[], [], rfl, .nil, .nil⟩
  | one hk h ih =>
    refine split_of_cons (.one hk h) hfg fun f' hf => ?_
    obtain ⟨u, v, rfl, hu, hv⟩ := ih hf
    exact ⟨_ :: u, v, rfl, .one hk hu, hv⟩
  | rule hr hg h _ ih =>
    refine split_of_cons (.rule hr hg h) hfg fun f' hf => ?_
    obtain ⟨u, v, rfl, hu, hv⟩ := ih hf
    exact ⟨_, v, (List.append_assoc ..).symm, .rule hr hg hu, hv⟩
  | headed ht hc he h _ ih =>
    refine split_of_cons (.headed ht hc he h) hfg fun f' hf => ?_
    obtain ⟨u, v, rfl, hu, hv⟩ := ih hf
    exact ⟨_, v, (List.append_assoc ..).symm, .headed ht hc he hu, hv⟩
  | skip h ih =>
    refine split_of_cons (.skip h) hfg fun f' hf => ?_
    obtain ⟨u, v, rfl, hu, hv⟩ := ih hf
    exact ⟨u, v, rfl, .skip hu, hv⟩
  | take hg h _ ih =>
    refine split_of_cons (.take hg h) hfg fun f' hf => ?_
    obtain ⟨u, v, rfl, hu, hv⟩ := ih hf
    exact ⟨_, v, (List.append_assoc ..).symm, .take hg hu, hv⟩
  | stop h ih =>
    refine split_of_cons (.stop h) hfg fun f' hf => ?_
    obtain ⟨u, v, rfl, hu, hv⟩ := ih hf
    exact ⟨u, v, rfl, .stop hu, hv⟩
  | @again g' _ _ _ hg h _ ih =>
    refine split_of_cons (.again hg h) hfg fun f' hf => ?_
    obtain ⟨u, v, rfl, hu, hv⟩ := ih (f := .many g' :: f') (congrArg _ hf)
    exact ⟨_, v, (List.append_assoc ..).symm, .again hg hu, hv⟩

theorem nil_iff : Derives [] w ↔ w = [] := by
  constructor
  · rintro ⟨⟩
    rfl
  · rintro rfl
    exact .nil

theorem one_iff : Derives (.one k :: f) w ↔ ∃ t v, w = t :: v ∧ k.Matches t ∧ Derives f v := by
  constructor
  · rintro ⟨⟩
    exact ⟨_, _, rfl, ‹_›, ‹_›⟩
  · rintro ⟨t, v, rfl, hk, hv⟩
    exact .one hk hv

/-- The first item of a form, and the rest. -/
theorem cons_iff : Derives (i :: f) w ↔ ∃ u v, w = u ++ v ∧ Derives [i] u ∧ Derives f v := by
  constructor
  · exact split (f := [i])
  · rintro ⟨u, v, rfl, hu, hv⟩
    exact hu.append hv

theorem of_rule (hr : Rule n g) (h : Derives g w) : Derives [.of n] w := by
  simpa using Derives.rule hr h .nil

/-- A nonterminal other than a statement comes from one of its productions. -/
theorem exists_rule (h : Derives [.of n] w) (hn : n ≠ .stmt) : ∃ g, Rule n g ∧ Derives g w := by
  cases h with
  | rule hr hg h =>
    cases h
    rw [List.append_nil]
    exact ⟨_, hr, hg⟩
  | headed => exact absurd rfl hn

theorem stmt_cases (h : Derives [.stmt] w) :
    (∃ g, Rule .stmt g ∧ Derives g w) ∨
      ∃ t u v, w = t :: u :: v ∧ Terminal.name.Matches t ∧ Continues u ∧ Derives [.expr] w := by
  cases h with
  | rule hr hg h =>
    cases h
    rw [List.append_nil]
    exact .inl ⟨_, hr, hg⟩
  | headed ht hc he h =>
    cases h
    rw [List.append_nil]
    exact .inr ⟨_, _, _, rfl, ht, hc, he⟩

theorem option_iff : Derives [.option g] w ↔ w = [] ∨ Derives g w := by
  constructor
  · intro h
    cases h with
    | skip h => exact .inl (nil_iff.1 h)
    | take hg h =>
      cases h
      rw [List.append_nil]
      exact .inr hg
  · rintro (rfl | h)
    · exact .skip .nil
    · simpa using Derives.take h .nil

theorem many_iff : Derives [.many g] w ↔ ∃ ws : List (List Token), w = ws.flatten ∧ ∀ u ∈ ws, Derives g u := by
  constructor
  · intro h
    generalize hf : [Item.many g] = form at h
    induction h with
    | stop h =>
      cases hf
      exact ⟨[], nil_iff.1 h, by simp⟩
    | @again g' f u w hg h _ ih =>
      cases hf
      obtain ⟨ws, rfl, hws⟩ := ih rfl
      exact ⟨u :: ws, rfl, by simpa using ⟨hg, hws⟩⟩
    | _ => cases hf
  · rintro ⟨ws, rfl, hws⟩
    induction ws with
    | nil => exact .stop .nil
    | cons u ws ih => exact .again (hws u (by simp)) (ih fun v hv => hws v (by simp [hv]))

theorem many_append (h : Derives [.many g] u) (h' : Derives [.many g] v) : Derives [.many g] (u ++ v) := by
  obtain ⟨us, rfl, hus⟩ := many_iff.1 h
  obtain ⟨vs, rfl, hvs⟩ := many_iff.1 h'
  refine many_iff.2 ⟨us ++ vs, by simp, fun w hw => ?_⟩
  rcases List.mem_append.1 hw with hw | hw
  · exact hus w hw
  · exact hvs w hw

theorem many_one (h : Derives g w) : Derives [.many g] w := by
  simpa using Derives.again h (.stop .nil)

end Derives

/-! ## Every form has an instance -/

theorem Terminal.exists_matches (k : Terminal) : ∃ t, k.Matches t := by
  cases k with
  | keyword word => exact ⟨.plain .keyword word, rfl, rfl⟩
  | symbol text => exact ⟨.plain .symbol text, rfl, rfl⟩
  | operator text => exact ⟨.plain .operator text, rfl, rfl⟩
  | name => exact ⟨.plain .identifier "", rfl⟩
  | literal => exact ⟨.plain .nil "nil", .inr (.inr (.inr rfl))⟩
  | unaryOp => exact ⟨.plain .operator "-", .inl rfl, by decide⟩
  | binaryOp => exact ⟨.plain .operator "+", .inl rfl, by decide⟩

theorem exists_derives_of (n : Nonterminal) : ∃ w, Derives [.of n] w := by
  obtain ⟨x, hx⟩ := Terminal.name.exists_matches
  have hblock : Derives [.block] [] := .of_rule .block (.stop (.skip .nil))
  have hopen : ∀ form, Derives (Item.parenthesized form) [.plain .symbol "(", .plain .symbol ")"] := fun form =>
    .one (t := .plain .symbol "(") ⟨rfl, rfl⟩ (.skip (.one (t := .plain .symbol ")") ⟨rfl, rfl⟩ .nil))
  have hnil : Derives [.operand] [.plain .nil "nil"] :=
    .of_rule .literal (.one (t := .plain .nil "nil") (.inr (.inr (.inr rfl))) .nil)
  have hexpr : Derives [.expr] [.plain .nil "nil"] := .of_rule .expr (hnil.append (.stop .nil))
  cases n with
  | block => exact ⟨_, hblock⟩
  | stmt =>
    exact ⟨_, .of_rule .localVar (.one (t := .plain .keyword "local") ⟨rfl, rfl⟩ (.one hx (.skip .nil)))⟩
  | functionBody =>
    exact ⟨_, .of_rule .functionBody ((hopen _).append (hblock.append (.one (t := .plain .keyword "end") ⟨rfl, rfl⟩ .nil)))⟩
  | loopBody =>
    exact ⟨_, .of_rule .loopBody (.one (t := .plain .keyword "do") ⟨rfl, rfl⟩
      (hblock.append (.one (t := .plain .keyword "end") ⟨rfl, rfl⟩ .nil)))⟩
  | expr => exact ⟨_, hexpr⟩
  | operand => exact ⟨_, hnil⟩
  | link => exact ⟨_, .of_rule .call (.of_rule .arguments (hopen _))⟩
  | arguments => exact ⟨_, .of_rule .arguments (hopen _)⟩
  | table =>
    exact ⟨_, .of_rule .fields (.one (t := .plain .symbol "\x7b") ⟨rfl, rfl⟩
      (.skip (.one (t := .plain .symbol "\x7d") ⟨rfl, rfl⟩ .nil)))⟩
  | field => exact ⟨_, .of_rule .positional hexpr⟩

theorem exists_derives (f : List Item) : ∃ w, Derives f w := by
  induction f with
  | nil => exact ⟨[], .nil⟩
  | cons i f ih =>
    obtain ⟨w, hw⟩ := ih
    cases i with
    | one k =>
      obtain ⟨t, ht⟩ := k.exists_matches
      exact ⟨t :: w, .one ht hw⟩
    | of n =>
      obtain ⟨u, hu⟩ := exists_derives_of n
      exact ⟨u ++ w, hu.append hw⟩
    | many g => exact ⟨w, .stop hw⟩
    | option g => exact ⟨w, .skip hw⟩

end MiniLua.Syntax
