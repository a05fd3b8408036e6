import MiniLua.Proofs.Syntax.First
import MiniLua.Proofs.Reading.Levels
/-!
# What is read is in the grammar

A production that succeeds has taken an instance of its form. One that fails stands
behind the start of an instance: what it took can be completed to one, whatever comes next
in the input. `Reads` says both, so that the same walk over the productions shows that only
programs are accepted and that no error comes before a token that some program has there.

A `return` without values is the one statement that reads no instance of its own form.
It stops before whatever closes its block (`EndsBlock`), where the block ends as well.
-/

namespace MiniLua.Syntax

open MiniLua.Parser

variable {α β : Type} {p : Parser α} {q : α → Parser β} {f g h : List Item} {i : Item} {k : Terminal}
  {t : Token} {ts us w : List Token}

/-- What was taken is an instance of a form, or where that failed the start of one. -/
def ReadsAt (p : Parser α) (f : List Item) (ts : List Token) : Prop :=
  match p ts with
  | .ok (_, rest) => ∃ w, ts = w ++ rest ∧ Derives f w
  | .error e => e.fault = .tooDeep ∨ ∃ w x, ts = w ++ e.rest ∧ Derives f (w ++ x)

def Reads (p : Parser α) (f : List Item) : Prop := ∀ ts, ReadsAt p f ts

namespace ReadsAt

theorem of_ok {a : α} {r : List Token} (hp : p ts = .ok (a, r)) (hw : ts = w ++ r) (hd : Derives f w) :
    ReadsAt p f ts := by
  rw [ReadsAt, hp]
  exact ⟨w, hw, hd⟩

/-- A failure at the first token has taken nothing, which starts everything. -/
theorem of_error {c : Fault} {n : Nat} (hp : p ts = .error ⟨c, ts, n⟩) : ReadsAt p f ts := by
  obtain ⟨x, hx⟩ := exists_derives f
  rw [ReadsAt, hp]
  exact .inr ⟨[], x, rfl, hx⟩

theorem ok (hr : ReadsAt p f ts) {a : α} {rest : List Token} (hp : p ts = .ok (a, rest)) :
    ∃ w, ts = w ++ rest ∧ Derives f w := by
  rwa [ReadsAt, hp] at hr

theorem error (hr : ReadsAt p f ts) {e : Failure} (hp : p ts = .error e) :
    e.fault = .tooDeep ∨ ∃ w x, ts = w ++ e.rest ∧ Derives f (w ++ x) := by
  rwa [ReadsAt, hp] at hr

theorem mono (hr : ReadsAt p f ts) (hfg : ∀ w, Derives f w → Derives g w) : ReadsAt p g ts := by
  unfold ReadsAt at hr ⊢
  split at hr
  · obtain ⟨w, hw, hd⟩ := hr
    exact ⟨w, hw, hfg _ hd⟩
  · exact hr.imp_right fun ⟨w, x, hw, hd⟩ => ⟨w, x, hw, hfg _ hd⟩

/-- Only the run at these tokens matters. -/
theorem congr {p' : Parser α} (hr : ReadsAt p f ts) (hp : p' ts = p ts) : ReadsAt p' f ts := by
  rwa [ReadsAt, hp]

theorem of_rule {n : Nonterminal} (hr : Rule n f) (h : ReadsAt p f ts) : ReadsAt p [.of n] ts :=
  h.mono fun _ => .of_rule hr

/-- One parser after another; the second runs at one place only. -/
theorem append (hp : ReadsAt p f ts) (hq : ∀ a us, p ts = .ok (a, us) → ReadsAt (q a) g us) :
    ReadsAt (p >>= q) (f ++ g) ts := by
  unfold ReadsAt
  rw [bind_run]
  cases hr : p ts with
  | error e =>
    obtain ⟨y, hy⟩ := exists_derives g
    refine (hp.error hr).imp_right fun ⟨w, x, hw, hd⟩ => ⟨w, x ++ y, hw, ?_⟩
    rw [← List.append_assoc]
    exact hd.append hy
  | ok r =>
    obtain ⟨w, rfl, hd⟩ := hp.ok hr
    have hq := hq r.1 r.2 hr
    simp only
    cases hr' : q r.1 r.2 with
    | error e =>
      refine (hq.error hr').imp_right fun ⟨v, x, hv, hd'⟩ => ⟨w ++ v, x, ?_, ?_⟩
      · rw [hv, List.append_assoc]
      · rw [List.append_assoc]
        exact hd.append hd'
    | ok r' =>
      obtain ⟨v, hv, hd'⟩ := hq.ok hr'
      exact ⟨w ++ v, by rw [hv, List.append_assoc], hd.append hd'⟩

theorem bind (hp : ReadsAt p [i] ts) (hq : ∀ a, Reads (q a) g) : ReadsAt (p >>= q) (i :: g) ts :=
  hp.append fun a us _ => hq a us

/-- What comes next may be of either form, which one depends on the tokens there. -/
theorem bind_or (hp : ReadsAt p [i] ts) (hq : ∀ a us, ReadsAt (q a) f us ∨ ReadsAt (q a) g us) :
    ReadsAt (p >>= q) (i :: f) ts ∨ ReadsAt (p >>= q) (i :: g) ts := by
  have hrun : ∀ form, (∀ a us, p ts = .ok (a, us) → ReadsAt (q a) form us) → ReadsAt (p >>= q) (i :: form) ts :=
    fun form h => hp.append h
  cases hr : p ts with
  | error e => exact .inl (hrun f fun a us ha => by rw [hr] at ha; cases ha)
  | ok r =>
    refine (hq r.1 r.2).imp (fun h => hrun f fun a us ha => ?_) fun h => hrun g fun a us ha => ?_
    · rw [hr] at ha
      cases ha
      exact h
    · rw [hr] at ha
      cases ha
      exact h

theorem map {c : α → β} (hp : ReadsAt p f ts) : ReadsAt (c <$> p) f ts := by
  rw [map_eq_pure_bind, ← List.append_nil f]
  exact hp.append fun a us _ => .of_ok rfl (List.nil_append us).symm .nil

theorem ite {b : Prop} [Decidable b] {q : Parser α} (hp : b → ReadsAt p f ts) (hq : ¬ b → ReadsAt q f ts) :
    ReadsAt (if b then p else q) f ts := by
  split
  · next h => exact hp h
  · next h => exact hq h

theorem choice {test : List Token → Bool} {q : Parser α} (hp : test ts = true → ReadsAt p f ts)
    (hq : test ts = false → ReadsAt q f ts) : ReadsAt (fun ts => if test ts then p ts else q ts) f ts := by
  cases h : test ts with
  | true => exact (hp h).congr (by simp [h])
  | false => exact (hq h).congr (by simp [h])

/-- The next token is of the kind that a form starts with. -/
theorem next (hk : k.Matches t) : ReadsAt Parser.next [.one k] (t :: us) :=
  .of_ok rfl rfl (.one hk .nil)

theorem next_bind {q : Token → Parser α} (hk : k.Matches t) (hq : ∀ a, Reads (q a) g) :
    ReadsAt (Parser.next >>= q) (.one k :: g) (t :: us) :=
  (ReadsAt.next hk).bind hq

end ReadsAt

/-! ## Combinators -/

theorem reads_pure (a : α) : Reads (pure a) [] := fun ts => .of_ok rfl (List.nil_append ts).symm .nil

theorem reads_fail (fault : Fault) : Reads (fail fault : Parser α) f := fun _ => .of_error rfl

theorem reads_satisfy {wanted : Expectation} {test : Token → Bool} (h : ∀ t, test t = true → k.Matches t) :
    Reads (satisfy wanted test) [.one k] := by
  intro ts
  cases ts with
  | nil => exact .of_error rfl
  | cons t ts =>
    cases ht : test t with
    | true => exact .of_ok (a := t) (r := ts) (by simp [satisfy, ht]) rfl (.one (h t ht) .nil)
    | false => exact .of_error (c := .expected wanted) (n := 0) (by simp [satisfy, ht])

theorem reads_keyword (word : String) : Reads (keyword word) [.kw word] :=
  reads_satisfy fun _ => Terminal.keyword_iff.2

theorem reads_symbol (text : String) : Reads (symbol text) [.sym text] :=
  reads_satisfy fun _ => Terminal.symbol_iff.2

theorem reads_operator (text : String) : Reads (operator text) [.op text] :=
  reads_satisfy fun _ => Terminal.operator_iff.2

theorem reads_name : Reads name [.name] :=
  fun ts => (reads_satisfy (k := .name) (fun t ht => by simpa [Terminal.Matches] using ht) ts).map

theorem reads_look {wanted : Expectation} {go : Token → Parser α} (h : ∀ t us, ReadsAt (go t) f (t :: us)) :
    Reads (look wanted go) f := by
  intro ts
  cases ts with
  | nil => exact .of_error rfl
  | cons t ts => exact h t ts

/-- The next token decides between two parsers. -/
theorem readsAt_check {test : Token → Bool} {q : Parser α}
    (hp : ∀ t us, ts = t :: us → test t = true → ReadsAt p f ts) (hq : ts.head?.any test = false → ReadsAt q f ts) :
    ReadsAt (check test >>= fun b => if b then p else q) f ts := by
  show ReadsAt (if ts.head?.any test then p else q) f ts
  cases ts with
  | nil => exact hq rfl
  | cons t ts =>
    by_cases ht : test t
    · simpa [ht] using hp t ts rfl ht
    · simpa [ht] using hq (by simp [ht])

theorem readsAt_check_or {test : Token → Bool} {q : Parser α} (hp : ∀ t us, ts = t :: us → test t = true → ReadsAt p f ts)
    (hq : ReadsAt q g ts) :
    ReadsAt (check test >>= fun b => if b then p else q) f ts ∨
      ReadsAt (check test >>= fun b => if b then p else q) g ts := by
  cases h : ts.head?.any test with
  | true => exact .inl (readsAt_check hp fun h' => by simp [h] at h')
  | false =>
    refine .inr (readsAt_check (fun t us hts ht => ?_) fun _ => hq)
    simp [hts, ht] at h

/-- The next token says whether something is there that may be left out. -/
theorem reads_option {test : Token → Bool} {q : Parser α} (hp : ∀ t us, test t = true → ReadsAt p g (t :: us))
    (hq : Reads q []) : Reads (check test >>= fun b => if b then p else q) [.option g] := by
  intro ts
  refine readsAt_check (fun t us hts ht => ?_) fun _ => ?_
  · subst hts
    exact (hp t us ht).mono fun w hw => Derives.option_iff.2 (.inr hw)
  · exact (hq ts).mono fun w hw => .skip hw

theorem reads_rounds {round? : Token → Option (α → Parser α)}
    (h : ∀ t round, round? t = some round → ∀ a us, ReadsAt (round a) [.many f] (t :: us)) :
    ∀ (bound : List Token) (a : α), Reads (rounds round? bound a) [.many f] := by
  intro bound
  induction bound with
  | nil => exact fun a ts => .of_ok rfl (List.nil_append ts).symm (.stop .nil)
  | cons b bound ih =>
    intro a ts
    cases ts with
    | nil => exact .of_ok rfl rfl (.stop .nil)
    | cons t ts =>
      cases hr : round? t with
      | none => exact .of_ok (a := a) (r := t :: ts) (by simp [rounds, hr]) rfl (.stop .nil)
      | some round =>
        have := ((h t round hr a ts).append fun b us _ => ih b us).mono (g := [.many f]) fun w hw => by
          obtain ⟨u, v, rfl, hu, hv⟩ := hw.split
          exact hu.many_append hv
        unfold ReadsAt at this ⊢
        rw [rounds, hr]
        rwa [bind_run] at this

/-- A loop whose rounds read a form any number of times. -/
theorem reads_repeating {round? : Token → Option (α → Parser α)}
    (h : ∀ t round, round? t = some round → ∀ a us, ReadsAt (round a) [.many f] (t :: us)) (a : α) :
    Reads (repeating round? a) [.many f] :=
  fun ts => reads_rounds h ts a ts

theorem reads_many {test : Token → Bool} (h : ∀ t us, test t = true → ReadsAt p f (t :: us)) :
    Reads (many test p) [.many f] := by
  intro ts
  unfold many
  refine ReadsAt.append (g := []) (reads_repeating (fun t round hr items us => ?_) [] ts) fun items us _ => reads_pure _ us
  split at hr
  · next ht =>
    cases hr
    exact (h t us ht).map.mono fun w hw => hw.many_one
  · cases hr

theorem reads_separated (h : Reads p f) : Reads (separated p) (Item.separated f) := by
  intro ts
  unfold separated
  refine (h ts).append fun first us _ => ReadsAt.bind ?_ fun more => reads_pure _
  exact reads_many (fun t us ht => .next_bind (Terminal.symbol_iff.2 ht) fun _ => h) us

theorem reads_parenthesized (h : Reads p f) : Reads (parenthesized p) (Item.parenthesized f) := by
  intro ts
  unfold parenthesized
  refine (reads_symbol _ ts).bind fun _ us => readsAt_check (fun t vs hts ht => ?_) fun _ => ?_
  · subst hts
    exact (ReadsAt.next_bind (Terminal.symbol_iff.2 ht) fun _ => reads_pure _).mono fun w hw => .skip hw
  · refine ((reads_separated h us).append (g := [.sym ")"]) fun items vs _ =>
      (reads_symbol _ vs).bind fun _ => reads_pure _).mono fun w hw => ?_
    obtain ⟨u, v, rfl, hu, hv⟩ := hw.split
    exact .take hu hv

/-! ## Expressions -/

/-- What is nested reads what it should, and an expression that is a name only where nothing continues it. -/
structure NestedReads (inner : Inner) : Prop where
  takes : inner.Takes 0
  name : ∀ {t u us e}, t.kind = .identifier → inner.expr .lowest (t :: u :: us) = .ok (e, u :: us) →
    continuesExpr u = false
  expr : ∀ bound, Reads (inner.expr bound) [.expr]
  argument : Reads inner.argument [.expr]
  block : Reads inner.block [.block]

theorem Derives.expr_of_operand (h : Derives [.operand] w) : Derives [.expr] w := by
  simpa using of_rule .expr (h.append (.stop .nil))

/-- An operator and an expression continue an expression. -/
theorem Derives.tail_of_binary (h : Derives [.binaryOp, .expr] w) : Derives [.many [.binaryOp, .operand]] w := by
  obtain ⟨t, v, rfl, ht, hv⟩ := one_iff.1 h
  obtain ⟨_, ⟨⟩, hv⟩ := hv.exists_rule (by decide)
  obtain ⟨x, y, rfl, hx, hy⟩ := cons_iff.1 hv
  exact .again (.one ht hx) hy

theorem Derives.expr_append (h : Derives [.expr] w) {v : List Token} (hv : Derives [.many [.binaryOp, .operand]] v) :
    Derives [.expr] (w ++ v) := by
  obtain ⟨_, ⟨⟩, hw⟩ := h.exists_rule (by decide)
  obtain ⟨x, y, rfl, hx, hy⟩ := cons_iff.1 hw
  rw [List.append_assoc]
  exact of_rule .expr (hx.append (hy.many_append hv))

theorem Derives.expr_of_unary (h : Derives [.unaryOp, .expr] w) : Derives [.expr] w := by
  obtain ⟨t, v, rfl, ht, hv⟩ := one_iff.1 h
  obtain ⟨_, ⟨⟩, hv⟩ := hv.exists_rule (by decide)
  obtain ⟨x, y, rfl, hx, hy⟩ := cons_iff.1 hv
  exact of_rule .expr ((of_rule .unary (.one ht hx)).append hy)

theorem reads_primary : Reads primary [.expr] := by
  refine reads_look fun t us => ?_
  have hone : Terminal.literal.Matches t ∨ Terminal.name.Matches t → Derives [.expr] [t] := by
    rintro (h | h)
    · exact .expr_of_operand (.of_rule .literal (.one h .nil))
    · exact .expr_of_operand (.of_rule .name (.one h (.stop .nil)))
  cases hv : Literal.ofToken? t with
  | some v =>
    exact .of_ok (w := [t]) rfl rfl (hone (.inl (Terminal.literal_iff.2 ⟨v, hv⟩)))
  | none =>
    by_cases hk : t.kind = .identifier
    · simp only [hk, if_true]
      exact .of_ok (w := [t]) rfl rfl (hone (.inr hk))
    · simp only [hk, if_false]
      exact reads_fail _ _

section
variable {inner : Inner} (hi : NestedReads inner)
include hi

theorem reads_arguments : Reads (arguments inner) [.arguments] :=
  fun ts => (reads_parenthesized hi.argument ts).of_rule .arguments

theorem reads_link {link : Expr → Parser Expr} (hl : link? inner t = some link) (e : Expr) : Reads (link e) [.link] := by
  intro ts
  obtain ⟨-, rfl⟩ | ⟨-, rfl⟩ | ⟨-, rfl⟩ := link?_eq_some hl
  · exact ((reads_arguments hi ts).bind fun args => reads_pure _).of_rule .call
  · refine ((reads_symbol _ ts).bind fun _ us => (reads_name us).bind fun name => ?_).of_rule .member
    exact reads_option (fun t us _ => (reads_arguments hi _).bind fun args => reads_pure _) (reads_pure _)
  · exact ((reads_symbol _ ts).bind fun _ us => (reads_name us).bind fun name vs =>
      (reads_arguments hi vs).bind fun args => reads_pure _).of_rule .method

theorem reads_links (e : Expr) : Reads (links inner e) [.many [.link]] :=
  reads_repeating (fun _ _ hl e _ => (reads_link hi hl e _).mono fun _ hw => hw.many_one) e

theorem reads_field (fields : List Expr × List Entry) : Reads (field inner fields) [.field] := by
  intro ts
  unfold field
  refine .choice (fun hn => ?_) fun _ => .of_rule .positional ((hi.expr _ ts).bind fun _ => reads_pure _)
  match ts, hn with
  | t :: u :: us, hn =>
    have htu : t.kind = .identifier ∧ u.isOperator "=" = true := by simpa [startsNamed] using hn
    refine .of_rule .named ((ReadsAt.next (k := .name) htu.1).append (g := [.op "=", .expr]) fun key vs hv => ?_)
    cases hv
    exact .next_bind (Terminal.operator_iff.2 htu.2) fun _ vs => (hi.expr _ vs).bind fun _ => reads_pure _

/-- The fields after the first, and a comma that stands before the end. -/
theorem reads_nextFields (fields : List Expr × List Entry) :
    Reads (repeating (nextField? inner) fields) [.many [.sym ",", .field], .option [.sym ","]] := by
  have hp := progressive_nextField hi.takes
  intro ts
  induction fields, ts using hp.induction with
  | nil fields => exact .of_ok rfl rfl (.stop (.skip .nil))
  | stop fields t ts hr => exact .of_ok (repeating_of_none hr fields ts) rfl (.stop (.skip .nil))
  | round fields t ts round hr ih =>
    refine .congr ?_ (repeating_of_some hp hr fields ts)
    obtain ⟨hc, rfl⟩ := nextField?_eq_some hr
    have hk := Terminal.symbol_iff.2 hc
    cases hend : ts.head?.any (·.isSymbol "\x7d") with
    | true =>
      -- The comma stands before the end, where the loop stops.
      cases ts with
      | nil => cases hend
      | cons u us =>
        have hu : u.isSymbol "\x7d" = true := by simpa using hend
        refine .of_ok (a := fields) (w := [t]) (r := u :: us) ?_ rfl (.stop (.take (.one hk .nil) .nil))
        simp only [bind_run, next, fieldOrEnd_of_closing _ hu]
        exact repeating_of_none (nextField?_of_closing hu) fields us
    | false =>
      have hround : ReadsAt (next >>= fun _ => fieldOrEnd inner fields) [.sym ",", .field] (t :: ts) := by
        refine (ReadsAt.next hk).append (g := [.field]) fun _ us hus => ?_
        cases hus
        exact (reads_field hi fields ts).congr (fieldOrEnd_of_not_closing hend)
      refine (hround.append ih).mono fun w hw => ?_
      obtain ⟨u, v, rfl, hu, hv⟩ := hw.split
      exact .again hu hv

theorem reads_table : Reads (table inner) [.table] := by
  intro ts
  unfold table
  refine .of_rule .fields ((reads_symbol _ ts).bind fun _ us => ?_)
  cases hend : us.head?.any (·.isSymbol "\x7d") with
  | true =>
    cases us with
    | nil => cases hend
    | cons u us =>
      have hu : u.isSymbol "\x7d" = true := by simpa using hend
      refine .of_ok (a := .table [] []) (w := [u]) (r := us) ?_ rfl (.skip (.one (Terminal.symbol_iff.2 hu) .nil))
      rw [bind_run, fieldOrEnd_of_closing _ hu]
      simp only
      rw [bind_run, repeating_of_none (nextField?_of_closing hu)]
      have hu' : u.is .symbol "\x7d" = true := hu
      simp [bind_run, symbol, exact, satisfy, hu']
  | false =>
    refine ReadsAt.mono (f := [.field] ++ ([.many [.sym ",", .field], .option [.sym ","]] ++ [.sym "\x7d"]))
      (.append ?_ fun fields vs _ => (reads_nextFields hi fields vs).append fun fields ws _ =>
        (reads_symbol _ ws).bind fun _ => reads_pure _) fun w hw => ?_
    · exact (reads_field hi _ us).congr (fieldOrEnd_of_not_closing hend)
    · obtain ⟨u, v, rfl, hu, hv⟩ := Derives.split (f := [.field, .many [.sym ",", .field], .option [.sym ","]]) hw
      exact .take hu hv

theorem reads_functionBody : Reads (functionBody inner) [.functionBody] := by
  intro ts
  unfold functionBody parameters
  refine ((reads_parenthesized reads_name ts).append fun params us _ => ?_).of_rule .functionBody
  exact (hi.block us).bind fun body us => (reads_keyword _ us).bind fun _ => reads_pure _

theorem reads_function : Reads (function inner) [.kw "function", .functionBody] := by
  intro ts
  unfold function
  exact (reads_keyword _ ts).bind fun _ us => (reads_functionBody hi us).bind fun _ => reads_pure _

/-- An operator before an operand brings the whole expression after it. -/
theorem reads_operand : Reads (operand inner) [.expr] := by
  refine reads_look fun t us => ?_
  have hbase : ∀ w, Derives [.operand] w → Derives [.expr] w := fun w => .expr_of_operand
  cases hu : UnaryOp.ofToken? t with
  | some op =>
    exact (ReadsAt.next_bind (k := .unaryOp) (Terminal.unaryOp_iff.2 ⟨op, hu⟩) fun _ us => (hi.expr _ us).bind fun _ => reads_pure _).mono
      fun w => .expr_of_unary
  | none =>
    simp only
    split
    · exact reads_primary _
    · exact reads_primary _
    · exact reads_primary _
    · exact reads_primary _
    · next hk =>
      exact ((ReadsAt.next_bind (k := .name) hk fun _ => reads_links hi _).of_rule .name).mono hbase
    · refine .ite (fun _ => ?_) fun _ => .ite (fun _ => ?_) fun _ => reads_fail _ _
      · unfold grouping
        simp only [bind_assoc, pure_bind]
        exact (((reads_symbol _ _).bind fun _ vs => (hi.expr _ vs).bind fun _ vs => (reads_symbol _ vs).bind fun _ =>
          reads_links hi _).of_rule .group).mono hbase
      · exact ((reads_table hi _).of_rule .table).mono hbase
    · exact .ite (fun _ => ((reads_function hi _).of_rule .lambda).mono hbase) fun _ => reads_fail _ _
    · exact reads_fail _ _

theorem reads_climb (bound : Precedence) : Reads (climb inner bound) [.expr] := by
  intro ts
  unfold climb
  refine ((reads_operand hi ts).append (g := [.many [.binaryOp, .operand]]) fun left us _ =>
    reads_repeating (fun t round hr left us => ?_) left us).mono fun w hw => ?_
  · obtain ⟨op, ho, -, rfl⟩ := tighter?_eq_some hr
    exact (ReadsAt.next_bind (k := .binaryOp) (Terminal.binaryOp_iff.2 ⟨op, ho⟩) fun _ us => (hi.expr _ us).bind fun _ => reads_pure _).mono
      fun w => .tail_of_binary
  · obtain ⟨u, v, rfl, hu, hv⟩ := hw.split
    exact hu.expr_append hv

/-! ## Statements -/

theorem reads_namedFunction : Reads (namedFunction inner) [.kw "function", .name, .functionBody] := by
  intro ts
  unfold namedFunction
  exact (reads_keyword _ ts).bind fun _ us => (reads_name us).bind fun _ us => (reads_functionBody hi us).bind fun _ =>
    reads_pure _

theorem reads_functionStmt : Reads (functionStmt inner) [.stmt] := by
  intro ts
  unfold functionStmt definition
  refine ReadsAt.map (.of_rule .function ?_)
  exact (reads_namedFunction hi ts).append (g := []) fun _ us _ => reads_pure _ us

theorem reads_localStmt : Reads (localStmt inner) [.stmt] := by
  intro ts
  rw [localStmt, localFunction_eq]
  refine (ReadsAt.bind_or (f := [.kw "function", .name, .functionBody]) (g := [.name, .option [.op "=", .expr]])
    (reads_keyword _ ts) fun _ us => ?_).elim (·.of_rule .localFunction) (·.of_rule .localVar)
  refine readsAt_check_or (fun t vs _ _ => ?_) ((reads_name us).bind fun name => ?_)
  · exact (reads_namedFunction hi us).append (g := []) fun _ us _ => reads_pure _ us
  · exact reads_option (fun _ _ ht => .next_bind (Terminal.operator_iff.2 ht) fun _ us => (hi.expr _ us).bind fun _ =>
      reads_pure _) (reads_pure _)

theorem reads_assignment : Reads (assignment inner) [.stmt] := by
  intro ts
  unfold assignment
  exact ((reads_name ts).bind fun _ us => (reads_operator _ us).bind fun _ us => (hi.expr _ us).bind fun _ =>
    reads_pure _).of_rule .assign

theorem reads_guarded : Reads (guarded inner) [.expr, .kw "then", .block] := by
  intro ts
  unfold guarded
  exact (hi.expr _ ts).bind fun _ us => (reads_keyword _ us).bind fun _ us => (hi.block us).bind fun _ => reads_pure _

theorem reads_otherwise : Reads (otherwise inner) [.option [.kw "else", .block]] :=
  reads_option (fun _ _ ht => .next_bind (Terminal.keyword_iff.2 ht) fun _ => hi.block) (reads_pure _)

theorem reads_ifStmt : Reads (ifStmt inner) [.stmt] := by
  intro ts
  unfold ifStmt
  refine .of_rule .ifThen ((reads_keyword _ ts).bind fun _ us => (reads_guarded hi us).append fun arm us _ =>
    (reads_many (fun t us ht => ?_) us).bind fun elseifs us => (reads_otherwise hi us).bind fun rest us =>
    (reads_keyword _ us).bind fun _ => reads_pure _)
  unfold branch
  exact .next_bind (Terminal.keyword_iff.2 ht) fun _ us => (reads_guarded hi us).append (g := []) fun _ us _ =>
    reads_pure _ us

theorem reads_loopBody : Reads (loopBody inner) [.loopBody] := by
  intro ts
  unfold loopBody
  exact ((reads_keyword _ ts).bind fun _ us => (hi.block us).bind fun _ us => (reads_keyword _ us).bind fun _ =>
    reads_pure _).of_rule .loopBody

theorem reads_whileStmt : Reads (whileStmt inner) [.stmt] := by
  intro ts
  unfold whileStmt
  exact ((reads_keyword _ ts).bind fun _ us => (hi.expr _ us).bind fun _ us => (reads_loopBody hi us).bind fun _ =>
    reads_pure _).of_rule .whileLoop

theorem reads_repeatStmt : Reads (repeatStmt inner) [.stmt] := by
  intro ts
  unfold repeatStmt
  exact ((reads_keyword _ ts).bind fun _ us => (hi.block us).bind fun _ us => (reads_keyword _ us).bind fun _ us =>
    (hi.expr _ us).bind fun _ => reads_pure _).of_rule .repeatLoop

theorem reads_step : Reads (step inner) [.option [.sym ",", .expr]] :=
  reads_option (fun _ _ ht => .next_bind (Terminal.symbol_iff.2 ht) fun _ us => (hi.expr _ us).bind fun _ =>
    reads_pure _) (reads_pure _)

theorem reads_forRange (x : String) (ht : (Terminal.operator "=").Matches t) :
    ReadsAt (forRange inner x) [.op "=", .expr, .sym ",", .expr, .option [.sym ",", .expr], .loopBody] (t :: ts) := by
  unfold forRange
  exact .next_bind ht fun _ us => (hi.expr _ us).bind fun _ us => (reads_symbol _ us).bind fun _ us =>
    (hi.expr _ us).bind fun _ us => (reads_step hi us).bind fun _ us => (reads_loopBody hi us).bind fun _ => reads_pure _

theorem reads_forIn (key : String) :
    Reads (Parser.forIn inner key) [.option [.sym ",", .name], .kw "in", .expr, .loopBody] := by
  intro ts
  have hvalue : Reads valueName [.option [.sym ",", .name]] := by
    refine reads_option (fun _ _ ht => ?_) fun us => ?_
    · exact .next_bind (Terminal.symbol_iff.2 ht) fun _ us => (reads_name us).bind fun _ => reads_pure _
    · exact readsAt_check (fun _ _ _ _ => reads_pure _ us) fun _ => reads_fail _ us
  unfold Parser.forIn
  exact (hvalue ts).bind fun _ us => (reads_keyword _ us).bind fun _ us => (hi.expr _ us).bind fun _ us =>
    (reads_loopBody hi us).bind fun _ => reads_pure _

theorem reads_forStmt : Reads (forStmt inner) [.stmt] := by
  intro ts
  unfold forStmt
  refine (ReadsAt.bind_or (f := .name :: _) (g := .name :: _) (reads_keyword _ ts) fun _ us =>
    (reads_name us).bind_or fun x us => readsAt_check_or (fun t vs hus ht => ?_) (reads_forIn hi x us)).elim
    (·.of_rule .forRange) (·.of_rule .forIn)
  subst hus
  exact reads_forRange hi x (Terminal.operator_iff.2 ht)

/-! ## Statements and blocks -/

/-- A statement was read, or a `return` without values. -/
def StmtReadsAt (p : Parser Stmt) (ts : List Token) : Prop :=
  ReadsAt p [.stmt] ts ∨ (ReadsAt p [.kw "return"] ts ∧ ∀ a rest, p ts = .ok (a, rest) → EndsBlock rest)

omit hi in
theorem StmtReadsAt.congr {p p' : Parser Stmt} (h : StmtReadsAt p ts) (hp : p' ts = p ts) : StmtReadsAt p' ts :=
  h.imp (·.congr hp) fun ⟨hr, hend⟩ => ⟨hr.congr hp, fun a rest ha => hend a rest (hp ▸ ha)⟩

theorem reads_returnStmt (ts : List Token) : StmtReadsAt (returnStmt inner) ts := by
  have hfull : (∀ t us, keyword "return" ts = .ok (t, us) → ¬ EndsBlock us) → ReadsAt (returnStmt inner) [.stmt] ts := by
    intro h
    refine ((reads_keyword _ ts).append fun t us hk => readsAt_check (fun _ _ _ _ => ?_) fun hend => ?_).of_rule .ret
    · exact (reads_separated (hi.expr _) us).append (g := []) fun _ us _ => reads_pure _ us
    · exact absurd (endsBlock_iff.2 hend) (h t us hk)
  cases hk : keyword "return" ts with
  | error e => exact .inl (hfull fun t us h => by rw [hk] at h; cases h)
  | ok r =>
    obtain ⟨t, us⟩ := r
    obtain ⟨rfl, ht⟩ := keyword_eq_ok.1 hk
    by_cases hend : EndsBlock us
    · -- Only here is it the last statement of its block.
      have hrun : returnStmt inner (t :: us) = .ok (.ret [], us) := by
        have := endsBlock_iff.1 hend
        rw [returnStmt, bind_run, hk]
        simp [bind_run, check, this]
      refine .inr ⟨.of_ok hrun (w := [t]) rfl (.one (Terminal.keyword_iff.2 ht) .nil), fun a rest hr => ?_⟩
      rw [hrun] at hr
      cases hr
      exact hend
    · refine .inl (hfull fun t' us' h => ?_)
      rw [hk] at h
      cases h
      exact hend

theorem reads_headed (head : StmtHead) (ts : List Token) : StmtReadsAt (headed inner head) ts := by
  cases head with
  | function => exact .inl (reads_functionStmt hi ts)
  | localVar => exact .inl (reads_localStmt hi ts)
  | ret => exact reads_returnStmt hi ts
  | ifThen => exact .inl (reads_ifStmt hi ts)
  | forLoop => exact .inl (reads_forStmt hi ts)
  | whileLoop => exact .inl (reads_whileStmt hi ts)
  | repeatLoop => exact .inl (reads_repeatStmt hi ts)

omit hi in
/-- A name alone starts an assignment. -/
theorem exists_stmt_of_name (ht : t.kind = .identifier) : ∃ x, Derives [.stmt] (t :: x) := by
  obtain ⟨x, hx⟩ := exists_derives [.op "=", .expr]
  exact ⟨x, .of_rule .assign (.one ht hx)⟩

/-- An expression that stands as a statement is read past the token that makes it one. -/
theorem reads_exprStmt (ht : t.kind = .identifier) (hu : continuesExpr u = true) :
    ReadsAt (inner.expr .lowest) [.stmt] (t :: u :: us) := by
  have he := hi.expr .lowest (t :: u :: us)
  have hstmt : ∀ v, Derives [.expr] (t :: u :: v) → Derives [.stmt] (t :: u :: v) := fun v hv => by
    simpa using Derives.headed ht (continues_iff.2 hu) hv .nil
  unfold ReadsAt
  cases hr : inner.expr .lowest (t :: u :: us) with
  | error e =>
    refine (he.error hr).imp_right fun ⟨w, x, hw, hd⟩ => ?_
    obtain ⟨fault, rest, n⟩ := e
    -- Up to the first or second token any statement will do that starts there.
    match w, hw with
    | [], hw =>
      obtain ⟨y, hy⟩ := exists_derives [.stmt]
      exact ⟨[], y, hw, hy⟩
    | [_], hw =>
      cases hw
      obtain ⟨y, hy⟩ := exists_stmt_of_name ht
      exact ⟨[t], y, rfl, hy⟩
    | _ :: _ :: v, hw =>
      cases hw
      exact ⟨t :: u :: v, x, rfl, hstmt _ hd⟩
  | ok r =>
    obtain ⟨w, hw, hd⟩ := he.ok hr
    match w, hw with
    | [], hw =>
      have := (hi.takes.expr _).length_of_ok hr
      rw [hw, List.nil_append] at this
      omega
    | [_], hw =>
      -- A name alone is not read where the expression goes on.
      obtain ⟨e, rest⟩ := r
      cases hw
      rw [hi.name ht hr] at hu
      cases hu
    | _ :: _ :: v, hw =>
      cases hw
      exact ⟨_, rfl, hstmt v hd⟩

theorem reads_nameStmt (ht : t.kind = .identifier) : ReadsAt (nameStmt inner) [.stmt] (t :: ts) := by
  have hfail : ∀ {wanted}, nameStmt inner (t :: ts) = .error ⟨.unexpected wanted, ts, 0⟩ →
      ReadsAt (nameStmt inner) [.stmt] (t :: ts) := by
    intro wanted h
    obtain ⟨x, hx⟩ := exists_stmt_of_name ht
    rw [ReadsAt, h]
    exact .inr ⟨[t], x, rfl, hx⟩
  cases ts with
  | nil => exact hfail rfl
  | cons u us =>
    rcases nameStmt_dispatch inner u with ⟨-, hrun⟩ | ⟨hu, hrun⟩ | hrun
    · exact (reads_assignment hi _).congr (hrun t us)
    · exact (reads_exprStmt hi ht hu).map.congr (hrun t us)
    · exact hfail (hrun t us)

theorem reads_stmt (ts : List Token) : StmtReadsAt (stmt inner) ts := by
  cases ts with
  | nil => exact .inl (.of_error rfl)
  | cons t ts =>
    rcases stmt_dispatch inner t with ⟨ht, hrun⟩ | ⟨head, hrun⟩ | hrun
    · exact .inl ((reads_nameStmt hi ht).congr (hrun ts))
    · exact (reads_headed hi head _).congr (hrun ts)
    · exact .inl ((reads_fail _ _).congr (hrun ts))

/-- After a `return` without values the loop over the statements stops, or fails at once. -/
theorem readsAt_repeating_of_endsBlock {test : Token → Bool} (hend : EndsBlock ts) (stmts : List Stmt) :
    ReadsAt (repeating (fun t => if test t then some fun stmts => (· :: stmts) <$> stmt inner else none) stmts) [] ts := by
  cases ts with
  | nil => exact .of_ok rfl rfl .nil
  | cons c cs =>
    have hc : c.closesBlock = true := ahead_cons.1 hend
    by_cases ht : test c
    · refine .of_error (c := .unexpected .statementOrExpression) (n := 0) ?_
      rw [repeating_of_some (progressive_many (takes_stmt hi.takes) test) (if_pos ht), bind_run, map_eq_pure_bind,
        bind_run, stmt_of_closesBlock hc]
      rfl
    · exact .of_ok (repeating_of_none (by simp [ht]) _ cs) rfl .nil

theorem reads_stmts (test : Token → Bool) : Reads (many test (stmt inner)) [.block] := by
  have hp := progressive_many (takes_stmt hi.takes) test
  have hloop : ∀ stmts, Reads (repeating (fun t => if test t then some fun stmts => (· :: stmts) <$> stmt inner else none) stmts)
      [.many [.stmt], .option [.kw "return"]] := by
    intro stmts ts
    induction stmts, ts using hp.induction with
    | nil stmts => exact .of_ok rfl rfl (.stop (.skip .nil))
    | stop stmts t ts hr => exact .of_ok (repeating_of_none hr stmts ts) rfl (.stop (.skip .nil))
    | round stmts t ts round hr ih =>
      refine .congr ?_ (repeating_of_some hp hr stmts ts)
      obtain ⟨-, hround⟩ := Option.ite_none_right_eq_some.1 hr
      cases hround
      rcases reads_stmt hi (t :: ts) with hs | ⟨hs, hend⟩
      · refine (hs.map.append ih).mono fun w hw => ?_
        obtain ⟨u, v, rfl, hu, hv⟩ := hw.split
        exact .again hu hv
      · refine (hs.map.append (g := []) fun stmts us hus => ?_).mono fun w hw => .stop (Derives.option_iff.2 (.inr hw))
        obtain ⟨a, _, hrun, hr⟩ := bind_eq_ok.1 hus
        cases hr
        exact readsAt_repeating_of_endsBlock hi (hend a us hrun) _
  intro ts
  exact ((hloop [] ts).append (g := []) fun _ us _ => reads_pure _ us).of_rule .block

end

/-! ## Levels -/

theorem ReadsAt.nested (h : ReadsAt p f ts) : ReadsAt (nested p) f ts := by
  unfold ReadsAt at h ⊢
  unfold Parser.nested
  cases hp : p ts <;> rwa [hp] at h

theorem NestedReads.of {expr : Precedence → Parser Expr} {block : Parser (List Stmt)}
    (ht : (Inner.of expr block).Takes 0)
    (hn : ∀ {t u us e}, t.kind = .identifier → expr .lowest (t :: u :: us) = .ok (e, u :: us) → continuesExpr u = false)
    (he : ∀ bound, Reads (expr bound) [.expr]) (hb : Reads block [.block]) : NestedReads (.of expr block) where
  takes := ht
  name := hn
  expr := he
  argument ts := .choice (fun _ => reads_primary ts) fun _ => he .lowest ts
  block := hb

theorem ofLevels_reads (n : Nat) : NestedReads (.ofLevels n) := by
  induction n with
  | zero => exact .of (Inner.ofLevels_takes 0).zero nofun (fun _ => reads_fail _) (reads_fail _)
  | succ n ih =>
    refine .of (Inner.ofLevels_takes (n + 1)).zero (fun ht h => ?_) (fun bound ts => (reads_climb ih bound ts).nested)
      fun ts => (reads_stmts ih _ ts).nested
    refine continuesExpr_of_climb_name (Inner.ofLevels_takes n).zero ht ((EndsAs.ok_iff (endsAs_nested _ _)).1 h)

theorem ofLevels_program_reads (n : Nat) : Reads (program (.ofLevels n)) [.block] := reads_stmts (ofLevels_reads n) _

/-- What is accepted is a program. -/
theorem derives_of_program {n : Nat} {stmts : List Stmt} {rest : List Token}
    (h : program (.ofLevels n) ts = .ok (stmts, rest)) : Derives [.block] ts := by
  obtain ⟨w, rfl, hw⟩ := (ofLevels_program_reads n ts).ok h
  rwa [program_rest (Inner.ofLevels_takes n) h, List.append_nil]

end MiniLua.Syntax
