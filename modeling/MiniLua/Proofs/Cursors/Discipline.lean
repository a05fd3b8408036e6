import MiniLua.Proofs.Cursors.Productions
import MiniLua.Proofs.Errors.Origin
/-!
# Where a walk leaves the cursor

A walk over a production ends, and never moves the cursor back, nor past the last token. If it
succeeds, all levels it opened are closed again. If it fails, the levels are still open that were open where
it failed, and that is where its error is: `exit` is not reached from there (`walk_disciplined`).
-/

namespace MiniLua

open MiniLua.Parser

/-! ## Levels of a failure -/

/-- A run with `n` levels left fails with no more than these open. -/
theorem Inner.ofLevels_levels (n : Nat) : (ofLevels n).Fails fun e => e.levels ≤ n :=
  ofLevels_fails (P := fun n e => e.levels ≤ n) (fun _ => Nat.le_refl 0) (fun n _ _ _ => Nat.zero_le n)
    (fun _ _ h => Nat.succ_le_succ h) n

namespace Cursor

variable {α : Type} {c : Cursor} {w : Walk α} {p : Inner → Parser α} {least : Nat}

/-! ## Productions -/

/-- The productions, as walks and as parsers, with how many tokens each of them takes at least. -/
inductive Production : Nat → {α : Type} → Walk α → (Inner → Parser α) → Prop
  | expr (bound : Precedence) : Production 1 (Walk.Nested.all.expr bound) (·.expr bound)
  | operand : Production 1 (Walk.operand .all) Parser.operand
  | primary : Production 1 Walk.primary fun _ => Parser.primary
  | grouping : Production 1 (Walk.grouping .all) Parser.grouping
  | binary (left : Expr) (op : BinaryOp) (bound : Precedence) :
    Production 1 (Walk.binary .all left op bound) (Parser.binary · left op bound)
  | links (base : Expr) : Production 0 (Walk.links .all base) (Parser.links · base)
  | call (callee : Expr) : Production 1 (Walk.call .all callee) (Parser.call · callee)
  | member (object : Expr) : Production 1 (Walk.member .all object) (Parser.member · object)
  | methodCall (receiver : Expr) : Production 1 (Walk.methodCall .all receiver) (Parser.methodCall · receiver)
  | arguments : Production 1 (Walk.arguments .all) Parser.arguments
  | table : Production 1 (Walk.table .all) Parser.table
  | parameters : Production 1 Walk.parameters fun _ => Parser.parameters
  | function : Production 1 (Walk.function .all) Parser.function
  | definition : Production 1 (Walk.definition .all) Parser.definition
  | block : Production 0 Walk.Nested.all.block (·.block)
  | stmt : Production 1 (Walk.stmt .all) Parser.stmt
  | headed (head : StmtHead) : Production 1 (Walk.headed .all head) (Parser.headed · head)

/-- Each walk follows its parser. -/
theorem Production.follows (h : Production least w p) {n : Nat} (hle : n ≤ maxNesting) : Walk.Follows n w (p (.ofLevels n)) := by
  have hn := Walk.nests_all hle
  cases h with
  | expr bound => exact hn.expr bound
  | operand => exact Walk.operand_follows hn
  | primary => exact Walk.primary_follows
  | grouping => exact Walk.grouping_follows hn
  | binary left op bound => exact Walk.binary_follows hn left op bound
  | links base => exact Walk.links_follows hn base
  | call callee => exact Walk.call_follows hn callee
  | member object => exact Walk.member_follows hn object
  | methodCall receiver => exact Walk.methodCall_follows hn receiver
  | arguments => exact Walk.arguments_follows hn
  | table => exact Walk.table_follows hn
  | parameters => exact Walk.parameters_follows
  | function => exact Walk.function_follows hn
  | definition => exact Walk.definition_follows hn
  | block => exact hn.block
  | stmt => exact Walk.stmt_follows hn
  | headed head => exact Walk.headed_follows hn head

/-- The walk and the run come to the same. -/
theorem Production.walk_eq_run (h : Production least w p) (hindex : c.index ≤ c.tokens.length) (hdepth : c.depth ≤ maxNesting) :
    c.walk w = some (c.run p) :=
  (h.follows (Nat.sub_le maxNesting c.depth)).walk c hindex (Nat.add_sub_cancel' hdepth)

/-- A production takes its tokens, with any number of levels left. -/
theorem Production.takes (h : Production least w p) (n : Nat) : (p (.ofLevels n)).Takes least 0 := by
  have hn := Inner.ofLevels_takes n
  cases h with
  | expr bound => exact (hn.expr bound).of_le (Nat.le_refl 1) (Nat.zero_le _)
  | operand => exact (takes_operand hn).of_le (Nat.le_refl 1) (Nat.zero_le _)
  | primary => exact takes_primary
  | grouping => exact (takes_grouping hn).of_le (Nat.le_refl 1) (Nat.zero_le _)
  | binary left op bound => exact (takes_binary hn left op bound).of_le (Nat.le_refl 1) (Nat.zero_le _)
  | links base => exact (takes_links hn base).of_le (Nat.le_refl 0) (Nat.zero_le _)
  | call callee => exact (takes_call hn callee).of_le (Nat.le_refl 1) (Nat.zero_le _)
  | member object => exact (takes_member hn object).of_le (Nat.le_refl 1) (Nat.zero_le _)
  | methodCall receiver => exact (takes_methodCall hn receiver).of_le (Nat.le_refl 1) (Nat.zero_le _)
  | arguments => exact (takes_arguments hn).of_le (by omega) (Nat.zero_le _)
  | table => exact (takes_table hn).of_le (Nat.le_refl 1) (Nat.zero_le _)
  | parameters => exact (takes_name.parenthesized (k := 0)).of_le (by omega) (Nat.zero_le _)
  | function => exact (takes_function hn).of_le (Nat.le_refl 1) (Nat.zero_le _)
  | definition =>
    exact ((takes_namedFunction hn).bind fun _ => takes_pure _).of_le (Nat.le_refl 1) (Nat.zero_le _)
  | block => exact hn.block.of_le (Nat.le_refl 0) (Nat.zero_le _)
  | stmt => exact (takes_stmt hn).of_le (Nat.le_refl 1) (Nat.zero_le _)
  | headed head => exact (takes_headed hn head).of_le (Nat.le_refl 1) (Nat.zero_le _)

/-- A production fails in itself or in what is nested. -/
theorem Production.failsIn (h : Production least w p) (inner : Inner) : FailsIn inner (p inner) := by
  cases h with
  | expr bound => exact failsIn_expr bound
  | operand => exact failsIn_operand inner
  | primary => exact failsIn_primary inner
  | grouping => exact failsIn_grouping inner
  | binary left op bound => exact failsIn_binary inner left op bound
  | links base => exact failsIn_links inner base
  | call callee => exact failsIn_call inner callee
  | member object => exact failsIn_member inner object
  | methodCall receiver => exact failsIn_methodCall inner receiver
  | arguments => exact failsIn_arguments inner
  | table => exact failsIn_table inner
  | parameters => exact failsIn_parameters inner
  | function => exact failsIn_function inner
  | definition => exact failsIn_definition inner
  | block => exact failsIn_block
  | stmt => exact failsIn_stmt inner
  | headed head => exact failsIn_headed inner head

/-- It fails with no more levels open than are left. -/
theorem Production.levels_le (h : Production least w p) {n : Nat} {ts : List Token} {e : Failure}
    (he : p (.ofLevels n) ts = .error e) : e.levels ≤ n :=
  (h.failsIn _ ts e he).of_fails (Inner.ofLevels_levels n) fun _ _ _ => Nat.zero_le n

/-! ## Runs -/

/-- What a run that takes `least` tokens or more leaves behind. -/
structure Disciplined (c : Cursor) (least : Nat) (r : Except ParseError α × Cursor) : Prop where
  tokens : r.2.tokens = c.tokens
  forward : c.index ≤ r.2.index
  within : r.2.index ≤ c.tokens.length
  closed : ∀ a, r.1 = .ok a → r.2.depth = c.depth
  taken : ∀ a, r.1 = .ok a → c.index + least ≤ r.2.index
  opened : ∀ e, r.1 = .error e → c.depth ≤ r.2.depth ∧ r.2.depth ≤ maxNesting
  failed : ∀ e, r.1 = .error e → e.index = r.2.index

theorem Production.disciplined (h : Production least w p) (hindex : c.index ≤ c.tokens.length) (hdepth : c.depth ≤ maxNesting) :
    c.Disciplined least (c.run p) := by
  have htakes : (p c.inner).Takes least 0 := h.takes _
  have hlength : c.rest.length = c.tokens.length - c.index := List.length_drop
  cases hrun : p c.inner c.rest with
  | ok r =>
    obtain ⟨a, us⟩ := r
    have htaken := htakes.length_of_ok hrun
    rw [run_of_ok hrun]
    refine ⟨rfl, ?_, Nat.sub_le _ _, fun _ _ => rfl, fun _ _ => ?_, nofun, nofun⟩
    · show c.index ≤ c.tokens.length - us.length
      omega
    · show c.index + least ≤ c.tokens.length - us.length
      omega
  | error e =>
    have hleft := (htakes.suffix_of_error hrun).length_le
    have hlevels : e.levels ≤ maxNesting - c.depth := h.levels_le hrun
    rw [run_of_error hrun]
    refine ⟨rfl, ?_, Nat.sub_le _ _, nofun, nofun, fun _ _ => ⟨Nat.le_add_right _ _, ?_⟩, ?_⟩
    · show c.index ≤ c.tokens.length - e.rest.length
      omega
    · show c.depth + e.levels ≤ maxNesting
      omega
    · rintro _ ⟨⟩
      rfl

/-- A block ends at the end of the input or in front of a token that closes it. -/
theorem block_stops {n : Nat} {ts us : List Token} {body : List Stmt} (h : (Inner.ofLevels n).block ts = .ok (body, us)) :
    ∀ t, us.head? = some t → t.closesBlock = true := by
  intro t ht
  cases n with
  | zero => cases h
  | succ n =>
    have hrun : Parser.block (.ofLevels n) ts = .ok (body, us) := by
      have hnested : nested (Parser.block (.ofLevels n)) ts = .ok (body, us) := h
      unfold nested at hnested
      split at hnested
      · next hr => rw [hr, hnested]
      · cases hnested
    obtain ⟨vs, rfl⟩ := List.head?_eq_some_iff.1 ht
    have := many_stops ((takes_stmt (Inner.ofLevels_takes n)).of_le (Nat.le_refl 1) (Nat.zero_le n)) hrun t vs rfl
    simpa using this

/-- The walk over every production ends, and comes to what a run of its parser does. It moves the cursor on and
not past the tokens, and takes a token if it succeeds, unless it is over a block or a row of links. A success leaves the
depth as it was; a failure leaves the levels open that were open where it arose, never more than there are, and its
error is where the cursor is left. A block stops where it is closed. -/
theorem walk_disciplined {c : Cursor} (hindex : c.index ≤ c.tokens.length) (hdepth : c.depth ≤ maxNesting) :
    (∀ {least : Nat} {α : Type} {w : Walk α} {p : Inner → Parser α}, Production least w p →
      ∃ r, c.walk w = some r ∧ c.Disciplined least r ∧ c.run p = r) ∧
    ∀ body d, c.walk Walk.Nested.all.block = some (.ok body, d) → ∀ t, d.current? = some t → t.closesBlock = true := by
  refine ⟨fun h => ⟨_, h.walk_eq_run hindex hdepth, h.disciplined hindex hdepth, rfl⟩, fun body d h t ht => ?_⟩
  rw [Production.block.walk_eq_run hindex hdepth, Option.some.injEq] at h
  cases hrun : c.inner.block c.rest with
  | error e =>
    rw [run_of_error (p := (·.block)) hrun] at h
    cases h
  | ok r =>
    obtain ⟨stmts, us⟩ := r
    have hd : d = { c with index := c.tokens.length - us.length } := by
      rw [run_of_ok (p := (·.block)) hrun] at h
      exact (Prod.mk.inj h).2.symm
    have hsuffix := (Inner.ofLevels_takes _).block.suffix_of_ok hrun
    have hrest : d.rest = us := by rw [hd, rest_of_suffix hsuffix c.depth]
    refine block_stops hrun t ?_
    rw [← hrest, ← ht, current?, peek?_eq_head?]

/-- The block of a loop ends within a statement: its level is open, that of the condition is closed. With its `end`
behind it, no level stays open. -/
theorem walk_disciplined_while :
    let loop : List Token := [.plain .keyword "while", .plain .identifier "x", .plain .keyword "do", .plain .identifier "y"]
    let c : Cursor := ⟨loop, "f", 0, 126⟩
    let d : Cursor := ⟨loop ++ [.plain .symbol "(", .plain .symbol ")", .plain .keyword "end"], "f", 0, 126⟩
    c.index ≤ c.tokens.length ∧ c.depth ≤ maxNesting ∧ d.index ≤ d.tokens.length ∧ d.depth ≤ maxNesting ∧
      (∃ e, c.walk (Walk.stmt .all) = some (.error e, { c with index := 4, depth := 127 }) ∧ e.index = 4) ∧
      ∃ s, d.walk (Walk.stmt .all) = some (.ok s, { d with index := 7 }) := by
  intro loop c d
  have hfails : ∃ e, c.run Parser.stmt = (.error e, { c with index := 4, depth := 127 }) := ⟨_, rfl⟩
  have hreads : ∃ s, d.run Parser.stmt = (.ok s, { d with index := 7 }) := ⟨_, rfl⟩
  refine ⟨by decide, by decide, by decide, by decide, ?_, ?_⟩
  · obtain ⟨e, he⟩ := hfails
    obtain ⟨r, hr, hdisciplined, hrun⟩ := (walk_disciplined (c := c) (by decide) (by decide)).1 .stmt
    obtain rfl := he.symm.trans hrun
    exact ⟨e, hr, hdisciplined.failed e rfl⟩
  · obtain ⟨s, hs⟩ := hreads
    obtain ⟨r, hr, -, hrun⟩ := (walk_disciplined (c := d) (by decide) (by decide)).1 .stmt
    obtain rfl := hs.symm.trans hrun
    exact ⟨s, hr⟩

end Cursor

end MiniLua
