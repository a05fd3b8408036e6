import MiniLua.Proofs.Canonical.RoundTrip
/-!
# Lone arguments

A lone constant or name among arguments is read without opening a level. Beside that stands the
plain reading, in which every argument is an expression like any other. The two read the same
trees and fail at the same tokens. They differ only in where levels run out, and by one level at
most: with the same levels the plain reading ends as the other or runs out of levels, with one
level more it makes up for all the lone arguments (`parsePlain_agrees`).

The level does count. Of `n` calls around a name, each the argument of the next, the plain reading
opens one more than there are (`plain_callTree`).
-/

namespace MiniLua

open MiniLua.Parser MiniLua.Syntax

variable {n : Nat} {ts : List Token}

/-! ## Reading every argument as an expression -/

namespace Inner

/-- Expressions and blocks by the given parsers, and arguments as expressions. -/
def plain (expr : Precedence → Parser Expr) (block : Parser (List Stmt)) : Inner :=
  ⟨expr, expr .lowest, block⟩

/-- What may be nested with a number of levels left. -/
def plainLevels : Nat → Inner
  | 0 => .plain (fun _ => .fail .tooDeep) (.fail .tooDeep)
  | n + 1 =>
    let inner := plainLevels n
    .plain (fun bound => .nested (.climb inner bound)) (.nested (.block inner))

theorem plainLevels_argument (n : Nat) : (plainLevels n).argument = (plainLevels n).expr .lowest := by
  cases n <;> rfl

theorem takes_plain {expr : Precedence → Parser Expr} {block : Parser (List Stmt)}
    (he : ∀ bound, (expr bound).Takes 1 n) (hb : block.Takes 0 (n - 1)) : (plain expr block).Takes n where
  expr := he
  argument := he .lowest
  block := hb

theorem plainLevels_takes (n : Nat) : (plainLevels n).Takes n := by
  induction n with
  | zero =>
    apply takes_plain
    · exact fun _ ts => ⟨List.suffix_refl _, fun _ => Nat.le_refl _⟩
    · exact fun ts => ⟨List.suffix_refl _, fun _ => Nat.le_refl _⟩
  | succ n ih => exact takes_plain (fun bound => (takes_climb ih bound).nested) (takes_block ih).nested

/-! ## The two readings compared -/

/-- A lone argument is read as the expression it is, if there is a level for that. -/
theorem endsAs_lone (inner : Inner) (h : startsLone ts = true) : EndsAs False (nested (climb inner .lowest) ts) (primary ts) := by
  rw [← climb_of_startsLone h]
  exact endsAs_nested _ ts

theorem plainLevels_below (n : Nat) : Agree (@Below True) (plainLevels n) (ofLevels n) := by
  induction n with
  | zero =>
    apply Agree.of_below (plainLevels_takes 0).zero (ofLevels_takes 0).zero
    · exact fun _ => below_of_tooDeep _
    · exact below_of_tooDeep _
    · exact below_of_tooDeep _
  | succ n ih =>
    have he : ∀ bound, Below True ((plainLevels (n + 1)).expr bound) ((ofLevels (n + 1)).expr bound) :=
      fun bound => ((Below.congruence True).climb ih bound).nested
    have ha : Below True (plainLevels (n + 1)).argument (ofLevels (n + 1)).argument := by
      intro ts
      show EndsAs True _ (if startsLone ts then primary ts else (ofLevels (n + 1)).expr .lowest ts)
      split
      · next h => exact (endsAs_lone (plainLevels n) h).lax_of_strict
      · exact he .lowest ts
    exact .of_below (plainLevels_takes (n + 1)).zero (ofLevels_takes (n + 1)).zero he ha (Below.block ih).nested

/-- The level that a lone argument does not take is made up for by one more level. -/
theorem ofLevels_below_plain (n : Nat) : Agree (@Below True) (ofLevels n) (plainLevels (n + 1)) := by
  -- Arguments are chosen in the same way with levels left and without.
  have hof : ∀ {n m : Nat}, (∀ bound, Below True ((ofLevels n).expr bound) ((plainLevels (m + 1)).expr bound)) →
      Below True (ofLevels n).block (plainLevels (m + 1)).block → Agree (@Below True) (ofLevels n) (plainLevels (m + 1)) := by
    intro n m he hb
    have ha : Below True (Parser.argument ((ofLevels n).expr .lowest)) (plainLevels (m + 1)).argument := by
      intro ts
      show EndsAs True (if startsLone ts then primary ts else (ofLevels n).expr .lowest ts) _
      split
      · next h => exact (endsAs_lone (plainLevels m) h).symm.lax_of_strict
      · exact he .lowest ts
    apply Agree.of_below (ofLevels_takes n).zero (plainLevels_takes (m + 1)).zero he _ hb
    cases n <;> exact ha
  induction n with
  | zero => exact hof (fun _ => below_of_tooDeep _) (below_of_tooDeep _)
  | succ n ih => exact hof (fun bound => ((Below.congruence True).climb ih bound).nested) (Below.block ih).nested

end Inner

/-! ## Programs -/

/-- The program of a list of tokens, with every argument read as an expression. -/
def parsePlainWithin (limit : Nat) (ts : List Token) (file : String) : Except ParseError (List Stmt) :=
  outcome limit ts file (program (.plainLevels limit) ts)

/-- The plain reading gives the same program or the same error, unless it runs out of levels. With one level
more it does so unless the other reading has run out of levels. -/
theorem parsePlain_agrees (limit : Nat) (ts : List Token) (file : String) :
    (parsePlainWithin limit ts file = parseWithin limit ts file ∨
      ∃ e, parsePlainWithin limit ts file = .error e ∧ e.cause = .nestingTooDeep limit) ∧
    (parsePlainWithin (limit + 1) ts file = parseWithin limit ts file ∨
      ∃ e, parseWithin limit ts file = .error e ∧ e.cause = .nestingTooDeep limit) := by
  have hplain := Below.program (Inner.plainLevels_below limit) ts
  have hmore := Below.program (Inner.ofLevels_below_plain limit) ts
  rw [parseWithin_eq_outcome]
  constructor
  · exact hplain.outcome limit limit
  · apply (hmore.outcome limit (limit + 1)).imp_left
    exact Eq.symm

/-! ## Where the level counts -/

/-- Calls, each the argument of the next, around a name. -/
def callTree : Nat → Expr
  | 0 => .var "x"
  | n + 1 => .namedCall "f" [callTree n]

theorem callTree_tokens (n : Nat) : (callTree (n + 1)).tokens =
    .plain .identifier "f" :: .plain .symbol "(" :: ((callTree n).tokens ++ [.plain .symbol ")"]) := by
  simp [callTree, Expr.tokens, eachTokens, listTokens, commas, moreTokens]

theorem callTree_start (n : Nat) : ∃ t v, (callTree n).tokens = t :: v ∧ t.isSymbol ")" = false ∧ t.closesBlock = false := by
  cases n with
  | zero => exact ⟨_, _, rfl, rfl, rfl⟩
  | succ n => exact ⟨_, _, callTree_tokens n, rfl, rfl⟩

/-- A call takes a level more than its argument. -/
theorem callTree_nests (h : (callTree n).NestsAsArgument n) : (callTree (n + 1)).Nests (n + 1) := by
  have hcall : ((Expr.var "f").applyTo [callTree n]).Returns n := by
    apply Expr.Returns.applyTo ((Expr.Returns.var "f").bare rfl)
    simpa using h
  exact hcall.nests

/-- The name takes no level, and each call around it takes one. -/
theorem callTree_nestsAsArgument (n : Nat) : (callTree n).NestsAsArgument n := by
  induction n with
  | zero =>
    -- However few levels are left, a name that stands alone is read.
    rintro k - us ⟨t, us, rfl, ht⟩
    cases k <;> exact if_pos (by simpa [callTree, Expr.tokens, startsLone, Token.plain] using ht)
  | succ n ih => exact (callTree_nests ih).asArgument

theorem parseWithin_callTree (n : Nat) (file : String) :
    parseWithin (n + 1) (blockTokens [.ret [callTree (n + 1)]]) file = .ok [.ret [callTree (n + 1)]] :=
  parseWithin_ret (callTree_nests (callTree_nestsAsArgument n)) (Nat.le_refl (n + 1)) file

/-- The plain reading takes a level for the name as well. -/
theorem plain_callTree (n : Nat) (rest : List Token) :
    RunsOutAt ((Inner.plainLevels n).expr .lowest) ((callTree n).tokens ++ rest)
      (.plain .identifier "x" :: (List.replicate n (.plain .symbol ")") ++ rest)) := by
  induction n generalizing rest with
  | zero => exact .fail _
  | succ n ih =>
    have hi := (Inner.plainLevels_takes n).zero
    obtain ⟨t, v, hv, ht, -⟩ := callTree_start n
    rw [callTree_tokens, List.replicate_succ', List.append_assoc]
    apply RunsOutAt.nested
    apply RunsOutAt.bind
    refine .of_eq (operand_name rfl _) ?_
    refine .repeating (progressive_link hi) rfl ?_
    apply RunsOutAt.bind
    refine .after (symbol_eq_ok.2 ⟨rfl, rfl⟩) (.of_eq (check_false ?_) ?_)
    · simp [hv, ht]
    · -- The argument is read as an expression, with a level less.
      have harg := ih (.plain .symbol ")" :: rest)
      rw [← Inner.plainLevels_argument] at harg
      apply RunsOutAt.bind
      apply RunsOutAt.bind
      simpa using harg

theorem plain_callProgram (n : Nat) (file : String) :
    ∃ e, parsePlainWithin n (blockTokens [.ret [callTree n]]) file = .error e ∧ e.cause = .nestingTooDeep n := by
  obtain ⟨t, v, hv, -, ht⟩ := callTree_start n
  have hw : blockTokens [.ret [callTree n]] = .plain .keyword "return" :: (callTree n).tokens := by
    simp [blockTokens, Stmt.tokens, eachTokens, commas, moreTokens]
  have hrun : RunsOutAt (program (.plainLevels n)) (blockTokens [.ret [callTree n]])
      (.plain .identifier "x" :: (List.replicate n (.plain .symbol ")") ++ [])) := by
    rw [hw]
    refine .many (takes_stmt (Inner.plainLevels_takes n).zero) rfl (.of_eq (stmt_of_keyword (isKeyword_iff.2 ⟨rfl, rfl⟩) rfl _) ?_)
    refine .after (keyword_eq_ok.2 ⟨rfl, rfl⟩) (.of_eq (check_true ?_) ?_)
    · simp [hv, ht]
    · apply RunsOutAt.bind
      apply RunsOutAt.bind
      simpa using plain_callTree n []
  obtain ⟨m, hm⟩ := hrun
  exact ⟨_, by rw [parsePlainWithin, hm, outcome], rfl⟩

/-- Of as many calls around a name as there are levels, only the plain reading makes an error. -/
theorem parsePlain_disagrees :
    parse (blockTokens [.ret [callTree maxNesting]]) "f" = .ok [.ret [callTree maxNesting]] ∧
      ∃ e, parsePlainWithin maxNesting (blockTokens [.ret [callTree maxNesting]]) "f" = .error e ∧
        e.cause = .nestingTooDeep maxNesting :=
  ⟨parseWithin_callTree 127 "f", plain_callProgram maxNesting "f"⟩

end MiniLua
