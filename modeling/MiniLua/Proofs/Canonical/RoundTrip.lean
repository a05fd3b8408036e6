import MiniLua.Proofs.Canonical.Statements
/-!
# The round trip through canonical tokens

A list of statements is returned by its tokens if each statement is and only the last one is
a `return` without values, which is so for what was read (`returned_of_stmts`). By induction on
the levels that holds at every depth (`rereads`), and so a program is what its own canonical
tokens are read as, within the same limit of nesting (`parse_blockTokens`).
-/

namespace MiniLua

open MiniLua.Parser MiniLua.Syntax

variable {n k : Nat} {s : Stmt} {ss : List Stmt} {ts us : List Token} {F : List Token → Prop} {test : Token → Bool}

/-- Each statement is returned by its tokens, and none before the last is a bare `return`. -/
structure Returned (n : Nat) (ss : List Stmt) : Prop where
  each : ∀ s ∈ ss, s.Returns n
  bare : ∀ s ∈ ss.dropLast, s ≠ .ret []

/-- A statement starts with a token that no statement before it takes. -/
theorem Stmt.Returns.start (h : s.Returns n) : ∃ t v, s.tokens = t :: v ∧ Separates t ∧ t.closesBlock = false := by
  have hread := h n (Nat.le_refl n) [] ⟨ahead_nil, fun _ => ahead_nil⟩
  rcases reads_stmt (ofLevels_reads n) (s.tokens ++ []) with hs | ⟨hs, _⟩
  · obtain ⟨w, hw, hd⟩ := hs.ok hread
    rw [List.append_cancel_right hw]
    exact stmt_start hd
  · obtain ⟨w, hw, hd⟩ := hs.ok hread
    rw [List.append_cancel_right hw]
    obtain ⟨t, v, rfl, ht, _⟩ := Derives.one_iff.1 hd
    exact ⟨t, v, rfl, .inr ⟨ht.1, ht.2 ▸ rfl⟩, by simp [Token.closesBlock, ht.2]⟩

/-- The next statement starts, or the block ends. -/
theorem Returned.before (h : Returned n ss) (hus : EndsBlock us) : AfterStmt (blockTokens ss ++ us) := by
  cases ss with
  | nil => exact hus.mono fun _ => separates_of_closesBlock
  | cons s ss =>
    obtain ⟨t, v, hw, ht, _⟩ := (h.each s List.mem_cons_self).start
    rw [blockTokens, hw]
    exact ahead_cons.2 ht

theorem Returned.of_suffix {rest : List Stmt} (h : Returned n ss) (hs : rest <:+ ss) : Returned n rest := by
  refine ⟨fun s hm => h.each s (hs.subset hm), fun s hm => h.bare s ?_⟩
  obtain ⟨before, rfl⟩ := hs
  rw [List.dropLast_append_of_ne_nil (List.ne_nil_of_mem ((List.dropLast_subset rest) hm))]
  exact List.mem_append_right before hm

theorem Returned.readsAs (h : Returned n ss) (hk : n ≤ k)
    (htest : ∀ t, Separates t → t.closesBlock = false → test t = true) (hstop : ∀ t us, F (t :: us) → test t = false)
    (hF : ∀ us, F us → EndsBlock us) : (many test (stmt (.ofLevels k))).ReadsAs (blockTokens ss) ss F := by
  rw [blockTokens_eq]
  refine many_readsAs (takes_stmt (Inner.ofLevels_takes k).zero) (fun s rest hs => ⟨?_, ?_⟩) hstop
  · obtain ⟨t, v, hw, ht, hc⟩ := (h.each s (hs.subset List.mem_cons_self)).start
    exact ⟨t, v, hw, htest t ht hc⟩
  · have hrest := h.of_suffix hs
    refine (hrest.each s List.mem_cons_self k hk).mono ?_
    rintro _ ⟨us, hus, rfl⟩
    rw [← blockTokens_eq]
    refine ⟨(hrest.of_suffix (List.suffix_cons s rest)).before (hF us hus), ?_⟩
    rintro rfl
    cases rest with
    | nil => exact hF us hus
    | cons s' rest => exact absurd rfl (hrest.bare _ List.mem_cons_self)

section
variable (h : Rereads n)
include h

/-- What was read as statements: after a bare `return` there was no other. -/
theorem returned_of_stmts (hp : many test (stmt (.ofLevels n)) ts = .ok (ss, us)) : Returned n ss := by
  obtain ⟨items, _, hloop, he⟩ := bind_eq_ok.1 hp
  cases he
  -- The statements are held last one first.
  have hinv : (∀ s ∈ items, s.Returns n) ∧ (∀ s ∈ items.tail, s ≠ .ret []) ∧ (items.head? = some (.ret []) → EndsBlock us) := by
    refine repeating_invariant (progressive_many (takes_stmt (Inner.ofLevels_takes n).zero) test)
      (fun items us => (∀ s ∈ items, s.Returns n) ∧ (∀ s ∈ items.tail, s ≠ .ret []) ∧
        (items.head? = some (.ret []) → EndsBlock us)) ?_ ⟨by simp, by simp, by simp⟩ hloop
    rintro items t ts round items' us ⟨hall, hbare, hend⟩ hr hp
    simp only [Option.ite_none_right_eq_some, Option.some.injEq] at hr
    obtain ⟨-, rfl⟩ := hr
    simp only [map_eq_pure_bind] at hp
    obtain ⟨s, _, hs, he⟩ := bind_eq_ok.1 hp
    cases he
    have hret := returns_of_stmt h hs
    refine ⟨List.forall_mem_cons.2 ⟨hret.1, hall⟩, ?_, fun hhead => hret.2 (Option.some.inj hhead)⟩
    intro s' hs' heq
    subst heq
    cases items with
    | nil => cases hs'
    | cons last items =>
      rcases List.mem_cons.1 hs' with rfl | hs'
      · rw [stmt_of_closesBlock (ahead_cons.1 (hend rfl))] at hs
        cases hs
      · exact hbare _ hs' rfl
  refine ⟨fun s hs => hinv.1 s (List.mem_reverse.1 hs), fun s hs => hinv.2.1 s ?_⟩
  rw [List.dropLast_reverse] at hs
  exact List.mem_reverse.1 hs

theorem blockNests_of_block (hp : (Inner.ofLevels (n + 1)).block ts = .ok (ss, us)) : BlockNests (n + 1) ss := by
  have hss : Returned n ss := returned_of_stmts h ((endsAs_nested (block (.ofLevels n)) ts).ok_iff.1 hp)
  intro k hk
  obtain ⟨k, rfl⟩ := Nat.exists_eq_add_one_of_ne_zero (Nat.ne_zero_of_lt hk)
  refine ReadsAs.nested (hss.readsAs (Nat.le_of_succ_le_succ hk) (fun t _ hc => by simp [hc]) (fun t us hus => ?_) fun _ hus => hus)
  simp [ahead_cons.1 hus]

end

theorem rereads (n : Nat) : Rereads n := by
  induction n with
  | zero =>
    -- With no level left only lone arguments are read.
    refine ⟨fun hp => ?_, fun hp => nestsAsArgument_of_argument (fun hp => ?_) hp, fun hp => ?_⟩ <;> cases hp
  | succ n ih =>
    exact ⟨fun hp => ⟨n, rfl, returnsIn_of_expr ih hp⟩,
      fun hp => nestsAsArgument_of_argument (fun hp => (returnsIn_of_expr ih hp).1.nests) hp, blockNests_of_block ih⟩

/-- A program that was parsed is what its canonical tokens parse to. They need no more nesting
than the tokens it was parsed from. -/
theorem parse_blockTokens {ts : List Token} {file file' : String} {p : List Stmt} (h : parse ts file = .ok p) :
    parse (blockTokens p) file' = .ok p := by
  obtain ⟨rest, hp⟩ := parseWithin_eq_ok.1 h
  have hall : (program (.ofLevels maxNesting)).ReadsAs (blockTokens p) p (· = []) :=
    (returned_of_stmts (rereads maxNesting) hp).readsAs (Nat.le_refl maxNesting) (fun _ _ _ => rfl)
      (by intro t us h; cases h) (by rintro _ rfl; exact ahead_nil)
  have hread := hall [] rfl
  rw [List.append_nil] at hread
  exact parseWithin_eq_ok.2 ⟨[], hread⟩

/-- Of the parentheses in `x = ((a) + b)(c)` only those that the call needs are written. -/
theorem parse_blockTokens_call :
    parse [.plain .identifier "x", .plain .operator "=", .plain .symbol "(", .plain .symbol "(", .plain .identifier "a",
        .plain .symbol ")", .plain .operator "+", .plain .identifier "b", .plain .symbol ")", .plain .symbol "(",
        .plain .identifier "c", .plain .symbol ")"] "f" =
      .ok [.assign "x" (.call (.binary (.var "a") .add (.var "b")) [.var "c"])] ∧
    parse [.plain .identifier "x", .plain .operator "=", .plain .symbol "(", .plain .identifier "a", .plain .operator "+",
        .plain .identifier "b", .plain .symbol ")", .plain .symbol "(", .plain .identifier "c", .plain .symbol ")"] "g" =
      .ok [.assign "x" (.call (.binary (.var "a") .add (.var "b")) [.var "c"])] := by
  have h : parse [.plain .identifier "x", .plain .operator "=", .plain .symbol "(", .plain .symbol "(", .plain .identifier "a",
      .plain .symbol ")", .plain .operator "+", .plain .identifier "b", .plain .symbol ")", .plain .symbol "(",
      .plain .identifier "c", .plain .symbol ")"] "f" =
    .ok [.assign "x" (.call (.binary (.var "a") .add (.var "b")) [.var "c"])] := parseWithin_eq_ok.2 ⟨[], rfl⟩
  exact ⟨h, parse_blockTokens h⟩

/-- A `return` of one expression is read back within every limit that leaves the expression its levels. -/
theorem parseWithin_ret {e : Expr} {limit : Nat} (h : e.Nests n) (hn : n ≤ limit) (file : String) :
    parseWithin limit (blockTokens [.ret [e]]) file = .ok [.ret [e]] := by
  have hret : (Stmt.ret [e]).Returns limit := by
    apply Stmt.Returns.ret
    rintro _ he k hk
    obtain rfl := List.mem_singleton.1 he
    exact h k (Nat.le_trans hn hk)
  have hall : Returned limit [.ret [e]] := ⟨by simpa using hret, by simp⟩
  have hreads : (program (.ofLevels limit)).ReadsAs (blockTokens [.ret [e]]) [.ret [e]] (· = []) :=
    hall.readsAs (Nat.le_refl limit) (fun _ _ _ => rfl) (by intro t us h; cases h) (by rintro _ rfl; exact ahead_nil)
  have hread := hreads [] rfl
  rw [List.append_nil] at hread
  exact parseWithin_eq_ok.2 ⟨[], hread⟩

end MiniLua
