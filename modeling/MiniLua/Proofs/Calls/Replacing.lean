import MiniLua.Proofs.Calls.Withheld
/-!
# Replacing what a call is given

If one call gets other tokens and has the same answer for them, then so has its caller, with the
tokens before the call left as they are (`Routine.Calls.replace`), and in the end the whole
program (`Routine.Made.replace`).

That goes through the bodies of all routines (`follows_body`). Where a body looks at the next token
and then makes the call at once, it has to come to the same decision for a parenthesis as for
the other start of an expression. Arguments, fields, conditions and values do. A statement that starts
with a name does not, and parentheses must not come first there.
-/

namespace MiniLua

open MiniLua.Parser MiniLua.Syntax

/-! ## Two tokens -/

theorem startsLone_of_starts {t u : Token} {us : List Token} (hu : StartsExpr u) : startsLone (t :: u :: us) = false := by
  simp [startsLone, hu.isSymbol_eq_false]

theorem startsNamed_of_starts {t u : Token} {us : List Token} (hu : StartsExpr u) : startsNamed (t :: u :: us) = false := by
  simp [startsNamed, hu.isEquals_eq_false]

namespace Swap

variable (s : Swap) {w : List Token} {test : List Token → Bool}

/-- A test of two tokens comes out the same if the first of them stands before the difference, and the second one is
not one that an expression starts with. -/
theorem test_eq (hsame : ∀ t u us us', test (t :: u :: us) = test (t :: u :: us'))
    (hstarts : ∀ {t u us}, StartsExpr u → test (t :: u :: us) = false) (hne : w ++ s.front ≠ []) :
    test (w ++ s.new) = test (w ++ s.old) := by
  obtain ⟨hold, hnew⟩ := s.old_new_eq (w := w) rfl
  rw [hold, hnew]
  rcases hv : w ++ s.front with _ | ⟨t, _ | ⟨u, v⟩⟩
  · exact absurd hv hne
  · exact (hstarts s.starts_paren).trans (hstarts s.starts).symm
  · exact hsame t u _ _

/-- No constant or name comes first if the parenthesis does. -/
theorem test_new (h : ∀ {t us}, t.kind = .symbol → test (t :: us) = false) (hfront : s.front = []) : test s.new = false := by
  rw [new, hfront]
  exact h (isSymbol_iff.1 s.isParen).1

end Swap

theorem startsLone_of_symbol {t : Token} {us : List Token} (ht : t.kind = .symbol) : startsLone (t :: us) = false := by
  cases us <;> simp [startsLone, ht]

theorem startsNamed_of_symbol {t : Token} {us : List Token} (ht : t.kind = .symbol) : startsNamed (t :: us) = false := by
  cases us <;> simp [startsNamed, ht]

namespace Routine

variable {α β γ : Type} {n : Nat}

/-- Every routine that ends before a token ends there whatever is behind. -/
theorem parser_steady (r : Routine α) : Steady r.parser := by
  have hR := Local.congruence
  have h : ∀ n, LocalInner (.ofLevels n) := ofLevels_local
  cases r with
  | primary => exact (hR.primary).steady
  | argument n => exact ((h n).argument).steady
  | grouping n => exact (hR.grouping (h n).agree).steady
  | arguments n => exact (hR.arguments (h n).agree).steady
  | call n e => exact (hR.call (h n).agree e).steady
  | member n e => exact (hR.member (h n).agree e).steady
  | methodCall n e => exact (hR.methodCall (h n).agree e).steady
  | links n e => exact (hR.links (h n).agree e).steady
  | field n fields => exact (local_field (h n) fields).steady
  | fieldOrEnd n fields => exact (hR.fieldOrEnd (h n).agree fields).steady
  | table n => exact (hR.table (h n).agree).steady
  | parameters => exact (hR.parenthesized takes_name takes_name hR.name).steady
  | functionBody n => exact (hR.functionBody (h n).agree).steady
  | function n => exact (hR.function (h n).agree).steady
  | operand n => exact (hR.operand (h n).agree).steady
  | binary n left op bound => exact (hR.binary (h n).agree left op bound).steady
  | expr n bound => exact ((h n).expr bound).steady
  | namedFunction n => exact (hR.namedFunction (h n).agree).steady
  | definition n => exact ((hR.namedFunction (h n).agree).bind fun _ => local_pure _).steady
  | functionStmt n => exact (hR.headed (h n).agree .function).steady
  | localStmt n => exact (hR.localStmt (h n).agree).steady
  | assignment n => exact (hR.assignment (h n).agree).steady
  | returnStmt n => exact (hR.returnStmt (h n).agree).steady
  | guarded n => exact (hR.guarded (h n).agree).steady
  | branch n => exact (hR.branch (h n).agree).steady
  | otherwise n => exact (hR.otherwise (h n).agree).steady
  | ifStmt n => exact (hR.ifStmt (h n).agree).steady
  | loopBody n => exact (hR.loopBody (h n).agree).steady
  | whileStmt n => exact (hR.whileStmt (h n).agree).steady
  | repeatStmt n => exact (hR.repeatStmt (h n).agree).steady
  | step n =>
    refine ((local_check _).bind fun _ => ?_).steady
    split
    · exact local_next.bind fun _ => ((h n).expr _).bind fun _ => local_pure _
    · exact local_pure _
  | forRange n x => exact (hR.forRange (h n).agree x).steady
  | valueName => exact (hR.valueName).steady
  | forIn n x => exact (hR.forIn (h n).agree x).steady
  | forStmt n => exact (hR.forStmt (h n).agree).steady
  | nameStmt n =>
    have ht := takes_nameStmt (h n).takes
    refine ⟨ht.of_le (Nat.zero_le 1) (Nat.le_refl 0), fun {w t r a} hr => ?_⟩
    cases w with
    | nil => exact absurd hr (ht.ne_ok_self _)
    | cons u w => exact (localAt_nameStmt (h n) u w).ok hr
  | stmt n => exact (local_stmt (h n)).steady
  | block n => exact ((h n).block).steady
  | program n => exact (local_program n).steady

/-- Whether the routine reads an expression first, and so a parenthesis in its place. For expressions themselves `e` says
so: the one that is replaced comes first, and in those around it the difference is further behind. -/
def leads (e : Bool) : Routine α → Bool
  | argument _ | field .. | fieldOrEnd .. | guarded _ => true
  | expr .. => e
  | _ => false

/-- Whether the routine may start with a call of one that leads. -/
def opens (e : Bool) : Routine α → Bool
  | argument _ | field .. | fieldOrEnd .. | guarded _ => true
  | nameStmt _ => e
  | _ => false

variable {s : Swap} {e : Bool} {call : ∀ {β : Type}, Routine β → Fueled β}

/-- Whether the routine is for a statement that starts with a name. -/
def isNameStmt : Routine α → Bool
  | nameStmt _ => true
  | _ => false

/-- What the second token decides. -/
theorem nameStmt_branch (hassign : Follows s e (call (assignment n)) (assignment n).parser)
    (hexpr : Follows s e (call (expr n .lowest)) (expr n .lowest).parser) (u : Token) :
    ∃ f p, Follows s e f p ∧ ∀ t us, (nameStmt n).body call (t :: u :: us) = f (t :: u :: us) ∧
      (nameStmt n).parser (t :: u :: us) = p (t :: u :: us) := by
  by_cases hu : u.isOperator "="
  · exact ⟨_, _, hassign, fun t us => ⟨if_pos hu, if_pos hu⟩⟩
  · by_cases hc : continuesExpr u
    · exact ⟨_, _, hexpr.map, fun t us => ⟨(if_neg hu).trans (if_pos hc), (if_neg hu).trans (if_pos hc)⟩⟩
    · have hfail : Follows s e (Fueled.free next >>= fun _ => Fueled.free unexpectedToken)
          (next >>= fun _ => (unexpectedToken : Parser Stmt)) := .next fun _ => .fail _
      refine ⟨_, _, hfail, fun t us => ⟨?_, ?_⟩⟩
      · exact (if_neg hu).trans (if_neg hc)
      · exact (if_neg hu).trans (if_neg hc)

theorem pending_nameStmt (hassign : Follows s e (call (assignment n)) (assignment n).parser)
    (hexpr : Follows s e (call (expr n .lowest)) (expr n .lowest).parser) :
    Pending s ((nameStmt n).body call) (nameStmt n).parser where
  steady := parser_steady (nameStmt n)
  agree {ts r} h := by
    match ts, h with
    | [], h => exact Option.some.inj h
    | [t], h => exact Option.some.inj h
    | t :: u :: us, h =>
      obtain ⟨f, p, hf, hrun⟩ := nameStmt_branch hassign hexpr u
      rw [(hrun t us).1] at h
      rw [(hrun t us).2]
      exact hf.agree h
  reach {ts} h := by
    match ts, h with
    | t :: u :: us, h =>
      obtain ⟨f, p, hf, hrun⟩ := nameStmt_branch hassign hexpr u
      rw [(hrun t us).1] at h
      exact hf.reach h

theorem follows_nameStmt (hassign : Follows s false (call (assignment n)) (assignment n).parser)
    (hexpr : Follows s e (call (expr n .lowest)) (expr n .lowest).parser) (hn : e = true → s.front ≠ []) :
    Follows s e ((nameStmt n).body call) (nameStmt n).parser := by
  have hidle : (nameStmt n).body call s.old = none → s.front ≠ [] := by
    intro h
    cases e with
    | true => exact hn rfl
    | false =>
      generalize hold : s.old = ts at h
      match ts, h with
      | t :: u :: us, h =>
        obtain ⟨f, p, hf, hrun⟩ := nameStmt_branch hassign hexpr u
        rw [(hrun t us).1, ← hold] at h
        exact hf.idle rfl h
  refine ⟨pending_nameStmt hassign.weaken hexpr, fun _ => hidle, fun {w x} h hx => ?_⟩
  rcases hv : w ++ s.front with _ | ⟨t, _ | ⟨u, v⟩⟩
  · obtain ⟨rfl, hfront⟩ := List.append_eq_nil_iff.1 hv
    exact absurd hfront (hidle h)
  · -- The second token is where the difference is, and either way an expression goes on with it.
    obtain ⟨hold, hnew⟩ : w ++ s.old = t :: s.first :: s.rest ∧ w ++ s.new = t :: s.paren :: s.rest' := s.old_new_eq hv
    have hrun : ∀ u us, StartsExpr u → continuesExpr u = true →
        (nameStmt n).body call (t :: u :: us) = (Stmt.expr <$> call (expr n .lowest)) (t :: u :: us) ∧
        (nameStmt n).parser (t :: u :: us) = (Stmt.expr <$> (expr n .lowest).parser) (t :: u :: us) := by
      intro u us hu hc
      have heq : ¬ u.isOperator "=" = true := Bool.eq_false_iff.1 hu.isEquals_eq_false
      exact ⟨(if_neg heq).trans (if_pos hc), (if_neg heq).trans (if_pos hc)⟩
    have hfirst : continuesExpr s.first = true := by
      by_contra hc
      have heq : ¬ s.first.isOperator "=" = true := Bool.eq_false_iff.1 s.starts.isEquals_eq_false
      have hrun : (nameStmt n).body call (t :: s.first :: s.rest) = _ := (if_neg heq).trans (if_neg hc)
      rw [hold, hrun] at h
      cases h
    have hparen : continuesExpr s.paren = true := by simp [continuesExpr, s.isParen]
    rw [hold, (hrun _ _ s.starts hfirst).1, ← hold] at h
    rw [hold, (hrun _ _ s.starts hfirst).2, ← hold] at hx
    rw [hnew, (hrun _ _ s.starts_paren hparen).2, ← hnew]
    exact hexpr.map.mark h hx
  · obtain ⟨f, p, hf, hrun⟩ := nameStmt_branch hassign.weaken hexpr u
    obtain ⟨hold, hnew⟩ : w ++ s.old = t :: u :: (v ++ s.first :: s.rest) ∧ w ++ s.new = t :: u :: (v ++ s.paren :: s.rest') :=
      s.old_new_eq hv
    rw [hold, (hrun _ _).1, ← hold] at h
    rw [hold, (hrun _ _).2, ← hold] at hx
    rw [hnew, (hrun _ _).2, ← hnew]
    exact hf.mark h hx

section
variable (hcall : ∀ {β : Type} (r : Routine β), Follows s (r.leads e) (call r) r.parser)
include hcall

/-- A call of a routine that does not lead is never made at once. -/
theorem follows_call {now : Bool} (r : Routine α) (hr : r.leads e = false) : Follows s now (call r) r.parser := by
  have h := hcall r
  rw [hr] at h
  exact h.weaken

/-! ## Loops -/

theorem link?_follows (n : Nat) (t : Token) : Option.Rel (fun r r' => ∀ base, Follows s false (r base) (r' base))
    (link? call n t) (Parser.link? (.ofLevels n) t) := by
  unfold link? Parser.link?
  split
  · exact .some fun base => follows_call hcall (.call n base) rfl
  · split
    · exact .some fun base => follows_call hcall (member n base) rfl
    · split
      · exact .some fun base => follows_call hcall (methodCall n base) rfl
      · exact .none

theorem nextField?_follows (n : Nat) (t : Token) : Option.Rel (fun r r' => ∀ fields, Follows s false (r fields) (r' fields))
    (nextField? call n t) (Parser.nextField? (.ofLevels n) t) := by
  unfold nextField? Parser.nextField?
  split
  · exact .some fun fields => .next fun _ => (hcall (fieldOrEnd n fields)).atOnce
  · exact .none

theorem tighter?_follows (n : Nat) (bound : Precedence) (t : Token) :
    Option.Rel (fun r r' => ∀ left, Follows s false (r left) (r' left)) (tighter? call n bound t)
      (Parser.tighter? (.ofLevels n) bound t) := by
  unfold tighter? Parser.tighter?
  cases BinaryOp.ofToken? t with
  | none => exact .none
  | some op =>
    simp only
    split
    · exact .none
    · exact .some fun left => follows_call hcall (binary n left op _) rfl

theorem follows_links (n : Nat) (base : Expr) : Follows s false ((links n base).body call) (links n base).parser :=
  .repeating (progressive_link (ofLevels_local n).takes) (link?_follows hcall n) (parser_steady (links n base))

theorem follows_nextFields (n : Nat) (fields : List Expr × List Entry) :
    Follows s false (.repeating (nextField? call n) fields) (.repeating (Parser.nextField? (.ofLevels n)) fields) :=
  .repeating (progressive_nextField (ofLevels_local n).takes) (nextField?_follows hcall n)
    (Local.congruence.nextFields (ofLevels_local n).agree fields).steady

theorem follows_tighter (n : Nat) (bound : Precedence) (left : Expr) :
    Follows s false (.repeating (tighter? call n bound) left) (.repeating (Parser.tighter? (.ofLevels n) bound) left) := by
  have hp := progressive_tighter (ofLevels_local n).takes bound
  refine .repeating hp (tighter?_follows hcall n bound) (local_repeating hp (fun t round hr left => ?_) left).steady
  obtain ⟨op, -, -, rfl⟩ := tighter?_eq_some hr
  exact Local.congruence.binary (ofLevels_local n).agree left op _

/-! ## One routine -/

/-- A routine follows if all that it calls does. -/
theorem follows_body (r : Routine α) (hn : r.isNameStmt = true → e = true → s.front ≠ []) :
    Follows s (r.opens e) (r.body call) r.parser := by
  have hl : ∀ {β : Type} (r : Routine β), Follows s true (call r) r.parser := fun r => (hcall r).atOnce
  have hc : ∀ {β : Type} {now} (r : Routine β), r.leads e = false → Follows s now (call r) r.parser := follows_call hcall
  cases r with
  | primary => exact .free (parser_steady primary)
  | parameters => exact .free (parser_steady parameters)
  | valueName => exact .free (parser_steady valueName)
  | grouping n => exact .satisfy _ _ fun _ => .bind (hl _) fun _ => .satisfy _ _ fun _ => .pure _
  | arguments n => exact .parenthesized (ofLevels_local n).takes.argument (ofLevels_local n).argument (hl (argument n))
  | call n e => exact .bind (hc (arguments n) rfl) fun _ => .pure _
  | member n e => exact .satisfy _ _ fun _ => .name fun _ => .check (.bind (hc (arguments n) rfl) fun _ => .pure _) (.pure _)
  | methodCall n e => exact .satisfy _ _ fun _ => .name fun _ => .bind (hc (arguments n) rfl) fun _ => .pure _
  | fieldOrEnd n fields =>
    exact .checkAtOnce (.pure _) (hl (field n fields)) fun _ => ⟨false, fun _ ht => ht.isSymbol_eq_false (by decide)⟩
  | functionBody n =>
    exact .bind (hc parameters rfl) fun _ => .bind (hc (block n) rfl) fun _ => .satisfy _ _ fun _ => .pure _
  | function n => exact .satisfy _ _ fun _ => .bind (hc (functionBody n) rfl) fun _ => .pure _
  | binary n left op bound => exact .next fun _ => .bind (hl (expr n _)) fun _ => .pure _
  | namedFunction n => exact .satisfy _ _ fun _ => .name fun _ => .bind (hc (functionBody n) rfl) fun _ => .pure _
  | definition n => exact .bind (hc (namedFunction n) rfl) fun _ => .pure _
  | functionStmt n => exact .map (hc (definition n) rfl)
  | localStmt n =>
    refine .satisfy _ _ fun _ => .check ?_ ?_
    · rw [localFunction_eq]
      exact .bind (hc (namedFunction n) rfl) fun _ => .pure _
    · exact .name fun _ => .check (.next fun _ => .bind (hl (expr n _)) fun _ => .pure _) (.pure _)
  | assignment n => exact .name fun _ => .satisfy _ _ fun _ => .bind (hl (expr n _)) fun _ => .pure _
  | returnStmt n =>
    have hvalues := Follows.separated ((ofLevels_local n).takes.expr .lowest) ((ofLevels_local n).expr .lowest) (hl (expr n .lowest))
    exact .satisfy _ _ fun _ => .checkAtOnce (.bind hvalues fun _ => .pure _) (.pure _) fun _ =>
      ⟨true, fun _ ht => by rw [ht.closesBlock_eq_false, Bool.not_false]⟩
  | guarded n =>
    exact .bind (hl (expr n _)) fun _ => .satisfy _ _ fun _ => .bind (hc (block n) rfl) fun _ => .pure _
  | branch n => exact .next fun _ => .bind (hl (guarded n)) fun _ => .pure _
  | otherwise n => exact .check (.next fun _ => hc (block n) rfl) (.pure _)
  | ifStmt n =>
    have htakes := (takes_branch (ofLevels_local n).takes).of_le (Nat.le_refl 1) (Nat.zero_le 1)
    refine .satisfy _ _ fun _ => .bind (hl (guarded n)) fun _ => .bind ?_ fun _ => .bind (hc (otherwise n) rfl) fun _ =>
      .satisfy _ _ fun _ => .pure _
    exact .many htakes (Local.congruence.branch (ofLevels_local n).agree) _ (hc (branch n) rfl)
  | loopBody n => exact .satisfy _ _ fun _ => .bind (hc (block n) rfl) fun _ => .satisfy _ _ fun _ => .pure _
  | whileStmt n => exact .satisfy _ _ fun _ => .bind (hl (expr n _)) fun _ => .bind (hc (loopBody n) rfl) fun _ => .pure _
  | repeatStmt n =>
    exact .satisfy _ _ fun _ => .bind (hc (block n) rfl) fun _ => .satisfy _ _ fun _ => .bind (hl (expr n _)) fun _ => .pure _
  | step n => exact .check (.next fun _ => .bind (hl (expr n _)) fun _ => .pure _) (.pure _)
  | forRange n x =>
    exact .next fun _ => .bind (hl (expr n _)) fun _ => .satisfy _ _ fun _ => .bind (hl (expr n _)) fun _ =>
      .bind (hc (step n) rfl) fun _ => .bind (hc (loopBody n) rfl) fun _ => .pure _
  | forIn n x =>
    exact .bind (hc valueName rfl) fun _ => .satisfy _ _ fun _ => .bind (hl (expr n _)) fun _ =>
      .bind (hc (loopBody n) rfl) fun _ => .pure _
  | forStmt n =>
    exact .satisfy _ _ fun _ => .name fun _ => .check (hc (forRange n _) rfl) (hc (forIn n _) rfl)
  | argument n =>
    have h := ofLevels_local n
    have hsteady := (local_argument (h.expr .lowest) (h.takes.expr .lowest) (h.lone .lowest)).steady
    have hchoice := Follows.choice hsteady (hc primary rfl) (hl (expr n .lowest))
      (fun _ => s.test_eq (fun _ _ _ _ => rfl) startsLone_of_starts) (s.test_new startsLone_of_symbol)
    cases n <;> exact hchoice
  | field n fields =>
    refine .choice (parser_steady (field n fields)) ?_ ?_ ?_ ?_
    · exact .next fun _ => .next fun _ => .bind (hl (expr n _)) fun _ => .pure _
    · exact .bind (hl (expr n _)) fun _ => .pure _
    · exact fun _ => s.test_eq (fun _ _ _ _ => rfl) startsNamed_of_starts
    · exact s.test_new startsNamed_of_symbol
  | links n base => exact follows_links hcall n base
  | table n =>
    exact .satisfy _ _ fun _ => .bind (hl (fieldOrEnd n _)) fun fields => .bind (follows_nextFields hcall n fields) fun _ =>
      .satisfy _ _ fun _ => .pure _
  | operand n =>
    refine .look fun t => ?_
    cases UnaryOp.ofToken? t with
    | some op => exact .next fun _ => .bind (hl (expr n _)) fun _ => .pure _
    | none =>
      cases t.kind with
      | identifier => exact .next fun _ => (hc (links n _) rfl)
      | symbol =>
        refine .ite (.bind (hc (grouping n) rfl) fun e => hc (links n e) rfl) (.ite (hc (table n) rfl) ?_)
        exact .fail _
      | keyword => exact .ite (hc (function n) rfl) (.fail _)
      | operator => exact .fail _
      | _ => exact hc primary rfl
  | expr n bound =>
    cases n with
    | zero => exact .free (parser_steady (expr 0 bound))
    | succ n =>
      exact .nested (.bind (hc (operand n) rfl) fun left => follows_tighter hcall n bound left)
  | nameStmt n => exact follows_nameStmt (hc (assignment n) rfl) (hcall (expr n .lowest)) (hn rfl)
  | stmt n =>
    refine .look fun t => ?_
    cases t.kind with
    | keyword =>
      simp only
      cases StmtHead.ofText? t.value with
      | none => exact .fail _
      | some head => cases head <;> exact hc (headed n _) rfl
    | identifier => exact hc (nameStmt n) rfl
    | _ => exact .fail _
  | block n =>
    cases n with
    | zero => exact .free (parser_steady (block 0))
    | succ n =>
      exact .nested (.many (takes_stmt (ofLevels_local n).takes) (local_stmt (ofLevels_local n)) _ (hc (stmt n) rfl))
  | program n => exact .many (takes_stmt (ofLevels_local n).takes) (local_stmt (ofLevels_local n)) _ (hc (stmt n) rfl)

end

/-! ## Calls -/

/-- The answer that is lacking is that of a call on the old input. With the new one the answer is the same, or levels run out. -/
theorem follows_withheld {q : Routine β} (hq : s.front ≠ [] ∨ q.leads e = true)
    (h : ∀ x, q.parser s.old = .ok x → EndsAs True (q.parser s.new) (.ok x)) (r : Routine γ) :
    Follows s (r.leads e) (withheld q s.old r) r.parser where
  steady := parser_steady r
  agree := withheld_eq_some
  reach hx := (withheld_eq_none.1 hx).2 ▸ List.suffix_refl _
  idle hr hx := by
    obtain ⟨heq, -⟩ := withheld_eq_none.1 hx
    cases heq
    exact hq.resolve_right (by rw [hr]; exact Bool.false_ne_true)
  mark {w x} hx hok := by
    obtain ⟨heq, hw⟩ := withheld_eq_none.1 hx
    cases heq
    obtain rfl : w = [] := List.append_left_eq_self.1 hw
    exact h x hok

/-- A routine that calls another one on the old input does with the new one what it does with the old one, or levels run out. -/
theorem Calls.replace {r : Routine α} {q : Routine β} {us : List Token} (hc : r.Calls us q s.old)
    (hq : s.front ≠ [] ∨ q.leads e = true) (hn : r.isNameStmt = true → e = true → s.front ≠ [])
    (h : ∀ x, q.parser s.old = .ok x → EndsAs True (q.parser s.new) (.ok x)) :
    ∃ w, us = w ++ s.old ∧ (w ++ s.front ≠ [] ∨ r.leads false = true) ∧
      ∀ x, r.parser us = .ok x → EndsAs True (r.parser (w ++ s.new)) (.ok x) := by
  have hf := follows_body (follows_withheld hq h) r hn
  obtain ⟨w, rfl⟩ := hf.reach hc
  refine ⟨w, rfl, ?_, fun x hx => hf.mark hc hx⟩
  have hopens : r.opens e = false ∨ r.leads false = true ∨ (r.isNameStmt = true ∧ e = true) := by
    cases r with
    | nameStmt => cases e <;> simp [opens, isNameStmt]
    | _ => first | exact .inl rfl | exact .inr (.inl rfl)
  rcases hopens with hopens | hr | ⟨hr, he⟩
  · rw [hopens] at hf
    exact .inl (hf.mark_of_idle hc)
  · exact .inr hr
  · exact .inl (by simp [hn hr he])

/-- The calls of a run: that of the program, and those of what is called. -/
inductive Made (limit : Nat) (ts : List Token) : {α : Type} → Routine α → List Token → Prop
  | program : Made limit ts (.program limit) ts
  | call {α β : Type} {r : Routine α} {q : Routine β} {us vs : List Token} :
      Made limit ts r us → r.Calls us q vs → Made limit ts q vs

section
variable {limit : Nat} {ts us u w : List Token} {q : Routine β} (hq : u ++ s.front ≠ [] ∨ q.leads false = true)
  (h : ∀ x, q.parser (u ++ s.old) = .ok x → EndsAs True (q.parser (u ++ s.new)) (.ok x))
include hq h

/-- From call to call up to the program. -/
theorem Made.replace (hm : Made limit ts q us) (hus : us = u ++ s.old) : ∃ w, ts = w ++ s.old ∧
    ∀ x, (Routine.program limit).parser ts = .ok x → EndsAs True ((Routine.program limit).parser (w ++ s.new)) (.ok x) := by
  induction hm generalizing u with
  | program =>
    subst hus
    exact ⟨u, rfl, h⟩
  | call _ hc ih =>
    rw [hus, ← s.behind_old] at hc
    obtain ⟨w, rfl, hr, hnext⟩ := hc.replace hq (fun _ he => nomatch he) (by simpa using h)
    exact ih (u := w ++ u) (by simpa [Swap.behind] using hr) (by simpa using hnext) (by simp)

/-- The same where it is known what comes before. -/
theorem Made.replace_program (hm : Made limit (w ++ s.old) q (u ++ s.old)) {x : List Stmt × List Token}
    (hx : Parser.program (.ofLevels limit) (w ++ s.old) = .ok x) :
    EndsAs True (Parser.program (.ofLevels limit) (w ++ s.new)) (.ok x) := by
  obtain ⟨w', hw, hlast⟩ := hm.replace hq h rfl
  obtain rfl : w = w' := List.append_cancel_right hw
  exact hlast x hx

end

end Routine

end MiniLua
