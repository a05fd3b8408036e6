import MiniLua.Proofs.Reading.Levels
import MiniLua.Proofs.Reading.Lookahead
import MiniLua.Walk.Grammar
/-!
# Walks that follow parsers

A parser run from a cursor says where the cursor is left and what is open there (`Cursor.run`); a walk
gets there step by step. `Follows` says that both come to the same from every cursor with so many
levels left, and goes through what walks are made of: a token taken is one less that is left, a walk goes
on where the one before it left the cursor, and an error leaves everything as it is, with the levels
open that were (`Follows.level`).
-/

namespace MiniLua

open MiniLua.Parser

variable {α β : Type}

/-! ## Runs -/

namespace Cursor

variable {c : Cursor} {p : Inner → Parser α}

/-- A success moves the cursor in front of the tokens that are left. -/
theorem run_of_ok {a : α} {us : List Token} (h : p c.inner c.rest = .ok (a, us)) :
    c.run p = (.ok a, { c with index := c.tokens.length - us.length }) := by
  rw [run, h]

theorem run_of_error {e : Failure} (h : p c.inner c.rest = .error e) :
    c.run p = (.error (e.error maxNesting c.tokens c.file),
      { c with index := c.tokens.length - e.rest.length, depth := c.depth + e.levels }) := by
  rw [run, h]

/-- A cursor in front of an end of what is left of its tokens. -/
theorem rest_of_suffix {us : List Token} (h : us <:+ c.rest) (depth : Nat) :
    ({ c with index := c.tokens.length - us.length, depth := depth } : Cursor).rest = us := by
  have hsuffix : us <:+ c.tokens := h.trans (List.drop_suffix _ _)
  exact (List.suffix_iff_eq_drop.1 hsuffix).symm

theorem index_of_rest (hindex : c.index ≤ c.tokens.length) : c.tokens.length - c.rest.length = c.index := by
  rw [rest, List.length_drop, Nat.sub_sub_self hindex]

/-- A success that takes nothing leaves the cursor where it is. -/
theorem run_of_stays (hindex : c.index ≤ c.tokens.length) {a : α} (h : p c.inner c.rest = .ok (a, c.rest)) :
    c.run p = (.ok a, c) := by
  rw [run_of_ok h, index_of_rest hindex]

/-- A run depends on what the production does with the tokens that are left. -/
theorem run_congr {q : Inner → Parser α} (h : p c.inner c.rest = q c.inner c.rest) : c.run p = c.run q := by
  rw [run, run, h]

/-- Productions in a row run one after another, each from where the last one left the cursor. -/
theorem run_bind {f : Inner → α → Parser β} (hp : (p c.inner).Takes 0 0) :
    c.run (fun inner => p inner >>= f inner) =
      match c.run p with
      | (.ok a, d) => d.run fun inner => f inner a
      | (.error e, d) => (.error e, d) := by
  cases h : p c.inner c.rest with
  | error e =>
    rw [run_of_error h, run_of_error (p := fun inner => p inner >>= f inner) (bind_eq_error.2 (.inl h))]
  | ok r =>
    obtain ⟨a, us⟩ := r
    have hrest := rest_of_suffix (hp.suffix_of_ok h) c.depth
    rw [run_of_ok h]
    simp only [run, bind_run, h, hrest]
    rfl

theorem run_fail (hindex : c.index ≤ c.tokens.length) (fault : Fault) :
    c.run (fun _ => (Parser.fail fault : Parser α)) = (.error (c.errorOf (fault.cause maxNesting c.rest)), c) := by
  rw [run_of_error (e := ⟨fault, c.rest, 0⟩) rfl]
  simp only [Failure.error, index_of_rest hindex, Nat.add_zero, errorOf]

/-! ## Steps of a walk -/

@[simp] theorem walk_pure (c : Cursor) (a : α) : c.walk (pure a) = some (.ok a, c) := rfl

@[simp] theorem walk_get (c : Cursor) : c.walk get = some (.ok c, c) := rfl

theorem walk_bind (c : Cursor) (w : Walk α) (f : α → Walk β) :
    c.walk (w >>= f) = match c.walk w with
      | some (.ok a, d) => d.walk (f a)
      | some (.error e, d) => some (.error e, d)
      | none => none := by
  simp only [walk, ExceptT.run_bind, StateT.run_bind, Option.bind_eq_bind]
  rcases w.run.run c with _ | ⟨_ | _, _⟩ <;> rfl

@[simp] theorem walk_fail (c : Cursor) (error : Cursor → ParseError) :
    c.walk (Walk.fail error : Walk α) = some (.error (error c), c) := rfl

@[simp] theorem walk_peek? (c : Cursor) (n : Nat) : c.walk (Walk.peek? n) = some (.ok (c.peek? n), c) := rfl

@[simp] theorem walk_check (c : Cursor) (test : Token → Bool) : c.walk (Walk.check test) = some (.ok (c.check test), c) := rfl

theorem peek?_eq (c : Cursor) (n : Nat) : c.peek? n = c.rest[n]? := by
  rw [peek?, rest, List.getElem?_drop]

theorem peek?_eq_head? (c : Cursor) : c.peek? 0 = c.rest.head? := by
  rw [peek?_eq, List.head?_eq_getElem?]

theorem check_of_nil (h : c.rest = []) (test : Token → Bool) : c.check test = false := by
  rw [check, current?, peek?_eq_head?, h]
  rfl

theorem check_of_cons {t : Token} {us : List Token} (h : c.rest = t :: us) (test : Token → Bool) : c.check test = test t := by
  rw [check, current?, peek?_eq_head?, h]
  rfl

theorem expectedToken_eq (c : Cursor) (wanted : Expectation) :
    c.expectedToken wanted.text = c.errorOf ((Fault.expected wanted).cause maxNesting c.rest) := by
  rw [expectedToken, current?, peek?_eq_head?]
  cases c.rest <;> rfl

theorem walk_advance_of_cons {t : Token} {us : List Token} (h : c.rest = t :: us) :
    c.walk Walk.advance = some (.ok t, { c with index := c.tokens.length - us.length }) := by
  have hlength : c.tokens.length - c.index = us.length + 1 := by
    rw [← List.length_drop, ← rest, h, List.length_cons]
  have hindex : c.index + 1 = c.tokens.length - us.length := by omega
  rw [Walk.advance, walk_bind, walk_peek?, peek?_eq_head?, h, ← hindex]
  rfl

theorem walk_advance_of_nil (h : c.rest = []) : c.walk Walk.advance = some (.error (c.unexpectedEnd "a token"), c) := by
  rw [Walk.advance, walk_bind, walk_peek?, peek?_eq_head?, h]
  rfl

@[simp] theorem walk_loop (c : Cursor) (round : α → Walk (ForInStep α)) (a : α) :
    c.walk (Walk.loop round a) = c.walk (Walk.rounds round (c.rest.length + 1) a) := rfl

theorem walk_rounds_succ (c : Cursor) (round : α → Walk (ForInStep α)) (m : Nat) (a : α) :
    c.walk (Walk.rounds round (m + 1) a) = match c.walk (round a) with
      | some (.ok (.yield a), d) => d.walk (Walk.rounds round m a)
      | some (.ok (.done a), d) => some (.ok a, d)
      | some (.error e, d) => some (.error e, d)
      | none => none := by
  rw [Walk.rounds, walk_bind]
  rcases c.walk (round a) with _ | ⟨_ | _ | _, _⟩ <;> rfl

end Cursor

/-! ## Following -/

/-- A comma and what stands behind it. -/
def Parser.afterComma (p : α → Parser α) (t : Token) : Option (α → Parser α) :=
  if t.isSymbol "," then
    some fun a => do
      let _ ← next
      p a
  else none

theorem Parser.progressive_afterComma {p : α → Parser α} (hp : ∀ a, (p a).Takes 0 0) : Progressive (afterComma p) := by
  intro t round hr a
  obtain ⟨-, ⟨⟩⟩ := Option.ite_none_right_eq_some.1 hr
  exact takes_next.bind (d := 0) fun _ => hp a

namespace Walk

variable {n : Nat} {w : Walk α} {p q : Parser α}

/-- From every cursor that has `n` levels left, the walk ends as the parser does. -/
structure Follows (n : Nat) (w : Walk α) (p : Parser α) : Prop where
  takes : p.Takes 0 0
  walk : ∀ c : Cursor, c.index ≤ c.tokens.length → c.depth + n = maxNesting → c.walk w = some (c.run fun _ => p)

namespace Follows

theorem pure (a : α) : Follows n (Pure.pure a) (Pure.pure a) where
  takes := takes_pure a
  walk c hindex _ := by
    rw [Cursor.walk_pure, Cursor.run_of_stays hindex rfl]

theorem bind {f : α → Walk β} {g : α → Parser β} (h : Follows n w p) (hf : ∀ a, Follows n (f a) (g a)) :
    Follows n (w >>= f) (p >>= g) where
  takes := h.takes.bind fun a => (hf a).takes
  walk c hindex hdepth := by
    rw [Cursor.walk_bind, h.walk c hindex hdepth, Cursor.run_bind (p := fun _ => p) h.takes]
    cases hp : p c.rest with
    | error e => rw [Cursor.run_of_error (p := fun _ => p) hp]
    | ok r =>
      rw [Cursor.run_of_ok (p := fun _ => p) hp]
      exact (hf r.1).walk _ (Nat.sub_le _ _) hdepth

theorem ite {b : Prop} [Decidable b] {v : Walk α} (h : Follows n w p) (h' : Follows n v q) :
    Follows n (if b then w else v) (if b then p else q) := by
  split
  · exact h
  · exact h'

/-- A walk that chooses between two by looking ahead. -/
theorem choice {test : List Token → Bool} {v : Walk α} (h : Follows n w p) (h' : Follows n v q) :
    Follows n (get >>= fun c => if test c.rest then w else v) fun ts => if test ts then p ts else q ts where
  takes := h.takes.choice h'.takes
  walk c hindex hdepth := by
    rw [Cursor.walk_bind, Cursor.walk_get]
    by_cases ht : test c.rest = true
    · have hrun : c.run (fun _ ts => if test ts then p ts else q ts) = c.run fun _ => p := Cursor.run_congr (if_pos ht)
      rw [hrun, ← h.walk c hindex hdepth]
      simp only [ht, if_true]
    · have hrun : c.run (fun _ ts => if test ts then p ts else q ts) = c.run fun _ => q := Cursor.run_congr (if_neg ht)
      rw [hrun, ← h'.walk c hindex hdepth]
      simp only [ht, Bool.false_eq_true, if_false]

/-! ## One token -/

theorem fail {error : Cursor → ParseError} {fault : Fault} (hfault : fault ≠ .tooDeep)
    (h : ∀ c, error c = c.errorOf (fault.cause maxNesting c.rest)) : Follows n (Walk.fail error : Walk α) (.fail fault) where
  takes := takes_fail hfault
  walk c hindex _ := by rw [Cursor.walk_fail, Cursor.run_fail hindex, h]

theorem unexpectedToken : Follows n (Walk.fail (·.unexpectedToken) : Walk α) .unexpectedToken := fail nofun fun _ => rfl

theorem advance : Follows n Walk.advance next where
  takes := takes_next.of_le (Nat.zero_le 1) (Nat.le_refl 0)
  walk c hindex _ := by
    cases h : c.rest with
    | nil =>
      rw [Cursor.walk_advance_of_nil h, Cursor.run_congr (q := fun _ => .fail (.expected .token)) (by rw [h]; rfl),
        Cursor.run_fail hindex, h]
      rfl
    | cons t us =>
      rw [Cursor.walk_advance_of_cons h, Cursor.run_of_ok (p := fun _ => next) (by rw [h]; rfl)]

theorem satisfy {f : Option Token → Walk Token} {wanted : Expectation} {test : Token → Bool}
    (hnone : f none = Walk.fail (·.unexpectedEnd wanted.text))
    (hsome : ∀ t, f (some t) = if test t then Walk.advance else Walk.fail (·.expectedToken wanted.text)) :
    Follows n (peek? 0 >>= f) (Parser.satisfy wanted test) where
  takes := (takes_satisfy wanted test).of_le (Nat.zero_le 1) (Nat.le_refl 0)
  walk c hindex hdepth := by
    rw [Cursor.walk_bind, Cursor.walk_peek?, Cursor.peek?_eq_head?]
    cases h : c.rest with
    | nil =>
      rw [Cursor.run_congr (q := fun _ => .fail (.expected wanted)) (by rw [h]; rfl), Cursor.run_fail hindex, h]
      simp only [List.head?_nil, hnone, Cursor.walk_fail]
      rfl
    | cons t us =>
      simp only [List.head?_cons, hsome]
      by_cases ht : test t = true
      · rw [if_pos ht, Cursor.walk_advance_of_cons h,
          Cursor.run_of_ok (p := fun _ => Parser.satisfy wanted test) (by rw [h]; exact satisfy_eq_ok.2 ⟨rfl, ht⟩)]
      · have hfail : Parser.satisfy wanted test c.rest = (.fail (.expected wanted) : Parser Token) c.rest := by
          rw [h, Parser.satisfy, if_neg ht]
          rfl
        rw [if_neg ht, Cursor.run_congr (q := fun _ => .fail (.expected wanted)) hfail, Cursor.run_fail hindex, Cursor.walk_fail,
          Cursor.expectedToken_eq]

theorem expect (kind : Token.Kind) : Follows n (Walk.expect kind) (ofKind kind) :=
  satisfy rfl fun t => by simp only [decide_eq_true_eq]; rfl

theorem expectValue (kind : Token.Kind) (text : String) : Follows n (Walk.expectValue kind text) (exact kind text) :=
  satisfy rfl fun _ => rfl

theorem keyword (word : String) : Follows n (Walk.keyword word) (.keyword word) := expectValue .keyword word

theorem symbol (text : String) : Follows n (Walk.symbol text) (.symbol text) := expectValue .symbol text

theorem operator (text : String) : Follows n (Walk.operator text) (.operator text) := expectValue .operator text

theorem name : Follows n Walk.name .name := by
  rw [Parser.name, map_eq_pure_bind]
  exact (expect .identifier).bind fun _ => pure _

theorem check (test : Token → Bool) : Follows n (Walk.check test) (.check test) where
  takes := takes_check test
  walk c hindex _ := by
    rw [Cursor.walk_check, Cursor.run_of_stays (p := fun _ => Parser.check test) hindex rfl, Cursor.check, Cursor.current?,
      Cursor.peek?_eq_head?]

/-- A walk that goes on as the token here says, of which there must be one. -/
theorem look {f : Option Token → Walk α} {wanted : Expectation} {go : Token → Parser α}
    (hnone : f none = Walk.fail (·.unexpectedEnd wanted.text)) (hsome : ∀ t, Follows n (f (some t)) (go t)) :
    Follows n (peek? 0 >>= f) (Parser.look wanted go) where
  takes := Takes.look fun t => (hsome t).takes
  walk c hindex hdepth := by
    rw [Cursor.walk_bind, Cursor.walk_peek?, Cursor.peek?_eq_head?]
    cases h : c.rest with
    | nil =>
      rw [Cursor.run_congr (q := fun _ => .fail (.unexpected wanted)) (by rw [h]; rfl), Cursor.run_fail hindex, h]
      simp only [List.head?_nil, hnone, Cursor.walk_fail]
      rfl
    | cons t us =>
      rw [Cursor.run_congr (q := fun _ => go t) (by rw [h]; rfl)]
      exact (hsome t).walk c hindex hdepth

/-! ## Levels -/

/-- A level that is opened in front of a walk and closed behind it. An error keeps the walk from closing it. -/
theorem level (h : Follows n w p) (g : α → β) :
    Follows (n + 1) (enter >>= fun _ => w >>= fun a => exit >>= fun _ => Pure.pure (g a)) (nested (p >>= fun a => Pure.pure (g a))) where
  takes := (h.takes.bind fun _ => takes_pure _).nested
  walk c hindex hdepth := by
    have hopen : c.enter = .ok { c with depth := c.depth + 1 } := if_neg (by omega)
    have henter : c.walk enter = some (.ok (), { c with depth := c.depth + 1 }) := by
      rw [enter, Cursor.walk_bind, Cursor.walk_get]
      simp only [hopen]
      rfl
    have hwalk := h.walk { c with depth := c.depth + 1 } hindex ((Nat.succ_add c.depth n).trans hdepth)
    rw [Cursor.walk_bind, henter]
    simp only [Cursor.walk_bind, hwalk]
    cases hp : p c.rest with
    | error e =>
      rw [Cursor.run_of_error (p := fun _ => p) (c := { c with depth := c.depth + 1 }) hp,
        Cursor.run_of_error (p := fun _ => nested _) (e := { e with levels := e.levels + 1 })
          (by rw [nested, bind_eq_error.2 (.inl hp)])]
      simp only [Failure.error]
      rw [Nat.add_right_comm, Nat.add_assoc]
    | ok r =>
      have hnested : nested (p >>= fun a => Pure.pure (g a)) c.rest = .ok (g r.1, r.2) := by
        rw [nested, bind_eq_ok.2 ⟨r.1, r.2, hp, rfl⟩]
      rw [Cursor.run_of_ok (p := fun _ => p) (c := { c with depth := c.depth + 1 }) hp,
        Cursor.run_of_ok (p := fun _ => nested _) hnested]
      rfl

/-- With no level left nothing is opened. -/
theorem tooDeep {f : Unit → Walk α} : Follows 0 (enter >>= f) (.fail .tooDeep) where
  takes _ := ⟨List.suffix_refl _, fun _ => Nat.le_refl _⟩
  walk c hindex hdepth := by
    have hfull : c.enter = .error (c.errorOf (.nestingTooDeep maxNesting)) := if_pos (by omega)
    have henter : c.walk enter = some (.error (c.errorOf (.nestingTooDeep maxNesting)), c) := by
      rw [enter, Cursor.walk_bind, Cursor.walk_get]
      simp only [hfull]
      rfl
    rw [Cursor.walk_bind, henter, Cursor.run_fail hindex]
    rfl

/-! ## Loops -/

/-- A loop whose rounds follow those of a loop over tokens. -/
theorem repeating {round? : Token → Option (α → Parser α)} (hp : Progressive round?) {round : α → Walk (ForInStep α)}
    (hstop : ∀ a (c : Cursor), (∀ t us, c.rest = t :: us → round? t = none) → c.walk (round a) = some (.ok (.done a), c))
    (hround : ∀ a (c : Cursor) t us go, c.rest = t :: us → round? t = some go →
      ∃ w, Follows n w (go a) ∧ c.walk (round a) = c.walk (w >>= fun a => Pure.pure (.yield a))) (a : α) :
    Follows n (loop round a) (Parser.repeating round? a) where
  takes := Takes.repeating (fun t go hr a => hp t go hr a) a
  walk c hindex hdepth := by
    rw [Cursor.walk_loop]
    have hm : c.rest.length < c.rest.length + 1 := Nat.lt_succ_self _
    generalize c.rest.length + 1 = m at hm
    generalize hts : c.rest = ts at hm
    -- Each round takes a token, so there are rounds enough.
    induction a, ts using hp.induction generalizing c m with
    | nil a =>
      obtain ⟨m, rfl⟩ := Nat.exists_eq_succ_of_ne_zero (Nat.ne_zero_of_lt hm)
      rw [Cursor.walk_rounds_succ, hstop a c (by rw [hts]; nofun),
        Cursor.run_of_stays (p := fun _ => Parser.repeating round? a) hindex (by rw [hts]; rfl)]
    | stop a t ts hr =>
      obtain ⟨m, rfl⟩ := Nat.exists_eq_succ_of_ne_zero (Nat.ne_zero_of_lt hm)
      have hnone : ∀ u us, c.rest = u :: us → round? u = none := by
        intro u us hu
        cases hts.symm.trans hu
        exact hr
      rw [Cursor.walk_rounds_succ, hstop a c hnone, Cursor.run_of_stays (p := fun _ => Parser.repeating round? a) hindex
        (by rw [hts]; exact repeating_of_none hr a ts)]
    | round a t ts go hr ih =>
      obtain ⟨m, rfl⟩ := Nat.exists_eq_succ_of_ne_zero (Nat.ne_zero_of_lt hm)
      obtain ⟨w, hw, hgo⟩ := hround a c t ts go hts hr
      have hstep : Parser.repeating round? a c.rest = (go a >>= Parser.repeating round?) c.rest := by
        rw [hts]
        exact repeating_of_some hp hr a ts
      rw [Cursor.walk_rounds_succ, hgo, Cursor.walk_bind, Cursor.run_congr (q := fun _ => go a >>= Parser.repeating round?) hstep,
        hw.walk c hindex hdepth, Cursor.run_bind (p := fun _ => go a) hw.takes]
      cases hb : go a c.rest with
      | error e => rw [Cursor.run_of_error (p := fun _ => go a) hb]
      | ok r =>
        have hrest := Cursor.rest_of_suffix (hw.takes.suffix_of_ok hb) c.depth
        have htaken := (hp t go hr a).length_of_ok hb
        rw [Cursor.run_of_ok (p := fun _ => go a) hb]
        have hlt : r.2.length < m := by
          rw [hts] at htaken
          omega
        exact ih r.1 r.2 (hts ▸ hb) { c with index := c.tokens.length - r.2.length } (Nat.sub_le _ _) hdepth m hrest hlt

/-- A loop that goes on as long as the token here passes a test. -/
theorem repeating_check {test : Token → Bool} {g : α → Parser α} (hp : ∀ a, (g a).Takes 1 0) {f : α → Walk α}
    (hf : ∀ a, Follows n (f a) (g a)) {round : α → Walk (ForInStep α)}
    (hround : ∀ a (c : Cursor), c.walk (round a) = c.walk (Walk.check test >>= fun more =>
      if more then f a >>= fun a => Pure.pure (.yield a) else Pure.pure (.done a)))
    (a : α) :
    Follows n (loop round a) (Parser.repeating (fun t => if test t then some g else none) a) := by
  refine repeating (fun t go hr a => ?_) (fun a c hc => ?_) (fun a c t us go hrest hr => ?_) a
  · obtain ⟨-, ⟨⟩⟩ := Option.ite_none_right_eq_some.1 hr
    exact hp a
  · have hmore : c.check test = false := by
      cases hrest : c.rest with
      | nil => exact Cursor.check_of_nil hrest test
      | cons t us =>
        rw [Cursor.check_of_cons hrest]
        exact eq_false_of_ne_true fun ht => nomatch (if_pos ht).symm.trans (hc t us hrest)
    rw [hround, Cursor.walk_bind, Cursor.walk_check, hmore]
    rfl
  · obtain ⟨ht, ⟨⟩⟩ := Option.ite_none_right_eq_some.1 hr
    refine ⟨f a, hf a, ?_⟩
    rw [hround, Cursor.walk_bind, Cursor.walk_check, Cursor.check_of_cons hrest, ht]
    rfl

/-- A loop that ends with what it does where no comma follows. -/
theorem commas {start finish : α → Walk α} {p q : α → Parser α} {round : α → Walk (ForInStep α)}
    (hstart : ∀ a, Follows n (start a) (p a)) (hfinish : ∀ a, Follows n (finish a) (q a))
    (hround : ∀ a (c : Cursor), c.walk (round a) = c.walk (start a >>= fun a => Walk.check (·.isSymbol ",") >>= fun more =>
      if more then Walk.advance >>= fun _ => Pure.pure (.yield a) else finish a >>= fun a => Pure.pure (.done a))) (a : α) :
    Follows n (loop round a) (p a >>= fun a => Parser.repeating (afterComma p) a >>= q) := by
  have hp : Progressive (afterComma p) := progressive_afterComma fun a => (hstart a).takes
  refine ⟨(hstart a).takes.bind fun a => (Takes.repeating (fun t go hr a => hp t go hr a) a).bind fun a =>
    (hfinish a).takes, fun c hindex hdepth => ?_⟩
  rw [Cursor.walk_loop]
  have hm : c.rest.length < c.rest.length + 1 := Nat.lt_succ_self _
  generalize c.rest.length + 1 = m at hm
  -- Each round but the last takes its comma.
  induction m generalizing a c with
  | zero => exact absurd hm (Nat.not_lt_zero _)
  | succ m ih =>
    rw [Cursor.walk_rounds_succ, hround, Cursor.walk_bind, (hstart a).walk c hindex hdepth,
      Cursor.run_bind (p := fun _ => p a) (hstart a).takes]
    cases hr : p a c.rest with
    | error e => rw [Cursor.run_of_error (p := fun _ => p a) hr]
    | ok r =>
      obtain ⟨b, us⟩ := r
      have hrest := Cursor.rest_of_suffix ((hstart a).takes.suffix_of_ok hr) c.depth
      have hleft := ((hstart a).takes.suffix_of_ok hr).length_le
      rw [Cursor.run_of_ok (p := fun _ => p a) hr]
      simp only [Cursor.walk_bind, Cursor.walk_check]
      generalize hd : ({ c with index := c.tokens.length - us.length } : Cursor) = d at hrest
      have hindex' : d.index ≤ d.tokens.length := hd ▸ Nat.sub_le _ _
      have hdepth' : d.depth + n = maxNesting := hd ▸ hdepth
      have hlast : d.walk (finish b) = some (d.run fun _ => q b) := (hfinish b).walk d hindex' hdepth'
      cases us with
      | nil =>
        rw [Cursor.check_of_nil hrest, Cursor.run_congr (q := fun _ => q b) (by rw [hrest]; rfl)]
        simp only [Bool.false_eq_true, if_false, Cursor.walk_bind, hlast]
        rcases d.run fun _ => q b with ⟨_ | _, _⟩ <;> rfl
      | cons t us =>
        rw [Cursor.check_of_cons hrest]
        by_cases ht : t.isSymbol "," = true
        · have hgo : (Parser.repeating (afterComma p) b >>= q) d.rest =
              (next >>= fun _ => p b >>= fun a => Parser.repeating (afterComma p) a >>= q) d.rest := by
            rw [hrest, bind_run, repeating_of_some hp (if_pos ht), ← bind_run, Parser.bind_assoc, Parser.bind_assoc]
          have hus := Cursor.rest_of_suffix (hrest ▸ List.suffix_cons t us) d.depth
          rw [if_pos ht, Cursor.walk_bind, Cursor.walk_advance_of_cons hrest,
            Cursor.run_congr (q := fun _ => next >>= fun _ => p b >>= fun a => Parser.repeating (afterComma p) a >>= q) hgo,
            Cursor.run_bind (p := fun _ => next) (takes_next.of_le (Nat.zero_le 1) (Nat.le_refl 0)),
            Cursor.run_of_ok (p := fun _ => next) (by rw [hrest]; rfl)]
          refine ih b _ (Nat.sub_le _ _) hdepth' ?_
          rw [hus]
          exact Nat.lt_of_lt_of_le hleft (Nat.le_of_lt_succ hm)
        · rw [if_neg ht, Cursor.run_congr (q := fun _ => q b) (by rw [hrest, bind_run, repeating_of_none (if_neg ht)])]
          simp only [Cursor.walk_bind, hlast]
          rcases d.run fun _ => q b with ⟨_ | _, _⟩ <;> rfl

end Follows
end Walk
end MiniLua
