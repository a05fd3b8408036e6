import MiniLua.Proofs.Calls.Routine
import MiniLua.Proofs.Reading.Stopping
/-!
# One call and what it is given

A routine calls another one on certain tokens if it does not get by without the answer
(`Routine.Calls`). What it does with other tokens in their place, as far as the one it calls gives
the same, is compared run by run: `Follows` relates a run that lacks the one answer to the full
one, and goes through the combinators.

What is replaced is the start of an expression, by an opening parenthesis (`Swap`). Where this is
the very token that a parser looks at next, a loop or a link before it could see the
difference. So no parser may make the call at once when another one has ended there
by what it saw: `now` says whether it may.
-/

namespace MiniLua

open MiniLua.Parser MiniLua.Syntax

namespace Routine

variable {α β : Type}

/-- Both calls are of the same routine on the same tokens. -/
def SameCall {γ : Type} (r : Routine γ) (ts : List Token) (q : Routine β) (us : List Token) : Prop :=
  (⟨γ, r⟩ : Sigma Routine) = ⟨β, q⟩ ∧ ts = us

open Classical in
/-- Answers every call but one. -/
noncomputable def withheld (q : Routine β) (us : List Token) {γ : Type} (r : Routine γ) : Fueled γ := fun ts =>
  if SameCall r ts q us then none else some (r.parser ts)

section
variable {γ : Type} {q : Routine β} {r : Routine γ} {ts us : List Token}

theorem withheld_eq_none : withheld q us r ts = none ↔ SameCall r ts q us := by
  unfold withheld
  split <;> simp [*]

/-- Every other answer is the right one. -/
theorem withheld_eq_some {x : Except Failure (γ × List Token)} (h : withheld q us r ts = some x) : r.parser ts = x := by
  unfold withheld at h
  split at h
  · cases h
  · exact Option.some.inj h

theorem withheld_self (r : Routine α) (ts : List Token) : withheld r ts r ts = none := withheld_eq_none.2 ⟨rfl, rfl⟩

end

/-- On `ts` the first routine calls the second one on `us`, without whose answer it does not end. -/
def Calls (r : Routine α) (ts : List Token) (q : Routine β) (us : List Token) : Prop := r.body (withheld q us) ts = none

end Routine

/-! ## Ends before a token -/

/-- A parser that ends before a token ends there whatever is behind the token. -/
structure Parser.Steady {α : Type} (p : Parser α) : Prop where
  takes : p.Takes 0 0
  ok : ∀ {w t r a}, p (w ++ t :: r) = .ok (a, t :: r) → ∀ r', p (w ++ t :: r') = .ok (a, t :: r')

namespace Parser

variable {α β : Type} {p p' : Parser α} {q : α → Parser β}

theorem Local.steady (h : Local p) : Steady p where
  takes := h.takes
  ok {w _ _ _} := (h.localAt w).ok

theorem Steady.bind (hp : Steady p) (hq : ∀ a, Steady (q a)) : Steady (p >>= q) where
  takes := hp.takes.bind fun a => (hq a).takes
  ok {w t r b} h r' := by
    obtain ⟨a, us, ha, hb⟩ := bind_eq_ok.1 h
    obtain ⟨w₁, w₂, rfl, rfl⟩ := exists_split_of_suffix (hp.takes.suffix_of_ok ha) ((hq a).takes.suffix_of_ok hb)
    refine bind_eq_ok.2 ⟨a, w₂ ++ t :: r', ?_, (hq a).ok hb r'⟩
    rw [List.append_assoc] at ha ⊢
    cases w₂ with
    | nil => exact hp.ok ha r'
    | cons u w₂ => exact hp.ok ha (w₂ ++ t :: r')

theorem Steady.nested (hp : Steady p) : Steady (nested p) where
  takes := hp.takes.nested
  ok h r' := (endsAs_nested p _).ok_iff.2 (hp.ok ((endsAs_nested p _).ok_iff.1 h) r')

theorem Steady.look {wanted : Expectation} {go : Token → Parser α} (h : ∀ t, Steady (go t)) : Steady (look wanted go) where
  takes := .look fun t => (h t).takes
  ok {w t r a} hr r' := by
    cases w with
    | nil => exact (h t).ok (w := []) hr r'
    | cons u w => exact (h u).ok (w := u :: w) hr r'

end Parser

/-! ## Two inputs -/

/-- Tokens with the start of an expression behind them, and an opening parenthesis to stand in its place. -/
structure Swap where
  front : List Token
  first : Token
  rest : List Token
  paren : Token
  rest' : List Token
  starts : StartsExpr first
  isParen : paren.isSymbol "(" = true

namespace Swap

variable (s : Swap) {w w₁ w₂ : List Token}

def old : List Token := s.front ++ s.first :: s.rest

def new : List Token := s.front ++ s.paren :: s.rest'

/-- With more tokens before it. -/
def behind (w : List Token) : Swap := { s with front := w ++ s.front }

@[simp] theorem behind_old : (s.behind w).old = w ++ s.old := List.append_assoc ..

@[simp] theorem behind_new : (s.behind w).new = w ++ s.new := List.append_assoc ..

/-- An opening parenthesis starts an expression as well. -/
theorem starts_paren : StartsExpr s.paren := .inr (.inr (.inr (.inl (Terminal.symbol_iff.2 s.isParen))))

/-- With the same tokens before the difference. -/
theorem old_new_eq {v : List Token} (h : w ++ s.front = v) :
    w ++ s.old = v ++ s.first :: s.rest ∧ w ++ s.new = v ++ s.paren :: s.rest' := by
  simp [old, new, ← h]

/-- Both inputs start with the same token unless the difference comes first. -/
theorem exists_cons (h : w ++ s.front ≠ []) : ∃ t us us', w ++ s.old = t :: us ∧ w ++ s.new = t :: us' := by
  obtain ⟨t, v, hv⟩ := List.exists_cons_of_ne_nil h
  exact ⟨t, _, _, s.old_new_eq hv⟩

/-- What ends before the difference does so on both. -/
theorem ok_before {α : Type} {p : Parser α} (hp : Steady p) {a : α} (h : p (w₁ ++ w₂ ++ s.old) = .ok (a, w₂ ++ s.old))
    (hne : w₂ ++ s.front ≠ []) : p (w₁ ++ w₂ ++ s.new) = .ok (a, w₂ ++ s.new) := by
  obtain ⟨t, us, us', hold, hnew⟩ := s.exists_cons hne
  rw [List.append_assoc, hold] at h
  rw [List.append_assoc, hnew]
  exact hp.ok h us'

end Swap

/-! ## Runs without one answer -/

/-- Ending well or for want of levels is kept by what comes behind. -/
theorem EndsAs.bind_ok {α β : Type} {p : Parser α} {q : α → Parser β} {ts us : List Token} {a : α} {x : β × List Token}
    (hp : EndsAs True (p ts) (.ok (a, us))) (hq : EndsAs True (q a us) (.ok x)) : EndsAs True ((p >>= q) ts) (.ok x) := by
  rw [bind_run]
  cases hr : p ts with
  | ok r =>
    rw [hr] at hp
    cases hp
    exact hq
  | error e =>
    rw [hr] at hp
    rcases hp with hp | ⟨e', he, _⟩
    · exact .inl hp
    · cases he

/-- A run that lacks one answer agrees with the full one where it ends, and else has yet to come to the old input. -/
structure Pending (s : Swap) {α : Type} (f : Fueled α) (p : Parser α) : Prop where
  steady : Steady p
  agree : ∀ {ts r}, f ts = some r → p ts = r
  reach : ∀ {ts}, f ts = none → s.old <:+ ts

/-- Where it does not end, the full run ends in the same way with the new input in place of the old one, or for
want of levels. -/
structure Follows (s : Swap) (now : Bool) {α : Type} (f : Fueled α) (p : Parser α) : Prop extends Pending s f p where
  /-- The call is not made at once, unless the difference is further behind. -/
  idle : now = false → f s.old = none → s.front ≠ []
  mark : ∀ {w x}, f (w ++ s.old) = none → p (w ++ s.old) = .ok x → EndsAs True (p (w ++ s.new)) (.ok x)

theorem Pending.free {s : Swap} {α : Type} {p : Parser α} (hp : Steady p) : Pending s (Fueled.free p) p :=
  ⟨hp, Option.some.inj, nofun⟩

theorem Pending.bind {s : Swap} {α β : Type} {f : Fueled α} {p : Parser α} {g : α → Fueled β} {q : α → Parser β}
    (hf : Pending s f p) (hg : ∀ a, Pending s (g a) (q a)) : Pending s (f >>= g) (p >>= q) where
  steady := hf.steady.bind fun a => (hg a).steady
  agree h := by
    rw [bind_run]
    rcases Fueled.bind_eq_some.1 h with ⟨e, he, rfl⟩ | ⟨a, us, ha, hb⟩
    · rw [hf.agree he]
    · rw [hf.agree ha]
      exact (hg a).agree hb
  reach h := by
    rcases Fueled.bind_eq_none.1 h with h | ⟨a, us, ha, hb⟩
    · exact hf.reach h
    · exact ((hg a).reach hb).trans (hf.steady.takes.suffix_of_ok (hf.agree ha))

/-- Takes one token and sees no other. -/
def Parser.Single {α : Type} (p : Parser α) : Prop :=
  ∀ {ts a rest}, p ts = .ok (a, rest) → ∃ t, ts = t :: rest ∧ ∀ rest', p (t :: rest') = .ok (a, rest')

theorem Parser.single_next : Single next := by
  intro ts t rest h
  cases ts with
  | nil => cases h
  | cons u ts =>
    cases h
    exact ⟨t, rfl, fun _ => rfl⟩

theorem Parser.single_satisfy (wanted : Expectation) (test : Token → Bool) : Single (satisfy wanted test) := by
  intro ts t rest h
  obtain ⟨rfl, ht⟩ := satisfy_eq_ok.1 h
  exact ⟨t, rfl, fun _ => satisfy_eq_ok.2 ⟨rfl, ht⟩⟩

theorem Parser.single_name : Single name := by
  intro ts x rest h
  rw [name, map_eq_pure_bind] at h
  obtain ⟨t, _, ht, hx⟩ := bind_eq_ok.1 h
  cases hx
  obtain ⟨u, rfl, hu⟩ := single_satisfy _ _ ht
  refine ⟨u, rfl, fun rest' => ?_⟩
  rw [name, map_eq_pure_bind]
  exact bind_eq_ok.2 ⟨t, rest', hu rest', rfl⟩

namespace Follows

open Fueled (free)

variable {s : Swap} {now : Bool} {α β : Type} {f f' : Fueled α} {p p' : Parser α} {g : α → Fueled β} {q : α → Parser β}

theorem weaken (h : Follows s false f p) : Follows s now f p := { h with idle := fun _ => h.idle rfl }

theorem atOnce (h : Follows s now f p) : Follows s true f p := { h with idle := nofun }

/-- What needs no answer. -/
theorem free (hp : Steady p) : Follows s now (free p) p where
  toPending := .free hp
  idle _ := nofun
  mark := nofun

theorem pure (a : α) : Follows s now (Pure.pure a) (Pure.pure a) := .free (local_pure a).steady

theorem fail (fault : Fault) : Follows s now (Fueled.free (Parser.fail fault)) (Parser.fail fault : Parser α) :=
  .free ⟨fun _ => ⟨List.suffix_refl _, fun _ => Nat.le_refl _⟩, nofun⟩

/-- No tokens are left between the two inputs only where nothing was taken, or the difference came first. -/
theorem mark_of_idle (hf : Follows s false f p) {w : List Token} (h : f (w ++ s.old) = none) : w ++ s.front ≠ [] := by
  intro hnil
  obtain ⟨rfl, hfront⟩ := List.append_eq_nil_iff.1 hnil
  exact hf.idle rfl h hfront

/-- The second one must not make the call at once: the first may have ended where it did by the token behind. -/
theorem bind (hf : Follows s now f p) (hg : ∀ a, Follows s false (g a) (q a)) : Follows s now (f >>= g) (p >>= q) where
  toPending := hf.toPending.bind fun a => (hg a).toPending
  idle hn h := by
    rcases Fueled.bind_eq_none.1 h with h | ⟨a, us, ha, hb⟩
    · exact hf.idle hn h
    · have hus := hf.steady.takes.suffix_of_ok (hf.agree ha)
      rw [hus.eq_of_length_le ((hg a).reach hb).length_le] at hb
      exact (hg a).idle rfl hb
  mark {w x} h hx := by
    obtain ⟨a, us, ha, hb⟩ := bind_eq_ok.1 hx
    rcases Fueled.bind_eq_none.1 h with h | ⟨a', us', ha', hb'⟩
    · -- The call is made by the first one.
      refine (hf.mark h ha).bind_ok ?_
      rw [hb]
      rfl
    · have := (hf.agree ha').symm.trans ha
      cases this
      obtain ⟨w₁, w₂, rfl, rfl⟩ := exists_split_of_suffix (hf.steady.takes.suffix_of_ok ha) ((hg a).reach hb')
      have hnew := s.ok_before hf.steady ha ((hg a).mark_of_idle hb')
      exact EndsAs.bind_ok (by rw [hnew]; rfl) ((hg a).mark hb' hb)

theorem map {c : α → β} (hf : Follows s now f p) : Follows s now (c <$> f) (c <$> p) := by
  show Follows s now (f >>= fun a => Pure.pure (c a)) (p >>= fun a => Pure.pure (c a))
  exact hf.bind fun _ => .pure _

theorem nested (hf : Follows s now f p) : Follows s now (Fueled.nested f) (Parser.nested p) where
  steady := hf.steady.nested
  agree {ts r} h := by
    rw [Parser.nested]
    rw [Fueled.nested] at h
    rcases hr : f ts with _ | r'
    · rw [hr] at h
      cases h
    · rw [hr] at h
      rw [hf.agree hr]
      cases r' <;> exact Option.some.inj h
  reach h := hf.reach (Fueled.nested_eq_none.1 h)
  idle hn h := hf.idle hn (Fueled.nested_eq_none.1 h)
  mark h hx := (endsAs_nested p _).lax_of_strict.trans (hf.mark (Fueled.nested_eq_none.1 h) ((endsAs_nested p _).ok_iff.1 hx))

theorem ite {b : Prop} [Decidable b] (hf : Follows s now f p) (hf' : Follows s now f' p') :
    Follows s now (if b then f else f') (if b then p else p') := by
  split
  · exact hf
  · exact hf'

/-! ## One token -/

/-- Behind a token that is taken the call may be made at once. -/
theorem token (hp : Steady p) (hs : Single p) (hg : ∀ a, Follows s true (g a) (q a)) :
    Follows s now (Fueled.free p >>= g) (p >>= q) where
  toPending := (Pending.free hp).bind fun a => (hg a).toPending
  idle _ h := by
    obtain ⟨a, us, ha, hb⟩ := (Fueled.bind_eq_none.1 h).resolve_left nofun
    obtain ⟨t, ht, -⟩ := hs (Option.some.inj ha)
    -- Less than the old input is left.
    have := ((hg a).reach hb).length_le
    rw [ht, List.length_cons] at this
    omega
  mark {w x} h hx := by
    obtain ⟨a, us, ha, hb⟩ := (Fueled.bind_eq_none.1 h).resolve_left nofun
    have ha := Option.some.inj ha
    obtain ⟨t, ht, hnew⟩ := hs ha
    obtain ⟨w₁, w₂, rfl, rfl⟩ := exists_split_of_suffix (hp.takes.suffix_of_ok ha) ((hg a).reach hb)
    have hw : w₁ ++ (w₂ ++ s.old) = [t] ++ (w₂ ++ s.old) := by rw [← List.append_assoc, ht]; rfl
    obtain rfl := List.append_cancel_right hw
    have hq : q a (w₂ ++ s.old) = .ok x := by
      obtain ⟨_, _, ha', hq⟩ := bind_eq_ok.1 hx
      rw [ha] at ha'
      cases ha'
      exact hq
    have hbehind := (hg a).mark hb hq
    rwa [List.append_assoc, List.singleton_append, bind_run, hnew]

theorem satisfy (wanted : Expectation) (test : Token → Bool) {g : Token → Fueled β} {q : Token → Parser β}
    (hg : ∀ t, Follows s true (g t) (q t)) :
    Follows s now (Fueled.free (Parser.satisfy wanted test) >>= g) (Parser.satisfy wanted test >>= q) :=
  .token (local_satisfy _ _).steady (single_satisfy _ _) hg

theorem next {g : Token → Fueled β} {q : Token → Parser β} (hg : ∀ t, Follows s true (g t) (q t)) :
    Follows s now (Fueled.free Parser.next >>= g) (Parser.next >>= q) :=
  .token local_next.steady single_next hg

theorem name {g : String → Fueled β} {q : String → Parser β} (hg : ∀ x, Follows s true (g x) (q x)) :
    Follows s now (Fueled.free Parser.name >>= g) (Parser.name >>= q) :=
  .token (local_satisfy _ _).map.steady single_name hg

/-- A test of the next token. If the call may be made at once, it must not tell one start of an expression from another. -/
theorem checkAtOnce {test : Token → Bool} (hf : Follows s now f p) (hf' : Follows s now f' p')
    (ht : now = true → ∃ b, ∀ t, StartsExpr t → test t = b) :
    Follows s now (Fueled.free (Parser.check test) >>= fun b => if b then f else f')
      (Parser.check test >>= fun b => if b then p else p') where
  toPending := (Pending.free (local_check test).steady).bind fun b => (Follows.ite hf hf').toPending
  idle hn h := by
    obtain ⟨b, us, hb, h⟩ := (Fueled.bind_eq_none.1 h).resolve_left nofun
    cases hb
    exact (Follows.ite hf hf').idle hn h
  mark {w x} h hx := by
    obtain ⟨b, us, hb, h⟩ := (Fueled.bind_eq_none.1 h).resolve_left nofun
    cases hb
    have hsame : (w ++ s.new).head?.any test = (w ++ s.old).head?.any test := by
      by_cases hne : w ++ s.front = []
      · obtain ⟨rfl, hfront⟩ := List.append_eq_nil_iff.1 hne
        cases now with
        | false => exact absurd hfront ((Follows.ite hf hf').idle rfl h)
        | true =>
          obtain ⟨b, hb⟩ := ht rfl
          simp [Swap.old, Swap.new, hfront, hb _ s.starts, hb _ s.starts_paren]
      · obtain ⟨t, us, us', hold, hnew⟩ := s.exists_cons hne
        rw [hold, hnew]
        rfl
    have hx' := (Follows.ite hf hf').mark h hx
    rw [← hsame] at hx'
    exact hx'

theorem check {test : Token → Bool} (hf : Follows s false f p) (hf' : Follows s false f' p') :
    Follows s now (Fueled.free (Parser.check test) >>= fun b => if b then f else f')
      (Parser.check test >>= fun b => if b then p else p') :=
  (checkAtOnce hf hf' nofun).weaken

theorem look {wanted : Expectation} {go : Token → Fueled α} {go' : Token → Parser α}
    (h : ∀ t, Follows s false (go t) (go' t)) : Follows s now (Fueled.look wanted go) (Parser.look wanted go') where
  steady := .look fun t => (h t).steady
  agree {ts r} hr := by
    cases ts with
    | nil => exact Option.some.inj hr
    | cons t ts => exact (h t).agree hr
  reach {ts} hr := by
    cases ts with
    | nil => cases hr
    | cons t ts => exact (h t).reach hr
  idle _ hr hfront := by
    rw [Swap.old, hfront] at hr
    exact (h s.first).idle rfl (by rwa [Swap.old, hfront]) hfront
  mark {w x} hr hx := by
    by_cases hne : w ++ s.front = []
    · obtain ⟨rfl, hfront⟩ := List.append_eq_nil_iff.1 hne
      rw [List.nil_append, Swap.old, hfront] at hr
      exact absurd hfront ((h s.first).idle rfl (by rwa [Swap.old, hfront]))
    · obtain ⟨t, us, us', hold, hnew⟩ := s.exists_cons hne
      rw [hold] at hr hx
      have := (h t).mark (w := w) (by rwa [hold]) (by rwa [hold])
      rwa [hnew] at this ⊢

/-- A choice by the first tokens that the difference does not affect, unless it comes first. There the second one is
chosen for the new input. -/
theorem choice {test : List Token → Bool} (hl : Steady fun ts => if test ts then p ts else p' ts) (hf : Follows s false f p)
    (hf' : Follows s true f' p') (ht : ∀ w, w ++ s.front ≠ [] → test (w ++ s.new) = test (w ++ s.old))
    (hnew : s.front = [] → test s.new = false) :
    Follows s true (fun ts => if test ts then f ts else f' ts) (fun ts => if test ts then p ts else p' ts) where
  steady := hl
  agree {ts r} h := by
    split at h
    · next htest => exact (if_pos htest).trans (hf.agree h)
    · next htest => exact (if_neg htest).trans (hf'.agree h)
  reach {ts} h := by
    split at h
    · exact hf.reach h
    · exact hf'.reach h
  idle := nofun
  mark {w x} h hx := by
    have hsame : test (w ++ s.old) = false → test (w ++ s.new) = false := by
      intro hold
      by_cases hne : w ++ s.front = []
      · obtain ⟨rfl, hfront⟩ := List.append_eq_nil_iff.1 hne
        exact hnew hfront
      · rw [ht w hne, hold]
    split at h
    · next htest =>
      have htest' : test (w ++ s.new) = true := (ht w (hf.mark_of_idle h)).trans htest
      rw [if_pos htest']
      exact hf.mark h ((if_pos htest).symm.trans hx)
    · next htest =>
      rw [hsame (Bool.eq_false_iff.2 htest)]
      exact hf'.mark h ((if_neg htest).symm.trans hx)

/-! ## Loops -/

section
variable {round? : Token → Option (α → Fueled α)} {round?' : Token → Option (α → Parser α)} {bound : List Token} {a : α}
  {ts w : List Token} (hp : Progressive round?')
  (hR : ∀ t, Option.Rel (fun f p => ∀ a, Follows s false (f a) (p a)) (round? t) (round?' t))
include hR

theorem round_of_some {t : Token} {round : α → Fueled α} (hr : round? t = some round) :
    ∃ round', round?' t = some round' ∧ ∀ a, Follows s false (round a) (round' a) := by
  have h := hR t
  rw [hr] at h
  generalize hr' : round?' t = other at h
  cases h with
  | some h => exact ⟨_, rfl, h⟩

theorem rounds_agree {r : Except Failure (α × List Token)} (h : Fueled.rounds round? bound a ts = some r) :
    Parser.rounds round?' bound a ts = r := by
  induction bound generalizing a ts with
  | nil => exact Option.some.inj h
  | cons b bound ih =>
    cases ts with
    | nil => exact Option.some.inj h
    | cons t ts =>
      have ht := hR t
      rw [Fueled.rounds] at h
      rw [Parser.rounds]
      generalize round? t = round, round?' t = round' at h ht
      cases ht with
      | none => exact Option.some.inj h
      | @some round round' hround =>
        show (round' a >>= Parser.rounds round?' bound) (t :: ts) = r
        rw [bind_run]
        rcases Fueled.bind_eq_some.1 h with ⟨e, he, rfl⟩ | ⟨c, us, hc, h⟩
        · rw [(hround a).agree he]
        · rw [(hround a).agree hc]
          exact ih h

theorem rounds_reach (h : Fueled.rounds round? bound a ts = none) : s.old <:+ ts := by
  induction bound generalizing a ts with
  | nil => cases h
  | cons b bound ih =>
    obtain ⟨_, _, t, us, round, hb, rfl, hr, h⟩ := Fueled.rounds_eq_none h
    cases hb
    obtain ⟨round', -, hround⟩ := round_of_some hR hr
    rcases Fueled.bind_eq_none.1 h with h | ⟨c, vs, hc, h⟩
    · exact (hround a).reach h
    · exact (ih h).trans ((hround a).steady.takes.suffix_of_ok ((hround a).agree hc))

include hp

/-- A round that ends takes a token, so the call is not made at once in a later one. -/
theorem rounds_idle (h : Fueled.rounds round? bound a (w ++ s.old) = none) : w ++ s.front ≠ [] := by
  obtain ⟨_, _, t, us, round, -, hw, hr, h⟩ := Fueled.rounds_eq_none h
  obtain ⟨round', hr', hround⟩ := round_of_some hR hr
  rcases Fueled.bind_eq_none.1 h with h | ⟨c, vs, hc, hnext⟩
  · exact (hround a).mark_of_idle h
  · rintro hnil
    have hlt := (hp t round' hr' a).length_of_ok ((hround a).agree hc)
    have hle := (rounds_reach hR hnext).length_le
    rw [(List.append_eq_nil_iff.1 hnil).1, List.nil_append] at hlt
    omega

theorem rounds_mark {x : α × List Token} (h : Fueled.rounds round? bound a (w ++ s.old) = none)
    (hx : Parser.repeating round?' a (w ++ s.old) = .ok x) : EndsAs True (Parser.repeating round?' a (w ++ s.new)) (.ok x) := by
  induction bound generalizing a w with
  | nil => cases h
  | cons b bound ih =>
    obtain ⟨t, us, us', hold, hnew⟩ := s.exists_cons (rounds_idle hp hR h)
    obtain ⟨_, _, t', _, round, hb, hw, hr, h⟩ := Fueled.rounds_eq_none h
    obtain ⟨rfl, rfl⟩ := List.cons.inj hb
    obtain ⟨rfl, rfl⟩ := List.cons.inj (hold.symm.trans hw)
    obtain ⟨round', hr', hround⟩ := round_of_some hR hr
    rw [hold, repeating_of_some hp hr', ← hold] at hx
    rw [hnew, repeating_of_some hp hr', ← hnew]
    obtain ⟨c, vs, hc, hx⟩ := bind_eq_ok.1 hx
    rcases Fueled.bind_eq_none.1 h with h | ⟨c', vs', hc', h⟩
    · -- The call is made in this round.
      exact ((hround a).mark h hc).bind_ok (by rw [hx]; rfl)
    · have hsame := ((hround a).agree hc').symm.trans hc
      cases hsame
      obtain ⟨w₁, w₂, rfl, rfl⟩ := exists_split_of_suffix ((hround a).steady.takes.suffix_of_ok hc) (rounds_reach hR h)
      have hnext := s.ok_before (hround a).steady hc (rounds_idle hp hR h)
      exact EndsAs.bind_ok (by rw [hnext]; rfl) (ih h hx)

theorem repeating (hl : Steady (Parser.repeating round?' a)) :
    Follows s now (Fueled.repeating round? a) (Parser.repeating round?' a) where
  steady := hl
  agree := rounds_agree hR
  reach := rounds_reach hR
  idle _ h := rounds_idle (w := []) hp hR h
  mark := rounds_mark hp hR

end

/-! ## Lists -/

section
variable (ht : p.Takes 1 0) (hl : Local p)
include ht hl

theorem many (test : Token → Bool) (hf : Follows s false f p) : Follows s now (Fueled.many test f) (Parser.many test p) := by
  have hp := progressive_many ht test
  refine .bind (.repeating hp (fun t => ?_) (local_repeating hp (fun t round hr items => ?_) []).steady) fun _ => .pure _
  · split
    · exact .some fun _ => hf.map
    · exact .none
  · simp only [Option.ite_none_right_eq_some, Option.some.injEq] at hr
    obtain ⟨-, rfl⟩ := hr
    exact hl.map

theorem separated (hf : Follows s now f p) : Follows s now (Fueled.separated f) (Parser.separated p) := by
  have hnext : Parser.Takes 1 0 (Parser.next >>= fun _ => p) := (takes_next.bind fun _ => ht).of_le (by omega) (Nat.le_refl 0)
  exact .bind hf fun _ => .bind (.many hnext (local_next.bind fun _ => hl) _ (.next fun _ => hf.atOnce)) fun _ => .pure _

theorem parenthesized (hf : Follows s true f p) : Follows s now (Fueled.parenthesized f) (Parser.parenthesized p) :=
  .satisfy _ _ fun _ => .checkAtOnce (.next fun _ => .pure _)
    (.bind (.separated ht hl hf) fun _ => .satisfy _ _ fun _ => .pure _)
    fun _ => ⟨false, fun _ ht => ht.isSymbol_eq_false (by decide)⟩

end

end Follows

end MiniLua
