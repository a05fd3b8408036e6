import MiniLua.Proofs.Errors.Earliest
import MiniLua.Proofs.Reading.Blind
/-!
# What an error says

Index, place, context and cause of an error all tell of one token, the one at which parsing stopped, or
of the end of the input, and if the cause is that something else was expected the token is not what was
expected (`parse_error_describes`). Nothing but the place depends on spans (`parse_alike`).
-/

namespace MiniLua

open MiniLua.Parser

variable {ts us w rest : List Token} {file : String} {limit : Nat}

/-! ## The words for what was wanted -/

theorem Token.Kind.text_injective {k k' : Kind} (h : k.text = k'.text) : k = k' := by
  cases k <;> cases k' <;> first | rfl | exact absurd h (by decide)

namespace Expectation

/-- The kind of token that was wanted, if it was one only. -/
def kind? : Expectation → Option Token.Kind
  | kind k | exact k _ => some k
  | _ => none

/-- What was wanted shows in the first word of the text for it. -/
def firstWord (wanted : Expectation) : List Char := wanted.text.toList.takeWhile (· ≠ ' ')

theorem firstWord_of_kind {k : Token.Kind} {wanted : Expectation} (h : wanted.kind? = some k) :
    wanted.firstWord = k.text.toList := by
  have hword : ∀ k : Token.Kind, ∀ c ∈ k.text.toList, decide (c ≠ ' ') = true := by
    intro k
    apply List.all_eq_true.1
    cases k <;> decide
  cases wanted with
  | kind k' =>
    cases h
    have hself : (k.text.toList ++ []).takeWhile (· ≠ ' ') = k.text.toList ++ [] := List.takeWhile_append_of_pos (hword k)
    rwa [List.append_nil] at hself
  | exact k' text =>
    cases h
    have htext : (Expectation.exact k text).text.toList = k.text.toList ++ (' ' :: '\'' :: (text.toList ++ ['\''])) := by
      simp [Expectation.text]
    rw [firstWord, htext, List.takeWhile_append_of_pos (hword k)]
    simp
  | _ => cases h

theorem firstWord_ne_of_no_kind {wanted : Expectation} (h : wanted.kind? = none) (k : Token.Kind) :
    wanted.firstWord ≠ k.text.toList := by
  cases wanted with
  | kind | exact => cases h
  | _ => cases k <;> decide

/-- No two of them are called the same. -/
theorem text_injective {wanted wanted' : Expectation} (h : wanted.text = wanted'.text) : wanted = wanted' := by
  have hfirst : wanted.firstWord = wanted'.firstWord := by rw [firstWord, firstWord, h]
  have hkind : wanted.kind? = wanted'.kind? := by
    cases hk : wanted.kind? with
    | none =>
      cases hk' : wanted'.kind? with
      | none => rfl
      | some k => exact absurd (hfirst.trans (firstWord_of_kind hk')) (firstWord_ne_of_no_kind hk k)
    | some k =>
      cases hk' : wanted'.kind? with
      | none => exact absurd (hfirst.symm.trans (firstWord_of_kind hk)) (firstWord_ne_of_no_kind hk' k)
      | some k' =>
        have := (firstWord_of_kind hk).symm.trans (hfirst.trans (firstWord_of_kind hk'))
        rw [Token.Kind.text_injective (String.toList_inj.1 this)]
  cases wanted with
  | kind | exact =>
    cases wanted' with
    | kind | exact =>
      cases hkind
      simp_all [Expectation.text, String.ext_iff]
    | _ => cases hkind
  | _ =>
    cases wanted' with
    | kind | exact => cases hkind
    | _ => first | rfl | exact absurd h (by decide)

end Expectation

/-! ## Context -/

/-- The texts around an index, no more than three in front of it and three behind, with an arrow in
front of the text at the index. Past all texts the arrow is in front of `<end>`. -/
def wordsAround (texts : List String) (i : Nat) : List String :=
  texts.extract (i - 3) i ++ "=>" :: (if i < texts.length then texts.extract i (i + 4) else ["<end>"])

theorem contextAt_eq (ts : List Token) (i : Nat) : ParseError.contextAt ts i =
    String.ofList (Text.trimEnd (" ".intercalate (wordsAround (ts.map Token.value) i)).toList) := by
  have hbefore : ((ts.take i).drop (i - ParseError.contextRadius)).map Token.value = (ts.map Token.value).extract (i - 3) i := by
    rw [List.extract_eq_take_drop, List.drop_take, ← List.map_drop, ← List.map_take, ParseError.contextRadius]
  unfold ParseError.contextAt wordsAround
  simp only [hbefore]
  cases hdrop : ts.drop i with
  | nil =>
    have hi : ¬ i < (ts.map Token.value).length := by
      simpa using List.drop_eq_nil_iff.1 hdrop
    rw [if_neg hi]
  | cons t rest =>
    have hi : i < (ts.map Token.value).length := by
      rw [List.length_map]
      exact Nat.lt_of_not_le fun hle => by simp [List.drop_eq_nil_iff.2 hle] at hdrop
    have hafter : (ts.map Token.value).extract i (i + 4) = t.value :: (rest.take 3).map Token.value := by
      rw [List.extract_eq_take_drop, ← List.map_drop, hdrop, Nat.add_sub_cancel_left]
      simp
    rw [if_pos hi, hafter]
    rfl

/-! ## Spans -/

/-- Two readings are the same but for where an error is placed. -/
def SameReading : Except ParseError (List Stmt) → Except ParseError (List Stmt) → Prop
  | .ok stmts, .ok stmts' => stmts' = stmts
  | .error e, .error e' => e'.cause = e.cause ∧ e'.index = e.index ∧ e'.context = e.context
  | _, _ => False

theorem Alike.map_value (h : Alike ts us) : us.map Token.value = ts.map Token.value := by
  have hmap : ∀ ts : List Token, ts.map Token.value = (ts.map Token.word).map Prod.snd := fun ts => by simp [Token.word]
  rw [hmap, hmap, h]

theorem Alike.contextAt (h : Alike ts us) (i : Nat) : ParseError.contextAt us i = ParseError.contextAt ts i := by
  rw [contextAt_eq, contextAt_eq, h.map_value]

theorem Fault.cause_alike (h : Alike ts us) (limit : Nat) (f : Fault) : f.cause limit us = f.cause limit ts := by
  cases ts with
  | nil => rw [h.eq_nil]
  | cons t ts =>
    obtain ⟨u, us, rfl, hu, -⟩ := h.exists_cons
    have htext : u.text = t.text := Spanless.eq (fun _ _ _ _ => rfl) hu
    cases f <;> simp only [Fault.cause, htext]

theorem Alike.sameReading (h : Alike ts us) (limit : Nat) (file file' : String) :
    SameReading (parseWithin limit ts file) (parseWithin limit us file') := by
  have hends := blind_program (Inner.ofLevels_blind limit) ts us h trivial
  unfold parseWithin
  cases hr : program (.ofLevels limit) ts <;> cases hr' : program (.ofLevels limit) us <;> rw [hr, hr'] at hends
  · obtain ⟨hfault, hrest, -⟩ := hends
    simp only [SameReading, Failure.error, ParseError.atIndex, hfault, Fault.cause_alike hrest, h.length, hrest.length,
      h.contextAt, and_self]
  · exact hends
  · exact hends
  · exact hends.1

/-! ## Errors -/

/-- What an error says of a sequence of tokens is all about the token at its index, or about the end of
the sequence. -/
structure ParseError.Describes (ts : List Token) (e : ParseError) : Prop where
  index_le : e.index ≤ ts.length
  position_token : ∀ t, ts[e.index]? = some t → e.position = t.span.start
  position_end : e.index = ts.length → ∃ t, ts.getLast? = some t ∧ e.position = t.span.finish
  context : ∃ blanks, (" ".intercalate (wordsAround (ts.map Token.value) e.index)).toList = e.context.toList ++ blanks ∧
    (∀ c ∈ blanks, Text.isBlank c) ∧ ∀ c, e.context.toList.getLast? = some c → Text.isBlank c = false
  unexpected : ∀ found, e.cause = .unexpectedToken found →
    ∃ t, ts[e.index]? = some t ∧ found = t.kind.text ++ " " ++ t.value
  expected : ∀ expected found, e.cause = .expectedToken expected found →
    ∃ t, ts[e.index]? = some t ∧ found = t.kind.text ++ " " ++ t.value ∧
      ∃ wanted : Expectation, wanted.text = expected ∧ (∀ other : Expectation, other.text = expected → other = wanted) ∧
        wanted.Unmet t

theorem contextAt_spec (ts : List Token) (i : Nat) :
    ∃ blanks, (" ".intercalate (wordsAround (ts.map Token.value) i)).toList = (ParseError.contextAt ts i).toList ++ blanks ∧
      (∀ c ∈ blanks, Text.isBlank c) ∧
      ∀ c, (ParseError.contextAt ts i).toList.getLast? = some c → Text.isBlank c = false := by
  rw [contextAt_eq, String.toList_ofList]
  exact Text.trimEnd_spec _

/-- A failure that holds at an end of the tokens is described by its error. -/
theorem Failure.describes {f : Fault} {n : Nat} (hne : w ++ rest ≠ []) (hf : f.HoldsAt rest) (limit : Nat) (file : String) :
    (Failure.error limit (w ++ rest) file ⟨f, rest, n⟩).Describes (w ++ rest) where
  index_le := by
    rw [Failure.error_index, List.length_append]
    exact Nat.le_add_right ..
  position_token t ht := by
    rw [Failure.error_index] at ht
    simp only [Failure.error, ParseError.atIndex, ParseError.positionAt, List.length_append, Nat.add_sub_cancel, ht]
  position_end hi := by
    rw [Failure.error_index] at hi
    have hlast := List.getLast?_eq_some_getLast hne
    have hnone : (w ++ rest)[w.length]? = none := List.getElem?_eq_none (by omega)
    refine ⟨_, hlast, ?_⟩
    simp only [Failure.error, ParseError.atIndex, ParseError.positionAt, List.length_append, Nat.add_sub_cancel, hnone, hlast]
  context := contextAt_spec _ _
  unexpected found h := by
    rw [Failure.error_index]
    have hcause : f.cause limit rest = .unexpectedToken found := h
    obtain ⟨-, t, r, rfl⟩ := Fault.cause_names_token (.inl ⟨found, hcause⟩)
    refine ⟨t, by simp, ?_⟩
    cases f with
    | unexpected => exact (ParseError.Cause.unexpectedToken.inj hcause).symm
    | _ => cases hcause
  expected expected found h := by
    rw [Failure.error_index]
    have hcause : f.cause limit rest = .expectedToken expected found := h
    obtain ⟨-, t, r, rfl⟩ := Fault.cause_names_token (.inr ⟨expected, found, hcause⟩)
    cases f with
    | expected wanted =>
      obtain ⟨rfl, rfl⟩ := ParseError.Cause.expectedToken.inj hcause
      exact ⟨t, by simp, rfl, wanted, rfl, fun _ h => Expectation.text_injective h, hf⟩
    | _ => cases hcause

/-- Errors are placed by their index. -/
theorem parseWithin_error_position {e : ParseError} (h : parseWithin limit ts file = .error e) :
    e.position = ParseError.positionAt ts file e.index := by
  obtain ⟨failure, -, rfl⟩ := parseWithin_eq_error.1 h
  rfl

/-- A failed reading says of its tokens what is so. -/
theorem parseWithin_error_describes {e : ParseError} (h : parseWithin limit ts file = .error e) : e.Describes ts := by
  obtain ⟨⟨f, rest, n⟩, hp, rfl⟩ := parseWithin_eq_error.1 h
  have hf : f.HoldsAt rest := program_holdsAt hp
  have hne : ts ≠ [] := by
    rintro rfl
    cases hp
  obtain ⟨w, rfl⟩ := (takes_program (Inner.ofLevels_takes limit)).suffix_of_error hp
  exact Failure.describes hne hf limit file

/-- Index, place, context and cause of an error tell of one and the same token. -/
theorem parse_error_describes {ts : List Token} {file : String} {e : ParseError} (h : parse ts file = .error e) :
    e.Describes ts :=
  parseWithin_error_describes h

/-- Behind `for x` a parenthesis is not what was expected. -/
theorem parse_error_describes_for :
    ∃ e, parse [.plain .keyword "for", .plain .identifier "x", .plain .symbol ")"] "f" = .error e ∧ e.index = 2 ∧
      e.cause = .expectedToken "'=', ',' or 'in'" "SYMBOL )" ∧
      e.Describes [.plain .keyword "for", .plain .identifier "x", .plain .symbol ")"] := by
  have hp : program (.ofLevels maxNesting) [.plain .keyword "for", .plain .identifier "x", .plain .symbol ")"] =
      .error ⟨.expected .loopHeader, [.plain .symbol ")"], 0⟩ := rfl
  have h : parse [.plain .keyword "for", .plain .identifier "x", .plain .symbol ")"] "f" = _ :=
    parseWithin_eq_error.2 ⟨_, hp, rfl⟩
  exact ⟨_, h, rfl, rfl, parse_error_describes h⟩

/-- Over tokens that differ in their spans only, and under whatever name, the same program is read, or
the error differs in its place only. -/
theorem parse_alike {ts us : List Token} (h : Alike ts us) (file file' : String) :
    SameReading (parse ts file) (parse us file') :=
  h.sameReading maxNesting file file'

/-- Further on and under another name, `local x = f(1,)` has its error at another place, and without the comma it is
read as before. -/
theorem parse_alike_shift :
    let head : List Token := [.plain .keyword "local", .plain .identifier "x", .plain .operator "=", .plain .identifier "f",
      .plain .symbol "(", .plain .number "1"]
    let ts := head ++ [.plain .symbol ",", .plain .symbol ")"]
    let us := head ++ [.plain .symbol ")"]
    (Alike ts (ts.map (·.shift 5)) ∧ SameReading (parse ts "f") (parse (ts.map (·.shift 5)) "g") ∧
      (parse ts "f").isOk = false ∧ parse ts "f" ≠ parse (ts.map (·.shift 5)) "g") ∧
    Alike us (us.map (·.shift 5)) ∧ SameReading (parse us "f") (parse (us.map (·.shift 5)) "g") ∧ (parse us "f").isOk = true := by
  intro head ts us
  have hts : Alike ts (ts.map (·.shift 5)) := rfl
  have hus : Alike us (us.map (·.shift 5)) := rfl
  have hfails : ∃ e, parse ts "f" = .error e ∧ e.position = .ofNat defaultFile 0 := ⟨_, rfl, rfl⟩
  have hfails' : ∃ e, parse (ts.map (·.shift 5)) "g" = .error e ∧ e.position = .ofNat defaultFile 5 := ⟨_, rfl, rfl⟩
  refine ⟨⟨hts, parse_alike hts "f" "g", rfl, fun h => ?_⟩, hus, parse_alike hus "f" "g", rfl⟩
  obtain ⟨e, he, hplace⟩ := hfails
  obtain ⟨e', he', hplace'⟩ := hfails'
  rw [he, he', Except.error.injEq] at h
  rw [h, hplace'] at hplace
  exact absurd hplace (by decide)

end MiniLua
