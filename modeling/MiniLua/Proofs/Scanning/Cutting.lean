import MiniLua.Proofs.Scanning.Joining
/-!
# Sources cut behind a token

The tokens of a row up to one of them are those of its pieces up to one, and the others are those of the
pieces behind (`exists_cut`). Each part of a row is a row by itself, since the end of a text goes on with nothing, so
both parts of a source that is cut there are read as they were in the whole (`tokenize_cut`).
-/

namespace MiniLua

open Lexeme Text Piece

variable {file source : String} {offset k : Nat} {ts xs ys : List Token} {t : Token} {ps : List Piece}

/-- Where the last of the first `k` tokens ends, and the start of the source for none of them. -/
def endOfFirst (ts : List Token) (k : Nat) : Nat :=
  match (ts.take k).getLast? with
  | some t => t.span.finish.offset.toNat
  | none => 0

theorem endOfFirst_succ (h : k < ts.length) : endOfFirst ts (k + 1) = ts[k].span.finish.offset.toNat := by
  rw [endOfFirst, List.take_succ_eq_append_getElem h, List.getLast?_concat]

/-! ## Rows -/

/-- At a token a row has a piece, with the pieces of the tokens before it in front and of those after it behind. -/
theorem Piece.exists_cut (h : tokens file offset ps = xs ++ t :: ys) :
    ∃ pre p post, ps = pre ++ p :: post ∧ tokens file offset pre = xs ∧
      p.token? file (offset + width (text pre)) = some t ∧
      tokens file (offset + width (text pre) + width p.written) post = ys := by
  induction ps generalizing offset xs with
  | nil => simp [tokens] at h
  | cons p ps ih =>
    rw [tokens] at h
    cases hp : p.token? file offset with
    | none =>
      obtain ⟨pre, q, post, rfl, hpre, hq, hpost⟩ := ih (by simpa [hp] using h)
      refine ⟨p :: pre, q, post, rfl, by simpa [tokens, hp] using hpre, ?_, ?_⟩
      · rwa [text_cons, width_append, ← Nat.add_assoc]
      · rwa [text_cons, width_append, ← Nat.add_assoc]
    | some u =>
      rw [hp] at h
      cases xs with
      | nil =>
        obtain ⟨rfl, rfl⟩ := List.cons.inj h
        exact ⟨[], p, ps, rfl, rfl, hp, rfl⟩
      | cons x xs =>
        obtain ⟨rfl, hmore⟩ := List.cons.inj h
        obtain ⟨pre, q, post, rfl, hpre, hq, hpost⟩ := ih hmore
        refine ⟨p :: pre, q, post, rfl, by simp [tokens, hp, hpre], ?_, ?_⟩
        · rwa [text_cons, width_append, ← Nat.add_assoc]
        · rwa [text_cons, width_append, ← Nat.add_assoc]

/-! ## Sources -/

/-- A source that is cut behind one of its tokens. -/
theorem tokenize_cut_token (hsize : source.utf8ByteSize < UInt32.size) (h : tokenize source file = .ok (xs ++ t :: ys)) :
    ∃ a b us, source = a ++ b ∧ a.utf8ByteSize = t.span.finish.offset.toNat ∧
      tokenize a file = .ok (xs ++ [t]) ∧ tokenize b file = .ok us ∧ ys = us.map (·.shift a.utf8ByteSize) := by
  obtain ⟨ps, hps, hrow, htokens⟩ := tokenize_eq_ok.1 h
  obtain ⟨pre, p, post, rfl, hpre, hp, hpost⟩ := exists_cut htokens
  rw [Nat.zero_add] at hp hpost
  have hsplit : text (pre ++ [p]) ++ text post = source.toList := by
    rw [← hps, ← text_append, List.append_assoc]
    rfl
  have hwidth : width (text (pre ++ [p])) + width (text post) = source.utf8ByteSize := by
    rw [← width_append, hsplit, width_toList]
  have hcut : width (text (pre ++ [p])) = width (text pre) + width p.written := by simp
  -- The two parts of the row, each at the end of its text.
  obtain ⟨hfront, hback⟩ : InRow (pre ++ [p]) (text post) ∧ InRow post [] := by
    have hparts : InRow (pre ++ [p] ++ post) [] := by simpa using hrow
    simpa using inRow_append.1 hparts
  obtain ⟨tok, -, rfl⟩ := Option.map_eq_some_iff.1 hp
  refine ⟨.ofList (text (pre ++ [p])), .ofList (text post), tokens file 0 post, ?_, ?_, ?_, ?_, ?_⟩
  · rw [← String.ofList_append, hsplit, String.ofList_toList]
  · rw [width_ofList, hcut]
    exact (Position.toNat_offset (by omega)).symm
  · rw [tokenize, String.toList_ofList, scan_text hfront.nil, tokens_append, hpre]
    simp [tokens, hp]
  · rw [tokenize, String.toList_ofList, scan_text hback]
  · rw [← hpost, ← hcut, width_ofList, ← tokens_add, Nat.zero_add]

/-- Where one of the tokens of a source ends, or at its start, the source can be cut in two: the first part has the tokens up to there,
and the second part those behind, with every offset less by the length of the first. -/
theorem tokenize_cut {source file : String} {ts : List Token} {k : Nat} (hsize : source.utf8ByteSize < UInt32.size)
    (h : tokenize source file = .ok ts) (hk : k ≤ ts.length) :
    ∃ a b us, source = a ++ b ∧ a.utf8ByteSize = endOfFirst ts k ∧
      tokenize a file = .ok (ts.take k) ∧ tokenize b file = .ok us ∧ ts.drop k = us.map (·.shift a.utf8ByteSize) ∧
      ∀ u ∈ us, (u.shift a.utf8ByteSize).span.start.offset.toNat = u.span.start.offset.toNat + a.utf8ByteSize ∧
        (u.shift a.utf8ByteSize).span.finish.offset.toNat = u.span.finish.offset.toNat + a.utf8ByteSize := by
  have main : ∃ a b us, source = a ++ b ∧ a.utf8ByteSize = endOfFirst ts k ∧ tokenize a file = .ok (ts.take k) ∧
      tokenize b file = .ok us ∧ ts.drop k = us.map (·.shift a.utf8ByteSize) := by
    cases k with
    | zero =>
      have hshift : ∀ t : Token, t.shift 0 = t := fun t => by simp [Token.shift, Span.shift, Position.shift]
      exact ⟨"", source, ts, by simp, rfl, scan_nil file 0 [], h, by simp [hshift]⟩
    | succ k =>
      have hsplit : ts = ts.take k ++ ts[k] :: ts.drop (k + 1) := by simp
      rw [hsplit] at h
      obtain ⟨a, b, us, hsource, ha, hfront, hback, hus⟩ := tokenize_cut_token hsize h
      exact ⟨a, b, us, hsource, ha.trans (endOfFirst_succ hk).symm, by rw [hfront, List.take_append_getElem], hback, hus⟩
  obtain ⟨a, b, us, hsource, ha, hfront, hback, hus⟩ := main
  refine ⟨a, b, us, hsource, ha, hfront, hback, hus, fun u hu => ?_⟩
  rw [hsource, String.utf8ByteSize_append] at hsize
  obtain ⟨hstart, hfinish⟩ := tokenize_finish_le (by omega) hback hu
  exact ⟨Position.toNat_shift (by omega), Position.toNat_shift (by omega)⟩

/-- Three dots are cut behind the first two of them. -/
theorem tokenize_cut_dots :
    ∃ a b us, "..." = a ++ b ∧ a.utf8ByteSize = 2 ∧ tokenize a "f" = .ok [⟨.operator, "..", .ofNat "f" 0 2⟩] ∧
      tokenize b "f" = .ok us ∧ [⟨.symbol, ".", .ofNat "f" 2 1⟩] = us.map (·.shift a.utf8ByteSize) ∧
      ∀ u ∈ us, (u.shift a.utf8ByteSize).span.start.offset.toNat = u.span.start.offset.toNat + a.utf8ByteSize ∧
        (u.shift a.utf8ByteSize).span.finish.offset.toNat = u.span.finish.offset.toNat + a.utf8ByteSize := by
  have h : tokenize "..." "f" = .ok [⟨.operator, "..", .ofNat "f" 0 2⟩, ⟨.symbol, ".", .ofNat "f" 2 1⟩] := by
    have hpair : first '.' ['.', '.'] = .ok ⟨['.', '.'], ['.'], some (.operator, "..")⟩ := rfl
    have hdot : first '.' [] = .ok ⟨['.'], [], some (.symbol, ".")⟩ := rfl
    refine (scan_of_ok hpair).trans ?_
    refine (scan_of_ok hdot).trans ?_
    exact scan_nil _ _ _
  exact tokenize_cut (k := 1) (by decide) h (by decide)

end MiniLua
