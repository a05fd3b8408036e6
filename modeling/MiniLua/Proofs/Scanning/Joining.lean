import MiniLua.Proofs.Scanning.Faults
import MiniLua.Proofs.Scanning.Layout
/-!
# Sources put together

The loop of `scan` looks at the text in front of it and at nothing else, so further on it finds the same
tokens or the same error further on (`scan_add`). A source that is read to its end has a row of pieces; when
it stands before a line break no piece of it goes on, the line break is a piece by itself, and the text
behind is read as if it stood alone (`tokenize_join`).
-/

namespace MiniLua

open Lexeme Text Piece

variable {file a b : String} {xs : List Token} {rest : List Char} {ps : List Piece}

/-! ## Further on -/

/-- The error `n` bytes further on. -/
def LexError.shift (e : LexError) (n : Nat) : LexError :=
  { e with position := e.position.shift n }

/-- What is read of a text that stands `n` bytes further on, behind these tokens. -/
def behind (found : List Token) (n : Nat) : Except LexError (List Token) → Except LexError (List Token)
  | .ok ts => .ok (found ++ ts.map (·.shift n))
  | .error e => .error (e.shift n)

/-- An offset moves by just that many bytes, if it still fits. -/
theorem Position.toNat_shift {p : Position} {n : Nat} (h : p.offset.toNat + n < UInt32.size) :
    (p.shift n).offset.toNat = p.offset.toNat + n := by
  rw [shift, UInt32.toNat_add, UInt32.toNat_ofNat', Nat.add_mod_mod, Nat.mod_eq_of_lt h]

/-- What is read of a text has to do neither with where it stands nor with what was found before. -/
theorem scan_add (file : String) (offset n : Nat) (found : List Token) (s : List Char) :
    scan file (offset + n) found s = behind found.reverse n (scan file offset [] s) := by
  obtain ⟨front, rest, hreach, hlast⟩ := (Reaches.start (s := s)).exists_last
  obtain ⟨ps, rfl, hrow⟩ := hreach.exists_row
  rw [← hreach.append, scan_row hrow, scan_row hrow]
  rcases hlast with rfl | ⟨c, r, ⟨cause, m⟩, rfl, he⟩
  · simp [behind, tokens_add]
  · simp only [scan_of_error he, behind, LexError.shift, ← Position.ofNat_add]
    congr 3
    omega

/-! ## Rows in front of a text -/

/-- A text with a row in front of it is read as the tokens of the row, then as if it stood alone. -/
theorem scan_row_append (h : InRow ps rest) (file : String) :
    scan file 0 [] (text ps ++ rest) = behind (tokens file 0 ps) (width (text ps)) (scan file 0 [] rest) := by
  rw [scan_row h, scan_add, List.append_nil, List.reverse_reverse]

/-- A blank is a piece by itself, whatever is behind it. -/
theorem Piece.stands_blank {c : Char} (hc : isBlank c) (rest : List Char) : Stands ⟨[c], none⟩ rest where
  spelled := .blanks (List.cons_ne_nil c []) (by simpa using hc)
  ends := by
    rintro d - ⟨body, hbody, -⟩
    cases hbody

/-- A row that ends its text stands before a line break as well. -/
theorem Piece.InRow.line_break (h : InRow ps []) (rest : List Char) : InRow ps ('\n' :: rest) := by
  refine h.swap fun p _ d hd hgo => ?_
  obtain rfl : '\n' = d := Option.some.inj hd
  rw [goesOn_blank (by decide) hgo] at hgo
  obtain ⟨body, -, -, hne⟩ := hgo
  exact hne rfl

/-! ## Sources -/

/-- Behind a source that has tokens and a line break a text is read as if it stood alone. -/
theorem tokenize_line_break (h : tokenize a file = .ok xs) (b : String) :
    tokenize (a ++ "\n" ++ b) file = behind xs (a.utf8ByteSize + 1) (tokenize b file) := by
  obtain ⟨ps, hps, hrow, rfl⟩ := tokenize_eq_ok.1 h
  have hrow' : InRow (ps ++ [⟨['\n'], none⟩]) b.toList :=
    inRow_append.2 ⟨hrow.line_break _, stands_blank (by decide) _, trivial⟩
  have hscan := scan_row_append hrow' file
  have hbreak : width ['\n'] = 1 := rfl
  simpa [tokenize, tokens_append, tokens, Piece.token?, hps, width_toList, hbreak] using hscan

/-- The tokens of a source do not lie behind its end. -/
theorem tokenize_finish_le (hsize : a.utf8ByteSize < UInt32.size) (h : tokenize a file = .ok xs) {t : Token} (ht : t ∈ xs) :
    t.span.start.offset.toNat ≤ a.utf8ByteSize ∧ t.span.finish.offset.toNat ≤ a.utf8ByteSize := by
  obtain ⟨ps, hps, hrow, rfl⟩ := tokenize_eq_ok.1 h
  have hwidth : width (text ps) = a.utf8ByteSize := by rw [hps, width_toList]
  obtain ⟨-, hspan, hfinish⟩ := span_of_mem_tokens hrow (by omega) ht
  rw [UInt32.lt_iff_toNat_lt] at hspan
  omega

/-- The error of a source does not lie behind its end. -/
theorem tokenize_error_le (hsize : a.utf8ByteSize < UInt32.size) {e : LexError} (h : tokenize a file = .error e) :
    e.position.offset.toNat ≤ a.utf8ByteSize := by
  obtain ⟨front, c, rest, cause, n, hreach, he, rfl⟩ := tokenize_eq_error.1 h
  have hwidth : width front + width (c :: rest) = a.utf8ByteSize := by
    rw [← width_append, hreach.append, width_toList]
  have hle := (first_eq_error_iff.1 he).le_width
  rw [Position.toNat_offset (by omega)]
  omega

/-- Sources compose at a line break. When the first one has tokens, the two together have those and then
the tokens of the second one, every offset of which is more by the length of what is in front; or they have
the error of the second one, that much further on. -/
theorem tokenize_join (h : tokenize a file = .ok xs) (hsize : a.utf8ByteSize + 1 + b.utf8ByteSize < UInt32.size) :
    (∀ ys, tokenize b file = .ok ys →
      tokenize (a ++ "\n" ++ b) file = .ok (xs ++ ys.map (·.shift (a.utf8ByteSize + 1))) ∧
      ∀ y ∈ ys, (y.shift (a.utf8ByteSize + 1)).span.start.offset.toNat = y.span.start.offset.toNat + (a.utf8ByteSize + 1) ∧
        (y.shift (a.utf8ByteSize + 1)).span.finish.offset.toNat = y.span.finish.offset.toNat + (a.utf8ByteSize + 1)) ∧
    ∀ e, tokenize b file = .error e →
      tokenize (a ++ "\n" ++ b) file = .error (e.shift (a.utf8ByteSize + 1)) ∧
      (e.shift (a.utf8ByteSize + 1)).position.offset.toNat = e.position.offset.toNat + (a.utf8ByteSize + 1) := by
  have hsize' : b.utf8ByteSize < UInt32.size := by omega
  have hjoin := tokenize_line_break h b
  constructor
  · intro ys hys
    refine ⟨by rw [hjoin, hys, behind], fun y hy => ?_⟩
    obtain ⟨hstart, hfinish⟩ := tokenize_finish_le hsize' hys hy
    exact ⟨Position.toNat_shift (by omega), Position.toNat_shift (by omega)⟩
  · intro e he
    have hle := tokenize_error_le hsize' he
    exact ⟨by rw [hjoin, he, behind], Position.toNat_shift (by omega)⟩

/-- A comment that the line break ends, and a text that is never closed behind it. -/
theorem tokenize_join_comment :
    tokenize ("x--y" ++ "\n" ++ "\"") "f" = .error ⟨.unterminatedString, .ofNat "f" 5⟩ := by
  have hx : first 'x' ['-', '-', 'y'] = .ok (word 'x' ['-', '-', 'y']) := rfl
  have hcomment : first '-' ['-', 'y'] = .ok (lineComment ['y']) := rfl
  have hquote : first '"' [] = .error (.unterminatedString, 0) := rfl
  have ha : tokenize "x--y" "f" = .ok [⟨.identifier, "x", .ofNat "f" 0 1⟩] := by
    refine (scan_of_ok hx).trans ?_
    refine (scan_of_ok hcomment).trans ?_
    exact scan_nil _ _ _
  have hb : tokenize "\"" "f" = .error ⟨.unterminatedString, .ofNat "f" 0⟩ := scan_of_error hquote
  exact ((tokenize_join ha (by decide)).2 _ hb).1

end MiniLua
