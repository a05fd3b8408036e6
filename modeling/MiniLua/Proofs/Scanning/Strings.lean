import MiniLua.Proofs.Scanning.Joining
import MiniLua.Proofs.Scanning.Tiling
/-!
# Strings as they are written

The ways to write a value between quotes (`Encodes`) are what a scan decodes (`encodes_iff`), and
between brackets every value stands as it is that the closing ones do not cut short (`Closed`). Nothing
goes on with a string, so what is behind one is read as if it stood alone. A string token comes of no
other text (`tokenize_strings`).
-/

namespace MiniLua

open Lexeme Text Piece

/-! ## Ways to write a value -/

/-- The ways to write a value between quotes: a quote and a backslash stand behind a backslash, a line
break and a tab stand for themselves or are named by a letter behind one, and every other character
stands for itself. -/
inductive Encodes : List Char → List Char → Prop
  | nil : Encodes [] []
  | quote {value written : List Char} (h : Encodes value written) : Encodes ('"' :: value) ('\\' :: '"' :: written)
  | backslash {value written : List Char} (h : Encodes value written) : Encodes ('\\' :: value) ('\\' :: '\\' :: written)
  | lineBreak {value written : List Char} (h : Encodes value written) : Encodes ('\n' :: value) ('\\' :: 'n' :: written)
  | tab {value written : List Char} (h : Encodes value written) : Encodes ('\t' :: value) ('\\' :: 't' :: written)
  | raw {c : Char} {value written : List Char} (hquote : c ≠ '"') (hbackslash : c ≠ '\\') (h : Encodes value written) :
    Encodes (c :: value) (c :: written)

theorem Encodes.escape {c d : Char} {value written : List Char} (hd : unescape? d = some c) (h : Encodes value written) :
    Encodes (c :: value) ('\\' :: d :: written) := by
  unfold unescape? at hd
  split at hd
  · cases hd
    exact .lineBreak h
  · cases hd
    exact .tab h
  · cases hd
    exact .quote h
  · cases hd
    exact .backslash h
  · cases hd

/-- What is written for a value is what decodes to it. -/
theorem encodes_iff {value written : List Char} : Encodes value written ↔ Decodes written value := by
  constructor
  · intro h
    induction h with
    | nil => exact .nil
    | quote _ ih => exact .escape rfl ih
    | backslash _ ih => exact .escape rfl ih
    | lineBreak _ ih => exact .escape rfl ih
    | tab _ ih => exact .escape rfl ih
    | raw hquote hbackslash _ ih => exact .plain hquote hbackslash ih
  · intro h
    induction h with
    | nil => exact .nil
    | plain hquote hbackslash _ ih => exact .raw hquote hbackslash ih
    | escape hd _ ih => exact ih.escape hd

/-- A string stands between quotes or between brackets. -/
theorem Lexeme.Spells.string_cases {kind : Token.Kind} {w value : List Char} (h : Spells kind w value) (hk : kind = .string) :
    (∃ written, w = '"' :: (written ++ ['"']) ∧ Encodes value written) ∨
      (w = '[' :: '[' :: (value ++ [']', ']']) ∧ Closed value) := by
  cases h with
  | reserved h =>
    -- No word is reserved as a string.
    subst hk
    unfold Token.Kind.reserved? at h
    split at h
    · cases h
    split at h
    · cases h
    split at h <;> cases h
  | @quoted written _ h => exact .inl ⟨written, rfl, encodes_iff.2 h⟩
  | bracketed h => exact .inr ⟨rfl, h⟩
  | _ => cases hk

/-! ## A token in front of a text -/

/-- A text with a token of `n` bytes in front of it is read as the token and then as it is read alone,
with every offset more by `n`. -/
def ReadsBehind (t : Token) (n : Nat) (whole alone : Except LexError (List Token)) : Prop :=
  match alone with
  | .ok us => whole = .ok (t :: us.map (·.shift n)) ∧
    ∀ u ∈ us, (u.shift n).span.start.offset.toNat = u.span.start.offset.toNat + n ∧
      (u.shift n).span.finish.offset.toNat = u.span.finish.offset.toNat + n
  | .error e => whole = .error (e.shift n) ∧ (e.shift n).position.offset.toNat = e.position.offset.toNat + n

/-- What spells a token is read as it in front of any text that does not go on with it. -/
theorem tokenize_spells {kind : Token.Kind} {w rest : String} {value : String} (h : Spells kind w.toList value.toList)
    (hend : ∀ d, rest.toList.head? = some d → ¬ GoesOn (some kind) w.toList d) (file : String)
    (hsize : (w ++ rest).utf8ByteSize < UInt32.size) :
    ReadsBehind ⟨kind, value, .ofNat file 0 w.utf8ByteSize⟩ w.utf8ByteSize (tokenize (w ++ rest) file) (tokenize rest file) := by
  have hrow : InRow [⟨w.toList, some (kind, value)⟩] rest.toList := ⟨⟨h, hend⟩, trivial⟩
  have hscan := scan_row_append hrow file
  have hwhole : tokenize (w ++ rest) file =
      behind [⟨kind, value, .ofNat file 0 w.utf8ByteSize⟩] w.utf8ByteSize (tokenize rest file) := by
    simpa [tokenize, tokens, Piece.token?, width_toList] using hscan
  rw [String.utf8ByteSize_append] at hsize
  rw [hwhole]
  cases hrest : tokenize rest file with
  | ok us =>
    refine ⟨rfl, fun u hu => ?_⟩
    obtain ⟨hstart, hfinish⟩ := tokenize_finish_le (by omega) hrest hu
    exact ⟨Position.toNat_shift (by omega), Position.toNat_shift (by omega)⟩
  | error e =>
    have hle := tokenize_error_le (by omega) hrest
    exact ⟨rfl, Position.toNat_shift (by omega)⟩

/-- A string token of a source has the span of a text that spells it. -/
theorem exists_string_lexeme {source file : String} {ts : List Token} {t : Token} (hsize : source.utf8ByteSize < UInt32.size)
    (h : tokenize source file = .ok ts) (ht : t ∈ ts) (hk : t.kind = .string) :
    ∃ w, t.span.Holds source w ∧ Spells .string w t.value.toList := by
  obtain ⟨a, w, b, hsplit, hspells, hspan⟩ := exists_lexeme h ht
  rw [hk] at hspells
  exact ⟨w, by rw [hspan]; exact Span.holds_ofNat hsplit hspells.ne_nil hsize, hspells⟩

/-! ## String literals -/

/-- A value that is written between quotes, or stands between brackets that do not cut it short, is
read as the string token of that value and of just these bytes, and the text behind as if it stood alone.
The other way round every string token is written so. -/
theorem tokenize_strings (file : String) :
    (∀ value written rest : String, Encodes value.toList written.toList →
      ("\"" ++ written ++ "\"" ++ rest).utf8ByteSize < UInt32.size →
      ReadsBehind ⟨.string, value, .ofNat file 0 ("\"" ++ written ++ "\"").utf8ByteSize⟩ ("\"" ++ written ++ "\"").utf8ByteSize
        (tokenize ("\"" ++ written ++ "\"" ++ rest) file) (tokenize rest file)) ∧
    (∀ value rest : String, ¬ [']', ']'] <:+: value.toList ++ [']'] →
      ("[[" ++ value ++ "]]" ++ rest).utf8ByteSize < UInt32.size →
      ReadsBehind ⟨.string, value, .ofNat file 0 ("[[" ++ value ++ "]]").utf8ByteSize⟩ ("[[" ++ value ++ "]]").utf8ByteSize
        (tokenize ("[[" ++ value ++ "]]" ++ rest) file) (tokenize rest file)) ∧
    ∀ (source : String) (ts : List Token), source.utf8ByteSize < UInt32.size → tokenize source file = .ok ts →
      ∀ t ∈ ts, t.kind = .string → ∃ lexeme : String, t.span.Holds source lexeme.toList ∧
        ((∃ written : String, lexeme = "\"" ++ written ++ "\"" ∧ Encodes t.value.toList written.toList) ∨
          (lexeme = "[[" ++ t.value ++ "]]" ∧ ¬ [']', ']'] <:+: t.value.toList ++ [']'])) := by
  refine ⟨fun value written rest h hsize => ?_, fun value rest h hsize => ?_, fun source ts hsize h t ht hk => ?_⟩
  · refine tokenize_spells ?_ (fun _ _ => id) file hsize
    simpa using Spells.quoted (encodes_iff.1 h)
  · refine tokenize_spells ?_ (fun _ _ => id) file hsize
    simpa using Spells.bracketed h
  · obtain ⟨w, hspan, hspells⟩ := exists_string_lexeme hsize h ht hk
    refine ⟨.ofList w, by rwa [String.toList_ofList], ?_⟩
    rcases hspells.string_cases rfl with ⟨written, rfl, hwritten⟩ | ⟨rfl, hclosed⟩
    · exact .inl ⟨.ofList written, String.toList_inj.1 (by simp), by rwa [String.toList_ofList]⟩
    · exact .inr ⟨String.toList_inj.1 (by simp), hclosed⟩

/-- A backslash and a quote, and behind them a quote that is never closed. -/
theorem tokenize_strings_backslash :
    tokenize ("\"" ++ "\\\\\\\"" ++ "\"" ++ "\"") "f" = .error ⟨.unterminatedString, .ofNat "f" 6⟩ := by
  have hquote : first '"' [] = .error (.unterminatedString, 0) := rfl
  have hrest : tokenize "\"" "f" = .error ⟨.unterminatedString, .ofNat "f" 0⟩ := scan_of_error hquote
  have h := (tokenize_strings "f").1 "\\\"" "\\\\\\\"" "\"" (.backslash (.quote .nil)) (by decide)
  rw [hrest] at h
  exact h.1

end MiniLua
