import MiniLua.Scanner
import MiniLua.Proofs.Scanning.Spelling
/-!
# Tokens tile the source

A source that has tokens is their lexemes in order, with blanks and comments between them and
nothing else (`scan_tiled`). What a scan has found before a lexeme has no part in it, so the
tiles of a text are those of its first lexeme and of the rest: a token makes a tile of its
own, a blank or comment goes to the gap in front of the next tile.
-/

namespace MiniLua

open Lexeme Text

variable {file source : String} {offset : Nat} {s last piece : List Char} {tiles : List Tile} {tokens found : List Token}

/-! ## Spans of a source -/

/-- A span of a source and the text that stands there. The text is not empty. -/
structure Span.Holds (source : String) (span : Span) (text : List Char) : Prop where
  nonempty : span.start.offset < span.finish.offset
  within : span.finish.offset.toNat ≤ source.utf8ByteSize
  start_valid : (String.Pos.Raw.mk span.start.offset.toNat).IsValid source
  finish_valid : (String.Pos.Raw.mk span.finish.offset.toNat).IsValid source
  bytes : source.toByteArray.extract span.start.offset.toNat span.finish.offset.toNat = (String.ofList text).toByteArray

theorem isValid_width {a b : List Char} (h : source.toList = a ++ b) : (String.Pos.Raw.mk (width a)).IsValid source := by
  have hs : source = String.ofList a ++ String.ofList b := by
    rw [← String.ofList_append, ← h, String.ofList_toList]
  rw [hs, ← width_ofList]
  exact String.Pos.Raw.isValid_rawEndPos.append_right _

theorem extract_width {a l b : List Char} (h : source.toList = a ++ (l ++ b)) :
    source.toByteArray.extract (width a) (width a + width l) = (String.ofList l).toByteArray := by
  have hs : source = String.ofList a ++ (String.ofList l ++ String.ofList b) := by
    rw [← String.ofList_append, ← String.ofList_append, ← h, String.ofList_toList]
  have ha : width a = (String.ofList a).toByteArray.size := by rw [String.size_toByteArray, width_ofList]
  have hl : width l = (String.ofList l).toByteArray.size := by rw [String.size_toByteArray, width_ofList]
  rw [hs, String.toByteArray_append, String.toByteArray_append, ha, hl]
  have hstart := ByteArray.extract_append_size_add (a := (String.ofList a).toByteArray)
    (b := (String.ofList l).toByteArray ++ (String.ofList b).toByteArray) (i := 0) (j := (String.ofList l).toByteArray.size)
  rw [Nat.add_zero] at hstart
  rw [hstart, ByteArray.extract_append_eq_left rfl]

/-- The bytes of a part of a source that is not too long are what the span of that length holds. -/
theorem Span.holds_ofNat {a l b : List Char} (h : source.toList = a ++ (l ++ b)) (hl : l ≠ []) (hsize : source.utf8ByteSize < UInt32.size) :
    (Span.ofNat file (width a) (width l)).Holds source l := by
  have hwidth : width a + (width l + width b) = source.utf8ByteSize := by
    rw [← width_toList, h, width_append, width_append]
  have hpos := width_pos hl
  have hstart : (Span.ofNat file (width a) (width l)).start.offset.toNat = width a := Position.toNat_offset (by omega)
  have hfinish : (Span.ofNat file (width a) (width l)).finish.offset.toNat = width a + width l := Position.toNat_offset (by omega)
  refine ⟨?_, ?_, ?_, ?_, ?_⟩
  · rw [UInt32.lt_iff_toNat_lt, hstart, hfinish]
    omega
  · omega
  · rw [hstart]
    exact isValid_width h
  · rw [hfinish, ← width_append]
    exact isValid_width (by rw [h, List.append_assoc])
  · rw [hstart, hfinish]
    exact extract_width h

/-! ## Tiles -/

/-- A token, the text of its lexeme and the gap in front of it. -/
structure Tile where
  gap : List Char
  lexeme : List Char
  token : Token

/-- The text that tiles cover. -/
def tilesText : List Tile → List Char
  | [] => []
  | t :: tiles => t.gap ++ (t.lexeme ++ tilesText tiles)

/-- The tiles from an offset on, up to a last gap that ends the source: between the lexemes are
gaps, each lexeme spells its token, and the token has the span of its lexeme. -/
def Tiled (file : String) (last : List Char) : Nat → List Tile → Prop
  | _, [] => Gap last []
  | offset, t :: tiles =>
    Gap t.gap (t.lexeme ++ (tilesText tiles ++ last)) ∧
    Spells t.token.kind t.lexeme t.token.value.toList ∧
    t.token.span = .ofNat file (offset + width t.gap) (width t.lexeme) ∧
    Tiled file last (offset + width t.gap + width t.lexeme) tiles

/-- A piece of a gap in front of all tiles belongs to the first of them, or to the last gap. -/
theorem Tiled.fill (h : Tiled file last (offset + width piece) tiles) (hp : Filler piece (tilesText tiles ++ last)) :
    ∃ tiles' last', tiles'.map Tile.token = tiles.map Tile.token ∧
      tilesText tiles' ++ last' = piece ++ (tilesText tiles ++ last) ∧ Tiled file last' offset tiles' := by
  cases tiles with
  | nil => exact ⟨[], piece ++ last, rfl, rfl, .cons (by simpa [tilesText] using hp) h⟩
  | cons t tiles =>
    obtain ⟨hg, hs, hspan, ht⟩ := h
    have htext : tilesText (t :: tiles) ++ last = t.gap ++ (t.lexeme ++ (tilesText tiles ++ last)) := by
      simp [tilesText]
    rw [htext] at hp
    refine ⟨⟨piece ++ t.gap, t.lexeme, t.token⟩ :: tiles, last, rfl, by simp [tilesText], .cons hp hg, hs, ?_, ?_⟩
    · simpa [Nat.add_assoc] using hspan
    · simpa [Nat.add_assoc] using ht

/-- Scanning finds tiles: one for each token it adds, and together all that was to be scanned. -/
theorem scan_tiled (h : scan file offset found s = .ok tokens) :
    ∃ tiles last, tokens = found.reverse ++ tiles.map Tile.token ∧ s = tilesText tiles ++ last ∧ Tiled file last offset tiles := by
  induction offset, found, s using scan.induct file with
  | case1 offset found =>
    rw [scan_nil] at h
    cases h
    exact ⟨[], [], by simp, rfl, .nil []⟩
  | case2 offset found c s cause n hl =>
    rw [scan_of_error hl] at h
    cases h
  | case3 offset found c s l hl _ ih =>
    rw [scan_of_ok hl] at h
    obtain ⟨tiles, last, htokens, hrest, htiled⟩ := ih h
    have hsplit := first_append hl
    have hspelled := first_spelled c s l hl
    unfold WellSpelled at hspelled
    cases ht : l.token with
    | none =>
      -- No token: the lexeme goes to the gap in front of the tiles of the rest.
      rw [ht] at hspelled
      rw [hrest] at hspelled hsplit
      obtain ⟨tiles', last', hmap, htext, htiled'⟩ := htiled.fill hspelled
      exact ⟨tiles', last', by simp [htokens, hmap, token?, ht], by rw [htext, hsplit], htiled'⟩
    | some t =>
      -- A token makes a tile, for now without a gap.
      rw [ht] at hspelled
      refine ⟨⟨[], l.written, ⟨t.1, t.2, .ofNat file offset (width l.written)⟩⟩ :: tiles, last, ?_, ?_, .nil _, hspelled, rfl, htiled⟩
      · simp [htokens, token?, ht]
      · rw [← hsplit, hrest]
        simp [tilesText]

/-! ## What the tiles say of the source -/

theorem Tiled.spans (h : Tiled file last offset tiles) {a : List Char} (hs : source.toList = a ++ (tilesText tiles ++ last))
    (ha : width a = offset) (hsize : source.utf8ByteSize < UInt32.size) : ∀ t ∈ tiles, t.token.span.Holds source t.lexeme := by
  induction tiles generalizing offset a with
  | nil => nofun
  | cons t tiles ih =>
    obtain ⟨hg, hspells, hspan, ht⟩ := h
    have hsplit : source.toList = (a ++ t.gap) ++ (t.lexeme ++ (tilesText tiles ++ last)) := by
      simpa [tilesText] using hs
    refine List.forall_mem_cons.2 ⟨?_, ?_⟩
    · rw [hspan, ← ha, ← width_append]
      exact Span.holds_ofNat hsplit hspells.ne_nil hsize
    · refine ih ht (a := a ++ t.gap ++ t.lexeme) ?_ ?_
      · rw [hsplit, List.append_assoc (a ++ t.gap)]
      · rw [width_append, width_append, ha]

/-- Each token starts where the last one has ended or later, and none before the first tile. -/
theorem Tiled.pairwise (h : Tiled file last offset tiles) (hsize : offset + width (tilesText tiles) < UInt32.size) :
    (∀ t ∈ tiles, offset ≤ t.token.span.start.offset.toNat) ∧
    (tiles.map Tile.token).Pairwise fun t u => t.span.finish.offset ≤ u.span.start.offset := by
  induction tiles generalizing offset with
  | nil => exact ⟨nofun, .nil⟩
  | cons t tiles ih =>
    obtain ⟨hg, hspells, hspan, ht⟩ := h
    simp only [tilesText, width_append] at hsize
    obtain ⟨hstart, hpairs⟩ := ih ht (by omega)
    have hfirst : t.token.span.start.offset.toNat = offset + width t.gap := by
      rw [hspan]
      exact Position.toNat_offset (by omega)
    have hlast : t.token.span.finish.offset.toNat = offset + width t.gap + width t.lexeme := by
      rw [hspan]
      exact Position.toNat_offset (by omega)
    refine ⟨List.forall_mem_cons.2 ⟨by omega, fun u hu => ?_⟩, List.pairwise_cons.2 ⟨fun u hu => ?_, hpairs⟩⟩
    · -- The tiles behind this one start where it ends, or later.
      have := hstart u hu
      omega
    · obtain ⟨tile, htile, rfl⟩ := List.mem_map.1 hu
      rw [UInt32.le_iff_toNat_le, hlast]
      exact hstart tile htile

/-- A source that has tokens is their lexemes with gaps between them. Each lexeme stands where
its token's span is and spells the token, and the spans follow one another. -/
theorem tokenize_tiled {source file : String} {tokens : List Token} (hsize : source.utf8ByteSize < UInt32.size)
    (h : tokenize source file = .ok tokens) :
    ∃ tiles last, tiles.map Tile.token = tokens ∧ source.toList = tilesText tiles ++ last ∧ Tiled file last 0 tiles ∧
      (∀ t ∈ tiles, t.token.span.Holds source t.lexeme) ∧
      tokens.Pairwise fun t u => t.span.finish.offset ≤ u.span.start.offset := by
  obtain ⟨tiles, last, htokens, htext, htiled⟩ := scan_tiled h
  obtain rfl : tokens = tiles.map Tile.token := htokens
  have hwidth : width (tilesText tiles) + width last = source.utf8ByteSize := by
    rw [← width_append, ← htext, width_toList]
  exact ⟨tiles, last, rfl, htext, htiled, htiled.spans (a := []) htext rfl hsize, (htiled.pairwise (by omega)).2⟩

/-- A name, a string and a comment. -/
theorem tokenize_tiled_string :
    ∃ tiles last, tiles.map Tile.token = [⟨.identifier, "x", .ofNat "f" 0 1⟩, ⟨.string, "\n", .ofNat "f" 2 4⟩] ∧
      "x \"\\n\"--".toList = tilesText tiles ++ last ∧ Tiled "f" last 0 tiles ∧
      (∀ t ∈ tiles, t.token.span.Holds "x \"\\n\"--" t.lexeme) ∧
      [(⟨.identifier, "x", .ofNat "f" 0 1⟩ : Token), ⟨.string, "\n", .ofNat "f" 2 4⟩].Pairwise
        fun t u => t.span.finish.offset ≤ u.span.start.offset := by
  have h : tokenize "x \"\\n\"--" "f" = .ok [⟨.identifier, "x", .ofNat "f" 0 1⟩, ⟨.string, "\n", .ofNat "f" 2 4⟩] := by
    have hs : "x \"\\n\"--".toList = ['x', ' ', '"', '\\', 'n', '"', '-', '-'] := rfl
    have hx : first 'x' [' ', '"', '\\', 'n', '"', '-', '-'] = .ok (word 'x' [' ', '"', '\\', 'n', '"', '-', '-']) := rfl
    have hblank : first ' ' ['"', '\\', 'n', '"', '-', '-'] = .ok (blank ' ' ['"', '\\', 'n', '"', '-', '-']) := rfl
    have hstring : first '"' ['\\', 'n', '"', '-', '-'] = .ok ⟨['"', '\\', 'n', '"'], ['-', '-'], some (.string, "\n")⟩ := rfl
    have hcomment : first '-' ['-'] = .ok (lineComment []) := rfl
    rw [tokenize, hs, scan_of_ok hx]
    refine (scan_of_ok hblank).trans ?_
    refine (scan_of_ok hstring).trans ?_
    refine (scan_of_ok hcomment).trans ?_
    exact scan_nil _ _ _
  exact tokenize_tiled (by decide) h

end MiniLua
