import MiniLua.Proofs.Reading.Chains
/-!
# Tables of whole fields

A table is read from its fields, each of them a whole expression, with a name and an equals sign in front of it or
without (`TableTokens`, `Whole`). Its elements are the fields without a name in their order, and each name has the last value
that is given to it (`TableOf`). `Cursor.run_table`: these are all the tables that are read, and they are read unless
levels run out.
-/

namespace MiniLua

open MiniLua.Parser MiniLua.Syntax

variable {inner : Inner} {φ ψ : Expr → List Token → Prop} {n : Nat} {e : Expr} {f : Expr ⊕ Entry} {fs : List (Expr ⊕ Entry)}
  {key : String} {as bs : List Entry} {t c : Token} {ts us v w rest : List Token} {fields fields' : List Expr × List Entry}

/-! ## Entries -/

namespace Entry

theorem find?_cons (key : String) (a : Entry) (as : List Entry) :
    find? key (a :: as) = if a.key = key then some a.value else find? key as := by
  by_cases h : a.key = key <;> simp [find?, h]

theorem find?_append (key : String) (as bs : List Entry) : find? key (as ++ bs) = (find? key as).or (find? key bs) := by
  induction as with
  | nil => rfl
  | cons a as ih =>
    rw [List.cons_append, find?_cons, find?_cons, ih]
    split <;> rfl

theorem find?_eq_none (h : ∀ a ∈ as, key < a.key) : find? key as = none := by
  induction as with
  | nil => rfl
  | cons a as ih =>
    have hne : a.key ≠ key := fun ha => String.lt_irrefl _ (ha ▸ h a List.mem_cons_self)
    rw [find?_cons, if_neg hne, ih fun b hb => h b (List.mem_cons_of_mem a hb)]

/-- A key that has a value is not before the first one. -/
theorem Ascending.first_le {a b : Entry} (h : Ascending (b :: bs)) (ha : find? key (b :: bs) = some a.value) : b.key ≤ key := by
  refine String.not_lt.1 fun hlt => ?_
  rw [find?_eq_none (List.forall_mem_cons.2 ⟨hlt, fun c hc => String.lt_trans hlt ((List.pairwise_cons.1 h).1 c hc)⟩)] at ha
  cases ha

/-- Entries in order are told by the values of all keys. -/
theorem Ascending.ext (has : Ascending as) (hbs : Ascending bs) (h : ∀ key, find? key as = find? key bs) : as = bs := by
  have hfirst : ∀ (a : Entry) as, find? a.key (a :: as) = some a.value := fun a as => by rw [find?_cons, if_pos rfl]
  induction as generalizing bs with
  | nil =>
    cases bs with
    | nil => rfl
    | cons b bs => cases (h b.key).trans (hfirst b bs)
  | cons a as ih =>
    cases bs with
    | nil => cases (h a.key).symm.trans (hfirst a as)
    | cons b bs =>
      have hkey : a.key = b.key :=
        String.le_antisymm (has.first_le ((h b.key).trans (hfirst b bs))) (hbs.first_le ((h a.key).symm.trans (hfirst a as)))
      have hvalue : a.value = b.value := by
        have hsame := (hfirst a as).symm.trans (h a.key)
        rw [hkey, hfirst] at hsame
        exact Option.some.inj hsame
      obtain ⟨ha, has'⟩ := List.pairwise_cons.1 has
      obtain ⟨hb, hbs'⟩ := List.pairwise_cons.1 hbs
      have hrest : ∀ key, find? key as = find? key bs := fun key => by
        by_cases hk : a.key = key
        · rw [← hk, find?_eq_none ha, find?_eq_none (hkey ▸ hb)]
        · have hrest := h key
          rwa [find?_cons, find?_cons, if_neg hk, if_neg (hkey ▸ hk)] at hrest
      obtain ⟨_, _⟩ := a
      obtain ⟨_, _⟩ := b
      cases hkey
      cases hvalue
      rw [ih has' hbs' hrest]

end Entry

/-! ## Tables of fields -/

/-- A table has the fields without a name as its elements, in their order, and the other fields as its entries, where of those
with the same name the last one stays. -/
def TableOf (fs : List (Expr ⊕ Entry)) (e : Expr) : Prop :=
  ∃ entries, e = .table (fs.filterMap Sum.getLeft?) entries ∧ Entry.Ascending entries ∧
    ∀ key, Entry.find? key entries = Entry.find? key (fs.filterMap Sum.getRight?).reverse

theorem foldl_addField_elements (fs : List (Expr ⊕ Entry)) (fields : List Expr × List Entry) :
    (fs.foldl addField fields).1 = (fs.filterMap Sum.getLeft?).reverse ++ fields.1 := by
  induction fs generalizing fields with
  | nil => rfl
  | cons f fs ih =>
    rw [List.foldl_cons, ih]
    cases f with
    | inl e =>
      rw [List.filterMap_cons_some (f := Sum.getLeft?) rfl, List.reverse_cons, List.append_assoc]
      rfl
    | inr a => rw [List.filterMap_cons_none rfl, addField]

theorem foldl_addField_ascending (fs : List (Expr ⊕ Entry)) (fields : List Expr × List Entry) (h : Entry.Ascending fields.2) :
    Entry.Ascending (fs.foldl addField fields).2 := by
  induction fs generalizing fields with
  | nil => exact h
  | cons f fs ih =>
    cases f with
    | inl e => exact ih (e :: fields.1, fields.2) h
    | inr a => exact ih (fields.1, Entry.insert a.key a.value fields.2) (Entry.ascending_insert a.key a.value h)

theorem foldl_addField_find? (fs : List (Expr ⊕ Entry)) (fields : List Expr × List Entry) (key : String) :
    Entry.find? key (fs.foldl addField fields).2 =
      (Entry.find? key (fs.filterMap Sum.getRight?).reverse).or (Entry.find? key fields.2) := by
  induction fs generalizing fields with
  | nil => rfl
  | cons f fs ih =>
    rw [List.foldl_cons, ih]
    cases f with
    | inl e => rw [List.filterMap_cons_none rfl, addField]
    | inr a =>
      rw [List.filterMap_cons_some (f := Sum.getRight?) rfl, List.reverse_cons, Entry.find?_append, Option.or_assoc, addField, Entry.find?_insert,
        Entry.find?_cons]
      split <;> rfl

/-- It is the table with these fields. -/
theorem tableOf_iff : TableOf fs e ↔ e = .ofFields fs := by
  have hof : TableOf fs (.ofFields fs) := by
    refine ⟨_, ?_, foldl_addField_ascending fs ([], []) .nil, fun key => ?_⟩
    · rw [Expr.ofFields, foldl_addField_elements, List.append_nil, List.reverse_reverse]
    · rw [foldl_addField_find?]
      exact Option.or_none
  constructor
  · rintro ⟨entries, rfl, hasc, hfind⟩
    obtain ⟨entries', he, hasc', hfind'⟩ := hof
    rw [he, hasc.ext hasc' fun key => (hfind key).trans (hfind' key).symm]
  · rintro rfl
    exact hof

/-! ## Whole fields -/

/-- An expression by itself, as an instance of the form of one. -/
theorem Whole.derives (h : Whole e w) : Derives [.expr] w :=
  let ⟨n, h⟩ := h
  derives_of_readsAs ((ofLevels_reads n).expr .lowest) (WholeWithin.expr h) ahead_nil

/-- Whole expressions are read as values of fields. -/
theorem ReadsWhole.values (h : ReadsWhole inner φ) (hφ : ∀ {e w}, φ e w → Whole e w) : ReadsValues inner φ where
  takes := h.takes
  derives he := (hφ he).derives
  reads := h.expr

/-- Up to the end of a table a value is whole, since neither a comma nor the end of the table goes on with it. -/
theorem WholeWithin.of_read (h : (Inner.ofLevels n).expr .lowest (w ++ us) = .ok (e, us)) (hus : AfterField us) :
    WholeWithin n e w := by
  have hstops := (ofLevels_upTo hus.afterExpr.unlinked ahead_nil n .lowest).stops h
  rwa [List.append_nil] at hstops

/-- A loop over the fields that ends in front of the end of the table has read them, and a comma behind the last one if any. -/
theorem nextFields_cases (hc : c.isSymbol "\x7d" = true)
    (h : repeating (nextField? (.ofLevels n)) fields ts = .ok (fields', c :: us)) :
    ∃ fs w v, ts = w ++ (v ++ c :: us) ∧ Row (Behind (FieldTokens (WholeWithin n))) fs w ∧ Trailing v ∧
      fields' = fs.foldl addField fields := by
  have hi := (Inner.ofLevels_takes n).zero
  have hp := progressive_nextField hi
  induction fields, ts using hp.induction with
  | nil fields => cases h
  | stop fields t ts hr =>
    rw [repeating_of_none hr] at h
    cases h
    exact ⟨[], [], [], rfl, .nil, .none, rfl⟩
  | round fields t ts round hr ih =>
    obtain ⟨ht, rfl⟩ := nextField?_eq_some hr
    rw [repeating_of_some hp hr] at h
    obtain ⟨mid, vs, hround, hmore⟩ := bind_eq_ok.1 h
    obtain ⟨⟨u, ts, rfl, hu⟩, rfl, rfl⟩ | ⟨f, w, rfl, hf, rfl⟩ := fieldOrEnd_cases hi hround
    · rw [repeating_of_none (nextField?_of_closing hu)] at hmore
      cases hmore
      exact ⟨[], [], [t], rfl, .nil, .comma ht, rfl⟩
    · obtain ⟨fs, x, v, rfl, hfs, hv, rfl⟩ := ih _ vs hround hmore
      have hus := afterField_row hfs hv ⟨c, us, rfl, hc⟩
      refine ⟨f :: fs, t :: w ++ x, v, by simp, .cons (.mk ht (hf.mono fun e w he => .of_read he hus)) hfs, hv, rfl⟩

theorem table_cases (h : Parser.table (.ofLevels n) ts = .ok (e, us)) :
    ∃ fs w, ts = w ++ us ∧ TableTokens (WholeWithin n) fs w ∧ e = .ofFields fs := by
  obtain ⟨o, xs, ho, h⟩ := bind_eq_ok.1 h
  obtain ⟨fields, vs, hfirst, h⟩ := bind_eq_ok.1 h
  obtain ⟨fields', _, hmore, h⟩ := bind_eq_ok.1 h
  obtain ⟨c, _, hc, h⟩ := bind_eq_ok.1 h
  cases h
  obtain ⟨rfl, hbrace⟩ := symbol_eq_ok.1 ho
  obtain ⟨rfl, hend⟩ := symbol_eq_ok.1 hc
  obtain ⟨⟨u, ts, rfl, hu⟩, rfl, rfl⟩ | ⟨f, w, rfl, hf, rfl⟩ := fieldOrEnd_cases (Inner.ofLevels_takes n).zero hfirst
  · rw [repeating_of_none (nextField?_of_closing hu)] at hmore
    cases hmore
    exact ⟨[], [o, c], rfl, .empty hbrace hend, rfl⟩
  · obtain ⟨fs, x, v, rfl, hfs, hv, rfl⟩ := nextFields_cases hend hmore
    have hus := afterField_row hfs hv ⟨c, us, rfl, hend⟩
    exact ⟨f :: fs, o :: (w ++ x ++ v ++ [c]), by simp,
      .fields hbrace (.mk (hf.mono fun e w he => .of_read he hus) hfs) hv hend, rfl⟩

/-! ## Runs -/

theorem TableTokens.ne_nil (h : TableTokens φ fs w) : w ≠ [] := by
  cases h <;> exact List.cons_ne_nil _ _

namespace Cursor

/-- Fields that are whole expressions, in braces and with commas between them, are read as the table of these fields, or levels
run out. A run gives a table just if there are such fields for it with the levels that are left here. -/
theorem run_table (c : Cursor) :
    (∀ fs w rest, TableTokens Whole fs w → c.rest = w ++ rest →
      (∃ e, TableOf fs e ∧ c.run Parser.table = (.ok e, { c with index := c.index + w.length })) ∨
        ∃ err, (c.run Parser.table).1 = .error err ∧ err.cause = .nestingTooDeep maxNesting) ∧
    ∀ e d, c.run Parser.table = (.ok e, d) ↔
      ∃ fs w rest, TableTokens (WholeWithin (maxNesting - c.depth)) fs w ∧ c.rest = w ++ rest ∧ TableOf fs e ∧
        d = { c with index := c.index + w.length } := by
  have hwithin : ∀ {fs w rest}, TableTokens (WholeWithin (maxNesting - c.depth)) fs w → c.rest = w ++ rest →
      c.run Parser.table = (.ok (.ofFields fs), { c with index := c.index + w.length }) := fun hfs hrest =>
    run_of_read hfs.ne_nil hrest (hfs.readsAs (F := fun _ => True) ((ReadsWhole.ofLevels _).values fun he => ⟨_, he⟩) _ trivial)
  refine ⟨fun fs w rest hfs hrest => ?_, fun e d => ⟨fun h => ?_, ?_⟩⟩
  · have hbelow := (Below.congruence True).table (Inner.ofLevels_below_unlimited (maxNesting - c.depth))
    have hfree := hfs.readsAs (F := fun _ => True) (ReadsWhole.unlimited.values id) rest trivial
    exact (run_of_unlimited hbelow hfs.ne_nil hrest hfree).imp_left fun hrun => ⟨_, tableOf_iff.2 rfl, hrun⟩
  · cases hrun : Parser.table c.inner c.rest with
    | error failure =>
      rw [run_of_error hrun] at h
      cases h
    | ok r =>
      obtain ⟨e', rest⟩ := r
      obtain ⟨fs, w, hrest, hfs, rfl⟩ := table_cases hrun
      rw [hwithin hfs hrest] at h
      cases h
      exact ⟨fs, w, rest, hfs, hrest, tableOf_iff.2 rfl, rfl⟩
  · rintro ⟨fs, w, rest, hfs, hrest, he, rfl⟩
    rw [tableOf_iff.1 he]
    exact hwithin hfs hrest

/-- The tokens `{a = 1, f(x), a = 2, {3},}`, in front of a parenthesis. -/
def tableTokens : List Token :=
  [.plain .symbol "\x7b", .plain .identifier "a", .plain .operator "=", .plain .number "1", .plain .symbol ",",
    .plain .identifier "f", .plain .symbol "(", .plain .identifier "x", .plain .symbol ")", .plain .symbol ",",
    .plain .identifier "a", .plain .operator "=", .plain .number "2", .plain .symbol ",",
    .plain .symbol "\x7b", .plain .number "3", .plain .symbol "\x7d", .plain .symbol ",", .plain .symbol "\x7d",
    .plain .symbol ")"]

/-- The fields of that table. -/
def tableFields : List (Expr ⊕ Entry) :=
  [.inr ⟨"a", .literal (.number "1")⟩, .inl (.namedCall "f" [.var "x"]), .inr ⟨"a", .literal (.number "2")⟩,
    .inl (.table [.literal (.number "3")] [])]

/-- A name that an argument list follows is no name of a field, and the second value of `a` stays. -/
theorem run_table_mixed :
    let c := Cursor.ofTokens tableTokens "f"
    ((∃ e, TableOf tableFields e ∧ c.run Parser.table = (.ok e, ⟨tableTokens, "f", 19, 0⟩)) ∨
        ∃ err, (c.run Parser.table).1 = .error err ∧ err.cause = .nestingTooDeep maxNesting) ∧
      c.run Parser.table =
        (.ok (.table [.namedCall "f" [.var "x"], .table [.literal (.number "3")] []] [⟨"a", .literal (.number "2")⟩]),
          ⟨tableTokens, "f", 19, 0⟩) := by
  have htokens : ∀ {φ : Expr → List Token → Prop}, (∀ {e w}, WholeWithin maxNesting e w → φ e w) →
      TableTokens φ tableFields (tableTokens.take 19) := by
    intro φ hφ
    have h1 : FieldTokens φ (.inr ⟨"a", .literal (.number "1")⟩) [.plain .identifier "a", .plain .operator "=", .plain .number "1"] :=
      .named (t := .plain .identifier "a") rfl rfl (hφ rfl)
    have hf : FieldTokens φ (.inl (.namedCall "f" [.var "x"]))
        [.plain .identifier "f", .plain .symbol "(", .plain .identifier "x", .plain .symbol ")"] := .element (hφ rfl)
    have h2 : FieldTokens φ (.inr ⟨"a", .literal (.number "2")⟩) [.plain .identifier "a", .plain .operator "=", .plain .number "2"] :=
      .named (t := .plain .identifier "a") rfl rfl (hφ rfl)
    have h3 : FieldTokens φ (.inl (.table [.literal (.number "3")] []))
        [.plain .symbol "\x7b", .plain .number "3", .plain .symbol "\x7d"] := .element (hφ rfl)
    exact .fields rfl (.mk h1 (.cons (.mk rfl hf) (.cons (.mk rfl h2) (.cons (.mk rfl h3) .nil)))) (.comma rfl) rfl
  refine ⟨(run_table _).1 _ _ [.plain .symbol ")"] (htokens fun he => ⟨_, he⟩) rfl, ?_⟩
  exact ((run_table _).2 _ _).2 ⟨_, _, [.plain .symbol ")"], htokens id, rfl, tableOf_iff.2 rfl, rfl⟩

end Cursor

end MiniLua
