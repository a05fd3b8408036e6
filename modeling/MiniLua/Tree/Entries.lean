import MiniLua.Tree.Basic
/-!
# Named entries of a table

A table holds one entry per key, in code point order of the keys. Giving a
value to a key that has one replaces it. `find?_insert` says what an insertion
does to every key, `ascending_insert` that the order is kept.
-/

namespace MiniLua.Entry

/-- The entries with a value given to a key. -/
def insert (key : String) (value : Expr) : List Entry → List Entry
  | [] => [mk key value]
  | e :: es =>
    if key < e.key then mk key value :: e :: es
    else if key = e.key then mk key value :: es
    else e :: insert key value es

/-- The value of a key. -/
def find? (key : String) (es : List Entry) : Option Expr :=
  (es.find? fun e => e.key = key).map Entry.value

theorem find?_insert (k key : String) (value : Expr) (es : List Entry) :
    find? k (insert key value es) = if key = k then some value else find? k es := by
  induction es with
  | nil => by_cases h : key = k <;> simp [insert, find?, h]
  | cons e es ih =>
    simp only [find?] at ih ⊢
    rw [insert]
    split
    · by_cases h : key = k <;> simp [h]
    · split
      · next h => by_cases hk : key = k <;> simp_all
      · next h => by_cases hk : e.key = k <;> simp_all

/-- Keys in strictly ascending order. -/
def Ascending (es : List Entry) : Prop := es.Pairwise fun a b => a.key < b.key

theorem mem_insert {a : Entry} {key : String} {value : Expr} {es : List Entry}
    (h : a ∈ insert key value es) : a = mk key value ∨ a ∈ es := by
  induction es with
  | nil => exact .inl (List.mem_singleton.1 h)
  | cons e es ih =>
    rw [insert] at h
    split at h
    · exact List.mem_cons.1 h
    · split at h
      · exact (List.mem_cons.1 h).imp_right (List.mem_cons_of_mem e)
      · rcases List.mem_cons.1 h with rfl | h
        · exact .inr List.mem_cons_self
        · exact (ih h).imp_right (List.mem_cons_of_mem e)

theorem ascending_insert (key : String) (value : Expr) {es : List Entry} (h : Ascending es) :
    Ascending (insert key value es) := by
  induction es with
  | nil => simp [insert, Ascending]
  | cons e es ih =>
    have hes := List.pairwise_cons.1 h
    rw [insert]
    split
    · next hlt =>
      refine List.pairwise_cons.2 ⟨fun a ha => ?_, h⟩
      rcases List.mem_cons.1 ha with rfl | ha
      · exact hlt
      · exact String.lt_trans hlt (hes.1 a ha)
    · next hge =>
      split
      · next heq =>
        subst heq
        exact List.pairwise_cons.2 ⟨hes.1, hes.2⟩
      · next hne =>
        refine List.pairwise_cons.2 ⟨fun a ha => ?_, ih hes.2⟩
        rcases mem_insert ha with rfl | ha
        · exact Std.lt_of_le_of_ne (String.not_lt.1 hge) (Ne.symm hne)
        · exact hes.1 a ha

end MiniLua.Entry
