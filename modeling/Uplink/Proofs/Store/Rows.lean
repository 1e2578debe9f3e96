import Uplink.Store.Source

namespace Uplink.Store

variable {a b : Int64} {rows : List Integration}

namespace Memory

theorem lookup_assign (id a : Int64) (rows : List Integration)
    (l : List (Int64 × List Integration)) :
    (assign id rows l).lookup a = if a = id then some rows else l.lookup a := by
  induction l with
  | nil =>
    rw [assign, List.lookup_cons, List.lookup_nil]
    by_cases h : a = id
    · simp [h]
    · simp [h, beq_false_of_ne h]
  | cons x l ih =>
    obtain ⟨other, old⟩ := x
    unfold assign
    by_cases ho : other = id
    · rw [if_pos ho, List.lookup_cons, List.lookup_cons, ho]
      by_cases h : a = id
      · simp [h]
      · simp [h, beq_false_of_ne h]
    · rw [if_neg ho, List.lookup_cons, List.lookup_cons, ih]
      by_cases h : a = other
      · simp [h, ho]
      · simp [beq_false_of_ne h]

theorem list_upsert (m : Memory) (row : Integration) (a : Int64) :
    (m.upsert row).list a = if a = row.applicationId then put row (m.list a) else m.list a := by
  unfold upsert
  rw [list, lookup_assign]
  split
  · rename_i h
    rw [h, Option.getD_some]
  · rfl

theorem list_remove (m : Memory) (b : Int64) (kind : String) (a : Int64) :
    (m.remove b kind).1.list a =
      if a = b then (m.list a).filter (·.kind != kind) else m.list a := by
  unfold remove
  dsimp only
  split
  · rename_i hl
    split
    · rename_i h
      rw [h]
      exact (List.filter_eq_self.mpr (List.length_filter_eq_length_iff.mp hl)).symm
    · rfl
  · rw [list, lookup_assign]
    split
    · rename_i h
      rw [h, Option.getD_some]
    · rfl

theorem remove_found (m : Memory) (b : Int64) (kind : String) :
    (m.remove b kind).2 = (m.list b).any (·.kind == kind) := by
  unfold remove
  dsimp only
  cases hany : (m.list b).any (·.kind == kind) with
  | false =>
    have hkept : ∀ row ∈ m.list b, (row.kind != kind) = true := fun row hrow => by
      simpa using List.any_eq_false.mp hany row hrow
    rw [if_pos (congrArg _ (List.filter_eq_self.mpr hkept))]
  | true =>
    obtain ⟨row, hrow, hk⟩ := List.any_eq_true.mp hany
    have hfewer := List.length_filter_lt_length_iff_exists (p := (·.kind != kind)) |>.mpr
      ⟨row, hrow, by simpa using hk⟩
    rw [if_neg (Nat.ne_of_lt hfewer)]

end Memory

namespace Source

/-- Storing a row, for the rows of its application. -/
def put (s : Source) (row : Integration) (rows : List Integration) : List Integration :=
  match s with
  | .memory _ => Memory.put row rows
  | .table _ => rows ++ [row]

theorem list_upsert (s : Source) (row : Integration) (a : Int64) :
    (s.upsert row).list a = if a = row.applicationId then s.put row (s.list a) else s.list a := by
  cases s with
  | memory m => exact m.list_upsert row a
  | table rows =>
    simp only [upsert, list, List.filter_append, put]
    by_cases h : a = row.applicationId
    · simp [h]
    · simp [h, Ne.symm h]

theorem list_remove (s : Source) (b : Int64) (kind : String) (a : Int64) :
    (s.remove b kind).1.list a =
      if a = b then (s.list a).filter (·.kind != kind) else s.list a := by
  cases s with
  | memory m => exact m.list_remove b kind a
  | table rows =>
    simp only [remove, list, List.filter_filter]
    split
    · rename_i h
      refine List.filter_congr fun row _ => ?_
      by_cases hr : row.applicationId = b
      · simp [isOf, h, hr, bne]
      · simp [isOf, h, beq_false_of_ne hr]
    · rename_i h
      refine List.filter_congr fun row _ => ?_
      by_cases hr : row.applicationId = a
      · simp [isOf, hr, h]
      · simp [hr]

/-- A removal finds what it removes among the rows of its application. -/
theorem remove_found (s : Source) (b : Int64) (kind : String) :
    (s.remove b kind).2 = (s.list b).any (·.kind == kind) := by
  cases s with
  | memory m => exact m.remove_found b kind
  | table rows =>
    simp only [remove, list, List.any_filter]
    rfl

/-- Sources that store alike and have the same rows for an application. -/
structure Alike (a : Int64) (s t : Source) : Prop where
  put : ∀ row rows, s.put row rows = t.put row rows
  rows : s.list a = t.list a

theorem put_upsert (s : Source) (row : Integration) : (s.upsert row).put = s.put := by
  cases s <;> rfl

theorem put_remove (s : Source) (b : Int64) (kind : String) :
    (s.remove b kind).1.put = s.put := by
  cases s <;> rfl

variable {s t : Source}

theorem Alike.upsert (h : Alike a s t) (row : Integration) :
    Alike a (s.upsert row) (t.upsert row) where
  put := by
    rw [put_upsert, put_upsert]
    exact h.put
  rows := by rw [list_upsert, list_upsert, h.rows, h.put]

theorem Alike.remove (h : Alike a s t) (b : Int64) (kind : String) :
    Alike a (s.remove b kind).1 (t.remove b kind).1 where
  put := by
    rw [put_remove, put_remove]
    exact h.put
  rows := by rw [list_remove, list_remove, h.rows]

/-- What is stored for others is nothing to the application. -/
theorem Alike.upsert_other (h : Alike a s t) {row : Integration} (hr : row.applicationId ≠ a) :
    Alike a (s.upsert row) t where
  put := by
    rw [put_upsert]
    exact h.put
  rows := by rw [list_upsert, if_neg hr.symm, h.rows]

theorem Alike.remove_other (h : Alike a s t) (hb : b ≠ a) (kind : String) :
    Alike a (s.remove b kind).1 t where
  put := by
    rw [put_remove]
    exact h.put
  rows := by rw [list_remove, if_neg hb.symm, h.rows]

end Source

end Uplink.Store
