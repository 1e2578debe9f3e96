import Mathlib.Data.List.Nodup
import Mathlib.Logic.Function.Basic
import Uplink.Proofs.Collect
import Uplink.Proofs.Store.Rows

namespace Uplink.Store

variable {kind : String} {settings : Json} {a b : Int64}

namespace Memory

variable {row : Integration} {rows : List Integration}

/-- Where no kind comes twice, putting a row replaces the one of its kind and leaves the others. -/
theorem put_of_mem (h : row.kind ∈ rows.map (·.kind)) (hd : (rows.map (·.kind)).Nodup) :
    put row rows = rows.map fun r => if r.kind = row.kind then row else r := by
  induction rows with
  | nil => cases h
  | cons r rows ih =>
    rw [List.map_cons, List.nodup_cons] at hd
    rw [put, List.map_cons]
    split
    · next hr =>
      have hothers : ∀ q ∈ rows, (if q.kind = row.kind then row else q) = q := by
        intro q hq
        have hq' : q.kind ∈ rows.map (·.kind) := List.mem_map_of_mem hq
        exact if_neg fun hk => hd.1 (by rwa [hr, ← hk])
      rw [List.map_congr_left hothers, List.map_id']
    · next hr =>
      rw [List.map_cons] at h
      rw [ih ((List.mem_cons.mp h).resolve_left (Ne.symm hr)) hd.2]

theorem mem_put {r : Integration} (h : r ∈ put row rows) : r = row ∨ r ∈ rows := by
  induction rows with
  | nil => exact .inl (List.mem_singleton.mp h)
  | cons q rows ih =>
    rw [put] at h
    split at h
    · exact (List.mem_cons.mp h).imp_right (List.mem_cons_of_mem q)
    · rcases List.mem_cons.mp h with rfl | h
      · exact .inr List.mem_cons_self
      · exact (ih h).imp_right (List.mem_cons_of_mem q)

theorem put_of_not_mem (h : row.kind ∉ rows.map (·.kind)) : put row rows = rows ++ [row] := by
  induction rows with
  | nil => rfl
  | cons r rows ih =>
    rw [List.map_cons, List.mem_cons, not_or] at h
    rw [put, if_neg (Ne.symm h.1), ih h.2]
    rfl

end Memory

structure Shelf where
  /-- Kinds and their settings, oldest first. -/
  pairs : List (String × Json)
  distinct : (pairs.map Prod.fst).Nodup

namespace Shelf

def empty : Shelf := ⟨[], List.nodup_nil⟩

def kinds (s : Shelf) : List String := s.pairs.map Prod.fst

/-- The integrations of the application whose shelf it is. -/
def rows (s : Shelf) (applicationId : Int64) : List Integration :=
  s.pairs.map fun p => ⟨applicationId, p.1, p.2⟩

/-- Puts settings in the place of those of the same kind. -/
def replace (s : Shelf) (kind : String) (settings : Json) : Shelf where
  pairs := s.pairs.map fun p => if p.1 = kind then (kind, settings) else p
  distinct := by
    have hkinds : (s.pairs.map fun p => if p.1 = kind then (kind, settings) else p).map Prod.fst =
        s.pairs.map Prod.fst := by
      rw [List.map_map]
      refine List.map_congr_left fun p _ => ?_
      simp only [Function.comp_apply]
      split
      · next h => exact h.symm
      · rfl
    rw [hkinds]
    exact s.distinct

def append (s : Shelf) (kind : String) (settings : Json) (fresh : kind ∉ s.kinds) : Shelf where
  pairs := s.pairs ++ [(kind, settings)]
  distinct := by
    rw [List.map_append, List.map_cons, List.map_nil, ← List.concat_eq_append]
    exact s.distinct.concat fresh

/-- Settings of a kind that is there are replaced, those of another come last. -/
def put (s : Shelf) (kind : String) (settings : Json) : Shelf :=
  if h : kind ∈ s.kinds then s.replace kind settings else s.append kind settings h

def erase (s : Shelf) (kind : String) : Shelf where
  pairs := s.pairs.filter (·.1 != kind)
  distinct := s.distinct.sublist (List.filter_sublist.map Prod.fst)

theorem kinds_rows (s : Shelf) (a : Int64) : (s.rows a).map (·.kind) = s.kinds := by
  rw [rows, List.map_map]
  rfl

theorem put_rows (s : Shelf) (a : Int64) (kind : String) (settings : Json) :
    Memory.put ⟨a, kind, settings⟩ (s.rows a) = (s.put kind settings).rows a := by
  have hkinds := s.kinds_rows a
  unfold put
  split
  · next h =>
    rw [Memory.put_of_mem (hkinds ▸ h) (hkinds ▸ s.distinct), rows, rows, replace, List.map_map,
      List.map_map]
    refine List.map_congr_left fun p _ => ?_
    simp only [Function.comp_apply]
    split <;> rfl
  · next h =>
    rw [Memory.put_of_not_mem (hkinds ▸ h), rows, rows, append, List.map_append]
    rfl

theorem erase_rows (s : Shelf) (a : Int64) (kind : String) :
    (s.rows a).filter (·.kind != kind) = (s.erase kind).rows a := by
  rw [rows, rows, erase, List.filter_map]
  rfl

theorem any_rows (s : Shelf) (a : Int64) (kind : String) :
    (s.rows a).any (·.kind == kind) = decide (kind ∈ s.kinds) := by
  rw [← s.kinds_rows a, Bool.eq_iff_iff]
  simp

end Shelf

namespace Memory

inductive Operation where
  | upsert (row : Integration)
  | remove (applicationId : Int64) (kind : String)
  | list (applicationId : Int64)

/-- What an operation answers. -/
inductive Answer where
  | stored
  | removed (found : Bool)
  | rows (rows : List Integration)

def Operation.application : Operation → Int64
  | upsert row => row.applicationId
  | remove a _ => a
  | list a => a

/-- Whether an operation stores settings of a kind for an application. -/
def Operation.stores (a : Int64) (kind : String) : Operation → Prop
  | upsert row => row.applicationId = a ∧ row.kind = kind
  | _ => False

def perform (m : Memory) : Operation → Memory × Answer
  | .upsert row => (m.upsert row, .stored)
  | .remove a kind =>
    let (m, found) := m.remove a kind
    (m, .removed found)
  | .list a => (m, .rows (m.list a))

end Memory

open Memory (Operation Answer)

/-- The reference: a shelf for each application. -/
abbrev Shelves := Int64 → Shelf

namespace Shelves

def empty : Shelves := fun _ => .empty

def perform (s : Shelves) : Operation → Shelves × Answer
  | .upsert row =>
    (Function.update s row.applicationId ((s row.applicationId).put row.kind row.settings), .stored)
  | .remove a kind => (Function.update s a ((s a).erase kind), .removed (kind ∈ (s a).kinds))
  | .list a => (s, .rows ((s a).rows a))

end Shelves

/-- Does one operation after the other and collects the answers. -/
def performAll {σ : Type} (perform : σ → Operation → σ × Answer) (s : σ) :
    List Operation → σ × List Answer :=
  collect (fun s op => ((perform s op).1, [(perform s op).2])) s

namespace Memory

/-- All that is stored, for whichever application. -/
def rows (m : Memory) : List Integration := m.applications.flatMap Prod.snd

/-- A memory that has one list for each application, namely what stands on its shelf. -/
structure Shelved (m : Memory) (s : Shelves) : Prop where
  applications : (m.applications.map Prod.fst).Nodup
  list_eq : ∀ a, m.list a = (s a).rows a

variable {m : Memory} {s : Shelves} {op : Operation}

theorem map_fst_assign (id : Int64) (rows : List Integration)
    (l : List (Int64 × List Integration)) :
    (assign id rows l).map Prod.fst =
      if id ∈ l.map Prod.fst then l.map Prod.fst else l.map Prod.fst ++ [id] := by
  induction l with
  | nil => rfl
  | cons x l ih =>
    obtain ⟨other, old⟩ := x
    rw [assign]
    by_cases ho : other = id
    · simp [ho]
    · rw [if_neg ho, List.map_cons, ih]
      by_cases hl : id ∈ l.map Prod.fst
      · simp [hl]
      · simp [hl, Ne.symm ho]

theorem nodup_assign {l : List (Int64 × List Integration)} (h : (l.map Prod.fst).Nodup)
    (id : Int64) (rows : List Integration) : ((assign id rows l).map Prod.fst).Nodup := by
  rw [map_fst_assign]
  split
  · exact h
  · next hid =>
    rw [← List.concat_eq_append]
    exact h.concat hid

theorem shelved_empty : Shelved empty .empty := ⟨List.nodup_nil, fun _ => rfl⟩

theorem Shelved.upsert (h : Shelved m s) (row : Integration) :
    Shelved (m.upsert row) (s.perform (.upsert row)).1 where
  applications := nodup_assign h.applications _ _
  list_eq a := by
    dsimp only [Shelves.perform]
    rw [list_upsert]
    split
    · next ha =>
      subst ha
      rw [Function.update_self, h.list_eq]
      exact Shelf.put_rows _ _ _ _
    · next ha =>
      rw [Function.update_of_ne ha]
      exact h.list_eq a

theorem Shelved.remove (h : Shelved m s) (b : Int64) (kind : String) :
    Shelved (m.remove b kind).1 (s.perform (.remove b kind)).1 where
  applications := by
    unfold Memory.remove
    dsimp only
    split
    · exact h.applications
    · exact nodup_assign h.applications _ _
  list_eq a := by
    dsimp only [Shelves.perform]
    rw [list_remove]
    split
    · next ha =>
      subst ha
      rw [Function.update_self, h.list_eq]
      exact Shelf.erase_rows _ _ _
    · next ha =>
      rw [Function.update_of_ne ha]
      exact h.list_eq a

/-- Each operation is answered as on the shelves, and leaves what they hold then. -/
theorem Shelved.perform (h : Shelved m s) (op : Operation) :
    Shelved (m.perform op).1 (s.perform op).1 ∧ (m.perform op).2 = (s.perform op).2 := by
  cases op with
  | upsert row => exact ⟨h.upsert row, rfl⟩
  | remove b kind =>
    have hfound : (m.remove b kind).2 = decide (kind ∈ (s b).kinds) := by
      rw [remove_found, h.list_eq]
      exact Shelf.any_rows _ _ _
    exact ⟨h.remove b kind, congrArg Answer.removed hfound⟩
  | list a => exact ⟨h, congrArg Answer.rows (h.list_eq a)⟩

theorem Shelved.performAll (h : Shelved m s) (ops : List Operation) :
    Shelved (performAll Memory.perform m ops).1 (performAll Shelves.perform s ops).1 ∧
      (Store.performAll Memory.perform m ops).2 = (Store.performAll Shelves.perform s ops).2 := by
  induction ops using List.reverseRecOn with
  | nil => exact ⟨h, rfl⟩
  | append_singleton ops op ih =>
    obtain ⟨hafter, hanswers⟩ := ih
    obtain ⟨hstep, hanswer⟩ := hafter.perform op
    unfold Store.performAll at hafter hanswers hstep hanswer ⊢
    rw [collect_snoc, collect_snoc]
    exact ⟨hstep, congrArg₂ (· ++ ·) hanswers (congrArg ([·]) hanswer)⟩

/-- No application has two rows of one kind, wherever they are stored. -/
theorem Shelved.nodup_rows (h : Shelved m s) :
    (m.rows.map fun row => (row.applicationId, row.kind)).Nodup := by
  have hshelf : ∀ p ∈ m.applications, (p.2.map fun row => (row.applicationId, row.kind)) =
      (s p.1).kinds.map (p.1, ·) := by
    intro p hp
    have hlist : m.list p.1 = p.2 := by rw [list, lookup_of_mem h.applications hp, Option.getD_some]
    rw [← hlist, h.list_eq, Shelf.rows, Shelf.kinds, List.map_map, List.map_map]
    rfl
  rw [rows, List.map_flatMap, List.nodup_flatMap]
  constructor
  · intro p hp
    rw [hshelf p hp]
    exact (s p.1).distinct.map fun _ _ h => congrArg Prod.snd h
  · refine (List.pairwise_map.mp h.applications).imp_of_mem fun {p q} hp hq hne => ?_
    dsimp only [Function.onFun]
    rw [hshelf p hp, hshelf q hq]
    intro x hx hy
    obtain ⟨k, -, rfl⟩ := List.mem_map.mp hx
    obtain ⟨k', -, hk⟩ := List.mem_map.mp hy
    exact hne (congrArg Prod.fst hk).symm

/-- An operation is nothing to other applications. -/
theorem list_perform_other (m : Memory) {b : Int64} (h : b ≠ op.application) :
    (m.perform op).1.list b = m.list b := by
  cases op with
  | upsert row => exact (m.list_upsert row b).trans (if_neg h)
  | remove a kind => exact (m.list_remove a kind b).trans (if_neg h)
  | list a => rfl

theorem absent_remove (m : Memory) (a : Int64) (kind : String) :
    kind ∉ ((m.remove a kind).1.list a).map (·.kind) := by
  rw [list_remove, if_pos rfl]
  simp

theorem absent_perform {kind : String} {a : Int64} (hop : ¬ op.stores a kind)
    (h : kind ∉ (m.list a).map (·.kind)) : kind ∉ ((m.perform op).1.list a).map (·.kind) := by
  intro hk
  obtain ⟨row, hrow, rfl⟩ := List.mem_map.mp hk
  -- A row that is not new was there before.
  have hnew : row ∈ m.list a → False := fun hm => h (List.mem_map_of_mem hm)
  by_cases ha : a = op.application
  · subst ha
    cases op with
    | upsert r =>
      change row ∈ (m.upsert r).list r.applicationId at hrow
      rw [list_upsert, if_pos rfl] at hrow
      rcases mem_put hrow with rfl | hrow
      · exact hop ⟨rfl, rfl⟩
      · exact hnew hrow
    | remove b k =>
      change row ∈ (m.remove b k).1.list b at hrow
      rw [list_remove, if_pos rfl] at hrow
      exact hnew (List.mem_filter.mp hrow).1
    | list b => exact hnew hrow
  · rw [list_perform_other m ha] at hrow
    exact hnew hrow

theorem absent_performAll {kind : String} {a : Int64} {ops : List Operation}
    (hops : ∀ op ∈ ops, ¬ op.stores a kind) (h : kind ∉ (m.list a).map (·.kind)) :
    kind ∉ ((performAll Memory.perform m ops).1.list a).map (·.kind) := by
  induction ops using List.reverseRecOn with
  | nil => exact h
  | append_singleton ops op ih =>
    rw [List.forall_mem_append, List.forall_mem_singleton] at hops
    rw [performAll, collect_snoc]
    exact absent_perform hops.2 (ih hops.1)

end Memory

open Memory in
/-- A memory answers as its reference does, whatever is done with it. No application ever has two
integrations of a kind, a kind that was removed comes last when it is stored again, and what is done
for one application leaves the others alone. -/
theorem memory_refines_shelves (ops : List Operation) :
    let m := (performAll Memory.perform .empty ops).1
    (performAll Memory.perform .empty ops).2 = (performAll Shelves.perform .empty ops).2 ∧
      (m.rows.map fun row => (row.applicationId, row.kind)).Nodup ∧
      (∀ (row : Integration) (between : List Operation),
        (∀ op ∈ between, ¬ op.stores row.applicationId row.kind) →
        let later :=
          (performAll Memory.perform m (.remove row.applicationId row.kind :: between)).1
        (later.upsert row).list row.applicationId = later.list row.applicationId ++ [row]) ∧
      ∀ (op : Operation) (b : Int64), b ≠ op.application → (m.perform op).1.list b = m.list b := by
  intro m
  obtain ⟨hshelved, hanswers⟩ := shelved_empty.performAll ops
  refine ⟨hanswers, hshelved.nodup_rows, ?_, fun op b hb => list_perform_other m hb⟩
  intro row between hbetween later
  have habsent : row.kind ∉ (later.list row.applicationId).map (·.kind) := by
    unfold later performAll
    rw [collect_cons]
    exact absent_performAll hbetween (absent_remove m _ _)
  rw [list_upsert, if_pos rfl, put_of_not_mem habsent]

namespace Memory

/-- Two integrations of one application. -/
def first : Integration := ⟨1, "HTTP", .null⟩

def second : Integration := ⟨1, "OTHER", .null⟩

def both : Memory := (performAll perform .empty [.upsert first, .upsert second]).1

/-- The first one is removed and stored again after the second one was replaced. -/
theorem memory_refines_shelves_moved :
    (∀ op ∈ [Operation.list 1, .upsert second], ¬ op.stores first.applicationId first.kind) ∧
      (2 : Int64) ≠ (Operation.remove 1 "HTTP").application ∧
      ((performAll perform both [.remove 1 "HTTP", .list 1, .upsert second]).1.upsert first).list 1 =
        [second, first] ∧
      (both.perform (.remove 1 "HTTP")).1.list 2 = both.list 2 := by
  have hbetween : ∀ op ∈ [Operation.list 1, .upsert second],
      ¬ op.stores first.applicationId first.kind := by
    simp [Operation.stores, first, second]
  have hother : (2 : Int64) ≠ (Operation.remove 1 "HTTP").application := by decide
  obtain ⟨-, -, hmoved, hothers⟩ := memory_refines_shelves [.upsert first, .upsert second]
  exact ⟨hbetween, hother, hmoved first _ hbetween, hothers _ 2 hother⟩

end Memory

end Uplink.Store
