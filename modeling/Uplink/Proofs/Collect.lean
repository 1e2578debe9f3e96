import Mathlib.Data.List.Induction
import Mathlib.Data.List.Nodup
import Mathlib.Data.List.Pairwise

namespace Uplink

variable {σ ι ο : Type}

/-- Does the steps one after the other and collects what comes out. -/
def collect (f : σ → ι → σ × List ο) (s : σ) (xs : List ι) : σ × List ο :=
  xs.foldl (fun (s, outputs) x => let (s, more) := f s x; (s, outputs ++ more)) (s, [])

@[simp] theorem collect_nil (f : σ → ι → σ × List ο) (s : σ) : collect f s [] = (s, []) := rfl

theorem collect_snoc (f : σ → ι → σ × List ο) (s : σ) (xs : List ι) (x : ι) :
    collect f s (xs ++ [x]) =
      ((f (collect f s xs).1 x).1, (collect f s xs).2 ++ (f (collect f s xs).1 x).2) := by
  simp only [collect, List.foldl_append, List.foldl_cons, List.foldl_nil]

theorem collect_append (f : σ → ι → σ × List ο) (s : σ) (xs ys : List ι) :
    collect f s (xs ++ ys) =
      ((collect f (collect f s xs).1 ys).1,
        (collect f s xs).2 ++ (collect f (collect f s xs).1 ys).2) := by
  induction ys using List.reverseRecOn with
  | nil => simp
  | append_singleton ys y ih =>
    rw [← List.append_assoc, collect_snoc, collect_snoc, ih, List.append_assoc]

theorem collect_cons (f : σ → ι → σ × List ο) (s : σ) (x : ι) (xs : List ι) :
    collect f s (x :: xs) =
      ((collect f (f s x).1 xs).1, (f s x).2 ++ (collect f (f s x).1 xs).2) :=
  collect_append f s [x] xs

/-- What every step keeps, of the state and of all that came out so far, a run keeps. -/
theorem collect_keeps {f : σ → ι → σ × List ο} {P : σ → List ο → Prop}
    (hf : ∀ s o x, P s o → P (f s x).1 (o ++ (f s x).2)) {s : σ} {o : List ο} (h : P s o)
    (xs : List ι) : P (collect f s xs).1 (o ++ (collect f s xs).2) := by
  induction xs using List.reverseRecOn with
  | nil => simpa using h
  | append_singleton xs x ih =>
    rw [collect_snoc, ← List.append_assoc]
    exact hf _ _ x ih

/-- Whatever comes out comes out of one of the steps. -/
theorem mem_collect {f : σ → ι → σ × List ο} {s : σ} {xs : List ι} {y : ο}
    (h : y ∈ (collect f s xs).2) :
    ∃ before x after, xs = before ++ x :: after ∧ y ∈ (f (collect f s before).1 x).2 := by
  induction xs using List.reverseRecOn with
  | nil => simp at h
  | append_singleton xs x ih =>
    rw [collect_snoc] at h
    rcases List.mem_append.mp h with h | h
    · obtain ⟨before, z, after, rfl, hz⟩ := ih h
      exact ⟨before, z, after ++ [x], by simp, hz⟩
    · exact ⟨xs, x, [], rfl, h⟩

/-- Where `f` gives no value twice, a value comes from one member of the list. -/
theorem eq_of_nodup_filterMap {f : ι → Option ο} {xs : List ι} {x y : ι} {b : ο}
    (h : (xs.filterMap f).Nodup) (hx : x ∈ xs) (hy : y ∈ xs) (hfx : f x = some b)
    (hfy : f y = some b) : x = y := by
  have apart : xs.Pairwise fun x y => ∀ b, f x = some b → f y ≠ some b := by
    refine (List.pairwise_filterMap.mp h).imp fun {x y} h b hx hy => ?_
    exact h b hx b hy rfl
  have : Std.Symm fun x y => ∀ b, f x = some b → f y ≠ some b := ⟨fun x y h b hy hx => h b hx hy⟩
  by_contra hne
  exact apart.forall hx hy hne b hfx hfy

/-- A function that gives fewer values gives them in the same order. -/
theorem filterMap_sublist {f g : ι → Option ο} (h : ∀ x b, f x = some b → g x = some b)
    (xs : List ι) : (xs.filterMap f).Sublist (xs.filterMap g) := by
  induction xs with
  | nil => exact .slnil
  | cons x xs ih =>
    cases hf : f x with
    | some b =>
      rw [List.filterMap_cons_some hf, List.filterMap_cons_some (h x b hf)]
      exact ih.cons_cons b
    | none =>
      rw [List.filterMap_cons_none hf]
      cases hg : g x with
      | none => rwa [List.filterMap_cons_none hg]
      | some b =>
        rw [List.filterMap_cons_some hg]
        exact ih.cons b

theorem bind_ok_iff {α β ε : Type} {x : Except ε α} {k : α → Except ε β} {b : β} :
    x >>= k = .ok b ↔ ∃ a, x = .ok a ∧ k a = .ok b := by
  cases x with
  | error y => simp [bind, Except.bind]
  | ok a => simp [bind, Except.bind]

theorem bind_error_iff {α β ε : Type} {x : Except ε α} {k : α → Except ε β} {y : ε} :
    x >>= k = .error y ↔ x = .error y ∨ ∃ a, x = .ok a ∧ k a = .error y := by
  cases x with
  | error z => simp [bind, Except.bind]
  | ok a => simp [bind, Except.bind]

variable {α β : Type} [BEq α] [LawfulBEq α] {l : List (α × β)} {a : α} {b : β}

theorem mem_of_lookup (h : l.lookup a = some b) : (a, b) ∈ l := by
  obtain ⟨before, after, rfl, -⟩ := List.lookup_eq_some_iff.mp h
  simp

theorem lookup_none_iff : l.lookup a = none ↔ a ∉ l.map Prod.fst := by
  rw [List.lookup_eq_none_iff]
  constructor
  · intro h hm
    obtain ⟨p, hp, rfl⟩ := List.mem_map.mp hm
    simpa using h p hp
  · intro h p hp
    exact bne_iff_ne.mpr fun he => h (List.mem_map.mpr ⟨p, hp, he.symm⟩)

/-- Where no first component comes twice, each pair is found by its own. -/
theorem lookup_of_mem (h : (l.map Prod.fst).Nodup) (hm : (a, b) ∈ l) : l.lookup a = some b := by
  cases hl : l.lookup a with
  | none => exact absurd (List.mem_map_of_mem hm) (lookup_none_iff.mp hl)
  | some c =>
    have hbc := List.inj_on_of_nodup_map h hm (mem_of_lookup hl) rfl
    cases hbc
    rfl

end Uplink
