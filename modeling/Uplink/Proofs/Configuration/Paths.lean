import Mathlib.Data.List.Basic
import Uplink.Configuration.Node

namespace Uplink.Configuration

variable {name other : String} {members : List (String × Node)} {t v w x y leaf : Node}
  {origin : Origin} {p : List Step} {q : List String}

theorem lookup_cons_if (name other : String) (v : Node) (members : List (String × Node)) :
    List.lookup other ((name, v) :: members) =
      if other = name then some v else members.lookup other := by
  rw [List.lookup_cons]
  by_cases ho : other = name
  · simp [ho]
  · rw [if_neg ho, beq_eq_false_iff_ne.mpr ho]

theorem lookup_replaceMember (name other : String) (v : Node) (members : List (String × Node)) :
    (Node.replaceMember name v members).lookup other =
      if other = name then some v else members.lookup other := by
  induction members with
  | nil => exact lookup_cons_if name other v []
  | cons m members ih =>
    obtain ⟨first, u⟩ := m
    rw [Node.replaceMember]
    by_cases hf : first = name
    · subst hf
      rw [if_pos rfl, lookup_cons_if, lookup_cons_if]
      by_cases ho : other = first <;> simp [ho]
    · rw [if_neg hf, lookup_cons_if, lookup_cons_if, ih]
      by_cases ho : other = first
      · subst ho
        simp [hf]
      · simp [ho]

theorem replaceMember_twice (name : String) (v w : Node) (members : List (String × Node)) :
    Node.replaceMember name w (Node.replaceMember name v members) =
      Node.replaceMember name w members := by
  induction members with
  | nil => simp [Node.replaceMember]
  | cons m members ih =>
    obtain ⟨first, u⟩ := m
    by_cases hf : first = name <;> simp [Node.replaceMember, hf, ih]

/-- A member that is there keeps its place, so it may be replaced before or after another. -/
theorem replaceMember_comm (hn : (members.lookup name).isSome) (ho : other ≠ name) (v w : Node) :
    Node.replaceMember other w (Node.replaceMember name v members) =
      Node.replaceMember name v (Node.replaceMember other w members) := by
  induction members with
  | nil => cases hn
  | cons m members ih =>
    obtain ⟨first, u⟩ := m
    by_cases hf : first = name
    · subst hf
      simp [Node.replaceMember, ho.symm]
    · have hrest : (members.lookup name).isSome := by
        rwa [List.lookup_cons, beq_eq_false_iff_ne.mpr (Ne.symm hf)] at hn
      by_cases hfo : first = other
      · subst hfo
        simp [Node.replaceMember, hf]
      · simp [Node.replaceMember, hf, hfo, ih hrest]

namespace Node

@[simp] theorem member?_withMember (t : Node) (name other : String) (v : Node) :
    (t.withMember name v).member? other = if other = name then some v else t.member? other := by
  cases t with
  | table members origin => exact lookup_replaceMember name other v members
  | scalar s origin => exact lookup_cons_if name other v []
  | list items origin => exact lookup_cons_if name other v []

@[simp] theorem withMember_twice (t : Node) (name : String) (v w : Node) :
    (t.withMember name v).withMember name w = t.withMember name w := by
  cases t with
  | table members origin => rw [withMember, withMember, withMember, replaceMember_twice]
  | scalar s origin => simp [withMember, replaceMember]
  | list items origin => simp [withMember, replaceMember]

theorem withMember_comm (hn : t.member? name = some x) (ho : other ≠ name) (v w : Node) :
    (t.withMember name v).withMember other w = (t.withMember other w).withMember name v := by
  cases t with
  | table members origin =>
    have hsome : (members.lookup name).isSome := by
      rw [show members.lookup name = some x from hn]
      rfl
    simp only [withMember]
    rw [replaceMember_comm hsome ho]
  | scalar s origin => cases hn
  | list items origin => cases hn

/-- A value that is put in as it is, and not merged member by member. -/
def IsLeaf : Node → Prop
  | .table _ _ => False
  | _ => True

/-- The part of a tree at a path of names. -/
def find? (t : Node) : List String → Option Node
  | [] => some t
  | name :: q => (t.member? name).bind (find? · q)

/-- Sets what stands at a path of names. -/
def put (t : Node) (q : List String) (v : Node) : Node := t.set (q.map .name) v

theorem assign_leaf (hv : v.IsLeaf) (name : String) (t : Node) :
    assign name v t = t.withMember name v := by
  cases v with
  | table members origin => exact hv.elim
  | scalar s origin => rw [assign]; exact nofun
  | list items origin => rw [assign]; exact nofun

/-- Whatever is assigned, one member is set, to what the old one and the new value come to. -/
theorem assign_member (name : String) (v t : Node) :
    ∃ w, ∀ t' : Node, t'.member? name = t.member? name → assign name v t' = t'.withMember name w := by
  cases v with
  | table members origin =>
    refine ⟨assignAll members ((t.member? name).getD emptyTable), fun t' ht => ?_⟩
    rw [assign, ht]
  | scalar s origin => exact ⟨_, fun t' _ => assign_leaf (v := .scalar s origin) trivial name t'⟩
  | list items origin => exact ⟨_, fun t' _ => assign_leaf (v := .list items origin) trivial name t'⟩

/-- Setting a path changes the member it begins with, and looks at no other. -/
theorem set_member (t : Node) (name : String) (p : List Step) (v : Node) :
    ∃ w, ∀ t' : Node, t'.member? name = t.member? name →
      t'.set (.name name :: p) v = t'.withMember name w := by
  cases p with
  | nil =>
    obtain ⟨w, hw⟩ := assign_member name v t
    exact ⟨w, fun t' ht => by rw [set, hw t' ht]⟩
  | cons s p =>
    exact ⟨set ((t.member? name).getD nothing) (s :: p) v, fun t' ht => by
      rw [set, ht]
      exact List.cons_ne_nil s p⟩

theorem set_cons (hp : p ≠ []) (t : Node) (name : String) (v : Node) :
    t.set (.name name :: p) v =
      t.withMember name (set ((t.member? name).getD nothing) p v) := by
  rw [set]
  exact hp

/-- The path parts from the names: after some that both have, the two go on with different names. -/
inductive Parted : List Step → List String → Prop where
  | here {name other : String} (p : List Step) (q : List String) (differ : other ≠ name) :
    Parted (.name other :: p) (name :: q)
  | there {p : List Step} {q : List String} (name : String) (parted : Parted p q) :
    Parted (.name name :: p) (name :: q)

theorem Parted.ne_nil (h : Parted p q) : p ≠ [] := by
  cases h <;> exact List.cons_ne_nil _ _

/-- What is put at a path is found there. -/
theorem find?_put (t : Node) (hv : v.IsLeaf) (hq : q ≠ []) : (t.put q v).find? q = some v := by
  induction q generalizing t with
  | nil => exact absurd rfl hq
  | cons name q ih =>
    rw [put, List.map_cons, find?]
    cases q with
    | nil => simp [set, assign_leaf hv, find?]
    | cons next q =>
      rw [set_cons (by simp), member?_withMember, if_pos rfl]
      exact ih ((t.member? name).getD nothing) (List.cons_ne_nil next q)

/-- What stands at a path is still there when another one is set that parts from it. -/
theorem find?_set (h : Parted p q) (t y : Node) : (t.set p y).find? q = t.find? q := by
  induction h generalizing t with
  | here p q differ =>
    obtain ⟨w, hw⟩ := set_member t _ p y
    rw [hw t rfl, find?, find?, member?_withMember, if_neg differ.symm]
  | there name parted ih =>
    rw [set_cons parted.ne_nil, find?, find?, member?_withMember, if_pos rfl, Option.bind_some, ih]
    cases t.member? name with
    | some c => rfl
    | none => cases parted <;> rfl

/-- The last that is put at a path stays. -/
theorem put_twice (t : Node) (hx : x.IsLeaf) (hv : v.IsLeaf) (hq : q ≠ []) :
    (t.put q x).put q v = t.put q v := by
  induction q generalizing t with
  | nil => exact absurd rfl hq
  | cons name q ih =>
    simp only [put, List.map_cons]
    cases q with
    | nil => simp [set, assign_leaf hx, assign_leaf hv]
    | cons next q =>
      have hmap : (next :: q).map Step.name ≠ [] := by simp
      rw [set_cons hmap, set_cons hmap, set_cons hmap, member?_withMember, if_pos rfl,
        withMember_twice, Option.getD_some]
      exact congrArg (t.withMember name) (ih _ (List.cons_ne_nil next q))

/-- Two paths that part are set in either order, when one of them is there already. -/
theorem set_put (h : Parted p q) (hleaf : t.find? q = some leaf) (x y : Node) :
    (t.put q x).set p y = (t.set p y).put q x := by
  induction h generalizing t with
  | @here name other p q differ =>
    obtain ⟨c, hc, -⟩ := Option.bind_eq_some_iff.mp hleaf
    obtain ⟨u, hu⟩ := set_member t name (q.map .name) x
    obtain ⟨w, hw⟩ := set_member t other p y
    have hput : (t.put (name :: q) x).member? other = t.member? other := by
      rw [put, List.map_cons, hu t rfl, member?_withMember, if_neg differ]
    have hset : (t.set (.name other :: p) y).member? name = t.member? name := by
      rw [hw t rfl, member?_withMember, if_neg differ.symm]
    rw [hw _ hput, put, List.map_cons, hu t rfl, put, List.map_cons, hu _ hset, hw t rfl,
      withMember_comm hc differ]
  | @there p q name parted ih =>
    obtain ⟨c, hc, hleaf⟩ := Option.bind_eq_some_iff.mp hleaf
    have hmap : q.map Step.name ≠ [] := by
      cases parted <;> simp
    rw [put, put, List.map_cons, set_cons hmap, set_cons parted.ne_nil, set_cons parted.ne_nil,
      set_cons hmap, member?_withMember, member?_withMember, if_pos rfl, if_pos rfl, hc,
      withMember_twice, withMember_twice]
    exact congrArg (t.withMember name) (ih hleaf)

/-- Members of a source that leave a path alone. -/
def Spared (q : List String) (members : List (String × Node)) : Prop :=
  ∀ m ∈ members, Parted (readPath m.1) q

theorem absorb_append (t : Node) (first second : List (String × Node)) :
    t.absorb (first ++ second) = (t.absorb first).absorb second := List.foldl_append

theorem find?_absorb (h : Spared q members) (t : Node) :
    (t.absorb members).find? q = t.find? q := by
  induction members generalizing t with
  | nil => rfl
  | cons m members ih =>
    obtain ⟨hm, h⟩ := List.forall_mem_cons.mp h
    exact (ih h _).trans (find?_set hm t m.2)

theorem absorb_put (h : Spared q members) (hleaf : t.find? q = some leaf) (x : Node) :
    (t.put q x).absorb members = (t.absorb members).put q x := by
  induction members generalizing t with
  | nil => rfl
  | cons m members ih =>
    obtain ⟨hm, h⟩ := List.forall_mem_cons.mp h
    have hkept : (t.set (readPath m.1) m.2).find? q = some leaf := by rw [find?_set hm, hleaf]
    have hstep := ih h hkept
    rw [← set_put hm hleaf] at hstep
    exact hstep

end Node

end Uplink.Configuration
