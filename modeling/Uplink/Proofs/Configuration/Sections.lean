import Mathlib.Data.List.Nodup
import Uplink.Configuration.Load
import Uplink.Proofs.Configuration.Paths

namespace Uplink.Configuration

variable {α σ : Type} {f g : Field σ} {fields : List (Field σ)} {start a : σ}
  {change : σ → σ} {members : List (String × Node)} {n n' t : Node} {title : String}

/-- What the field sets may be set before or after the change. -/
def Field.Commutes (f : Field σ) (change : σ → σ) : Prop :=
  ∀ n put, f.read n = .ok put → ∀ a, put (change a) = change (put a)

theorem commutes_field {name : String} {read : Node → Except Fault α} {set : α → σ → σ}
    (h : ∀ v a, set v (change a) = change (set v a)) : (field name read set).Commutes change := by
  intro n put hp a
  change (read n).map set = .ok put at hp
  cases hr : read n with
  | error y =>
    rw [hr] at hp
    cases hp
  | ok v =>
    rw [hr] at hp
    cases hp
    exact h v a

/-- The field reads the second node as it reads the first, but for a change of what it sets. -/
def Field.Exchanges (f : Field σ) (n n' : Node) (change : σ → σ) : Prop :=
  f.read n' = (f.read n).map (change ∘ ·)

/-- Takes the setting of one field from the members. -/
def takeField (members : List (String × Node)) (a : σ) (f : Field σ) : Except Fault σ :=
  match members.lookup f.name with
  | some n => (under (.name f.name) (f.read n)).map (· a)
  | none => .ok a

theorem readMembers_cons (members : List (String × Node)) (start : σ) (f : Field σ)
    (fields : List (Field σ)) :
    readMembers members start (f :: fields) =
      takeField members start f >>= fun a => readMembers members a fields :=
  List.foldlM_cons

theorem takeField_other (h : f.name ≠ g.name) (n' : Node) (a : σ) :
    takeField (Node.replaceMember g.name n' members) a f = takeField members a f := by
  rw [takeField, takeField, lookup_replaceMember, if_neg h]

theorem takeField_change (h : f.Commutes change) (members : List (String × Node)) (a : σ) :
    takeField members (change a) f = (takeField members a f).map change := by
  rw [takeField, takeField]
  cases members.lookup f.name with
  | none => rfl
  | some n =>
    simp only
    cases hr : f.read n with
    | error y => rfl
    | ok put =>
      simp only [under, Except.map]
      rw [h n put hr a]

theorem takeField_exchanged (hfound : members.lookup f.name = some n)
    (h : f.Exchanges n n' change) (a : σ) :
    takeField (Node.replaceMember f.name n' members) a f = (takeField members a f).map change := by
  have hread : f.read n' = (f.read n).map (change ∘ ·) := h
  rw [takeField, takeField, lookup_replaceMember, if_pos rfl, hfound]
  simp only
  rw [hread]
  cases f.read n with
  | error y => rfl
  | ok put => rfl

/-- Behind the field whose member was exchanged, the change is carried along. -/
theorem readMembers_changed (hnames : ∀ g ∈ fields, g.name ≠ f.name)
    (hcomm : ∀ g ∈ fields, g.Commutes change) (a : σ) :
    readMembers (Node.replaceMember f.name n' members) (change a) fields =
      (readMembers members a fields).map change := by
  induction fields generalizing a with
  | nil => rfl
  | cons g fields ih =>
    obtain ⟨hg, hnames⟩ := List.forall_mem_cons.mp hnames
    obtain ⟨hc, hcomm⟩ := List.forall_mem_cons.mp hcomm
    rw [readMembers_cons, readMembers_cons, takeField_other hg, takeField_change hc]
    cases takeField members a g with
    | error y => rfl
    | ok b => exact ih hnames hcomm b

theorem readMembers_exchanged (hf : f ∈ fields) (hnames : (fields.map (·.name)).Nodup)
    (hcomm : ∀ g ∈ fields, g.name ≠ f.name → g.Commutes change)
    (hfound : members.lookup f.name = some n) (h : f.Exchanges n n' change) (start : σ) :
    readMembers (Node.replaceMember f.name n' members) start fields =
      (readMembers members start fields).map change := by
  induction fields generalizing start with
  | nil => cases hf
  | cons g fields ih =>
    rw [List.map_cons, List.nodup_cons] at hnames
    obtain ⟨hg, hnames⟩ := hnames
    have hrestcomm := (List.forall_mem_cons.mp hcomm).2
    rw [readMembers_cons, readMembers_cons]
    rcases List.mem_cons.mp hf with rfl | hf
    · have hrest : ∀ g ∈ fields, g.name ≠ f.name :=
        fun g hm he => hg (List.mem_map.mpr ⟨g, hm, he⟩)
      rw [takeField_exchanged hfound h]
      cases takeField members start f with
      | error y => rfl
      | ok b => exact readMembers_changed hrest (fun g hm => hrestcomm g hm (hrest g hm)) b
    · have hne : g.name ≠ f.name := fun he => hg (List.mem_map.mpr ⟨f, hf, he.symm⟩)
      rw [takeField_other hne]
      cases takeField members start g with
      | error y => rfl
      | ok b => exact ih hf hnames hrestcomm b

theorem readSection_exchanged (hf : f ∈ fields) (hnames : (fields.map (·.name)).Nodup)
    (hcomm : ∀ g ∈ fields, g.name ≠ f.name → g.Commutes change)
    (hfound : t.member? f.name = some n) (h : f.Exchanges n n' change) :
    readSection title fields start (t.withMember f.name n') =
      (readSection title fields start t).map change := by
  cases t with
  | table members origin => exact readMembers_exchanged hf hnames hcomm hfound h start
  | scalar s origin => cases hfound
  | list items origin => cases hfound

end Uplink.Configuration
