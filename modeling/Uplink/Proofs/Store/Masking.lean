import Mathlib.Data.List.DropRight
import Uplink.Store.DatabaseUrl

namespace Uplink.Store

variable {scheme user rest p p' : String} {front back cs ds : List Char}

/-- The address of a database for a user with a password. -/
def address (scheme user password rest : String) : String :=
  scheme ++ "://" ++ user ++ ":" ++ password ++ "@" ++ rest

/-- The parts of a password that are read off a masked address. -/
structure Shown where
  front : List Char
  back : List Char
  deriving DecidableEq

namespace Shown

def nothing : Shown := ⟨[], []⟩

def all (password : String) : Shown := ⟨password.toList, []⟩

/-- The part up to the last colon that no at sign precedes, and the part from the first at sign on.
-/
def around (password : String) : Shown :=
  ⟨upToLastColon (password.toList.takeWhile (· ≠ '@')), password.toList.dropWhile (· ≠ '@')⟩

/-- What shows of a password in an address. An at sign in front of the password is taken for the
one behind it, and then nothing of it is masked. -/
def of (scheme user password : String) : Shown :=
  if '@' ∈ scheme.toList ∨ '@' ∈ user.toList then all password else around password

end Shown

theorem takeWhile_past (h : '@' ∉ front) (cs : List Char) :
    (front ++ cs).takeWhile (· ≠ '@') = front ++ cs.takeWhile (· ≠ '@') :=
  List.takeWhile_append_of_pos fun _ hc => decide_eq_true (ne_of_mem_of_not_mem hc h)

theorem dropWhile_past (h : '@' ∉ front) (cs : List Char) :
    (front ++ cs).dropWhile (· ≠ '@') = cs.dropWhile (· ≠ '@') :=
  List.dropWhile_append_of_pos fun _ hc => decide_eq_true (ne_of_mem_of_not_mem hc h)

/-- The first at sign of a text is found whatever follows the next one. -/
theorem takeWhile_to_at (cs ds : List Char) :
    (cs ++ '@' :: ds).takeWhile (· ≠ '@') = cs.takeWhile (· ≠ '@') := by
  induction cs with
  | nil => simp
  | cons c cs ih =>
    rw [List.cons_append, List.takeWhile_cons, List.takeWhile_cons, ih]

theorem dropWhile_to_at (cs ds : List Char) :
    (cs ++ '@' :: ds).dropWhile (· ≠ '@') = cs.dropWhile (· ≠ '@') ++ '@' :: ds := by
  induction cs with
  | nil => simp
  | cons c cs ih =>
    rw [List.cons_append, List.dropWhile_cons, List.dropWhile_cons, ih]
    split <;> rfl

/-- What is dropped up to an at sign leaves a text that starts with one. -/
theorem takeWhile_dropWhile_at (cs ds : List Char) :
    (cs.dropWhile (· ≠ '@') ++ '@' :: ds).takeWhile (· ≠ '@') = [] := by
  induction cs with
  | nil => simp
  | cons c cs ih =>
    rw [List.dropWhile_cons]
    split
    · exact ih
    · next hc => rw [List.cons_append, List.takeWhile_cons, if_neg hc]

/-- Texts that start with an at sign are told apart from what stands before them. -/
theorem append_inj_at (hf : '@' ∉ front) (hb : '@' ∉ back) (hc : cs.takeWhile (· ≠ '@') = [])
    (hd : ds.takeWhile (· ≠ '@') = []) : front ++ cs = back ++ ds ↔ front = back ∧ cs = ds := by
  constructor
  · intro h
    have hfront : front = back := by
      have htake := congrArg (List.takeWhile (· ≠ '@')) h
      rw [takeWhile_past hf, takeWhile_past hb, hc, hd] at htake
      simpa using htake
    subst hfront
    exact ⟨rfl, List.append_cancel_left h⟩
  · rintro ⟨rfl, rfl⟩
    rfl

theorem not_mem_takeWhile (cs : List Char) : '@' ∉ cs.takeWhile (· ≠ '@') := by
  intro h
  have hne := List.mem_takeWhile_imp h
  simp at hne

theorem upToLastColon_past (front cs : List Char) :
    upToLastColon (front ++ ':' :: cs) = front ++ ':' :: upToLastColon cs := by
  rw [upToLastColon, upToLastColon, List.reverse_append, List.reverse_cons, List.append_assoc,
    List.dropWhile_append]
  cases hd : cs.reverse.dropWhile (· ≠ ':') with
  | nil => simp
  | cons c ds => simp

theorem upToLastColon_begins (cs : List Char) : upToLastColon cs <+: cs :=
  List.rdropWhile_prefix _ cs

theorem upToLastColon_eq_nil : upToLastColon cs = [] ↔ ':' ∉ cs := by
  rw [upToLastColon, ← List.rdropWhile, List.rdropWhile_eq_nil_iff]
  simp only [decide_eq_true_eq]
  exact ⟨fun h hc => h ':' hc rfl, fun h c hc => ne_of_mem_of_not_mem hc h⟩

theorem hasScheme_cons (c : Char) (h : hasScheme cs = true) : hasScheme (c :: cs) = true := by
  unfold hasScheme
  split
  · rfl
  · next he => exact (List.cons.inj he).2 ▸ h
  · next he => cases he

theorem hasScheme_mark (front back : List Char) :
    hasScheme (front ++ ':' :: '/' :: '/' :: back) = true := by
  induction front with
  | nil => rfl
  | cons c front ih => exact hasScheme_cons c ih

/-- An address up to the colon in front of the password, that colon left out. -/
def opening (scheme user : String) : List Char :=
  scheme.toList ++ ':' :: '/' :: '/' :: user.toList

theorem toList_address (scheme user p rest : String) :
    (address scheme user p rest).toList =
      opening scheme user ++ ':' :: (p.toList ++ '@' :: rest.toList) := by
  simp [address, opening]

theorem mem_opening :
    '@' ∈ opening scheme user ↔ '@' ∈ scheme.toList ∨ '@' ∈ user.toList := by
  simp [opening]

/-- Where no at sign comes before the password, the mask stands between the parts that show. -/
theorem maskPassword_address (h : '@' ∉ opening scheme user) (p rest : String) :
    maskPassword (address scheme user p rest) =
      String.ofList (opening scheme user ++ [':'] ++ (((Shown.around p).front ++ mask) ++
        ((Shown.around p).back ++ '@' :: rest.toList))) := by
  have hcolon : '@' ∉ opening scheme user ++ [':'] := by simpa using h
  have htake : (address scheme user p rest).toList.takeWhile (· ≠ '@') =
      opening scheme user ++ ':' :: p.toList.takeWhile (· ≠ '@') := by
    rw [toList_address, List.append_cons, takeWhile_past hcolon, takeWhile_to_at,
      ← List.append_cons]
  have hdrop : (address scheme user p rest).toList.dropWhile (· ≠ '@') =
      (Shown.around p).back ++ '@' :: rest.toList := by
    rw [toList_address, List.append_cons, dropWhile_past hcolon, dropWhile_to_at, Shown.around]
  have hscheme : hasScheme (opening scheme user ++ ':' :: (Shown.around p).front).dropLast = true := by
    rw [List.dropLast_append_cons, opening, List.append_assoc]
    exact hasScheme_mark _ _
  rw [maskPassword]
  simp only [htake, hdrop, upToLastColon_past]
  rw [if_pos ⟨by simp, hscheme⟩]
  simp [Shown.around]

/-- Where an at sign comes before the password, the whole of it stays where it is. -/
theorem maskPassword_address_all (h : '@' ∈ opening scheme user) (rest : String) :
    ∃ front, ∀ p, maskPassword (address scheme user p rest) =
      String.ofList (front ++ (p.toList ++ '@' :: rest.toList)) := by
  obtain ⟨before, behind, ho, hb⟩ := List.eq_append_cons_of_mem h
  have hcs : ∀ p, (address scheme user p rest).toList =
      before ++ '@' :: (behind ++ ':' :: (p.toList ++ '@' :: rest.toList)) := by
    intro p
    rw [toList_address, ho, List.append_assoc, List.cons_append]
  have htake : ∀ p, (address scheme user p rest).toList.takeWhile (· ≠ '@') = before := by
    intro p
    rw [hcs, takeWhile_past hb]
    simp
  have hdrop : ∀ p, (address scheme user p rest).toList.dropWhile (· ≠ '@') =
      '@' :: (behind ++ ':' :: (p.toList ++ '@' :: rest.toList)) := by
    intro p
    rw [hcs, dropWhile_past hb]
    simp
  by_cases hs : hasScheme (upToLastColon before).dropLast = true
  · refine ⟨upToLastColon before ++ mask ++ '@' :: (behind ++ [':']), fun p => ?_⟩
    rw [maskPassword]
    simp only [htake, hdrop, hs]
    simp
  · refine ⟨opening scheme user ++ [':'], fun p => ?_⟩
    rw [maskPassword]
    simp only [htake, hdrop]
    rw [if_neg fun hc => hs hc.2, ← String.ofList_toList (s := address scheme user p rest),
      toList_address]
    simp

theorem around_eq_iff (p p' : String) (rest : List Char) :
    ((Shown.around p).front ++ mask) ++ ((Shown.around p).back ++ '@' :: rest) =
      ((Shown.around p').front ++ mask) ++ ((Shown.around p').back ++ '@' :: rest) ↔
      Shown.around p = Shown.around p' := by
  have hfront : ∀ p : String, '@' ∉ (Shown.around p).front ++ mask := by
    intro p hmem
    rcases List.mem_append.mp hmem with hmem | hmem
    · exact not_mem_takeWhile _ ((upToLastColon_begins _).subset hmem)
    · exact absurd hmem (by decide)
  have hback : ∀ p : String, ((Shown.around p).back ++ '@' :: rest).takeWhile (· ≠ '@') = [] :=
    fun p => takeWhile_dropWhile_at p.toList rest
  rw [append_inj_at (hfront p) (hfront p') (hback p) (hback p'), List.append_left_inj,
    List.append_left_inj, Shown.around, Shown.around, Shown.mk.injEq]

/-- A password shows nothing where it has neither a colon nor an at sign. -/
theorem around_eq_nothing : Shown.around p = .nothing ↔ ':' ∉ p.toList ∧ '@' ∉ p.toList := by
  have hback : p.toList.dropWhile (· ≠ '@') = [] ↔ '@' ∉ p.toList := by
    rw [List.dropWhile_eq_nil_iff]
    simp only [decide_eq_true_eq]
    exact ⟨fun h hc => h '@' hc rfl, fun h c hc => ne_of_mem_of_not_mem hc h⟩
  rw [Shown.around, Shown.nothing, Shown.mk.injEq, upToLastColon_eq_nil, hback]
  refine and_congr_left fun hat => ?_
  have hwhole : p.toList.takeWhile (· ≠ '@') = p.toList := by
    simpa using takeWhile_past hat []
  rw [hwhole]

/-- Two addresses that differ in their passwords are masked alike exactly when the same of both
passwords shows. Of a password nothing shows exactly when there is none, or when no at sign comes
before it and it has neither a colon nor an at sign itself. -/
theorem masked_alike_iff (scheme user rest : String) :
    (∀ p p', maskPassword (address scheme user p rest) =
        maskPassword (address scheme user p' rest) ↔
      Shown.of scheme user p = Shown.of scheme user p') ∧
    ∀ p, Shown.of scheme user p = .nothing ↔
      p = "" ∨ ('@' ∉ scheme.toList ∧ '@' ∉ user.toList) ∧ ':' ∉ p.toList ∧ '@' ∉ p.toList := by
  rw [← not_or, ← mem_opening]
  by_cases h : '@' ∈ opening scheme user
  · have hof : ∀ p, Shown.of scheme user p = .all p := fun p => if_pos (mem_opening.mp h)
    simp only [hof, h, not_true_eq_false, false_and, or_false]
    obtain ⟨front, hfront⟩ := maskPassword_address_all h rest
    refine ⟨fun p p' => ?_, fun p => ?_⟩
    · rw [hfront, hfront, String.ofList_inj, List.append_right_inj, List.append_left_inj,
        Shown.all, Shown.all, Shown.mk.injEq, and_iff_left rfl]
    · simp [Shown.all, Shown.nothing]
  · have hof : ∀ p, Shown.of scheme user p = .around p :=
      fun p => if_neg fun hm => h (mem_opening.mpr hm)
    simp only [hof, h, not_false_eq_true, true_and]
    refine ⟨fun p p' => ?_, fun p => ?_⟩
    · rw [maskPassword_address h, maskPassword_address h, String.ofList_inj,
        List.append_right_inj, around_eq_iff]
    · rw [around_eq_nothing, or_iff_right_of_imp]
      rintro rfl
      simp

/-- A password with a colon shows up to it, and is told from one without. -/
theorem colon_shows :
    maskPassword (address "postgres" "user" "pa:ss" "localhost/db") =
        "postgres://user:pa:***@localhost/db" ∧
      maskPassword (address "postgres" "user" "pa:ss" "localhost/db") ≠
        maskPassword (address "postgres" "user" "secret" "localhost/db") := by
  decide

end Uplink.Store
