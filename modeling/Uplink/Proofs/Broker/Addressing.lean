import Uplink.Broker.Address
import Uplink.Proofs.Text.RoundTrip

namespace Uplink

namespace Text.Decimal

variable {limit acc n : Nat} {c : Char} {cs : List Char} {beyond : Fault}

/-- One or more digits, with a plus in front or without one, and the number they stand for. -/
inductive Numeral : List Char → Nat → Prop where
  | bare (ds : List Char) (nonempty : ds ≠ []) (digits : ∀ c ∈ ds, c.isDigit = true) :
    Numeral ds (value ds)
  | plus (ds : List Char) (nonempty : ds ≠ []) (digits : ∀ c ∈ ds, c.isDigit = true) :
    Numeral ('+' :: ds) (value ds)

/-- The number that digits stand for behind others. -/
def valueFrom (acc : Nat) (cs : List Char) : Nat :=
  cs.foldl (fun acc c => 10 * acc + (digitValue c).getD 0) acc

theorem le_valueFrom (acc : Nat) (cs : List Char) : acc ≤ valueFrom acc cs := by
  induction cs generalizing acc with
  | nil => exact Nat.le_refl _
  | cons c cs ih =>
    calc
      acc ≤ 10 * acc + (digitValue c).getD 0 := by omega
      _ ≤ valueFrom (10 * acc + (digitValue c).getD 0) cs := ih _

/-- The reader stops where the number passes the limit, and then it would never come back. -/
theorem readMagnitude_eq_ok_iff (ha : acc ≤ limit) :
    readMagnitude limit beyond acc cs = .ok n ↔
      (∀ c ∈ cs, c.isDigit = true) ∧ valueFrom acc cs = n ∧ n ≤ limit := by
  induction cs generalizing acc with
  | nil =>
    rw [readMagnitude, Except.ok.injEq]
    exact ⟨fun h => ⟨fun c hc => absurd hc List.not_mem_nil, h, h ▸ ha⟩, fun h => h.2.1⟩
  | cons c cs ih =>
    rw [readMagnitude, List.forall_mem_cons]
    by_cases hc : c.isDigit = true
    · obtain ⟨d, hd⟩ : ∃ d, digitValue c = some d := ⟨_, if_pos hc⟩
      have hfrom : valueFrom acc (c :: cs) = valueFrom (10 * acc + d) cs := by
        simp only [valueFrom, List.foldl_cons, hd, Option.getD_some]
      simp only [hd, hc, true_and, hfrom]
      split
      · next hl => exact ih hl
      · next hl =>
        refine iff_of_false (by simp) ?_
        intro h
        obtain ⟨-, rfl, hlimit⟩ := h
        exact hl (Nat.le_trans (le_valueFrom _ _) hlimit)
    · have hd : digitValue c = none := if_neg hc
      simp [hd, hc]

theorem readDigits_eq_ok_iff :
    readDigits limit beyond cs = .ok n ↔
      cs ≠ [] ∧ (∀ c ∈ cs, c.isDigit = true) ∧ value cs = n ∧ n ≤ limit := by
  cases cs with
  | nil => simp [readDigits]
  | cons c cs =>
    rw [readDigits, readMagnitude_eq_ok_iff (Nat.zero_le _)]
    simp only [ne_eq, reduceCtorEq, not_false_eq_true, true_and]
    rfl

/-- A number is read from its numerals, as long as it keeps to the limit. -/
theorem readNat_eq_ok_iff : readNat limit cs = .ok n ↔ Numeral cs n ∧ n ≤ limit := by
  unfold readNat
  split
  · refine iff_of_false (by simp) ?_
    intro h
    cases h.1 with
    | bare _ nonempty => exact nonempty rfl
  · next ds =>
    rw [readDigits_eq_ok_iff]
    constructor
    · intro h
      obtain ⟨nonempty, digits, rfl, hl⟩ := h
      exact ⟨.plus ds nonempty digits, hl⟩
    · intro h
      obtain ⟨hnumeral, hl⟩ := h
      cases hnumeral with
      | bare _ _ digits => cases digits '+' List.mem_cons_self
      | plus _ nonempty digits => exact ⟨nonempty, digits, rfl, hl⟩
  · next hne hplus =>
    rw [readDigits_eq_ok_iff]
    constructor
    · intro h
      obtain ⟨nonempty, digits, rfl, hl⟩ := h
      exact ⟨.bare cs nonempty digits, hl⟩
    · intro h
      obtain ⟨hnumeral, hl⟩ := h
      cases hnumeral with
      | bare _ nonempty digits => exact ⟨nonempty, digits, rfl, hl⟩
      | plus ds => exact absurd rfl (hplus ds)

/-- The digits that a number is written with are a numeral of it. -/
theorem numeral_digits (n : Nat) : Numeral (digits n) n := by
  have hread := readDigits_digits .tooLarge (Nat.le_refl n)
  obtain ⟨nonempty, hdigits, hvalue, -⟩ := readDigits_eq_ok_iff.mp hread
  have hnumeral := Numeral.bare (digits n) nonempty hdigits
  rwa [hvalue] at hnumeral

/-- Numerals are read, and what is read is one number. -/
theorem Numeral.unique {m : Nat} (h : Numeral cs n) (h' : Numeral cs m) : n = m := by
  have hn : readNat (max n m) cs = .ok n := readNat_eq_ok_iff.mpr ⟨h, Nat.le_max_left n m⟩
  have hm : readNat (max n m) cs = .ok m := readNat_eq_ok_iff.mpr ⟨h', Nat.le_max_right n m⟩
  exact Except.ok.inj (hn.symm.trans hm)

theorem Numeral.mem (h : Numeral cs n) (hc : c ∈ cs) : c = '+' ∨ c.isDigit = true := by
  cases h with
  | bare _ _ digits => exact .inr (digits c hc)
  | plus _ _ digits => exact (List.mem_cons.mp hc).imp_right (digits c)

end Text.Decimal

namespace Broker.Address

open Text Text.Decimal

variable {url : String} {scheme front cs rest rest' host port : List Char} {a : Address}
  {f : PublishError}

/-- What is left of a text when a scheme is taken off as often as it stands in front. -/
def Strips (scheme cs rest : List Char) : Prop :=
  (∃ n, cs = (List.replicate n scheme).flatten ++ rest) ∧ ¬scheme <+: rest

/-- What is left of a text when first the one scheme and then the other is taken off. -/
def Bare (cs rest : List Char) : Prop :=
  ∃ middle, Strips "mqtt://".toList cs middle ∧ Strips "tcp://".toList middle rest

theorem flatten_replicate_succ (n : Nat) (scheme rest : List Char) :
    (List.replicate (n + 1) scheme).flatten ++ rest =
      scheme ++ ((List.replicate n scheme).flatten ++ rest) := by
  rw [List.replicate_succ, List.flatten_cons, List.append_assoc]

theorem Strips.replicate (h : ¬scheme <+: cs) (n : Nat) :
    Strips scheme ((List.replicate n scheme).flatten ++ cs) cs :=
  ⟨⟨n, rfl⟩, h⟩

theorem Strips.cons (h : Strips scheme cs rest) : Strips scheme (scheme ++ cs) rest := by
  obtain ⟨⟨n, rfl⟩, hrest⟩ := h
  exact ⟨⟨n + 1, (flatten_replicate_succ n scheme rest).symm⟩, hrest⟩

theorem Strips.unique (h : Strips scheme cs rest) (h' : Strips scheme cs rest') : rest = rest' := by
  obtain ⟨⟨n, rfl⟩, hrest⟩ := h
  obtain ⟨⟨m, heq⟩, hrest'⟩ := h'
  induction n generalizing m with
  | zero =>
    cases m with
    | zero => exact heq
    | succ m =>
      rw [flatten_replicate_succ] at heq
      exact absurd ⟨_, heq.symm⟩ hrest
  | succ n ih =>
    rw [flatten_replicate_succ] at heq
    cases m with
    | zero => exact absurd ⟨_, heq⟩ hrest'
    | succ m =>
      rw [flatten_replicate_succ] at heq
      exact ih m (List.append_cancel_left heq)

theorem dropFront?_eq_some_iff : dropFront? front cs = some rest ↔ cs = front ++ rest := by
  induction front generalizing cs with
  | nil => simp [dropFront?]
  | cons p ps ih =>
    cases cs with
    | nil => simp [dropFront?]
    | cons c cs =>
      rw [dropFront?, List.cons_append, List.cons.injEq]
      split
      · next hc => rw [ih, and_iff_right hc.symm]
      · next hc => exact iff_of_false (by simp) fun h => hc h.1.symm

theorem dropFronts_strips (p : Char) (ps cs : List Char) :
    Strips (p :: ps) cs (dropFronts p ps cs) := by
  fun_induction dropFronts p ps cs with
  | case1 cs rest h ih =>
    rw [dropFront?_eq_some_iff.mp h]
    exact ih.cons
  | case2 cs h =>
    refine .replicate ?_ 0
    intro hprefix
    obtain ⟨rest, hrest⟩ := hprefix
    rw [dropFront?_eq_some_iff.mpr hrest.symm] at h
    cases h

/-- There is one text that is left. -/
theorem bare_iff : Bare cs rest ↔ rest = bare cs := by
  have hfirst := dropFronts_strips 'm' ['q', 't', 't', ':', '/', '/'] cs
  have hsecond := dropFronts_strips 't' ['c', 'p', ':', '/', '/']
    (dropFronts 'm' ['q', 't', 't', ':', '/', '/'] cs)
  constructor
  · intro h
    obtain ⟨middle, hm, hr⟩ := h
    obtain rfl := hm.unique hfirst
    exact hr.unique hsecond
  · intro h
    rw [h]
    exact ⟨_, hfirst, hsecond⟩

/-- The addresses that a text without schemes stands for. -/
inductive Spells : List Char → Address → Prop where
  | host (host : List Char) (nonempty : host ≠ []) (colonFree : ':' ∉ host) :
    Spells host ⟨String.ofList host, 1883⟩
  | port (host port : List Char) (n : Nat) (nonempty : host ≠ []) (colonFree : ':' ∉ host)
    (numeral : Numeral port n) (bound : n ≤ 65535) :
    Spells (host ++ ':' :: port) ⟨String.ofList host, n⟩

/-- A host and something behind the only colon. -/
def HasPort (cs : List Char) : Prop :=
  ∃ host port, host ≠ [] ∧ ':' ∉ host ∧ ':' ∉ port ∧ cs = host ++ ':' :: port

/-- How colons part a text. -/
inductive Parted : List Char → List (List Char) → Prop where
  | whole (cs : List Char) (colonFree : ':' ∉ cs) : Parted cs [cs]
  | pair (front back : List Char) (colonFree : ':' ∉ front) (only : ':' ∉ back) :
    Parted (front ++ ':' :: back) [front, back]
  | more (front middle back : List Char) (pieces : List (List Char)) (colonFree : ':' ∉ front)
    (nonempty : pieces ≠ []) :
    Parted (front ++ ':' :: (middle ++ ':' :: back)) (front :: middle :: pieces)

theorem parts_of_colonFree (h : ':' ∉ cs) : parts cs = [cs] := List.splitOn_eq_singleton h

theorem parts_append (h : ':' ∉ host) (cs : List Char) :
    parts (host ++ ':' :: cs) = host :: parts cs :=
  List.splitOn_append_cons_self_of_not_mem h cs

theorem parts_parted (cs : List Char) : Parted cs (parts cs) := by
  by_cases hc : ':' ∈ cs
  · obtain ⟨front, back, rfl, hfront⟩ := List.eq_append_cons_of_mem hc
    rw [parts_append hfront]
    by_cases hb : ':' ∈ back
    · obtain ⟨middle, back, rfl, hmiddle⟩ := List.eq_append_cons_of_mem hb
      rw [parts_append hmiddle]
      exact .more front middle back _ hfront (List.splitOn_ne_nil _ _)
    · rw [parts_of_colonFree hb]
      exact .pair front back hfront hb
  · rw [parts_of_colonFree hc]
    exact .whole cs hc

/-- A text is parted at its first colon in one way. -/
theorem eq_of_colon {back : List Char} (hf : ':' ∉ front) (hh : ':' ∉ host)
    (h : front ++ ':' :: back = host ++ ':' :: port) : front = host ∧ back = port := by
  have hparts := congrArg parts h
  rw [parts_append hf, parts_append hh] at hparts
  obtain rfl := (List.cons.inj hparts).1
  exact ⟨rfl, (List.cons.inj (List.append_cancel_left h)).2⟩

theorem colon_mem (front back : List Char) : ':' ∈ front ++ ':' :: back := by simp

/-- Without a colon there is a host only. -/
theorem Spells.of_colonFree (h : Spells cs a) (hc : ':' ∉ cs) :
    cs ≠ [] ∧ a = ⟨String.ofList cs, 1883⟩ := by
  cases h with
  | host _ nonempty => exact ⟨nonempty, rfl⟩
  | port host port => exact absurd (colon_mem host port) hc

/-- The first colon ends the host, and a port must stand behind it. -/
theorem Spells.of_colon (h : Spells (host ++ ':' :: port) a) (hh : ':' ∉ host) :
    host ≠ [] ∧ ∃ n, Numeral port n ∧ n ≤ 65535 ∧ a = ⟨String.ofList host, n⟩ := by
  generalize hcs : host ++ ':' :: port = cs at h
  cases h with
  | host _ _ colonFree => exact absurd (hcs ▸ colon_mem host port) colonFree
  | port _ _ n nonempty colonFree numeral bound =>
    obtain ⟨rfl, rfl⟩ := eq_of_colon hh colonFree hcs
    exact ⟨nonempty, n, numeral, bound, rfl⟩

theorem Spells.unique {b : Address} (h : Spells cs a) (h' : Spells cs b) : b = a := by
  cases h with
  | host _ _ colonFree => exact (h'.of_colonFree colonFree).2
  | port host port n _ colonFree numeral =>
    obtain ⟨-, m, numeral', -, rfl⟩ := h'.of_colon colonFree
    rw [numeral.unique numeral']

theorem HasPort.of_colon (h : HasPort (host ++ ':' :: port)) (hh : ':' ∉ host) :
    host ≠ [] ∧ ':' ∉ port := by
  obtain ⟨front, back, nonempty, colonFree, only, heq⟩ := h
  obtain ⟨rfl, rfl⟩ := eq_of_colon hh colonFree heq
  exact ⟨nonempty, only⟩

/-- What reading a text comes to, when this is left of it. -/
inductive Reading (url : String) (cs : List Char) : Except PublishError Address → Prop where
  | spelled (a : Address) (spells : Spells cs a) : Reading url cs (.ok a)
  | badPort (none : ∀ a, ¬Spells cs a) (hasPort : HasPort cs) :
    Reading url cs (.error (.invalidUrl ("invalid port in '" ++ url ++ "'")))
  | refused (none : ∀ a, ¬Spells cs a) (noPort : ¬HasPort cs) :
    Reading url cs (.error (.invalidUrl url))

theorem parse_reading (url : String) : Reading url (bare url.toList) (parse url) := by
  have hparted := parts_parted (bare url.toList)
  unfold parse
  generalize bare url.toList = cs at hparted
  generalize parts cs = pieces at hparted
  cases hparted with
  | whole _ colonFree =>
    dsimp only
    split
    · next hempty =>
      refine .refused (fun a h => (h.of_colonFree colonFree).1 hempty) ?_
      intro h
      obtain ⟨host, port, -, -, -, rfl⟩ := h
      exact colonFree (colon_mem host port)
    · next nonempty => exact .spelled _ (.host cs nonempty colonFree)
  | pair host port colonFree only =>
    dsimp only
    split
    · next hempty =>
      exact .refused (fun a h => (h.of_colon colonFree).1 hempty)
        fun h => (h.of_colon colonFree).1 hempty
    · next nonempty =>
      split
      · next n hread =>
        obtain ⟨numeral, bound⟩ := readNat_eq_ok_iff.mp hread
        exact .spelled _ (.port host port n nonempty colonFree numeral bound)
      · next hread =>
        refine .badPort (fun a h => ?_) ⟨host, port, nonempty, colonFree, only, rfl⟩
        obtain ⟨-, n, numeral, bound, -⟩ := h.of_colon colonFree
        have hok : readNat portMax port = .ok n := readNat_eq_ok_iff.mpr ⟨numeral, bound⟩
        rw [hok] at hread
        cases hread
  | more front middle back pieces colonFree nonempty =>
    obtain ⟨piece, pieces, rfl⟩ := List.exists_cons_of_ne_nil nonempty
    refine .refused (fun a h => ?_) fun h => (h.of_colon colonFree).2 (colon_mem middle back)
    obtain ⟨-, n, numeral, -, -⟩ := h.of_colon colonFree
    exact (numeral.mem (colon_mem middle back)).elim (by decide) (by decide)

theorem parse_eq_ok_iff : parse url = .ok a ↔ Spells (bare url.toList) a := by
  have hreading := parse_reading url
  generalize parse url = result at hreading
  cases hreading with
  | spelled b spells =>
    rw [Except.ok.injEq]
    exact ⟨fun h => h ▸ spells, fun h => h.unique spells⟩
  | badPort none | refused none => exact iff_of_false (by simp) (none a)

theorem parse_eq_error_iff : parse url = .error f ↔
    (∀ a, ¬Spells (bare url.toList) a) ∧
      (HasPort (bare url.toList) ∧ f = .invalidUrl ("invalid port in '" ++ url ++ "'") ∨
        ¬HasPort (bare url.toList) ∧ f = .invalidUrl url) := by
  have hreading := parse_reading url
  generalize parse url = result at hreading
  cases hreading with
  | spelled b spells => exact iff_of_false (by simp) fun h => h.1 b spells
  | badPort none hasPort => simp [none, hasPort, eq_comm]
  | refused none noPort => simp [none, noPort, eq_comm]

/-- What is read as an address has no scheme in front: no port begins with a slash. -/
theorem Spells.no_scheme {name : List Char} (h : Spells cs a) (hn : ':' ∉ name) :
    ¬name ++ "://".toList <+: cs := by
  intro hprefix
  obtain ⟨rest, rfl⟩ := hprefix
  rw [List.append_assoc] at h
  obtain ⟨-, n, numeral, -, -⟩ := h.of_colon hn
  exact (numeral.mem List.mem_cons_self).elim (by decide) (by decide)

/-- An address is read behind any number of schemes, as long as they stand in order. -/
theorem parse_of_spells (h : Spells cs a) (m n : Nat)
    (hurl : url.toList = (List.replicate m "mqtt://".toList).flatten ++
      ((List.replicate n "tcp://".toList).flatten ++ cs)) : parse url = .ok a := by
  have hinner : ¬"mqtt://".toList <+: (List.replicate n "tcp://".toList).flatten ++ cs := by
    cases n with
    | zero =>
      have colonFree : ':' ∉ "mqtt".toList := by decide
      exact h.no_scheme colonFree
    | succ n =>
      intro hprefix
      obtain ⟨rest, hrest⟩ := hprefix
      cases hrest
  have houter : ':' ∉ "tcp".toList := by decide
  have hbare : Bare url.toList cs := by
    rw [hurl]
    exact ⟨_, .replicate hinner m, .replicate (h.no_scheme houter) n⟩
  rw [parse_eq_ok_iff, ← bare_iff.mp hbare]
  exact h

theorem parse_behind_scheme {scheme text : String} (hs : scheme ∈ ["", "mqtt://", "tcp://"])
    (h : Spells text.toList a) : parse (scheme ++ text) = .ok a := by
  simp only [List.mem_cons, List.not_mem_nil, or_false] at hs
  rcases hs with rfl | rfl | rfl
  · exact parse_of_spells h 0 0 (by simp)
  · exact parse_of_spells h 1 0 (by simp)
  · exact parse_of_spells h 0 1 (by simp)

/-- The addresses of brokers are read from just the texts of their grammar, behind all the schemes
that are in front. An address that is written, with a scheme or without one, is read back. -/
theorem address_grammar :
    (∀ url : String, ∃ cs, (∀ rest, Bare url.toList rest ↔ rest = cs) ∧
      (∀ a, parse url = .ok a ↔ Spells cs a) ∧
      ∀ f, parse url = .error f ↔ (∀ a, ¬Spells cs a) ∧
        (HasPort cs ∧ f = .invalidUrl ("invalid port in '" ++ url ++ "'") ∨
          ¬HasPort cs ∧ f = .invalidUrl url)) ∧
      ∀ scheme ∈ ["", "mqtt://", "tcp://"], ∀ host : String, host ≠ "" → ':' ∉ host.toList →
        (∀ port : UInt16, parse (scheme ++ (host ++ ":" ++ String.ofList (digits port.toNat))) =
          .ok ⟨host, port.toNat⟩) ∧
        parse (scheme ++ host) = .ok ⟨host, 1883⟩ := by
  refine ⟨fun url => ⟨bare url.toList, fun _ => bare_iff, fun _ => parse_eq_ok_iff,
    fun _ => parse_eq_error_iff⟩, fun scheme hs host hne colonFree => ?_⟩
  have nonempty : host.toList ≠ [] := fun h => hne (String.toList_eq_nil_iff.mp h)
  refine ⟨fun port => parse_behind_scheme hs ?_, parse_behind_scheme hs ?_⟩
  · have bound : port.toNat ≤ 65535 := Nat.le_of_lt_succ port.toNat_lt
    have hspells := Spells.port host.toList _ _ nonempty colonFree (numeral_digits port.toNat) bound
    rw [String.ofList_toList] at hspells
    simpa using hspells
  · have hspells := Spells.host host.toList nonempty colonFree
    rwa [String.ofList_toList] at hspells

/-- A port may have a plus and zeros in front of it. -/
example : parse "mqtt://mqtt://tcp://broker:+0443" = .ok ⟨"broker", 443⟩ := by cbv

end Broker.Address

end Uplink
