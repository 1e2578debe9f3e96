import Uplink.Proofs.Registry.Attendance
import Uplink.Proofs.Registry.Origin
import Uplink.Store.Source

namespace Uplink.Registry

open Integration Store Time

/-- What is done with a registry or with the store behind it. -/
inductive Operation where
  | resolve (application : Int64)
  | invalidate (application : Int64)
  | invalidateAll
  | close
  | pass (time : Duration)
  | store (row : Store.Integration)
  | remove (application : Int64) (kind : String)
  /-- From now on lookups fail for this reason, or do not fail any more. -/
  | outage (reason : Option String)

/-- What comes of it: a resolution tells its result and how many lookups it made. -/
inductive Reply where
  | resolved (result : Resolved) (lookups : Nat)
  | dropped (present : Bool)
  | done

structure TimedCache where
  ttl : Option Duration
  now : Duration
  closed : Bool
  items : Std.HashMap Int64 Entry
  /-- How many entries and how many webhooks there were so far. -/
  entries : Nat
  hooks : Nat
  source : Source
  outage : Option String

namespace TimedCache

def new (ttl : Option Duration) (source : Source) : TimedCache where
  ttl := ttl
  now := ⟨0⟩
  closed := false
  items := ∅
  entries := 0
  hooks := 0
  source := source
  outage := none

/-- An entry is good while its age is below the time to live, or for ever. -/
def isGood (c : TimedCache) (e : Entry) : Bool :=
  match c.ttl with
  | none => true
  | some ttl => c.now.nanos - e.loadedAt.nanos < ttl.nanos

/-- What rows build at the moment. -/
def build (c : TimedCache) (rows : List Store.Integration) : Entry :=
  ⟨c.entries, (buildAll c.hooks rows).1, (buildAll c.hooks rows).2, c.now⟩

/-- Looks an application up. A lookup that fails leaves nothing of it. -/
def fetch (c : TimedCache) (a : Int64) : TimedCache × Resolved :=
  match c.outage with
  | some reason =>
    ({ c with items := c.items.erase a }, .error (.storage (.unavailable reason)))
  | none =>
    let e := c.build (c.source.list a)
    ({ c with
        items := c.items.insert a e
        entries := c.entries + 1
        hooks := c.hooks + e.hooks.length },
      .ok e)

def resolve (c : TimedCache) (a : Int64) : TimedCache × Reply :=
  if c.closed then (c, .resolved (.error .closed) 0)
  else
    match c.items[a]?.filter c.isGood with
    | some e => (c, .resolved (.ok e) 0)
    | none =>
      let (c, result) := c.fetch a
      (c, .resolved result 1)

def operate (c : TimedCache) : Operation → TimedCache × Reply
  | .resolve a => c.resolve a
  | .invalidate a => ({ c with items := c.items.erase a }, .dropped (c.items.contains a))
  | .invalidateAll => ({ c with items := ∅ }, .done)
  | .close => ({ c with items := ∅, closed := true }, .done)
  | .pass time => ({ c with now := c.now + time }, .done)
  | .store row => ({ c with source := c.source.upsert row }, .done)
  | .remove a kind => ({ c with source := (c.source.remove a kind).1 }, .done)
  | .outage reason => ({ c with outage := reason }, .done)

/-- Does one thing after the other. -/
def run (c : TimedCache) : List Operation → TimedCache × List Reply
  | [] => (c, [])
  | op :: ops =>
    let (c, reply) := c.operate op
    let (c, replies) := c.run ops
    (c, reply :: replies)

theorem resolve_closed {c : TimedCache} (hc : c.closed = true) (a : Int64) :
    c.resolve a = (c, .resolved (.error .closed) 0) := by
  simp only [resolve, hc, ↓reduceIte]

theorem resolve_good {c : TimedCache} {a : Int64} {e : Entry} (ho : c.closed = false)
    (hg : c.items[a]?.filter c.isGood = some e) : c.resolve a = (c, .resolved (.ok e) 0) := by
  simp only [resolve, ho, Bool.false_eq_true, ↓reduceIte, hg]

theorem resolve_unavailable {c : TimedCache} {a : Int64} {reason : String} (ho : c.closed = false)
    (hn : c.items[a]?.filter c.isGood = none) (hout : c.outage = some reason) :
    c.resolve a =
      ({ c with items := c.items.erase a },
        .resolved (.error (.storage (.unavailable reason))) 1) := by
  simp only [resolve, ho, Bool.false_eq_true, ↓reduceIte, hn, fetch, hout]

theorem resolve_available {c : TimedCache} {a : Int64} (ho : c.closed = false)
    (hn : c.items[a]?.filter c.isGood = none) (hout : c.outage = none) :
    c.resolve a =
      ({ c with
          items := c.items.insert a (c.build (c.source.list a))
          entries := c.entries + 1
          hooks := c.hooks + (c.build (c.source.list a)).hooks.length },
        .resolved (.ok (c.build (c.source.list a))) 1) := by
  simp only [resolve, ho, Bool.false_eq_true, ↓reduceIte, hn, fetch, hout]

end TimedCache

variable {r : Registry} {c : TimedCache} {a b : Int64} {k n : Nat} {e : Entry}
  {rows : List Store.Integration}

/-- The entry of an application in the cache. -/
def cachedEntry? (r : Registry) (a : Int64) : Option Entry :=
  (r.cache.lookup a).bind fun n => (r.slotAt n).entry

/-- The registry has nothing in flight, and in its cache is what is in the map. -/
structure Mirrors (c : TimedCache) (r : Registry) : Prop where
  ttl : r.ttl = c.ttl
  now : r.now = c.now
  closed : r.closed = c.closed
  idle : r.calls = []
  once : (r.cache.map Prod.fst).Nodup
  held : ∀ a n, (a, n) ∈ r.cache → ∃ e, (r.slotAt n).entry = some e ∧ c.items[a]? = some e
  absent : ∀ a, (∀ n, (a, n) ∉ r.cache) → c.items[a]? = none
  entries : r.entries = c.entries
  hooks : r.hooks = c.hooks
  aged : ∀ (a : Int64) (e : Entry), c.items[a]? = some e → e.loadedAt ≤ c.now
  emptied : r.closed = true → r.cache = []

theorem Mirrors.keyed (h : Mirrors c r) : Keyed r := by
  intro a m n hm hn
  cases List.inj_on_of_nodup_map h.once hm hn rfl
  rfl

theorem Mirrors.lookup (h : Mirrors c r) (a : Int64) : r.cachedEntry? a = c.items[a]? := by
  unfold cachedEntry?
  cases hl : r.cache.lookup a with
  | none => exact (h.absent a fun n => not_cached_of_lookup hl).symm
  | some n =>
    obtain ⟨e, he, hi⟩ := h.held a n (mem_of_lookup hl)
    rw [Option.bind_some, he, hi]

theorem Mirrors.mem_items (h : Mirrors c r) : a ∈ c.items ↔ a ∈ r.cache.map Prod.fst := by
  constructor
  · intro hm
    by_contra hn
    have hnone := h.absent a fun n hc => hn (List.mem_map_of_mem hc)
    simp [hm] at hnone
  · intro hm
    obtain ⟨⟨a, n⟩, hc, rfl⟩ := List.mem_map.mp hm
    obtain ⟨e, -, hi⟩ := h.held a n hc
    exact Std.HashMap.mem_iff_isSome_getElem?.mpr (by simp [hi])

theorem Mirrors.size (h : Mirrors c r) : r.cachedApplications = c.items.size := by
  have hperm : c.items.keys.Perm (r.cache.map Prod.fst) :=
    (List.perm_ext_iff_of_nodup Std.HashMap.nodup_keys h.once).mpr fun a => by
      rw [Std.HashMap.mem_keys, h.mem_items]
  rw [cachedApplications, ← Std.HashMap.length_keys, hperm.length_eq, List.length_map]

/-- An entry has expired when its age has come up to the time to live. -/
theorem Mirrors.isExpired_eq (h : Mirrors c r) (hi : c.items[a]? = some e) :
    isExpired r.ttl r.now e = !c.isGood e := by
  have hage : e.loadedAt.nanos ≤ c.now.nanos := h.aged a e hi
  rw [h.ttl, h.now]
  unfold isExpired TimedCache.isGood
  cases c.ttl with
  | none => rfl
  | some ttl =>
    have hiff : e.loadedAt + ttl ≤ c.now ↔ ¬c.now.nanos - e.loadedAt.nanos < ttl.nanos := by
      change e.loadedAt.nanos + ttl.nanos ≤ c.now.nanos ↔ _
      omega
    simp only [hiff, decide_not]

/-- The registry in which nothing is known of an application but that its lookup is out. -/
def asking (r : Registry) (k : Nat) (a : Int64) : Registry :=
  { r with
    cache := r.cache.filter (·.1 != a) ++ [(a, r.slots.length)]
    slots := r.slots ++ [⟨none, some k, []⟩]
    calls := [⟨k, a, r.slots.length, true⟩]
    stats := { r.stats with loads := r.stats.loads + 1 } }

/-- Of an application that is not cached there is nothing to take out. -/
theorem filter_of_absent (h : ∀ n, (a, n) ∉ r.cache) : r.cache.filter (·.1 != a) = r.cache := by
  refine List.filter_eq_self.mpr fun x hx => ?_
  rw [bne_iff_ne]
  rintro rfl
  exact h x.2 hx

/-- How a call begins, as the map has it. -/
inductive Begins (c : TimedCache) (r : Registry) (k : Nat) (a : Int64) : Outcome → Prop where
  | refused (closed : c.closed = true) : Begins c r k a (r, [.returned k (.error .closed)])
  | hit (e : Entry) (isOpen : c.closed = false) (good : c.items[a]?.filter c.isGood = some e) :
      Begins c r k a ({ r with stats := { r.stats with hits := r.stats.hits + 1 } },
        [.counted .hit, .returned k (.ok e)])
  | asking (isOpen : c.closed = false) (missed : c.items[a]?.filter c.isGood = none) :
      Begins c r k a (r.asking k a, [.counted .miss, .asked k a])

/-- Taking the slot of an application out of the cache takes out all that is known of it. -/
theorem retire_eq_filter (h : Keyed r) (hm : (a, n) ∈ r.cache) :
    r.retire a n = { r with cache := r.cache.filter (·.1 != a) } := by
  unfold retire
  congr 1
  refine List.filter_congr fun x hx => ?_
  obtain ⟨b, m⟩ := x
  by_cases hba : b = a
  · subst hba
    simp [h b m n hx hm]
  · have hne : (b == a) = false := beq_false_of_ne hba
    simp [hne, bne]

theorem enter_grown (hidle : r.calls = []) (k : Nat) (a : Int64) :
    enter (r.grown a) k a r.slots.length =
      ({ r with
          cache := r.cache ++ [(a, r.slots.length)]
          slots := r.slots ++ [⟨none, some k, []⟩]
          calls := [⟨k, a, r.slots.length, true⟩]
          stats := { r.stats with loads := r.stats.loads + 1 } },
        [.counted .miss, .asked k a]) := by
  have hfresh : (r.grown a).slotAt r.slots.length = .fresh := by
    rw [grown_slotAt, slotAt_of_length_le (Nat.le_refl _)]
  rw [enter_of_free (by rw [hfresh]; rfl), hfresh]
  simp [load, setSlot, grown, hidle, Slot.fresh]

theorem Mirrors.begin (h : Mirrors c r) (k : Nat) (a : Int64) :
    Begins c r k a (begin r k a) := by
  have hb := begin_began h.keyed k a
  generalize Registry.begin r k a = x at hb ⊢
  cases hb with
  | refused hc => exact .refused (h.closed ▸ hc)
  | found n e ho hm he hg =>
    obtain ⟨e', he', hi⟩ := h.held a n hm
    cases he.symm.trans he'
    rw [h.isExpired_eq hi, Bool.not_eq_false'] at hg
    exact .hit e (h.closed ▸ ho) (by simp [hi, hg])
  | joined n _ hm he =>
    -- with nothing in flight every slot in the cache is filled
    obtain ⟨e, he', -⟩ := h.held a n hm
    cases he.symm.trans he'
  | opened q ho hc habs =>
    have hopen : c.closed = false := h.closed ▸ ho
    rcases hc with rfl | ⟨n, e, hm, he, hx, rfl⟩
    · have hnone : c.items[a]?.filter c.isGood = none := by rw [h.absent a habs]; rfl
      have hasking := Begins.asking (r := q) (k := k) hopen hnone
      rw [Registry.asking, filter_of_absent habs] at hasking
      rw [enter_grown h.idle]
      exact hasking
    · obtain ⟨e', he', hi⟩ := h.held a n hm
      cases he.symm.trans he'
      rw [h.isExpired_eq hi, Bool.not_eq_true'] at hx
      have hask := enter_grown (r := r.retire a n) h.idle k a
      rw [retire_eq_filter h.keyed hm] at hask ⊢
      rw [hask]
      exact .asking hopen (by simp [hi, hx])

/-- The lookup finds rows, and the entry that they build fills the slot. -/
theorem answer_asking_ok (ho : r.closed = false) (k : Nat) (a : Int64)
    (rows : List Store.Integration) :
    answer (r.asking k a) k (.ok rows) =
      ({ r with
          cache := r.cache.filter (·.1 != a) ++ [(a, r.slots.length)]
          slots := r.slots ++ [⟨some (r.entryOf rows), none, []⟩]
          calls := []
          entries := r.entries + 1
          hooks := r.hooks + (r.entryOf rows).hooks.length
          stats := { r.stats with
            loads := r.stats.loads + 1
            integrationErrors := r.stats.integrationErrors + (r.entryOf rows).failures.length } },
        r.fillCounts rows ++ [.loaded k (r.entryOf rows),
          .counted (.cached ((r.cache.filter (·.1 != a)).length + 1)),
          .returned k (.ok (r.entryOf rows))]) := by
  have hcall : (r.asking k a).call? k = some ⟨k, a, r.slots.length, true⟩ := by
    simp [call?, asking]
  have hslot : (r.asking k a).slotAt r.slots.length = ⟨none, some k, []⟩ := by
    simp [slotAt, asking]
  have hentry : (r.asking k a).entryOf rows = r.entryOf rows := rfl
  have hcounts : (r.asking k a).fillCounts rows = r.fillCounts rows := rfl
  simp only [answer, hcall, if_true, fill_eq, hentry, hcounts, filledSlot, hslot, settle]
  simp [asking, setSlot, dropCall, ho, cachedApplications, entryOf]

/-- What is said around a lookup that finds rows asks once and returns once. -/
theorem found_said (r : Registry) (k : Nat) (a : Int64) (rows : List Store.Integration) (e : Entry)
    (n : Nat) :
    let outs := [.counted .miss, .asked k a] ++ (r.fillCounts rows ++
      [.loaded k e, .counted (.cached n), .returned k (.ok e)])
    asks outs = [k] ∧ returns outs = [k] := by
  intro outs
  obtain ⟨hasks, hreturns, -⟩ := fillCounts_quiet r rows
  refine ⟨?_, ?_⟩
  · rw [asks_append, asks_append, hasks]
    rfl
  · rw [returns_append, returns_append, hreturns]
    rfl

/-- The lookup fails, and nothing is known of the application any more. -/
theorem answer_asking_error (r : Registry) (k : Nat) (a : Int64) (x : StorageError) :
    answer (r.asking k a) k (.error x) =
      ({ r with
          cache := r.cache.filter (·.1 != a)
          slots := r.slots ++ [.fresh]
          calls := []
          stats := { r.stats with
            loads := r.stats.loads + 1
            loadFailures := r.stats.loadFailures + 1 } },
        [.counted (.loaded false), .returned k (.error (.storage x))]) := by
  have hcall : (r.asking k a).call? k = some ⟨k, a, r.slots.length, true⟩ := by
    simp [call?, asking]
  have hslot : (r.asking k a).slotAt r.slots.length = ⟨none, some k, []⟩ := by
    simp [slotAt, asking]
  have hretire : ∀ s, ((r.asking k a).setSlot r.slots.length s).retire a r.slots.length =
      { r.asking k a with cache := r.cache.filter (·.1 != a) }.setSlot r.slots.length s := by
    intro s
    simp only [retire, setSlot, asking, List.filter_append, List.filter_filter, List.filter_cons,
      BEq.rfl, Bool.and_self, Bool.not_true, Bool.false_eq_true, ↓reduceIte, List.filter_nil,
      List.append_nil]
    congr 2
    funext x
    cases hx : x.1 == a <;> simp [bne, hx]
  simp only [answer, hcall, if_true, fail, hslot, hretire]
  simp [asking, setSlot, dropCall, Slot.fresh]

/-- A new slot leaves the others as they are. -/
theorem getD_snoc (slots : List Slot) (s : Slot) (n : Nat) :
    (slots ++ [s]).getD n .fresh =
      if n = slots.length then s else slots.getD n .fresh := by
  rcases Nat.lt_trichotomy n slots.length with hn | rfl | hn
  · simp [List.getD_eq_getElem?_getD, List.getElem?_append_left hn, Nat.ne_of_lt hn]
  · simp
  · have hout : (slots ++ [s])[n]? = none := List.getElem?_eq_none (by simp; omega)
    have hout' : slots[n]? = none := List.getElem?_eq_none (by omega)
    simp [List.getD_eq_getElem?_getD, hout, hout', Nat.ne_of_gt hn]

theorem getD_snoc_fresh (slots : List Slot) (n : Nat) :
    (slots ++ [Slot.fresh]).getD n .fresh = slots.getD n .fresh := by
  rw [getD_snoc]
  split
  · rename_i hn
    simp [hn]
  · rfl

theorem lt_of_entry (he : (r.slotAt n).entry = some e) : n < r.slots.length := by
  by_contra hn
  rw [slotAt_of_length_le (Nat.le_of_not_lt hn)] at he
  cases he

theorem mem_filter_ne : (b, n) ∈ r.cache.filter (·.1 != a) ↔ (b, n) ∈ r.cache ∧ b ≠ a := by
  simp [List.mem_filter]

theorem once_filter (h : (r.cache.map Prod.fst).Nodup) (a : Int64) :
    ((r.cache.filter (·.1 != a)).map Prod.fst).Nodup :=
  h.sublist (List.filter_sublist.map Prod.fst)

/-- The registry drops what it has of an application; a slot may have been made for it. -/
theorem Mirrors.dropped (h : Mirrors c r) (a : Int64) (slots : List Slot)
    (hslots : ∀ n, slots.getD n .fresh = r.slotAt n) (stats : Stats) :
    Mirrors { c with items := c.items.erase a }
      { r with cache := r.cache.filter (·.1 != a), slots, calls := [], stats } where
  ttl := h.ttl
  now := h.now
  closed := h.closed
  idle := rfl
  once := once_filter h.once a
  held b n hb := by
    obtain ⟨hb, hne⟩ := mem_filter_ne.mp hb
    obtain ⟨e, he, hi⟩ := h.held b n hb
    rw [Std.HashMap.getElem?_erase, if_neg (by simpa using Ne.symm hne), slotAt, hslots]
    exact ⟨e, he, hi⟩
  absent b hb := by
    rw [Std.HashMap.getElem?_erase]
    split
    · rfl
    · rename_i hne
      refine h.absent b fun n hn => hb n (mem_filter_ne.mpr ⟨hn, fun he => hne (by simp [he])⟩)
  entries := h.entries
  hooks := h.hooks
  aged b e he := by
    rw [Std.HashMap.getElem?_erase] at he
    split at he
    · cases he
    · exact h.aged b e he
  emptied hc := by
    change r.cache.filter (·.1 != a) = []
    rw [h.emptied hc]
    rfl

/-- The registry takes in the entry of an application, in a new slot. -/
theorem Mirrors.taken (h : Mirrors c r) (ho : c.closed = false) (a : Int64) (e : Entry)
    (hage : e.loadedAt = c.now) (stats : Stats) :
    Mirrors
      { c with
        items := c.items.insert a e
        entries := c.entries + 1
        hooks := c.hooks + e.hooks.length }
      { r with
        cache := r.cache.filter (·.1 != a) ++ [(a, r.slots.length)]
        slots := r.slots ++ [⟨some e, none, []⟩]
        calls := []
        entries := r.entries + 1
        hooks := r.hooks + e.hooks.length
        stats } where
  ttl := h.ttl
  now := h.now
  closed := h.closed
  idle := rfl
  once := by
    rw [List.map_append, List.nodup_append]
    refine ⟨once_filter h.once a, List.nodup_singleton a, ?_⟩
    intro b hb x hx
    obtain ⟨⟨b, n⟩, hm, rfl⟩ := List.mem_map.mp hb
    rw [List.mem_singleton.mp hx]
    exact (mem_filter_ne.mp hm).2
  held b n hb := by
    rw [slotAt, getD_snoc, Std.HashMap.getElem?_insert]
    rcases List.mem_append.mp hb with hb | hb
    · obtain ⟨hb, hne⟩ := mem_filter_ne.mp hb
      obtain ⟨e', he, hi⟩ := h.held b n hb
      rw [if_neg (Nat.ne_of_lt (lt_of_entry he)), if_neg (by simpa using Ne.symm hne)]
      exact ⟨e', he, hi⟩
    · rw [List.mem_singleton, Prod.mk.injEq] at hb
      rw [if_pos hb.2, if_pos (by simp [hb.1])]
      exact ⟨e, rfl, rfl⟩
  absent b hb := by
    have hne : b ≠ a := by
      rintro rfl
      exact hb r.slots.length (by simp)
    rw [Std.HashMap.getElem?_insert, if_neg (by simpa using Ne.symm hne)]
    refine h.absent b fun n hn => hb n ?_
    exact List.mem_append_left _ (mem_filter_ne.mpr ⟨hn, hne⟩)
  entries := congrArg (· + 1) h.entries
  hooks := congrArg (· + e.hooks.length) h.hooks
  aged b e' he := by
    rw [Std.HashMap.getElem?_insert] at he
    split at he
    · cases he
      exact Nat.le_of_eq (congrArg Duration.nanos hage)
    · exact h.aged b e' he
  emptied hc := by
    change r.closed = true at hc
    rw [h.closed, ho] at hc
    cases hc

/-- The registry drops everything, and may be closed with that. -/
theorem Mirrors.cleared (h : Mirrors c r) (closed : Bool) (released : List Nat) :
    Mirrors { c with items := ∅, closed } { r with cache := [], closed, released } where
  ttl := h.ttl
  now := h.now
  closed := rfl
  idle := h.idle
  once := List.nodup_nil
  held _ _ hm := absurd hm List.not_mem_nil
  absent _ _ := Std.HashMap.getElem?_empty
  entries := h.entries
  hooks := h.hooks
  aged a e he := by simp at he
  emptied _ := rfl

theorem invalidate_eq (r : Registry) (a : Int64) :
    (invalidate r a).1 = { r with cache := r.cache.filter (·.1 != a) } := by
  unfold invalidate
  cases hl : r.cache.lookup a with
  | none => rw [filter_of_absent fun n => not_cached_of_lookup hl]; rfl
  | some n => rfl

theorem Mirrors.invalidated (h : Mirrors c r) (a : Int64) :
    Mirrors { c with items := c.items.erase a } (invalidate r a).1 := by
  have hdropped := h.dropped a r.slots (fun _ => rfl) r.stats
  rw [← h.idle] at hdropped
  rw [invalidate_eq]
  exact hdropped

/-- Dropping an application tells whether it had an entry. -/
theorem Mirrors.present (h : Mirrors c r) (a : Int64) :
    (r.cache.lookup a).isSome = c.items.contains a := by
  rw [Std.HashMap.contains_eq_isSome_getElem?]
  cases hl : r.cache.lookup a with
  | none => rw [h.absent a fun n => not_cached_of_lookup hl]; rfl
  | some n =>
    obtain ⟨e, -, hi⟩ := h.held a n (mem_of_lookup hl)
    rw [hi]
    rfl

theorem Mirrors.invalidatedAll (h : Mirrors c r) :
    Mirrors { c with items := ∅ } (invalidateAll r).1 := by
  have hcleared := h.cleared c.closed r.released
  rw [← h.closed] at hcleared
  exact { hcleared with closed := h.closed }

theorem Mirrors.closing (h : Mirrors c r) :
    Mirrors { c with items := ∅, closed := true } (close r).1 := by
  unfold close
  split
  · rename_i hc
    have hr := h.cleared true r.released
    rw [← h.emptied hc] at hr
    have hsame : { r with closed := true } = r := by rw [← hc]
    rwa [hsame] at hr
  · rw [foldl_release]
    exact h.cleared true _

theorem close_stats (r : Registry) : (close r).1.stats = r.stats := by
  unfold close
  split
  · rfl
  · rw [foldl_release]

theorem Mirrors.pass (h : Mirrors c r) (time : Duration) :
    Mirrors { c with now := c.now + time } (r.pass time) where
  ttl := h.ttl
  now := congrArg (· + time) h.now
  closed := h.closed
  idle := h.idle
  once := h.once
  held := h.held
  absent := h.absent
  entries := h.entries
  hooks := h.hooks
  aged a e he := Nat.le_trans (h.aged a e he) (Nat.le_add_right _ _)
  emptied := h.emptied

/-- What the statistics of a registry are after these replies: the resolutions without a lookup
that returned an entry, those with one, those of them that failed, and the rows that could not be
built. -/
def tally (replies : List Reply) : Stats where
  hits := replies.countP fun
    | .resolved (.ok _) 0 => true
    | _ => false
  loads := replies.countP fun
    | .resolved _ 1 => true
    | _ => false
  loadFailures := replies.countP fun
    | .resolved (.error _) 1 => true
    | _ => false
  integrationErrors := (replies.flatMap fun
    | .resolved (.ok e) 1 => e.failures
    | _ => []).length

theorem tally_snoc (replies : List Reply) (x : Reply) :
    tally (replies ++ [x]) =
      ⟨(tally replies).hits + (tally [x]).hits, (tally replies).loads + (tally [x]).loads,
        (tally replies).loadFailures + (tally [x]).loadFailures,
        (tally replies).integrationErrors + (tally [x]).integrationErrors⟩ := by
  simp only [tally, List.countP_append, List.flatMap_append, List.length_append]

theorem tally_loaded (e : Entry) : tally [.resolved (.ok e) 1] = ⟨0, 1, 0, e.failures.length⟩ := by
  simp [tally]

end Uplink.Registry
