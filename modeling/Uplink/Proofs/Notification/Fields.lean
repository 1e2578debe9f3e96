import Uplink.Notification.Wire
import Uplink.Proofs.Json.Restoring

namespace Uplink.Notification

open Device Json Text Time Wire

variable {α β σ : Type} {blank a : σ} {name : String} {required : Bool} {get : σ → α}
  {set : α → σ → σ} {set' : β → σ → σ}

/-- Two fields that set different parts of a record, whatever they read. -/
@[simp] theorem apart_of_set {r : Document → Read α} {s : Document → Read β} {p q : Bool}
    {other : String} {w u : σ → Option Json} (h : ∀ v v' a, set v (set' v' a) = set' v' (set v a)) :
    Field.Apart ⟨name, p, fun d => set <$> r d, w⟩ ⟨other, q, fun d => set' <$> s d, u⟩ := by
  intro d e put put' hd he a
  dsimp only at hd he
  cases hr : r d with
  | error x =>
    rw [hr] at hd
    cases hd
  | ok v =>
    cases hs : s e with
    | error x =>
      rw [hs] at he
      cases he
    | ok v' =>
      rw [hr] at hd
      rw [hs] at he
      cases hd
      cases he
      exact h v v' a

theorem RxInfo.record_tidy : RxInfo.record.Tidy where
  names := by decide
  apart := by simp [RxInfo.record, field, sparse]

theorem DataRate.record_tidy : DataRate.record.Tidy where
  names := by decide
  apart := by simp [DataRate.record, field, sparse]

theorem TxInfo.record_tidy : TxInfo.record.Tidy where
  names := by decide
  apart := by simp [TxInfo.record, field]

theorem DataUp.record_tidy : DataUp.record.Tidy where
  names := by decide
  apart := by simp [DataUp.record, field]

theorem Join.record_tidy : Join.record.Tidy where
  names := by decide
  apart := by simp [Join.record, field]

theorem Ack.record_tidy : Ack.record.Tidy where
  names := by decide
  apart := by simp [Ack.record, field]

theorem ErrorReport.record_tidy : ErrorReport.record.Tidy where
  names := by decide
  apart := by simp [ErrorReport.record, field, sparse]

theorem readNotation_printed {ε : Type} {expected s : String} {parse : String → Except ε α}
    {message : ε → String} {v : α} (h : parse s = .ok v) :
    readNotation expected parse message (.printed (.text s)) = .ok v := by
  rw [readNotation, Document.printed, Document.asText]
  simp only [Document.settle, bind, Except.bind, h]

theorem readIdentifier_printed {n : Nat} (id : Identifier n) :
    readIdentifier n (.printed (writeIdentifier id)) = .ok id :=
  readNotation_printed id.parse_render

theorem parseInt64_renderInt64 (n : Int64) : parseInt64 (renderInt64 n) = .ok n := by
  have hl : -((Number.intMax : Int) + 1) ≤ n.toInt := n.le_toInt
  have hh : n.toInt ≤ Number.intMax := Int.le_of_lt_add_one n.toInt_lt
  rw [parseInt64, renderInt64, String.toList_ofList, Decimal.readInt_ofInt hl hh]
  exact congrArg Except.ok n.ofInt_toInt

theorem readNumberText_printed (n : Int64) :
    readNumberText (.printed (.text (renderInt64 n))) = .ok n :=
  readNotation_printed (parseInt64_renderInt64 n)

theorem readData_printed (bytes : List UInt8) :
    readData (.printed (.text (Base64.encode bytes))) = .ok bytes :=
  readNotation_printed (Base64.decode_encode bytes)

theorem asInt_printed {low high i : Int} (expected : String) (hl : low ≤ i) (hh : i ≤ high)
    (hlow : -((Number.intMax : Int) + 1) ≤ low) (hhigh : high ≤ Number.wordMax) :
    (Document.printed (.int i)).asInt low high expected = .ok i := by
  rw [printed_int (Int.le_trans hlow hl) (Int.le_trans hh hhigh), Document.asInt]
  simp only [Document.settle, bind, Except.bind, hl, hh, and_self, ↓reduceIte]

theorem readUInt32_printed (n : UInt32) : readUInt32 (.printed (writeUInt32 n)) = .ok n := by
  have hn : (n.toNat : Int) ≤ 4294967295 := by
    have := n.toNat_lt
    omega
  rw [readUInt32, writeUInt32, asInt_printed "u32" (by omega) hn (by decide) (by decide)]
  simp [bind, Except.bind, pure, Except.pure]

theorem readUInt8_printed (n : UInt8) : readUInt8 (.printed (.int n.toNat)) = .ok n := by
  have hn : (n.toNat : Int) ≤ 255 := by
    have := n.toNat_lt
    omega
  rw [readUInt8, asInt_printed "u8" (by omega) hn (by decide) (by decide)]
  simp [bind, Except.bind, pure, Except.pure]

theorem readInt32_printed (n : Int32) : readInt32 (.printed (.int n.toInt)) = .ok n := by
  have hl : -2147483648 ≤ n.toInt := n.le_toInt
  have hh : n.toInt ≤ 2147483647 := Int.le_of_lt_add_one n.toInt_lt
  rw [readInt32, asInt_printed "i32" hl hh (by decide) (by decide)]
  simp [bind, Except.bind, pure, Except.pure]

/-- The text of a double reads back as the double. -/
def FloatReads (x : Float) : Prop := Json.readText Document.asFloat (renderFloat x) = .ok x

/-- The text of a time reads back as the time. -/
def TimeReads (t : Timestamp) : Prop := Timestamp.parse t.render = .ok t

theorem toOption_eq_some {ε : Type} {e : Except ε α} {v : α} : e.toOption = some v ↔ e = .ok v := by
  cases e <;> simp [Except.toOption]

instance (x : Float) : Decidable (FloatReads x) := decidable_of_iff _ toOption_eq_some

instance (t : Timestamp) : Decidable (TimeReads t) := decidable_of_iff _ toOption_eq_some

theorem asFloat_printed {x : Float} (h : FloatReads x) :
    (Document.printed (.number (.float x))).asFloat = .ok x := by
  have hs : Spells (renderFloat x).toList (.item (.printed (.number (.float x)))) :=
    (print_spells (.number (.float x))).toItem
  rw [FloatReads, readText_of_spells hs] at h
  exact h

theorem asTime_printed {t : Timestamp} (h : TimeReads t) :
    Document.asOptional readTime (.printed (.text t.render)) = .ok (some t) := by
  have hread : readTime (.printed (.text t.render)) = .ok t := readNotation_printed h
  rw [Document.printed] at hread ⊢
  rw [Document.asOptional, hread]
  · rfl
  · simp

theorem readItems_printed {read : Document → Read α} {write : α → Json} {l : List α} {i : Nat}
    {done : List α} (h : ∀ v ∈ l, read (.printed (write v)) = .ok v) :
    Document.readItems read .closed i done ((l.map write).map .printed) =
      .ok (done.reverse ++ l) := by
  induction l generalizing i done with
  | nil => simp [Document.readItems, Stop.inList]
  | cons v l ih =>
    obtain ⟨hv, h⟩ := List.forall_mem_cons.mp h
    rw [List.map_cons, List.map_cons, Document.readItems, hv]
    simp only [inside, bind, Except.bind, ih h]
    simp

theorem asList_printed {read : Document → Read α} {write : α → Json} {l : List α}
    (h : ∀ v ∈ l, read (.printed (write v)) = .ok v) :
    Document.asList read (.printed (.list (l.map write))) = .ok l := by
  rw [Document.printed, Document.printedItems_eq, Document.asList, readItems_printed h]
  rfl

theorem field_restores {read : Document → Read α} {write : α → Json}
    (h : read (.printed (write (get a))) = .ok (get a)) :
    Field.Restores blank a (field name required read write get set) (set (get a)) := by
  have hread : (field name required read write get set).read (.printed (write (get a))) =
      .ok (set (get a)) := by
    simp only [field, h]
    rfl
  refine ⟨⟨_, hread⟩, fun v hv => ?_, fun hn => nomatch hn⟩
  cases hv
  exact hread

/-- A field that may be left out needs a document of its own to read that value from. -/
theorem sparse_restores {read : Document → Read α} {write : α → Option Json} {d : Document}
    (hs : read d = .ok (get a)) (hw : ∀ v, write (get a) = some v → read (.printed v) = .ok (get a))
    (ho : write (get a) = none → set (get a) blank = blank) :
    Field.Restores blank a (sparse name read write get set) (set (get a)) := by
  refine ⟨⟨d, ?_⟩, fun v hv => ?_, fun hn => ⟨ho hn, rfl⟩⟩
  · simp only [sparse, hs]
    rfl
  · simp only [sparse, hw v hv]
    rfl

theorem nonzero_restores {get : σ → UInt32} {set : UInt32 → σ → σ} (h : set 0 blank = blank) :
    Field.Restores blank a (sparse name readUInt32 writeNonzero get set) (set (get a)) := by
  refine sparse_restores (readUInt32_printed (get a)) (fun v hv => ?_) fun hn => ?_
  · have hv : v = writeUInt32 (get a) := by
      unfold writeNonzero at hv
      split at hv
      · cases hv
      · exact (Option.some.inj hv).symm
    rw [hv, readUInt32_printed]
  · have hz : get a = 0 := by
      unfold writeNonzero at hn
      split at hn
      · assumption
      · cases hn
    rw [hz, h]

theorem time_restores {get : σ → Option Timestamp} {set : Option Timestamp → σ → σ}
    (ht : ∀ t, get a = some t → TimeReads t) (h : set none blank = blank) :
    Field.Restores blank a
      (sparse name (Document.asOptional readTime) (·.map fun t => .text t.render) get set)
      (set (get a)) := by
  cases hg : get a with
  | none =>
    have hread : Document.asOptional readTime .null = .ok (get a) := hg ▸ rfl
    rw [← hg]
    exact sparse_restores hread (fun v hv => by simp [hg] at hv) fun _ => hg ▸ h
  | some t =>
    have hread : Document.asOptional readTime (.printed (.text t.render)) = .ok (get a) :=
      hg ▸ asTime_printed (ht t hg)
    rw [← hg]
    refine sparse_restores hread (fun v hv => ?_) fun hn => by simp [hg] at hn
    obtain rfl : .text t.render = v := by simpa [hg] using hv
    exact hread

end Uplink.Notification
