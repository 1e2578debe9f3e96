import Uplink.Notification.Encoded
import Uplink.Proofs.Notification.Fields

namespace Uplink.Notification

open Device Text Wire

/-- The parts of a topic between its slashes. -/
def levels (text : String) : List String := (text.split '/').toList.map (·.copy)

/-- Reads back what a topic is about. -/
def readTopic (text : String) : Option (Int64 × Eui64 × Event) :=
  match levels text with
  | ["application", id, "node", eui, event] => do
    let id ← (parseInt64 id).toOption
    let eui ← (Identifier.parse 8 eui).toOption
    let event ← Event.ofName? event
    return (id, eui, event)
  | _ => none

/-- A character that stands for itself in a subscription. -/
def Literal (c : Char) : Prop := c ≠ '/' ∧ c ≠ '+' ∧ c ≠ '#'

instance (c : Char) : Decidable (Literal c) := inferInstanceAs (Decidable (_ ∧ _ ∧ _))

theorem literal_of_isDigit {c : Char} (h : c.isDigit = true) : Literal c := by
  refine ⟨?_, ?_, ?_⟩
  all_goals rintro rfl
  all_goals cases h

theorem literal_digitChar : ∀ d < 16, Literal (Hex.digitChar d) := by decide

theorem literal_renderInt64 (n : Int64) : ∀ c ∈ (renderInt64 n).toList, Literal c := by
  intro c hc
  rw [renderInt64, String.toList_ofList] at hc
  rcases Decimal.mem_ofInt hc with rfl | hc
  · decide
  · exact literal_of_isDigit hc

theorem renderInt64_ne_empty (n : Int64) : renderInt64 n ≠ "" := by
  intro h
  have hlist := congrArg String.toList h
  rw [renderInt64, String.toList_ofList] at hlist
  exact Decimal.ofInt_ne_nil _ hlist

theorem literal_render {n : Nat} (id : Identifier n) : ∀ c ∈ id.render.toList, Literal c := by
  intro c hc
  rw [Identifier.render, String.toList_ofList] at hc
  obtain ⟨d, hd, rfl⟩ := Hex.exists_of_mem_encode hc
  exact literal_digitChar d hd

theorem literal_name (e : Event) : ∀ c ∈ e.name.toList, Literal c := by
  cases e <;> simp [Event.name, Literal]

theorem render_ne_empty (eui : Eui64) : eui.render ≠ "" := by
  intro h
  have hlength := Hex.length_encode eui.bytes
  rw [eui.size_eq, ← String.toList_ofList (l := Hex.encode eui.bytes)] at hlength
  rw [Identifier.render] at h
  rw [h] at hlength
  cases hlength

variable (id : Int64) (eui : Eui64) (event : Event)

/-- What stands between the slashes of a topic. -/
def parts : List String := ["application", renderInt64 id, "node", eui.render, event.name]

theorem literal_parts : ∀ level ∈ parts id eui event, ∀ c ∈ level.toList, Literal c := by
  have hfirst : ∀ c ∈ "application".toList, Literal c := by simp [Literal]
  have hnode : ∀ c ∈ "node".toList, Literal c := by simp [Literal]
  simp only [parts, List.forall_mem_cons, List.not_mem_nil, IsEmpty.forall_iff, implies_true,
    and_true]
  exact ⟨hfirst, literal_renderInt64 id, hnode, literal_render eui, literal_name event⟩

theorem topic_eq_intercalate : topic id eui event = "/".intercalate (parts id eui event) := by
  have hfirst : "application/" = "application" ++ "/" := by decide
  have hnode : "/node/" = "/" ++ ("node" ++ "/") := by decide
  unfold topic parts
  rw [hfirst, hnode]
  simp only [String.intercalate_cons_cons, String.intercalate_singleton, String.append_assoc]

theorem levels_topic : levels (topic id eui event) = parts id eui event := by
  have hslash : ∀ level ∈ parts id eui event, '/' ∉ level.toList :=
    fun level hlevel hc => (literal_parts id eui event level hlevel '/' hc).1 rfl
  have hne : parts id eui event ≠ [] := List.cons_ne_nil _ _
  have hsplit := String.toList_split_intercalate hslash
  rw [if_neg hne] at hsplit
  rw [levels, topic_eq_intercalate]
  exact hsplit

theorem empty_not_mem_parts : "" ∉ parts id eui event := by
  simp only [parts, List.mem_cons, List.not_mem_nil, or_false, not_or]
  refine ⟨by decide, (renderInt64_ne_empty id).symm, by decide, (render_ne_empty eui).symm, ?_⟩
  cases event <;> decide

theorem ofName?_name : Event.ofName? event.name = some event := by
  cases event <;> rfl

theorem readTopic_topic : readTopic (topic id eui event) = some (id, eui, event) := by
  rw [readTopic, levels_topic, parts]
  simp only [parseInt64_renderInt64, Identifier.parse_render, ofName?_name]
  rfl

theorem wildcard_not_mem : ∀ c ∈ (topic id eui event).toList, c ≠ '+' ∧ c ≠ '#' := by
  have hfirst : ∀ c ∈ "application/".toList, c ≠ '+' ∧ c ≠ '#' := by simp
  have hnode : ∀ c ∈ "/node/".toList, c ≠ '+' ∧ c ≠ '#' := by simp
  have hslash : ∀ c ∈ "/".toList, c ≠ '+' ∧ c ≠ '#' := by simp
  unfold topic
  simp only [String.toList_append, List.forall_mem_append]
  exact ⟨⟨⟨⟨⟨hfirst, fun c hc => (literal_renderInt64 id c hc).2⟩, hnode⟩,
    fun c hc => (literal_render eui c hc).2⟩, hslash⟩, fun c hc => (literal_name event c hc).2⟩

/-- No two notifications of different applications, devices or events share a topic: its levels
name them, and are read back as what they name. -/
theorem topic_unambiguous :
    levels (topic id eui event) =
        ["application", renderInt64 id, "node", eui.render, event.name] ∧
      "" ∉ levels (topic id eui event) ∧
      readTopic (topic id eui event) = some (id, eui, event) ∧
      (∀ id' eui' event', topic id' eui' event' = topic id eui event ↔
        id' = id ∧ eui' = eui ∧ event' = event) ∧
      '+' ∉ (topic id eui event).toList ∧ '#' ∉ (topic id eui event).toList := by
  refine ⟨levels_topic id eui event, ?_, readTopic_topic id eui event, ?_, ?_, ?_⟩
  · rw [levels_topic]
    exact empty_not_mem_parts id eui event
  · intro id' eui' event'
    constructor
    · intro h
      have hread := readTopic_topic id' eui' event'
      rw [h, readTopic_topic, Option.some.injEq, Prod.mk.injEq, Prod.mk.injEq] at hread
      exact ⟨hread.1.symm, hread.2.1.symm, hread.2.2.symm⟩
    · rintro ⟨rfl, rfl, rfl⟩
      rfl
  · exact fun hc => (wildcard_not_mem id eui event '+' hc).1 rfl
  · exact fun hc => (wildcard_not_mem id eui event '#' hc).2 rfl

end Uplink.Notification
