import Uplink.Notification.Encoded
import Uplink.Proofs.Notification.Fields

namespace Uplink.Notification

open Device Json Time Wire

theorem DataRate.read_write (a : DataRate) :
    DataRate.record.read (.printed (DataRate.record.write a)) = .ok a := by
  apply record_tidy.read_write
  · exact .cons (field_restores rfl) <|
      .cons (field_restores (readUInt32_printed _)) <|
      .cons (nonzero_restores rfl) <|
      .cons (nonzero_restores rfl) .nil
  · rfl

theorem TxInfo.read_write (a : TxInfo) :
    TxInfo.record.read (.printed (TxInfo.record.write a)) = .ok a := by
  apply record_tidy.read_write
  · exact .cons (field_restores (readUInt32_printed _)) <|
      .cons (field_restores (DataRate.read_write _)) <|
      .cons (field_restores rfl) <|
      .cons (field_restores rfl) .nil
  · rfl

def RxInfo.floats (a : RxInfo) : List Float := [a.snr, a.latitude, a.longitude, a.altitude]

def RxInfo.times (a : RxInfo) : List Timestamp := a.time.toList

theorem RxInfo.read_write (a : RxInfo) (hx : ∀ x ∈ a.floats, FloatReads x)
    (ht : ∀ t ∈ a.times, TimeReads t) :
    RxInfo.record.read (.printed (RxInfo.record.write a)) = .ok a := by
  simp only [floats, List.forall_mem_cons] at hx
  obtain ⟨hsnr, hlatitude, hlongitude, haltitude, -⟩ := hx
  have htime : ∀ t, a.time = some t → TimeReads t := fun t h => ht t (by simp [times, h])
  apply record_tidy.read_write
  · exact .cons (field_restores (readIdentifier_printed _)) <|
      .cons (time_restores htime rfl) <|
      .cons (field_restores (readInt32_printed _)) <|
      .cons (field_restores (asFloat_printed hsnr)) <|
      .cons (field_restores rfl) <|
      .cons (field_restores (asFloat_printed hlatitude)) <|
      .cons (field_restores (asFloat_printed hlongitude)) <|
      .cons (field_restores (asFloat_printed haltitude)) .nil
  · rfl

theorem DataUp.read_write (a : DataUp) (hx : ∀ x ∈ a.rxInfo.flatMap RxInfo.floats, FloatReads x)
    (ht : ∀ t ∈ a.rxInfo.flatMap RxInfo.times, TimeReads t) :
    DataUp.record.read (.printed (DataUp.record.write a)) = .ok a := by
  have hrx : ∀ i ∈ a.rxInfo, RxInfo.record.read (.printed (RxInfo.record.write i)) = .ok i :=
    fun i hi => i.read_write (fun x h => hx x (List.mem_flatMap.mpr ⟨i, hi, h⟩))
      fun t h => ht t (List.mem_flatMap.mpr ⟨i, hi, h⟩)
  apply record_tidy.read_write
  · exact .cons (field_restores (readNumberText_printed _)) <|
      .cons (field_restores rfl) <|
      .cons (field_restores rfl) <|
      .cons (field_restores (readIdentifier_printed _)) <|
      .cons (field_restores (asList_printed hrx)) <|
      .cons (field_restores (TxInfo.read_write _)) <|
      .cons (field_restores (readUInt32_printed _)) <|
      .cons (field_restores (readUInt8_printed _)) <|
      .cons (field_restores (readData_printed _)) .nil
  · rfl

theorem Join.read_write (a : Join) : Join.record.read (.printed (Join.record.write a)) = .ok a := by
  apply record_tidy.read_write
  · exact .cons (field_restores (readNumberText_printed _)) <|
      .cons (field_restores rfl) <|
      .cons (field_restores rfl) <|
      .cons (field_restores (readIdentifier_printed _)) <|
      .cons (field_restores (readIdentifier_printed _)) .nil
  · rfl

theorem Ack.read_write (a : Ack) : Ack.record.read (.printed (Ack.record.write a)) = .ok a := by
  apply record_tidy.read_write
  · exact .cons (field_restores (readNumberText_printed _)) <|
      .cons (field_restores rfl) <|
      .cons (field_restores rfl) <|
      .cons (field_restores (readIdentifier_printed _)) <|
      .cons (field_restores rfl) <|
      .cons (field_restores (readUInt32_printed _)) .nil
  · rfl

theorem ErrorReport.read_write (a : ErrorReport) :
    ErrorReport.record.read (.printed (ErrorReport.record.write a)) = .ok a := by
  apply record_tidy.read_write
  · exact .cons (field_restores (readNumberText_printed _)) <|
      .cons (field_restores rfl) <|
      .cons (field_restores rfl) <|
      .cons (field_restores (readIdentifier_printed _)) <|
      .cons (field_restores rfl) <|
      .cons (field_restores rfl) <|
      .cons (nonzero_restores rfl) .nil
  · rfl

namespace Payload

/-- The doubles of a payload; only data has any. -/
def floats : Payload → List Float
  | dataUp p => p.rxInfo.flatMap RxInfo.floats
  | _ => []

def times : Payload → List Timestamp
  | dataUp p => p.rxInfo.flatMap RxInfo.times
  | _ => []

theorem read_toJson (p : Payload) (hx : ∀ x ∈ p.floats, FloatReads x)
    (ht : ∀ t ∈ p.times, TimeReads t) : read p.event (.printed p.toJson) = .ok p := by
  cases p with
  | dataUp p => exact congrArg (Except.map dataUp) (p.read_write hx ht)
  | join p => exact congrArg (Except.map join) p.read_write
  | ack p => exact congrArg (Except.map ack) p.read_write
  | error p => exact congrArg (Except.map error) p.read_write

theorem ofText_encode (p : Payload) (hx : ∀ x ∈ p.floats, FloatReads x)
    (ht : ∀ t ∈ p.times, TimeReads t) : ofText p.event p.encode.body = .ok p := by
  rw [ofText, encode, readText_compact, p.read_toJson hx ht]

end Payload

/-- Nothing gets lost in a notification: its body reads back as the payload, so that body and topic
name the same application and device, and no other payload of the event has the same body. -/
theorem encode_faithful (p : Payload) (hx : ∀ x ∈ p.floats, FloatReads x)
    (ht : ∀ t ∈ p.times, TimeReads t) :
    Payload.ofText p.event p.encode.body = .ok p ∧
      p.encode.applicationId = p.applicationId ∧ p.encode.devEui = p.devEui ∧
      p.encode.event = p.event ∧
      (∃ q, Payload.ofText p.encode.event p.encode.body = .ok q ∧
        p.encode.topic = topic q.applicationId q.devEui q.event) ∧
      ∀ q : Payload, (∀ x ∈ q.floats, FloatReads x) → (∀ t ∈ q.times, TimeReads t) →
        q.event = p.event → q.encode.body = p.encode.body → q = p := by
  have hp := p.ofText_encode hx ht
  refine ⟨hp, rfl, rfl, rfl, ⟨p, hp, rfl⟩, fun q hqx hqt hevent hbody => ?_⟩
  have hq := q.ofText_encode hqx hqt
  rw [hevent, hbody, hp] at hq
  exact (Except.ok.inj hq).symm

/-- Data received by a gateway at a place and time, with a quote, a control character and a letter
beyond ASCII in its names. -/
def received : Payload :=
  .dataUp
    { applicationId := -9223372036854775808
      applicationName := "pit \"7\"\n\x01"
      nodeName := "Höhe"
      devEui := default
      rxInfo := [⟨default, some ⟨19000, 3600, 500000000⟩, -57, -7.5, "", 52.25, 0, 0.125⟩,
        RxInfo.blank]
      txInfo := TxInfo.blank
      counter := 4294967295
      port := 1
      data := [0, 255] }

theorem encode_faithful_received :
    (∀ x ∈ received.floats, FloatReads x) ∧ (∀ t ∈ received.times, TimeReads t) ∧
      Payload.ofText .rx received.encode.body = .ok received := by
  have hx : ∀ x ∈ received.floats, FloatReads x := by decide +kernel
  have ht : ∀ t ∈ received.times, TimeReads t := by decide +kernel
  exact ⟨hx, ht, (encode_faithful received hx ht).1⟩

end Uplink.Notification
