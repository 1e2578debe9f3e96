import Uplink.Broker.Publish
import Uplink.Text.Decimal

namespace Uplink.Broker

structure Address where
  host : String
  port : Nat
  deriving DecidableEq, Repr

namespace Address

def defaultPort : Nat := 1883

/-- Takes a text off the front of another. -/
def dropFront? : List Char → List Char → Option (List Char)
  | [], cs => some cs
  | _ :: _, [] => none
  | p :: ps, c :: cs => if p = c then dropFront? ps cs else none

theorem dropFront?_length {front cs rest : List Char} (h : dropFront? front cs = some rest) :
    rest.length + front.length = cs.length := by
  induction front generalizing cs with
  | nil => simp only [dropFront?, Option.some.injEq] at h; simp [h]
  | cons p ps ih =>
    cases cs with
    | nil => simp [dropFront?] at h
    | cons c cs =>
      simp only [dropFront?] at h
      split at h
      · have := ih h
        simp only [List.length_cons]
        omega
      · simp at h

/-- Takes a text off the front of another as often as it stands there. -/
def dropFronts (p : Char) (ps cs : List Char) : List Char :=
  match _h : dropFront? (p :: ps) cs with
  | some rest => dropFronts p ps rest
  | none => cs
termination_by cs.length
decreasing_by
  have := dropFront?_length _h
  simp only [List.length_cons] at this
  omega

def bare (url : List Char) : List Char :=
  dropFronts 't' ['c', 'p', ':', '/', '/'] (dropFronts 'm' ['q', 't', 't', ':', '/', '/'] url)

def parts (cs : List Char) : List (List Char) := cs.splitOn ':'

def portMax : Nat := 65535

/-- Reads an address. The names of the two schemes may stand in front, any number of times. -/
def parse (url : String) : Except PublishError Address :=
  match parts (bare url.toList) with
  | [host] =>
    if host = [] then .error (.invalidUrl url) else .ok ⟨String.ofList host, defaultPort⟩
  | [host, port] =>
    if host = [] then .error (.invalidUrl url)
    else
      match Text.Decimal.readNat portMax port with
      | .ok n => .ok ⟨String.ofList host, n⟩
      | .error _ => .error (.invalidUrl ("invalid port in '" ++ url ++ "'"))
  | _ => .error (.invalidUrl url)

end Address

end Uplink.Broker
