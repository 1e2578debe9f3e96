namespace Uplink.Broker

/-- How surely a message arrives. -/
inductive Qos where
  | atMostOnce
  | atLeastOnce
  | exactlyOnce
  deriving DecidableEq, Repr

inductive PublishError where
  | notConnected
  | disconnected
  | connectionLost (reason : String)
  /-- The client took no more requests. -/
  | refused
  | invalidUrl (text : String)
  | invalidQos (level : Nat)
  deriving DecidableEq, Repr

def PublishError.message : PublishError → String
  | .notConnected => "not connected to MQTT broker"
  | .disconnected => "MQTT client is disconnected"
  | .connectionLost reason => "MQTT connection lost before publish completed: " ++ reason
  | .refused => "MQTT client error: Failed to send mqtt requests to eventloop"
  | .invalidUrl text => "Invalid broker URL: " ++ text
  | .invalidQos level => s!"Unsupported QoS level: {level}"

namespace Qos

def level : Qos → Nat
  | .atMostOnce => 0
  | .atLeastOnce => 1
  | .exactlyOnce => 2

def ofLevel : Nat → Except PublishError Qos
  | 0 => .ok .atMostOnce
  | 1 => .ok .atLeastOnce
  | 2 => .ok .exactlyOnce
  | n => .error (.invalidQos n)

end Qos

structure Message where
  topic : String
  qos : Qos
  payload : String
  deriving DecidableEq, Repr

/-- What becomes of a request to the broker. -/
inductive Answer where
  | accepted
  | refused (e : PublishError)
  /-- Nothing, for as long as anyone waits. -/
  | never
  deriving DecidableEq, Repr

end Uplink.Broker
