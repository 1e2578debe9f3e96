import Uplink.Broker.Publish
import Uplink.Time.Duration

namespace Uplink.Backend

open Broker Time

inductive BackendError where
  | publish (topic : String) (source : PublishError)
  /-- A request to a URL that got no answer, and why. -/
  | http (url reason : String)
  | status (url : String) (code : Nat)
  | disconnect (source : PublishError)
  | timeout (after : Duration)
  | closed
  deriving DecidableEq, Repr

def BackendError.message : BackendError → String
  | .publish topic source => "publish to '" ++ topic ++ "' failed: " ++ source.message
  | .http url reason => "POST " ++ url ++ " failed: " ++ reason
  | .status url code => "POST " ++ url ++ s!" returned status {code}"
  | .disconnect source => "disconnect failed: " ++ source.message
  | .timeout after => "delivery timed out after " ++ after.render
  | .closed => "backend is closed"

abbrev Delivery := Except BackendError Unit

end Uplink.Backend
