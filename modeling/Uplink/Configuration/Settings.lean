namespace Uplink.Configuration

structure ServerSettings where
  host : String
  port : UInt16
  deriving DecidableEq, Repr

structure DatabaseSettings where
  url : String
  poolSize : UInt32
  connectTimeoutSeconds : UInt32
  idleTimeoutSeconds : UInt32
  deriving DecidableEq, Repr

structure BrokerSettings where
  server : String
  username : String
  password : String
  clientId : String
  /-- The level of the quality of service of everything that is published. -/
  qos : UInt8
  keepAliveSeconds : UInt64
  publishTimeoutMillis : UInt64
  disconnectTimeoutMillis : UInt64
  deriving DecidableEq, Repr

structure IntegrationSettings where
  /-- How long looked-up integrations are good; zero stands for no end. -/
  cacheTtlSeconds : UInt64
  httpTimeoutSeconds : UInt64
  deriving DecidableEq, Repr

inductive LogFormat where
  | pretty
  | json
  deriving DecidableEq, Repr

def LogFormat.name : LogFormat → String
  | .pretty => "Pretty"
  | .json => "Json"

structure LoggingSettings where
  format : LogFormat
  deriving DecidableEq, Repr

structure Settings where
  server : ServerSettings
  database : DatabaseSettings
  broker : BrokerSettings
  integrations : IntegrationSettings
  logging : LoggingSettings
  deriving DecidableEq, Repr

namespace Settings

def standard : Settings where
  server := ⟨"0.0.0.0", 8080⟩
  database := ⟨"postgres://localhost/loraserver_as", 10, 5, 300⟩
  broker := ⟨"tcp://localhost:1883", "", "", "lora-app-notify", 0, 30, 5000, 2000⟩
  integrations := ⟨60, 10⟩
  logging := ⟨.pretty⟩

def address (s : Settings) : String := s.server.host ++ ":" ++ toString s.server.port.toNat

end Settings

end Uplink.Configuration
