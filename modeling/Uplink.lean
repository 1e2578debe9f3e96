import Uplink.Backend.Broker
import Uplink.Backend.Error
import Uplink.Backend.Webhook
import Uplink.Broker.Address
import Uplink.Broker.Client
import Uplink.Broker.Publish
import Uplink.Broker.Tracker
import Uplink.Configuration.Decode
import Uplink.Configuration.Environment
import Uplink.Configuration.Load
import Uplink.Configuration.Node
import Uplink.Configuration.Settings
import Uplink.Configuration.VariableFile
import Uplink.Device.Identifier
import Uplink.Dispatch.Basic
import Uplink.Dispatch.Failure
import Uplink.Dispatch.Step
import Uplink.Ingress.Answer
import Uplink.Ingress.MediaType
import Uplink.Ingress.Response
import Uplink.Ingress.Route
import Uplink.Integration.Build
import Uplink.Json.Decode
import Uplink.Json.Document
import Uplink.Json.Fault
import Uplink.Json.Numeral
import Uplink.Json.Position
import Uplink.Json.Printer
import Uplink.Json.Reader
import Uplink.Json.Record
import Uplink.Json.Value
import Uplink.Notification.Encoded
import Uplink.Notification.Event
import Uplink.Notification.Payload
import Uplink.Notification.Wire
import Uplink.Number.Plain
import Uplink.Number.Shortest
import Uplink.Number.Word
import Uplink.Registry.Basic
import Uplink.Registry.Step
import Uplink.Service.Basic
import Uplink.Service.Metrics
import Uplink.Store.DatabaseUrl
import Uplink.Store.Memory
import Uplink.Store.Source
import Uplink.Text.Base64
import Uplink.Text.Blank
import Uplink.Text.Decimal
import Uplink.Text.Hex
import Uplink.Text.Quoted
import Uplink.Text.Utf8
import Uplink.Text.Visible
import Uplink.Time.Calendar
import Uplink.Time.Duration
import Uplink.Time.Timestamp
import Uplink.Toml.Document
import Uplink.Toml.Fault
import Uplink.Toml.Reader
import Uplink.Toml.Scalar
import Uplink.Toml.Value
import Uplink.Url.Basic
import Uplink.Url.Domain
import Uplink.Url.Host
import Uplink.Url.Join
import Uplink.Url.Percent
import Uplink.Url.Punycode
import Uplink.Url.Reader
import Uplink.Webhook.Client
import Uplink.Webhook.Endpoints
import Uplink.Webhook.Header
import Uplink.Webhook.Request
import Uplink.Webhook.Settings
import Uplink.Proofs.Backend.Lifetime
import Uplink.Proofs.Broker.Addressing
import Uplink.Proofs.Broker.Completion
import Uplink.Proofs.Broker.Conservation
import Uplink.Proofs.Broker.Disconnect
import Uplink.Proofs.Broker.Retransmission
import Uplink.Proofs.Broker.Session
import Uplink.Proofs.Broker.Turns
import Uplink.Proofs.Collect
import Uplink.Proofs.Configuration.Paths
import Uplink.Proofs.Configuration.Sections
import Uplink.Proofs.Configuration.Variables
import Uplink.Proofs.Device.Identifier
import Uplink.Proofs.Dispatch.Accounts
import Uplink.Proofs.Dispatch.Aside
import Uplink.Proofs.Dispatch.Balance
import Uplink.Proofs.Dispatch.Conclusion
import Uplink.Proofs.Dispatch.Confluence
import Uplink.Proofs.Dispatch.Fan
import Uplink.Proofs.Dispatch.FanOut
import Uplink.Proofs.Dispatch.Interleaving
import Uplink.Proofs.Dispatch.Isolation
import Uplink.Proofs.Dispatch.Likeness
import Uplink.Proofs.Dispatch.Outcomes
import Uplink.Proofs.Dispatch.Overtaken
import Uplink.Proofs.Dispatch.Presence
import Uplink.Proofs.Dispatch.Script
import Uplink.Proofs.Dispatch.Sends
import Uplink.Proofs.Dispatch.Shutdown
import Uplink.Proofs.Dispatch.Site
import Uplink.Proofs.Dispatch.Story
import Uplink.Proofs.Dispatch.Underlying
import Uplink.Proofs.Dispatch.World
import Uplink.Proofs.Ingress.Discretion
import Uplink.Proofs.Ingress.Notifying
import Uplink.Proofs.Integration.Building
import Uplink.Proofs.Json.Completeness
import Uplink.Proofs.Json.Grammar
import Uplink.Proofs.Json.Printing
import Uplink.Proofs.Json.Record
import Uplink.Proofs.Json.Restoring
import Uplink.Proofs.Json.Values
import Uplink.Proofs.Notification.Fields
import Uplink.Proofs.Notification.Grammar
import Uplink.Proofs.Notification.RoundTrip
import Uplink.Proofs.Notification.Topic
import Uplink.Proofs.Registry.Attendance
import Uplink.Proofs.Registry.Books
import Uplink.Proofs.Registry.Bystander
import Uplink.Proofs.Registry.Counts
import Uplink.Proofs.Registry.Evolution
import Uplink.Proofs.Registry.Invalidation
import Uplink.Proofs.Registry.Likeness
import Uplink.Proofs.Registry.Lines
import Uplink.Proofs.Registry.Occupancy
import Uplink.Proofs.Registry.Order
import Uplink.Proofs.Registry.Origin
import Uplink.Proofs.Registry.Provenance
import Uplink.Proofs.Registry.Retention
import Uplink.Proofs.Registry.Shutdown
import Uplink.Proofs.Registry.SingleFlight
import Uplink.Proofs.Registry.Steady
import Uplink.Proofs.Registry.TimedCache
import Uplink.Proofs.Registry.Traffic
import Uplink.Proofs.Service.Counters
import Uplink.Proofs.Service.Sending
import Uplink.Proofs.Service.Sequential
import Uplink.Proofs.Store.Masking
import Uplink.Proofs.Store.Rows
import Uplink.Proofs.Store.Shelves
import Uplink.Proofs.Text.Canonical
import Uplink.Proofs.Text.RoundTrip
import Uplink.Proofs.Webhook.Checking
import Uplink.Proofs.Webhook.Client
import Uplink.Proofs.Webhook.ContentType
import Uplink.Proofs.Webhook.Fields
import Uplink.Proofs.Webhook.Stored
import Uplink.Proofs.Webhook.Trail
