import Entitlement.Ascending
import Entitlement.Base64
import Entitlement.Calendar.Date
import Entitlement.Calendar.Rfc3339
import Entitlement.Calendar.Timestamp
import Entitlement.Custody.Basic
import Entitlement.Custody.Command
import Entitlement.Custody.Delivery
import Entitlement.Custody.Event
import Entitlement.Decimal.Binary64
import Entitlement.Decimal.Shortest
import Entitlement.Folder
import Entitlement.Grant.Claims
import Entitlement.Grant.Denial
import Entitlement.Grant.License
import Entitlement.Http.Request
import Entitlement.Http.Response
import Entitlement.Http.Router
import Entitlement.Json.Canonical
import Entitlement.Json.Compound
import Entitlement.Json.Fault
import Entitlement.Json.Reader
import Entitlement.Json.Record
import Entitlement.Json.Scan
import Entitlement.Json.Skip
import Entitlement.Json.Text
import Entitlement.Key.Envelope
import Entitlement.Key.Issue
import Entitlement.Key.Material
import Entitlement.Key.Verify
import Entitlement.Main
import Entitlement.Plan.Feature
import Entitlement.Plan.Limits
import Entitlement.Plan.Tier
import Entitlement.Proofs.Ascending
import Entitlement.Proofs.Base64
import Entitlement.Proofs.Base64.Bits
import Entitlement.Proofs.Base64.Canonical
import Entitlement.Proofs.Calendar.Days
import Entitlement.Proofs.Calendar.Order
import Entitlement.Proofs.Calendar.Range
import Entitlement.Proofs.Calendar.Rfc3339
import Entitlement.Proofs.Custody.Account
import Entitlement.Proofs.Custody.Anonymity
import Entitlement.Proofs.Custody.Delivery
import Entitlement.Proofs.Custody.Denial
import Entitlement.Proofs.Custody.Feed
import Entitlement.Proofs.Custody.Overtaking
import Entitlement.Proofs.Custody.Replay
import Entitlement.Proofs.Custody.Step
import Entitlement.Proofs.Custody.Tier
import Entitlement.Proofs.Folder
import Entitlement.Proofs.Folder.Frame
import Entitlement.Proofs.Grant.Claims
import Entitlement.Proofs.Grant.License
import Entitlement.Proofs.Grant.Limits
import Entitlement.Proofs.Http.License
import Entitlement.Proofs.Http.Router
import Entitlement.Proofs.Json.Canonical
import Entitlement.Proofs.Json.Compound
import Entitlement.Proofs.Json.Independent
import Entitlement.Proofs.Json.Line
import Entitlement.Proofs.Json.Meaning
import Entitlement.Proofs.Json.Members
import Entitlement.Proofs.Json.Reading
import Entitlement.Proofs.Json.Results
import Entitlement.Proofs.Json.Skip
import Entitlement.Proofs.Json.Spelling
import Entitlement.Proofs.Json.Text
import Entitlement.Proofs.Json.Tree
import Entitlement.Proofs.Json.Unambiguous
import Entitlement.Proofs.Json.Value
import Entitlement.Proofs.Json.Written
import Entitlement.Proofs.Key.Ambiguity
import Entitlement.Proofs.Key.Document
import Entitlement.Proofs.Key.Envelope
import Entitlement.Proofs.Key.Issue
import Entitlement.Proofs.Key.Material
import Entitlement.Proofs.Key.Payload
import Entitlement.Proofs.Key.Spelling
import Entitlement.Proofs.Key.Timing
import Entitlement.Proofs.Key.Trust
import Entitlement.Proofs.Key.Verify
import Entitlement.Proofs.Plan.Feature
import Entitlement.Proofs.Plan.Writes
import Entitlement.Proofs.Schedule
import Entitlement.Proofs.Schedule.Independence
import Entitlement.Proofs.Schedule.Spacing
import Entitlement.Proofs.Service.Activation
import Entitlement.Proofs.Settings
import Entitlement.Proofs.Settings.Interval
import Entitlement.Proofs.Site.Assignment
import Entitlement.Proofs.Site.Audit
import Entitlement.Proofs.Site.Confidentiality
import Entitlement.Proofs.Site.Convergence
import Entitlement.Proofs.Site.Delivery
import Entitlement.Proofs.Site.Demotion
import Entitlement.Proofs.Site.Entitlements
import Entitlement.Proofs.Site.Expiry
import Entitlement.Proofs.Site.Feed
import Entitlement.Proofs.Site.Follower
import Entitlement.Proofs.Site.Provenance
import Entitlement.Proofs.Site.Refusal
import Entitlement.Proofs.Site.Replay
import Entitlement.Proofs.Site.Revalidation
import Entitlement.Proofs.Site.Runs
import Entitlement.Proofs.Site.Sleep
import Entitlement.Proofs.Site.Spacing
import Entitlement.Proofs.Site.Step
import Entitlement.Proofs.Site.Stopping
import Entitlement.Proofs.Site.Tier
import Entitlement.Proofs.Steps
import Entitlement.Proofs.Text.Ascii
import Entitlement.Proofs.Text.Blank
import Entitlement.Proofs.Text.Digits
import Entitlement.Proofs.Text.Integer
import Entitlement.Proofs.Text.Order
import Entitlement.Proofs.Text.Pieces
import Entitlement.Proofs.Tool.Arguments
import Entitlement.Proofs.Tool.Exit
import Entitlement.Proofs.Tool.Files
import Entitlement.Proofs.Tool.Limits
import Entitlement.Proofs.Tool.Pairs
import Entitlement.Proofs.Tool.Sign
import Entitlement.Schedule
import Entitlement.Service.Address
import Entitlement.Service.Log
import Entitlement.Service.Startup
import Entitlement.Settings
import Entitlement.Signature.Ed25519
import Entitlement.Signature.Edwards
import Entitlement.Signature.Scheme
import Entitlement.Signature.Sha512
import Entitlement.Site.Basic
import Entitlement.Text.Blank
import Entitlement.Text.Bytes
import Entitlement.Text.Integer
import Entitlement.Text.Quoted
import Entitlement.Text.Report
import Entitlement.Text.Unshown
import Entitlement.Tool.Arguments
import Entitlement.Tool.Command
import Entitlement.Tool.Failure
import Entitlement.Tool.Fresh
import Entitlement.Tool.Help
import Entitlement.Tool.Run
