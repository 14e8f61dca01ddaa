import JobWatch.Calendar.Zone.Table
import JobWatch.Form
import JobWatch.Host
import JobWatch.Json.Reader
import JobWatch.Settings.Load
import JobWatch.Telemetry.Logging
import JobWatch.Proofs.Catalog.Consistency
import JobWatch.Proofs.Poll.Failure
import JobWatch.Proofs.Poll.Listing
import JobWatch.Proofs.Host.Kept
import JobWatch.Proofs.History
import JobWatch.Proofs.Catalog.Pauses
import JobWatch.Proofs.Key
import JobWatch.Proofs.Poll.Share
import JobWatch.Proofs.Catalog.Running
import JobWatch.Proofs.Hash
import JobWatch.Proofs.Identity
import JobWatch.Proofs.Calendar.Date
import JobWatch.Proofs.Calendar.Timestamp
import JobWatch.Proofs.Form
import JobWatch.Proofs.Catalog.Untouched
import JobWatch.Proofs.Host.Poisoned
import JobWatch.Proofs.Registry.History
import JobWatch.Proofs.Catalog.Meanwhile
import JobWatch.Proofs.Cron.Clock
import JobWatch.Proofs.Cron.Search
import JobWatch.Proofs.Cron.Start
import JobWatch.Proofs.Cron.Occurrence
import JobWatch.Proofs.Toml.Names
import JobWatch.Proofs.Settings.Leaf
import JobWatch.Proofs.Settings.Layers
import JobWatch.Proofs.Settings.Sources
import JobWatch.Proofs.Settings.Override
import JobWatch.Proofs.Settings.Precedence
import JobWatch.Proofs.Settings.Without
import JobWatch.Proofs.Poll.Account
import JobWatch.Proofs.Table
import JobWatch.Proofs.Catalog.Contents
import JobWatch.Proofs.Poll.Later
import JobWatch.Proofs.Catalog.Rearranged
import JobWatch.Proofs.Calendar.Zone
import JobWatch.Proofs.Calendar.Count
import JobWatch.Proofs.Catalog.Made
import JobWatch.Proofs.Cron.Repeated
import JobWatch.Proofs.Trigger.Refired
import JobWatch.Proofs.Questions
import JobWatch.Proofs.Trigger.Interval
import JobWatch.Proofs.Executions.Copies
import JobWatch.Proofs.Identity.Parts
import JobWatch.Proofs.Telemetry.Filter
import JobWatch.Proofs.Telemetry.Logging
