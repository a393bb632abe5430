import Relay.Library.Transition
import Relay.Library.Table
import Relay.Library.Sequence
import Relay.Library.Exchange
import Relay.Library.Session
import Relay.Library.Text
import Relay.Library.Query
import Relay.Library.Json
import Relay.Library.Uuid
import Relay.Library.Retry
import Relay.Library.Staged
import Relay.Library.Journal
import Relay.Library.Upsert
import Relay.Library.Book
import Relay.Library.Race
import Relay.Library.Simulation
import Relay.Library.Waiting
import Relay.Model.Config
import Relay.Model.Records
import Relay.Model.Content
import Relay.Model.Services
import Relay.Model.Approvals
import Relay.Model.Social
import Relay.Model.Publishing
import Relay.Model.Delivery
import Relay.Model.Authentication
import Relay.Model.Serializers
import Relay.Model.Command
import Relay.Model.Views
import Relay.Model.Callback
import Relay.Model.TaskVault
import Relay.Calendar
import Relay.Model.PowerShell
import Relay.Model.Revocation
import Relay.Model.Ingestion
import Relay.Model.Panel
import Relay.Model.Administration
import Relay.Model.App
import Relay.System
import Relay.Effects
import Relay.Steps
import Relay.Execution
import Relay.Evolution
import Relay.Constraints
import Relay.Access
import Relay.Attempts
import Relay.Timing
import Relay.Coherence
import Relay.MetaProtocol
import Relay.DoublePublication
import Relay.ClientApproval
import Relay.Provenance
import Relay.Fingerprints
import Relay.Authorization
import Relay.Settlement
import Relay.Progress
import Relay.AuditTrail
import Relay.Deactivation
import Relay.Uploads
import Relay.Repetition
import Relay.Connections
import Relay.SingleUse
import Relay.OwnContent
import Relay.Bucket
import Relay.StorageKeys
import Relay.OAuthCallback
import Relay.PageDiscovery
import Relay.Carousel
import Relay.Vault
import Relay.Submission
import Relay.Conflict
import Relay.Creation
import Relay.Panel
import Relay.BrandChoice
import Relay.BatchDates
import Relay.Resubmission
import Relay.ServiceToken
import Relay.Workspaces
import Relay.Visibility
import Relay.Isolation
import Relay.Atomicity
import Relay.Tokens
import Relay.AuthorizationUrl
import Relay.Dispatch
import Relay.Containment
import Relay.Directory
import Relay.Administration
import Relay.Onboarding
import Relay.Channels
