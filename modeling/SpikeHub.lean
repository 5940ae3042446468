import SpikeHub.Bugs.Ceilings
import SpikeHub.Bugs.ContentAddress
import SpikeHub.Bugs.DailyLimit
import SpikeHub.Bugs.DigestLineBreaks
import SpikeHub.Bugs.DoubleCharge
import SpikeHub.Bugs.DoubleExchange
import SpikeHub.Bugs.ExpiredCharge
import SpikeHub.Bugs.FallbackHandles
import SpikeHub.Bugs.Footprint
import SpikeHub.Bugs.IdleReads
import SpikeHub.Bugs.InactiveAdoption
import SpikeHub.Bugs.LapsedReservations
import SpikeHub.Bugs.LicenseOperands
import SpikeHub.Bugs.LostDownloads
import SpikeHub.Bugs.ModelSlots
import SpikeHub.Bugs.Orphans
import SpikeHub.Bugs.PartialIndex
import SpikeHub.Bugs.ProvenAddresses
import SpikeHub.Bugs.RefusedTransfer
import SpikeHub.Bugs.ReplayRollback
import SpikeHub.Bugs.ScopeMint
import SpikeHub.Bugs.SearchWildcards
import SpikeHub.Bugs.SharedAddress
import SpikeHub.Bugs.SharedEntryIds
import SpikeHub.Bugs.SignOut
import SpikeHub.Bugs.StaleDeclarations
import SpikeHub.Bugs.SweepRace
import SpikeHub.Bugs.TruncatedHandles
import SpikeHub.Bugs.ZeroLifetimes
import SpikeHub.Core.Book
import SpikeHub.Core.Counter
import SpikeHub.Core.Gates
import SpikeHub.Core.Hasher
import SpikeHub.Core.History
import SpikeHub.Core.LTS
import SpikeHub.Core.Like
import SpikeHub.Core.Posix
import SpikeHub.Core.PurePath
import SpikeHub.Core.PyStr
import SpikeHub.Core.Regex
import SpikeHub.Core.Registry
import SpikeHub.Core.Session
import SpikeHub.Core.Sha256
import SpikeHub.Core.Table
import SpikeHub.Core.Window
import SpikeHub.L1Data.Errors
import SpikeHub.L1Data.Schema
import SpikeHub.L1Data.Settings
import SpikeHub.L2Storage.Keys
import SpikeHub.L2Storage.Streaming
import SpikeHub.L2Storage.Volume
import SpikeHub.L3Quota.Limits
import SpikeHub.L3Quota.Usage
import SpikeHub.L4Auth.Accounts
import SpikeHub.L4Auth.Credentials
import SpikeHub.L4Auth.Handles
import SpikeHub.L4Auth.Minting
import SpikeHub.L4Auth.Platform
import SpikeHub.L4Auth.Sessions
import SpikeHub.L4Catalog.Index
import SpikeHub.L4Catalog.Licenses
import SpikeHub.L4Catalog.Names
import SpikeHub.L4Catalog.Queries
import SpikeHub.L4Routes.Bodies
import SpikeHub.L4Routes.Caller
import SpikeHub.L4Routes.Effects
import SpikeHub.L4Routes.Issued
import SpikeHub.L4Routes.OAuth
import SpikeHub.L4Routes.Problems
import SpikeHub.L4Routes.Routes
import SpikeHub.L4Routes.Uploading
import SpikeHub.L4Routes.Uses
import SpikeHub.L4Routes.Versions
import SpikeHub.L4Uploads.Admission
import SpikeHub.L4Uploads.Frame
import SpikeHub.L4Uploads.Intent
import SpikeHub.L4Uploads.Ledger
import SpikeHub.L4Uploads.Publish
import SpikeHub.L4Uploads.Receive
import SpikeHub.L5Runs.Accounting
import SpikeHub.L5Runs.AllOrNothing
import SpikeHub.L5Runs.Allowance
import SpikeHub.L5Runs.Alone
import SpikeHub.L5Runs.Answers
import SpikeHub.L5Runs.BearerFirst
import SpikeHub.L5Runs.Browsing
import SpikeHub.L5Runs.Calls
import SpikeHub.L5Runs.Catalogue
import SpikeHub.L5Runs.Completing
import SpikeHub.L5Runs.Counting
import SpikeHub.L5Runs.Exchanges
import SpikeHub.L5Runs.Expiry
import SpikeHub.L5Runs.Flows
import SpikeHub.L5Runs.Fresh
import SpikeHub.L5Runs.Grants
import SpikeHub.L5Runs.Holder
import SpikeHub.L5Runs.Identities
import SpikeHub.L5Runs.Intents
import SpikeHub.L5Runs.Interleave
import SpikeHub.L5Runs.Lasting
import SpikeHub.L5Runs.Liveness
import SpikeHub.L5Runs.Objects
import SpikeHub.L5Runs.Parties
import SpikeHub.L5Runs.Policy
import SpikeHub.L5Runs.Provenance
import SpikeHub.L5Runs.Reconcile
import SpikeHub.L5Runs.Requests
import SpikeHub.L5Runs.Retries
import SpikeHub.L5Runs.Rows
import SpikeHub.L5Runs.Serial
import SpikeHub.L5Runs.Service
import SpikeHub.L5Runs.Shown
import SpikeHub.L5Runs.Staging
import SpikeHub.L5Runs.Stocking
import SpikeHub.L5Runs.Surfaces
import SpikeHub.L5Runs.Tenants
import SpikeHub.L5Runs.ValidNames
import SpikeHub.L5Runs.Views
