import RetroCloudSync.Library.Table
import RetroCloudSync.Library.Transaction
import RetroCloudSync.Library.Refusals
import RetroCloudSync.Library.Run
import RetroCloudSync.Library.Fallible
import RetroCloudSync.Journal.Tables
import RetroCloudSync.Journal.Calls
import RetroCloudSync.Journal.Spec
import RetroCloudSync.Journal.Reach
import RetroCloudSync.Journal.Refused
import RetroCloudSync.Journal.Evidence
import RetroCloudSync.Journal.Lineage
import RetroCloudSync.Journal.Unique
import RetroCloudSync.Journal.Isolation
import RetroCloudSync.Journal.Pairs
import RetroCloudSync.Journal.Replay
import RetroCloudSync.Library.Interaction
import RetroCloudSync.Library.Register
import RetroCloudSync.Writer.Attempt
import RetroCloudSync.Writer.Race
import RetroCloudSync.Writer.Attemptable
import RetroCloudSync.Recovery.Complete
import RetroCloudSync.Recovery.CrashSafety
import RetroCloudSync.Library.Dict
import RetroCloudSync.Native.Record
import RetroCloudSync.Native.Merge
import RetroCloudSync.Native.Receipt
import RetroCloudSync.TwoWay.Policy
import RetroCloudSync.TwoWay.Fields
import RetroCloudSync.TwoWay.Scope
import RetroCloudSync.Calendar.Import
import RetroCloudSync.Calendar.Alias
import RetroCloudSync.Exchange.World
import RetroCloudSync.Exchange.Pass
import RetroCloudSync.Exchange.Safety
import RetroCloudSync.Library.Lines
import RetroCloudSync.Library.Places
import RetroCloudSync.Resource.Parse
import RetroCloudSync.Resource.Patch
import RetroCloudSync.Resource.Read
import RetroCloudSync.Resource.Heads
import RetroCloudSync.Resource.Reference
import RetroCloudSync.Resource.Scan
import RetroCloudSync.Resource.Splice
import RetroCloudSync.Resource.Correct
import RetroCloudSync.Resource.Rewritten
import RetroCloudSync.Resource.Structure
import RetroCloudSync.Dav.SyncState
import RetroCloudSync.ContactStore.Tables
import RetroCloudSync.ContactStore.Calls
import RetroCloudSync.ContactStore.Reach
import RetroCloudSync.ContactStore.Pairs
import RetroCloudSync.ContactStore.Identity
import RetroCloudSync.SyncServices.Pass
import RetroCloudSync.SyncServices.Untouched
import RetroCloudSync.SyncServices.Containers
import RetroCloudSync.CalendarStore.Component
import RetroCloudSync.CalendarStore.Tables
import RetroCloudSync.CalendarStore.Project
import RetroCloudSync.CalendarStore.Calls
import RetroCloudSync.CalendarStore.Passes
import RetroCloudSync.CalendarStore.Rows
import RetroCloudSync.CalendarStore.Reach
import RetroCloudSync.CalendarStore.Save
import RetroCloudSync.CalendarStore.Mirrors
import RetroCloudSync.CalendarStore.Refused
import RetroCloudSync.CalendarStore.Pairs
import RetroCloudSync.Operations.Commit
import RetroCloudSync.Operations.Run
import RetroCloudSync.Operations.Race
import RetroCloudSync.Operations.Safety
import RetroCloudSync.Operations.Verdict
import RetroCloudSync.CalendarStore.Reparse
import RetroCloudSync.CalendarStore.Hollow
import RetroCloudSync.CalendarStore.Prune
import RetroCloudSync.Writer.Outbox
import RetroCloudSync.Resource.Enqueue
import RetroCloudSync.Dav.Document
import RetroCloudSync.Dav.SyncCollection
import RetroCloudSync.Dav.Request
import RetroCloudSync.Dav.Discipline
import RetroCloudSync.Dav.Inventory
import RetroCloudSync.Native.Cocoa
import RetroCloudSync.Native.Equality
import RetroCloudSync.Library.Gregorian
import RetroCloudSync.Projection.Civil
import RetroCloudSync.CalendarStore.Outcome
import RetroCloudSync.CalendarStore.Availability
import RetroCloudSync.Projection.Timezone
import RetroCloudSync.Library.Buffer
import RetroCloudSync.Photo.Codec
import RetroCloudSync.Photo.Exact
import RetroCloudSync.Library.Escaped
import RetroCloudSync.VCard.Text
import RetroCloudSync.VCard.Escape
import RetroCloudSync.VCard.Structured
import RetroCloudSync.Resource.Folding
import RetroCloudSync.Resource.Optional
import RetroCloudSync.Library.Nested
import RetroCloudSync.Resource.Framing
import RetroCloudSync.Mail.Proxy
import RetroCloudSync.Mail.Exact
import RetroCloudSync.Library.Feed
import RetroCloudSync.ContactMirror.Commit
import RetroCloudSync.ContactMirror.Replay
import RetroCloudSync.ContactMirror.Mirrored
import RetroCloudSync.ContactMirror.Fetch
import RetroCloudSync.ContactMirror.Server
import RetroCloudSync.ContactMirror.Collection
import RetroCloudSync.ContactMirror.Faithful
import RetroCloudSync.Status.Policy
import RetroCloudSync.Status.Sum
import RetroCloudSync.Status.Honest
