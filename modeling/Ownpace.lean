import Ownpace.Await.Pool
import Ownpace.Ledger.Runs
import Ownpace.Apply.Deletion
import Ownpace.Sync.Cursor
import Ownpace.Sync.Exec
import Ownpace.Billing.AddsUp
import Ownpace.Billing.Withdrawn
import Ownpace.Billing.Conserved
import Ownpace.Billing.Climb
import Ownpace.Verify.Gate
import Ownpace.Await.Triple
import Ownpace.Keys.NaturalKey
import Ownpace.Dav.Listing
import Ownpace.Lifecycle.Peak
import Ownpace.Mail.GeneratedId
import Ownpace.Budget.Promises
import Ownpace.Refund.Exact
import Ownpace.Throttle.Slots
import Ownpace.Offboarding.Erasure
import Ownpace.Sync.Relocated
import Ownpace.Push.Mirror
import Ownpace.Uid.Agree
import Ownpace.GoogleDrive.Whole
import Ownpace.Upload.Whole
import Ownpace.Sync.Rows
import Ownpace.Apply.Unattended
import Ownpace.Sync.Detect
import Ownpace.Sync.Removals
import Ownpace.Container.Hash
import Ownpace.Calendar.Neutral
import Ownpace.Calendar.Telling
import Ownpace.Sync.Bins
import Ownpace.Sync.FalseMoves
import Ownpace.Imap.Passes
import Ownpace.Imap.OneMessage
import Ownpace.JmapContact.OneWriter
import Ownpace.JmapFile.Upserts
import Ownpace.Sharing.Apart
import Ownpace.Sharing.Ordered
import Ownpace.Sharing.Together
import Ownpace.Confirm.Evidence
import Ownpace.Tick.Capacity
import Ownpace.Orchestration.AllDomains
import Ownpace.Confirm.Csv
import Ownpace.Dav.Collection
import Ownpace.Tick.Failing
import Ownpace.Concurrency.Runners
import Ownpace.Money.Crossing
import Ownpace.Reachable.Sockets
import Ownpace.MailSubject.Written
import Ownpace.Lifecycle.Enumerated
import Ownpace.Archive.Together
import Ownpace.Migrate.Together
import Ownpace.Audit.Whole
import Ownpace.Tenant.Isolated
import Ownpace.Throttle.RateLimited
