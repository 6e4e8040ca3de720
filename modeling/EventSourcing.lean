import EventSourcing.Directory.Counter
import EventSourcing.Directory.Member
import EventSourcing.Directory.Model
import EventSourcing.Json.Parser
import EventSourcing.Json.Printer
import EventSourcing.Postgres.Settings
import EventSourcing.Postgres.Store
import EventSourcing.Proofs.Json.Events
import EventSourcing.Proofs.Memory.Composing
import EventSourcing.Proofs.Memory.Cursor
import EventSourcing.Proofs.Memory.Dates
import EventSourcing.Proofs.Memory.Decisions
import EventSourcing.Proofs.Memory.DryRun
import EventSourcing.Proofs.Memory.Independence
import EventSourcing.Proofs.Memory.Isolation
import EventSourcing.Proofs.Memory.Optimistic
import EventSourcing.Proofs.Memory.Pages
import EventSourcing.Proofs.Memory.Payloads
import EventSourcing.Proofs.Memory.Projections
import EventSourcing.Proofs.Memory.TimeTravel
import EventSourcing.Proofs.Postgres.Agreement
import EventSourcing.Proofs.Postgres.AllOrNothing
import EventSourcing.Proofs.Postgres.Deciding
import EventSourcing.Proofs.Postgres.Pagination
import EventSourcing.Proofs.Postgres.Ranges
import EventSourcing.Proofs.Postgres.Returning
import EventSourcing.Proofs.Postgres.Serial
import EventSourcing.Proofs.Postgres.Texts
import EventSourcing.Proofs.Postgres.Waiting
import EventSourcing.Proofs.Precedence
import EventSourcing.Proofs.Query.Branches
import EventSourcing.Proofs.Query.Building
import EventSourcing.Proofs.View.Batches
import EventSourcing.Proofs.View.LastWrites
import EventSourcing.Proofs.View.Lifetime
import EventSourcing.Proofs.View.Polling
import EventSourcing.Proofs.WriteModel.Books
import EventSourcing.Proofs.WriteModel.Increments
import EventSourcing.Proofs.WriteModel.Lives
import EventSourcing.Proofs.WriteModel.Outcomes
import EventSourcing.Proofs.WriteModel.Reloading
import EventSourcing.Query.Builder
import EventSourcing.Store.Memory
