import SpacedReview.Main
import SpacedReview.Session.PollTimeline
import SpacedReview.Store.Volatile
import SpacedReview.Proofs.Session.Consistency
import SpacedReview.Proofs.Session.LoopRuns
import SpacedReview.Proofs.Session.Lock
import SpacedReview.Proofs.Session.Actions
import SpacedReview.Proofs.Session.InFlight
import SpacedReview.Proofs.Session.History
import SpacedReview.Proofs.Session.Provenance
import SpacedReview.Proofs.Session.Freshness
import SpacedReview.Proofs.Store.Rows
import SpacedReview.Proofs.Store.Records
import SpacedReview.Proofs.Store.Writes
import SpacedReview.Proofs.Review.Planning
import SpacedReview.Proofs.Review.Tally
import SpacedReview.Proofs.Review.Overlap
import SpacedReview.Proofs.Text.Numerals
import SpacedReview.Proofs.Time.Dates
import SpacedReview.Proofs.Time.Instants
import SpacedReview.Proofs.Decimal.Kinds
import SpacedReview.Proofs.Decimal.Tokens
import SpacedReview.Proofs.Json.Texts
import SpacedReview.Proofs.Json.Documents
import SpacedReview.Proofs.Json.Records
import SpacedReview.Proofs.Time.Stamps
import SpacedReview.Proofs.Time.ExactStamps
import SpacedReview.Proofs.Document.Catalog
import SpacedReview.Proofs.Document.Review
import SpacedReview.Proofs.Document.Session
import SpacedReview.Proofs.Document.RoundTrip
import SpacedReview.Proofs.Store.Kept
import SpacedReview.Proofs.Store.Mirror
import SpacedReview.Proofs.Store.Changes
import SpacedReview.Proofs.Store.Restamping
import SpacedReview.Proofs.Store.Agreement
import SpacedReview.Proofs.Review.Priority
import SpacedReview.Proofs.Review.Choice
import SpacedReview.Proofs.Review.NextQuestion
import SpacedReview.Proofs.Store.Failures
import SpacedReview.Proofs.Store.Representation
import SpacedReview.Proofs.Retention.Delays
import SpacedReview.Proofs.Review.Draining
import SpacedReview.Proofs.Session.Turns
import SpacedReview.Proofs.Session.Release
import SpacedReview.Proofs.Session.Commitment
import SpacedReview.Proofs.Review.PutOff
import SpacedReview.Proofs.Session.Views
import SpacedReview.Proofs.Session.Fingerprints
import SpacedReview.Proofs.Session.Exhaustion
import SpacedReview.Proofs.Session.WakeUp
import SpacedReview.Proofs.Review.Rotation
import SpacedReview.Proofs.Session.Rounds
import SpacedReview.Proofs.Session.Watchdog
import SpacedReview.Proofs.Store.InPlace
import SpacedReview.Proofs.Store.Atomicity
import SpacedReview.Proofs.Review.Legibility
import SpacedReview.Proofs.Session.SkipCycle
import SpacedReview.Proofs.Review.Books
import SpacedReview.Proofs.Review.Bookkeeping
import SpacedReview.Proofs.Retention.Lifecycle
import SpacedReview.Proofs.Review.Outcome
import SpacedReview.Proofs.Review.Ranking
import SpacedReview.Proofs.Review.Rota
import SpacedReview.Proofs.Review.Fairness
import SpacedReview.Proofs.Text.Bytes
import SpacedReview.Proofs.Store.DueTimes
import SpacedReview.Proofs.Store.Retrieval
import SpacedReview.Proofs.Decimal.Rounding
import SpacedReview.Proofs.Decimal.Shortest
import SpacedReview.Proofs.Json.Distinct
import SpacedReview.Proofs.Session.FingerprintTexts
import SpacedReview.Proofs.Session.PollRuns
import SpacedReview.Proofs.Session.Publication
import SpacedReview.Proofs.Retention.Scheduling
import SpacedReview.Proofs.Decimal.Truncation
import SpacedReview.Proofs.Review.Policy
import SpacedReview.Proofs.Review.Position
import SpacedReview.Proofs.Text.Typed
import SpacedReview.Proofs.Settings.Usable
import SpacedReview.Proofs.CommandLine.Answers
import SpacedReview.Proofs.CommandLine.DueListing
import SpacedReview.Proofs.Time.StrictForm
import SpacedReview.Proofs.Json.TextLists
import SpacedReview.Proofs.Store.Faithfulness
