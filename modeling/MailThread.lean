import MailThread.Arena.Basic
import MailThread.Arena.Link
import MailThread.Arena.Walk
import MailThread.Assembly.Basic
import MailThread.Assembly.Sent
import MailThread.Build
import MailThread.Calendar
import MailThread.Envelope
import MailThread.Error
import MailThread.Folder
import MailThread.Forest.Audit
import MailThread.Forest.Basic
import MailThread.Forest.Layout
import MailThread.Forest.Roots
import MailThread.Index
import MailThread.Intake
import MailThread.Issue
import MailThread.Journal
import MailThread.Json.Reader
import MailThread.Json.Value
import MailThread.Json.Writer
import MailThread.Listing.Age
import MailThread.Listing.Basic
import MailThread.Listing.Order
import MailThread.Log.Level
import MailThread.Log.Line
import MailThread.Log.Path
import MailThread.Main
import MailThread.Number.Binary64
import MailThread.Number.Decimal
import MailThread.Pending
import MailThread.Program
import MailThread.Proofs.Arena.Admission
import MailThread.Proofs.Arena.Ancestry
import MailThread.Proofs.Arena.Calls
import MailThread.Proofs.Arena.Climb
import MailThread.Proofs.Arena.Date
import MailThread.Proofs.Arena.Descent
import MailThread.Proofs.Arena.Detach
import MailThread.Proofs.Arena.Growth
import MailThread.Proofs.Arena.Hang
import MailThread.Proofs.Arena.Linked
import MailThread.Proofs.Arena.Path
import MailThread.Proofs.Arena.Search
import MailThread.Proofs.Arena.Seat
import MailThread.Proofs.Arena.Sound
import MailThread.Proofs.Arena.View
import MailThread.Proofs.Assembly.Balance
import MailThread.Proofs.Assembly.Copies
import MailThread.Proofs.Assembly.Inbox
import MailThread.Proofs.Assembly.Merge
import MailThread.Proofs.Assembly.Refusal
import MailThread.Proofs.Assembly.Register
import MailThread.Proofs.Assembly.Replies
import MailThread.Proofs.Assembly.Run
import MailThread.Proofs.Assembly.Step
import MailThread.Proofs.Assembly.Together
import MailThread.Proofs.Build.Arrival
import MailThread.Proofs.Build.Balance
import MailThread.Proofs.Build.Chain
import MailThread.Proofs.Build.Conversations
import MailThread.Proofs.Build.Growth
import MailThread.Proofs.Build.Harvest
import MailThread.Proofs.Build.History
import MailThread.Proofs.Build.Layouts
import MailThread.Proofs.Build.Links
import MailThread.Proofs.Build.Listing
import MailThread.Proofs.Build.Refusal
import MailThread.Proofs.Build.Register
import MailThread.Proofs.Build.Rows
import MailThread.Proofs.Build.Run
import MailThread.Proofs.Build.Sent
import MailThread.Proofs.Build.Sound
import MailThread.Proofs.Build.Walks
import MailThread.Proofs.Calendar.Gregorian
import MailThread.Proofs.Calendar.Timestamp
import MailThread.Proofs.Forest.Audit
import MailThread.Proofs.Forest.Coherence
import MailThread.Proofs.Forest.Conversation
import MailThread.Proofs.Forest.Counts
import MailThread.Proofs.Forest.Harvest
import MailThread.Proofs.Forest.Layout
import MailThread.Proofs.Forest.Listing
import MailThread.Proofs.Forest.Outline
import MailThread.Proofs.Forest.Reorder
import MailThread.Proofs.Forest.Roots
import MailThread.Proofs.Forest.Rows
import MailThread.Proofs.Forest.Stack
import MailThread.Proofs.Forest.Subjects
import MailThread.Proofs.Forest.Twin
import MailThread.Proofs.Forest.Visits
import MailThread.Proofs.Forest.Walks
import MailThread.Proofs.Intake.Checked
import MailThread.Proofs.Intake.Envelopes
import MailThread.Proofs.Json.Reader
import MailThread.Proofs.Listing.Order
import MailThread.Proofs.Listing.Spelling
import MailThread.Proofs.Listing.Width
import MailThread.Proofs.Number.Exact
import MailThread.Proofs.Outcome
import MailThread.Proofs.Program.Alike
import MailThread.Proofs.Program.Arguments
import MailThread.Proofs.Program.Checks
import MailThread.Proofs.Program.Dump
import MailThread.Proofs.Program.Run
import MailThread.Proofs.Text.Case
import MailThread.Proofs.Text.Glob
import MailThread.Proofs.Text.Pattern
import MailThread.Proofs.Text.Within
import MailThread.Reference
import MailThread.Settings.Application
import MailThread.Settings.Basic
import MailThread.Settings.Data
import MailThread.Settings.EnvFile
import MailThread.Subject
import MailThread.Text.Basic
import MailThread.Text.Blank
import MailThread.Text.Case
import MailThread.Text.CaseTable
import MailThread.Text.Glob
import MailThread.Text.Pattern
import MailThread.Trail
