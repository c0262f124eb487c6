import HomeAutomation.Text.Blank
import HomeAutomation.Number.Shortest
import HomeAutomation.Json.Reader
import HomeAutomation.Clock
import HomeAutomation.Failure
import HomeAutomation.Trigger.Canonical
import HomeAutomation.Trigger.Lexer
import HomeAutomation.Trigger.Eval
import HomeAutomation.Bus.Dispatch
import HomeAutomation.Bus.Threads
import HomeAutomation.Bus.Traffic
import HomeAutomation.Scheduler
import HomeAutomation.Scheduler.Script
import HomeAutomation.Rules.Listener
import HomeAutomation.Rules.Describe
import HomeAutomation.Home
import HomeAutomation.Yaml.Scalar
import HomeAutomation.Yaml.Token.Flow
import HomeAutomation.Yaml.Token.Block
import HomeAutomation.Yaml.Token.Tag
import HomeAutomation.Yaml.Document
import HomeAutomation.Config.Loader
import HomeAutomation.Config.Reader
import HomeAutomation.Config.Written
import HomeAutomation.Home.Lifecycle
import HomeAutomation.Proofs.Number.ReadBack
import HomeAutomation.Proofs.Trigger.Grammar
import HomeAutomation.Proofs.Trigger.Parsing
import HomeAutomation.Proofs.Trigger.Reading
import HomeAutomation.Proofs.Trigger.Writable
import HomeAutomation.Proofs.Trigger.RoundTrip
import HomeAutomation.Proofs.Trigger.Relevance
import HomeAutomation.Proofs.Bus.Registry
import HomeAutomation.Proofs.Bus.History
import HomeAutomation.Proofs.Bus.Machine
import HomeAutomation.Proofs.Bus.Delivery
import HomeAutomation.Proofs.Bus.Latest
import HomeAutomation.Proofs.Bus.Callers
import HomeAutomation.Proofs.Bus.Producers
import HomeAutomation.Proofs.Bus.Reception
import HomeAutomation.Proofs.Bus.PostOrder
import HomeAutomation.Proofs.Scheduler.Moves
import HomeAutomation.Proofs.Scheduler.Counting
import HomeAutomation.Proofs.Scheduler.Containment
import HomeAutomation.Proofs.Scheduler.Service
import HomeAutomation.Proofs.Scheduler.Workshops
import HomeAutomation.Proofs.Scheduler.Quiet
import HomeAutomation.Proofs.Home.Listening
import HomeAutomation.Proofs.Home.Stopping
import HomeAutomation.Proofs.Rules.Independence
import HomeAutomation.Proofs.Rules.Safety
import HomeAutomation.Proofs.Config.Winding
import HomeAutomation.Proofs.Config.Reading
import HomeAutomation.Proofs.Config.Acceptance
import HomeAutomation.Proofs.Trigger.Remembering
import HomeAutomation.Proofs.Config.Filling
import HomeAutomation.Proofs.Home.Course
import HomeAutomation.Proofs.Home.Lifecycle
import HomeAutomation.Proofs.Trigger.Normal
import HomeAutomation.Proofs.Trigger.Prefixes
import HomeAutomation.Proofs.Trigger.Diagnosis
import HomeAutomation.Proofs.Config.Replacing
import HomeAutomation.Proofs.Config.Reusing
import HomeAutomation.Proofs.Rules.Loading
import HomeAutomation.Proofs.Rules.Sequencing
import HomeAutomation.Proofs.Bus.Traffic
import HomeAutomation.Proofs.Trigger.Layout
import HomeAutomation.Proofs.Trigger.Places
import HomeAutomation.Proofs.Trigger.Spacing
import HomeAutomation.Proofs.Trigger.Leaves
import HomeAutomation.Proofs.Scheduler.Interruption
import HomeAutomation.Proofs.Trigger.Hierarchy
import HomeAutomation.Proofs.Trigger.Recursion
import HomeAutomation.Proofs.Trigger.Unreached
