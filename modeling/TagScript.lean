import TagScript.Text.Blank
import TagScript.Text.Case
import TagScript.Text.Cut
import TagScript.Text.Quoted
import TagScript.Text.Words
import TagScript.Duration
import TagScript.Tag.Cache
import TagScript.Tag.Template
import TagScript.Script.Argument
import TagScript.Script.Block
import TagScript.Script.Definition
import TagScript.Script.Source
import TagScript.Outcome
import TagScript.Scheduler.Tick
import TagScript.Tag.Evaluate
import TagScript.Queue.Stop
import TagScript.Command.Run
import TagScript.Vocabulary.Value
import TagScript.Engine.Fire
import TagScript.Rehearsal
import TagScript.Scheduler.Drill
import TagScript.Config.Settings
import TagScript.Main
import TagScript.Proofs.Tag.Closed
import TagScript.Proofs.Tag.Escape
import TagScript.Proofs.Tag.Composition
import TagScript.Proofs.Tag.Inert
import TagScript.Proofs.Engine.Braces
import TagScript.Proofs.Queue.Conservation
import TagScript.Proofs.Queue.Wakeup
import TagScript.Proofs.Scheduler.Punctuality
import TagScript.Proofs.Scheduler.Exactness
import TagScript.Proofs.Tag.Balance
import TagScript.Proofs.Tag.Nesting
import TagScript.Proofs.Tag.Wrapping
import TagScript.Proofs.Tag.Lossless
import TagScript.Proofs.Engine.Passage
import TagScript.Proofs.Engine.ExecutePassage
import TagScript.Proofs.Engine.Advance
import TagScript.Proofs.Engine.HostCalls
import TagScript.Proofs.Outcome.Lineage
import TagScript.Proofs.Outcome.Determination
import TagScript.Proofs.Engine.Parts
import TagScript.Proofs.Runner.Report
import TagScript.Proofs.Engine.Loopless
import TagScript.Proofs.Engine.Failure
import TagScript.Proofs.Engine.HoldsBalance
import TagScript.Proofs.Queue.Registry
import TagScript.Proofs.Scheduler.Delivery
import TagScript.Proofs.Scheduler.Cancellation
import TagScript.Proofs.Engine.Performance
import TagScript.Proofs.Engine.Shutdown
import TagScript.Proofs.Engine.Waiting
import TagScript.Proofs.Engine.Nested
import TagScript.Proofs.Tag.Hiding
import TagScript.Proofs.Tag.Dynamic
import TagScript.Proofs.Tag.Inquiry
import TagScript.Proofs.Tag.Depth
import TagScript.Proofs.Engine.Steadfast
import TagScript.Proofs.Engine.Procedure
import TagScript.Proofs.Script.Sections
import TagScript.Proofs.Engine.Keyword
import TagScript.Proofs.Engine.Passes
import TagScript.Proofs.Engine.Timetable
import TagScript.Proofs.Engine.Untouched
import TagScript.Proofs.Script.Filing
import TagScript.Proofs.Engine.Sufficient
import TagScript.Proofs.Script.Usage
import TagScript.Proofs.Script.Loading
import TagScript.Proofs.Command.Registration
import TagScript.Proofs.Outcome.Shelf
import TagScript.Proofs.Queue.Numbering
import TagScript.Proofs.Engine.Unheard
import TagScript.Proofs.Scheduler.Clock
import TagScript.Proofs.Engine.Returning
