import Narrative.Json.Reader
import Narrative.Json.Writer
import Narrative.Expr.Parser
import Narrative.Value.Access
import Narrative.Registry
import Narrative.State.Json
import Narrative.Library
import Narrative.World.Layering
import Narrative.Addon.Manager
import Narrative.Addon.Script
import Narrative.Session.Saving
import Narrative.Storage.Change
import Narrative.Storage.Zip
import Narrative.Tool.Check
import Narrative.Tool.Manage
import Narrative.Tool.Play
import Narrative.Main
import Narrative.Proofs.Course.Plan
import Narrative.Proofs.Course.Eval
import Narrative.Proofs.Course.Render
import Narrative.Proofs.Course.Dispatch
import Narrative.Proofs.Course.Session
import Narrative.Proofs.Except
import Narrative.Proofs.State.Change
import Narrative.Proofs.State.Sound
import Narrative.Proofs.Addon.Scripted
import Narrative.Proofs.Session.Run
import Narrative.Proofs.Expr.Complete
import Narrative.Proofs.Expr.Derived
import Narrative.Proofs.Expr.Lexing
import Narrative.Proofs.Expr.Literal
import Narrative.Proofs.Shorthand.Call
import Narrative.Proofs.Shorthand.Contained
import Narrative.Proofs.Render.Comparison
import Narrative.Proofs.Addon.Install
import Narrative.Proofs.World.Resolution
import Narrative.Proofs.Template.RoundTrip
import Narrative.Proofs.Session.Failure
import Narrative.Proofs.Course.Nesting
import Narrative.Proofs.Json.Record
import Narrative.Proofs.Instant
import Narrative.Proofs.Session.Snapshot
import Narrative.Proofs.Session.Loaded
import Narrative.Proofs.Json.RoundTrip
import Narrative.Proofs.Render.Append
import Narrative.Proofs.Template.Header
import Narrative.Proofs.Addon.Loading
import Narrative.Proofs.Session.Action
import Narrative.Proofs.Session.ReadOnly
import Narrative.Proofs.Render.Foreign
import Narrative.Proofs.Session.Saved
import Narrative.Proofs.Addon.Persistence
import Narrative.Proofs.Session.Time
import Narrative.Proofs.Lint.Clean
import Narrative.Proofs.Session.History
import Narrative.Proofs.State.Part
import Narrative.Proofs.Verb.Local
import Narrative.Proofs.Addon.Recorded
import Narrative.Proofs.Template.Cutting
import Narrative.Proofs.Template.Embedded
import Narrative.Proofs.Addon.Refused
import Narrative.Proofs.Template.WellFormed
import Narrative.Proofs.Render.Scopes
import Narrative.Proofs.Render.Arithmetic
import Narrative.Proofs.Render.Builtins
import Narrative.Proofs.Clock.Calendar
import Narrative.Proofs.State.Holding
import Narrative.Proofs.Library
import Narrative.Proofs.World.Report
import Narrative.Proofs.Flag
import Narrative.Proofs.Expr.Plain
import Narrative.Proofs.Expr.Dotted
import Narrative.Proofs.Lint.Alarm
import Narrative.Proofs.Expr.Sign
import Narrative.Proofs.Render.Plain
import Narrative.Proofs.Render.Blanks
