import Burlmd.Library.Utf8
import Burlmd.Library.Machine
import Burlmd.Library.Table
import Burlmd.Okf.Classify
import Burlmd.Okf.Links
import Burlmd.Markdown.Ast
import Burlmd.Markdown.Events
import Burlmd.Markdown.Spans
import Burlmd.Markdown.Parser
import Burlmd.Markdown.Emission
import Burlmd.Markdown.Refinement
import Burlmd.Markdown.Simulation
import Burlmd.Markdown.RenderedText
import Burlmd.Markdown.TextFidelity
import Burlmd.Library.BottomUp
import Burlmd.Markdown.Registry
import Burlmd.Markdown.Finish
import Burlmd.Markdown.Layout
import Burlmd.Markdown.Measure
import Burlmd.Markdown.SpanFidelity
import Burlmd.Markdown.Coherence
import Burlmd.Markdown.SpanOrder
import Burlmd.Markdown.SpanAudit
import Burlmd.Markdown.SpanCoherence
import Burlmd.Error
import Burlmd.Index.Derive
import Burlmd.Workspace.LinksRewrite
import Burlmd.Workspace.LinkScan
import Burlmd.Index.LinkFidelity
import Burlmd.Workspace.Gate
import Burlmd.Workspace.LeaseGate
import Burlmd.Workspace.WriteLocks
import Burlmd.Index.Store
import Burlmd.Index.StoreInvariant
import Burlmd.Index.RowsOf
import Burlmd.Workspace.Bundle
import Burlmd.Index.Scan
import Burlmd.Index.Reindex
import Burlmd.Library.Checked
import Burlmd.Lifecycle.Retitle
import Burlmd.Lifecycle.Session
import Burlmd.Lifecycle.Reidentify
import Burlmd.Lifecycle.Operations
import Burlmd.Lifecycle.Names
import Burlmd.Lifecycle.Identity
import Burlmd.Snapshot.Schema
import Burlmd.Snapshot.Usable
import Burlmd.Snapshot.Store
import Burlmd.Snapshot.Preserved
import Burlmd.Lifecycle.Affected
import Burlmd.Lifecycle.OperationSpecs
import Burlmd.Lifecycle.RewriteShape
import Burlmd.Lifecycle.DraftsKept
import Burlmd.Lifecycle.History
import Burlmd.Lifecycle.SessionSpecs
import Burlmd.Lifecycle.Carried
import Burlmd.Lifecycle.Baseline
import Burlmd.Lifecycle.ForeignKept
import Burlmd.Lifecycle.Handles
import Burlmd.Lifecycle.Inert
import Burlmd.Lifecycle.Retired
import Burlmd.Index.Listing
import Burlmd.Index.Tree
import Burlmd.Lifecycle.TreeKept
import Burlmd.Shell.SessionState
import Burlmd.Shell.WorkspaceSession
import Burlmd.Shell.SnapshotScope
import Burlmd.Shell.OneWorkspace
import Burlmd.Workspace.RewriteExact
import Burlmd.Okf.Serialize
import Burlmd.Workspace.Absolutize
import Burlmd.Index.Completion
import Burlmd.Library.Lines
import Burlmd.Workspace.ConflictSuggestions
import Burlmd.Workspace.ConflictDocument
import Burlmd.Workspace.ConflictFidelity
import Burlmd.Library.Occurrence
import Burlmd.Git.Failure
import Burlmd.Git.Diagnostic
import Burlmd.Sync.Scheduler
import Burlmd.Workspace.Scratch
import Burlmd.Library.IgnoreFile
import Burlmd.Git.ScratchIgnored
import Burlmd.Markdown.BufferedEdit
import Burlmd.Markdown.DocumentOrder
import Burlmd.Markdown.EditRuns
import Burlmd.Library.BinarySearch
import Burlmd.Git.Tree
import Burlmd.Git.CommitPaths
import Burlmd.Git.PathEdits
import Burlmd.Git.IndexEntries
import Burlmd.Git.CommitExact
import Burlmd.Library.Extremum
import Burlmd.Library.Utf16
import Burlmd.Markdown.Resolve
import Burlmd.Markdown.SpanEnds
import Burlmd.Index.Existence
import Burlmd.Editor.Session
import Burlmd.Editor.Splice
import Burlmd.Editor.RangeEdits
import Burlmd.Editor.RangeExact
import Burlmd.Editor.Seams
import Burlmd.Editor.Addresses
import Burlmd.Editor.BlockEdits
import Burlmd.Editor.Continuation
import Burlmd.Editor.Reached
import Burlmd.Editor.SelectionSplit
import Burlmd.Editor.NamedBlock
import Burlmd.Shell.OpenNotes
import Burlmd.Markdown.Styles
import Burlmd.Library.Replacement
import Burlmd.Library.Surrogates
import Burlmd.Interface.Composition
import Burlmd.Library.CodeSpans
import Burlmd.Interface.Emphasis
import Burlmd.Interface.InlineCode
import Burlmd.Interface.CodeToggle
import Burlmd.Interface.Toggle
import Burlmd.Library.Tiling
import Burlmd.Markdown.Settled
import Burlmd.Interface.Leaves
import Burlmd.Interface.LeafLayout
import Burlmd.Interface.LeafOffsets
import Burlmd.Library.Deferred
import Burlmd.Interface.Widgets
import Burlmd.Interface.Painted
import Burlmd.Interface.Taps
import Burlmd.Interface.LinkOrder
import Burlmd.Interface.LinkPlans
import Burlmd.Interface.LinkTargets
import Burlmd.Interface.Delta
import Burlmd.Interface.Phantom
import Burlmd.Sync.Run
import Burlmd.Preferences.Store
import Burlmd.Preferences.Controller
import Burlmd.Preferences.Survival
import Burlmd.Markdown.Resolution
import Burlmd.Markdown.Descent
import Burlmd.Markdown.RunEnds
import Burlmd.Markdown.LinkedTree
import Burlmd.Editor.Resolved
import Burlmd.Markdown.Attended
import Burlmd.Markdown.RenderedMap
import Burlmd.Markdown.Caret
import Burlmd.Markdown.LastLeaf
import Burlmd.Interface.EnterAnchor
import Burlmd.Library.PathTree
import Burlmd.Library.Undo
import Burlmd.Workspace.FileCalls
import Burlmd.Lifecycle.Journal
import Burlmd.Lifecycle.AllOrNothing
import Burlmd.Lifecycle.Deletion
import Burlmd.Library.WriteBack
import Burlmd.Lifecycle.SessionLocks
import Burlmd.Lifecycle.WriteThrough
import Burlmd.Lifecycle.Durable
import Burlmd.Index.LostLinks
import Burlmd.Lifecycle.EveryLink
import Burlmd.Index.Mirror
import Burlmd.Lifecycle.PlanMirrored
import Burlmd.Lifecycle.IndexMirrored
import Burlmd.Lifecycle.DeletionMirrored
