import OverlaySync.Host.World
import OverlaySync.Main
import OverlaySync.Proofs.Deps.Grammar
import OverlaySync.Proofs.Deps.Meaning
import OverlaySync.Proofs.Deps.ReadingComplete
import OverlaySync.Proofs.Deps.ReadingSound
import OverlaySync.Proofs.Deps.Recognition
import OverlaySync.Proofs.Deps.RoundTrip
import OverlaySync.Proofs.Diff.Completeness
import OverlaySync.Proofs.Diff.LineText
import OverlaySync.Proofs.Diff.Splice
import OverlaySync.Proofs.Diff.Printing
import OverlaySync.Proofs.Diff.EditScript
import OverlaySync.Proofs.Deps.Assignments
import OverlaySync.Proofs.Deps.Canonical
import OverlaySync.Proofs.Deps.Stability
import OverlaySync.Proofs.Deps.Unambiguous
import OverlaySync.Proofs.Descriptor.Text
import OverlaySync.Proofs.Diff.Alignment
import OverlaySync.Proofs.Diff.ReversedText
import OverlaySync.Proofs.Diff.Reversal
import OverlaySync.Proofs.Files.Walks
import OverlaySync.Proofs.Host.Sessions
import OverlaySync.Proofs.Release.Making
import OverlaySync.Proofs.Generation.Effects
import OverlaySync.Proofs.Diff.Markers
import OverlaySync.Proofs.Files.Growth
import OverlaySync.Proofs.Host.Courses
import OverlaySync.Proofs.Release.Protocol
import OverlaySync.Proofs.Generation.Repetition
import OverlaySync.Proofs.Host.Chronicle
import OverlaySync.Proofs.Release.WorkingCopies
import OverlaySync.Proofs.Checkout.Repositories
import OverlaySync.Proofs.Deps.Contexts
import OverlaySync.Proofs.Deps.Excerpts
import OverlaySync.Proofs.Deps.Replacement
import OverlaySync.Proofs.Deps.Parentheses
import OverlaySync.Proofs.CommandLine.Switches
import OverlaySync.Proofs.CommandLine.DryRun
import OverlaySync.Proofs.Manifest.Validity
import OverlaySync.Proofs.Descriptor.CustomDeps
import OverlaySync.Proofs.RootFetch.PinnedRevision
import OverlaySync.Proofs.Diff.Acceptance
import OverlaySync.Proofs.LineEnds
import OverlaySync.Proofs.Deps.LineEnds
import OverlaySync.Proofs.Checkout.Plans
import OverlaySync.Proofs.Files.Replacing
import OverlaySync.Proofs.Descriptor.Writing
import OverlaySync.Proofs.Release.LastReference
import OverlaySync.Proofs.Deps.Formats
import OverlaySync.Proofs.Deps.Positions
import OverlaySync.Proofs.Deps.Spacing
import OverlaySync.Proofs.Deps.Composition
import OverlaySync.Proofs.Diff.LineEnds
import OverlaySync.Proofs.IgnorePolicy
import OverlaySync.Proofs.Diff.Bounds
import OverlaySync.Proofs.Deps.Progress
