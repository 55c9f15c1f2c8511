import EmbedSanitizer.IR.Value
import EmbedSanitizer.IR.Inst
import EmbedSanitizer.Semantics.Paths
import EmbedSanitizer.Pass.Callbacks
import EmbedSanitizer.Pass.Address
import EmbedSanitizer.Pass.Choose
import EmbedSanitizer.Pass.Traverse
import EmbedSanitizer.Pass.Selection
import EmbedSanitizer.Pass.Lowering
import EmbedSanitizer.Pass.Atomic
import EmbedSanitizer.Pass.Run
import EmbedSanitizer.Pass.EntryExit
import EmbedSanitizer.Pass.Slots
import EmbedSanitizer.Pass.Intrinsics
import EmbedSanitizer.Pass.Probes
import EmbedSanitizer.Pass.Kept
import EmbedSanitizer.Pass.Result
import EmbedSanitizer.Runtime.RaceReport
import EmbedSanitizer.Runtime.CallStack
import EmbedSanitizer.Runtime.Printed
import EmbedSanitizer.Runtime.Steps
