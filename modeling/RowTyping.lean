import RowTyping.Checker
import RowTyping.Expr.Builder
import RowTyping.Proofs.Unification.Stability
import RowTyping.Proofs.Unification.Cycles
import RowTyping.Proofs.Unification.MostGeneral
import RowTyping.Proofs.Layout
import RowTyping.Proofs.Reach
import RowTyping.Proofs.Unification.Finite
import RowTyping.Proofs.Unification.Symmetry
import RowTyping.Proofs.Inference.Flush
import RowTyping.Proofs.Inference.Closing
import RowTyping.Proofs.Soundness
import RowTyping.Proofs.Elaboration
import RowTyping.Proofs.EffectFlow
import RowTyping.Proofs.Unification.Labelling
import RowTyping.Proofs.EffectSoundness
import RowTyping.Proofs.LinearCapabilities
import RowTyping.Proofs.SchemeTable
import RowTyping.Proofs.Numbering
import RowTyping.Proofs.Tracing
import RowTyping.Proofs.Supplies
import RowTyping.Proofs.Consistency
import RowTyping.Proofs.Cascades
import RowTyping.Proofs.Dictionaries
import RowTyping.Proofs.Unification.Extension
import RowTyping.Proofs.Unification.Kinding
import RowTyping.Proofs.Registry.Derivation
import RowTyping.Proofs.Generalization
import RowTyping.Proofs.Registry.Defaults
import RowTyping.Proofs.Accounting
import RowTyping.Proofs.Registry.Hierarchy
import RowTyping.Proofs.Registry.Reduction
import RowTyping.Proofs.EffectUnion
import RowTyping.Proofs.Signatures
import RowTyping.Proofs.Positional
import RowTyping.Proofs.Surroundings
import RowTyping.Proofs.RecordPatterns
import RowTyping.Proofs.Naming
import RowTyping.Proofs.Sharing
import RowTyping.Proofs.Values
import RowTyping.Proofs.Freshness
import RowTyping.Proofs.Traversals
import RowTyping.Proofs.Inference.Histories
