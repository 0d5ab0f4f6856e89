import Statechart.Main
import Statechart.Proofs.Scope
import Statechart.Proofs.References
import Statechart.Proofs.Stop
import Statechart.Proofs.Termination
import Statechart.Proofs.Reachability
import Statechart.Proofs.Passage
import Statechart.Proofs.Once
import Statechart.Proofs.BreakOff
import Statechart.Proofs.Sequence
import Statechart.Proofs.Selection
import Statechart.Proofs.Report
import Statechart.Proofs.Vocabulary
import Statechart.Proofs.Writable
import Statechart.Proofs.Reads
import Statechart.Proofs.Frame
import Statechart.Proofs.Bound
import Statechart.Proofs.Lacking
import Statechart.Proofs.Provided
import Statechart.Proofs.Declared
import Statechart.Proofs.Rendering
import Statechart.Proofs.Audience
import Statechart.Proofs.Shortest
import Statechart.Proofs.Order
import Statechart.Proofs.CacheKey
import Statechart.Proofs.Served
import Statechart.Proofs.Expiry
import Statechart.Proofs.Deposit
import Statechart.Proofs.Readback
import Statechart.Proofs.Coverage
import Statechart.Proofs.Inline
import Statechart.Proofs.Piecewise
import Statechart.Proofs.Variables
import Statechart.Proofs.Verbatim
import Statechart.Proofs.Removal
import Statechart.Proofs.Lexical
import Statechart.Proofs.Registration
import Statechart.Proofs.Disabled
import Statechart.Proofs.Outermost
import Statechart.Proofs.Shorthand
import Statechart.Proofs.Alias
import Statechart.Proofs.Sharing
import Statechart.Proofs.Quantifiers
import Statechart.Proofs.Connectives
import Statechart.Proofs.Views
import Statechart.Proofs.EventNames
import Statechart.Proofs.Fields
import Statechart.Proofs.Reread
import Statechart.Proofs.Listing
