import Phrasing.Compilation
import Phrasing.Content.Xxh3
import Phrasing.Json.Reader
import Phrasing.Proofs.Compaction
import Phrasing.Proofs.Content.Agreement
import Phrasing.Proofs.Content.Assembly
import Phrasing.Proofs.Content.Separation
import Phrasing.Proofs.Expansion.Depth
import Phrasing.Proofs.Expansion.Increments
import Phrasing.Proofs.Expansion.Limits
import Phrasing.Proofs.Expansion.Pipelines
import Phrasing.Proofs.Expansion.Reentry
import Phrasing.Proofs.Expansion.Replaying
import Phrasing.Proofs.Expansion.Savings
import Phrasing.Proofs.Expansion.Sweeping
import Phrasing.Proofs.Expansion.Tallies
import Phrasing.Proofs.Grammar.Parsing
import Phrasing.Proofs.Memo.Numbering
import Phrasing.Proofs.Positions
import Phrasing.Proofs.Store.Counting
import Phrasing.Proofs.Store.Retention
import Phrasing.Proofs.Traversal.Entrances
import Phrasing.Proofs.Traversal.Flattening
import Phrasing.Proofs.Traversal.Independence
import Phrasing.Proofs.Traversal.Passages
import Phrasing.Proofs.Traversal.Sequences
import Phrasing.Proofs.Traversal.Stopping
import Phrasing.Proofs.Traversal.Surfacing
import Phrasing.Proofs.Wordings
