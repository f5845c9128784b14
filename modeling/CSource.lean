import CSource.Proofs.Interning
import CSource.Proofs.Ownership
import CSource.Proofs.Refusal
import CSource.Proofs.Rendering
import CSource.Session
import CSource.Session.Outline
import CSource.Text.Buffer
import CSource.Proofs.Housing
import CSource.Proofs.Persistence
import CSource.Proofs.Typing
import CSource.Proofs.Marking
import CSource.Proofs.Dialects
import CSource.Proofs.Signatures
import CSource.Proofs.Touched
import CSource.Proofs.Lifecycle
import CSource.Proofs.Renaming
import CSource.Proofs.Reading
import CSource.Proofs.Independence
import CSource.Proofs.Parallel
import CSource.Proofs.Factories
import CSource.Proofs.Reordering
import CSource.Proofs.Placing
import CSource.Proofs.Inclusion
import CSource.Proofs.Writing
import CSource.Proofs.Contents
import CSource.Proofs.Selection
import CSource.Proofs.Declarators
import CSource.Proofs.Short
import CSource.Proofs.Recovery
import CSource.Proofs.Operands
import CSource.Proofs.Literals
import CSource.Proofs.Splicing
import CSource.Proofs.Brackets
import CSource.Proofs.Leaves
import CSource.Proofs.Balance
import CSource.Proofs.Rounding
import CSource.Proofs.Constants
import CSource.Proofs.Transparency
import CSource.Proofs.Attachment
import CSource.Proofs.Tags
import CSource.Proofs.Clauses
import CSource.Proofs.Headers
import CSource.Proofs.Access
import CSource.Proofs.Standing
import CSource.Proofs.MacroBodies
import CSource.Proofs.Lookup
import CSource.Proofs.Overwriting
import CSource.Proofs.Introductions
import CSource.Proofs.Names
