import RowCheck.Check
import RowCheck.Proofs.Typing.Matches
import RowCheck.Proofs.Infer.Hygiene
import RowCheck.Proofs.Match.Exhaustive
import RowCheck.Proofs.Match.Reachable
import RowCheck.Proofs.Ownership.Conflicts
import RowCheck.Proofs.Ownership.Exclusive
import RowCheck.Proofs.Ownership.Dangling
import RowCheck.Proofs.Ownership.Protected
import RowCheck.Proofs.Ownership.Calls
import RowCheck.Proofs.Ownership.Guards
import RowCheck.Proofs.Ownership.Accesses
import RowCheck.Proofs.Unify.Inclusions
import RowCheck.Proofs.Unify.MostGeneral
import RowCheck.Proofs.Unify.Obligations
import RowCheck.Proofs.Dependency.References
import RowCheck.Proofs.Principal.Currying
import RowCheck.Proofs.Check.Isolation
import RowCheck.Proofs.Check.Order
import RowCheck.Proofs.Check.Consistent
import RowCheck.Proofs.Check.Annotated
import RowCheck.Proofs.Match.Genuine
import RowCheck.Proofs.Match.Classified
import RowCheck.Proofs.Infer.Closing
import RowCheck.Proofs.Match.Scoping
import RowCheck.Proofs.Unify.Least
import RowCheck.Proofs.Unify.Symmetric
import RowCheck.Proofs.Infer.FreshCopy
import RowCheck.Proofs.Principal.Renaming
import RowCheck.Proofs.Check.Redefined
import RowCheck.Proofs.Check.Listing
import RowCheck.Proofs.Check.Partial
import RowCheck.Proofs.Unify.Mismatch
import RowCheck.Proofs.Unify.Rounds
import RowCheck.Proofs.Types.Compression
import RowCheck.Proofs.Match.Terminates
import RowCheck.Proofs.Match.Inspects
