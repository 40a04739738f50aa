import BoundSql.Compile
import BoundSql.Config
import BoundSql.Dialect.Shipped
import BoundSql.Query.Edit
import BoundSql.Query.Decode
import BoundSql.Proofs.Binding
import BoundSql.Proofs.Lowering.Agreement
import BoundSql.Proofs.Rebinding
import BoundSql.Proofs.Infix
import BoundSql.Proofs.Predicate
import BoundSql.Proofs.Lowering.Decision
import BoundSql.Proofs.WellFormed
import BoundSql.Proofs.Lowering.Forming
import BoundSql.Proofs.Lowering.Shipped
import BoundSql.Proofs.Moving
import BoundSql.Proofs.Numbering
import BoundSql.Proofs.Joining
import BoundSql.Proofs.Quoting
import BoundSql.Proofs.Markers
import BoundSql.Proofs.Spacing
import BoundSql.Proofs.Lowering.Mentions
import BoundSql.Proofs.AliasScoping
import BoundSql.Proofs.Enclosing
import BoundSql.Proofs.Reloading
import BoundSql.Proofs.Editing
import BoundSql.Proofs.Building
import BoundSql.Proofs.Texts
import BoundSql.Proofs.Respelling
import BoundSql.Proofs.Counting
import BoundSql.Proofs.Listing
import BoundSql.Proofs.Brackets
import BoundSql.Proofs.Inserting
import BoundSql.Proofs.Specifiers
import BoundSql.Proofs.Shorthand
import BoundSql.Proofs.Resolving
import BoundSql.Proofs.Seams
import BoundSql.Proofs.Edges
import BoundSql.Proofs.Unquoting
import BoundSql.Proofs.Collecting
import BoundSql.Proofs.Framing
import BoundSql.Proofs.Thinning
import BoundSql.Proofs.Omitting
import BoundSql.Proofs.Storing
