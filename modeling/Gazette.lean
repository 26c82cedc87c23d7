import Gazette.Main
import Gazette.Proofs.Blog.Integrity
import Gazette.Proofs.Request.Selection
import Gazette.Proofs.Request.Reading
import Gazette.Proofs.Blog.Readers
import Gazette.Proofs.Blog.Effects
import Gazette.Proofs.Request.Merging
import Gazette.Proofs.Request.Rendering
import Gazette.Proofs.Request.Arguments
import Gazette.Proofs.Request.Serving
import Gazette.Proofs.Request.Accepted
import Gazette.Proofs.Request.Introspection
import Gazette.Proofs.Request.Bubbling
import Gazette.Proofs.Request.Composition
import Gazette.Proofs.Blog.Serving
import Gazette.Proofs.Blog.Queries
import Gazette.Proofs.Request.NullItems
import Gazette.Proofs.Request.Undefined
import Gazette.Proofs.Blog.Rejections
import Gazette.Proofs.Blog.ReadYourWrites
import Gazette.Proofs.Request.Dispatch
import Gazette.Proofs.Request.Causes
import Gazette.Proofs.Request.Reordering
import Gazette.Proofs.Schema.Coercion
import Gazette.Proofs.Definition.Determined
import Gazette.Proofs.Definition.Validity
import Gazette.Proofs.Request.Asking
import Gazette.Proofs.Blog.Commuting
import Gazette.Proofs.Request.Unmet
import Gazette.Proofs.Request.Depth
import Gazette.Proofs.Service.Agreement
import Gazette.Proofs.Blog.Records
import Gazette.Proofs.Schema.Accessors
import Gazette.Proofs.Schema.Faults
import Gazette.Proofs.Definition.Description
import Gazette.Proofs.Definition.Literals
import Gazette.Proofs.Definition.Defaults
import Gazette.Proofs.Blog.Dates
import Gazette.Proofs.Blog.Contributions
import Gazette.Proofs.Blog.Summary
import Gazette.Proofs.Request.PrintedTypes
