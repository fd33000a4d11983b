import Formula.Draft.Transcript
import Formula.Engine.Call
import Formula.Engine.Session
import Formula.Sample
import Formula.Token.Grammar
import Formula.Token.Spelling
import Formula.Tree.Core
import Formula.Tree.Listing
import Formula.Tree.Outline
import Formula.Tree.Tokens
import Formula.Proofs.Draft.Move
import Formula.Proofs.Draft.Viable
import Formula.Proofs.Tree.Parts
import Formula.Proofs.Draft.Shape
import Formula.Proofs.Draft.Tokens
import Formula.Proofs.Draft.Precedence
import Formula.Proofs.Token.Written
import Formula.Proofs.Parse
import Formula.Proofs.Grammar.Meaning
import Formula.Proofs.Grammar.Soundness
import Formula.Proofs.Grammar.Completeness
import Formula.Proofs.Grammar.Acceptance
import Formula.Proofs.Tree.Core
import Formula.Proofs.Tree.Render
import Formula.Proofs.RoundTrip
import Formula.Proofs.Tree.Outline
import Formula.Proofs.Rendering
import Formula.Proofs.Draft.Prefix
import Formula.Proofs.Engine.Transparency
import Formula.Proofs.Decimal.Literal
import Formula.Proofs.Tree.Failure
import Formula.Proofs.Sign
import Formula.Proofs.Cause
import Formula.Draft.Linked
import Formula.Proofs.Linked.Layout
import Formula.Proofs.Linked.Refinement
import Formula.Proofs.Linked.WellFormed
import Formula.Proofs.Token.Reading
import Formula.Proofs.Distinct
import Formula.Proofs.Variables
import Formula.Proofs.Tree.Dependency
import Formula.Engine.History
import Formula.Engine.Recency
import Formula.Proofs.Engine.Recency
import Formula.Proofs.Draft.Mirror
import Formula.Proofs.Replacement
import Formula.Proofs.Linked.Replay
import Formula.Proofs.Token.Remainder
import Formula.Proofs.Draft.Depth
import Formula.Proofs.Draft.Inside
import Formula.Proofs.Draft.Hollow
import Formula.Proofs.Parentheses
import Formula.Proofs.Calls
import Formula.Proofs.Draft.Behind
import Formula.Proofs.Linked.Closed
