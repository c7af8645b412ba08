import PromTree.Advice
import PromTree.Binary64.Basic
import PromTree.Binary64.Rounding
import PromTree.Config
import PromTree.Decimal.Basic
import PromTree.Decimal.Fixed
import PromTree.Decimal.Shortest
import PromTree.Digest.Sha256
import PromTree.Duration
import PromTree.Explanation
import PromTree.Expr.Basic
import PromTree.Expr.Codec
import PromTree.Expr.Functions
import PromTree.Expr.Operators
import PromTree.Expr.Printer
import PromTree.Json.Basic
import PromTree.Json.Decoding
import PromTree.Json.Printer
import PromTree.Json.Reader
import PromTree.Matching.Arithmetic
import PromTree.Matching.Codec
import PromTree.Matching.Groups
import PromTree.Proofs.Advice
import PromTree.Proofs.Advice.Chains
import PromTree.Proofs.Duration
import PromTree.Proofs.Explanation
import PromTree.Proofs.Expr.Canonical
import PromTree.Proofs.Expr.Codec
import PromTree.Proofs.Expr.Completion
import PromTree.Proofs.Expr.Decoding
import PromTree.Proofs.Expr.Edited
import PromTree.Proofs.Expr.Gaps
import PromTree.Proofs.Expr.Layout
import PromTree.Proofs.Expr.Matchers
import PromTree.Proofs.Expr.Parentheses
import PromTree.Proofs.Expr.Positions
import PromTree.Proofs.Expr.Quoting
import PromTree.Proofs.Expr.Reading
import PromTree.Proofs.Expr.SignedLiterals
import PromTree.Proofs.Json.Ordering
import PromTree.Proofs.Json.Places
import PromTree.Proofs.Matching.Agreement
import PromTree.Proofs.Matching.Ambiguity
import PromTree.Proofs.Matching.Distinct
import PromTree.Proofs.Matching.Limits
import PromTree.Proofs.Matching.Mirror
import PromTree.Proofs.Matching.Piles
import PromTree.Proofs.Matching.Reordering
import PromTree.Proofs.Matching.Scalars
import PromTree.Proofs.Matching.SetOperators
import PromTree.Proofs.Matching.Table
import PromTree.Proofs.Matching.Truth
import PromTree.Proofs.Query.Clauses
import PromTree.Proofs.Query.Constraints
import PromTree.Proofs.Query.Meaning
import PromTree.Proofs.Query.Times
import PromTree.Proofs.Query.WellFormed
import PromTree.Proofs.Session.Checks
import PromTree.Proofs.Session.ClearedTimes
import PromTree.Proofs.Session.Codec
import PromTree.Proofs.Session.Delivery
import PromTree.Proofs.Session.Editing
import PromTree.Proofs.Session.Freshness
import PromTree.Proofs.Session.History
import PromTree.Proofs.Session.Invariant
import PromTree.Proofs.Session.KeptSelection
import PromTree.Proofs.Session.Outcome
import PromTree.Proofs.Session.Rejection
import PromTree.Proofs.Session.Rounds
import PromTree.Proofs.Session.Selection
import PromTree.Proofs.Session.SharedSelection
import PromTree.Proofs.Session.Sharing
import PromTree.Proofs.Session.Upgrading
import PromTree.Proofs.SortedMap
import PromTree.Proofs.Summary
import PromTree.Proofs.Tree.Ancestry
import PromTree.Proofs.Tree.Flattening
import PromTree.Proofs.Tree.Frame
import PromTree.Proofs.Tree.LinkCheck
import PromTree.Proofs.Tree.Nested
import PromTree.Proofs.Tree.Numbering
import PromTree.Proofs.Tree.Replacement
import PromTree.Proofs.Tree.RoundTrip
import PromTree.Proofs.Tree.Soundness
import PromTree.Proofs.Tree.Traversals
import PromTree.Proofs.Tree.Unfolding
import PromTree.Query
import PromTree.Query.Lexer
import PromTree.Query.Literal
import PromTree.Query.Meaning
import PromTree.Query.Reader
import PromTree.Query.Span
import PromTree.Query.Term
import PromTree.Query.Token
import PromTree.Query.Typing
import PromTree.Regex.Basic
import PromTree.Regex.Matcher
import PromTree.Regex.Property
import PromTree.Regex.Reader
import PromTree.Sample.Basic
import PromTree.Sample.Codec
import PromTree.Sample.QueryState
import PromTree.Sample.Summary
import PromTree.SampleValue
import PromTree.Server.Api
import PromTree.Server.Client
import PromTree.Server.Settings
import PromTree.Server.Status
import PromTree.Server.Url
import PromTree.Service
import PromTree.Session.Action
import PromTree.Session.Basic
import PromTree.Session.Edit
import PromTree.Session.History
import PromTree.Session.Selection
import PromTree.Session.Share
import PromTree.Session.Visualizer
import PromTree.SortedMap
import PromTree.Text.Blank
import PromTree.Text.Digits
import PromTree.Toml.Basic
import PromTree.Toml.Reader
import PromTree.Toml.Scalar
import PromTree.Toml.Text
import PromTree.Tree.Basic
import PromTree.Tree.Edit
import PromTree.Tree.Links
import PromTree.Tree.Numbering
import PromTree.Tree.Order
import PromTree.Tree.Rebuilding
