import MiniLisp.Main
import MiniLisp.Reader.Grammar
import MiniLisp.Scope.Keyed
import MiniLisp.Token.Layout
import MiniLisp.Token.Stream
import MiniLisp.Value.Readable
import MiniLisp.Proofs.Eval.Preservation
import MiniLisp.Proofs.Reader.Contents
import MiniLisp.Proofs.Session.Safety
import MiniLisp.Proofs.Eval.Rules
import MiniLisp.Proofs.Reader.RoundTrip
import MiniLisp.Proofs.Eval.Adequacy
import MiniLisp.Proofs.Reader.Limits
import MiniLisp.Proofs.Reader.Spacing
import MiniLisp.Proofs.Value.Mentions
import MiniLisp.Proofs.Session.Replies
import MiniLisp.Proofs.Reader.Acceptance
import MiniLisp.Proofs.Eval.Limits
import MiniLisp.Proofs.Session.Limits
import MiniLisp.Proofs.Value.Alike
import MiniLisp.Proofs.Value.Linked
import MiniLisp.Proofs.Eval.Simulation
import MiniLisp.Proofs.Eval.Locality
import MiniLisp.Proofs.Session.Locality
import MiniLisp.Proofs.Reader.ReadBack
import MiniLisp.Proofs.Reader.Reprint
import MiniLisp.Proofs.Session.Application
import MiniLisp.Proofs.Scope.Overlay
import MiniLisp.Proofs.Call.Binding
import MiniLisp.Proofs.Reader.Viability
import MiniLisp.Proofs.Eval.Production
import MiniLisp.Proofs.Eval.Expansion
import MiniLisp.Proofs.Reader.Scanning
import MiniLisp.Proofs.Session.Spacing
import MiniLisp.Proofs.Eval.Notices
import MiniLisp.Proofs.Eval.Order
import MiniLisp.Proofs.Eval.Listing
import MiniLisp.Proofs.Eval.FirstOrder
import MiniLisp.Proofs.Value.Comparison
import MiniLisp.Proofs.Session.Logging
import MiniLisp.Proofs.Console.Startup
import MiniLisp.Proofs.Reader.Lookahead
import MiniLisp.Proofs.Value.Views
