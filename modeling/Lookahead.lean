import Lookahead.Buffer.Window
import Lookahead.Source.Text
import Lookahead.Source.Device
import Lookahead.Source.Traced
import Lookahead.Utf8.Decoder
import Lookahead.Reader.Cursor
import Lookahead.Token.Binding.Grammar
import Lookahead.Token.Settings.Grammar
import Lookahead.Proofs.Buffer.Refinement
import Lookahead.Proofs.Buffer.Bounds
import Lookahead.Proofs.Reader.Mark
import Lookahead.Proofs.Reader.Position
import Lookahead.Proofs.Reader.Unseen
import Lookahead.Proofs.Reader.CallOrder
import Lookahead.Proofs.Reader.Retry
import Lookahead.Proofs.Reader.Laziness
import Lookahead.Proofs.Reader.Trivia
import Lookahead.Proofs.Reader.Failures
import Lookahead.Proofs.Reader.ShortSkip
import Lookahead.Proofs.Reader.BulkFailure
import Lookahead.Proofs.Reader.BrokenComment
import Lookahead.Proofs.Utf8.Readiness
import Lookahead.Proofs.Utf8.Exact
import Lookahead.Proofs.Utf8.Accounting
import Lookahead.Proofs.Token.Independence
import Lookahead.Proofs.Token.Ending
import Lookahead.Proofs.Token.Refused
