import Smali.Main
import Smali.Query
import Smali.Proofs.Catalog
import Smali.Proofs.Descriptor
import Smali.Proofs.Literal
import Smali.Proofs.Nesting
import Smali.Proofs.Token.Steps
import Smali.Proofs.Line.Shape
import Smali.Proofs.Line.Move
import Smali.Proofs.Line.Instruction
import Smali.Proofs.Document.Run
import Smali.Proofs.Document.Blocks
import Smali.Proofs.Document.WellNested
import Smali.Proofs.Document.Tracking
import Smali.Proofs.Document.Members
import Smali.Proofs.Document.Recovery
import Smali.Proofs.Token.Resume
import Smali.Proofs.Line.Places
import Smali.Proofs.Token.Edited
import Smali.Proofs.Document.Diagnostics
import Smali.Proofs.Document.Outline
import Smali.Proofs.Document.Spans
import Smali.Proofs.Document.Opening
import Smali.Proofs.Descriptor.Comment
import Smali.Proofs.Token.Comment
import Smali.Proofs.Line.Comment
import Smali.Proofs.Document.Tally
import Smali.Proofs.Token.Layout
import Smali.Proofs.Line.Extent
import Smali.Proofs.Line.Accepted
import Smali.Proofs.Line.Encoded
import Smali.Proofs.Literal.Integer
import Smali.Proofs.Line.Label
import Smali.Proofs.Line.Declaration
import Smali.Proofs.Token.Around
import Smali.Proofs.Line.Around
import Smali.Proofs.Literal.Float
import Smali.Proofs.Token.Number
import Smali.Proofs.Line.Documented
import Smali.Proofs.Document.Blanks
import Smali.Proofs.Catalog.Rows
import Smali.Proofs.Token.At
import Smali.Proofs.Query
import Smali.Proofs.Token.Vocabulary
import Smali.Proofs.Document.Following
import Smali.Proofs.Descriptor.ClassPath
