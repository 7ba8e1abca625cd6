import MatrixSymbol.Bitmap.Basic
import MatrixSymbol.Bitmap.Picture
import MatrixSymbol.Bounds
import MatrixSymbol.CharacterSet
import MatrixSymbol.Collaborator
import MatrixSymbol.Drawing
import MatrixSymbol.Extraction
import MatrixSymbol.Failure
import MatrixSymbol.Lattice
import MatrixSymbol.Number.Basic
import MatrixSymbol.Number.Decimal
import MatrixSymbol.Number.Rounding
import MatrixSymbol.Number.Word
import MatrixSymbol.Options
import MatrixSymbol.Payload
import MatrixSymbol.Pitch
import MatrixSymbol.PixelBuffer
import MatrixSymbol.Playback
import MatrixSymbol.Point
import MatrixSymbol.Proofs.Anchors
import MatrixSymbol.Proofs.Arithmetic
import MatrixSymbol.Proofs.Blackening
import MatrixSymbol.Proofs.Characters
import MatrixSymbol.Proofs.Checks
import MatrixSymbol.Proofs.Cropping
import MatrixSymbol.Proofs.Decoding
import MatrixSymbol.Proofs.Detection
import MatrixSymbol.Proofs.Discretion
import MatrixSymbol.Proofs.Drawing
import MatrixSymbol.Proofs.Enlargement
import MatrixSymbol.Proofs.Equality
import MatrixSymbol.Proofs.Estimates
import MatrixSymbol.Proofs.Exactness
import MatrixSymbol.Proofs.Extraction
import MatrixSymbol.Proofs.Fallback
import MatrixSymbol.Proofs.HalfTurn
import MatrixSymbol.Proofs.Lattice
import MatrixSymbol.Proofs.Layout
import MatrixSymbol.Proofs.Letters
import MatrixSymbol.Proofs.Margin
import MatrixSymbol.Proofs.Names
import MatrixSymbol.Proofs.Notes
import MatrixSymbol.Proofs.Numerals
import MatrixSymbol.Proofs.Options
import MatrixSymbol.Proofs.Painting
import MatrixSymbol.Proofs.Pictures
import MatrixSymbol.Proofs.Pitch
import MatrixSymbol.Proofs.Places
import MatrixSymbol.Proofs.Polls
import MatrixSymbol.Proofs.Protocol
import MatrixSymbol.Proofs.Raster
import MatrixSymbol.Proofs.Recovery
import MatrixSymbol.Proofs.Renderers
import MatrixSymbol.Proofs.Reporting
import MatrixSymbol.Proofs.Resolution
import MatrixSymbol.Proofs.Rounding
import MatrixSymbol.Proofs.Rows
import MatrixSymbol.Proofs.Runs
import MatrixSymbol.Proofs.Sampling
import MatrixSymbol.Proofs.Spacing
import MatrixSymbol.Proofs.Store
import MatrixSymbol.Proofs.Stray
import MatrixSymbol.Proofs.Transitions
import MatrixSymbol.Proofs.Transposition
import MatrixSymbol.Proofs.Undercount
import MatrixSymbol.Proofs.Verdicts
import MatrixSymbol.Proofs.Votes
import MatrixSymbol.Proofs.Walks
import MatrixSymbol.Reader
import MatrixSymbol.Record
import MatrixSymbol.Scan
import MatrixSymbol.Sighting
import MatrixSymbol.Specimen
import MatrixSymbol.Text.Blank
import MatrixSymbol.Text.Lowercase
import MatrixSymbol.Text.Search
import MatrixSymbol.Text.Words
import MatrixSymbol.Trace
import MatrixSymbol.Vote
