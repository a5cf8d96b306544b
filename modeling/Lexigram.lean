import Lexigram.Log
import Lexigram.Table
import Lexigram.Text.Blank
import Lexigram.Text.Quoted
import Lexigram.Text.Utf8
import Lexigram.Unicode.Folding
import Lexigram.Grammar.Token
import Lexigram.Grammar.Reader
import Lexigram.Grammar.Basic
import Lexigram.Grammar.Outline
import Lexigram.Grammar.Fault
import Lexigram.Grammar.Plain
import Lexigram.Pattern.Expr
import Lexigram.Pattern.Flags
import Lexigram.Pattern.Class
import Lexigram.Pattern.Reader
import Lexigram.Pattern.Search
import Lexigram.Lexis.Lexicon
import Lexigram.Stream.Window
import Lexigram.Stream.Lexer
import Lexigram.Stream.Worker
import Lexigram.Stream.Iteration
import Lexigram.Command.Run
import Lexigram.Main
import Lexigram.Proofs.Grammar.PlainLanguage
import Lexigram.Proofs.Pattern.SearchBounds
import Lexigram.Proofs.Stream.Reference
import Lexigram.Proofs.Stream.Delivery
import Lexigram.Proofs.Stream.Simulation
import Lexigram.Proofs.Stream.Refinement
import Lexigram.Proofs.Stream.ReadInvariance
import Lexigram.Proofs.Stream.Interleaving
import Lexigram.Proofs.Stream.Conservation
import Lexigram.Proofs.Grammar.Written
import Lexigram.Proofs.Grammar.Accepted
import Lexigram.Proofs.Grammar.Recognized
import Lexigram.Proofs.Grammar.ReadBack
import Lexigram.Proofs.Grammar.Names
import Lexigram.Proofs.Grammar.Tidy
import Lexigram.Proofs.Grammar.Denotation
import Lexigram.Proofs.Grammar.Roundtrip
import Lexigram.Proofs.Grammar.PrintOrder
import Lexigram.Proofs.Grammar.MadeUp
import Lexigram.Proofs.Grammar.PlainForm
import Lexigram.Proofs.Grammar.PlainSuccess
import Lexigram.Proofs.Grammar.Language
import Lexigram.Proofs.Pattern.Lookahead
import Lexigram.Proofs.Pattern.Escapes
import Lexigram.Proofs.Pattern.Classes
import Lexigram.Proofs.Pattern.Elements
import Lexigram.Proofs.Pattern.Embedding
import Lexigram.Proofs.Pattern.Runs
import Lexigram.Proofs.Pattern.Leftmost
import Lexigram.Proofs.Pattern.Blocks
import Lexigram.Proofs.Pattern.Alternatives
import Lexigram.Proofs.Pattern.Enclosed
import Lexigram.Proofs.Pattern.Recording
import Lexigram.Proofs.Pattern.Meaning
import Lexigram.Proofs.Pattern.Language
import Lexigram.Proofs.Pattern.Choices
import Lexigram.Proofs.Pattern.Composites
import Lexigram.Proofs.Lexis.Assembly
import Lexigram.Proofs.Lexis.Dispatch
import Lexigram.Proofs.Lexis.Fragments
import Lexigram.Proofs.Lexis.Unfolding
import Lexigram.Proofs.Stream.Recovery
import Lexigram.Proofs.Text.Encoding
import Lexigram.Proofs.Stream.TokenTexts
import Lexigram.Proofs.Grammar.Drafts
import Lexigram.Proofs.Grammar.Edits
import Lexigram.Proofs.Grammar.Additions
import Lexigram.Proofs.Stream.Passes
import Lexigram.Proofs.Stream.Reads
import Lexigram.Proofs.Stream.Progress
import Lexigram.Proofs.Stream.Deadlock
import Lexigram.Proofs.Stream.Finality
import Lexigram.Proofs.Lexis.References
import Lexigram.Proofs.Lexis.Validation
import Lexigram.Proofs.Pattern.Juxtaposition
import Lexigram.Proofs.Lexis.Acceptance
import Lexigram.Proofs.Lexis.Sequences
import Lexigram.Proofs.Stream.WholeRuns
import Lexigram.Proofs.Command.Lexing
import Lexigram.Proofs.Pattern.Cutting
import Lexigram.Proofs.Pattern.CutElements
import Lexigram.Proofs.Pattern.Unwrapping
import Lexigram.Proofs.Lexis.Standalone
import Lexigram.Proofs.Grammar.Variants
import Lexigram.Proofs.Lexis.Visits
import Lexigram.Proofs.Grammar.Directions
import Lexigram.Proofs.Grammar.Culprits
import Lexigram.Proofs.Grammar.Stability
import Lexigram.Proofs.Grammar.Lexemes
import Lexigram.Proofs.Grammar.Spelling
import Lexigram.Proofs.Grammar.Comments
import Lexigram.Proofs.Grammar.Whereabouts
import Lexigram.Proofs.Grammar.ErrorPlaces
import Lexigram.Proofs.Stream.Storage
import Lexigram.Proofs.Text.Boundaries
import Lexigram.Proofs.Text.Unfinished
import Lexigram.Proofs.Stream.Pieces
import Lexigram.Proofs.Stream.Positions
import Lexigram.Proofs.Stream.Interruptions
import Lexigram.Proofs.Stream.Failures
import Lexigram.Proofs.Grammar.Literals
import Lexigram.Proofs.Grammar.FirstFaults
import Lexigram.Proofs.Lexis.OuterBars
