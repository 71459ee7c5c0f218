import Krl.Json.Decode
import Krl.Json.Encode
import Krl.Outline
import Krl.Parse
import Krl.Proofs.Grammar.Agenda
import Krl.Proofs.Grammar.Closure
import Krl.Proofs.Grammar.Congruence
import Krl.Proofs.Grammar.Counting
import Krl.Proofs.Grammar.Judgement
import Krl.Proofs.Grammar.Nesting
import Krl.Proofs.Grammar.Pieces
import Krl.Proofs.Grammar.Recognition
import Krl.Proofs.Grammar.Sights
import Krl.Proofs.Grammar.Unambiguity
import Krl.Proofs.Json.Faithful
import Krl.Proofs.Language.Blame
import Krl.Proofs.Language.Checks
import Krl.Proofs.Language.Gathering
import Krl.Proofs.Language.Lifting
import Krl.Proofs.Language.Naturality
import Krl.Proofs.Language.Placing
import Krl.Proofs.Language.Ranks
import Krl.Proofs.Language.Readings
import Krl.Proofs.Parse.Agreement
import Krl.Proofs.Parse.Ambiguity
import Krl.Proofs.Parse.Embedding
import Krl.Proofs.Parse.Failures
import Krl.Proofs.Parse.Layout
import Krl.Proofs.Parse.Location
import Krl.Proofs.Parse.Operands
import Krl.Proofs.Parse.Slices
import Krl.Proofs.Parse.Spans
import Krl.Proofs.Parse.WellFormed
import Krl.Proofs.Token.Cuts
import Krl.Proofs.Token.Failures
import Krl.Proofs.Token.Tiling
import Krl.Proofs.Token.Extensions
import Krl.Proofs.Token.Translation
import Krl.Proofs.Token.Spacing
import Krl.Proofs.Language.Phrases
import Krl.Proofs.Syntax.Climbing
import Krl.Proofs.Parse.Precedence
import Krl.Proofs.Parse.EventPrecedence
import Krl.Proofs.Language.Storable
import Krl.Proofs.Binary64.Overflow
import Krl.Proofs.Token.Numerals
import Krl.Proofs.Parse.Storage
import Krl.Proofs.Token.LongestMatch
import Krl.Proofs.Token.Compositions
import Krl.Proofs.Token.Defects
import Krl.Proofs.Parse.Runs
import Krl.Proofs.Parse.RulesetIds
import Krl.Proofs.Parse.StatementLists
import Krl.Proofs.Parse.Aggregators
import Krl.Proofs.Diagnostic.Cleaning
import Krl.Proofs.Diagnostic.Positions
import Krl.Proofs.Diagnostic.WordBounds
import Krl.Proofs.Grammar.Saturation
import Krl.Proofs.Grammar.Termination
