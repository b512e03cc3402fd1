import SatSearch.Main
import SatSearch.Proofs.Branching.Order
import SatSearch.Proofs.Decision
import SatSearch.Proofs.Dimacs.Grammar
import SatSearch.Proofs.Search.Consistent
import SatSearch.Proofs.Search.Faultless
import SatSearch.Proofs.ClauseScan.Verdict
import SatSearch.Proofs.Branching.Overflow
import SatSearch.Proofs.Dimacs.Encoding
import SatSearch.Proofs.Dimacs.Rendering
import SatSearch.Proofs.Search.Overflow
import SatSearch.Proofs.Cli.ModelLine
import SatSearch.Proofs.Cli.Session
import SatSearch.Proofs.Dimacs.Accepted
import SatSearch.Proofs.ClauseScan.Tally
import SatSearch.Proofs.ClauseScan.Climbs
import SatSearch.Proofs.Search.Path
import SatSearch.Proofs.Search.Undone
import SatSearch.Proofs.Search.Spent
import SatSearch.Proofs.Search.Costs
import SatSearch.Proofs.Enumeration.Least
import SatSearch.Proofs.Formula.Checks
import SatSearch.Proofs.Dimacs.Layout
import SatSearch.Proofs.Dimacs.Earliest
import SatSearch.Proofs.Search.Transcript
import SatSearch.Proofs.Search.Recorded
import SatSearch.Proofs.Text.OneLine
import SatSearch.Proofs.Log.Wording
import SatSearch.Proofs.Log.Reported
import SatSearch.Proofs.Dimacs.Wording
import SatSearch.Proofs.Cli.LineKinds
import SatSearch.Proofs.Cli.Readable
