import StrandScript.Session
import StrandScript.Fibonacci
import StrandScript.Main
import StrandScript.Workload.Running
import StrandScript.Workload.Listing
import StrandScript.Proofs.Layout
import StrandScript.Proofs.LiteralSum
import StrandScript.Proofs.CanonicalTree
import StrandScript.Proofs.Loop
import StrandScript.Proofs.Frame
import StrandScript.Proofs.Numbering
import StrandScript.Proofs.Overlap
import StrandScript.Proofs.Moving
import StrandScript.Proofs.Interchange
import StrandScript.Proofs.TableReach
import StrandScript.Proofs.TrailingBlanks
import StrandScript.Proofs.StrayFaults
import StrandScript.Proofs.Lookups
import StrandScript.Proofs.MissingFields
import StrandScript.Proofs.Printing
import StrandScript.Proofs.Mirror
import StrandScript.Proofs.Assignment
import StrandScript.Proofs.LineText
import StrandScript.Proofs.Execution
import StrandScript.Proofs.Faithful
import StrandScript.Proofs.ActionOrder
import StrandScript.Proofs.CellsBefore
import StrandScript.Proofs.ColumnSides
import StrandScript.Proofs.Staggered
import StrandScript.Proofs.PerfectPairing
import StrandScript.Proofs.BlockLinks
import StrandScript.Proofs.Turns
import StrandScript.Proofs.Growth
import StrandScript.Proofs.WriteFaults
import StrandScript.Proofs.ListSizes
import StrandScript.Proofs.References
import StrandScript.Proofs.FibonacciNumbers
import StrandScript.Proofs.GlyphSigns
import StrandScript.Proofs.CutCells
import StrandScript.Proofs.CutInPlace
import StrandScript.Proofs.DrawnStrands
import StrandScript.Proofs.KeptFiles
