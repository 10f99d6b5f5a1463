import DocExport.Main
import DocExport.Proofs.Fit
import DocExport.Proofs.Path
import DocExport.Proofs.Selection
import DocExport.Proofs.Collecting
import DocExport.Proofs.Leaves
import DocExport.Proofs.Table
import DocExport.Proofs.SeparatedValues
import DocExport.Proofs.Ambiguity
import DocExport.Proofs.Recovery
import DocExport.Proofs.LeafPaths
import DocExport.Proofs.Rebuilding
import DocExport.Proofs.Elements
import DocExport.Proofs.ElementNames
import DocExport.Proofs.Characters
import DocExport.Proofs.Reading
import DocExport.Proofs.Responses
import DocExport.Proofs.RoundTrip
import DocExport.Proofs.Scanning
import DocExport.Proofs.StoppedWrite
import DocExport.Proofs.Blocked
import DocExport.Proofs.Untouched
import DocExport.Proofs.Overlap
import DocExport.Proofs.Descent
import DocExport.Proofs.Growth
import DocExport.Proofs.FunctionName
import DocExport.Proofs.NamePattern
import DocExport.Proofs.FormEncoding
import DocExport.Proofs.Flags
import DocExport.Proofs.Metadata
import DocExport.Proofs.Processing
import DocExport.Proofs.Columns
import DocExport.Proofs.Runs
import DocExport.Proofs.Lines
import DocExport.Proofs.ItemList
