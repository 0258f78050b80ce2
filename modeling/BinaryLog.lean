import BinaryLog.Wire.Item
import BinaryLog.File
import BinaryLog.Options.Text
import BinaryLog.Proofs.Embedded
import BinaryLog.Proofs.Expansion
import BinaryLog.Proofs.Depth
import BinaryLog.Proofs.Pieces
import BinaryLog.Proofs.Written
import BinaryLog.Proofs.Consumption
import BinaryLog.Proofs.Chunking
import BinaryLog.Proofs.Truncation
import BinaryLog.Proofs.Checksum
import BinaryLog.Proofs.Reads
import BinaryLog.Proofs.Corruption
import BinaryLog.Proofs.Cutting
import BinaryLog.Proofs.Description
import BinaryLog.Proofs.Validation
import BinaryLog.Proofs.Levels
import BinaryLog.Proofs.Trailers
import BinaryLog.Proofs.Writers
import BinaryLog.Proofs.Items
import BinaryLog.Proofs.Cursor
import BinaryLog.Proofs.Appending
import BinaryLog.Proofs.Rereading
import BinaryLog.Proofs.Given
import BinaryLog.Proofs.Strict
import BinaryLog.Proofs.StrictBodies
import BinaryLog.Proofs.StrictCutting
import BinaryLog.Proofs.StrictEvents
import BinaryLog.Proofs.Bounds
import BinaryLog.Proofs.Fields
import BinaryLog.Proofs.Shrinking
import BinaryLog.Proofs.LogFiles
import BinaryLog.Proofs.Kinds
import BinaryLog.Proofs.Forms
import BinaryLog.Proofs.FieldRows
import BinaryLog.Proofs.Headers
import BinaryLog.Proofs.Collecting
import BinaryLog.Proofs.Extraction
import BinaryLog.Proofs.Unmarked
import BinaryLog.Proofs.Grammars
import BinaryLog.Proofs.Walking
import BinaryLog.Proofs.GtidSets
import BinaryLog.Proofs.StatusBlocks
import BinaryLog.Proofs.Tables
import BinaryLog.Proofs.OwnEntry
import BinaryLog.Proofs.RowParts
import BinaryLog.Proofs.Padding
import BinaryLog.Proofs.ShortestForms
