import SecureBoot.Bytes
import SecureBoot.Bytes.Crc
import SecureBoot.Bytes.Integer
import SecureBoot.Bytes.Sha2
import SecureBoot.Magic
import SecureBoot.Format
import SecureBoot.Text.Numeral
import SecureBoot.Text.Blank
import SecureBoot.Text.Utf8
import SecureBoot.Text.CodePage
import SecureBoot.Text.Hex
import SecureBoot.Text.Unprintable
import SecureBoot.Text.Quoted
import SecureBoot.Failure
import SecureBoot.Failure.Message
import SecureBoot.Edit
import SecureBoot.Stream
import SecureBoot.Fragment
import SecureBoot.Bytes.Field
import SecureBoot.Text.HexNumber
import SecureBoot.Buffer
import SecureBoot.Sequence
import SecureBoot.Expression
import SecureBoot.Expression.Parser
import SecureBoot.Key
import SecureBoot.Signature
import SecureBoot.Header.Configuration
import SecureBoot.Header.Section
import SecureBoot.Header.Certificate
import SecureBoot.Chain.Data
import SecureBoot.Chain.Entry
import SecureBoot.Chain.Order
import SecureBoot.Chain
import SecureBoot.Chain.Table
import SecureBoot.Chain.Descriptor
import SecureBoot.Container.Section
import SecureBoot.Container.Certificate
import SecureBoot.Container.Configuration
import SecureBoot.Files.Path
import SecureBoot.Files.Disk
import SecureBoot.Files
import SecureBoot.Signing.Module
import SecureBoot.Signing.Signer
import SecureBoot.Image
import SecureBoot.Zip.Deflate
import SecureBoot.Zip.Record
import SecureBoot.Zip.Entry
import SecureBoot.Zip.Listing
import SecureBoot.Zip.Directory
import SecureBoot.Zip
import SecureBoot.Archive.Container
import SecureBoot.Archive.Manifest
import SecureBoot.Archive
import SecureBoot.Zip.Container
import SecureBoot.Survey
import SecureBoot.Command
import SecureBoot.Main
import SecureBoot.Proofs.Call
import SecureBoot.Proofs.Bytes
import SecureBoot.Proofs.Buffer
import SecureBoot.Proofs.Stream
import SecureBoot.Proofs.Text
import SecureBoot.Proofs.Cursor
import SecureBoot.Proofs.Lookahead
import SecureBoot.Proofs.Reading
import SecureBoot.Proofs.Span
import SecureBoot.Proofs.Layout
import SecureBoot.Proofs.Sequence
import SecureBoot.Proofs.Key
import SecureBoot.Proofs.Data
import SecureBoot.Proofs.Entry
import SecureBoot.Proofs.Order
import SecureBoot.Proofs.Build
import SecureBoot.Proofs.Chain
import SecureBoot.Proofs.Table
import SecureBoot.Proofs.TableUpdate
import SecureBoot.Proofs.Descriptor
import SecureBoot.Proofs.Header
import SecureBoot.Proofs.Container
import SecureBoot.Proofs.Module
import SecureBoot.Proofs.Configuration
import SecureBoot.Proofs.Growth
import SecureBoot.Proofs.Grammar
import SecureBoot.Proofs.Rereading
import SecureBoot.Proofs.Parsing
import SecureBoot.Proofs.ByteView
import SecureBoot.Proofs.Recognition
import SecureBoot.Proofs.Restoring
import SecureBoot.Proofs.Flat
import SecureBoot.Proofs.Refreshing
import SecureBoot.Proofs.Signing
import SecureBoot.Proofs.Dispatch
import SecureBoot.Proofs.Checksum
import SecureBoot.Proofs.Upkeep
import SecureBoot.Proofs.ChainUpkeep
import SecureBoot.Proofs.ContainerUpkeep
import SecureBoot.Proofs.Tampering
import SecureBoot.Proofs.Burst
import SecureBoot.Proofs.Consistency
import SecureBoot.Proofs.Editing
import SecureBoot.Proofs.Atomicity
import SecureBoot.Proofs.Certifying
import SecureBoot.Proofs.Matching
import SecureBoot.Proofs.Manifest
import SecureBoot.Proofs.Rendering
import SecureBoot.Proofs.Export
import SecureBoot.Proofs.Deflate
import SecureBoot.Proofs.Disk
import SecureBoot.Proofs.Zip
import SecureBoot.Proofs.Archive
import SecureBoot.Proofs.Canonical
import SecureBoot.Proofs.Slots
import SecureBoot.Proofs.Proportions
import SecureBoot.Proofs.Storing
import SecureBoot.Proofs.Sealing
import SecureBoot.Proofs.Field
import SecureBoot.Proofs.Resuming
import SecureBoot.Proofs.Confinement
import SecureBoot.Proofs.Crossing
import SecureBoot.Proofs.HexNumber
import SecureBoot.Proofs.Filling
import SecureBoot.Proofs.MultiRoot
import SecureBoot.Proofs.Calls
import SecureBoot.Proofs.Provenance
