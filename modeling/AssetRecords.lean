import AssetRecords.Main
import AssetRecords.Proofs.Armature.Forest
import AssetRecords.Proofs.DebugText.RoundTrip
import AssetRecords.Proofs.Json.Buffers
import AssetRecords.Proofs.Json.RoundTrip
import AssetRecords.Proofs.Packed.RoundTrip
import AssetRecords.Schema.Edit
import AssetRecords.Settings.Reader
import AssetRecords.Settings.Writer
import AssetRecords.Proofs.Json.Documents
import AssetRecords.Proofs.Asset.Consumption
import AssetRecords.Proofs.Packed.Consumption
import AssetRecords.Proofs.Truncation
import AssetRecords.Proofs.Blank
import AssetRecords.Proofs.Settings.Lines
import AssetRecords.Proofs.Settings.Sections
import AssetRecords.Proofs.Settings.RoundTrip
import AssetRecords.Proofs.Settings.Texts
import AssetRecords.Proofs.Settings.Headers
import AssetRecords.Proofs.DebugText.Whitespace
import AssetRecords.Proofs.DebugText.Lexemes
import AssetRecords.Proofs.DebugText.Following
import AssetRecords.Proofs.Packed.Limits
import AssetRecords.Proofs.Json.Decoding
import AssetRecords.Proofs.Json.Limits
import AssetRecords.Proofs.DebugText.Limits
import AssetRecords.Proofs.Asset.Limits
import AssetRecords.Proofs.Limits
import AssetRecords.Proofs.Optionals
import AssetRecords.Proofs.Singles
import AssetRecords.Proofs.Blocks
import AssetRecords.Proofs.Json.Objects
import AssetRecords.Proofs.Preorder
import AssetRecords.Proofs.Refusals
import AssetRecords.Proofs.Settings.Inventory
import AssetRecords.Proofs.Settings.Outline
import AssetRecords.Proofs.Settings.LastLine
import AssetRecords.Proofs.Settings.Edits
import AssetRecords.Proofs.Json.Sequences
import AssetRecords.Proofs.Asset.Wire
import AssetRecords.Proofs.Asset.Level
import AssetRecords.Proofs.Asset.Placeholder
import AssetRecords.Proofs.Armature.Clips
import AssetRecords.Proofs.Armature.Animation
import AssetRecords.Proofs.Escapes
import AssetRecords.Proofs.Atomicity
import AssetRecords.Proofs.DebugText.Quoting
import AssetRecords.Proofs.DebugText.Safety
import AssetRecords.Proofs.Settings.FirstFault
import AssetRecords.Proofs.Narrowing
import AssetRecords.Proofs.Representation
import AssetRecords.Proofs.Asset.Image
