import AssetRecords.Scalar.Number
import AssetRecords.Scalar.Type
import AssetRecords.Text.Diagnostic
import AssetRecords.Text.Utf8
/-!
# What can go wrong

Each failure is a constructor that holds its cause; the wording of all of them is in the functions `message`.
-/
namespace AssetRecords

/-- What bytes can say that no value means, and sizes that cannot be had. -/
inductive Malformation where
  | countLimit (count limit : Nat)
  | presenceFlag (flag : UInt8)
  | boolByte (byte : UInt8)
  | elementTag (tag : UInt8)
  | trailingBytes (count offset : Nat)
  | bufferOverflow (count : Nat) (type : ScalarType)
  | capacityOverflow (bytes : Nat)
  | outOfMemory (bytes : Nat)
  | countOverflow (count : Nat)
  | negativeLength (action : String) (length : Int)
  | jointIndex (index joints : Nat)
  | note (text : String)
  deriving DecidableEq

def Malformation.message : Malformation → String
  | countLimit count limit => s!"element count {count} exceeds limit {limit}"
  | presenceFlag flag => s!"presence flag {flag.toNat}"
  | boolByte byte => s!"bool byte {byte.toNat}"
  | elementTag tag => s!"unknown element type tag {tag.toNat}"
  | trailingBytes count offset => s!"{count} trailing bytes at offset {offset}"
  | bufferOverflow count type => s!"buffer of {count} x {type.name} overflows"
  | capacityOverflow bytes => s!"cannot allocate {bytes} bytes: memory allocation failed because the computed " ++
      "capacity exceeded the collection's maximum"
  | outOfMemory bytes => s!"cannot allocate {bytes} bytes: memory allocation failed because the memory allocator " ++
      "returned an error"
  | countOverflow count => s!"element count {count} overflows"
  | negativeLength action length =>
    let shown := Text.inQuotes action
    s!"action {shown} has negative length {length}"
  | jointIndex index joints => s!"frame entry for joint {index} but armature has {joints}"
  | note text => text

/-- Why a text is not of its format. -/
inductive SyntaxFault where
  | expected (wanted : Char) (found : Option Char)
  | unbalanced
  | expectedSeparator (found : Option Char)
  | expectedValue
  | unterminatedString
  | truncatedEscape
  | badCodePoint (digits : String)
  | badEscape
  | elementType (name : String)
  | badNumber (token : String)
  | trailing
  | unterminatedHeader (line : String)
  | notAssignment (line : String)
  | badValue (key kind found : String)
  deriving DecidableEq

def SyntaxFault.message : SyntaxFault → String
  | expected wanted found =>
    let found := match found with
      | some c => String.ofList ['\'', c, '\'']
      | none => "end of text"
    s!"expected '{wanted}', found {found}"
  | unbalanced => "unbalanced closing bracket"
  | expectedSeparator found =>
    let found := match found with
      | some c => String.ofList ['\'', c, '\'']
      | none => "end of text"
    s!"expected ',' or closing bracket, found {found}"
  | expectedValue => "expected a value"
  | unterminatedString => "unterminated string"
  | truncatedEscape => "truncated \\u escape"
  | badCodePoint digits => "bad \\u escape " ++ Text.inQuotes digits
  | badEscape => "bad escape"
  | elementType name => "unknown element type " ++ Text.inQuotes name
  | badNumber token => "bad number " ++ Text.inQuotes token
  | trailing => "trailing characters"
  | unterminatedHeader line => "unterminated section header " ++ Text.inQuotes line
  | notAssignment line => "expected key=value, found " ++ Text.inQuotes line
  | badValue key kind found => s!"{key}: expected {kind}, found {found}"

/-- What a format has no way to express. -/
inductive Inexpressible where
  | rootNotRecord
  | multiLineText
  | shapeInSettings (kind : String)
  | notFinite (value : Double)
  | tooLarge (what : String) (count : Nat)
  | extension (name : String)
  deriving DecidableEq

def Inexpressible.format : Inexpressible → String
  | rootNotRecord | multiLineText | shapeInSettings _ => "INI"
  | notFinite _ => "JSON"
  | tooLarge _ _ => "binary"
  | extension _ => "asset"

def Inexpressible.message : Inexpressible → String
  | rootNotRecord => "non-record root"
  | multiLineText => "multi-line value"
  | shapeInSettings kind => kind
  | notFinite value => "non-finite number " ++ value.text
  | tooLarge what count => s!"{what} {count} too large"
  | extension name => "unknown extension " ++ Text.inQuotes name

/-- A failure to read or to write a value.  The last three leave their details to the reader of the file, of the tree
and of the picture. -/
inductive Error where
  | fileNotFound (path : String)
  | unexpectedEnd (offset requested size : Nat)
  | malformed (cause : Malformation)
  | jointCount (declared decoded : Nat)
  | depthLimit (limit : Nat)
  | unknownEnumKey (enum key : String)
  | unknownField (type key : String)
  | typeMismatch (expected actual : String)
  | noArrayStrategy (destination : String)
  | numericRange (value : Number) (target : ScalarType)
  | extentMismatch (expected actual : Nat)
  | windowTooSmall (required capacity : Nat)
  | sectionNesting (section_ field : String)
  | inexpressible (what : Inexpressible)
  | unsupportedImage (layout : String)
  | syntaxFault (offset : Nat) (fault : SyntaxFault)
  | inContent (path : String) (inner : Error)
  | notUtf8 (fault : Utf8.Fault)
  | file
  | tree
  | picture
  deriving DecidableEq

namespace Error

def message : Error → String
  | fileNotFound path => s!"File not found: {path}"
  | unexpectedEnd offset requested size =>
    s!"Unexpected end of data at offset {offset}: need {requested} bytes, content is {size} bytes"
  | malformed cause => s!"Invalid structure: {cause.message}"
  | jointCount declared decoded =>
    s!"Joint count mismatch: header declares {declared}, chains contain {decoded}"
  | depthLimit limit => s!"Nesting depth limit of {limit} exceeded"
  | unknownEnumKey enum key => s!"Unknown {enum} value: " ++ Text.inQuotes key
  | unknownField type key => s!"{type} has no field named " ++ Text.inQuotes key
  | typeMismatch expected actual => s!"Type mismatch: expected {expected}, got {actual}"
  | noArrayStrategy destination => s!"Cannot decode an array into {destination}"
  | numericRange value target => s!"Value {value.text} is out of range for {target.name}"
  | extentMismatch expected actual => s!"Extent mismatch: expected {expected} elements, got {actual}"
  | windowTooSmall required capacity => s!"Output buffer too small: need {required} bytes, have {capacity}"
  | sectionNesting name field =>
    s!"INI section [{name}] contains nested record " ++ Text.inQuotes field
  | inexpressible what => s!"Unsupported in {what.format}: {what.message}"
  | unsupportedImage layout => s!"Unsupported image: {layout}"
  | syntaxFault offset fault => s!"Syntax error at {offset}: {fault.message}"
  | inContent path inner => s!"{path}: {inner.message}"
  | notUtf8 fault => s!"Invalid UTF-8: {fault.message}"
  | file => "I/O error"
  | tree => "JSON parse error"
  | picture => "Image decode error"

/-- The failure named after the file it happened in; a failure that names a file already keeps that name. -/
def named (path : String) : Error → Error
  | inContent inner e => inContent inner e
  | e => inContent path e

def additional? : Error → Option Nat
  | windowTooSmall required capacity => some (required - capacity)
  | _ => none

/-- Where in the data or the text the failure was noticed. -/
def offset? : Error → Option Nat
  | unexpectedEnd offset _ _ => some offset
  | syntaxFault offset _ => some offset
  | inContent _ inner => inner.offset?
  | _ => none

end Error
end AssetRecords
