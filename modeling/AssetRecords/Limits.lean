import AssetRecords.Error
/-!
# Limits on what is read

Data that cannot be trusted may nest only so deep and may declare only so many elements.
-/
namespace AssetRecords

/-- How deep a value may nest and how many elements one of its parts may declare. -/
structure Limits where
  maxDepth : Nat := 256
  maxElements : Nat := 16777216
  deriving DecidableEq, Repr

namespace Limits

def checkDepth (L : Limits) (depth : Nat) : Except Error Unit :=
  if L.maxDepth < depth then .error (.depthLimit L.maxDepth) else .ok ()

def checkCount (L : Limits) (count : Nat) : Except Error Unit :=
  if L.maxElements < count then .error (.malformed (.countLimit count L.maxElements)) else .ok ()

end Limits
end AssetRecords
