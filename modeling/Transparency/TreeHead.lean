import Transparency.Bytes.Hex
import Transparency.Digest
import Transparency.Sct

/-!
# Signed tree heads

A log commits itself to the entries of its tree by signing the root, the size and the time.
-/
namespace Transparency

structure TreeHead where
  timestamp : Instant := .epoch
  treeSize : UInt64 := 0
  root : Digest := .zero
  logId : Bytes := []
  signature : Signature := {}
deriving DecidableEq, Inhabited

namespace TreeHead

def signedFields (head : TreeHead) : List Wire.Field :=
  [.uint 1 version, .uint 1 1, head.timestamp.field, .uint 8 head.treeSize.toNat,
    .fixed head.root.bytes]

def signedData (head : TreeHead) : Except Halt Wire.Encoding := Wire.write head.signedFields

def appendSigned (head : TreeHead) : Wire.Adding Bool := Wire.append head.signedFields

def text (head : TreeHead) : String :=
  let member := fun name value => "\t\"" ++ name ++ "\": " ++ value
  "\x7b\n" ++ String.intercalate ",\n"
    [member "version" (toString version),
      member "timestamp" head.timestamp.text,
      member "tree_size" (toString head.treeSize.toNat),
      member "sha256_root_hash" ("\"" ++ Hex.text head.root.bytes ++ "\""),
      member "log_id" ("\"" ++ Hex.text head.logId ++ "\"")] ++ "\n\x7d"

end TreeHead

end Transparency
