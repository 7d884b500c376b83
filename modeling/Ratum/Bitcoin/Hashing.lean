import Ratum.Core.Bytes

/-!
# Hashes and merkle trees

SHA-256 and BLAKE2b are parameters. `core/src/bitcoin.rs`: the double hash, a merkle root from the
branches of the coinbase's path, and those branches.
-/

namespace Ratum

/-- The hash functions the pool takes from other packages. -/
structure Hashing where
  sha256 : Bytes → Hash
  blake2b256 : Bytes → Hash

namespace Hashing

variable (H : Hashing)

def sha256d (data : Bytes) : Hash := H.sha256 (H.sha256 data).toList

def taggedSha256 (tag : String) (data : Bytes) : Hash :=
  let t := (H.sha256 (stringBytes tag)).toList
  H.sha256 (t ++ t ++ data)

def hashPair (left right : Hash) : Hash := H.sha256d (left.toList ++ right.toList)

/-- The next level of a merkle tree: an odd level's last entry is paired with itself. -/
def nextLevel {T : Type} (hash : T → T → T) : List T → List T
  | [] => []
  | [last] => [hash last last]
  | a :: b :: level => hash a b :: nextLevel hash level

def merkleRootFromBranches (coinbaseTxid : Hash) (branches : List Hash) : Hash :=
  branches.foldl H.hashPair coinbaseTxid

/-- The levels above one whose first entry is on the coinbase's path, a branch for each. -/
def branchesOf : Nat → List (Option Hash) → List Hash
  | 0, _ => []
  | _, [] => []
  | _, [_] => []
  | fuel + 1, first :: sibling :: level =>
      sibling.toList ++
        branchesOf fuel
          (nextLevel (fun a b => a.bind fun a => b.map (H.hashPair a)) (first :: sibling :: level))

def merkleBranches (txids : List Hash) : List Hash :=
  if txids.isEmpty then [] else H.branchesOf (txids.length + 1) (none :: txids.map some)

end Hashing

/-- The bytes of a hash in the other order. -/
def reversed (hash : Hash) : Hash := hash.reverse

/-- Two lowercase digits a byte. -/
def hexEncode (bytes : Bytes) : String :=
  String.ofList (bytes.flatMap fun b => [Nat.digitChar (b.toNat / 16), Nat.digitChar (b.toNat % 16)])

def hashToDisplayHex (v : Hash) : String := hexEncode (reversed v).toList

end Ratum
