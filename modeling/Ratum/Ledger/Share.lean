import Ratum.Core.Bytes
import Mathlib.Data.List.TakeWhile

/-!
# A recorded share and its row

A share as the ledger records it, and the packed row the store keeps it under: two little-endian
words, the block hash, and the identity and the tag with a zero byte between them.
-/

namespace Ratum

structure Share where
  acceptedAt : UInt64
  identity : String
  difficulty : UInt64
  blockHash : Hash
  tagSecondary : String
  deriving DecidableEq

/-- The identity a username's shares are credited to: its address, up to the first dot, in the form
`canonical` gives it. -/
def identityOf (canonical : String → String) (username : String) : String :=
  canonical (String.ofList (username.toList.takeWhile (· ≠ '.')))

namespace Share

/-- The share's work in the window. -/
def work (share : Share) : Nat := share.difficulty.toNat

/-- What the checks in front of the ledger give: an identity is printable ASCII, and a share's
difficulty is a power of two. -/
structure Recordable (share : Share) : Prop where
  no_separator : 0 ∉ stringBytes share.identity
  work_pos : 0 < share.work

end Share

def NAME_SEPARATOR : UInt8 := 0x00

def splitAtSeparator (rest : Bytes) : Bytes × Bytes :=
  match rest.idxOf? NAME_SEPARATOR with
  | some i => (rest.take i, rest.drop (i + 1))
  | none => (rest, [])

theorem splitAtSeparator_append {name : Bytes} (hname : NAME_SEPARATOR ∉ name) (tail : Bytes) :
    splitAtSeparator (name ++ NAME_SEPARATOR :: tail) = (name, tail) := by
  have hidx : (name ++ NAME_SEPARATOR :: tail).idxOf? NAME_SEPARATOR = some name.length := by
    induction name with
    | nil => simp [List.idxOf?_cons]
    | cons b name ih =>
        rw [List.mem_cons, not_or] at hname
        obtain ⟨hb, hrest⟩ := hname
        rw [List.cons_append, List.idxOf?_cons]
        simp [Ne.symm hb, ih hrest]
  simp [splitAtSeparator, hidx]

def pack (share : Share) : Bytes :=
  leBytes 8 share.acceptedAt.toNat ++ (leBytes 8 share.difficulty.toNat ++
    (share.blockHash.toList ++
      (stringBytes share.identity ++ NAME_SEPARATOR :: stringBytes share.tagSecondary)))

/-- The fixed fields at the head of a packed row. -/
structure RowHead where
  acceptedAt : UInt64
  difficulty : UInt64
  blockHash : Hash
  deriving DecidableEq

/-- The fixed fields and the bytes after them. -/
def readHead (bytes : Bytes) : Option (RowHead × Bytes) := do
  let (acceptedAt, c) ← ((ByteReader.new bytes).u64 "accepted_at").toOption
  let (difficulty, c) ← (c.u64 "difficulty").toOption
  let (hash, c) ← (c.arr HASH_SIZE "hash").toOption
  pure (⟨acceptedAt, difficulty, hash⟩, c.rest)

def unpack (bytes : Bytes) : Option Share := do
  let (head, rest) ← readHead bytes
  let (identity, tag) := splitAtSeparator rest
  pure {
    acceptedAt := head.acceptedAt
    identity := fromUtf8Lossy identity
    difficulty := head.difficulty
    blockHash := head.blockHash
    tagSecondary := fromUtf8Lossy tag }

def unpackHead (bytes : Bytes) : Option RowHead := (readHead bytes).map Prod.fst

/-- The head of the row a share is packed into. -/
def Share.head (share : Share) : RowHead := ⟨share.acceptedAt, share.difficulty, share.blockHash⟩

theorem readHead_pack (share : Share) :
    readHead (pack share) = some (share.head,
      stringBytes share.identity ++ NAME_SEPARATOR :: stringBytes share.tagSecondary) := by
  simp only [readHead, pack, ByteReader.new, ByteReader.u64_leBytes, ByteReader.arr_append,
    Except.toOption, Option.bind_eq_bind, Option.bind_some]
  rfl

/-- A share read back from its row is the share recorded. -/
theorem unpack_pack {share : Share} (h : 0 ∉ stringBytes share.identity) :
    unpack (pack share) = some share := by
  simp only [unpack, readHead_pack, Option.bind_eq_bind, Option.bind_some,
    splitAtSeparator_append h, fromUtf8Lossy_stringBytes]
  rfl

/-- The head of a row is what the whole row holds in those fields: a scan of the heads sees the rows a
scan of the shares does. -/
theorem unpackHead_eq_map_unpack (bytes : Bytes) : unpackHead bytes = (unpack bytes).map Share.head := by
  unfold unpackHead unpack
  cases readHead bytes <;> rfl

end Ratum
