import Ratum.Bitcoin.Hashing

/-!
# The merkle tree of a block

`merkle_tree_root` of `core/src/bitcoin.rs`, with the tree's branches on the coinbase's path: the walk over
the levels whose first entry is unknown takes the siblings of the walk over the levels of the whole tree.
-/

namespace Ratum

structure MerkleTreeRoot where
  root : Hash
  mutated : Bool
  deriving DecidableEq

/-- Whether two entries that are paired are equal. -/
def hasEqualPair : List Hash → Bool
  | a :: b :: level => a = b || hasEqualPair level
  | _ => false

namespace Hashing

variable (H : Hashing)

/-- The levels up to the root; as many as there are entries are enough. -/
def rootFrom : Nat → Bool → List Hash → Option MerkleTreeRoot
  | _, _, [] => none
  | _, mutated, [root] => some { root, mutated }
  | 0, _, _ => none
  | fuel + 1, mutated, level =>
      rootFrom fuel (mutated || hasEqualPair level) (nextLevel H.hashPair level)

def merkleTreeRoot (txids : List Hash) : Option MerkleTreeRoot := H.rootFrom txids.length false txids

/-- The pair of two entries, of which one may be unknown. -/
def pairKnown (a b : Option Hash) : Option Hash := a.bind fun a => b.map (H.hashPair a)

/-- The loop of `merkle_branches` with its `expect`: none when a sibling is unknown. -/
def knownBranchesOf : Nat → List (Option Hash) → Option (List Hash)
  | _, [] => some []
  | _, [_] => some []
  | 0, _ => none
  | fuel + 1, first :: sibling :: level => do
      let sibling ← sibling
      let branches ← knownBranchesOf fuel (nextLevel H.pairKnown (first :: sibling :: level))
      pure (sibling :: branches)

def knownMerkleBranches (txids : List Hash) : Option (List Hash) :=
  if txids.isEmpty then some [] else H.knownBranchesOf (txids.length + 1) (none :: txids.map some)

end Hashing

/-! ### The two walks -/

theorem length_nextLevel {T : Type} (hash : T → T → T) (level : List T) :
    (Hashing.nextLevel hash level).length = (level.length + 1) / 2 := by
  fun_induction Hashing.nextLevel hash level with
  | case1 => simp
  | case2 last => simp
  | case3 a b level ih =>
      rw [List.length_cons, ih, List.length_cons, List.length_cons]
      omega

namespace Hashing

variable (H : Hashing)

theorem nextLevel_map_some (level : List Hash) :
    nextLevel H.pairKnown (level.map some) = (nextLevel H.hashPair level).map some := by
  fun_induction nextLevel H.hashPair level with
  | case1 => rfl
  | case2 last => rfl
  | case3 a b level ih =>
      simp only [List.map_cons, nextLevel, ih]
      rfl

/-- The two walks from one level, of which all but the first entry are known. -/
theorem walks_eq (fuel : Nat) (mutated : Bool) (first : Hash) (known : List Hash)
    (hfuel : known.length ≤ fuel) :
    ∃ branches mutated', H.branchesOf fuel (none :: known.map some) = branches ∧
      H.knownBranchesOf fuel (none :: known.map some) = some branches ∧
      H.rootFrom fuel mutated (first :: known) =
        some { root := H.merkleRootFromBranches first branches, mutated := mutated' } := by
  induction fuel generalizing mutated first known with
  | zero =>
      obtain rfl := List.length_eq_zero_iff.mp (Nat.le_zero.mp hfuel)
      exact ⟨[], mutated, rfl, rfl, rfl⟩
  | succ fuel ih =>
      cases known with
      | nil => exact ⟨[], mutated, rfl, rfl, rfl⟩
      | cons sibling level =>
          have hshorter : (nextLevel H.hashPair level).length ≤ fuel := by
            rw [length_nextLevel]
            rw [List.length_cons] at hfuel
            omega
          obtain ⟨branches, mutated', hbranches, hknown, hroot⟩ :=
            ih (mutated || hasEqualPair (first :: sibling :: level)) (H.hashPair first sibling) _ hshorter
          rw [← nextLevel_map_some] at hbranches hknown
          refine ⟨sibling :: branches, mutated', ?_, ?_, hroot⟩
          · exact congrArg (List.cons sibling) hbranches
          · exact congrArg (fun found => found >>= fun branches => some (sibling :: branches)) hknown

variable (coinbaseId : Hash) (txids : List Hash)

/-- A sibling on the coinbase's path is known. -/
theorem knownMerkleBranches_eq : H.knownMerkleBranches txids = some (H.merkleBranches txids) := by
  rw [knownMerkleBranches, merkleBranches]
  split
  · rfl
  · obtain ⟨branches, -, hbranches, hknown, -⟩ :=
      H.walks_eq (txids.length + 1) false (Vector.replicate _ 0) txids (Nat.le_succ _)
    rw [hbranches, hknown]

/-- **The branches on the coinbase's path lead to the root of the tree.** -/
theorem merkleTreeRoot_eq :
    ∃ mutated, H.merkleTreeRoot (coinbaseId :: txids) =
      some { root := H.merkleRootFromBranches coinbaseId (H.merkleBranches txids), mutated } := by
  obtain ⟨branches, mutated, hbranches, -, hroot⟩ :=
    H.walks_eq (txids.length + 1) false coinbaseId txids (Nat.le_succ _)
  refine ⟨mutated, hroot.trans ?_⟩
  rw [merkleBranches]
  split
  · rename_i hempty
    obtain rfl := List.isEmpty_iff.mp hempty
    rw [← hbranches]
    rfl
  · rw [hbranches]

end Hashing
end Ratum
