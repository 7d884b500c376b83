import Ratum.Accounting.KeptHashes
import Ratum.Connection.Owned
import Ratum.Connection.Server
import Ratum.Ledger.Runs

/-!
# The connections of a pool and its ledger

The connections over the hashes accepted, beside the store their shares are recorded in, over any number of
starts of the pool. Each share recorded is a commit of its own, which is what a batch is in its order, and
retention runs whenever it may, with any floor. A restart opens what the database is left with and holds the
hashes of the shares the ledger accepted within the retention.

What the source does not keep stands beside it: the clock as it was last read, what each thread owns, every
share ever credited, and every insertion of a hash with the clock it was made at.
-/

namespace Ratum

structure SharePool (ι : Type) where
  server : ShareServer ι
  store : Store
  clock : Nat
  owned : ι → Owned
  credited : List Share
  taken : List (Nat × Hash)

inductive SharePoolEvent (ι : Type)
  | shared (event : ShareEvent ι)
  | retained
  | restarted

/-! ### What a call changes -/

namespace SharePool

/-- The clock, as last read. -/
def clockAfter (clock : Nat) : ShareCall → Nat
  | ⟨(.unixNow, _), now⟩ => now.toNat
  | _ => clock

/-- The share a call credits. -/
def credits : ShareCall → List Share
  | ⟨(.record share, _), .ok _⟩ => [share]
  | _ => []

/-- The insertion a call makes. -/
def takes (accepted : AcceptedShareHashes) (clock : Nat) : ShareCall → List (Nat × Hash)
  | ⟨(.claim hash now, _), _⟩ =>
      AcceptedShareHashes.addsTaking (accepted.insert hash now).1 (some (clock, hash))
  | ⟨(.hold _ hash receivedAt, _), _⟩ =>
      AcceptedShareHashes.addsTaking (accepted.insert hash receivedAt).1 (some (clock, hash))
  | _ => []

/-- A share recorded is a row of the store, and nothing else is. -/
def Commits (store : Store) : ShareCall → Store → Prop
  | ⟨(.record share, _), .ok _⟩, store' =>
      ∃ cumulativeWork, store.insertBatch [share] cumulativeWork (.ok ()) = .ok store'
  | _, store' => store' = store

variable {ι : Type} [DecidableEq ι]

/-- After a call of the thread of `c`. -/
def called (pool : SharePool ι) (c : ι) (call : ShareCall) (server : ShareServer ι) (store : Store) :
    SharePool ι where
  server
  store
  clock := clockAfter pool.clock call
  owned := Function.update pool.owned c ((pool.owned c).after call)
  credited := pool.credited ++ credits call
  taken := pool.taken ++ takes pool.server.accepted pool.clock call

/-- The hashes of the shares a thread holds between two handlers. -/
def heldBy (thread : ShareThread) : List Hash :=
  match thread.program with
  | .done ended => ended.2.heldClaims
  | .call _ _ => []

/-- The connection `c` is dropped, with the shares it holds. -/
def dropped (pool : SharePool ι) (c : ι) (server : ShareServer ι) : SharePool ι :=
  { pool with
    server
    owned := Function.update pool.owned c { pool.owned c with claims := heldBy (pool.server.threads c) } }

/-- A pool that started. -/
def started (server : ShareServer ι) (store : Store) (clock : Nat) (credited : List Share)
    (taken : List (Nat × Hash)) : SharePool ι :=
  { server, store, clock, owned := fun _ => ⟨[], none, clock⟩, credited, taken }

end SharePool

section Steps

variable {ι : Type} [DecidableEq ι] (H : Hashing) (addressScript : AddressScript)

/-- A pool starts over a database: its store, and the hashes its ledger accepted within the retention, which no
connection is served before. -/
structure PoolStarts (db : Database) (now : UInt64) (store : Store) (server : ShareServer ι) : Prop where
  opened : ∃ path keep chain answer, Store.open db path keep chain answer = .ok store
  seeded : ∃ (rows : List (UInt64 × Hash)) (read : IoAnswer) (verifiers : ι → Verifier)
    (v3 : ι → Option AbwSlotState),
    store.acceptedSince (now.toNat - ACCEPTED_HASH_RETENTION_SECS) MAX_ACCEPTED_HASHES read = .ok rows ∧ server =
      { accepted := .fromRows (rows.map fun row => (row.1.toNat, row.2)) now.toNat
        ends := ⟨rows.map Prod.snd, [], [], []⟩
        threads := fun c => .rests ⟨⟨verifiers c, [], []⟩, v3 c, []⟩ }

inductive SharePoolStep : SharePool ι → SharePoolEvent ι → SharePool ι → Prop
  | called {pool : SharePool ι} {c : ι} {call : ShareCall} {server : ShareServer ι} {store : Store}
      (hstep : ShareStep H addressScript pool.server (.called c call) server)
      (hstore : SharePool.Commits pool.store call store) :
      SharePoolStep pool (.shared (.called c call)) (pool.called c call server store)
  | quiet {pool : SharePool ι} {server : ShareServer ι}
      (hstep : ShareStep H addressScript pool.server .quiet server) :
      SharePoolStep pool (.shared .quiet) { pool with server }
  | dropped {pool : SharePool ι} {c : ι} {server : ShareServer ι}
      (hstep : ShareStep H addressScript pool.server (.dropped c) server) :
      SharePoolStep pool (.shared (.dropped c)) (pool.dropped c server)
  /-- Retention, from the newest share of a batch recorded. -/
  | retained {pool : SharePool ι} {newest : Share} {floor removed : Nat} {read write : IoAnswer} {store : Store}
      (hnewest : newest ∈ pool.credited)
      (hretain : pool.store.retain floor (newest.acceptedAt.toNat - ACCEPTED_HASH_RETENTION_SECS)
        MAX_ACCEPTED_HASHES read write = .ok (removed, store)) :
      SharePoolStep pool .retained { pool with store }
  | restarted {pool : SharePool ι} (crashed : Bool) {now : UInt64} {store : Store} {server : ShareServer ι}
      (hstarts : PoolStarts (pool.store.db.reopened crashed) now store server) :
      SharePoolStep pool .restarted (.started server store now.toNat pool.credited pool.taken)

/-- A pool over a ledger that is empty when it first starts. -/
def pooling : Lts (SharePool ι) (SharePoolEvent ι) where
  init pool := ∃ now store server, PoolStarts emptyDatabase now store server ∧
    pool = .started server store now.toNat [] []
  step := SharePoolStep H addressScript

end Steps

/-! ### What a run is given -/

namespace SharePoolEvent

variable {ι : Type}

/-- The share a step credits. -/
def credits : SharePoolEvent ι → List Share
  | .shared (.called _ call) => SharePool.credits call
  | _ => []

/-- A verified share, where a step settles one. -/
def settles : SharePoolEvent ι → Option (PowSubmit × RebuiltShare)
  | .shared (.called _ ⟨(.settle s (.ok rebuilt) _ _, _), _⟩) => some (s, rebuilt)
  | _ => none

end SharePoolEvent

/-- What a step of the pool is given, for shares held for `held` seconds at most and a header time for each hash. -/
structure PoolGiven {ι : Type} (held : Nat) (headerTime : Hash → Nat) (pool : SharePool ι) (event : SharePoolEvent ι)
    (pool' : SharePool ι) : Prop where
  /-- The clock does not go back. -/
  forward : pool.clock ≤ pool'.clock
  /-- A share not answered claimed its hash no longer ago. -/
  claimed : ∀ c, ∀ hash ∈ (pool'.owned c).claims, ∀ t ∈ pool'.server.accepted.acceptedAt.lookup hash,
    pool'.clock ≤ t + held
  /-- A share is credited no longer after it arrived. -/
  credited : ∀ share ∈ event.credits, pool.clock ≤ share.acceptedAt.toNat + held
  /-- Fewer hashes than are held were inserted within the retention. -/
  few : AcceptedShareHashes.Few pool'.clock MAX_ACCEPTED_HASHES pool'.taken
  /-- No two shares of one hash have different header times. -/
  hashed : ∀ settled ∈ event.settles, headerTime settled.2.blockHash = settled.1.blockTime.toNat

/-- The block hashes of the rows, oldest first. -/
def Store.blockHashes (store : Store) : List Hash :=
  store.db.committed.shares.filterMap fun entry => (unpackHead entry.2).map RowHead.blockHash

end Ratum
