import Mathlib.Data.Finset.Card
import Mathlib.Data.List.DropRight
import Ratum.Base.Lts
import Ratum.Gateway.Submissions

/-!
# A block is submitted once and a share accepted once

Runs of submissions over any connections, with the clock moving on, jobs marked stale and the queue emptied
in between. A hash is spent once it was submitted: from then on no share check accepts it, although the
table of seen shares forgets, because it forgets only what the stale window refuses.
-/

namespace Ratum

/-! ### The shares seen -/

namespace SeenShareHashes

variable {table : SeenShareHashes} {now : Instant} {h k : Hash} {created jobCreatedAt : Instant}

/-- The table holds no more than its capacity, which never falls under the least one. -/
structure Fits (table : SeenShareHashes) : Prop where
  least : MIN_CAPACITY ≤ table.capacity
  len : table.len ≤ table.capacity

theorem new_fits (capacity : Nat) (window : Duration) : (new capacity window).Fits where
  least := Nat.le_max_right _ _
  len := Nat.zero_le _

theorem length_retain (map : HashMap Hash Instant) (keep : Hash → Instant → Bool) :
    (map.retain keep).entries.length ≤ map.entries.length :=
  List.length_filter_le _ _

/-- Making room leaves some. -/
theorem Fits.makeRoom (hfits : table.Fits) (now : Instant) :
    MIN_CAPACITY ≤ (table.makeRoom now).capacity ∧
      (table.makeRoom now).len < (table.makeRoom now).capacity := by
  have hgrow : ∀ capacity held kept : Nat, 1024 ≤ capacity → held ≤ capacity → kept ≤ held →
      1024 ≤ (if held - kept < capacity * 5 / 100 then capacity + capacity * 25 / 100
          else capacity) ∧
        kept < if held - kept < capacity * 5 / 100 then capacity + capacity * 25 / 100
          else capacity := by
    intro capacity held kept hleast hheld hkept
    split_ifs <;> omega
  exact hgrow _ _ _ hfits.least hfits.len (length_retain _ _)

theorem Fits.insert (hfits : table.Fits) (now : Instant) (h : Hash) (jobCreatedAt : Instant) :
    (table.insert now h jobCreatedAt).2.Fits := by
  have hput : ∀ room : SeenShareHashes, MIN_CAPACITY ≤ room.capacity → room.len < room.capacity →
      Fits { room with seen := room.seen.insert h jobCreatedAt } := by
    intro room hleast hroom
    refine ⟨hleast, ?_⟩
    have hkeys : (room.seen.insert h jobCreatedAt).entries.length ≤ room.seen.entries.length + 1 := by
      rw [AList.entries_insert, List.length_cons]
      exact Nat.succ_le_succ (List.kerase_sublist _ _).length_le
    exact hkeys.trans hroom
  unfold SeenShareHashes.insert
  split
  · exact hfits
  · by_cases hfull : table.capacity ≤ table.len
    · simp only [if_pos hfull]
      exact hput _ (hfits.makeRoom now).1 (hfits.makeRoom now).2
    · simp only [if_neg hfull]
      exact hput _ hfits.least (by omega)

theorem window_insert : (table.insert now h jobCreatedAt).2.window = table.window := by
  unfold SeenShareHashes.insert
  split
  · rfl
  · dsimp only
    split <;> rfl

theorem lookup_makeRoom (hlookup : table.seen.lookup k = some created)
    (hwindow : now - created ≤ table.window) :
    (table.makeRoom now).seen.lookup k = some created := by
  unfold makeRoom
  rw [HashMap.lookup_retain, hlookup, Option.filter_some, if_pos (decide_eq_true hwindow)]

theorem lookup_of_makeRoom (hlookup : (table.makeRoom now).seen.lookup k = some created) :
    table.seen.lookup k = some created := by
  unfold makeRoom at hlookup
  rw [HashMap.lookup_retain, Option.filter_eq_some_iff] at hlookup
  exact hlookup.1

/-- An insertion forgets only the shares of jobs past the window. -/
theorem lookup_insert_of_lookup (hlookup : table.seen.lookup k = some created)
    (hwindow : now - created ≤ table.window) :
    (table.insert now h jobCreatedAt).2.seen.lookup k = some created := by
  unfold SeenShareHashes.insert
  split
  · exact hlookup
  · next hnew =>
      have hne : k ≠ h := by
        intro heq
        rw [← heq, hlookup] at hnew
        exact hnew rfl
      dsimp only
      rw [AList.lookup_insert_ne hne]
      split
      · exact lookup_makeRoom hlookup hwindow
      · exact hlookup

/-- What is held after an insertion is what was inserted, or was held before. -/
theorem lookup_of_insert (hlookup : (table.insert now h jobCreatedAt).2.seen.lookup k = some created) :
    table.seen.lookup k = some created ∨ k = h ∧ created = jobCreatedAt := by
  unfold SeenShareHashes.insert at hlookup
  split at hlookup
  · exact .inl hlookup
  · dsimp only at hlookup
    by_cases heq : k = h
    · rw [heq, AList.lookup_insert] at hlookup
      exact .inr ⟨heq, (Option.some.inj hlookup).symm⟩
    · rw [AList.lookup_insert_ne heq] at hlookup
      split at hlookup
      · exact .inl (lookup_of_makeRoom hlookup)
      · exact .inl hlookup

/-- A share is held after its insertion, under its job's creation when it was not held before. -/
theorem lookup_insert_self (hheld : ∀ created, table.seen.lookup h = some created →
      created = jobCreatedAt) :
    (table.insert now h jobCreatedAt).2.seen.lookup h = some jobCreatedAt := by
  unfold SeenShareHashes.insert
  split
  · next hsome =>
      obtain ⟨created, hcreated⟩ := Option.isSome_iff_exists.mp hsome
      rw [hcreated, hheld created hcreated]
  · exact AList.lookup_insert _

theorem insert_of_lookup (hlookup : table.seen.lookup h = some created) :
    table.insert now h jobCreatedAt = (false, table) := by
  unfold SeenShareHashes.insert
  rw [hlookup]
  rfl

end SeenShareHashes

/-! ### The blocks found -/

/-- The found blocks stay the newest of those recorded. -/
theorem firstFind_new {recorded : List Hash} {hash : Hash}
    (hnew : hash ∉ recorded.rtake MAX_FOUND_BLOCKS) :
    firstFind (recorded.rtake MAX_FOUND_BLOCKS) hash =
      (true, (recorded ++ [hash]).rtake MAX_FOUND_BLOCKS) := by
  have hkept : (if MAX_FOUND_BLOCKS ≤ (recorded.rtake MAX_FOUND_BLOCKS).length then
        (recorded.rtake MAX_FOUND_BLOCKS).tail else recorded.rtake MAX_FOUND_BLOCKS) =
      recorded.rtake 63 := by
    unfold List.rtake
    rw [List.length_drop, MAX_FOUND_BLOCKS]
    split
    · rw [List.tail_drop]
      congr 1
      omega
    · congr 1
      omega
  unfold firstFind
  rw [if_neg hnew]
  dsimp only
  rw [hkept, show MAX_FOUND_BLOCKS = 63 + 1 from rfl, List.rtake_concat_succ]

/-- A block found again before that many others were recorded is still among them. -/
theorem mem_rtake {before after : List Hash} {hash : Hash} (hfew : after.length < MAX_FOUND_BLOCKS) :
    hash ∈ (before ++ hash :: after).rtake MAX_FOUND_BLOCKS := by
  have hle : (before ++ hash :: after).length - MAX_FOUND_BLOCKS ≤ before.length := by
    rw [List.length_append, List.length_cons]
    omega
  rw [List.rtake, List.drop_append_of_le_length hle]
  exact List.mem_append_right _ List.mem_cons_self

/-! ### Runs of submissions -/

theorem nodup_filterMap_concat {A B : Type} {f : A → Option B} {xs : List A} {x : A}
    (hnodup : (xs.filterMap f).Nodup) (hnew : ∀ y, f x = some y → y ∉ xs.filterMap f) :
    ((xs ++ [x]).filterMap f).Nodup := by
  rw [List.filterMap_append]
  cases hx : f x with
  | none => simpa [hx] using hnodup
  | some y =>
      rw [List.filterMap_cons_some hx, List.filterMap_nil, List.nodup_append]
      refine ⟨hnodup, List.nodup_singleton y, ?_⟩
      intro a ha b hb heq
      rw [List.mem_singleton] at hb
      exact hnew y hx (hb ▸ heq ▸ ha)

inductive SubmitEvent
  | evaluated (req : SubmitRequest) (result : Evaluation)
  | ticked (now : Instant)
  | staleMarked (serial : Nat)
  /-- The session thread takes the queued shares, or the pool's connection closes. -/
  | sharesTaken

namespace SubmitEvent

variable (H : Hashing)

/-- The hash submitted. -/
def hash : SubmitEvent → Option Hash
  | evaluated req _ => req.hash H
  | _ => none

/-- The hash submitted, when it is a block the gateway can recognize. -/
def found : SubmitEvent → Option Hash
  | evaluated req _ => (req.hash H).filter req.job.isBlock
  | _ => none

/-- The hash of the block handed to the nodes. -/
def submitted : SubmitEvent → Option Hash
  | evaluated req result => if result.block.isSome then req.hash H else none
  | _ => none

/-- The hash of the share queued for the pool. -/
def queued : SubmitEvent → Option Hash
  | evaluated _ result => result.queued.map fun share => share.job.rawPowHash H share.header
  | _ => none

/-- The hash answered as accepted. -/
def accepted : SubmitEvent → Option Hash
  | evaluated req result => if result.answer.isOk then req.hash H else none
  | _ => none

end SubmitEvent

section Runs

variable {F : Type} (H : Hashing) (ops : FloatOps F) (decoding : AddressDecoding) (cfg : ShareConfig F)

inductive SubmitStep : SubmitState → SubmitEvent → SubmitState → Prop
  | evaluated {s : SubmitState} (req : SubmitRequest) :
      SubmitStep s (.evaluated req (evaluate H ops decoding cfg s req).1)
        (evaluate H ops decoding cfg s req).2
  | ticked {s : SubmitState} {now : Instant} (hnow : s.now ≤ now) :
      SubmitStep s (.ticked now) { s with now }
  | staleMarked {s : SubmitState} (serial : Nat) :
      SubmitStep s (.staleMarked serial)
        { s with stalePrevblock := Function.update s.stalePrevblock serial true }
  | sharesTaken {s : SubmitState} :
      SubmitStep s .sharesTaken { s with pool := { s.pool with queue := [] } }

def submitRuns : Lts SubmitState SubmitEvent where
  init s := s = .start cfg
  step := SubmitStep H ops decoding cfg

/-- A header hash names the job it was submitted on and the coinbase transaction under it, as a hash
without collisions does. -/
def HashesCommit (trace : List SubmitEvent) : Prop :=
  ∀ req result req' result' hash, .evaluated req result ∈ trace → .evaluated req' result' ∈ trace →
    req.hash H = some hash → req'.hash H = some hash →
      req.job = req'.job ∧ req.coinbaseTx = req'.coinbaseTx

/-- Between two finds of one block fewer than `MAX_FOUND_BLOCKS` others are found. -/
def FewBlocksBetween (trace : List SubmitEvent) : Prop :=
  ∀ before event between event' after hash,
    trace = before ++ event :: (between ++ event' :: after) →
    event.found H = some hash → event'.found H = some hash →
      ((between.filterMap (·.found H)).toFinset.erase hash).card < MAX_FOUND_BLOCKS

variable {H ops decoding cfg} {s : SubmitState} {req : SubmitRequest} {trace : List SubmitEvent}
  {job : Job} {hash : Hash} {targetByte : UInt8}

/-! ### What a hash is spent by -/

/-- No share check accepts the hash on the job under the target byte. -/
def SubmitState.Spent (cfg : ShareConfig F) (s : SubmitState) (job : Job) (hash : Hash)
    (targetByte : UInt8) : Prop :=
  s.stalePrevblock job.serial = true ∨
    meetsTarget hash (targetForExponent targetByte) = false ∨
    cfg.staleWindow < s.now - job.createdAt ∨
    s.seenShareHashes.seen.lookup hash = some job.createdAt

theorem checkShare_of_spent (hspent : s.Spent cfg job hash targetByte) (username : String) :
    (checkShare decoding cfg s job hash targetByte username).1.isOk = false := by
  unfold checkShare
  split
  · rfl
  · next hstale =>
      split
      · rfl
      · next hmeets =>
          split
          · rfl
          · next hwindow =>
              have hlookup : s.seenShareHashes.seen.lookup hash = some job.createdAt := by
                rcases hspent with h | h | h | h
                · exact absurd h hstale
                · exact absurd h (by simpa using hmeets)
                · exact absurd h hwindow
                · exact h
              rw [SeenShareHashes.insert_of_lookup hlookup]
              rfl

/-- The checks insert the share into the table of those seen, or leave the table alone. -/
theorem checkShare_seen (s : SubmitState) (job : Job) (hash : Hash) (targetByte : UInt8)
    (username : String) :
    (checkShare decoding cfg s job hash targetByte username).2 = s.seenShareHashes ∨
      (checkShare decoding cfg s job hash targetByte username).2 =
        (s.seenShareHashes.insert s.now hash job.createdAt).2 := by
  unfold checkShare
  split
  · exact .inl rfl
  · split
    · exact .inl rfl
    · split
      · exact .inl rfl
      · apply Or.inr
        split
        · next heq => rw [heq]
        · next heq =>
            rw [heq]
            split <;> rfl

/-- A hash is spent once it was checked. -/
theorem spent_checkShare (hheld : ∀ created, s.seenShareHashes.seen.lookup hash = some created →
      created = job.createdAt) (username : String) :
    SubmitState.Spent cfg { s with
      seenShareHashes := (checkShare decoding cfg s job hash targetByte username).2 }
      job hash targetByte := by
  by_cases hstale : s.stalePrevblock job.serial = true
  · exact .inl hstale
  by_cases hmeets : meetsTarget hash (targetForExponent targetByte) = false
  · exact .inr (.inl hmeets)
  by_cases hwindow : cfg.staleWindow < s.now - job.createdAt
  · exact .inr (.inr (.inl hwindow))
  apply Or.inr ∘ Or.inr ∘ Or.inr
  have hinsert : (checkShare decoding cfg s job hash targetByte username).2 =
      (s.seenShareHashes.insert s.now hash job.createdAt).2 := by
    unfold checkShare
    rw [if_neg hstale, if_neg (by simpa using hmeets), if_neg hwindow]
    split
    · next heq => rw [heq]
    · next heq =>
        rw [heq]
        split <;> rfl
  change AList.lookup hash (checkShare decoding cfg s job hash targetByte username).2.seen = _
  rw [hinsert]
  exact SeenShareHashes.lookup_insert_self hheld

/-- A spent hash stays spent: the table forgets it only when the stale window refuses it. -/
theorem SubmitState.Spent.checkShare (hwindow : s.seenShareHashes.window = cfg.staleWindow)
    (hspent : s.Spent cfg job hash targetByte) (job' : Job) (hash' : Hash) (targetByte' : UInt8)
    (username : String) :
    SubmitState.Spent cfg { s with
      seenShareHashes := (checkShare decoding cfg s job' hash' targetByte' username).2 }
      job hash targetByte := by
  rcases hspent with hstale | hmeets | hpast | hlookup
  · exact .inl hstale
  · exact .inr (.inl hmeets)
  · exact .inr (.inr (.inl hpast))
  · by_cases hpast : cfg.staleWindow < s.now - job.createdAt
    · exact .inr (.inr (.inl hpast))
    · apply Or.inr ∘ Or.inr ∘ Or.inr
      show AList.lookup hash (Ratum.checkShare decoding cfg s job' hash' targetByte' username).2.seen = _
      obtain hseen | hseen : _ = s.seenShareHashes ∨ _ = (s.seenShareHashes.insert _ _ _).2 :=
        checkShare_seen s job' hash' targetByte' username
      · rw [hseen]
        exact hlookup
      · rw [hseen]
        apply SeenShareHashes.lookup_insert_of_lookup hlookup
        rw [hwindow]
        exact Nat.le_of_not_lt hpast

/-- What the state says of the submissions before it. -/
structure SubmitState.Sound (H : Hashing) (cfg : ShareConfig F) (trace : List SubmitEvent)
    (s : SubmitState) : Prop where
  window : s.seenShareHashes.window = cfg.staleWindow
  fits : s.seenShareHashes.Fits
  entries : ∀ hash created, s.seenShareHashes.seen.lookup hash = some created →
    ∃ req result, .evaluated req result ∈ trace ∧ req.hash H = some hash ∧ req.job.createdAt = created
  spent : ∀ req result hash, .evaluated req result ∈ trace → req.hash H = some hash →
    s.Spent cfg req.job hash req.targetByte
  found : s.foundBlocks = (trace.filterMap (·.submitted H)).rtake MAX_FOUND_BLOCKS

/-- The evaluation of a block's first find hands the block to the nodes, and queues it for the pool as a
block unless the queue is full. -/
def Evaluation.IsFirstFind (result : Evaluation) (req : SubmitRequest) (header : BlockHeaderV2) : Prop :=
  (∃ coinbase, req.coinbaseTx = some coinbase ∧
    result.block = some { header := header.serialize, coinbase }) ∧
  (req.job.isDatumJob → result.queueFull = false →
    ∃ share, result.queued = some share ∧ share.isBlock = true ∧ share.job = req.job ∧
      share.header = header)

/-- What a trace says of each hash: a block is submitted at its first find, and a hash is submitted,
queued and accepted at most once. -/
structure OnceEach (H : Hashing) (trace : List SubmitEvent) : Prop where
  submitted : (trace.filterMap (·.submitted H)).Nodup
  queued : (trace.filterMap (·.queued H)).Nodup
  accepted : (trace.filterMap (·.accepted H)).Nodup
  found_of_submitted : ∀ event ∈ trace, ∀ hash, event.submitted H = some hash →
    event.found H = some hash
  hash_of_queued : ∀ event ∈ trace, ∀ hash, event.queued H = some hash → event.hash H = some hash
  submitted_of_found : ∀ hash ∈ trace.filterMap (·.found H), hash ∈ trace.filterMap (·.submitted H)
  first : ∀ before req result after header, trace = before ++ .evaluated req result :: after →
    req.header H = some header → req.job.isBlock (req.job.rawPowHash H header) →
      req.job.rawPowHash H header ∉ before.filterMap (·.found H) → result.IsFirstFind req header

theorem OnceEach.append (honce : OnceEach H trace) {event : SubmitEvent}
    (hsubmitted : ∀ hash, event.submitted H = some hash →
      event.found H = some hash ∧ hash ∉ trace.filterMap (·.submitted H))
    (hqueued : ∀ hash, event.queued H = some hash →
      event.hash H = some hash ∧ hash ∉ trace.filterMap (·.queued H))
    (haccepted : ∀ hash, event.accepted H = some hash → hash ∉ trace.filterMap (·.accepted H))
    (hfound : ∀ hash, event.found H = some hash → event.submitted H = none →
      hash ∈ trace.filterMap (·.submitted H))
    (hfirst : ∀ req result header, event = .evaluated req result → req.header H = some header →
      req.job.isBlock (req.job.rawPowHash H header) →
        req.job.rawPowHash H header ∉ trace.filterMap (·.found H) → result.IsFirstFind req header) :
    OnceEach H (trace ++ [event]) where
  submitted := nodup_filterMap_concat honce.submitted fun hash h => (hsubmitted hash h).2
  queued := nodup_filterMap_concat honce.queued fun hash h => (hqueued hash h).2
  accepted := nodup_filterMap_concat honce.accepted haccepted
  found_of_submitted := by
    intro e he hash h
    rw [List.mem_append, List.mem_singleton] at he
    cases he with
    | inl he => exact honce.found_of_submitted e he hash h
    | inr he =>
        subst he
        exact (hsubmitted hash h).1
  hash_of_queued := by
    intro e he hash h
    rw [List.mem_append, List.mem_singleton] at he
    cases he with
    | inl he => exact honce.hash_of_queued e he hash h
    | inr he =>
        subst he
        exact (hqueued hash h).1
  submitted_of_found := by
    intro hash h
    rw [List.filterMap_append, List.mem_append] at h ⊢
    cases h with
    | inl h => exact .inl (honce.submitted_of_found hash h)
    | inr h =>
        have hlast : event.found H = some hash := by simpa using h
        cases hsub : event.submitted H with
        | none => exact .inl (hfound hash hlast hsub)
        | some hash' =>
            have heq := (hsubmitted hash' hsub).1
            rw [hlast] at heq
            rw [Option.some.inj heq]
            exact .inr (by simp [hsub])
  first := by
    intro before req result after header htrace hheader hblock hnew
    rcases List.eq_nil_or_concat after with rfl | ⟨after', last, rfl⟩
    · obtain ⟨rfl, hlast⟩ := List.append_inj' htrace rfl
      exact hfirst req result header (List.singleton_inj.mp hlast) hheader hblock hnew
    · rw [List.concat_eq_append, ← List.cons_append, ← List.append_assoc] at htrace
      exact honce.first _ _ _ _ _ (List.append_inj_left' htrace rfl) hheader hblock hnew

/-! ### What one evaluation does -/

theorem SubmitRequest.coinbaseTx_of_header {header : BlockHeaderV2}
    (hheader : req.header H = some header) : ∃ coinbase, req.coinbaseTx = some coinbase := by
  unfold SubmitRequest.header Job.header Job.commitment at hheader
  cases hcoinbase : req.job.fullCoinbase req.notifyPrefix.coinbase req.targetByte with
  | some coinbase => exact ⟨coinbase, hcoinbase⟩
  | none =>
      rw [hcoinbase] at hheader
      cases hheader

theorem SubmitRequest.hash_eq_some {hash : Hash} (hhash : req.hash H = some hash) :
    ∃ header, req.header H = some header ∧ req.job.rawPowHash H header = hash :=
  Option.map_eq_some_iff.mp hhash

/-- A hash submitted twice was submitted on one job under one target byte. -/
theorem HashesCommit.same (hcommits : HashesCommit H trace) {req req' : SubmitRequest}
    {result result' : Evaluation} (hreq : .evaluated req result ∈ trace)
    (hreq' : .evaluated req' result' ∈ trace) (hhash : req.hash H = some hash)
    (hhash' : req'.hash H = some hash) : req.job = req'.job ∧ req.targetByte = req'.targetByte := by
  obtain ⟨hjob, hcoinbase⟩ := hcommits _ _ _ _ _ hreq hreq' hhash hhash'
  obtain ⟨header, hheader, -⟩ := SubmitRequest.hash_eq_some hhash
  obtain ⟨coinbase, htx⟩ := SubmitRequest.coinbaseTx_of_header hheader
  have htx' : req'.job.jobSection.coinbaseTx (req'.job.coinbase req'.notifyPrefix.coinbase).section
      req'.targetByte = some coinbase := hcoinbase.symm.trans htx
  rw [← hjob] at htx'
  exact ⟨hjob, req.job.jobSection.coinbaseTx_injective htx htx'⟩

variable {header : BlockHeaderV2} {result : Evaluation} {s' : SubmitState}

theorem evaluate_frame
    (hevaluate : evaluate H ops decoding cfg s req = (result, s')) :
    s'.stalePrevblock = s.stalePrevblock ∧ s'.now = s.now := by
  rw [evaluate] at hevaluate
  split at hevaluate
  · rw [(Prod.mk.inj hevaluate).2]
    exact ⟨rfl, rfl⟩
  · rw [← (Prod.mk.inj hevaluate).2]
    exact ⟨rfl, rfl⟩

theorem evaluate_seen (hheader : req.header H = some header)
    (hevaluate : evaluate H ops decoding cfg s req = (result, s')) :
    s'.seenShareHashes =
      (checkShare decoding cfg s req.job (req.job.rawPowHash H header) req.targetByte
        req.minerUsername).2 := by
  rw [evaluate, hheader] at hevaluate
  rw [← (Prod.mk.inj hevaluate).2]

/-- A spent hash whose block, if it is one, was found already is refused, and goes nowhere. -/
theorem evaluate_repeated (hheader : req.header H = some header)
    (hevaluate : evaluate H ops decoding cfg s req = (result, s'))
    (hspent : s.Spent cfg req.job (req.job.rawPowHash H header) req.targetByte)
    (hfound : req.job.isBlock (req.job.rawPowHash H header) →
      req.job.rawPowHash H header ∈ s.foundBlocks) :
    result.answer.isOk = false ∧ result.queued = none ∧ result.block = none ∧
      s'.foundBlocks = s.foundBlocks := by
  have hchecked : (checkShare decoding cfg s req.job _ req.targetByte req.minerUsername).1.isOk =
      false := checkShare_of_spent hspent _
  have hfirst : (if req.job.isBlock (req.job.rawPowHash H header) then
      firstFind s.foundBlocks (req.job.rawPowHash H header) else (false, s.foundBlocks)) =
      (false, s.foundBlocks) := by
    split
    · next hblock => rw [firstFind, if_pos (hfound hblock)]
    · rfl
  rw [evaluate, hheader] at hevaluate
  dsimp only at hevaluate
  rw [hfirst, hchecked] at hevaluate
  obtain ⟨rfl, rfl⟩ := Prod.mk.inj hevaluate
  simp [hchecked]

/-- The first find of a block is recorded, handed to the nodes, and queued when there is room. -/
theorem evaluate_first (hheader : req.header H = some header)
    (hevaluate : evaluate H ops decoding cfg s req = (result, s'))
    (hblock : req.job.isBlock (req.job.rawPowHash H header))
    (hnew : (firstFind s.foundBlocks (req.job.rawPowHash H header)).1 = true) :
    result.IsFirstFind req header ∧
      s'.foundBlocks = (firstFind s.foundBlocks (req.job.rawPowHash H header)).2 := by
  obtain ⟨coinbase, hcoinbase⟩ := SubmitRequest.coinbaseTx_of_header hheader
  have hbuilt : foundBlock req.job req.notifyPrefix.coinbase req.targetByte header.serialize =
      some { header := header.serialize, coinbase } :=
    Option.map_eq_some_iff.mpr ⟨coinbase, hcoinbase, rfl⟩
  rw [evaluate, hheader] at hevaluate
  dsimp only at hevaluate
  rw [if_pos hblock, hnew, hbuilt] at hevaluate
  obtain ⟨rfl, rfl⟩ := Prod.mk.inj hevaluate
  refine ⟨⟨⟨coinbase, hcoinbase, rfl⟩, ?_⟩, rfl⟩
  intro hpooled hroom
  dsimp only at hroom ⊢
  rw [hpooled, hroom]
  exact ⟨_, rfl, hblock, rfl, rfl⟩

theorem evaluate_not_block (hheader : req.header H = some header)
    (hevaluate : evaluate H ops decoding cfg s req = (result, s'))
    (hblock : ¬ req.job.isBlock (req.job.rawPowHash H header)) :
    result.block = none ∧ s'.foundBlocks = s.foundBlocks := by
  rw [evaluate, hheader] at hevaluate
  dsimp only at hevaluate
  rw [if_neg hblock] at hevaluate
  obtain ⟨rfl, rfl⟩ := Prod.mk.inj hevaluate
  exact ⟨rfl, rfl⟩

/-- What an evaluation queues is the share submitted. -/
theorem evaluate_queued (hheader : req.header H = some header)
    (hevaluate : evaluate H ops decoding cfg s req = (result, s')) {share : QueuedShare}
    (hqueued : result.queued = some share) :
    share.job.rawPowHash H share.header = req.job.rawPowHash H header := by
  rw [evaluate, hheader] at hevaluate
  obtain ⟨rfl, rfl⟩ := Prod.mk.inj hevaluate
  obtain ⟨-, hshare⟩ := Option.ite_none_right_eq_some.mp hqueued
  rw [← Option.some.inj hshare]

theorem ShareQueue.queueShare_eq (q : ShareQueue) (share : QueuedShare) (queues : Bool) :
    (if queues then q.queueShare share else q) =
      { q with queue := q.queue ++ (if queues && !q.full then some share else none).toList } := by
  unfold ShareQueue.queueShare
  cases queues <;> cases q.full <;> simp

/-- The queue grows by what the evaluation queued, which is nothing when it is full. -/
theorem evaluate_pool (hevaluate : evaluate H ops decoding cfg s req = (result, s')) :
    s'.pool = { s.pool with queue := s.pool.queue ++ result.queued.toList } ∧
      result.queueFull = s.pool.full ∧ (s.pool.full = true → result.queued = none) := by
  rw [evaluate] at hevaluate
  split at hevaluate
  · obtain ⟨rfl, rfl⟩ := Prod.mk.inj hevaluate
    simp
  · obtain ⟨rfl, rfl⟩ := Prod.mk.inj hevaluate
    refine ⟨ShareQueue.queueShare_eq _ _ _, rfl, ?_⟩
    intro hfull
    dsimp only
    rw [hfull, Bool.not_true, Bool.and_false]
    rfl

theorem SubmitStep.of_evaluate (hevaluate : evaluate H ops decoding cfg s req = (result, s')) :
    SubmitStep H ops decoding cfg s (.evaluated req result) s' := by
  have hstep : SubmitStep H ops decoding cfg s _ _ := .evaluated req
  rw [hevaluate] at hstep
  exact hstep

/-! ### Every run -/

theorem FewBlocksBetween.of_append {event : SubmitEvent}
    (hfew : FewBlocksBetween H (trace ++ [event])) : FewBlocksBetween H trace := by
  intro before first between second after hash htrace
  apply hfew before first between second (after ++ [event]) hash
  rw [htrace]
  simp

theorem HashesCommit.of_append {event : SubmitEvent} (hcommits : HashesCommit H (trace ++ [event])) :
    HashesCommit H trace := by
  intro req result req' result' hash hreq hreq'
  exact hcommits _ _ _ _ _ (List.mem_append_left _ hreq) (List.mem_append_left _ hreq')

theorem SubmitEvent.hash_of_found {event : SubmitEvent} (hfound : event.found H = some hash) :
    event.hash H = some hash := by
  cases event with
  | evaluated req result => exact (Option.filter_eq_some_iff.mp hfound).1
  | _ => cases hfound

theorem SubmitEvent.hash_of_submitted {event : SubmitEvent} (h : event.submitted H = some hash) :
    event.hash H = some hash := by
  cases event with
  | evaluated req result => exact (Option.ite_none_right_eq_some.mp h).2
  | _ => cases h

theorem SubmitEvent.hash_of_accepted {event : SubmitEvent} (h : event.accepted H = some hash) :
    event.hash H = some hash := by
  cases event with
  | evaluated req result => exact (Option.ite_none_right_eq_some.mp h).2
  | _ => cases h

/-- A block found before, with few others since, is still among those the gateway holds. -/
theorem OnceEach.held (honce : OnceEach H trace) {event : SubmitEvent}
    (hfew : FewBlocksBetween H (trace ++ [event])) (hfound : event.found H = some hash)
    (hbefore : hash ∈ trace.filterMap (·.found H)) :
    hash ∈ (trace.filterMap (·.submitted H)).rtake MAX_FOUND_BLOCKS := by
  obtain ⟨first, hfirst, hsubmitted⟩ := List.mem_filterMap.mp (honce.submitted_of_found hash hbefore)
  have hfirstFound := honce.found_of_submitted first hfirst hash hsubmitted
  have hnodup := honce.submitted
  obtain ⟨before, between, rfl⟩ := List.append_of_mem hfirst
  rw [List.filterMap_append, List.filterMap_cons_some hsubmitted] at hnodup ⊢
  apply mem_rtake
  have hnodup' := (List.nodup_cons.mp hnodup.of_append_right)
  rw [← List.toFinset_card_of_nodup hnodup'.2]
  apply Nat.lt_of_le_of_lt (Finset.card_le_card ?_)
    (hfew before first between event [] hash (by simp) hfirstFound hfound)
  intro other hother
  rw [List.mem_toFinset] at hother
  rw [Finset.mem_erase, List.mem_toFinset]
  refine ⟨fun heq => hnodup'.1 (heq ▸ hother), ?_⟩
  obtain ⟨e, he, hsub⟩ := List.mem_filterMap.mp hother
  refine List.mem_filterMap.mpr ⟨e, he, honce.found_of_submitted e ?_ other hsub⟩
  exact List.mem_append_right _ (List.mem_cons_of_mem _ he)

theorem SubmitState.Sound.start : SubmitState.Sound H cfg [] (.start cfg) where
  window := rfl
  fits := SeenShareHashes.new_fits _ _
  entries := fun _ _ h => by cases h
  spent := fun _ _ _ h => by cases h
  found := rfl

theorem OnceEach.start : OnceEach H [] where
  submitted := List.nodup_nil
  queued := List.nodup_nil
  accepted := List.nodup_nil
  found_of_submitted := fun _ h => by cases h
  hash_of_queued := fun _ h => by cases h
  submitted_of_found := fun _ h => by cases h
  first := fun before _ _ _ _ h => by cases before <;> cases h

/-- An event that evaluates no header adds nothing to what is said of a hash. -/
theorem OnceEach.quiet (honce : OnceEach H trace) {event : SubmitEvent} (hhash : event.hash H = none)
    (hqueued : event.queued H = none) : OnceEach H (trace ++ [event]) := by
  have hnone : ∀ hash, event.hash H ≠ some hash := by
    intro hash h
    rw [hhash] at h
    cases h
  apply honce.append
  · exact fun hash h => absurd (SubmitEvent.hash_of_submitted h) (hnone hash)
  · intro hash h
    rw [hqueued] at h
    cases h
  · exact fun hash h => absurd (SubmitEvent.hash_of_accepted h) (hnone hash)
  · exact fun hash h => absurd (SubmitEvent.hash_of_found h) (hnone hash)
  · intro req result header hevent hheader
    subst hevent
    exact absurd (congrArg (Option.map (req.job.rawPowHash H)) hheader) (hnone _)

theorem SubmitEvent.mem_concat {req : SubmitRequest} {result : Evaluation} {event : SubmitEvent}
    (hmem : .evaluated req result ∈ trace ++ [event]) :
    .evaluated req result ∈ trace ∨ event = .evaluated req result := by
  rw [List.mem_append, List.mem_singleton] at hmem
  exact hmem.imp_right Eq.symm

theorem SubmitState.Sound.quiet (hsound : s.Sound H cfg trace) {s' : SubmitState} {event : SubmitEvent}
    (hseen : s'.seenShareHashes = s.seenShareHashes) (hfound : s'.foundBlocks = s.foundBlocks)
    (hstale : ∀ serial, s.stalePrevblock serial = true → s'.stalePrevblock serial = true)
    (hnow : s.now ≤ s'.now) (hhash : event.hash H = none) : s'.Sound H cfg (trace ++ [event]) where
  window := hseen ▸ hsound.window
  fits := hseen ▸ hsound.fits
  entries := by
    intro hash created hlookup
    obtain ⟨req, result, hmem, h⟩ := hsound.entries hash created (hseen ▸ hlookup)
    exact ⟨req, result, List.mem_append_left _ hmem, h⟩
  spent := by
    intro req result hash hmem hreq
    cases SubmitEvent.mem_concat hmem with
    | inr hlast =>
        subst hlast
        exact absurd (hhash.symm.trans hreq) nofun
    | inl hmem =>
        rcases hsound.spent req result hash hmem hreq with h | h | h | h
        · exact .inl (hstale _ h)
        · exact .inr (.inl h)
        · exact .inr (.inr (.inl (Nat.lt_of_lt_of_le h (Nat.sub_le_sub_right hnow _))))
        · exact .inr (.inr (.inr (hseen ▸ h)))
  found := by
    have hsubmitted : event.submitted H = none := by
      cases h : event.submitted H with
      | none => rfl
      | some hash => exact absurd (hhash.symm.trans (SubmitEvent.hash_of_submitted h)) nofun
    rw [hfound, hsound.found, List.filterMap_append, List.filterMap_cons_none hsubmitted]
    simp

/-- The tables after an evaluation, when the blocks found are those recorded. -/
theorem SubmitState.Sound.evaluated (hsound : s.Sound H cfg trace)
    (hcommits : HashesCommit H (trace ++ [.evaluated req result]))
    (hheader : req.header H = some header)
    (hevaluate : evaluate H ops decoding cfg s req = (result, s'))
    (hfound : s'.foundBlocks =
      ((trace ++ [SubmitEvent.evaluated req result]).filterMap (·.submitted H)).rtake
        MAX_FOUND_BLOCKS) :
    s'.Sound H cfg (trace ++ [.evaluated req result]) := by
  have hhash : req.hash H = some (req.job.rawPowHash H header) :=
    congrArg (Option.map (req.job.rawPowHash H)) hheader
  have hlast : SubmitEvent.evaluated req result ∈ trace ++ [.evaluated req result] :=
    List.mem_append_right _ (List.mem_singleton_self _)
  have hseen := evaluate_seen hheader hevaluate
  obtain ⟨hstale, hnow⟩ := evaluate_frame hevaluate
  have htable : ∀ P : SeenShareHashes → Prop, P s.seenShareHashes →
      P (s.seenShareHashes.insert s.now (req.job.rawPowHash H header) req.job.createdAt).2 →
      P s'.seenShareHashes := by
    intro P hsame hinsert
    rw [hseen]
    obtain h | h := checkShare_seen s req.job (req.job.rawPowHash H header) req.targetByte
      req.minerUsername
    · exact h ▸ hsame
    · exact h ▸ hinsert
  have hspent : ∀ job hash targetByte, SubmitState.Spent cfg { s with
        seenShareHashes := (checkShare decoding cfg s req.job (req.job.rawPowHash H header)
          req.targetByte req.minerUsername).2 } job hash targetByte →
      s'.Spent cfg job hash targetByte := by
    intro job hash targetByte h
    unfold SubmitState.Spent
    rw [hstale, hnow, hseen]
    exact h
  refine ⟨?_, ?_, ?_, ?_, hfound⟩
  · exact htable (·.window = cfg.staleWindow) hsound.window
      (SeenShareHashes.window_insert.trans hsound.window)
  · exact htable (·.Fits) hsound.fits (hsound.fits.insert _ _ _)
  · intro hash created
    refine htable (fun table => table.seen.lookup hash = some created → _) ?_ ?_
    · intro hlookup
      obtain ⟨req', result', hmem, h⟩ := hsound.entries hash created hlookup
      exact ⟨req', result', List.mem_append_left _ hmem, h⟩
    · intro hlookup
      obtain hlookup | ⟨rfl, rfl⟩ := SeenShareHashes.lookup_of_insert hlookup
      · obtain ⟨req', result', hmem, h⟩ := hsound.entries hash created hlookup
        exact ⟨req', result', List.mem_append_left _ hmem, h⟩
      · exact ⟨req, result, hlast, hhash, rfl⟩
  · intro req' result' hash hmem hhash'
    apply hspent
    cases SubmitEvent.mem_concat hmem with
    | inl hmem => exact (hsound.spent req' result' hash hmem hhash').checkShare hsound.window _ _ _ _
    | inr heq =>
        obtain ⟨rfl, rfl⟩ := SubmitEvent.evaluated.inj heq
        obtain rfl := Option.some.inj (hhash.symm.trans hhash')
        apply spent_checkShare
        intro created hlookup
        obtain ⟨req', result', hmem', hhash', rfl⟩ := hsound.entries _ created hlookup
        rw [(hcommits.same (List.mem_append_left _ hmem') hlast hhash' hhash).1]

theorem SubmitEvent.found_of_block (hheader : req.header H = some header)
    (hblock : req.job.isBlock (req.job.rawPowHash H header)) :
    (SubmitEvent.evaluated req result).found H = some (req.job.rawPowHash H header) := by
  show (req.hash H).filter req.job.isBlock = _
  rw [SubmitRequest.hash, hheader, Option.map_some, Option.filter_some, if_pos hblock]

/-- A hash submitted again does nothing. -/
theorem evaluated_repeated (hsound : s.Sound H cfg trace) (honce : OnceEach H trace)
    (hcommits : HashesCommit H (trace ++ [.evaluated req result]))
    (hfew : FewBlocksBetween H (trace ++ [.evaluated req result]))
    (hheader : req.header H = some header)
    (hevaluate : evaluate H ops decoding cfg s req = (result, s')) {req₀ : SubmitRequest}
    {result₀ : Evaluation} (hmem : .evaluated req₀ result₀ ∈ trace)
    (hhash₀ : req₀.hash H = some (req.job.rawPowHash H header)) :
    s'.Sound H cfg (trace ++ [.evaluated req result]) ∧
      OnceEach H (trace ++ [.evaluated req result]) := by
  have hhash : req.hash H = some (req.job.rawPowHash H header) :=
    congrArg (Option.map (req.job.rawPowHash H)) hheader
  obtain ⟨hjob, htarget⟩ := hcommits.same (List.mem_append_left _ hmem)
    (List.mem_append_right _ (List.mem_singleton_self _)) hhash₀ hhash
  have hspent := hsound.spent _ _ _ hmem hhash₀
  rw [hjob, htarget] at hspent
  have hbefore : req.job.isBlock (req.job.rawPowHash H header) →
      req.job.rawPowHash H header ∈ trace.filterMap (·.found H) := by
    intro hblock
    refine List.mem_filterMap.mpr ⟨_, hmem, ?_⟩
    show (req₀.hash H).filter req₀.job.isBlock = _
    rw [hhash₀, hjob, Option.filter_some, if_pos hblock]
  have hfound : req.job.isBlock (req.job.rawPowHash H header) →
      req.job.rawPowHash H header ∈ s.foundBlocks := by
    intro hblock
    rw [hsound.found]
    exact honce.held hfew (SubmitEvent.found_of_block hheader hblock) (hbefore hblock)
  obtain ⟨hanswer, hqueued, hblock, hblocks⟩ := evaluate_repeated hheader hevaluate hspent hfound
  have hsubmitted : (SubmitEvent.evaluated req result).submitted H = none := by
    show (if result.block.isSome then req.hash H else none) = none
    rw [hblock]
    rfl
  constructor
  · apply hsound.evaluated hcommits hheader hevaluate
    rw [hblocks, hsound.found, List.filterMap_append, List.filterMap_cons_none hsubmitted]
    simp
  · apply honce.append
    · intro hash h
      rw [hsubmitted] at h
      cases h
    · intro hash h
      have hnone : (SubmitEvent.evaluated req result).queued H = none := by
        show result.queued.map _ = none
        rw [hqueued]
        rfl
      rw [hnone] at h
      cases h
    · intro hash h
      have hok := (Option.ite_none_right_eq_some.mp h).1
      rw [hanswer] at hok
      cases hok
    · intro hash h hnone
      obtain ⟨hsome, hblock⟩ := Option.filter_eq_some_iff.mp h
      obtain rfl := Option.some.inj (hhash.symm.trans hsome)
      exact honce.submitted_of_found _ (hbefore hblock)
    · intro req' result' header' hevent hheader' hblock hnew
      obtain ⟨rfl, rfl⟩ := SubmitEvent.evaluated.inj hevent
      obtain rfl := Option.some.inj (hheader.symm.trans hheader')
      exact absurd (hbefore hblock) hnew

/-- A hash submitted for the first time is submitted to the nodes when it is a block. -/
theorem evaluated_new (hsound : s.Sound H cfg trace) (honce : OnceEach H trace)
    (hcommits : HashesCommit H (trace ++ [.evaluated req result]))
    (hheader : req.header H = some header)
    (hevaluate : evaluate H ops decoding cfg s req = (result, s'))
    (hnew : ∀ event ∈ trace, event.hash H ≠ some (req.job.rawPowHash H header)) :
    s'.Sound H cfg (trace ++ [.evaluated req result]) ∧
      OnceEach H (trace ++ [.evaluated req result]) := by
  have hhash : req.hash H = some (req.job.rawPowHash H header) :=
    congrArg (Option.map (req.job.rawPowHash H)) hheader
  have hsubmitted : req.job.rawPowHash H header ∉ trace.filterMap (·.submitted H) := by
    intro h
    obtain ⟨event, hmem, h⟩ := List.mem_filterMap.mp h
    exact hnew event hmem (SubmitEvent.hash_of_submitted h)
  have hqueued : req.job.rawPowHash H header ∉ trace.filterMap (·.queued H) := by
    intro h
    obtain ⟨event, hmem, h⟩ := List.mem_filterMap.mp h
    exact hnew event hmem (honce.hash_of_queued event hmem _ h)
  have haccepted : req.job.rawPowHash H header ∉ trace.filterMap (·.accepted H) := by
    intro h
    obtain ⟨event, hmem, h⟩ := List.mem_filterMap.mp h
    exact hnew event hmem (SubmitEvent.hash_of_accepted h)
  have hqueues : ∀ hash, (SubmitEvent.evaluated req result).queued H = some hash →
      req.job.rawPowHash H header = hash := by
    intro hash h
    obtain ⟨share, hshare, rfl⟩ := Option.map_eq_some_iff.mp h
    exact (evaluate_queued hheader hevaluate hshare).symm
  have hnone : req.job.rawPowHash H header ∉ trace.filterMap (·.found H) :=
    fun h => hsubmitted (honce.submitted_of_found _ h)
  by_cases hblock : req.job.isBlock (req.job.rawPowHash H header)
  · have hfind := firstFind_new fun h => hsubmitted (List.mem_of_mem_drop h)
    rw [← hsound.found] at hfind
    obtain ⟨hfirst, hblocks⟩ := evaluate_first hheader hevaluate hblock (by rw [hfind])
    have hlast : (SubmitEvent.evaluated req result).submitted H =
        some (req.job.rawPowHash H header) := by
      obtain ⟨coinbase, -, hsome⟩ := hfirst.1
      show (if result.block.isSome then req.hash H else none) = _
      rw [hsome, hhash]
      rfl
    constructor
    · apply hsound.evaluated hcommits hheader hevaluate
      rw [hblocks, hfind, List.filterMap_append, List.filterMap_cons_some hlast, List.filterMap_nil]
    · apply honce.append
      · intro hash h
        obtain rfl := Option.some.inj (hlast.symm.trans h)
        exact ⟨SubmitEvent.found_of_block hheader hblock, hsubmitted⟩
      · intro hash h
        obtain rfl := hqueues hash h
        exact ⟨hhash, hqueued⟩
      · intro hash h
        obtain rfl := Option.some.inj (hhash.symm.trans (SubmitEvent.hash_of_accepted h))
        exact haccepted
      · intro hash h hnot
        rw [hlast] at hnot
        cases hnot
      · intro req' result' header' hevent hheader' hblock' hnew'
        obtain ⟨rfl, rfl⟩ := SubmitEvent.evaluated.inj hevent
        obtain rfl := Option.some.inj (hheader.symm.trans hheader')
        exact hfirst
  · obtain ⟨hidle, hblocks⟩ := evaluate_not_block hheader hevaluate hblock
    have hlast : (SubmitEvent.evaluated req result).submitted H = none := by
      show (if result.block.isSome then req.hash H else none) = _
      rw [hidle]
      rfl
    have hnotFound : (SubmitEvent.evaluated req result).found H = none := by
      show (req.hash H).filter req.job.isBlock = _
      rw [hhash, Option.filter_some, if_neg hblock]
    constructor
    · apply hsound.evaluated hcommits hheader hevaluate
      rw [hblocks, hsound.found, List.filterMap_append, List.filterMap_cons_none hlast]
      simp
    · apply honce.append
      · intro hash h
        rw [hlast] at h
        cases h
      · intro hash h
        obtain rfl := hqueues hash h
        exact ⟨hhash, hqueued⟩
      · intro hash h
        obtain rfl := Option.some.inj (hhash.symm.trans (SubmitEvent.hash_of_accepted h))
        exact haccepted
      · intro hash h
        rw [hnotFound] at h
        cases h
      · intro req' result' header' hevent hheader' hblock'
        obtain ⟨rfl, rfl⟩ := SubmitEvent.evaluated.inj hevent
        obtain rfl := Option.some.inj (hheader.symm.trans hheader')
        exact absurd hblock' hblock

theorem SubmitState.Sound.step (hsound : s.Sound H cfg trace) (honce : OnceEach H trace)
    {event : SubmitEvent} (hcommits : HashesCommit H (trace ++ [event]))
    (hfew : FewBlocksBetween H (trace ++ [event])) (hstep : SubmitStep H ops decoding cfg s event s') :
    s'.Sound H cfg (trace ++ [event]) ∧ OnceEach H (trace ++ [event]) := by
  cases hstep with
  | evaluated req =>
      cases hheader : req.header H with
      | none =>
          have hhash : (SubmitEvent.evaluated req (evaluate H ops decoding cfg s req).1).hash H =
              none := congrArg (Option.map (req.job.rawPowHash H)) hheader
          rw [evaluate, hheader] at hhash ⊢
          exact ⟨hsound.quiet rfl rfl (fun _ h => h) le_rfl hhash, honce.quiet hhash rfl⟩
      | some header =>
          by_cases hbefore : ∃ event ∈ trace, event.hash H = some (req.job.rawPowHash H header)
          · obtain ⟨event, hmem, hhash⟩ := hbefore
            cases event with
            | evaluated req₀ result₀ =>
                exact evaluated_repeated hsound honce hcommits hfew hheader rfl hmem hhash
            | _ => cases hhash
          · exact evaluated_new hsound honce hcommits hheader rfl
              fun event hmem hhash => hbefore ⟨event, hmem, hhash⟩
  | ticked hnow =>
      exact ⟨hsound.quiet rfl rfl (fun _ h => h) hnow rfl, honce.quiet rfl rfl⟩
  | staleMarked serial =>
      refine ⟨hsound.quiet rfl rfl ?_ le_rfl rfl, honce.quiet rfl rfl⟩
      intro serial' hstale
      show Function.update s.stalePrevblock serial true serial' = true
      rw [Function.update_apply]
      split
      · rfl
      · exact hstale
  | sharesTaken =>
      exact ⟨hsound.quiet rfl rfl (fun _ h => h) le_rfl rfl, honce.quiet rfl rfl⟩

theorem submitRuns_sound (hrun : (submitRuns H ops decoding cfg).Run trace s)
    (hcommits : HashesCommit H trace) (hfew : FewBlocksBetween H trace) :
    s.Sound H cfg trace ∧ OnceEach H trace := by
  induction hrun with
  | start hinit =>
      subst hinit
      exact ⟨.start, .start⟩
  | next _ hstep ih =>
      obtain ⟨hsound, honce⟩ := ih hcommits.of_append hfew.of_append
      exact hsound.step honce hcommits hfew hstep

/-- **A block is submitted once and a share accepted once.** A block is handed to the nodes exactly once,
at its first find and whatever the share checks say, and queued there for the pool unless the queue is
full; a hash is queued and accepted at most once; the shares seen never exceed the table's capacity. -/
theorem block_submitted_once (hrun : (submitRuns H ops decoding cfg).Run trace s)
    (hcommits : HashesCommit H trace) (hfew : FewBlocksBetween H trace) :
    ((trace.filterMap (·.submitted H)).Nodup ∧
      (∀ hash, hash ∈ trace.filterMap (·.submitted H) ↔ hash ∈ trace.filterMap (·.found H)) ∧
      ∀ before req result after header, trace = before ++ .evaluated req result :: after →
        req.header H = some header → req.job.isBlock (req.job.rawPowHash H header) →
          req.job.rawPowHash H header ∉ before.filterMap (·.found H) →
            result.IsFirstFind req header) ∧
    (trace.filterMap (·.queued H)).Nodup ∧
    (trace.filterMap (·.accepted H)).Nodup ∧
    s.seenShareHashes.len ≤ s.seenShareHashes.capacity := by
  obtain ⟨hsound, honce⟩ := submitRuns_sound hrun hcommits hfew
  refine ⟨⟨honce.submitted, ?_, honce.first⟩, honce.queued, honce.accepted, hsound.fits.len⟩
  intro hash
  refine ⟨?_, honce.submitted_of_found hash⟩
  intro h
  obtain ⟨event, hmem, hsubmitted⟩ := List.mem_filterMap.mp h
  exact List.mem_filterMap.mpr ⟨event, hmem, honce.found_of_submitted event hmem hash hsubmitted⟩

end Runs

/-! ### A queue that is full -/

/-- Hashes that read the low byte of the header's nonce. -/
def nonceHashing : Hashing where
  sha256 _ := Vector.replicate _ 0
  blake2b256 data := Vector.replicate _ (data.getD 32 0)

def unitOps : FloatOps Unit := ⟨(), fun _ _ => (), fun _ _ => (), fun _ _ => 0⟩

def smallShareConfig : ShareConfig Unit where
  staleWindow := 100
  sharesInStaleWindow := 0
  requireAddressUsername := false
  usernameModifiers := []
  poolAddress := ""

/-- A pooled job on which every hash is a block. -/
def easyJob : Job where
  serial := 0
  slot := 0
  stratumJobId := []
  template :=
    { height := 1, coinbaseValue := 0, curtime := 0, sizelimit := 0, weightlimit := 0, sigoplimit := 0
      version := 0, nbits := 0, prevHash := Vector.replicate _ 0, witnessCommitment := []
      blake2bRule := true, reducedData := false, txids := [], totals := ⟨0, 0, 0, 0⟩ }
  blockTarget := TARGET_MAX
  prevblockHidden := []
  jobSection :=
    { prevHash := Vector.replicate _ 0, targetByteIndex := 0, nbits := Vector.replicate _ 0
      coinbaserId := 0, height := 1, coinbaseValue := 0, txnCount := 0, txnTotalWeight := 0
      txnTotalSize := 0, txnTotalSigops := 0, merkleBranches := [] }
  pooledCoinbase := ⟨⟨1, [0], []⟩, 0⟩
  subsidyOnlyCoinbase := ⟨⟨0xff, [0], []⟩, 0⟩
  coinbaserOutputs := []
  poolPayoutScript := []
  isDatumJob := true
  abw := none
  createdAt := 0

def nonceRequest (n : UInt8) : SubmitRequest where
  job := easyJob
  jobDiff := 1
  notifyPrefix := .plain
  extranonce := Vector.replicate _ 0
  siaNtime := Vector.replicate _ 0
  siaNonce := #v[n, 0, 0, 0, 0, 0, 0, 0]
  minerUsername := ""

theorem nonceRequest_hash (n : UInt8) :
    (nonceRequest n).hash nonceHashing = some (Vector.replicate _ n) := by
  have hnonce : UInt8.ofNat (UInt32.ofNat (leNat [n, 0, 0, 0])).toNat = n := by
    simp [leNat]
  have hhash : (nonceRequest n).hash nonceHashing = some (Vector.replicate _
      (UInt8.ofNat (UInt32.ofNat (leNat [n, 0, 0, 0])).toNat)) := by
    with_unfolding_all rfl
  rw [hhash, hnonce]

theorem easyJob_block (hash : Hash) : easyJob.isBlock hash = true := by
  have hlt := leNat_lt hash.toList.reverse
  rw [List.length_reverse, Vector.length_toList] at hlt
  exact decide_eq_true (Nat.le_sub_one_of_lt hlt)

theorem nonceRequest_header (n : UInt8) : ∃ header,
    (nonceRequest n).header nonceHashing = some header ∧
      (nonceRequest n).job.rawPowHash nonceHashing header = Vector.replicate _ n :=
  SubmitRequest.hash_eq_some (nonceRequest_hash n)

/-- Every event submits one of the first nonces. -/
def NoncesUnder (n : Nat) (trace : List SubmitEvent) : Prop :=
  ∀ event ∈ trace, ∃ (k : UInt8) (result : Evaluation), k.toNat < n ∧
    event = .evaluated (nonceRequest k) result

theorem NoncesUnder.concat {n : Nat} {trace : List SubmitEvent} (h : NoncesUnder n trace)
    (hn : n < 256) (result : Evaluation) :
    NoncesUnder (n + 1) (trace ++ [.evaluated (nonceRequest (UInt8.ofNat n)) result]) := by
  intro event hmem
  rw [List.mem_append, List.mem_singleton] at hmem
  cases hmem with
  | inl hmem =>
      obtain ⟨k, result', hk, heq⟩ := h event hmem
      exact ⟨k, result', Nat.lt_succ_of_lt hk, heq⟩
  | inr heq =>
      refine ⟨UInt8.ofNat n, result, ?_, heq⟩
      rw [UInt8.toNat_ofNat_of_lt' hn]
      exact Nat.lt_succ_self n

theorem NoncesUnder.commit {n : Nat} {trace : List SubmitEvent} (h : NoncesUnder n trace) :
    HashesCommit nonceHashing trace := by
  intro req result req' result' hash hmem hmem' _ _
  obtain ⟨k, _, -, heq⟩ := h _ hmem
  obtain ⟨k', _, -, heq'⟩ := h _ hmem'
  rw [(SubmitEvent.evaluated.inj heq).1, (SubmitEvent.evaluated.inj heq').1]
  exact ⟨rfl, rfl⟩

theorem fewBlocksBetween_of_length {trace : List SubmitEvent} {H : Hashing}
    (hlength : trace.length ≤ MAX_FOUND_BLOCKS + 1) : FewBlocksBetween H trace := by
  intro before event between event' after hash htrace _ _
  have hbetween : between.length < MAX_FOUND_BLOCKS := by
    rw [htrace] at hlength
    simp only [List.length_append, List.length_cons] at hlength
    omega
  calc _ ≤ (between.filterMap (·.found H)).toFinset.card := Finset.card_erase_le
    _ ≤ (between.filterMap (·.found H)).length := List.toFinset_card_le _
    _ ≤ between.length := List.length_filterMap_le _ _
    _ < MAX_FOUND_BLOCKS := hbetween

theorem NoncesUnder.new {n : Nat} {trace : List SubmitEvent} (h : NoncesUnder n trace) (hn : n < 256)
    {event : SubmitEvent} (hmem : event ∈ trace) :
    event.hash nonceHashing ≠ some (Vector.replicate _ (UInt8.ofNat n)) := by
  obtain ⟨k, result, hk, rfl⟩ := h event hmem
  intro hhash
  have heq := Option.some.inj ((nonceRequest_hash k).symm.trans hhash)
  have hbyte : k = UInt8.ofNat n := by
    have hget := congrArg (·[0]) heq
    simpa using hget
  rw [hbyte, UInt8.toNat_ofNat_of_lt' hn] at hk
  exact absurd hk (Nat.lt_irrefl n)

/-- The next nonce is a new block, handed to the nodes and queued unless the queue is full. -/
theorem NoncesUnder.first {n : Nat} {trace : List SubmitEvent} {s s' : SubmitState}
    {result : Evaluation} (h : NoncesUnder n trace) (hn : n < 256)
    (hsound : s.Sound nonceHashing smallShareConfig trace)
    (hevaluate : evaluate nonceHashing unitOps noAddresses smallShareConfig s
      (nonceRequest (UInt8.ofNat n)) = (result, s')) :
    ∃ header, result.IsFirstFind (nonceRequest (UInt8.ofNat n)) header := by
  obtain ⟨header, hheader, hhash⟩ := nonceRequest_header (UInt8.ofNat n)
  have hnew : (nonceRequest (UInt8.ofNat n)).job.rawPowHash nonceHashing header ∉
      (trace.filterMap (·.submitted nonceHashing)).rtake MAX_FOUND_BLOCKS := by
    intro hmem
    obtain ⟨event, hevent, hsubmitted⟩ := List.mem_filterMap.mp (List.mem_of_mem_drop hmem)
    exact h.new hn hevent (hhash ▸ SubmitEvent.hash_of_submitted hsubmitted)
  refine ⟨header, (evaluate_first hheader hevaluate (easyJob_block _) ?_).1⟩
  rw [hsound.found, firstFind_new hnew]

/-- Submissions of the first nonces, each a new block, fill the queue. -/
theorem nonces_queue (n : Nat) (hn : n ≤ MAX_FOUND_BLOCKS) :
    ∃ trace s, (submitRuns nonceHashing unitOps noAddresses smallShareConfig).Run trace s ∧
      trace.length = n ∧ NoncesUnder n trace ∧ s.pool.queue.length = n ∧
      s.pool.queueCapacity = MIN_QUEUE_CAPACITY := by
  induction n with
  | zero =>
      refine ⟨[], _, .start rfl, rfl, ?_, rfl, rfl⟩
      intro event hmem
      cases hmem
  | succ n ih =>
      obtain ⟨trace, s, hrun, hlength, hnonces, hqueue, hcapacity⟩ := ih (by omega)
      have hlt : n < MAX_FOUND_BLOCKS := by omega
      have hbyte : n < 256 := hlt.trans (by decide)
      obtain ⟨hsound, -⟩ := submitRuns_sound hrun hnonces.commit
        (fewBlocksBetween_of_length (by omega))
      obtain ⟨result, s', hevaluate⟩ : ∃ result s', evaluate nonceHashing unitOps noAddresses
        smallShareConfig s (nonceRequest (UInt8.ofNat n)) = (result, s') := ⟨_, _, rfl⟩
      obtain ⟨header, -, hqueues⟩ := hnonces.first hbyte hsound hevaluate
      obtain ⟨hpool, hfull, -⟩ := evaluate_pool hevaluate
      have hroom : s.pool.full = false := by
        rw [ShareQueue.full, hqueue, hcapacity]
        exact decide_eq_false (Nat.not_le.mpr hlt)
      obtain ⟨share, hshare, -⟩ := hqueues rfl (hfull.trans hroom)
      refine ⟨_, s', hrun.next (.of_evaluate hevaluate), by simp [hlength], hnonces.concat hbyte _,
        ?_, ?_⟩
      · rw [hpool, hshare]
        simp [hqueue]
      · rw [hpool]
        exact hcapacity

/-- A pooled job's block found when the queue is full is not queued for the pool, then or later. -/
theorem full_queue_loses_block :
    ¬ ∀ (trace : List SubmitEvent) (s : SubmitState),
      (submitRuns nonceHashing unitOps noAddresses smallShareConfig).Run trace s →
      HashesCommit nonceHashing trace → FewBlocksBetween nonceHashing trace →
      ∀ req result hash, .evaluated req result ∈ trace → req.hash nonceHashing = some hash →
        req.job.isBlock hash → req.job.isDatumJob → hash ∈ trace.filterMap (·.queued nonceHashing) := by
  intro h
  obtain ⟨trace, s, hrun, hlength, hnonces, hqueue, hcapacity⟩ := nonces_queue MAX_FOUND_BLOCKS le_rfl
  obtain ⟨result, s', hevaluate⟩ : ∃ result s', evaluate nonceHashing unitOps noAddresses
    smallShareConfig s (nonceRequest 64) = (result, s') := ⟨_, _, rfl⟩
  have hfull : s.pool.full = true := by
    rw [ShareQueue.full, hqueue, hcapacity]
    rfl
  have hnone := (evaluate_pool hevaluate).2.2 hfull
  have hnext := hnonces.concat (by decide) result
  have hqueued := h _ s' (hrun.next (.of_evaluate hevaluate)) hnext.commit
    (fewBlocksBetween_of_length (by rw [List.length_append, hlength]; rfl)) (nonceRequest 64) result _
    (List.mem_append_right _ (List.mem_singleton_self _)) (nonceRequest_hash 64) (easyJob_block _) rfl
  obtain ⟨event, hmem, hevent⟩ := List.mem_filterMap.mp hqueued
  obtain ⟨-, honce⟩ := submitRuns_sound hrun hnonces.commit
    (fewBlocksBetween_of_length (by omega))
  rw [List.mem_append, List.mem_singleton] at hmem
  cases hmem with
  | inl hmem =>
      exact hnonces.new (by decide) hmem (honce.hash_of_queued event hmem _ hevent)
  | inr heq =>
      subst heq
      obtain ⟨share, hshare, -⟩ := Option.map_eq_some_iff.mp hevent
      rw [hnone] at hshare
      cases hshare

/-- Two blocks submitted one after the other are each handed to the nodes once. -/
theorem block_submitted_once_two_nonces :
    ∃ (trace : List SubmitEvent) (s : SubmitState), trace.length = 2 ∧
      (trace.filterMap (·.submitted nonceHashing)).Nodup ∧
      (trace.filterMap (·.queued nonceHashing)).Nodup ∧
      s.seenShareHashes.len ≤ s.seenShareHashes.capacity := by
  obtain ⟨trace, s, hrun, hlength, hnonces, -, -⟩ := nonces_queue 2 (by decide)
  obtain ⟨⟨hsubmitted, -, -⟩, hqueued, -, hlen⟩ := block_submitted_once hrun hnonces.commit
    (fewBlocksBetween_of_length (by rw [hlength]; decide))
  exact ⟨trace, s, hlength, hsubmitted, hqueued, hlen⟩

end Ratum
