import Ratum.Connection.Pool
import Ratum.Connection.Released
import Ratum.Ledger.SeededRows

/-!
# A share is credited once

Over every run of the pool, its restarts included, no block hash is credited twice. A hash whose header time
could pass the check again is held, by the hashes accepted or, before they are seeded, by the rows the restart
reads back: shares are credited in nearly the order they arrived in, so the scan does not stop before them.
-/

namespace Ratum

open AcceptedShareHashes

variable {held clock clock' : Nat} {headerTime : Hash → Nat} {taken taken' : List (Nat × Hash)}
  {credited newer : List Share} {share : Share} {hash : Hash} {t : Nat}

/-- A share of the hash could pass the check of its header time. -/
def Live (held : Nat) (headerTime : Hash → Nat) (clock : Nat) (hash : Hash) : Prop :=
  clock ≤ headerTime hash + NTIME_WINDOW_SECS + held

theorem Live.earlier (h : Live held headerTime clock' hash) (hclock : clock ≤ clock') :
    Live held headerTime clock hash := hclock.trans h

/-! ### The shares credited -/

/-- The shares credited have hashes of their own, each inserted before, and are in order but for the time each
was held. -/
structure RowsRecorded (held : Nat) (headerTime : Hash → Nat) (clock : Nat) (taken : List (Nat × Hash))
    (credited : List Share) : Prop where
  once : (credited.map Share.blockHash).Nodup
  steady : credited.Pairwise fun share later => share.acceptedAt.toNat ≤ later.acceptedAt.toNat + held
  header : ∀ share ∈ credited, headerTime share.blockHash ≤ share.acceptedAt.toNat + NTIME_WINDOW_SECS + held
  past : ∀ share ∈ credited, share.acceptedAt.toNat ≤ clock
  taken : ∀ share ∈ credited, ∃ since, (since, share.blockHash) ∈ taken ∧ share.acceptedAt.toNat ≤ since + held

theorem RowsRecorded.nil : RowsRecorded held headerTime clock taken [] where
  once := List.nodup_nil
  steady := List.Pairwise.nil
  header share hmem := by cases hmem
  past share hmem := by cases hmem
  taken share hmem := by cases hmem

theorem RowsRecorded.mono (h : RowsRecorded held headerTime clock taken credited) (hclock : clock ≤ clock')
    (htaken : taken ⊆ taken') : RowsRecorded held headerTime clock' taken' credited where
  once := h.once
  steady := h.steady
  header := h.header
  past share hmem := (h.past share hmem).trans hclock
  taken share hmem := by
    obtain ⟨since, hin, hsince⟩ := h.taken share hmem
    exact ⟨since, htaken hin, hsince⟩

/-- One more is credited, of a hash not credited before. -/
theorem RowsRecorded.push (h : RowsRecorded held headerTime clock taken credited)
    (hnew : ∀ other ∈ credited, other.blockHash ≠ share.blockHash) (hintime : clock ≤ share.acceptedAt.toNat + held)
    (hpast : share.acceptedAt.toNat ≤ clock) (hheader : headerTime share.blockHash ≤ clock + NTIME_WINDOW_SECS)
    (htaken : ∃ since, (since, share.blockHash) ∈ taken ∧ share.acceptedAt.toNat ≤ since + held) :
    RowsRecorded held headerTime clock taken (credited ++ [share]) where
  once := by
    rw [List.map_append, List.map_singleton]
    refine List.nodup_append.mpr ⟨h.once, List.nodup_singleton _, fun hash hmem other hother => ?_⟩
    obtain ⟨earlier, hearlier, rfl⟩ := List.mem_map.mp hmem
    rw [List.mem_singleton.mp hother]
    exact hnew earlier hearlier
  steady := by
    refine List.pairwise_append.mpr ⟨h.steady, List.pairwise_singleton _ _, fun earlier hearlier later hlater => ?_⟩
    rw [List.mem_singleton.mp hlater]
    exact (h.past earlier hearlier).trans hintime
  header := by
    intro other hmem
    obtain hmem | hmem := List.mem_append.mp hmem
    · exact h.header other hmem
    · obtain rfl := List.mem_singleton.mp hmem
      omega
  past := by
    intro other hmem
    obtain hmem | hmem := List.mem_append.mp hmem
    · exact h.past other hmem
    · obtain rfl := List.mem_singleton.mp hmem
      exact hpast
  taken := by
    intro other hmem
    obtain hmem | hmem := List.mem_append.mp hmem
    · exact h.taken other hmem
    · obtain rfl := List.mem_singleton.mp hmem
      exact htaken

/-- The row of a share, as the hashes accepted are seeded with it. -/
def Share.row (share : Share) : Nat × Hash := (share.acceptedAt.toNat, share.blockHash)

theorem RowsRecorded.rows_nodup (h : RowsRecorded held headerTime clock taken credited) {kept : List Share}
    (hsuffix : kept <:+ credited) : ((kept.map Share.row).map Prod.snd).Nodup := by
  rw [List.map_map]
  exact h.once.sublist (hsuffix.sublist.map _)

theorem RowsRecorded.backed (h : RowsRecorded held headerTime clock taken credited) {kept : List Share}
    (hsuffix : kept <:+ credited) : Backed (held + held) (kept.map Share.row) taken := by
  refine backed_rows (h.rows_nodup hsuffix) (List.pairwise_map.mpr (h.steady.sublist hsuffix.sublist)) ?_
  intro row hrow
  obtain ⟨share, hshare, rfl⟩ := List.mem_map.mp hrow
  exact h.taken share (hsuffix.subset hshare)

/-- From a live share on, the shares credited are within the retention. -/
theorem RowsRecorded.recent (hheld : 4 * held ≤ CLOCK_STEP_MARGIN_SECS)
    (h : RowsRecorded held headerTime clock taken credited) (hsuffix : share :: newer <:+ credited)
    (hlive : Live held headerTime clock share.blockHash) :
    ∀ later ∈ share :: newer, clock ≤ later.acceptedAt.toNat + ACCEPTED_HASH_RETENTION_SECS := by
  intro later hlater
  have hheader := h.header share (hsuffix.subset List.mem_cons_self)
  have hsteady : share.acceptedAt.toNat ≤ later.acceptedAt.toNat + held := by
    obtain rfl | hlater := List.mem_cons.mp hlater
    · exact Nat.le_add_right _ _
    · exact (List.pairwise_cons.mp (h.steady.sublist hsuffix.sublist)).1 later hlater
  unfold Live at hlive
  unfold ACCEPTED_HASH_RETENTION_SECS
  omega

/-- From a live share on, fewer shares were credited than there is room for. -/
theorem RowsRecorded.few_later (hheld : 4 * held ≤ CLOCK_STEP_MARGIN_SECS)
    (h : RowsRecorded held headerTime clock taken credited) (hsuffix : share :: newer <:+ credited)
    (hlive : Live held headerTime clock share.blockHash) (hfew : Few clock MAX_ACCEPTED_HASHES taken) :
    newer.length < MAX_ACCEPTED_HASHES := by
  have hlater := h.backed hsuffix share.row (newer.map Share.row) (List.suffix_refl _)
  rw [List.length_map] at hlater
  refine (hlater.trans_le (List.countP_mono_left fun insertion _ hsince => ?_)).trans hfew
  have hsince : share.acceptedAt.toNat ≤ insertion.1 + (held + held) := of_decide_eq_true hsince
  have hheader := h.header share (hsuffix.subset List.mem_cons_self)
  unfold Live at hlive
  refine decide_eq_true ?_
  unfold ACCEPTED_HASH_RETENTION_SECS
  omega

/-! ### What a restart and retention leave -/

/-- Retention removes the rows of shares that are not live only. -/
theorem Store.Backs.retained {s s' : Store} (hheld : 4 * held ≤ CLOCK_STEP_MARGIN_SECS)
    (h : s.Backs credited fun share => ¬Live held headerTime clock share.blockHash)
    (hrecorded : RowsRecorded held headerTime clock taken credited) (hfew : Few clock MAX_ACCEPTED_HASHES taken)
    {newest : Share} (hnewest : newest ∈ credited) {floor removed : Nat} {read write : IoAnswer}
    (hretain : s.retain floor (newest.acceptedAt.toNat - ACCEPTED_HASH_RETENTION_SECS) MAX_ACCEPTED_HASHES read
      write = .ok (removed, s')) :
    s'.Backs credited fun share => ¬Live held headerTime clock share.blockHash := by
  obtain ⟨hrows, hdurable, hnext, hunread⟩ := Store.retain_rows h.committed.ordered hretain
  refine ⟨?_, by rw [hdurable, hnext]; exact h.durable⟩
  rw [hrows, hnext]
  refine h.committed.drop fun kept hkept hrowsOf share hshare hlive => ?_
  obtain ⟨i, hget⟩ := List.mem_iff_getElem?.mp hshare
  have hi := (List.getElem?_eq_some_iff.mp hget).1
  rw [List.length_take] at hi
  rw [List.getElem?_take_of_lt (by omega)] at hget
  obtain ⟨row, hrow, hhead⟩ := hrowsOf.getElem? hget
  obtain ⟨hlt, rfl⟩ := List.getElem?_eq_some_iff.mp hget
  have hsuffix : kept[i] :: kept.drop (i + 1) <:+ credited := by
    rw [← List.drop_eq_getElem_cons hlt]
    exact (List.drop_suffix i kept).trans hkept
  have hlater := hrecorded.few_later hheld hsuffix hlive hfew
  rw [List.length_drop] at hlater
  have hold := hunread i row (by omega) hrow (by rw [hrowsOf.length]; omega) _ hhead
  have hold : kept[i].acceptedAt.toNat < newest.acceptedAt.toNat - ACCEPTED_HASH_RETENTION_SECS := hold
  have hrecent := hrecorded.recent hheld hsuffix hlive _ List.mem_cons_self
  have hpast := hrecorded.past newest hnewest
  omega

/-- The hashes a start is seeded with, over the rows of shares recorded. -/
structure Seeded (held : Nat) (headerTime : Hash → Nat) (clock : Nat) (taken : List (Nat × Hash))
    (credited : List Share) (accepted : AcceptedShareHashes) : Prop where
  filled : Filled (held + held) clock taken accepted
  capacity : accepted.capacity = MAX_ACCEPTED_HASHES
  kept : ∀ share ∈ credited, Live held headerTime clock share.blockHash →
    accepted.acceptedAt.lookup share.blockHash = some share.acceptedAt.toNat

/-- **A restart holds the hash of every live share.** -/
theorem RowsRecorded.seeded {s : Store} (hheld : 4 * held ≤ CLOCK_STEP_MARGIN_SECS)
    (h : RowsRecorded held headerTime clock taken credited) (hfew : Few clock MAX_ACCEPTED_HASHES taken)
    (hbacks : s.Backs credited fun share => ¬Live held headerTime clock share.blockHash)
    (hmax : clock ≤ U64_MAX) {rows : List (UInt64 × Hash)} {read : IoAnswer}
    (hrows : s.acceptedSince (clock - ACCEPTED_HASH_RETENTION_SECS) MAX_ACCEPTED_HASHES read = .ok rows) :
    Seeded held headerTime clock taken credited (.fromRows (rows.map fun row => (row.1.toNat, row.2)) clock) := by
  obtain ⟨gone, kept, hcredited, hrowsOf, hgone⟩ := hbacks.committed.rows
  have hkept : kept <:+ credited := ⟨gone, hcredited.symm⟩
  obtain ⟨hsuffix, hsince, hlength, hfound⟩ := Store.acceptedSince_seeds hrowsOf hrows
  obtain ⟨before, hbefore⟩ := hsuffix
  obtain ⟨front, read, rfl, -, hread⟩ := List.append_eq_map_iff.mp hbefore
  have hreads : read <:+ front ++ read := List.suffix_append _ _
  have heq : rows.map (fun row => (row.1.toNat, row.2)) = read.map Share.row := by
    rw [← hread, List.map_map]
    rfl
  rw [heq]
  have hrecent : ∀ row ∈ read.map Share.row, clock ≤ satAdd64 row.1 ACCEPTED_HASH_RETENTION_SECS := by
    intro row hrow
    obtain ⟨share, hshare, rfl⟩ := List.mem_map.mp hrow
    have hcutoff := hsince share.acceptance (hread ▸ List.mem_map_of_mem hshare)
    have hcutoff : clock - ACCEPTED_HASH_RETENTION_SECS ≤ share.acceptedAt.toNat := hcutoff
    refine le_min ?_ hmax
    show clock ≤ share.acceptedAt.toNat + ACCEPTED_HASH_RETENTION_SECS
    omega
  have hroom : (read.map Share.row).length ≤ MAX_ACCEPTED_HASHES := by
    rw [← heq, List.length_map]
    exact hlength
  obtain ⟨horder, hcapacity, hheldAt⟩ := fromRows_spec (h.rows_nodup (hreads.trans hkept)) hrecent hroom
  refine ⟨⟨?_, ?_⟩, hcapacity, fun share hshare hlive => ?_⟩
  · rw [horder]
    exact h.backed (hreads.trans hkept)
  · rw [horder]
    intro row hrow
    obtain ⟨share, hshare, rfl⟩ := List.mem_map.mp hrow
    exact h.past share ((hreads.trans hkept).subset hshare)
  · rw [hcredited] at hshare
    obtain hshare | hshare := List.mem_append.mp hshare
    · exact absurd hlive (hgone share hshare)
    · obtain ⟨older, later, hsplit⟩ := List.append_of_mem hshare
      have hlater : share :: later <:+ front ++ read := ⟨older, hsplit.symm⟩
      have hfewLater := h.few_later hheld (hlater.trans hkept) hlive hfew
      have hfoundShare := hfound share later hlater hfewLater fun newer hnewer => by
        have hrecent := h.recent hheld (hlater.trans hkept) hlive newer hnewer
        omega
      rw [← hread] at hfoundShare
      obtain ⟨share', hshare', hsame⟩ := List.mem_map.mp hfoundShare
      obtain ⟨hat, hhash⟩ := Prod.mk.inj hsame
      have hlookup := hheldAt share'.row (List.mem_map_of_mem hshare')
      rw [← hat, ← hhash]
      exact hlookup

/-! ### What every step keeps -/

/-- A thread makes the calls its claims allow, and has a hash for every share that waits once it rests. -/
def ShareThread.Owns (thread : ShareThread) (owned : Owned) : Prop :=
  thread.program.Meets owning
    (fun ended owned => owned.fresh = none ∧ (thread.closing = false → ended.2.Waits [] owned)) owned

namespace SharePool

variable {ι : Type} {c : ι} {pool pool' : SharePool ι} {fresh fresh' : Option (Hash × Nat)}
  {gone : Hash → Prop}

/-- A hash a thread owns is held, accepted so lately that its share can be credited still, and no share of it was
credited that another could follow. -/
structure Claimed (held : Nat) (headerTime : Hash → Nat) (pool : SharePool ι) (fresh : Option (Hash × Nat))
    (hash : Hash) (t : Nat) : Prop where
  lookup : pool.server.accepted.acceptedAt.lookup hash = some t
  past : t ≤ pool.clock
  inTime : pool.clock ≤ t + held
  taken : ∃ since, (since, hash) ∈ pool.taken ∧ t ≤ since
  header : fresh = some (hash, t) ∨ WithinNtime (headerTime hash) t
  spent : ∀ share ∈ pool.credited, share.blockHash = hash → ¬Live held headerTime pool.clock hash

/-- The hash of a share credited is held as long as the share is live. -/
def Keeps (held : Nat) (headerTime : Hash → Nat) (pool : SharePool ι) (share : Share) : Prop :=
  Live held headerTime pool.clock share.blockHash →
    ∃ t, pool.server.accepted.acceptedAt.lookup share.blockHash = some t ∧
      headerTime share.blockHash ≤ t + NTIME_WINDOW_SECS + held

structure Sound (held : Nat) (headerTime : Hash → Nat) (pool : SharePool ι) : Prop where
  threads : ∀ c, (pool.server.threads c).Owns (pool.owned c)
  read : ∀ c, (pool.owned c).read ≤ pool.clock
  claims : ∀ c, ∀ hash ∈ (pool.owned c).claims, ∃ t, pool.Claimed held headerTime (pool.owned c).fresh hash t
  apart : ∀ c c', c ≠ c' → ∀ hash ∈ (pool.owned c).claims, hash ∉ (pool.owned c').claims
  recorded : RowsRecorded held headerTime pool.clock pool.taken pool.credited
  kept : ∀ share ∈ pool.credited, pool.Keeps held headerTime share
  rows : pool.store.Backs pool.credited fun share => ¬Live held headerTime pool.clock share.blockHash
  filled : Filled (held + held) pool.clock pool.taken pool.server.accepted
  capacity : pool.server.accepted.capacity = MAX_ACCEPTED_HASHES
  few : Few pool.clock MAX_ACCEPTED_HASHES pool.taken
  bounded : pool.clock ≤ U64_MAX

/-- From one pool to another the clock goes on, and the hashes accepted lately are held on, those gone aside. -/
structure Forward (held : Nat) (gone : Hash → Prop) (pool pool' : SharePool ι) : Prop where
  clock : pool.clock ≤ pool'.clock
  taken : pool.taken ⊆ pool'.taken
  lookup : ∀ hash t, ¬gone hash → pool.server.accepted.acceptedAt.lookup hash = some t →
    pool.clock + (held + held) ≤ t + ACCEPTED_HASH_RETENTION_SECS →
      pool'.server.accepted.acceptedAt.lookup hash = some t

theorem Claimed.forward (hheld : 4 * held ≤ CLOCK_STEP_MARGIN_SECS) (h : pool.Claimed held headerTime fresh hash t)
    (hforward : Forward held gone pool pool') (hgone : ¬gone hash)
    (hclaimed : ∀ t, pool'.server.accepted.acceptedAt.lookup hash = some t → pool'.clock ≤ t + held)
    (hheader : fresh = some (hash, t) → fresh' = some (hash, t) ∨ WithinNtime (headerTime hash) t)
    (hcredited : ∀ share ∈ pool'.credited, share.blockHash = hash → share ∈ pool.credited) :
    pool'.Claimed held headerTime fresh' hash t := by
  have hlookup : pool'.server.accepted.acceptedAt.lookup hash = some t := by
    refine hforward.lookup hash t hgone h.lookup ?_
    have hintime := h.inTime
    unfold ACCEPTED_HASH_RETENTION_SECS
    omega
  obtain ⟨since, hin, hsince⟩ := h.taken
  refine ⟨hlookup, h.past.trans hforward.clock, hclaimed t hlookup, ⟨since, hforward.taken hin, hsince⟩, ?_, ?_⟩
  · exact h.header.elim hheader .inr
  · exact fun share hshare heq hlive =>
      h.spent share (hcredited share hshare heq) heq (hlive.earlier hforward.clock)

theorem Keeps.forward (hheld : 4 * held ≤ CLOCK_STEP_MARGIN_SECS) (h : pool.Keeps held headerTime share)
    (hforward : Forward held gone pool pool')
    (hgone : gone share.blockHash → ¬Live held headerTime pool.clock share.blockHash) :
    pool'.Keeps held headerTime share := by
  intro hlive
  have hlive := hlive.earlier hforward.clock
  obtain ⟨t, hlookup, hheader⟩ := h hlive
  refine ⟨t, hforward.lookup _ t (fun hgone' => hgone hgone' hlive) hlookup ?_, hheader⟩
  unfold Live at hlive
  unfold ACCEPTED_HASH_RETENTION_SECS
  omega

/-- A hash accepted lately is not accepted again. -/
theorem Sound.refused (h : pool.Sound held headerTime) {now : Nat} (hnow : now ≤ pool.clock)
    (hlookup : pool.server.accepted.acceptedAt.lookup hash = some t)
    (hrecent : pool.clock + (held + held) ≤ t + ACCEPTED_HASH_RETENTION_SECS) :
    (pool.server.accepted.insert hash now).1 = false :=
  (h.filled.kept (h.capacity ▸ h.few) hnow (hnow.trans h.bounded) hlookup hrecent).2 rfl

/-- A hash accepted is one no thread owns, and no live share of it was credited. -/
theorem Sound.unclaimed (hheld : 4 * held ≤ CLOCK_STEP_MARGIN_SECS) (h : pool.Sound held headerTime) {now : Nat}
    (hnow : now ≤ pool.clock) (haccepted : (pool.server.accepted.insert hash now).1 = true) :
    (∀ c, hash ∉ (pool.owned c).claims) ∧
      ∀ share ∈ pool.credited, share.blockHash = hash → ¬Live held headerTime pool.clock hash := by
  have hnot : ¬(pool.server.accepted.insert hash now).1 = false := by
    rw [haccepted]
    exact fun hfalse => by cases hfalse
  refine ⟨fun c hmem => ?_, fun share hshare heq hlive => ?_⟩
  · obtain ⟨t, hclaimed⟩ := h.claims c hash hmem
    have hintime := hclaimed.inTime
    refine hnot (h.refused hnow hclaimed.lookup ?_)
    unfold ACCEPTED_HASH_RETENTION_SECS
    omega
  · subst heq
    obtain ⟨t, hlookup, hheader⟩ := h.kept share hshare hlive
    refine hnot (h.refused hnow hlookup ?_)
    unfold Live at hlive
    unfold ACCEPTED_HASH_RETENTION_SECS
    omega

/-! ### A call -/

/-- The hash a call takes out. -/
def removes : ShareCall → Option Hash
  | ⟨(.remove hash, _), _⟩ => some hash
  | _ => none

/-- What a thread owns after a call it owned before, and neither gave it back nor was credited for it; or it is
the hash claimed. -/
theorem mem_claims_after {owned : Owned} {call : ShareCall} (hmem : hash ∈ (owned.after call).claims) :
    (hash ∈ owned.claims ∧ removes call ≠ some hash ∧ ∀ share ∈ credits call, share.blockHash ≠ hash) ∨
      ∃ now conn, call = ⟨(.claim hash now, conn), true⟩ := by
  obtain ⟨⟨op, conn⟩, answer⟩ := call
  have hsame (hmem : hash ∈ owned.claims) : hash ∈ owned.claims ∧ (none : Option Hash) ≠ some hash ∧
      ∀ share ∈ ([] : List Share), share.blockHash ≠ hash :=
    ⟨hmem, (fun heq => by cases heq), fun _ hshare => by cases hshare⟩
  cases op with
  | unixNow | instantNow | hold | settle | relay | receipt => exact .inl (hsame hmem)
  | respond => exact .inl (hsame (List.mem_of_mem_filter hmem))
  | claim claimed now =>
      cases answer with
      | false => exact .inl (hsame hmem)
      | true =>
          obtain rfl | hmem := List.mem_cons.mp hmem
          · exact .inr ⟨now, conn, rfl⟩
          · exact .inl (hsame hmem)
  | remove removed =>
      obtain ⟨hmem, hne⟩ := List.mem_filter.mp hmem
      refine .inl ⟨hmem, fun heq => ?_, fun _ hshare => by cases hshare⟩
      exact of_decide_eq_true hne (Option.some.inj heq).symm
  | record share =>
      cases answer with
      | error e => exact .inl (hsame hmem)
      | ok _ =>
          obtain ⟨hmem, hne⟩ := List.mem_filter.mp hmem
          refine .inl ⟨hmem, (fun heq => by cases heq), fun other hother => ?_⟩
          rw [List.mem_singleton.mp hother]
          exact fun heq => of_decide_eq_true hne heq.symm

/-- A hash claimed for a share not settled stays so, or the share is settled with its header time. -/
theorem fresh_after {owned : Owned} {call : ShareCall} (hmakes : owned.Makes call.1)
    (hhashed : ∀ settled ∈ (SharePoolEvent.shared (.called c call) : SharePoolEvent ι).settles,
      headerTime settled.2.blockHash = settled.1.blockTime.toNat) (hfresh : owned.fresh = some (hash, t)) :
    (owned.after call).fresh = some (hash, t) ∨ WithinNtime (headerTime hash) t := by
  obtain ⟨⟨op, conn⟩, answer⟩ := call
  cases op with
  | unixNow | instantNow | hold | relay | receipt | respond | remove => exact .inl hfresh
  | record share => cases answer <;> exact .inl hfresh
  | claim claimed now =>
      cases answer with
      | false => exact .inl hfresh
      | true => cases hfresh.symm.trans hmakes.2
  | settle s verified receivedAt parentHold =>
      obtain ⟨hclaimed, hwithin⟩ := hmakes hash t hfresh
      cases verified with
      | error refusal => cases hclaimed
      | ok rebuilt =>
          obtain rfl := Option.some.inj hclaimed
          rw [← hhashed (s, rebuilt) rfl] at hwithin
          exact .inr hwithin

/-- A call leaves the hashes accepted lately held, the one it takes out aside. -/
theorem Sound.forward_called [DecidableEq ι] (h : pool.Sound held headerTime) {call : ShareCall}
    {server : ShareServer ι} {store : Store} (hserver : server.accepted = pool.server.accepted.after call)
    (hmakes : (pool.owned c).Makes call.1) (hclock : pool.clock ≤ clockAfter pool.clock call) :
    Forward held (removes call = some ·) pool (pool.called c call server store) := by
  refine ⟨hclock, List.subset_append_left _ _, fun hash t hgone hlookup hrecent => ?_⟩
  show server.accepted.acceptedAt.lookup hash = some t
  rw [hserver]
  have hread := h.read c
  obtain ⟨⟨op, conn⟩, answer⟩ := call
  cases op with
  | unixNow | instantNow | settle | relay | receipt | respond | record => exact hlookup
  | claim claimed now =>
      have hnow : now ≤ pool.clock := hmakes.1.trans_le hread
      exact (h.filled.kept (h.capacity ▸ h.few) hnow (hnow.trans h.bounded) hlookup hrecent).1
  | hold s claimed receivedAt =>
      have hnow : receivedAt ≤ pool.clock := hmakes.trans hread
      exact (h.filled.kept (h.capacity ▸ h.few) hnow (hnow.trans h.bounded) hlookup hrecent).1
  | remove removed =>
      refine (AList.lookup_erase_ne fun heq => hgone ?_).trans hlookup
      rw [heq]
      rfl

theorem Sound.filled_called [DecidableEq ι] (h : pool.Sound held headerTime) {call : ShareCall}
    {server : ShareServer ι} {store : Store} (hserver : server.accepted = pool.server.accepted.after call)
    (hmakes : (pool.owned c).Makes call.1) (hclock : pool.clock ≤ clockAfter pool.clock call) :
    Filled (held + held) (pool.called c call server store).clock (pool.called c call server store).taken
        (pool.called c call server store).server.accepted ∧
      (pool.called c call server store).server.accepted.capacity = MAX_ACCEPTED_HASHES := by
  show Filled (held + held) (clockAfter pool.clock call) (pool.taken ++ takes pool.server.accepted pool.clock call)
    server.accepted ∧ server.accepted.capacity = MAX_ACCEPTED_HASHES
  rw [hserver]
  have hread := h.read c
  obtain ⟨⟨op, conn⟩, answer⟩ := call
  have hsame : Filled (held + held) pool.clock (pool.taken ++ []) pool.server.accepted := by
    rw [List.append_nil]
    exact h.filled
  cases op with
  | unixNow => exact ⟨hsame.later hclock, h.capacity⟩
  | instantNow | settle | relay | receipt | respond | record => exact ⟨hsame, h.capacity⟩
  | claim claimed now => exact ⟨h.filled.hold (hmakes.1.trans_le hread), capacity_hold.trans h.capacity⟩
  | hold s claimed receivedAt => exact ⟨h.filled.hold (hmakes.trans hread), capacity_hold.trans h.capacity⟩
  | remove removed => exact ⟨hsame.remove, h.capacity⟩

/-- A share settled with a hash of its thread's was not credited before. -/
theorem Sound.uncredited (h : pool.Sound held headerTime) (hmem : hash ∈ (pool.owned c).claims)
    (hfresh : (pool.owned c).fresh = none) :
    ∃ t, pool.Claimed held headerTime none hash t ∧ WithinNtime (headerTime hash) t ∧
      ∀ other ∈ pool.credited, other.blockHash ≠ hash := by
  obtain ⟨t, hclaimed⟩ := h.claims c hash hmem
  rw [hfresh] at hclaimed
  have hwithin : WithinNtime (headerTime hash) t := hclaimed.header.resolve_left fun hnone => by cases hnone
  refine ⟨t, hclaimed, hwithin, fun other hother heq => hclaimed.spent other hother heq ?_⟩
  have hintime := hclaimed.inTime
  have hheader := hwithin.2
  unfold Live
  omega

/-- A call credits nothing and commits nothing, or records the share it credits. -/
inductive Commit (store : Store) : ShareCall → Store → Prop
  | nothing {call : ShareCall} (hcredits : credits call = []) : Commit store call store
  | recorded {share : Share} {conn : Connection} {store' : Store} {cumulativeWork : Nat}
      (hinsert : store.insertBatch [share] cumulativeWork (.ok ()) = .ok store') :
      Commit store ⟨(.record share, conn), .ok ()⟩ store'

theorem commit_of_commits {store store' : Store} {call : ShareCall} (h : Commits store call store') :
    Commit store call store' := by
  obtain ⟨⟨op, conn⟩, answer⟩ := call
  cases op with
  | unixNow | instantNow | settle | relay | receipt | respond | claim | hold | remove =>
      obtain rfl := h
      exact .nothing rfl
  | record share =>
      cases answer with
      | error e =>
          obtain rfl := h
          exact .nothing rfl
      | ok _ =>
          obtain ⟨cumulativeWork, hinsert⟩ := h
          exact .recorded hinsert

theorem removes_mine {owned : Owned} {call : ShareCall} (hmakes : owned.Makes call.1)
    (hremoves : removes call = some hash) : hash ∈ owned.claims := by
  obtain ⟨⟨op, conn⟩, answer⟩ := call
  cases op with
  | remove removed =>
      obtain rfl := Option.some.inj hremoves
      exact hmakes
  | _ => cases hremoves

theorem credits_mine {owned : Owned} {call : ShareCall} (hmakes : owned.Makes call.1)
    (hcredits : share ∈ credits call) : share.blockHash ∈ owned.claims := by
  obtain ⟨⟨op, conn⟩, answer⟩ := call
  cases op with
  | record recorded =>
      cases answer with
      | error e => cases hcredits
      | ok _ =>
          obtain rfl := List.mem_singleton.mp hcredits
          exact hmakes.2.2
  | _ => cases hcredits

theorem read_after {owned : Owned} {call : ShareCall} (hread : owned.read ≤ clock)
    (hforward : clock ≤ clockAfter clock call) : (owned.after call).read ≤ clockAfter clock call := by
  obtain ⟨⟨op, conn⟩, answer⟩ := call
  cases op with
  | unixNow => exact le_rfl
  | claim | record => cases answer <;> exact hread
  | _ => exact hread

theorem clockAfter_le {call : ShareCall} (hclock : clock ≤ U64_MAX) : clockAfter clock call ≤ U64_MAX := by
  obtain ⟨⟨op, conn⟩, answer⟩ := call
  cases op with
  | unixNow => exact Nat.le_sub_one_of_lt (UInt64.toNat_lt answer)
  | _ => exact hclock

/-- The answers to a thread's calls are ones its monitor allows. -/
theorem Sound.answered (hheld : 4 * held ≤ CLOCK_STEP_MARGIN_SECS) (h : pool.Sound held headerTime)
    {call : ShareCall} (hmakes : (pool.owned c).Makes call.1) (hanswer : pool.server.accepted.Answers call)
    (hclock : pool.clock ≤ clockAfter pool.clock call) : (pool.owned c).Answered call := by
  obtain ⟨⟨op, conn⟩, answer⟩ := call
  cases op with
  | unixNow => exact (h.read c).trans hclock
  | claim claimed now =>
      cases answer with
      | false => trivial
      | true => exact (h.unclaimed hheld (hmakes.1.trans_le (h.read c)) hanswer.symm).1 c
  | _ => trivial

section Called

variable [DecidableEq ι] {call : ShareCall} {server : ShareServer ι} {store : Store}

theorem owned_called : (pool.called c call server store).owned c = (pool.owned c).after call :=
  Function.update_self ..

theorem owned_called_ne {c' : ι} (hne : c' ≠ c) : (pool.called c call server store).owned c' = pool.owned c' :=
  Function.update_of_ne hne ..

/-- A hash claimed by a call is owned by its thread. -/
theorem Sound.claimed_called (hheld : 4 * held ≤ CLOCK_STEP_MARGIN_SECS) (h : pool.Sound held headerTime) {now : Nat}
    {conn : Connection} (hcall : call = ⟨(.claim hash now, conn), true⟩)
    (hserver : server.accepted = pool.server.accepted.after call) (hmakes : (pool.owned c).Makes call.1)
    (hanswer : pool.server.accepted.Answers call)
    (hgiven : PoolGiven held headerTime pool (.shared (.called c call)) (pool.called c call server store)) :
    (pool.called c call server store).Claimed held headerTime ((pool.owned c).after call).fresh hash now := by
  subst hcall
  have hnow : now ≤ pool.clock := hmakes.1.trans_le (h.read c)
  have htook : (pool.server.accepted.insert hash now).1 = true := hanswer.symm
  have hlookup : server.accepted.acceptedAt.lookup hash = some now := by
    rw [hserver]
    exact lookup_hold htook
  have howned : hash ∈ ((pool.called c ⟨(.claim hash now, conn), true⟩ server store).owned c).claims := by
    rw [owned_called]
    exact List.mem_cons_self
  refine ⟨hlookup, hnow, hgiven.claimed c hash howned now hlookup, ⟨pool.clock, ?_, hnow⟩, .inl rfl, ?_⟩
  · refine List.mem_append_right _ ?_
    rw [takes, htook]
    exact List.mem_singleton_self _
  · intro share hshare
    have hshare : share ∈ pool.credited ++ [] := hshare
    rw [List.append_nil] at hshare
    exact (h.unclaimed hheld hnow htook).2 share hshare

theorem Sound.claims_called (hheld : 4 * held ≤ CLOCK_STEP_MARGIN_SECS) (h : pool.Sound held headerTime)
    (hserver : server.accepted = pool.server.accepted.after call) (hmakes : (pool.owned c).Makes call.1)
    (hanswer : pool.server.accepted.Answers call)
    (hgiven : PoolGiven held headerTime pool (.shared (.called c call)) (pool.called c call server store)) (c' : ι)
    (hmem : hash ∈ ((pool.called c call server store).owned c').claims) :
    ∃ t, (pool.called c call server store).Claimed held headerTime
      ((pool.called c call server store).owned c').fresh hash t := by
  have hforward : Forward held (removes call = some ·) pool (pool.called c call server store) :=
    h.forward_called hserver hmakes hgiven.forward
  have hclaimed := hgiven.claimed c' hash hmem
  have hcredited (hnot : ∀ share ∈ credits call, share.blockHash ≠ hash) :
      ∀ share ∈ (pool.called c call server store).credited, share.blockHash = hash → share ∈ pool.credited := by
    intro share hshare heq
    exact (List.mem_append.mp hshare).resolve_right fun hshare => hnot share hshare heq
  by_cases heq : c' = c
  · subst heq
    rw [owned_called] at hmem ⊢
    obtain ⟨hmem, hgone, hnot⟩ | ⟨now, conn, hcall⟩ := mem_claims_after hmem
    · obtain ⟨t, hold⟩ := h.claims c' hash hmem
      exact ⟨t, hold.forward hheld hforward hgone hclaimed (fresh_after hmakes hgiven.hashed) (hcredited hnot)⟩
    · exact ⟨now, h.claimed_called hheld hcall hserver hmakes hanswer hgiven⟩
  · rw [owned_called_ne heq] at hmem ⊢
    obtain ⟨t, hold⟩ := h.claims c' hash hmem
    have hother : hash ∉ (pool.owned c).claims := h.apart c' c heq hash hmem
    refine ⟨t, hold.forward hheld hforward (fun hgone => hother (removes_mine hmakes hgone)) hclaimed .inl
      (hcredited fun share hshare hsame => ?_)⟩
    rw [← hsame] at hother
    exact hother (credits_mine hmakes hshare)

theorem Sound.apart_called (hheld : 4 * held ≤ CLOCK_STEP_MARGIN_SECS) (h : pool.Sound held headerTime)
    (hmakes : (pool.owned c).Makes call.1) (hanswer : pool.server.accepted.Answers call) (c₁ c₂ : ι) (hne : c₁ ≠ c₂)
    (hmem : hash ∈ ((pool.called c call server store).owned c₁).claims) :
    hash ∉ ((pool.called c call server store).owned c₂).claims := by
  -- what a thread owns it owned before, or the call claimed it
  have hfrom : ∀ c', hash ∈ ((pool.called c call server store).owned c').claims → hash ∈ (pool.owned c').claims ∨
      c' = c ∧ ∀ c', hash ∉ (pool.owned c').claims := by
    intro c' hmem
    by_cases heq : c' = c
    · subst heq
      rw [owned_called] at hmem
      obtain ⟨hmem, -⟩ | ⟨now, conn, rfl⟩ := mem_claims_after hmem
      · exact .inl hmem
      · exact .inr ⟨rfl, (h.unclaimed hheld (hmakes.1.trans_le (h.read c')) hanswer.symm).1⟩
    · rw [owned_called_ne heq] at hmem
      exact .inl hmem
  intro hmem'
  obtain hold | ⟨rfl, hnone⟩ := hfrom c₁ hmem
  · obtain hold' | ⟨-, hnone⟩ := hfrom c₂ hmem'
    · exact h.apart c₁ c₂ hne hash hold hold'
    · exact hnone c₁ hold
  · obtain hold' | ⟨rfl, -⟩ := hfrom c₂ hmem'
    · exact hnone c₂ hold'
    · exact hne rfl

/-- What a call leaves of the shares credited. -/
structure CreditsKept (held : Nat) (headerTime : Hash → Nat) (pool : SharePool ι) : Prop where
  recorded : RowsRecorded held headerTime pool.clock pool.taken pool.credited
  kept : ∀ share ∈ pool.credited, pool.Keeps held headerTime share
  rows : pool.store.Backs pool.credited fun share => ¬Live held headerTime pool.clock share.blockHash

theorem Sound.credits_called (hheld : 4 * held ≤ CLOCK_STEP_MARGIN_SECS) (h : pool.Sound held headerTime)
    (hserver : server.accepted = pool.server.accepted.after call) (hmakes : (pool.owned c).Makes call.1)
    (hstore : Commits pool.store call store)
    (hgiven : PoolGiven held headerTime pool (.shared (.called c call)) (pool.called c call server store)) :
    CreditsKept held headerTime (pool.called c call server store) := by
  have hforward : Forward held (removes call = some ·) pool (pool.called c call server store) :=
    h.forward_called hserver hmakes hgiven.forward
  have hkept : ∀ share ∈ pool.credited, (pool.called c call server store).Keeps held headerTime share := by
    intro share hshare
    refine (h.kept share hshare).forward hheld hforward fun hgone => ?_
    obtain ⟨t, hclaimed⟩ := h.claims c _ (removes_mine hmakes hgone)
    exact hclaimed.spent share hshare rfl
  have hrecorded : RowsRecorded held headerTime (clockAfter pool.clock call) (pool.taken ++ takes _ _ call)
      pool.credited := h.recorded.mono hgiven.forward hforward.taken
  have hrows : pool.store.Backs pool.credited fun share =>
      ¬Live held headerTime (clockAfter pool.clock call) share.blockHash :=
    h.rows.mono fun share _ hspent hlive => hspent (hlive.earlier hgiven.forward)
  cases commit_of_commits hstore with
  | nothing hcredits =>
      have hcredited : (pool.called c call server pool.store).credited = pool.credited := by
        rw [called, hcredits, List.append_nil]
      refine ⟨?_, ?_, ?_⟩
      · rw [hcredited]
        exact hrecorded
      · rw [hcredited]
        exact hkept
      · rw [hcredited]
        exact hrows
  | recorded hinsert =>
      rename_i share conn cumulativeWork
      obtain ⟨hpast, hfresh, hmine⟩ := hmakes
      obtain ⟨t, hclaimed, hwithin, hnew⟩ := h.uncredited hmine hfresh
      have hintime := hclaimed.inTime
      have hpast : share.acceptedAt.toNat ≤ pool.clock := hpast.trans (h.read c)
      have harrived := hgiven.credited share (List.mem_singleton_self _)
      obtain ⟨since, hsince, hle⟩ := hclaimed.taken
      refine ⟨?_, fun other hother => ?_, hrows.insertBatch hinsert⟩
      · refine hrecorded.push hnew harrived hpast (hwithin.1.trans (Nat.add_le_add_right hclaimed.past _))
          ⟨since, hforward.taken hsince, ?_⟩
        omega
      · obtain hother | hother := List.mem_append.mp hother
        · exact hkept other hother
        · obtain rfl := List.mem_singleton.mp hother
          refine fun _ => ⟨t, ?_, hwithin.1.trans (Nat.le_add_right _ _)⟩
          show server.accepted.acceptedAt.lookup _ = _
          rw [hserver]
          exact hclaimed.lookup

end Called

/-- **A call of a thread keeps the pool sound.** -/
theorem Sound.called [DecidableEq ι] (hheld : 4 * held ≤ CLOCK_STEP_MARGIN_SECS) (h : pool.Sound held headerTime)
    {call : ShareOp × Connection} {next : ShareOp.Answer call.1 → ShareProgram} {answer : ShareOp.Answer call.1}
    {store : Store} (hat : (pool.server.threads c).program = .call call next)
    (hanswer : pool.server.accepted.Answers ⟨call, answer⟩) (hstore : Commits pool.store ⟨call, answer⟩ store)
    (hgiven : PoolGiven held headerTime pool (.shared (.called c ⟨call, answer⟩))
      (pool.called c ⟨call, answer⟩ (pool.server.called c ⟨call, answer⟩ (next answer)) store)) :
    (pool.called c ⟨call, answer⟩ (pool.server.called c ⟨call, answer⟩ (next answer)) store).Sound held
      headerTime := by
  have hmeets := h.threads c
  rw [ShareThread.Owns, hat] at hmeets
  obtain ⟨hmakes, hnext⟩ := hmeets
  have hmakes : (pool.owned c).Makes (⟨call, answer⟩ : ShareCall).1 := hmakes
  have hanswered := h.answered hheld hmakes hanswer hgiven.forward
  obtain ⟨hrecorded, hkept, hrows⟩ := h.credits_called hheld rfl hmakes hstore hgiven
  refine ⟨fun c' => ?_, fun c' => ?_, fun c' hash => h.claims_called hheld rfl hmakes hanswer hgiven c',
    fun c₁ c₂ hne hash => h.apart_called hheld hmakes hanswer c₁ c₂ hne, hrecorded, hkept, hrows,
    (h.filled_called rfl hmakes hgiven.forward).1, (h.filled_called rfl hmakes hgiven.forward).2, hgiven.few, ?_⟩
  · by_cases heq : c' = c
    · subst heq
      rw [owned_called]
      simp only [called, ShareServer.called, ShareServer.thread_setThread]
      exact hnext answer hanswered
    · rw [owned_called_ne heq]
      show ((pool.server.called c ⟨call, answer⟩ (next answer)).threads c').Owns (pool.owned c')
      simp only [ShareServer.called, ShareServer.thread_setThread_ne heq]
      exact h.threads c'
  · by_cases heq : c' = c
    · subst heq
      rw [owned_called]
      exact read_after (h.read c') hgiven.forward
    · rw [owned_called_ne heq]
      exact (h.read c').trans hgiven.forward
  · exact clockAfter_le h.bounded

/-! ### The other steps -/

/-- A step that leaves the hashes, the clock and the shares credited as they were keeps the pool sound. -/
theorem Sound.of_same (hheld : 4 * held ≤ CLOCK_STEP_MARGIN_SECS) (h : pool.Sound held headerTime)
    (haccepted : pool'.server.accepted = pool.server.accepted) (hclock : pool'.clock = pool.clock)
    (htaken : pool'.taken = pool.taken) (hcredited : pool'.credited = pool.credited)
    (hthreads : ∀ c, (pool'.server.threads c).Owns (pool'.owned c))
    (hread : ∀ c, (pool'.owned c).read = (pool.owned c).read)
    (hfresh : ∀ c, (pool'.owned c).fresh = (pool.owned c).fresh)
    (hclaims : ∀ c, (pool'.owned c).claims ⊆ (pool.owned c).claims)
    (hrows : pool'.store.Backs pool.credited fun share => ¬Live held headerTime pool.clock share.blockHash) :
    pool'.Sound held headerTime := by
  have hforward : Forward held (fun _ => False) pool pool' :=
    ⟨hclock.ge, htaken ▸ List.Subset.refl _, fun hash t _ hlookup _ => by rwa [haccepted]⟩
  refine ⟨hthreads, fun c => ?_, fun c hash hmem => ?_, fun c c' hne hash hmem hmem' => ?_, ?_, fun share hshare => ?_,
    ?_, ?_, ?_, ?_, ?_⟩
  · rw [hread, hclock]
    exact h.read c
  · obtain ⟨t, hclaimed⟩ := h.claims c hash (hclaims c hmem)
    refine ⟨t, hclaimed.forward hheld hforward id (fun t' hlookup => ?_) (fun hmine => .inl ?_)
      fun share hshare _ => hcredited ▸ hshare⟩
    · rw [haccepted, hclaimed.lookup] at hlookup
      obtain rfl := Option.some.inj hlookup
      rw [hclock]
      exact hclaimed.inTime
    · rw [hfresh]
      exact hmine
  · exact h.apart c c' hne hash (hclaims c hmem) (hclaims c' hmem')
  · rw [hclock, htaken, hcredited]
    exact h.recorded
  · exact (h.kept share (hcredited ▸ hshare)).forward hheld hforward fun hgone => hgone.elim
  · rw [hclock, hcredited]
    exact hrows
  · rw [hclock, htaken, haccepted]
    exact h.filled
  · rw [haccepted]
    exact h.capacity
  · rw [hclock, htaken]
    exact h.few
  · rw [hclock]
    exact h.bounded

theorem owns_rests (verifier : Verifier) (v3 : Option AbwSlotState) {owned : Owned} (hsettled : owned.fresh = none) :
    (ShareThread.rests ⟨⟨verifier, [], []⟩, v3, []⟩).Owns owned := by
  refine ⟨hsettled, fun _ => ⟨List.nil_subset _, List.nodup_nil, fun _ hmem => ?_, fun _ hmem => ?_⟩⟩
  · cases hmem
  · cases hmem

/-- A thread that rests, and what it does next. -/
theorem Sound.rests (h : pool.Sound held headerTime) {ended : Except IoError Unit × Connection}
    (hat : (pool.server.threads c).program = .done ended) :
    (pool.owned c).fresh = none ∧
      ((pool.server.threads c).closing = false → ended.2.Waits [] (pool.owned c)) := by
  have howns := h.threads c
  rw [ShareThread.Owns, hat] at howns
  exact howns

/-- **A pool that starts is sound**, over the rows of the shares credited before. -/
theorem sound_started (hheld : 4 * held ≤ CLOCK_STEP_MARGIN_SECS) {db : Database} {now : UInt64} {store : Store}
    {server : ShareServer ι} (nextSeq : Nat) (hrecorded : RowsRecorded held headerTime now.toNat taken credited)
    (hfew : Few now.toNat MAX_ACCEPTED_HASHES taken)
    (hrows : db.committed.shares.Backs nextSeq credited fun share =>
      ¬Live held headerTime now.toNat share.blockHash)
    (hstarts : PoolStarts db now store server) :
    (started server store now.toNat credited taken).Sound held headerTime := by
  obtain ⟨path, keep, chain, answer, hopen⟩ := hstarts.opened
  obtain ⟨rows, read, verifiers, v3, hread, rfl⟩ := hstarts.seeded
  have hbacks := Store.backs_open hrows hopen
  have hmax : now.toNat ≤ U64_MAX := Nat.le_sub_one_of_lt now.toNat_lt
  have hseeded := hrecorded.seeded hheld hfew hbacks hmax hread
  refine ⟨fun c => owns_rests (verifiers c) (v3 c) rfl, fun _ => le_rfl, fun _ _ hmem => ?_, fun _ _ _ _ hmem => ?_,
    hrecorded, fun share hshare hlive => ?_, hbacks, hseeded.filled, hseeded.capacity, hfew, hmax⟩
  · cases hmem
  · cases hmem
  · exact ⟨_, hseeded.kept share hshare hlive, hrecorded.header share hshare⟩

variable [DecidableEq ι] {H : Hashing} {addressScript : AddressScript}

/-- A thread goes on as another, which owns what it did. -/
theorem Sound.of_thread (hheld : 4 * held ≤ CLOCK_STEP_MARGIN_SECS) (h : pool.Sound held headerTime)
    {thread : ShareThread} (howns : thread.Owns (pool.owned c)) :
    { pool with server := pool.server.setThread c thread }.Sound held headerTime := by
  refine h.of_same hheld rfl rfl rfl rfl (fun c' => ?_) (fun _ => rfl) (fun _ => rfl)
    (fun _ => List.Subset.refl _) h.rows
  by_cases heq : c' = c
  · subst heq
    rw [ShareServer.thread_setThread]
    exact howns
  · rw [ShareServer.thread_setThread_ne heq]
    exact h.threads c'

/-- **A step between two calls keeps the pool sound.** -/
theorem Sound.quiet (hheld : 4 * held ≤ CLOCK_STEP_MARGIN_SECS) (h : pool.Sound held headerTime)
    {server : ShareServer ι} (hstep : ShareStep H addressScript pool.server .quiet server) :
    { pool with server }.Sound held headerTime := by
  generalize hevent : (ShareEvent.quiet : ShareEvent ι) = event at hstep
  cases hstep with
  | call => cases hevent
  | drop => cases hevent
  | share s hat hopen =>
      obtain ⟨hsettled, hwaits⟩ := h.rests hat
      refine h.of_thread hheld (Prog.Meets.mono (Connection.onShare_owns (hwaits hopen) hsettled) ?_)
      exact fun _ _ hrest => ⟨hrest.settled, fun _ => hrest.waits⟩
  | release selected hat hopen =>
      obtain ⟨hsettled, hwaits⟩ := h.rests hat
      refine h.of_thread hheld (Prog.Meets.mono (Connection.releaseHeld_owns (hwaits hopen) hsettled) ?_)
      exact fun _ _ hrest => ⟨hrest.2, fun _ => hrest.1⟩
  | turn verifier txnRequests v3 hv3 hat hopen =>
      obtain ⟨hsettled, hwaits⟩ := h.rests hat
      have hwaits := hwaits hopen
      exact h.of_thread hheld ⟨hsettled, fun _ => ⟨hwaits.claimed, hwaits.distinct, hwaits.arrived, hwaits.parents⟩⟩
  | reconnect verifier v3 hat hclosed =>
      rename_i c ended
      refine h.of_same hheld rfl rfl rfl rfl (fun c' => ?_) (fun _ => rfl) (fun _ => rfl)
        (fun _ => List.Subset.refl _) h.rows
      by_cases heq : c' = c
      · subst heq
        rw [ShareServer.thread_setThread]
        exact owns_rests verifier v3 (h.rests hat).1
      · rw [ShareServer.thread_setThread_ne heq]
        exact h.threads c'

theorem owned_dropped {server : ShareServer ι} : (pool.dropped c server).owned c =
    { pool.owned c with claims := heldBy (pool.server.threads c) } := Function.update_self ..

theorem owned_dropped_ne {server : ShareServer ι} {c' : ι} (hne : c' ≠ c) :
    (pool.dropped c server).owned c' = pool.owned c' := Function.update_of_ne hne ..

/-- **A connection dropped keeps the pool sound.** -/
theorem Sound.dropped (hheld : 4 * held ≤ CLOCK_STEP_MARGIN_SECS) (h : pool.Sound held headerTime)
    {server : ShareServer ι} (hstep : ShareStep H addressScript pool.server (.dropped c) server) :
    (pool.dropped c server).Sound held headerTime := by
  generalize hevent : ShareEvent.dropped c = event at hstep
  cases hstep with
  | call | share | release | turn | reconnect => cases hevent
  | drop hat hopen =>
      obtain rfl := ShareEvent.dropped.inj hevent
      rename_i result conn
      obtain ⟨hsettled, hwaits⟩ := h.rests hat
      have hwaits := hwaits hopen
      have hheldBy : heldBy (pool.server.threads c) = conn.heldClaims := by rw [heldBy, hat]
      refine h.of_same hheld rfl rfl rfl rfl (fun c' => ?_) (fun c' => ?_) (fun c' => ?_) (fun c' => ?_) h.rows
      · by_cases heq : c' = c
        · subst heq
          rw [owned_dropped, hheldBy]
          show ((pool.server.setThread c' _).threads c').Owns _
          rw [ShareServer.thread_setThread]
          have hdistinct := hwaits.distinct.sublist (Connection.heldClaims_sublist conn)
          have hdrop := Connection.drop_owns
            (List.Subset.refl { pool.owned c' with claims := conn.heldClaims : Owned }.claims) hdistinct hsettled
          exact Prog.Meets.mono hdrop fun _ _ hfresh => ⟨hfresh, fun hopen => by cases hopen⟩
        · rw [owned_dropped_ne heq]
          show ((pool.server.setThread c _).threads c').Owns _
          rw [ShareServer.thread_setThread_ne heq]
          exact h.threads c'
      · by_cases heq : c' = c
        · subst heq
          rw [owned_dropped]
        · rw [owned_dropped_ne heq]
      · by_cases heq : c' = c
        · subst heq
          rw [owned_dropped]
        · rw [owned_dropped_ne heq]
      · by_cases heq : c' = c
        · subst heq
          rw [owned_dropped, hheldBy]
          exact List.Subset.trans (Connection.heldClaims_sublist conn).subset hwaits.claimed
        · rw [owned_dropped_ne heq]
          exact List.Subset.refl _

/-- **Every step keeps the pool sound**, as long as the run is given what it is. -/
theorem Sound.step (hheld : 4 * held ≤ CLOCK_STEP_MARGIN_SECS) (h : pool.Sound held headerTime)
    {event : SharePoolEvent ι} (hstep : SharePoolStep H addressScript pool event pool') (hgiven : PoolGiven held headerTime pool event pool') :
    pool'.Sound held headerTime := by
  cases hstep with
  | called hstep hstore =>
      cases hstep with
      | call answer hat hanswer => exact h.called hheld hat hanswer hstore hgiven
  | quiet hstep => exact h.quiet hheld hstep
  | dropped hstep => exact h.dropped hheld hstep
  | retained hnewest hretain =>
      exact h.of_same hheld rfl rfl rfl rfl h.threads (fun _ => rfl) (fun _ => rfl) (fun _ => List.Subset.refl _)
        (h.rows.retained hheld h.recorded h.few hnewest hretain)
  | restarted crashed hstarts =>
      have hrows := h.rows.mono fun share _ hspent hlive => hspent (Live.earlier hlive hgiven.forward)
      refine sound_started hheld pool.store.nextSeq (h.recorded.mono hgiven.forward (List.Subset.refl _)) hgiven.few
        ?_ hstarts
      cases crashed
      · exact hrows.committed
      · exact hrows.durable

theorem sound_of_run (hheld : 4 * held ≤ CLOCK_STEP_MARGIN_SECS) {trace : List (SharePoolEvent ι)}
    (hrun : ((pooling H addressScript).constrain (PoolGiven held headerTime)).Run trace pool) :
    pool.Sound held headerTime := by
  refine hrun.invariant (I := fun _ pool => pool.Sound held headerTime) ?_ ?_
  · rintro pool ⟨now, store, server, hstarts, rfl⟩
    refine sound_started hheld 0 .nil ?_ ShareTable.Backs.nil hstarts
    show (0 : Nat) < MAX_ACCEPTED_HASHES
    decide
  · intro trace pool event pool' h hstep
    exact h.step hheld hstep.2 hstep.1

/-- The rows' hashes are those of the last shares credited. -/
theorem blockHashes_suffix {store : Store} {spent : Share → Prop} (h : store.Backs credited spent) :
    store.blockHashes <:+ credited.map Share.blockHash := by
  obtain ⟨gone, kept, rfl, hrows, -⟩ := h.committed.rows
  have hkept : store.blockHashes = kept.map Share.blockHash := by
    have hheads : store.blockHashes = (store.db.committed.shares.map fun entry => unpackHead entry.2).filterMap
        (Option.map RowHead.blockHash) := by
      rw [List.filterMap_map]
      rfl
    rw [hheads, show store.db.committed.shares.map (fun entry => unpackHead entry.2) = _ from hrows,
      List.filterMap_map]
    show kept.filterMap (some ∘ Share.blockHash) = _
    rw [List.filterMap_eq_map]
  rw [hkept, List.map_append]
  exact List.suffix_append _ _

end SharePool

/-- **A share is credited at most once**, in every run whose clock does not go back, that holds no share for too
long and inserts fewer hashes within the retention than are held: no block hash is credited twice, and none is
in two rows of the ledger. -/
theorem share_credited_once {ι : Type} [DecidableEq ι] {H : Hashing} {addressScript : AddressScript}
    {trace : List (SharePoolEvent ι)} {pool : SharePool ι} (hheld : 4 * held ≤ CLOCK_STEP_MARGIN_SECS)
    (hrun : ((pooling H addressScript).constrain (PoolGiven held headerTime)).Run trace pool) :
    (pool.credited.map Share.blockHash).Nodup ∧ pool.store.blockHashes.Nodup := by
  have hsound := SharePool.sound_of_run hheld hrun
  exact ⟨hsound.recorded.once, hsound.recorded.once.sublist (SharePool.blockHashes_suffix hsound.rows).sublist⟩

/-! ### A share sent again after a restart -/

namespace SharePool

/-- What a pool starts with over a database, with one connection. -/
def freshStore (db : Database) : Store where
  db := ⟨db.committed, db.committed⟩
  path := ""
  nextSeq := (db.committed.shares.last).elim 0 (· + 1)
  retainBound := none
  cumulativeWork := db.committed.cumulativeWork.getD 0
  stamped := false

def freshServer (db : Database) (now : UInt64) : ShareServer Unit :=
  let rows := (Store.acceptedBack (now.toNat - ACCEPTED_HASH_RETENTION_SECS) MAX_ACCEPTED_HASHES
    db.committed.shares.reverse).reverse
  { accepted := .fromRows (rows.map fun row => (row.1.toNat, row.2)) now.toNat
    ends := ⟨rows.map Prod.snd, [], [], []⟩
    threads := fun _ => .rests newConnection }

def startedOver (db : Database) (now : UInt64) (credited : List Share) (taken : List (Nat × Hash)) :
    SharePool Unit := started (freshServer db now) (freshStore db) now.toNat credited taken

theorem poolStarts_fresh (db : Database) (now : UInt64) :
    PoolStarts db now (freshStore db) (freshServer db now) where
  opened := ⟨"", none, none, .ok (), rfl⟩
  seeded := ⟨_, .ok (), fun _ => .new Verifier.untaggedPolicy, fun _ => none, rfl, rfl⟩

/-- The store after a call, its writes answered. -/
def storeAfter (store : Store) : ShareCall → Store
  | ⟨(.record share, _), .ok _⟩ => { store with
      db := ⟨{ store.db.committed with
          shares := Store.insertRows store.db.committed.shares store.nextSeq [share]
          cumulativeWork := some 0 }, { store.db.committed with
          shares := Store.insertRows store.db.committed.shares store.nextSeq [share]
          cumulativeWork := some 0 }⟩
      nextSeq := store.nextSeq + 1 }
  | _ => store

theorem commits_storeAfter (store : Store) (call : ShareCall) : Commits store call (storeAfter store call) := by
  obtain ⟨⟨op, conn⟩, answer⟩ := call
  cases op with
  | record share =>
      cases answer with
      | error e => rfl
      | ok _ => exact ⟨0, rfl⟩
  | _ => rfl

/-- The next call of the thread, answered, with the pool after it. -/
def nextCalled (env : (op : ShareOp) → op.Answer) (pool : SharePool Unit) : Option (ShareCall × SharePool Unit) :=
  match (pool.server.threads ()).program with
  | .done _ => none
  | .call call next =>
      let answer := ShareServer.answer env pool.server.accepted call.1
      some (⟨call, answer⟩, pool.called () ⟨call, answer⟩ (pool.server.called () ⟨call, answer⟩ (next answer))
        (storeAfter pool.store ⟨call, answer⟩))

/-- After the calls of the thread, `n` of them at most. -/
def runOn (env : (op : ShareOp) → op.Answer) : Nat → SharePool Unit → SharePool Unit
  | 0, pool => pool
  | n + 1, pool =>
      match pool.nextCalled env with
      | none => pool
      | some (_, pool) => runOn env n pool

variable {held : Nat} {headerTime : Hash → Nat} {H : Hashing} {addressScript : AddressScript}
  {pool : SharePool Unit} {trace : List (SharePoolEvent Unit)}

theorem poolGiven_iff {pool' : SharePool Unit} {event : SharePoolEvent Unit} :
    PoolGiven held headerTime pool event pool' ↔ pool.clock ≤ pool'.clock ∧
      (∀ hash ∈ (pool'.owned ()).claims, ∀ t ∈ pool'.server.accepted.acceptedAt.lookup hash, pool'.clock ≤ t + held) ∧
      (∀ share ∈ event.credits, pool.clock ≤ share.acceptedAt.toNat + held) ∧
      pool'.taken.countP (fun insertion => pool'.clock ≤ insertion.1 + ACCEPTED_HASH_RETENTION_SECS) <
        MAX_ACCEPTED_HASHES ∧
      ∀ settled ∈ event.settles, headerTime settled.2.blockHash = settled.1.blockTime.toNat := by
  constructor
  · rintro ⟨hforward, hclaimed, hcredited, hfew, hhashed⟩
    exact ⟨hforward, hclaimed (), hcredited, hfew, hhashed⟩
  · rintro ⟨hforward, hclaimed, hcredited, hfew, hhashed⟩
    exact ⟨hforward, fun _ => hclaimed, hcredited, hfew, hhashed⟩

instance {pool' : SharePool Unit} {event : SharePoolEvent Unit} :
    Decidable (PoolGiven held headerTime pool event pool') :=
  decidable_of_iff' _ poolGiven_iff

/-- A thread runs on as long as its calls are ones a run is given. -/
theorem run_runOn (hrun : ((pooling H addressScript).constrain (PoolGiven held headerTime)).Run trace pool)
    (env : (op : ShareOp) → op.Answer) (n : Nat)
    (hgiven : ∀ k < n, ∀ next ∈ (pool.runOn env k).nextCalled env,
      PoolGiven held headerTime (pool.runOn env k) (.shared (.called () next.1)) next.2) :
    ∃ trace', ((pooling H addressScript).constrain (PoolGiven held headerTime)).Run trace' (pool.runOn env n) := by
  induction n generalizing trace pool with
  | zero => exact ⟨trace, hrun⟩
  | succ n ih =>
      rw [runOn]
      split
      · exact ⟨trace, hrun⟩
      · rename_i call pool' hnext
        refine ih (hrun.next ⟨hgiven 0 (Nat.succ_pos n) _ hnext, ?_⟩) fun k hk => ?_
        · unfold nextCalled at hnext
          split at hnext
          · cases hnext
          · rename_i op next hat
            cases hnext
            exact .called (.call _ hat (ShareServer.answers_answer env _ _)) (commits_storeAfter _ _)
        · have hrest := hgiven (k + 1) (Nat.succ_lt_succ hk)
          rw [runOn, hnext] at hrest
          exact hrest

/-- A share is sent on the connection of a pool that started. -/
def sentOver (db : Database) (now : UInt64) (credited : List Share) (taken : List (Nat × Hash)) : SharePool Unit :=
  { startedOver db now credited taken with
    server := (freshServer db now).move () (newConnection.onShare Verifier.blankHashing (fun _ => some [])
      (Verifier.plainShare (Verifier.repeatedHash 0))) }

/-- The share is credited when the pool first runs. -/
def creditedFirst (n : Nat) : SharePool Unit := (sentOver emptyDatabase 0 [] []).runOn (quietAnswers (.ok none)) n

def laterAnswers : (op : ShareOp) → op.Answer
  | .unixNow => 5000
  | op => quietAnswers (.ok none) op

/-- After a crash the pool starts again. -/
def restartedLater : SharePool Unit :=
  let pool := creditedFirst 6
  startedOver (pool.store.db.reopened true) 5000 pool.credited pool.taken

/-- And the share is sent again. -/
def sentAgain (n : Nat) : SharePool Unit :=
  let pool := creditedFirst 6
  (sentOver (pool.store.db.reopened true) 5000 pool.credited pool.taken).runOn laterAnswers n

theorem run_sentOver {db : Database} {now : UInt64} {credited : List Share} {taken : List (Nat × Hash)}
    (hrun : ((pooling Verifier.blankHashing fun _ => some []).constrain (PoolGiven held headerTime)).Run trace
      (startedOver db now credited taken))
    (hgiven : PoolGiven held headerTime (startedOver db now credited taken) (.shared .quiet)
      (sentOver db now credited taken)) :
    ((pooling Verifier.blankHashing fun _ => some []).constrain (PoolGiven held headerTime)).Run
      (trace ++ [.shared .quiet]) (sentOver db now credited taken) :=
  hrun.next ⟨hgiven, .quiet (.share _ rfl rfl)⟩

end SharePool

/-- A share credited, and sent again after a crash and a restart. -/
theorem share_credited_once_resent : ∃ trace, ∃ pool : SharePool Unit,
    ((pooling Verifier.blankHashing fun _ => some []).constrain (PoolGiven 30 fun _ => 0)).Run trace pool ∧
    pool.clock = 5000 ∧ pool.credited.length = 1 ∧
    (pool.credited.map Share.blockHash).Nodup ∧ pool.store.blockHashes.Nodup := by
  have hstart : ((pooling Verifier.blankHashing fun _ => some []).constrain (PoolGiven 30 fun _ => 0)).Run []
      (SharePool.startedOver emptyDatabase 0 [] []) :=
    .start ⟨0, _, _, SharePool.poolStarts_fresh emptyDatabase 0, rfl⟩
  have hfirst : ∀ k < 6, ∀ next ∈ (SharePool.creditedFirst k).nextCalled (quietAnswers (.ok none)),
      PoolGiven 30 (fun _ => 0) (SharePool.creditedFirst k) (.shared (.called () next.1)) next.2 := by decide +kernel
  obtain ⟨trace, hcredited⟩ := SharePool.run_runOn (SharePool.run_sentOver hstart (by decide +kernel))
    (quietAnswers (.ok none)) 6 hfirst
  have hrestarted : SharePoolStep Verifier.blankHashing (fun _ => some []) (SharePool.creditedFirst 6) .restarted
      SharePool.restartedLater := .restarted true (SharePool.poolStarts_fresh _ 5000)
  have hgiven : PoolGiven 30 (fun _ => 0) (SharePool.creditedFirst 6) .restarted SharePool.restartedLater := by
    decide +kernel
  have hrestart := hcredited.next ⟨hgiven, hrestarted⟩
  have hagain : ∀ k < 5, ∀ next ∈ (SharePool.sentAgain k).nextCalled SharePool.laterAnswers,
      PoolGiven 30 (fun _ => 0) (SharePool.sentAgain k) (.shared (.called () next.1)) next.2 := by decide +kernel
  obtain ⟨trace, hrun⟩ := SharePool.run_runOn (SharePool.run_sentOver hrestart (by decide +kernel))
    SharePool.laterAnswers 5 hagain
  exact ⟨trace, _, hrun, by decide +kernel, by decide +kernel, share_credited_once (by decide) hrun⟩

end Ratum
