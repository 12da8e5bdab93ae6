import Horizon.Kernel.Arp
import Mathlib.Tactic.Common
/-!
# The locks of `arp_recv`

The loop over the bucket keeps the lock of the sender's entry for the update, but a packet for
another address returns between the two. Every later packet that comes to this entry then spins.
-/

namespace Horizon.Arp

/-- The entries that the loop comes to: no entry before them is the sender's. -/
def Reaches (packet : Packet) (entries : List NeighbourEntry) (entry : NeighbourEntry) : Prop :=
  ∃ before after, entries = before ++ entry :: after ∧ ∀ other ∈ before, ¬ packet.SentBy other

theorem reaches_head (packet : Packet) (entry : NeighbourEntry) (rest : List NeighbourEntry) :
    Reaches packet (entry :: rest) entry :=
  ⟨[], rest, rfl, by simp⟩

theorem reaches_tail {packet : Packet} {entry other : NeighbourEntry}
    {rest : List NeighbourEntry} (stranger : ¬ packet.SentBy entry)
    (reached : Reaches packet rest other) : Reaches packet (entry :: rest) other := by
  obtain ⟨before, after, split, strangers⟩ := reached
  exact ⟨entry :: before, after, by rw [split, List.cons_append],
    List.forall_mem_cons.mpr ⟨stranger, strangers⟩⟩

/-- With a locked entry on its way the loop never ends. -/
theorem findSender_spins (packet : Packet) {entries : List NeighbourEntry} {entry : NeighbourEntry}
    (reached : Reaches packet entries entry) (locked : entry.lock = true) :
    findSender packet entries = none := by
  obtain ⟨before, after, rfl, strangers⟩ := reached
  induction before with
  | nil => simp [findSender, spinLock, locked]
  | cons other before ih =>
    have rest := ih fun stranger member => strangers stranger (List.mem_cons_of_mem _ member)
    simp [findSender, spinLock, strangers other (List.mem_cons_self ..), rest]

/-- With no locked entry on its way the loop ends at the sender's entry, which it has locked, or
behind a bucket it leaves as it was. -/
theorem findSender_spec (packet : Packet) {entries : List NeighbourEntry}
    (unlocked : ∀ entry, Reaches packet entries entry → entry.lock = false) :
    (∃ before entry after, entries = before ++ entry :: after ∧
      (∀ other ∈ before, ¬ packet.SentBy other) ∧ packet.SentBy entry ∧
      findSender packet entries =
        some (some entry, before ++ { entry with lock := true } :: after)) ∨
    ((∀ entry ∈ entries, ¬ packet.SentBy entry) ∧
      findSender packet entries = some (none, entries)) := by
  induction entries with
  | nil => exact .inr ⟨by simp, rfl⟩
  | cons entry rest ih =>
    have open' := unlocked entry (reaches_head packet entry rest)
    by_cases sender : packet.SentBy entry
    · exact .inl ⟨[], entry, rest, rfl, by simp, sender, by
        simp [findSender, spinLock, open', sender]⟩
    · have same : { entry with lock := spinUnlock } = entry := by
        rw [spinUnlock, ← open']
      cases ih fun other reached => unlocked other (reaches_tail sender reached) with
      | inl found =>
        obtain ⟨before, other, after, rfl, strangers, sent, scanned⟩ := found
        exact .inl ⟨entry :: before, other, after, rfl,
          List.forall_mem_cons.mpr ⟨sender, strangers⟩, sent, by
          simp [findSender, spinLock, open', sender, scanned, same]⟩
      | inr nobody =>
        exact .inr ⟨List.forall_mem_cons.mpr ⟨sender, nobody.1⟩, by
          simp [findSender, spinLock, open', sender, nobody.2, same]⟩

/-- Every lock that is set in `after` was set in `before`; entries keep their places in the lists,
since a new one is put at the end. -/
def Releases (before after : NeighbourTable) : Prop :=
  ∀ key, (after.lock key = true → before.lock key = true) ∧
    ∀ (place : Nat) (entry : NeighbourEntry), (after.buckets key)[place]? = some entry →
      entry.lock = true →
      ∃ old, (before.buckets key)[place]? = some old ∧ old.lock = true

/-- The packets that `arp_recv` handles rightly: it comes to no lock that is set, and a packet for
another address comes from a sender that is not in the table. -/
def Handled (device : Device) (table : NeighbourTable) (packet : Packet) : Prop :=
  table.lock (ipv4Hash packet.srcPaddr) = false ∧
  (∀ entry, Reaches packet (table.buckets (ipv4Hash packet.srcPaddr)) entry →
    entry.lock = false) ∧
  (packet.dstPaddr = device.ip ∨
    ∀ entry ∈ table.buckets (ipv4Hash packet.srcPaddr), ¬ packet.SentBy entry)

theorem Releases.refl (table : NeighbourTable) : Releases table table :=
  fun _ => ⟨id, fun _ entry here locked => ⟨entry, here, locked⟩⟩

/-- Taking and giving back the lock of a bucket leaves the words as they were. -/
theorem update_update_lock {lock : Nat → Bool} {key : Nat} (free : lock key = false)
    (word : Bool) :
    Function.update (Function.update lock key word) key false = lock := by
  rw [Function.update_idem, ← free, Function.update_eq_self]

/-- A table whose words of the buckets are as before and whose entries of one bucket are locked
only where they were. -/
theorem releases_of_bucket {table : NeighbourTable} {key : Nat} {entries : List NeighbourEntry}
    (bucket : ∀ (place : Nat) (entry : NeighbourEntry), entries[place]? = some entry →
      entry.lock = true → ∃ old, (table.buckets key)[place]? = some old ∧ old.lock = true) :
    Releases table { table with buckets := Function.update table.buckets key entries } := by
  intro other
  refine ⟨id, fun place entry here locked => ?_⟩
  by_cases same : other = key
  · subst same
    simp only [Function.update_self] at here
    exact bucket place entry here locked
  · simp only [Function.update_of_ne same] at here
    exact ⟨entry, here, locked⟩

/-- A write to the entry at `id` that leaves it unlocked. -/
def UnlocksAt (id : Nat) (write : NeighbourEntry → NeighbourEntry) : Prop :=
  ∀ other, (write other).lock = false ∨ write other = other ∧ other.id ≠ id

/-- The sender's entry is unlocked by the update, and no other lock is touched. -/
theorem releases_known {table : NeighbourTable} {key : Nat} {before after : List NeighbourEntry}
    {entry : NeighbourEntry} (split : table.buckets key = before ++ entry :: after)
    {write : NeighbourEntry → NeighbourEntry} (unlocks : UnlocksAt entry.id write) :
    Releases table { table with
      buckets := Function.update table.buckets key
        ((before ++ { entry with lock := true } :: after).map write) } := by
  apply releases_of_bucket
  intro place written here locked
  rw [List.getElem?_map, Option.map_eq_some_iff] at here
  obtain ⟨other, here, rfl⟩ := here
  cases unlocks other with
  | inl unlocked => exact absurd (unlocked.symm.trans locked) (by decide)
  | inr elsewhere =>
    rw [elsewhere.1] at locked
    refine ⟨other, ?_, locked⟩
    rw [split]
    -- The entry that the loop locked is written by the update, so `other` is not at its place.
    rcases Nat.lt_trichotomy place before.length with low | rfl | high
    · rwa [List.getElem?_append_left low] at here ⊢
    · rw [List.getElem?_append_right (Nat.le_refl _), Nat.sub_self, List.getElem?_cons_zero,
        Option.some_inj] at here
      exact absurd (by rw [← here]) elsewhere.2
    · rw [List.getElem?_append_right (Nat.le_of_lt high)] at here ⊢
      rw [show place - before.length = (place - before.length - 1) + 1 by omega,
        List.getElem?_cons_succ] at here ⊢
      exact here

/-- A new entry at the end is unlocked by the update, and no other lock is touched. -/
theorem releases_new {table : NeighbourTable} {key : Nat} {entry : NeighbourEntry}
    {write : NeighbourEntry → NeighbourEntry} (unlocks : UnlocksAt entry.id write) :
    Releases table { table with
      buckets := Function.update table.buckets key
        ((table.buckets key ++ [entry]).map write) } := by
  apply releases_of_bucket
  intro place written here locked
  rw [List.getElem?_map, Option.map_eq_some_iff] at here
  obtain ⟨other, here, rfl⟩ := here
  cases unlocks other with
  | inl unlocked => exact absurd (unlocked.symm.trans locked) (by decide)
  | inr elsewhere =>
    rw [elsewhere.1] at locked
    refine ⟨other, ?_, locked⟩
    by_cases low : place < (table.buckets key).length
    · rwa [List.getElem?_append_left low] at here
    · rw [List.getElem?_append_right (Nat.not_lt.mp low), List.getElem?_singleton] at here
      split_ifs at here
      exact absurd (by rw [← Option.some_inj.mp here]) elsewhere.2

/-- Taking the lock of a bucket, writing its entries and giving the lock back. -/
theorem arpRecv_eq {device : Device} {table : NeighbourTable} {packet : Packet}
    (supported : packet.Supported device) (free : table.lock (ipv4Hash packet.srcPaddr) = false)
    (kzalloc : Option Nat) :
    arpRecv device kzalloc table packet =
      (findSender packet (table.buckets (ipv4Hash packet.srcPaddr))).bind fun found =>
        answer device kzalloc packet (ipv4Hash packet.srcPaddr) found.1 { table with
          buckets := Function.update table.buckets (ipv4Hash packet.srcPaddr) found.2 } := by
  simp [arpRecv, supported, NeighbourTable.lockBucket, NeighbourTable.unlockBucket, spinLock, free,
    spinUnlock, update_update_lock free]

/-- A packet for the device itself is answered with all locks released. -/
theorem answer_releases_known {device : Device} {packet : Packet}
    (own : packet.dstPaddr = device.ip)
    {table : NeighbourTable} {key : Nat} {before after : List NeighbourEntry}
    {entry : NeighbourEntry} (split : table.buckets key = before ++ entry :: after)
    (kzalloc : Option Nat) :
    ∃ outcome, answer device kzalloc packet key (some entry) { table with
        buckets := Function.update table.buckets key
          (before ++ { entry with lock := true } :: after) } = some outcome ∧
      Releases table outcome.table := by
  refine ⟨_, by rw [answer, if_neg (not_not.mpr own)], ?_⟩
  simp only [update, NeighbourTable.modify, Function.update_self, Function.update_idem]
  exact releases_known split fun other => by
    by_cases same : other.id = entry.id <;> simp [same, spinUnlock]

/-- The entry made for an unknown sender is unlocked again. -/
theorem answer_releases_new {device : Device} {packet : Packet} (own : packet.dstPaddr = device.ip)
    {table : NeighbourTable} {key : Nat} (free : table.lock key = false) (kzalloc : Option Nat) :
    ∃ outcome, answer device kzalloc packet key none table = some outcome ∧
      Releases table outcome.table := by
  cases kzalloc with
  | none => exact ⟨_, by rw [answer, if_neg (not_not.mpr own)], Releases.refl table⟩
  | some id =>
    rw [answer, if_neg (not_not.mpr own)]
    simp only [neighbourEntryCreate, NeighbourTable.lockBucket, NeighbourTable.unlockBucket,
      spinLock, free, spinUnlock, Bool.false_eq_true, if_false, Option.bind_eq_bind,
      Option.bind_some, update_update_lock free]
    refine ⟨_, rfl, ?_⟩
    simp only [update, NeighbourTable.modify, Function.update_self, Function.update_idem,
      List.map_map]
    exact releases_new fun other => by by_cases same : other.id = id <;> simp [same, spinUnlock]

/-- `arp_recv` returns with the locks it took released exactly on the packets it does not support
and on those where it comes to no set lock and does not leave the sender's entry locked. -/
theorem arp_releases_iff (device : Device) (kzalloc : Option Nat) (table : NeighbourTable)
    (packet : Packet) :
    (∃ outcome, arpRecv device kzalloc table packet = some outcome ∧
        Releases table outcome.table) ↔
      (packet.Supported device → Handled device table packet) := by
  by_cases supported : packet.Supported device
  swap
  · simp [arpRecv, supported, Releases.refl]
  simp only [supported, true_imp_iff]
  cases free : table.lock (ipv4Hash packet.srcPaddr) with
  | true => simp [arpRecv, supported, NeighbourTable.lockBucket, spinLock, free, Handled]
  | false =>
    rw [arpRecv_eq supported free, Handled]
    by_cases unlocked : ∀ entry,
        Reaches packet (table.buckets (ipv4Hash packet.srcPaddr)) entry → entry.lock = false
    swap
    · obtain ⟨entry, locked⟩ := not_forall.mp unlocked
      obtain ⟨reached, locked⟩ := Classical.not_imp.mp locked
      simp [findSender_spins packet reached (by simpa using locked), unlocked]
    rw [and_iff_right free, and_iff_right unlocked]
    cases findSender_spec packet unlocked with
    | inl found =>
      obtain ⟨before, entry, after, split, strangers, sender, scanned⟩ := found
      rw [scanned, Option.bind_some]
      by_cases own : packet.dstPaddr = device.ip
      · simp only [own, true_or, iff_true]
        exact answer_releases_known own split kzalloc
      · simp only [own, false_or]
        refine ⟨?_, fun unknown => absurd sender (unknown entry (by simp [split]))⟩
        rintro ⟨outcome, returned, released⟩
        rw [answer, if_pos own, Option.some_inj] at returned
        subst returned
        -- The entry stands locked at a place where it was not.
        have kept := (released (ipv4Hash packet.srcPaddr)).2 before.length
          { entry with lock := true } (by simp) rfl
        obtain ⟨old, here, locked⟩ := kept
        rw [split, List.getElem?_append_right (Nat.le_refl _), Nat.sub_self,
          List.getElem?_cons_zero, Option.some_inj] at here
        rw [← here, unlocked entry ⟨before, after, split, strangers⟩] at locked
        exact absurd locked (by decide)
    | inr nobody =>
      rw [nobody.2, Option.bind_some, Function.update_eq_self]
      refine iff_of_true ?_ (.inr nobody.1)
      by_cases own : packet.dstPaddr = device.ip
      · exact answer_releases_new own free kzalloc
      · exact ⟨_, if_pos own, Releases.refl table⟩

/-- An announcement between two other hosts, from a neighbour that is in the table. -/
def overheard : Packet :=
  ⟨1, 0x0800, 6, 4, 1, [2, 0, 0, 0, 0, 9], [10, 0, 0, 9], List.replicate 6 0, [10, 0, 0, 7]⟩

/-- A table that knows the neighbour under every key, with no lock set. -/
def knownNeighbour : NeighbourTable where
  buckets _ := [⟨0, [10, 0, 0, 9], .reachable, [2, 0, 0, 0, 0, 9], false⟩]
  lock _ := false

theorem overheard_keeps_lock :
    ¬ ∃ outcome, arpRecv ⟨true, [2, 0, 0, 0, 0, 1], [10, 0, 0, 1]⟩ none knownNeighbour overheard =
        some outcome ∧ Releases knownNeighbour outcome.table := by
  rintro ⟨outcome, returned, released⟩
  have left : (arpRecv ⟨true, [2, 0, 0, 0, 0, 1], [10, 0, 0, 1]⟩ none knownNeighbour overheard).map
      (fun outcome => (outcome.table.buckets (ipv4Hash [10, 0, 0, 9]))[0]?) =
        some (some ⟨0, [10, 0, 0, 9], .reachable, [2, 0, 0, 0, 0, 9], true⟩) := by decide +kernel
  rw [returned, Option.map_some, Option.some_inj] at left
  obtain ⟨old, here, locked⟩ := (released _).2 0 _ left rfl
  rw [← Option.some_inj.mp here] at locked
  exact absurd locked (by decide)

end Horizon.Arp
