import NetHelper.Netmap

/-!
# Which ring an index names

The table `ring_ofs` lists the rings of an interface by class: NIC TX, host TX, NIC RX, host RX. A handle is opened for the
NIC rings or for the host rings, but the two macros that look a ring up take the TX rings from the start of the table and
the RX rings from behind the NIC TX rings, whatever the handle was opened for. `rings_resolve_iff` says for which numbers of
rings that is right.
-/

namespace NetHelper

/-- The offsets of the rings of an interface, by class. -/
structure RingTable where
  nicTx : List Nat
  hostTx : List Nat
  nicRx : List Nat
  hostRx : List Nat

namespace RingTable

variable (t : RingTable) (host : Bool)

/-- The table as `ring_ofs` lists it. -/
def all : List Nat := t.nicTx ++ t.hostTx ++ t.nicRx ++ t.hostRx

/-- The TX rings of the class a handle is opened for. -/
def txs : List Nat := if host then t.hostTx else t.nicTx

/-- The RX rings of the class a handle is opened for. -/
def rxs : List Nat := if host then t.hostRx else t.nicRx

/-- Where the TX rings of a class begin in the table. -/
def txBase : Nat := if host then t.nicTx.length else 0

/-- Where the RX rings of a class begin in the table. -/
def rxBase : Nat := t.nicTx.length + t.hostTx.length + if host then t.nicRx.length else 0

/-- The numbers of rings for which the macros look up the right ones: on a handle for NIC rings, when there are no host TX
rings to skip or no RX rings to find; on a handle for host rings, when the same is true of the rings of each direction that
stand in between. -/
def LooksRight : Prop :=
  if host then (t.nicTx.length = 0 ∨ t.hostTx.length = 0) ∧ (t.hostTx.length + t.nicRx.length = 0 ∨ t.hostRx.length = 0)
  else t.hostTx.length = 0 ∨ t.nicRx.length = 0

instance : Decidable (t.LooksRight host) := by
  unfold LooksRight
  infer_instance

/-- The TX rings of a class stand in the table from `txBase` on. -/
theorem all_tx {i : Nat} (h : i < (t.txs host).length) : t.all[t.txBase host + i]? = (t.txs host)[i]? := by
  unfold all
  cases host with
  | false =>
    simp only [txs, txBase, Bool.false_eq_true, if_false] at h ⊢
    rw [Nat.zero_add, List.append_assoc, List.append_assoc, List.getElem?_append_left h]
  | true =>
    simp only [txs, txBase, if_true] at h ⊢
    rw [List.append_assoc, List.append_assoc, List.getElem?_append_right (Nat.le_add_right _ _), Nat.add_sub_cancel_left,
      List.getElem?_append_left h]

/-- The RX rings of a class stand in the table from `rxBase` on. -/
theorem all_rx {i : Nat} (h : i < (t.rxs host).length) : t.all[t.rxBase host + i]? = (t.rxs host)[i]? := by
  unfold all
  cases host with
  | false =>
    simp only [rxs, rxBase, Bool.false_eq_true, if_false, Nat.add_zero] at h ⊢
    rw [← List.length_append, List.append_assoc, List.getElem?_append_right (Nat.le_add_right _ _),
      Nat.add_sub_cancel_left, List.getElem?_append_left h]
  | true =>
    simp only [rxs, rxBase, if_true] at h ⊢
    rw [← List.length_append, ← List.length_append, List.getElem?_append_right (Nat.le_add_right _ _),
      Nat.add_sub_cancel_left]

/-- The TX rings of a class stand before all RX rings. -/
theorem tx_place_lt {i : Nat} (h : i < (t.txs host).length) :
    t.txBase host + i < t.nicTx.length + t.hostTx.length := by
  cases host with
  | false =>
    simp only [txs, txBase, Bool.false_eq_true, if_false] at h ⊢
    omega
  | true =>
    simp only [txs, txBase, if_true] at h ⊢
    omega

/-- Every TX ring stands before all RX rings. -/
theorem all_of_mem_tx {o : Nat} (h : o ∈ t.nicTx ++ t.hostTx) :
    ∃ k < t.nicTx.length + t.hostTx.length, t.all[k]? = some o := by
  obtain ⟨k, hk, rfl⟩ := List.mem_iff_getElem.mp h
  refine ⟨k, by rwa [List.length_append] at hk, ?_⟩
  have hk' : k < (t.nicTx ++ t.hostTx ++ t.nicRx).length := by
    rw [List.length_append]
    omega
  rw [all, List.getElem?_append_left hk', List.getElem?_append_left hk, List.getElem?_eq_getElem hk]

/-- The RX rings of a class stand behind all TX rings. -/
theorem le_rxBase : t.nicTx.length + t.hostTx.length ≤ t.rxBase host := Nat.le_add_right _ _

end RingTable

/-- An interface lists its rings as the table says: as many of each class, one after another, all at different offsets. -/
structure NetmapIf.Lists (nifp : NetmapIf) (t : RingTable) : Prop where
  niTxRings : nifp.niTxRings = t.nicTx.length
  niHostTxRings : nifp.niHostTxRings = t.hostTx.length
  niRxRings : nifp.niRxRings = t.nicRx.length
  niHostRxRings : nifp.niHostRxRings = t.hostRx.length
  ringOfs : ∀ i (h : i < t.all.length), nifp.ringOfs i = t.all[i]
  distinct : t.all.Nodup

/-- The class of rings a builder opens a handle for. -/
def NetmapBuilder.opensHost (b : NetmapBuilder) : Bool := !b.isPipeIf && b.wantsHostRings

/-- The builder of an interface name opens a handle for host rings exactly when the name ends in `^`. -/
theorem NetmapBuilder.opensHost_new (name : List Char) : (new name).opensHost = (name.getLast? == some '^') := by
  -- the name without its prefix decides, and the prefix does not end in the mark
  have key : ∀ base : List Char,
      (!(pipePrefix.isPrefixOf base && base.getLast? == some '}') && base.getLast? == some '^') =
        (base.getLast? == some '^') := by
    intro base
    by_cases h : base.getLast? = some '^'
    · rw [h]
      simp
    · have h' : (base.getLast? == some '^') = false := beq_eq_false_iff_ne.mpr h
      rw [h', Bool.and_false]
  unfold opensHost new
  cases hp : netmapPrefix.isPrefixOf? name with
  | none =>
    simp only
    split <;> exact key name
  | some base =>
    have hname : netmapPrefix ++ base = name := List.isPrefixOf?_eq_some_iff_append_eq.mp hp
    have hlast : (name.getLast? == some '^') = (base.getLast? == some '^') := by
      rw [← hname, List.getLast?_append]
      cases base.getLast? <;> rfl
    rw [hlast]
    exact key base

/-- What looking up a ring is to do: refuse an index past the number of rings, and otherwise give the ring of that index of
the class the handle was opened for. No RX ring is a TX ring, and no ring is given for two requests. -/
structure Netmap.Resolves (nm : Netmap) (host : Bool) (t : RingTable) : Prop where
  txErr : ∀ i, nm.txRing i = .error (.invalidRingIndex i) ↔ nm.numTxRings ≤ i
  rxErr : ∀ i, nm.rxRing i = .error (.invalidRingIndex i) ↔ nm.numRxRings ≤ i
  tx : ∀ i < nm.numTxRings, ∃ o, (t.txs host)[i]? = some o ∧ nm.txRing i = .ok (TxRing.new (nm.desc.nifp.addr + o) i)
  rx : ∀ i < nm.numRxRings, ∃ o, (t.rxs host)[i]? = some o ∧ nm.rxRing i = .ok (RxRing.new (nm.desc.nifp.addr + o) i)
  rxNotTx : ∀ i r, nm.rxRing i = .ok r → ∀ o ∈ t.nicTx ++ t.hostTx, r.ring.ring ≠ nm.desc.nifp.addr + o
  txOnce : ∀ i j a b, nm.txRing i = .ok a → nm.txRing j = .ok b → a.ring.ring = b.ring.ring → i = j
  rxOnce : ∀ i j a b, nm.rxRing i = .ok a → nm.rxRing j = .ok b → a.ring.ring = b.ring.ring → i = j
  txNotRx : ∀ i j a b, nm.txRing i = .ok a → nm.rxRing j = .ok b → a.ring.ring ≠ b.ring.ring

/-- A builder that succeeds has got a descriptor for its request, and knows the numbers of rings of its class. -/
theorem NetmapBuilder.build_ok {ffi : Ffi} {nmOpen : NmOpen} {b : NetmapBuilder} {nm : Netmap}
    (hb : b.build ffi nmOpen = .ok nm) :
    ∃ req desc, b.buildNmreq ffi = .ok req ∧ nmOpen b.ifnameRaw req = .ok desc ∧
      nm = { desc := desc
             numTxRings := if b.opensHost then desc.nifp.niHostTxRings else desc.nifp.niTxRings
             numRxRings := if b.opensHost then desc.nifp.niHostRxRings else desc.nifp.niRxRings
             isHostIf := b.opensHost } := by
  unfold build at hb
  cases hreq : b.buildNmreq ffi with
  | error e =>
    rw [hreq] at hb
    nomatch hb
  | ok req =>
    rw [hreq] at hb
    simp only [bind, Except.bind] at hb
    split at hb
    · nomatch hb
    · split at hb
      · nomatch hb
      · rename_i desc hopen
        refine ⟨req, desc, rfl, hopen, ?_⟩
        cases hb
        unfold opensHost
        cases b.isPipeIf <;> cases b.wantsHostRings <;> rfl

namespace ResolutionAux

variable {nm : Netmap} {nifp : NetmapIf} {host : Bool} {t : RingTable} {i j : Nat}

/-- The place of a TX ring in the table names the offset listed for it. -/
theorem ringOfs_tx (hl : nifp.Lists t) (hi : i < (t.txs host).length) :
    (t.txs host)[i]? = some (nifp.ringOfs (t.txBase host + i)) ∧ t.txBase host + i < t.all.length := by
  have hplace := t.all_tx host hi
  rw [List.getElem?_eq_getElem hi] at hplace
  obtain ⟨hlt, he⟩ := List.getElem?_eq_some_iff.mp hplace
  rw [hl.ringOfs _ hlt, he]
  exact ⟨List.getElem?_eq_getElem hi, hlt⟩

/-- The place of an RX ring in the table names the offset listed for it. -/
theorem ringOfs_rx (hl : nifp.Lists t) (hi : i < (t.rxs host).length) :
    (t.rxs host)[i]? = some (nifp.ringOfs (t.rxBase host + i)) ∧ t.rxBase host + i < t.all.length := by
  have hplace := t.all_rx host hi
  rw [List.getElem?_eq_getElem hi] at hplace
  obtain ⟨hlt, he⟩ := List.getElem?_eq_some_iff.mp hplace
  rw [hl.ringOfs _ hlt, he]
  exact ⟨List.getElem?_eq_getElem hi, hlt⟩

/-- The places of the table name different offsets. -/
theorem ringOfs_inj (hl : nifp.Lists t) (hi : i < t.all.length) (hj : j < t.all.length)
    (h : nifp.ringOfs i = nifp.ringOfs j) : i = j := by
  rw [hl.ringOfs i hi, hl.ringOfs j hj] at h
  exact (List.Nodup.getElem_inj_iff hl.distinct).mp h

/-- A handle on an interface that lists its rings: it knows the numbers of rings of its class. -/
structure Opened (nm : Netmap) (host : Bool) (t : RingTable) : Prop where
  lists : nm.desc.nifp.Lists t
  numTx : nm.numTxRings = (t.txs host).length
  numRx : nm.numRxRings = (t.rxs host).length

/-- The handle a builder opens knows the numbers of rings of its class. -/
theorem build_opened {ffi : Ffi} {nmOpen : NmOpen} {b : NetmapBuilder} (hb : b.build ffi nmOpen = .ok nm)
    (hl : nm.desc.nifp.Lists t) : Opened nm b.opensHost t := by
  obtain ⟨req, desc, _, _, rfl⟩ := NetmapBuilder.build_ok hb
  refine ⟨hl, ?_, ?_⟩
  · unfold RingTable.txs
    rw [apply_ite List.length, ← hl.niHostTxRings, ← hl.niTxRings]
  · unfold RingTable.rxs
    rw [apply_ite List.length, ← hl.niHostRxRings, ← hl.niRxRings]

/-- Looking up a TX ring: an index past the number of rings is refused. -/
theorem txRing_error_iff : nm.txRing i = .error (.invalidRingIndex i) ↔ nm.numTxRings ≤ i := by
  unfold Netmap.txRing
  split
  · exact ⟨fun _ => ‹_›, fun _ => rfl⟩
  · exact ⟨fun h => (nomatch h), fun h => absurd h ‹_›⟩

/-- Looking up an RX ring: an index past the number of rings is refused. -/
theorem rxRing_error_iff : nm.rxRing i = .error (.invalidRingIndex i) ↔ nm.numRxRings ≤ i := by
  unfold Netmap.rxRing
  split
  · exact ⟨fun _ => ‹_›, fun _ => rfl⟩
  · exact ⟨fun h => (nomatch h), fun h => absurd h ‹_›⟩

/-- Looking up a TX ring: any other index names a place of the table. -/
theorem txRing_ok_iff {r : TxRing} : nm.txRing i = .ok r ↔
    i < nm.numTxRings ∧ r = TxRing.new (nm.desc.nifp.addr + nm.desc.nifp.ringOfs i) i := by
  unfold Netmap.txRing netmapTxring
  split
  · exact ⟨fun h => (nomatch h), fun ⟨h, _⟩ => by omega⟩
  · exact ⟨fun h => ⟨by omega, (Except.ok.inj h).symm⟩, fun ⟨_, h⟩ => h ▸ rfl⟩

/-- Looking up an RX ring: any other index names a place of the table. -/
theorem rxRing_ok_iff {r : RxRing} : nm.rxRing i = .ok r ↔
    i < nm.numRxRings ∧
      r = RxRing.new (nm.desc.nifp.addr + nm.desc.nifp.ringOfs (nm.desc.nifp.niTxRings + i)) i := by
  unfold Netmap.rxRing netmapRxring
  split
  · exact ⟨fun h => (nomatch h), fun ⟨h, _⟩ => by omega⟩
  · exact ⟨fun h => ⟨by omega, (Except.ok.inj h).symm⟩, fun ⟨_, h⟩ => h ▸ rfl⟩

/-- The numbers of rings for which the lookups are right are those for which each direction has no rings or begins in the
table where the macro looks. -/
theorem looksRight_iff (t : RingTable) (host : Bool) : t.LooksRight host ↔
    ((t.txs host).length = 0 ∨ t.txBase host = 0) ∧ ((t.rxs host).length = 0 ∨ t.rxBase host = t.nicTx.length) := by
  cases host with
  | false =>
    simp only [RingTable.LooksRight, RingTable.txs, RingTable.txBase, RingTable.rxs, RingTable.rxBase, Bool.false_eq_true,
      if_false, or_true, true_and]
    omega
  | true =>
    simp only [RingTable.LooksRight, RingTable.txs, RingTable.txBase, RingTable.rxs, RingTable.rxBase, if_true]
    omega

/-- Lookups that are right begin in the table where the macros look. -/
theorem looksRight_of_resolves (ho : Opened nm host t) (hr : nm.Resolves host t) : t.LooksRight host := by
  have hl := ho.lists
  rw [looksRight_iff]
  refine ⟨?_, ?_⟩
  · rcases Nat.eq_zero_or_pos (t.txs host).length with h0 | hpos
    · exact Or.inl h0
    · right
      obtain ⟨o, ho', hring⟩ := hr.tx 0 (by rw [ho.numTx]; exact hpos)
      obtain ⟨hlisted, hlt⟩ := ringOfs_tx hl hpos
      rw [hlisted] at ho'
      cases ho'
      have heq := (txRing_ok_iff.mp hring).2
      have haddr : nm.desc.nifp.ringOfs (t.txBase host + 0) = nm.desc.nifp.ringOfs 0 := by
        have := congrArg (fun r => r.ring.ring) heq
        simpa [TxRing.new] using this
      have := ringOfs_inj hl hlt (by omega) haddr
      omega
  · rcases Nat.eq_zero_or_pos (t.rxs host).length with h0 | hpos
    · exact Or.inl h0
    · right
      obtain ⟨o, ho', hring⟩ := hr.rx 0 (by rw [ho.numRx]; exact hpos)
      obtain ⟨hlisted, hlt⟩ := ringOfs_rx hl hpos
      rw [hlisted] at ho'
      cases ho'
      have heq := (rxRing_ok_iff.mp hring).2
      have haddr : nm.desc.nifp.ringOfs (t.rxBase host + 0) = nm.desc.nifp.ringOfs (nm.desc.nifp.niTxRings + 0) := by
        have := congrArg (fun r => r.ring.ring) heq
        simpa [RxRing.new] using this
      have hbase : t.nicTx.length ≤ t.rxBase host := by
        unfold RingTable.rxBase
        omega
      have := ringOfs_inj hl hlt (by rw [hl.niTxRings]; omega) haddr
      rw [hl.niTxRings] at this
      omega

/-- Lookups that begin in the table where the rings of their class do are right. -/
theorem resolves_of_looksRight (ho : Opened nm host t) (hc : t.LooksRight host) : nm.Resolves host t := by
  have hl := ho.lists
  obtain ⟨htx, hrx⟩ := (looksRight_iff t host).mp hc
  -- a ring that is found is the one listed in its place
  have htx' : ∀ {i : Nat} {r : TxRing}, nm.txRing i = .ok r → i < (t.txs host).length ∧
      r = TxRing.new (nm.desc.nifp.addr + nm.desc.nifp.ringOfs (t.txBase host + i)) i := by
    intro i r h
    obtain ⟨hi, rfl⟩ := txRing_ok_iff.mp h
    rw [ho.numTx] at hi
    have h0 : t.txBase host = 0 := by omega
    rw [h0, Nat.zero_add]
    exact ⟨hi, rfl⟩
  have hrx' : ∀ {i : Nat} {r : RxRing}, nm.rxRing i = .ok r → i < (t.rxs host).length ∧
      r = RxRing.new (nm.desc.nifp.addr + nm.desc.nifp.ringOfs (t.rxBase host + i)) i := by
    intro i r h
    obtain ⟨hi, rfl⟩ := rxRing_ok_iff.mp h
    rw [ho.numRx] at hi
    have h0 : t.rxBase host = t.nicTx.length := by omega
    rw [h0, hl.niTxRings]
    exact ⟨hi, rfl⟩
  have hbase := t.le_rxBase host
  refine ⟨fun i => txRing_error_iff, fun i => rxRing_error_iff, ?_, ?_, ?_, ?_, ?_, ?_⟩
  · intro i hi
    rw [ho.numTx] at hi
    have h := txRing_ok_iff.mpr ⟨by rw [ho.numTx]; exact hi, rfl⟩
    exact ⟨_, (ringOfs_tx hl hi).1, h.trans (congrArg Except.ok (htx' h).2)⟩
  · intro i hi
    rw [ho.numRx] at hi
    have h := rxRing_ok_iff.mpr ⟨by rw [ho.numRx]; exact hi, rfl⟩
    exact ⟨_, (ringOfs_rx hl hi).1, h.trans (congrArg Except.ok (hrx' h).2)⟩
  · intro i r h o hmem he
    obtain ⟨hi, rfl⟩ := hrx' h
    obtain ⟨k, hk, hkall⟩ := t.all_of_mem_tx hmem
    obtain ⟨hklt, rfl⟩ := List.getElem?_eq_some_iff.mp hkall
    rw [← hl.ringOfs k hklt] at he
    have := ringOfs_inj hl (ringOfs_rx hl hi).2 hklt (Nat.add_left_cancel he)
    omega
  · intro i j a b ha hb he
    obtain ⟨hi, rfl⟩ := htx' ha
    obtain ⟨hj, rfl⟩ := htx' hb
    have := ringOfs_inj hl (ringOfs_tx hl hi).2 (ringOfs_tx hl hj).2 (Nat.add_left_cancel he)
    omega
  · intro i j a b ha hb he
    obtain ⟨hi, rfl⟩ := hrx' ha
    obtain ⟨hj, rfl⟩ := hrx' hb
    have := ringOfs_inj hl (ringOfs_rx hl hi).2 (ringOfs_rx hl hj).2 (Nat.add_left_cancel he)
    omega
  · intro i j a b ha hb he
    obtain ⟨hi, rfl⟩ := htx' ha
    obtain ⟨hj, rfl⟩ := hrx' hb
    have hlt := t.tx_place_lt host hi
    have := ringOfs_inj hl (ringOfs_tx hl hi).2 (ringOfs_rx hl hj).2 (Nat.add_left_cancel he)
    omega

end ResolutionAux

open ResolutionAux

/-- Exactly for which numbers of rings every lookup on a handle that was opened is right. -/
theorem rings_resolve_iff (ffi : Ffi) (nmOpen : NmOpen) (b : NetmapBuilder) (nm : Netmap) (t : RingTable)
    (hb : b.build ffi nmOpen = .ok nm) (hl : nm.desc.nifp.Lists t) :
    nm.Resolves b.opensHost t ↔ t.LooksRight b.opensHost :=
  ⟨looksRight_of_resolves (build_opened hb hl), resolves_of_looksRight (build_opened hb hl)⟩

namespace ResolutionAux

/-- An interface with so many rings of each class, each 1024 bytes behind the one before. -/
def evenly (nicTx hostTx nicRx hostRx : Nat) : NetmapIf :=
  { addr := 4096
    niTxRings := nicTx
    niRxRings := nicRx
    niHostTxRings := hostTx
    niHostRxRings := hostRx
    ringOfs := fun i => 1024 * (i + 1) }

/-- An `nm_open` that opens one interface under any name. -/
def opens (nifp : NetmapIf) : NmOpen := fun _ _ => .ok { nifp := nifp, fd := 3 }

end ResolutionAux

/-- `rings_resolve_iff` at an interface with two NIC rings in each direction and no host rings. -/
theorem rings_resolve_nic_only :
    ∃ nm, (NetmapBuilder.new ['e', 't', 'h', '0']).build Ffi.headers (opens (evenly 2 0 2 0)) = .ok nm ∧
      nm.Resolves false { nicTx := [1024, 2048], hostTx := [], nicRx := [3072, 4096], hostRx := [] } := by
  have hl : (evenly 2 0 2 0).Lists { nicTx := [1024, 2048], hostTx := [], nicRx := [3072, 4096], hostRx := [] } :=
    ⟨rfl, rfl, rfl, rfl, by decide, by decide⟩
  refine ⟨_, rfl, ?_⟩
  exact (rings_resolve_iff Ffi.headers (opens (evenly 2 0 2 0)) (NetmapBuilder.new ['e', 't', 'h', '0']) _ _ rfl hl).mpr
    (by decide)

/-- On an interface with one ring of each class, the first RX ring of a handle for NIC rings is the host TX ring. -/
theorem nic_rx_ring_is_host_tx_ring :
    ∃ (nm : Netmap) (t : RingTable),
      (NetmapBuilder.new ['e', 't', 'h', '0']).build Ffi.headers (opens (evenly 1 1 1 1)) = .ok nm ∧
      nm.desc.nifp.Lists t ∧ t.hostTx = [2048] ∧ nm.rxRing 0 = .ok (RxRing.new (nm.desc.nifp.addr + 2048) 0) ∧
      ¬nm.Resolves (NetmapBuilder.new ['e', 't', 'h', '0']).opensHost t := by
  have hl : (evenly 1 1 1 1).Lists { nicTx := [1024], hostTx := [2048], nicRx := [3072], hostRx := [4096] } :=
    ⟨rfl, rfl, rfl, rfl, by decide, by decide⟩
  refine ⟨_, _, rfl, hl, rfl, rfl, ?_⟩
  intro hr
  exact hr.rxNotTx 0 _ rfl 2048 (by decide) rfl

end NetHelper
