import NetHelper.Theorems.Interface
import NetHelper.Theorems.Resolution

/-!
# The rings of an opened interface

A handle may look up a ring of another class than it was opened for (`Resolution.lean`). It never looks outside the table, and
it gives one ring for two requests only as a handle for host rings, when there are more host TX rings than NIC TX rings
(`rings_apart_iff`). Where the lookups are right, all the rings of a handle can be in use at once
(`opened_interface_protocols`).
-/

namespace NetHelper

open Interface

/-- No ring is given for two requests. -/
structure Netmap.GivesApart (nm : Netmap) : Prop where
  tx : ∀ i j a b, nm.txRing i = .ok a → nm.txRing j = .ok b → a.ring.ring = b.ring.ring → i = j
  rx : ∀ i j a b, nm.rxRing i = .ok a → nm.rxRing j = .ok b → a.ring.ring = b.ring.ring → i = j
  txNotRx : ∀ i j a b, nm.txRing i = .ok a → nm.rxRing j = .ok b → a.ring.ring ≠ b.ring.ring

/-- Every ring given is one of the table. -/
structure Netmap.GivesListed (nm : Netmap) (t : RingTable) : Prop where
  tx : ∀ i r, nm.txRing i = .ok r → ∃ o ∈ t.all, r.ring.ring = nm.desc.nifp.addr + o
  rx : ∀ i r, nm.rxRing i = .ok r → ∃ o ∈ t.all, r.ring.ring = nm.desc.nifp.addr + o

namespace OpenedInterfaceAux

open ResolutionAux

variable {nm : Netmap} {host : Bool} {t : RingTable}

/-- The places that a handle looks at are places of the table. -/
theorem place_lt (ho : Opened nm host t) :
    (∀ i < nm.numTxRings, i < t.all.length) ∧ ∀ i < nm.numRxRings, nm.desc.nifp.niTxRings + i < t.all.length := by
  have hlen : t.all.length = t.nicTx.length + t.hostTx.length + t.nicRx.length + t.hostRx.length := by
    simp [RingTable.all, Nat.add_assoc]
  rw [ho.numTx, ho.numRx, ho.lists.niTxRings, hlen]
  cases host <;> simp only [RingTable.txs, RingTable.rxs, if_true, Bool.false_eq_true, if_false] <;>
    exact ⟨fun _ _ => by omega, fun _ _ => by omega⟩

/-- What is found at a place of the table is listed. -/
theorem ringOfs_mem (ho : Opened nm host t) {i : Nat} (hi : i < t.all.length) : nm.desc.nifp.ringOfs i ∈ t.all := by
  rw [ho.lists.ringOfs i hi]
  exact List.getElem_mem hi

theorem givesListed (ho : Opened nm host t) : nm.GivesListed t := by
  obtain ⟨htx, hrx⟩ := place_lt ho
  refine ⟨?_, ?_⟩
  · intro i r h
    obtain ⟨hi, rfl⟩ := txRing_ok_iff.mp h
    exact ⟨_, ringOfs_mem ho (htx i hi), rfl⟩
  · intro i r h
    obtain ⟨hi, rfl⟩ := rxRing_ok_iff.mp h
    exact ⟨_, ringOfs_mem ho (hrx i hi), rfl⟩

/-- The macros look at one place for two requests exactly when the places of the TX rings reach past the NIC TX rings. -/
theorem givesApart_iff (ho : Opened nm host t) :
    nm.GivesApart ↔ nm.numTxRings ≤ t.nicTx.length ∨ nm.numRxRings = 0 := by
  obtain ⟨htx, hrx⟩ := place_lt ho
  have hn := ho.lists.niTxRings
  constructor
  · intro h
    by_contra hno
    -- the first RX ring is looked up where a TX ring is
    have ha : nm.txRing nm.desc.nifp.niTxRings = .ok _ := txRing_ok_iff.mpr ⟨by omega, rfl⟩
    have hb : nm.rxRing 0 = .ok _ := rxRing_ok_iff.mpr ⟨by omega, rfl⟩
    exact h.txNotRx _ _ _ _ ha hb rfl
  · intro h
    refine ⟨?_, ?_, ?_⟩
    · intro i j a b ha hb he
      obtain ⟨hi, rfl⟩ := txRing_ok_iff.mp ha
      obtain ⟨hj, rfl⟩ := txRing_ok_iff.mp hb
      exact ringOfs_inj ho.lists (htx i hi) (htx j hj) (Nat.add_left_cancel he)
    · intro i j a b ha hb he
      obtain ⟨hi, rfl⟩ := rxRing_ok_iff.mp ha
      obtain ⟨hj, rfl⟩ := rxRing_ok_iff.mp hb
      have := ringOfs_inj ho.lists (hrx i hi) (hrx j hj) (Nat.add_left_cancel he)
      omega
    · intro i j a b ha hb he
      obtain ⟨hi, rfl⟩ := txRing_ok_iff.mp ha
      obtain ⟨hj, rfl⟩ := rxRing_ok_iff.mp hb
      have := ringOfs_inj ho.lists (htx i hi) (hrx j hj) (Nat.add_left_cancel he)
      omega

/-- The condition, in terms of the class a handle was opened for. -/
theorem apart_cond_iff (ho : Opened nm host t) :
    (nm.numTxRings ≤ t.nicTx.length ∨ nm.numRxRings = 0) ↔
      (host = true → t.hostTx.length ≤ t.nicTx.length ∨ t.hostRx.length = 0) := by
  rw [ho.numTx, ho.numRx]
  cases host <;> simp [RingTable.txs, RingTable.rxs]

end OpenedInterfaceAux

open OpenedInterfaceAux ResolutionAux

/-- On every handle that was opened every ring given is one of the table, and no ring is given for two requests exactly when the
handle is not for host rings, or there are no more host TX rings than NIC TX rings, or no host RX rings. -/
theorem rings_apart_iff {ffi : Ffi} {nmOpen : NmOpen} {b : NetmapBuilder} {nm : Netmap} {t : RingTable}
    (hb : b.build ffi nmOpen = .ok nm) (hl : nm.desc.nifp.Lists t) :
    nm.GivesListed t ∧
      (nm.GivesApart ↔ (b.opensHost = true → t.hostTx.length ≤ t.nicTx.length ∨ t.hostRx.length = 0)) := by
  have ho := build_opened hb hl
  exact ⟨givesListed ho, (givesApart_iff ho).trans (apart_cond_iff ho)⟩

/-- `rings_apart_iff` at a handle for NIC rings on an interface with one ring of each class: no ring is given for two requests,
though the RX ring is of the wrong class. -/
theorem rings_apart_nic : ∃ nm, (NetmapBuilder.new ['e', 't', 'h', '0']).build Ffi.headers (opens (evenly 1 1 1 1)) = .ok nm ∧
    nm.GivesApart := by
  have hl : (evenly 1 1 1 1).Lists { nicTx := [1024], hostTx := [2048], nicRx := [3072], hostRx := [4096] } :=
    ⟨rfl, rfl, rfl, rfl, by decide, by decide⟩
  have hb : (NetmapBuilder.new ['e', 't', 'h', '0']).build Ffi.headers (opens (evenly 1 1 1 1)) = .ok _ := rfl
  exact ⟨_, hb, (rings_apart_iff hb hl).2.mpr (fun hhost => by cases hhost)⟩

/-- The rings of `w` are the rings that the handle gives: those of all its indices, each at its address. -/
structure Interface.Sys.Of {nm : Netmap} (w : Sys (Fin nm.numTxRings) (Fin nm.numRxRings)) : Prop where
  tx : ∀ i : Fin nm.numTxRings, ∃ r, nm.txRing i = .ok r ∧ (w.tx i).ring.addr = r.ring.ring
  rx : ∀ k : Fin nm.numRxRings, ∃ r, nm.rxRing k = .ok r ∧ (w.rx k).addr = r.ring.ring

namespace OpenedInterfaceAux

/-- The rings of a handle that gives no ring twice are at addresses of their own. -/
theorem addr_ne {nm : Netmap} {w : Sys (Fin nm.numTxRings) (Fin nm.numRxRings)} (hw : w.Of) (ha : nm.GivesApart)
    (n n' : RingName (Fin nm.numTxRings) (Fin nm.numRxRings)) (hne : n ≠ n') :
    (ring n (w.view n)).addr ≠ (ring n' (w.view n')).addr := by
  intro he
  rcases n with ⟨i⟩ | ⟨k⟩ <;> rcases n' with ⟨j⟩ | ⟨l⟩
  · obtain ⟨r, hr, hadr⟩ := hw.tx i
    obtain ⟨r', hr', hadr'⟩ := hw.tx j
    exact hne (congrArg _ (Fin.ext (ha.tx _ _ _ _ hr hr' (hadr.symm.trans (he.trans hadr')))))
  · obtain ⟨r, hr, hadr⟩ := hw.tx i
    obtain ⟨r', hr', hadr'⟩ := hw.rx l
    exact ha.txNotRx _ _ _ _ hr hr' (hadr.symm.trans (he.trans hadr'))
  · obtain ⟨r, hr, hadr⟩ := hw.rx k
    obtain ⟨r', hr', hadr'⟩ := hw.tx j
    exact ha.txNotRx _ _ _ _ hr' hr (hadr'.symm.trans (he.symm.trans hadr))
  · obtain ⟨r, hr, hadr⟩ := hw.rx k
    obtain ⟨r', hr', hadr'⟩ := hw.rx l
    exact hne (congrArg _ (Fin.ext (ha.rx _ _ _ _ hr hr' (hadr.symm.trans (he.trans hadr')))))

end OpenedInterfaceAux

/-- A program opens an interface by any name and uses all the rings its handle gives, in any order, while the kernel syncs them;
rings at different addresses have different buffers. When the interface has its rings where the lookups find the right ones, the
packets taken from each TX ring followed by those in flight are the packets accepted on it, and the payloads handed out of each
RX ring followed by those waiting are those that waited followed by its arrivals, in order. -/
theorem opened_interface_protocols {ffi : Ffi} {nmOpen : NmOpen} {b : NetmapBuilder} {nm : Netmap} {t : RingTable}
    (hb : b.build ffi nmOpen = .ok nm) (hl : nm.desc.nifp.Lists t)
    (hc : t.LooksRight b.opensHost) {w₀ w : Sys (Fin nm.numTxRings) (Fin nm.numRxRings)}
    {es : List ((n : RingName (Fin nm.numTxRings) (Fin nm.numRxRings)) × (rings _ _).Event n)} (hw : w₀.Of)
    (htx : ∀ i, (w₀.tx i).Start) (hrx : ∀ k, (w₀.rx k).Valid ∧ (w₀.rx k).Fitting)
    (hbufs : ∀ n n', (ring n (w₀.view n)).addr ≠ (ring n' (w₀.view n')).addr →
      (ring n (w₀.view n)).OtherBuffers (ring n' (w₀.view n')))
    (hr : Lts.Run Shared.Parts.Step w₀ es w) :
    (∀ i, TxEvent.consumed (txEvents i es) ++ (w.tx i).inFlight = TxEvent.accepted (txEvents i es)) ∧
      ∀ k, RxEvent.handedOut (rxEvents k es) ++ (w.rx k).waiting = (w₀.rx k).waiting ++ RxEvent.arrived (rxEvents k es) := by
  have hres := resolves_of_looksRight (build_opened hb hl) hc
  have ha : nm.GivesApart := ⟨hres.txOnce, hres.rxOnce, hres.txNotRx⟩
  have h0 : Start w₀ := ⟨htx, hrx, fun n n' hne => hbufs n n' (addr_ne hw ha n n' hne)⟩
  exact ⟨fun i => (tx_run h0 hr i).2, fun k => (rx_run h0 hr k).2⟩

namespace OpenedInterfaceAux

/-- An interface with one NIC ring in each direction, where `Interface.pair` has its rings. -/
def twoRings : NetmapIf :=
  { addr := 2048, niTxRings := 1, niRxRings := 1, niHostTxRings := 0, niHostRxRings := 0, ringOfs := fun i => 2048 * (i + 1) }

/-- The handle for its rings. -/
def handle : Netmap := { desc := { nifp := twoRings, fd := 3 }, numTxRings := 1, numRxRings := 1, isHostIf := false }

end OpenedInterfaceAux

/-- `opened_interface_protocols` at the run in which a packet is sent on the one TX ring of a handle. -/
theorem opened_interface_protocols_send : ∃ es w,
    Lts.Run Shared.Parts.Step (pair : Sys (Fin handle.numTxRings) (Fin handle.numRxRings)) es w ∧ es.length = 1 ∧
      TxEvent.consumed (txEvents ⟨0, Nat.one_pos⟩ es) ++ (Sys.tx w ⟨0, Nat.one_pos⟩).inFlight = [[7]] := by
  have hb : (NetmapBuilder.new ['e', 't', 'h', '0']).build Ffi.headers (opens twoRings) = .ok handle := rfl
  have hl : handle.desc.nifp.Lists { nicTx := [2048], hostTx := [], nicRx := [4096], hostRx := [] } :=
    ⟨rfl, rfl, rfl, rfl, by decide, by decide⟩
  have hone : Subsingleton (Fin handle.numTxRings) ∧ Subsingleton (Fin handle.numRxRings) :=
    ⟨inferInstanceAs (Subsingleton (Fin 1)), inferInstanceAs (Subsingleton (Fin 1))⟩
  obtain ⟨_, _⟩ := hone
  have h0 : Start (pair : Sys (Fin handle.numTxRings) (Fin handle.numRxRings)) := pair_start
  have hw : (pair : Sys (Fin handle.numTxRings) (Fin handle.numRxRings)).Of := by
    refine ⟨fun i => ⟨_, txRing_ok_iff.mpr ⟨i.isLt, rfl⟩, ?_⟩, fun k => ⟨_, rxRing_ok_iff.mpr ⟨k.isLt, rfl⟩, ?_⟩⟩
    · obtain rfl : i = ⟨0, Nat.one_pos⟩ := Subsingleton.elim _ _
      rfl
    · obtain rfl : k = ⟨0, Nat.one_pos⟩ := Subsingleton.elim _ _
      rfl
  have hv : pairTx.ring.Valid := pairTx_start.serial.1.valid
  have h1 := Shared.Parts.Step.part (P := rings (Fin handle.numTxRings) (Fin handle.numRxRings)) (w := pair)
    (i := .tx ⟨0, Nat.one_pos⟩) (e := TxEvent.send [7] (.ok ()))
    ⟨rfl, TxStep.send (TxRing.send_ok hv (by decide) (by decide))⟩
  have hr := Lts.Run.single h1
  have hall := opened_interface_protocols hb hl (by decide) hw h0.tx h0.rx
    (fun n n' hne => h0.other n n' (fun heq => hne (by rw [heq]))) hr
  exact ⟨_, _, hr, rfl, hall.1 _⟩

end NetHelper
