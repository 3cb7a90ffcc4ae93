import NetHelper.Generator
import NetHelper.Lemmas.Tx

/-!
# What filling a batch does

One entry of a batch takes 256 bytes: the packet, and three registers of payload behind it. `fillEntry_eq` says when it is
stored, `putEntry` what is then changed, and `fillLoop_rule` carries from one entry to a whole batch whatever an entry keeps.
-/

namespace NetHelper

open Checked Mm512 RingMem

namespace Generator

/-- What is stored for one entry: the packet and the payload. -/
def entryBytes (v : Zmm) : Bytes := bytes v ++ (bytes payloadZmm1 ++ (bytes payloadZmm2 ++ bytes payloadZmm3))

@[simp] theorem length_entryBytes (v : Zmm) : (entryBytes v).length = 256 := by simp [entryBytes]

/-- The places stored to for one entry, each with the slice handed out for it. -/
def entryStores (a : Nat) : List (Slice × Slice) :=
  [({ addr := a, len := 64 }, { addr := a, len := 64 }), ({ addr := a, len := 64 }, { addr := a + 64, len := 64 }),
    ({ addr := a, len := 64 }, { addr := a + 128, len := 64 }), ({ addr := a, len := 64 }, { addr := a + 192, len := 64 })]

end Generator

open Generator

/-- The ring with a packet and its payload at the buffer of slot `i`, and the length 64 in the slot. -/
def RingMem.putEntry (s : RingMem) (i : Nat) (v : Zmm) : RingMem := (s.store (s.bufPtr i) (entryBytes v)).setLen i 64

namespace RingMem

variable (s : RingMem) (i j : Nat) (v : Zmm)

@[simp] theorem putEntry_nrBufSize : (s.putEntry i v).nrBufSize = s.nrBufSize := rfl
@[simp] theorem putEntry_mem : (s.putEntry i v).mem = ByteMem.write s.mem (s.bufPtr i) (entryBytes v) := rfl

@[simp] theorem putEntry_bufPtr : (s.putEntry i v).bufPtr j = s.bufPtr j :=
  setLen_bufPtr (s.store (s.bufPtr i) (entryBytes v)) i j 64

@[simp] theorem putEntry_slot_self : ((s.putEntry i v).slot i).len = 64 := by
  simp [putEntry, setLen]

variable {s i j v}

theorem putEntry_slot_of_ne (h : j ≠ i) : (s.putEntry i v).slot j = s.slot j := by
  simp [putEntry, setLen, store, h]

/-- An entry leaves the buffers of the slots where they are. -/
theorem sameBufs_putEntry : SameBufs s (s.putEntry i v) := by
  refine ⟨rfl, rfl, rfl, rfl, ?_⟩
  intro j
  by_cases h : j = i
  · subst h
    simp [putEntry, setLen, store]
  · rw [putEntry_slot_of_ne h]

/-- The four stores of an entry are one store of its bytes. -/
theorem store_entry : ((((s.setLen i 64).store (s.bufPtr i) (bytes v)).store (s.bufPtr i + 64) (bytes payloadZmm1)).store
    (s.bufPtr i + 128) (bytes payloadZmm2)).store (s.bufPtr i + 192) (bytes payloadZmm3) = s.putEntry i v := by
  have h1 := ByteMem.write_write_append s.mem (s.bufPtr i) (bytes v) (bytes payloadZmm1)
  have h2 := ByteMem.write_write_append s.mem (s.bufPtr i) (bytes v ++ bytes payloadZmm1) (bytes payloadZmm2)
  have h3 := ByteMem.write_write_append s.mem (s.bufPtr i) (bytes v ++ bytes payloadZmm1 ++ bytes payloadZmm2)
    (bytes payloadZmm3)
  simp only [List.length_append, length_bytes] at h1 h2 h3
  have hmem : (s.putEntry i v).mem = ByteMem.write (ByteMem.write (ByteMem.write (ByteMem.write s.mem (s.bufPtr i) (bytes v))
      (s.bufPtr i + 64) (bytes payloadZmm1)) (s.bufPtr i + 128) (bytes payloadZmm2)) (s.bufPtr i + 192)
      (bytes payloadZmm3) := by
    rw [h1, h2, h3, putEntry_mem, entryBytes, List.append_assoc, List.append_assoc]
  have hput : s.putEntry i v = { s.setLen i 64 with mem := (s.putEntry i v).mem } := rfl
  rw [hput, hmem]
  rfl

/-- The packet of an entry is in its slot. -/
theorem packetAt_putEntry_self : (s.putEntry i v).packetAt i = bytes v := by
  have h := ByteMem.read_write_append s.mem (s.bufPtr i) (bytes v)
    (bytes payloadZmm1 ++ (bytes payloadZmm2 ++ bytes payloadZmm3))
  unfold packetAt
  rw [putEntry_slot_self, putEntry_bufPtr, putEntry_mem]
  rwa [length_bytes] at h

/-- A read from the buffer of another slot does not see an entry that does not reach it. -/
theorem read_putEntry_of_apart {n : Nat} (h : s.bufPtr i + 256 ≤ s.bufPtr j ∨ s.bufPtr j + n ≤ s.bufPtr i) :
    ByteMem.read (s.putEntry i v).mem (s.bufPtr j) n = ByteMem.read s.mem (s.bufPtr j) n := by
  rw [putEntry_mem]
  apply ByteMem.read_write_of_disjoint
  rw [length_entryBytes]
  omega

theorem packetAt_putEntry_of_apart (hne : j ≠ i)
    (h : s.bufPtr i + 256 ≤ s.bufPtr j ∨ s.bufPtr j + (s.slot j).len ≤ s.bufPtr i) :
    (s.putEntry i v).packetAt j = s.packetAt j := by
  unfold packetAt
  rw [putEntry_bufPtr, putEntry_slot_of_ne hne]
  exact read_putEntry_of_apart h

theorem buffer_putEntry_of_apart (h : s.bufPtr i + 256 ≤ s.bufPtr j ∨ s.bufPtr j + s.nrBufSize ≤ s.bufPtr i) :
    (s.putEntry i v).buffer j = s.buffer j := by
  unfold buffer
  rw [putEntry_bufPtr, putEntry_nrBufSize]
  exact read_putEntry_of_apart h

end RingMem

namespace Generator

variable {b : BatchReservation} {f f' : Filling} {k z : Nat}

/-- A batch with one more entry in it, at slot `i`. -/
def Filling.put (f : Filling) (i : Nat) : Filling where
  ring := f.ring.putEntry i f.currentPacketZmm
  currentPacketZmm := nextPacket f.currentPacketZmm
  packetsWritten := f.packetsWritten + 1
  stored := f.stored ++ entryStores (f.ring.bufPtr i)

/-- The slot of the entry `z` of a batch. -/
def entrySlot (b : BatchReservation) (n z : Nat) : Nat := Circ.adv n b.start z

/-- A store to a multiple of 64 is made. -/
theorem stream_of_aligned {s : RingMem} {a : Nat} {v : Zmm} (h : a % 64 = 0) :
    streamSi512 s a v = .ok (s.store a (bytes v)) := if_pos h

/-- A store to another address stops the program. -/
theorem stream_of_misaligned {s : RingMem} {a : Nat} {v : Zmm} (h : a % 64 ≠ 0) :
    streamSi512 s a v = .error (.misaligned a) := if_neg h

/-- A piece of the program that ran hands its value on. -/
theorem run_bind {α β : Type} (a : α) (g : α → Exec β) : (Except.ok a >>= g) = g a := rfl

/-- A piece of the program that stopped ends the ones after it. -/
theorem stop_bind {α β : Type} (e : Stop) (g : α → Exec β) : (Except.error e >>= g) = .error e := rfl

/-- A piece of the program that runs through has run through each of its parts. -/
theorem of_bind_ok {α β : Type} {x : Exec α} {g : α → Exec β} {c : β} (h : (x >>= g) = .ok c) :
    ∃ a, x = .ok a ∧ g a = .ok c := by
  cases x with
  | error e => nomatch h
  | ok a => exact ⟨a, rfl, h⟩

/-- A call that does not stop the program has returned. -/
theorem of_call_ok {α : Type} {x : Outcome α} {a : α} (h : call x = .ok a) : x = .ok a := by
  cases x with
  | error p => nomatch h
  | ok a' =>
    cases h
    rfl

/-- One entry of a batch that is smaller than the ring: the sum of the start and its number must be a u32, and the buffer of
its slot must begin at a multiple of 64. -/
theorem fillEntry_eq (hn : f.ring.numSlots < 2 ^ 32) (hb : b.count < f.ring.numSlots) (hz : z < b.count) :
    fillEntry b f z =
      if b.start + z < 2 ^ 32 then
        if f.ring.bufPtr (entrySlot b f.ring.numSlots z) % 64 = 0 then .ok (f.put (entrySlot b f.ring.numSlots z))
        else .error (.misaligned (f.ring.bufPtr (entrySlot b f.ring.numSlots z)))
      else .error (.panic .overflow) := by
  have hslot : (b.start + z) % f.ring.numSlots = entrySlot b f.ring.numSlots z := rfl
  have hlen : cast 16 64 = 64 := rfl
  unfold fillEntry
  rw [BatchReservation.packet_eq_of_lt hn hb, if_neg (by omega), hslot, hlen]
  by_cases hov : b.start + z < 2 ^ 32
  · rw [if_pos hov, if_pos hov, call, run_bind]
    dsimp only
    by_cases ha : f.ring.bufPtr (entrySlot b f.ring.numSlots z) % 64 = 0
    · rw [if_pos ha, stream_of_aligned ha, run_bind, stream_of_aligned (by omega), run_bind, stream_of_aligned (by omega),
        run_bind, stream_of_aligned (by omega), run_bind, store_entry]
      rfl
    · rw [if_neg ha, stream_of_misaligned ha, stop_bind]
  · rw [if_neg hov, if_neg hov]
    rfl

/-- What one entry of a batch did, if the program got past it. -/
theorem fillEntry_ok (hn : f.ring.numSlots < 2 ^ 32) (hb : b.count < f.ring.numSlots) (hz : z < b.count)
    (hc : fillEntry b f z = .ok f') :
    f.ring.bufPtr (entrySlot b f.ring.numSlots z) % 64 = 0 ∧ f' = f.put (entrySlot b f.ring.numSlots z) := by
  rw [fillEntry_eq hn hb hz] at hc
  split at hc
  · split at hc
    · cases hc
      exact ⟨‹_›, rfl⟩
    · nomatch hc
  · nomatch hc

/-- What every entry of a batch keeps, counting the entries, the batch keeps. -/
theorem fillLoop_rule {P : Nat → Filling → Prop}
    (hstep : ∀ z f f', z < b.count → P z f → fillEntry b f z = .ok f' → P (z + 1) f') (hk : z + k ≤ b.count)
    (hc : fillLoop b k z f = .ok f') (h0 : P z f) : P (z + k) f' := by
  induction k generalizing z f with
  | zero =>
    cases hc
    exact h0
  | succ k ih =>
    rw [fillLoop] at hc
    obtain ⟨f₁, he, hc⟩ := of_bind_ok hc
    have h1 := ih (by omega) hc (hstep z f f₁ (by omega) h0 he)
    have hsum : z + 1 + k = z + (k + 1) := by omega
    rwa [hsum] at h1

/-- A batch before its first entry. -/
def Filling.start (s : RingMem) (v : Zmm) : Filling where
  ring := s
  currentPacketZmm := v
  packetsWritten := 0
  stored := []

/-- What a filled batch has kept of the ring `s`, and where it stands, after `z` entries. -/
structure Filling.After (f : Filling) (s : RingMem) (v : Zmm) (z : Nat) : Prop where
  bufs : SameBufs s f.ring
  head : f.ring.head = s.head
  cur : f.ring.cur = s.cur
  tail : f.ring.tail = s.tail
  current : f.currentPacketZmm = packetAfter v z
  written : f.packetsWritten = z

variable {s : RingMem} {v : Zmm}

theorem Filling.after_start : (Filling.start s v).After s v 0 := ⟨SameBufs.refl s, rfl, rfl, rfl, rfl, rfl⟩

theorem Filling.After.put {i : Nat} (h : f.After s v z) : (f.put i).After s v (z + 1) where
  bufs := h.bufs.trans sameBufs_putEntry
  head := h.head
  cur := h.cur
  tail := h.tail
  current := congrArg nextPacket h.current
  written := congrArg (· + 1) h.written

/-- One entry, in terms of the ring before the batch. -/
theorem Filling.After.step (h : f.After s v z) (hn : s.numSlots < 2 ^ 32) (hb : b.count < s.numSlots) (hz : z < b.count)
    (hc : fillEntry b f z = .ok f') :
    s.bufPtr (entrySlot b s.numSlots z) % 64 = 0 ∧ f' = f.put (entrySlot b s.numSlots z) ∧ f'.After s v (z + 1) := by
  rw [← h.bufs.numSlots] at hn hb
  obtain ⟨ha, rfl⟩ := fillEntry_ok hn hb hz hc
  rw [h.bufs.bufPtr, h.bufs.numSlots] at ha
  rw [h.bufs.numSlots]
  exact ⟨ha, rfl, h.put⟩

/-- A whole batch. -/
theorem fillLoop_after (hn : s.numSlots < 2 ^ 32) (hb : b.count < s.numSlots) (hk : k ≤ b.count)
    (hc : fillLoop b k 0 (Filling.start s v) = .ok f') : f'.After s v k := by
  have h := fillLoop_rule (P := fun z f => f.After s v z) (fun z f f' hz h he => (h.step hn hb hz he).2.2) (by omega) hc
    Filling.after_start
  rwa [Nat.zero_add] at h

/-- A batch on buffers that begin at multiples of 64 is filled. -/
theorem fillLoop_returns (hn : s.numSlots < 2 ^ 32) (hb : b.count < s.numSlots) (hov : b.start + b.count ≤ 2 ^ 32)
    (ha : ∀ z < b.count, s.bufPtr (entrySlot b s.numSlots z) % 64 = 0) (hk : z + k ≤ b.count) (h : f.After s v z) :
    ∃ f', fillLoop b k z f = .ok f' := by
  induction k generalizing z f with
  | zero => exact ⟨f, rfl⟩
  | succ k ih =>
    have he : fillEntry b f z = .ok (f.put (entrySlot b s.numSlots z)) := by
      rw [fillEntry_eq (by rwa [h.bufs.numSlots]) (by rwa [h.bufs.numSlots]) (by omega), if_pos (by omega),
        h.bufs.numSlots, h.bufs.bufPtr, if_pos (ha z (by omega))]
    rw [fillLoop, he, run_bind]
    exact ih (by omega) h.put

end Generator

end NetHelper
