import NetHelper.Lemmas.Tx
import NetHelper.TxSystem

/-!
# Reservations

What a reservation grants and to whom. `reserveBatch` counts one free slot too few, and on a full ring all slots but one as
free, so it agrees with `reserveAll` only where that count decides nothing (`reserveBatch_agrees_iff`). A reservation is
not exclusive: it keeps its start while the ring moves on, and nothing stops the ring from granting its slots again. It is
exclusive in the runs that take a reservation only when the ones held are spent, and use one only past what was published
since it was taken (`reservations_exclusive`).
-/

namespace NetHelper

open RingMem

/-! ## The count of `reserveBatch` -/

/-- What a reservation of `count` slots is to grant: it succeeds exactly when the window has that many slots, which is what
`reserveAll` reports, and none exactly when `send` reports a full ring; its packets lie in the window, and committing it leaves
`head` between the old one and `tail`. -/
structure TxRing.BatchAgrees (s : RingMem) (count : Nat) : Prop where
  granted : (∃ b, reserveBatch s count = .ok (.ok b)) ↔ count ≤ s.free
  reported : reserveAll s =
    .ok (if s.free = 0 then .error .insufficientSpace else .ok ({ start := s.head, count := s.free }, s.free))
  refused : ∀ buf, buf.length ≤ s.nrBufSize → ((∃ s', send s buf = .ok (.error .insufficientSpace, s')) ↔ s.free = 0)
  inside : ∀ b, reserveBatch s count = .ok (.ok b) → ∀ index < count, ∀ len,
    ∃ i ∈ s.owned, b.packet s index len =
      .ok (.ok { addr := s.bufPtr i, len := len }, s.setLen i (Checked.cast 16 len))
  committed : ∀ b, reserveBatch s count = .ok (.ok b) → ∀ written,
    ∃ s', b.commit s written = .ok s' ∧ Circ.Between s.numSlots s.head s'.head s.tail

namespace ReservationsAux

/-- A reservation granted by `reserveBatch` starts at `head` and is no larger than `batchAvailable`. -/
theorem reserveBatch_ok_iff {s : RingMem} (h : s.Valid) (count : Nat) (b : BatchReservation) :
    TxRing.reserveBatch s count = .ok (.ok b) ↔
      count ≤ TxRing.batchAvailable s ∧ b = { start := s.head, count := count } := by
  rw [TxRing.reserveBatch_eq h]
  constructor
  · intro hc
    split at hc
    · nomatch hc
    · cases hc
      exact ⟨by omega, rfl⟩
  · rintro ⟨hle, rfl⟩
    rw [if_neg (by omega)]

/-- A packet that fits is refused for want of space exactly when the window is empty. -/
theorem send_full_iff {s : RingMem} (h : s.Valid) {buf : Bytes} (hb : buf.length ≤ s.nrBufSize) :
    (∃ s', TxRing.send s buf = .ok (.error .insufficientSpace, s')) ↔ s.free = 0 := by
  constructor
  · rintro ⟨s', hs⟩
    by_contra hne
    rw [TxRing.send_ok h hb (by omega)] at hs
    nomatch hs
  · intro hf
    exact ⟨s, TxRing.send_full h hb hf⟩

/-- A slot of the window, by its number of steps from `head`. -/
theorem adv_mem_owned {s : RingMem} (h : s.Valid) {k : Nat} (hk : k < s.free) :
    Circ.adv s.numSlots s.head k ∈ s.owned := by
  have hlt := h.free_lt
  rw [owned, Circ.mem_window_iff h.head_lt]
  exact ⟨Circ.adv_lt h.numSlots_pos, by rwa [Circ.dist_adv h.head_lt (by omega)]⟩

/-- `reserveBatch` grants what `count ≤ free` promises when the two counts decide alike. -/
theorem batchAgrees_of {s : RingMem} (h : s.Valid) {count : Nat}
    (hiff : count ≤ TxRing.batchAvailable s ↔ count ≤ s.free) : TxRing.BatchAgrees s count := by
  have hlt := h.free_lt
  refine ⟨?_, TxRing.reserveAll_eq h, fun buf hb => send_full_iff h hb, ?_, ?_⟩
  · simp only [reserveBatch_ok_iff h, exists_and_left, exists_eq, and_true]
    exact hiff
  · intro b hb index hi len
    obtain ⟨hle, rfl⟩ := (reserveBatch_ok_iff h count b).mp hb
    have hfit : BatchReservation.Fits { start := s.head, count := count } s :=
      ⟨h.head_lt, by have := hiff.mp hle; simp only; omega⟩
    refine ⟨Circ.adv s.numSlots s.head index, adv_mem_owned h (by have := hiff.mp hle; omega), ?_⟩
    rw [BatchReservation.packet_eq hfit h.le, if_neg (by simp only; omega)]
  · intro b hb written
    obtain ⟨hle, rfl⟩ := (reserveBatch_ok_iff h count b).mp hb
    have hfree := hiff.mp hle
    have hfit : BatchReservation.Fits { start := s.head, count := count } s := ⟨h.head_lt, by simp only; omega⟩
    refine ⟨_, BatchReservation.commit_eq hfit h.le written, ?_⟩
    have hstart : Circ.Between s.numSlots s.head s.head s.tail := Circ.between_refl h.head_lt
    have hmin : min written count ≤ s.free := Nat.le_trans (Nat.min_le_right _ _) hfree
    split
    · exact hstart
    · exact Circ.between_adv h.head_lt h.head_lt h.tail_lt hstart hmin

end ReservationsAux

open ReservationsAux

/-- Exactly when `reserveBatch` agrees with the window: on a full ring when no slot is asked for, or as many as the ring has
or more; otherwise whenever the number asked for is not the number free. -/
theorem reserveBatch_agrees_iff (s : RingMem) (h : s.Valid) (count : Nat) :
    TxRing.BatchAgrees s count ↔
      if s.head = s.tail then count = 0 ∨ s.numSlots ≤ count else count ≠ s.free := by
  have hlt := h.free_lt
  have hpos := h.pos
  have hiff : (count ≤ TxRing.batchAvailable s ↔ count ≤ s.free) ↔
      if s.head = s.tail then count = 0 ∨ s.numSlots ≤ count else count ≠ s.free := by
    simp only [TxRing.batchAvailable, ← h.free_eq_zero]
    split <;> omega
  refine Iff.trans ⟨?_, fun hc => batchAgrees_of h hc⟩ hiff
  intro ha
  have hg := ha.granted
  simp only [reserveBatch_ok_iff h, exists_and_left, exists_eq, and_true] at hg
  exact hg

/-- `reserveBatch_agrees_iff` at a ring with two free slots, of which one is asked for. -/
theorem reserveBatch_agrees_one_of_two : TxRing.BatchAgrees (fresh 4 64 0 2) 1 :=
  (reserveBatch_agrees_iff (fresh 4 64 0 2) (fresh_valid (by decide) (by decide) (by decide)) 1).mpr (by decide)

/-- On a full ring of four slots `reserveBatch` grants a slot, though the window is empty. -/
theorem reserveBatch_full_ring_granted :
    ∃ s : RingMem, s.Valid ∧ ∃ count, ¬TxRing.BatchAgrees s count := by
  refine ⟨fresh 4 64 0 0, fresh_valid (by decide) (by decide) (by decide), 1, ?_⟩
  intro h
  have hg := h.granted.mp ⟨_, rfl⟩
  exact absurd hg (by decide)

/-! ## Reservations held at the same time -/

/-- How many slots have been published since a reservation was taken: the steps from its start to `head`. -/
def BatchReservation.overtaken (b : BatchReservation) (s : RingMem) : Nat := Circ.dist s.numSlots b.start s.head

/-- The steps that keep reservations apart. A reservation is taken only when every one held is spent (as many slots have
been published since as it has), or when the call grants no slot, and no batch is taken on a full ring; a packet goes to an
index past what was published since, and into its own buffer; a commit goes at least as far as what was published since. -/
def TxEvent.Apart (s : TxSys) : TxEvent → Prop
  | .send .. => True
  | .reserveAll _ => s.ring.free = 0 ∨ ∀ h ∈ s.held, h.res.count ≤ h.res.overtaken s.ring
  | .reserveBatch count _ => count = 0 ∨ TxRing.batchAvailable s.ring < count ∨
      (0 < s.ring.free ∧ ∀ h ∈ s.held, h.res.count ≤ h.res.overtaken s.ring)
  | .packet h index bytes _ =>
      h.res.count ≤ index ∨ (h.res.overtaken s.ring ≤ index ∧ bytes.length ≤ s.ring.nrBufSize)
  | .commit h written =>
      min written h.res.count = 0 ∨ h.res.overtaken s.ring ≤ min written h.res.count
  | .drop _ => True
  | .sync .. => False

/-- The steps of the application: all but the kernel's. -/
def TxEvent.OfApplication : TxEvent → Prop
  | .sync .. => False
  | _ => True

/-- A step of the application that keeps reservations apart. -/
def ApartStep (s : TxSys) (e : TxEvent) (s' : TxSys) : Prop := e.Apart s ∧ TxStep s e s'

namespace TxSys

/-- No slot belongs to two of the reservations held. -/
def Exclusive (s : TxSys) : Prop :=
  s.held.Pairwise (fun a b => List.Disjoint (a.res.slots s.ring) (b.res.slots s.ring))

/-- What a step leaves alone: the slots published stay published, in order, so `head` does not move backward; and their
lengths and their buffers stay as they were. -/
structure KeepsPublished (s s' : TxSys) : Prop where
  published : s.published <+: s'.published
  slot : ∀ i ∈ s.published, (s'.ring.slot i).len = (s.ring.slot i).len
  buffer : ∀ i ∈ s.published, s'.ring.buffer i = s.ring.buffer i

/-- The ring states a run may start from: a ring with `head` between the kernel's head and `tail`, and nothing reserved. -/
structure Unreserved (s : TxSys) : Prop where
  valid : s.ring.Valid
  distinct : s.ring.DistinctBufs
  khead_lt : s.khead < s.ring.numSlots
  between : Circ.Between s.ring.numSlots s.khead s.ring.head s.ring.tail
  held_eq : s.held = []

/-- Where a held reservation lies: it starts between the kernel's head and `head`, and ends no later than `tail`. -/
structure Lies (ring : RingMem) (khead : Nat) (b : BatchReservation) : Prop where
  start_lt : b.start < ring.numSlots
  started : Circ.Between ring.numSlots khead b.start ring.head
  ends : Circ.dist ring.numSlots khead b.start + b.count ≤ Circ.dist ring.numSlots khead ring.tail

/-- The invariant of the runs that keep reservations apart. -/
structure Apart (s : TxSys) : Prop where
  valid : s.ring.Valid
  distinct : s.ring.DistinctBufs
  khead_lt : s.khead < s.ring.numSlots
  between : Circ.Between s.ring.numSlots s.khead s.ring.head s.ring.tail
  lies : ∀ h ∈ s.held, Lies s.ring s.khead h.res
  exclusive : s.Exclusive

namespace Apart

variable {s s' : TxSys} {e : TxEvent} {b : BatchReservation}

/-! ### Positions, counted from the kernel's head -/

/-- The position of a slot of a held reservation is that of its start, plus its index. -/
theorem dist_slot (hs : s.Apart) (hb : Lies s.ring s.khead b) {k : Nat} (hk : k ≤ b.count) :
    Circ.dist s.ring.numSlots s.khead (Circ.adv s.ring.numSlots b.start k) =
      Circ.dist s.ring.numSlots s.khead b.start + k := by
  have hends := hb.ends
  have htail : Circ.Between s.ring.numSlots s.khead b.start s.ring.tail := by
    unfold Circ.Between
    omega
  have hadd := Circ.dist_add_dist hs.khead_lt hb.start_lt hs.valid.tail_lt htail
  exact Circ.dist_adv_of_between hs.khead_lt hb.start_lt hs.valid.tail_lt htail (by omega)

/-- The position of `head` is that of the start of a held reservation, plus what was published since it was taken. -/
theorem dist_head (hs : s.Apart) (hb : Lies s.ring s.khead b) :
    Circ.dist s.ring.numSlots s.khead b.start + b.overtaken s.ring =
      Circ.dist s.ring.numSlots s.khead s.ring.head :=
  Circ.dist_add_dist hs.khead_lt hb.start_lt hs.valid.head_lt hb.started

/-- A held reservation names slots of the ring. -/
theorem fits (hs : s.Apart) (hb : Lies s.ring s.khead b) : b.Fits s.ring := by
  have hends := hb.ends
  have hlt : Circ.dist s.ring.numSlots s.khead s.ring.tail < s.ring.numSlots := Circ.dist_lt hs.valid.numSlots_pos
  exact ⟨hb.start_lt, by omega⟩

/-- A slot of a held reservation past what was published since it was taken is not published. -/
theorem not_published (hs : s.Apart) (hb : Lies s.ring s.khead b) {k : Nat} (hk : k < b.count) (ho : b.overtaken s.ring ≤ k) :
    Circ.adv s.ring.numSlots b.start k ∉ s.published := by
  have hd := hs.dist_slot hb (Nat.le_of_lt hk)
  have hh := hs.dist_head hb
  rw [published, Circ.mem_window_iff hs.khead_lt, hd]
  omega

/-- A reservation of `count` slots of the window lies where it should. -/
theorem lies_head (hs : s.Apart) {count : Nat} (hc : count ≤ s.ring.free) :
    Lies s.ring s.khead { start := s.ring.head, count := count } := by
  have hadd := Circ.dist_add_dist hs.khead_lt hs.valid.head_lt hs.valid.tail_lt hs.between
  refine ⟨hs.valid.head_lt, Nat.le_refl _, ?_⟩
  unfold RingMem.free at hc
  simp only
  omega

/-- A spent reservation and a new one have no slot in common: the one ends before `head`, the other starts there. -/
theorem disjoint_of_spent (hs : s.Apart) (hb : Lies s.ring s.khead b) (hspent : b.count ≤ b.overtaken s.ring) {count : Nat}
    (hc : count ≤ s.ring.free) :
    List.Disjoint (b.slots s.ring) (BatchReservation.slots { start := s.ring.head, count := count } s.ring) := by
  intro x hx hy
  obtain ⟨i, hi, rfl⟩ := Circ.mem_span.mp hx
  obtain ⟨j, hj, he⟩ := Circ.mem_span.mp hy
  have h1 := hs.dist_slot hb (Nat.le_of_lt hi)
  have h2 := hs.dist_slot (hs.lies_head hc) (Nat.le_of_lt hj)
  have h3 := hs.dist_head hb
  simp only at he hj h2
  rw [he, h1] at h2
  omega

/-! ### What each step does -/

/-- Taking a reservation of the window, when those held are spent or the new one is empty, keeps the invariant. -/
theorem grant (hs : s.Apart) {count : Nat} (hc : count ≤ s.ring.free)
    (hspent : count = 0 ∨ ∀ h ∈ s.held, h.res.count ≤ h.res.overtaken s.ring) :
    (s.grant (.ok { start := s.ring.head, count := count })).Apart := by
  refine ⟨hs.valid, hs.distinct, hs.khead_lt, hs.between, ?_, ?_⟩
  · intro h hh
    simp only [TxSys.grant, List.mem_append, List.mem_singleton] at hh
    rcases hh with hh | rfl
    · exact hs.lies h hh
    · exact hs.lies_head hc
  · refine List.pairwise_append.mpr ⟨hs.exclusive, List.pairwise_singleton _ _, ?_⟩
    intro a ha d hd
    rw [List.mem_singleton] at hd
    subst hd
    rcases hspent with rfl | hspent
    · exact List.disjoint_nil_right _
    · exact hs.disjoint_of_spent (hs.lies a ha) (hspent a ha) hc

/-- A step that changes neither the ring nor the kernel's head keeps what is published. -/
theorem keeps_refl (s : TxSys) (held : List Held) : s.KeepsPublished { s with held := held } :=
  ⟨List.prefix_refl _, fun _ _ => rfl, fun _ _ => rfl⟩

/-- A packet put into a slot of the ring that is not published keeps the invariant and what is published. -/
theorem fill (hs : s.Apart) {i : Nat} {bytes : Bytes} (hi : i < s.ring.numSlots) (hnp : i ∉ s.published)
    (hb : bytes.length ≤ s.ring.nrBufSize) :
    Apart { s with ring := s.ring.fill i bytes } ∧ s.KeepsPublished { s with ring := s.ring.fill i bytes } := by
  have hne : ∀ j ∈ s.published, j ≠ i := fun j hj he => hnp (he ▸ hj)
  refine ⟨⟨hs.valid.fill, hs.distinct.fill, hs.khead_lt, hs.between, ?_, hs.exclusive⟩, List.prefix_refl _, ?_, ?_⟩
  · intro h hh
    obtain ⟨h1, h2, h3⟩ := hs.lies h hh
    exact ⟨h1, h2, h3⟩
  · intro j hj
    rw [fill_slot_of_ne (hne j hj)]
  · intro j hj
    have hlt : j < s.ring.numSlots := ((Circ.mem_window_iff hs.khead_lt).mp hj).1
    exact buffer_fill_of_ne hs.distinct hi hlt (hne j hj) hb

/-- Moving `head` forward, and no further than `tail`, keeps the invariant and what is published. -/
theorem moveHead (hs : s.Apart) {i : Nat} (hi : i < s.ring.numSlots)
    (hfwd : Circ.Between s.ring.numSlots s.khead s.ring.head i)
    (hend : Circ.Between s.ring.numSlots s.khead i s.ring.tail) :
    Apart { s with ring := s.ring.moveHead i } ∧ s.KeepsPublished { s with ring := s.ring.moveHead i } := by
  refine ⟨⟨hs.valid.moveHead hi, hs.distinct, hs.khead_lt, hend, ?_, hs.exclusive⟩, ?_, fun _ _ => rfl, fun _ _ => rfl⟩
  · intro h hh
    obtain ⟨h1, h2, h3⟩ := hs.lies h hh
    exact ⟨h1, Nat.le_trans h2 hfwd, h3⟩
  · exact Circ.span_prefix hfwd

/-- Dropping a reservation keeps the others apart. -/
theorem release (hs : s.Apart) {l r : List Held} {h : Held} (hh : s.held = l ++ h :: r) :
    Apart { s with held := l ++ r } := by
  have hsub : List.Sublist (l ++ r) s.held := by
    rw [hh]
    exact List.Sublist.append (List.Sublist.refl l) (List.sublist_cons_self h r)
  exact ⟨hs.valid, hs.distinct, hs.khead_lt, hs.between, fun a ha => hs.lies a (hsub.subset ha),
    List.Pairwise.sublist hsub hs.exclusive⟩

/-- Remembering a stored packet changes nothing the invariant speaks of. -/
theorem remember (hs : s.Apart) {l r : List Held} {h : Held} (hh : s.held = l ++ h :: r) (index : Nat) (bytes : Bytes) :
    Apart { s with held := l ++ h.store index bytes :: r } := by
  have hexcl := hs.exclusive
  have hlies := hs.lies
  unfold Exclusive at hexcl
  rw [hh] at hexcl hlies
  refine ⟨hs.valid, hs.distinct, hs.khead_lt, hs.between, ?_, ?_⟩
  · intro a ha
    simp only [List.mem_append, List.mem_cons] at ha
    rcases ha with ha | rfl | ha
    · exact hlies a (by simp [ha])
    · exact hlies h (by simp)
    · exact hlies a (by simp [ha])
  · unfold Exclusive
    simp only [List.pairwise_append, List.pairwise_cons, List.mem_cons, Held.store] at hexcl ⊢
    obtain ⟨hl, ⟨h1, hr⟩, hlr⟩ := hexcl
    refine ⟨hl, ⟨h1, hr⟩, ?_⟩
    rintro a ha x (rfl | hx)
    · exact hlr a ha h (Or.inl rfl)
    · exact hlr a ha x (Or.inr hx)

/-! ### One step, and a run -/

/-- A send fills the slot at `head`, which is not published, and publishes it. -/
theorem step_send (hs : s.Apart) {buf : Bytes} {res : Except Error Unit} {ring' : RingMem}
    (hc : TxRing.send s.ring buf = .ok (res, ring')) :
    Apart { s with ring := ring' } ∧ s.KeepsPublished { s with ring := ring' } := by
  rcases TxRing.send_cases hs.valid hc with ⟨_, _, rfl⟩ | ⟨_, hb, hf, rfl⟩
  · exact ⟨hs, keeps_refl s s.held⟩
  · have hn := hs.valid.numSlots_pos
    have hnp : s.ring.head ∉ s.published := by
      have := Circ.adv_not_mem_window hs.khead_lt hs.valid.head_lt hs.valid.tail_lt hs.between hf
      rwa [Circ.adv_zero hs.valid.head_lt] at this
    obtain ⟨hs1, hk1⟩ := hs.fill hs.valid.head_lt hnp hb
    have hfwd := Circ.between_of_adv hs.khead_lt hs.valid.head_lt hs.valid.tail_lt hs.between (k := 1) hf
    have hend := Circ.between_adv hs.khead_lt hs.valid.head_lt hs.valid.tail_lt hs.between (k := 1) hf
    obtain ⟨hs2, hk2⟩ := hs1.moveHead (Circ.adv_lt hn) hfwd hend
    exact ⟨hs2, hk2.published, fun i hi => (hk2.slot i hi).trans (hk1.slot i hi),
      fun i hi => (hk2.buffer i hi).trans (hk1.buffer i hi)⟩

/-- A commit that goes at least as far as what was published since, and no further than the reservation, moves `head`
forward. -/
theorem step_commit (hs : s.Apart) {l r : List Held} {h : Held} {written : Nat} {ring' : RingMem}
    (hh : s.held = l ++ h :: r) (ha : (TxEvent.commit h written).Apart s) (hc : h.res.commit s.ring written = .ok ring') :
    Apart { s with ring := ring', held := l ++ r } ∧ s.KeepsPublished { s with ring := ring', held := l ++ r } := by
  have hb : Lies s.ring s.khead h.res := hs.lies h (by simp [hh])
  have hrel := hs.release hh
  rw [BatchReservation.commit_eq (hs.fits hb) hs.valid.le] at hc
  split at hc
  · cases hc
    exact ⟨hrel, keeps_refl s _⟩
  · rename_i h0
    cases hc
    have hov : h.res.overtaken s.ring ≤ min written h.res.count := by
      rcases ha with h1 | h1
      · exact absurd h1 h0
      · exact h1
    have hle : min written h.res.count ≤ h.res.count := Nat.min_le_right _ _
    have hd := hs.dist_slot hb hle
    have hhead := hs.dist_head hb
    have hends := hb.ends
    have hfwd : Circ.Between s.ring.numSlots s.khead s.ring.head
        (Circ.adv s.ring.numSlots h.res.start (min written h.res.count)) := by
      unfold Circ.Between
      omega
    have hend : Circ.Between s.ring.numSlots s.khead
        (Circ.adv s.ring.numSlots h.res.start (min written h.res.count)) s.ring.tail := by
      unfold Circ.Between
      omega
    obtain ⟨hs2, hk2⟩ := hrel.moveHead (Circ.adv_lt hs.valid.numSlots_pos) hfwd hend
    exact ⟨hs2, hk2.published, hk2.slot, hk2.buffer⟩

/-- A packet past what was published since goes into a slot that is not published. -/
theorem step_packet (hs : s.Apart) {l r : List Held} {h : Held} {index : Nat} {bytes : Bytes} {sl : Slice}
    {ring' : RingMem} (hh : s.held = l ++ h :: r) (ha : (TxEvent.packet h index bytes (.ok sl)).Apart s)
    (hc : h.res.packet s.ring index bytes.length = .ok (.ok sl, ring')) :
    Apart { s with ring := ring'.store sl.addr bytes, held := l ++ h.store index bytes :: r } ∧
      s.KeepsPublished { s with ring := ring'.store sl.addr bytes, held := l ++ h.store index bytes :: r } := by
  have hb : Lies s.ring s.khead h.res := hs.lies h (by simp [hh])
  rcases BatchReservation.packet_store (hs.fits hb) hs.valid.le hc with ⟨_, he, _⟩ | ⟨hi, sl', hsl, _, _, hst⟩
  · nomatch he
  · cases hsl
    rw [hst]
    have hap : h.res.overtaken s.ring ≤ index ∧ bytes.length ≤ s.ring.nrBufSize := by
      rcases ha with h1 | h1
      · omega
      · exact h1
    obtain ⟨hs1, hk1⟩ := hs.fill (Circ.adv_lt hs.valid.numSlots_pos) (hs.not_published hb hi hap.1) hap.2
    exact ⟨hs1.remember hh index bytes, hk1.published, hk1.slot, hk1.buffer⟩

/-- One step keeps the invariant and what is published. -/
theorem step (hs : s.Apart) (h : ApartStep s e s') : s'.Apart ∧ s.KeepsPublished s' := by
  obtain ⟨ha, ht⟩ := h
  cases ht with
  | send hc => exact hs.step_send hc
  | reserveAll hc =>
    rcases TxRing.reserveAll_cases hs.valid hc with ⟨_, rfl⟩ | ⟨hf, rfl⟩
    · exact ⟨hs, keeps_refl s s.held⟩
    · have hspent : ∀ h ∈ s.held, h.res.count ≤ h.res.overtaken s.ring := by
        rcases ha with h0 | h1
        · omega
        · exact h1
      exact ⟨hs.grant (Nat.le_refl _) (Or.inr hspent), keeps_refl s _⟩
  | @reserveBatch count res hc =>
    cases res with
    | error err => exact ⟨hs, keeps_refl s s.held⟩
    | ok b =>
      obtain ⟨hle, rfl⟩ := (reserveBatch_ok_iff hs.valid count b).mp hc
      refine ⟨?_, keeps_refl s _⟩
      rcases ha with rfl | h1 | ⟨hf, hspent⟩
      · exact hs.grant (Nat.zero_le _) (Or.inl rfl)
      · omega
      · have hfree : count ≤ s.ring.free := by
          unfold TxRing.batchAvailable at hle
          rw [if_neg (by omega)] at hle
          omega
        exact hs.grant hfree (Or.inr hspent)
  | packet hh hc => exact hs.step_packet hh ha hc
  | @packetErr l r h index bytes err ring' hh hc =>
    have hb : Lies s.ring s.khead h.res := hs.lies h (by simp [hh])
    rcases BatchReservation.packet_store (hs.fits hb) hs.valid.le hc with ⟨_, _, rfl⟩ | ⟨_, sl', hsl, _⟩
    · exact ⟨hs, keeps_refl s s.held⟩
    · nomatch hsl
  | commit hh hc => exact hs.step_commit hh ha hc
  | drop hh => exact ⟨hs.release hh, keeps_refl s _⟩
  | sync _ => exact absurd ha id

/-! ### The conditions are needed -/

/-- Taking everything while a reservation that is not spent is held grants the slot at `head` twice. -/
theorem spent_of_exclusive (hs : s.Apart) {count : Nat} (hpos : 0 < count)
    (hx : (s.grant (.ok { start := s.ring.head, count := count })).Exclusive) :
    ∀ h ∈ s.held, h.res.count ≤ h.res.overtaken s.ring := by
  intro h hh
  by_contra hlt
  have hb := hs.lies h hh
  have hd := (List.pairwise_append.mp hx).2.2 h hh _ (List.mem_singleton_self _)
  have h1 : s.ring.head ∈ h.res.slots s.ring :=
    Circ.mem_span.mpr ⟨h.res.overtaken s.ring, by omega, Circ.adv_dist hb.start_lt hs.valid.head_lt⟩
  have h2 : s.ring.head ∈ BatchReservation.slots { start := s.ring.head, count := count } s.ring :=
    Circ.mem_span.mpr ⟨0, hpos, Circ.adv_zero hs.valid.head_lt⟩
  exact hd h1 h2

/-- A step that takes everything and leaves the reservations exclusive met its condition. -/
theorem apart_of_reserveAll (hs : s.Apart) {res : Except Error (BatchReservation × Nat)}
    (ht : TxStep s (.reserveAll res) s') (hx : s'.Exclusive) : (TxEvent.reserveAll res).Apart s := by
  cases ht with
  | reserveAll hc =>
    rcases TxRing.reserveAll_cases hs.valid hc with ⟨h0, _⟩ | ⟨hf, rfl⟩
    · exact Or.inl h0
    · exact Or.inr (hs.spent_of_exclusive hf hx)

/-- A commit that keeps what is published met its condition. -/
theorem apart_of_commit (hs : s.Apart) {h : Held} {written : Nat} (ht : TxStep s (.commit h written) s')
    (hk : s.KeepsPublished s') : (TxEvent.commit h written).Apart s := by
  cases ht with
  | @commit l r _ _ ring' hh hc =>
    have hb : Lies s.ring s.khead h.res := hs.lies h (by simp [hh])
    rw [BatchReservation.commit_eq (hs.fits hb) hs.valid.le] at hc
    split at hc
    · exact Or.inl ‹_›
    · cases hc
      have hlen := hk.published.length_le
      have hd := hs.dist_slot hb (Nat.min_le_right written h.res.count)
      have hhead := hs.dist_head hb
      simp only [published, Circ.length_window, moveHead_head, moveHead_numSlots] at hlen
      exact Or.inr (by omega)

end Apart

/-- A ring with nothing reserved satisfies the invariant. -/
theorem Unreserved.apart {s : TxSys} (h : s.Unreserved) : s.Apart := by
  refine ⟨h.valid, h.distinct, h.khead_lt, h.between, ?_, ?_⟩
  · intro a ha
    rw [h.held_eq] at ha
    nomatch ha
  · rw [Exclusive, h.held_eq]
    exact List.Pairwise.nil

end TxSys

/-- Over every run whose steps keep reservations apart: in every state reached no slot belongs to two reservations, and no
step rewrites the length or the bytes of a published slot, moves `head` backward or withdraws what was published. From such
a state a reservation of everything that misses its condition grants a slot twice, and a commit that misses its condition
withdraws. -/
theorem reservations_exclusive {s₀ s : TxSys} {es : List TxEvent} (h0 : s₀.Unreserved)
    (hr : Lts.Run ApartStep s₀ es s) :
    s.Exclusive ∧ (∀ e s', ApartStep s e s' → s.KeepsPublished s') ∧
      (∀ res s', TxStep s (.reserveAll res) s' → s'.Exclusive → (TxEvent.reserveAll res).Apart s) ∧
      ∀ h written s', TxStep s (.commit h written) s' → s.KeepsPublished s' → (TxEvent.commit h written).Apart s := by
  have hs : s.Apart := hr.invariant (fun _ _ _ hs h => (hs.step h).1) h0.apart
  exact ⟨hs.exclusive, fun _ _ h => (hs.step h).2, fun _ _ ht hx => hs.apart_of_reserveAll ht hx,
    fun _ _ _ ht hk => hs.apart_of_commit ht hk⟩

namespace ReservationsAux

/-- A ring of four slots, three of them free. -/
def idle : TxSys := { ring := fresh 4 64 0 3, khead := 0, held := [] }

/-- The reservation of the three free slots, with nothing stored. -/
def all : Held := { res := { start := 0, count := 3 }, filled := fun _ => none }

/-- The reservation of the first of them. -/
def first : Held := { res := { start := 0, count := 1 }, filled := fun _ => none }

/-- The reservation of the other two. -/
def others : Held := { res := { start := 1, count := 2 }, filled := fun _ => none }

/-- The ring once a packet has been sent. -/
def sent : RingMem := ((fresh 4 64 0 3).fill 0 [7]).advance 1

theorem idle_unreserved : idle.Unreserved :=
  ⟨fresh_valid (by decide) (by decide) (by decide), fresh_distinct 4 64 0 3, by decide,
    by unfold Circ.Between; decide, rfl⟩

end ReservationsAux

/-- `reservations_exclusive` at the run that reserves the first free slot, sends a packet, which goes there, and reserves the
other two with the first reservation still held; and then at the run that goes on to commit them. -/
theorem reservations_exclusive_reserve_commit :
    ∃ es s s', Lts.Run ApartStep idle es s ∧ s.held = [first, others] ∧ s.published = [0] ∧ s.Exclusive ∧
      ApartStep s (.commit others 2) s' ∧ s'.published = [0, 1, 2] ∧ s.KeepsPublished s' ∧ s'.Exclusive := by
  have h1 : ApartStep idle (.reserveBatch 1 (.ok first.res)) { idle with held := [first] } :=
    ⟨Or.inr (Or.inr ⟨by decide, fun _ hh => by nomatch hh⟩), TxStep.reserveBatch rfl⟩
  have h2 : ApartStep { idle with held := [first] } (.send [7] (.ok ())) { ring := sent, khead := 0, held := [first] } :=
    ⟨trivial, TxStep.send rfl⟩
  have h3 : ApartStep { ring := sent, khead := 0, held := [first] } (.reserveAll (.ok (others.res, 2)))
      { ring := sent, khead := 0, held := [first, others] } := by
    refine ⟨Or.inr fun h hh => ?_, TxStep.reserveAll rfl⟩
    rw [List.mem_singleton.mp hh]
    decide
  have h4 : ApartStep { ring := sent, khead := 0, held := [first, others] } (.commit others 2)
      { ring := sent.moveHead 3, khead := 0, held := [first] } :=
    ⟨Or.inr (by decide), TxStep.commit (l := [first]) (r := []) rfl rfl⟩
  have hr := Lts.Run.snoc (Lts.Run.snoc (Lts.Run.single h1) h2) h3
  obtain ⟨hexclusive, hkeeps, -, -⟩ := reservations_exclusive idle_unreserved hr
  exact ⟨_, _, _, hr, rfl, by decide, hexclusive, h4, by decide, hkeeps _ _ h4,
    (reservations_exclusive idle_unreserved (Lts.Run.snoc hr h4)).1⟩

/-- Reservations are not exclusive in general, without any step of the kernel: reserving everything twice grants the same
slots twice, and when both holders commit, the second commit moves `head` backward over a packet the first one published. -/
theorem reservations_overlap :
    (∃ es s, (∀ e ∈ es, e.OfApplication) ∧ Lts.Run TxStep idle es s ∧ ¬s.Exclusive) ∧
      ∃ es s e s', (∀ e ∈ es, e.OfApplication) ∧ Lts.Run TxStep idle es s ∧ e.OfApplication ∧ TxStep s e s' ∧
        ¬s.KeepsPublished s' := by
  have h1 : TxStep idle (.reserveAll (.ok (all.res, 3))) { idle with held := [all] } := TxStep.reserveAll rfl
  have h2 : TxStep { idle with held := [all] } (.reserveAll (.ok (all.res, 3))) { idle with held := [all, all] } :=
    TxStep.reserveAll rfl
  have h3 : TxStep { idle with held := [all, all] } (.commit all 2)
      { idle with ring := (fresh 4 64 0 3).moveHead 2, held := [all] } := TxStep.commit (l := []) (r := [all]) rfl rfl
  have h4 : TxStep { idle with ring := (fresh 4 64 0 3).moveHead 2, held := [all] } (.commit all 1)
      { idle with ring := ((fresh 4 64 0 3).moveHead 2).moveHead 1, held := [] } :=
    TxStep.commit (l := []) (r := []) rfl rfl
  have hr := Lts.Run.snoc (Lts.Run.single h1) h2
  refine ⟨⟨_, _, ?_, hr, ?_⟩, _, _, .commit all 1, _, ?_, Lts.Run.snoc hr h3, trivial, h4, ?_⟩
  · simp [TxEvent.OfApplication]
  · intro he
    simp only [TxSys.Exclusive, List.pairwise_cons, List.mem_singleton] at he
    have hd := he.1 all rfl
    exact hd (show (0 : Nat) ∈ _ by decide) (show (0 : Nat) ∈ _ by decide)
  · simp [TxEvent.OfApplication]
  · intro hk
    have hlen := hk.published.length_le
    exact absurd hlen (by decide)

end NetHelper
