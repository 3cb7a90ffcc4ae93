import Mathlib.Algebra.GroupWithZero.Nat
import NetHelper.Lemmas.Fill
import NetHelper.Lib.Lts

/-!
# How many packets the generator sends

The counter of the send loop goes up by one for each batch, and a batch has as many packets as there were free slots. The
loop and the kernel take turns (`SendStep`); a run that ends has published as many packets as it is to send exactly when no
round of it found more than one free slot (`sends_exactly_iff`).
-/

namespace NetHelper

open Checked Mm512 Generator RingMem

/-- What the kernel may do to a ring between two calls: it leaves `head` and `cur` and the buffers of the slots, and moves
`tail` to any slot. -/
structure RingMem.KernelStep (s t : RingMem) : Prop where
  bufs : SameBufs s t
  head : t.head = s.head
  cur : t.cur = s.cur
  tail_lt : t.tail < t.numSlots

namespace Generator

/-- What is seen of the send loop: the kernel at work, or a round, with the number of free slots it found and the number of
packets it published. -/
inductive SendEvent where
  | kernel
  | round (free published : Nat)

/-- The number of free slots found. -/
def SendEvent.free : SendEvent → Nat
  | .kernel => 0
  | .round free _ => free

/-- The number of packets published. -/
def SendEvent.published : SendEvent → Nat
  | .kernel => 0
  | .round _ published => published

/-- The steps of the send loop for so many packets. A round runs while the counter is below that number, and publishes the
slots it moves `head` over. -/
inductive SendStep (packetCount : Nat) : Sender → SendEvent → Sender → Prop where
  | kernel {s : Sender} {ring' : RingMem} (hk : s.ring.KernelStep ring') :
      SendStep packetCount s .kernel { s with ring := ring' }
  | round {s s' : Sender} (hi : s.i < packetCount) (hc : sendRound s = .ok (.next s')) :
      SendStep packetCount s (.round s.ring.free (Circ.dist s.ring.numSlots s.ring.head s'.ring.head)) s'

/-- The number of packets published in a run. -/
def totalPublished (es : List SendEvent) : Nat := (es.map SendEvent.published).sum

/-- A run that leads to `t` sends what it is to send: when the loop has ended, that number of packets has been published, and
never more. -/
def SendsExactly (packetCount : Nat) (es : List SendEvent) (t : Sender) : Prop :=
  (packetCount ≤ t.i → totalPublished es = packetCount) ∧ ∀ es', es' <+: es → totalPublished es' ≤ packetCount

end Generator

namespace SendLoopAux

/-- The states of the loop between two steps: `cur` and `tail` name slots, and `head` is where `cur` is. -/
structure Ready (s : Sender) : Prop where
  addressed : s.ring.Addressed
  cur_eq : s.ring.cur = s.ring.head

variable {packetCount : Nat} {s s' t : Sender} {e : SendEvent} {es : List SendEvent}

theorem Ready.head_lt (h : Ready s) : s.ring.head < s.ring.numSlots := by
  rw [← h.cur_eq]
  exact h.addressed.cur_lt

theorem Ready.free_lt (h : Ready s) : s.ring.free < s.ring.numSlots := Circ.dist_lt (Nat.zero_lt_of_lt h.head_lt)

/-- A batch that was filled, with `head` and `cur` then moved to a slot of the ring, leaves the loop ready. -/
theorem Ready.moveHead (h : Ready s) {f : Filling} {v c : Zmm} {z k i : Nat} (hf : f.After s.ring v z)
    (hk : k < s.ring.numSlots) : Ready { ring := f.ring.moveHead k, currentPacketZmm := c, i := i } := by
  have hn := hf.bufs.numSlots
  refine ⟨⟨?_, ?_, ?_⟩, rfl⟩
  · rw [moveHead_numSlots, hn]
    exact h.addressed.numSlots_lt
  · rw [moveHead_cur, moveHead_numSlots, hn]
    exact hk
  · rw [moveHead_tail, moveHead_numSlots, hn, hf.tail]
    exact h.addressed.tail_lt

/-- A round that is followed by another: it found no free slot and did nothing, or it filled all of them, moved `head` over
them and counted one. -/
theorem round_cases (h : Ready s) (hc : sendRound s = .ok (.next s')) :
    (s.ring.free = 0 ∧ s' = s) ∨
      (0 < s.ring.free ∧ s'.i = s.i + 1 ∧ Ready s' ∧ s'.ring.numSlots = s.ring.numSlots ∧
        s'.ring.head = Circ.adv s.ring.numSlots s.ring.head s.ring.free) := by
  have hfree : Circ.dist s.ring.numSlots s.ring.cur s.ring.tail = s.ring.free := by rw [h.cur_eq, free]
  have hlt := h.free_lt
  unfold sendRound at hc
  obtain ⟨res, hr, hc⟩ := of_bind_ok hc
  rcases TxRing.reserveAll_cases_of_addressed h.addressed (of_call_ok hr) with ⟨h0, rfl⟩ | ⟨hpos, rfl⟩
  · left
    cases hc
    exact ⟨by rwa [hfree] at h0, rfl⟩
  · right
    rw [hfree] at hpos
    simp only [hfree] at hc
    obtain ⟨f, hl, hc⟩ := of_bind_ok hc
    obtain ⟨ring', hm, hc⟩ := of_bind_ok hc
    cases hc
    have hf := fillLoop_after (b := { start := s.ring.cur, count := s.ring.free }) h.addressed.numSlots_lt hlt
      (Nat.le_refl _) hl
    have hn := hf.bufs.numSlots
    have hring := BatchReservation.commit_ok (by rw [hn]; exact h.addressed.numSlots_lt) (by rw [hn]; exact hlt)
      (by rw [hf.written]; exact hpos) (Nat.le_of_eq hf.written) (of_call_ok hm)
    rw [hn, hf.written] at hring
    subst hring
    refine ⟨hpos, rfl, h.moveHead hf (Circ.adv_lt (by omega)), hn, ?_⟩
    rw [moveHead_head, h.cur_eq]

/-- A round runs through, and another follows, when the buffers begin at multiples of 64. -/
theorem round_returns (h : Ready s) (hle : s.ring.numSlots ≤ 2 ^ 31)
    (ha : ∀ j < s.ring.numSlots, s.ring.bufPtr j % 64 = 0) : ∃ s', sendRound s = .ok (.next s') := by
  have hcur := h.addressed.cur_lt
  have htail := h.addressed.tail_lt
  have hlt : Circ.dist s.ring.numSlots s.ring.cur s.ring.tail < s.ring.numSlots := Circ.dist_lt (by omega)
  unfold sendRound
  rw [TxRing.reserveAll_eq_of_addressed h.addressed, if_pos (by omega), call, run_bind]
  by_cases h0 : Circ.dist s.ring.numSlots s.ring.cur s.ring.tail = 0
  · rw [if_pos h0]
    exact ⟨s, rfl⟩
  · rw [if_neg h0]
    dsimp only
    obtain ⟨f, hf⟩ := fillLoop_returns (v := s.currentPacketZmm) (k := Circ.dist s.ring.numSlots s.ring.cur s.ring.tail)
      (b := { start := s.ring.cur, count := Circ.dist s.ring.numSlots s.ring.cur s.ring.tail })
      h.addressed.numSlots_lt hlt (by dsimp only; omega) (fun z _ => ha _ (Circ.adv_lt (by omega)))
      (by rw [Nat.zero_add]) Filling.after_start
    have hn := (fillLoop_after h.addressed.numSlots_lt hlt (Nat.le_refl _) hf).bufs.numSlots
    have hfits : BatchReservation.Fits
        { start := s.ring.cur, count := Circ.dist s.ring.numSlots s.ring.cur s.ring.tail } f.ring := by
      refine ⟨?_, ?_⟩
      · rwa [hn]
      · rw [hn]
        exact Nat.le_of_lt hlt
    unfold Filling.start at hf
    rw [hf, run_bind, BatchReservation.commit_eq hfits (by rwa [hn]), call, run_bind]
    exact ⟨_, rfl⟩

/-- What the kernel does leaves the loop ready for the next round. -/
theorem Ready.kernel {ring' : RingMem} (h : Ready s) (hk : s.ring.KernelStep ring') : Ready { s with ring := ring' } where
  addressed := by
    refine ⟨?_, ?_, hk.tail_lt⟩
    · rw [hk.bufs.numSlots]
      exact h.addressed.numSlots_lt
    · rw [hk.cur, hk.bufs.numSlots]
      exact h.addressed.cur_lt
  cur_eq := by rw [hk.cur, hk.head, h.cur_eq]

/-- What a step does to the counter: the packets published are the slots found free, and the counter goes up by one when there
are any. -/
theorem step_counts (h : Ready s) (hs : SendStep packetCount s e s') :
    Ready s' ∧ e.published = e.free ∧ ((e.free = 0 ∧ s'.i = s.i) ∨ (0 < e.free ∧ s.i < packetCount ∧ s'.i = s.i + 1)) := by
  cases hs with
  | kernel hk => exact ⟨h.kernel hk, rfl, Or.inl ⟨rfl, rfl⟩⟩
  | round hi hc =>
    rcases round_cases h hc with ⟨h0, rfl⟩ | ⟨hpos, hcount, hready, -, hhead⟩
    · refine ⟨h, ?_, Or.inl ⟨h0, rfl⟩⟩
      rw [SendEvent.published, SendEvent.free, h0, Circ.dist_self h.head_lt]
    · refine ⟨hready, ?_, Or.inr ⟨hpos, hi, hcount⟩⟩
      rw [SendEvent.published, SendEvent.free, hhead, Circ.dist_adv h.head_lt h.free_lt]

/-- What a run does to the counter: it is the number of packets published when every round found at most one free slot, and
otherwise it is smaller. -/
theorem run_counts (h : Ready s) (hi : s.i = 0) (hr : Lts.Run (SendStep packetCount) s es t) :
    Ready t ∧ t.i ≤ packetCount ∧ t.i ≤ totalPublished es ∧ (totalPublished es = t.i ↔ ∀ e ∈ es, e.free ≤ 1) := by
  induction hr with
  | nil =>
    refine ⟨h, by omega, by omega, fun _ e he => ?_, fun _ => hi.symm⟩
    nomatch he
  | @snoc t u es e hr hs ih =>
    obtain ⟨hready, hle, hmin, hiff⟩ := ih
    obtain ⟨hready', hpub, hcount⟩ := step_counts hready hs
    have htotal : totalPublished (es ++ [e]) = totalPublished es + e.free := by
      rw [← hpub]
      simp [totalPublished]
    have hall : (∀ x ∈ es ++ [e], x.free ≤ 1) ↔ (∀ x ∈ es, x.free ≤ 1) ∧ e.free ≤ 1 := by
      simp [or_imp, forall_and]
    rw [htotal, hall, ← hiff]
    refine ⟨hready', ?_, ?_, ?_⟩
    · omega
    · omega
    · omega

/-- Fewer events have published no more packets. -/
theorem totalPublished_mono {es' : List SendEvent} (h : es' <+: es) : totalPublished es' ≤ totalPublished es := by
  obtain ⟨es'', rfl⟩ := h
  unfold totalPublished
  rw [List.map_append, List.sum_append]
  exact Nat.le_add_right _ _

end SendLoopAux

open SendLoopAux

/-- A run of the send loop in which every round finds at most one free slot sends what it is to send, at every moment of it;
and a run that has ended sends what it is to send only when every round of it found at most one free slot. No round stops
the loop on a ring of at most 2^31 slots whose buffers begin at multiples of 64. -/
theorem sends_exactly_iff {packetCount : Nat} {s t : Sender} {es : List SendEvent} (h : s.ring.Addressed)
    (hcur : s.ring.cur = s.ring.head) (hi : s.i = 0) (hr : Lts.Run (SendStep packetCount) s es t) :
    ((∀ e ∈ es, e.free ≤ 1) → SendsExactly packetCount es t) ∧
      (packetCount ≤ t.i → (SendsExactly packetCount es t ↔ ∀ e ∈ es, e.free ≤ 1)) ∧
      (t.ring.numSlots ≤ 2 ^ 31 → (∀ j < t.ring.numSlots, t.ring.bufPtr j % 64 = 0) →
        ∃ t', sendRound t = .ok (.next t')) := by
  obtain ⟨hready, hle, hmin, hiff⟩ := run_counts ⟨h, hcur⟩ hi hr
  have hone : (∀ e ∈ es, e.free ≤ 1) → SendsExactly packetCount es t := by
    intro hfree
    have htotal := hiff.mpr hfree
    refine ⟨by omega, ?_⟩
    intro es' hpre
    have := totalPublished_mono hpre
    omega
  refine ⟨hone, ?_, round_returns hready⟩
  intro hend
  refine ⟨?_, hone⟩
  intro hsends
  apply hiff.mp
  have := hsends.1 hend
  omega

/-- `sends_exactly_iff` at a run for one packet that finds one free slot. -/
theorem sends_exactly_one : ∃ es t,
    Lts.Run (SendStep 1) { ring := fresh 4 2048 0 1, currentPacketZmm := templateZmm, i := 0 } es t ∧ t.i = 1 ∧
      totalPublished es = 1 := by
  have hr := Lts.Run.single
    (@SendStep.round 1 { ring := fresh 4 2048 0 1, currentPacketZmm := templateZmm, i := 0 } _ (by decide) rfl)
  have hends := (sends_exactly_iff (fresh_addressed (by decide) (by decide) (by decide)) rfl rfl hr).1 (by
    intro e he
    rw [List.mem_singleton.mp he]
    decide)
  exact ⟨_, _, hr, rfl, hends.1 (Nat.le_refl 1)⟩

/-- More packets are sent than there are to be. With three free slots, the loop for one packet ends after three. -/
theorem three_packets_for_one : ∃ es t,
    Lts.Run (SendStep 1) { ring := fresh 4 2048 0 3, currentPacketZmm := templateZmm, i := 0 } es t ∧ 1 ≤ t.i ∧
      totalPublished es = 3 ∧ ¬SendsExactly 1 es t := by
  have hr := Lts.Run.single
    (@SendStep.round 1 { ring := fresh 4 2048 0 3, currentPacketZmm := templateZmm, i := 0 } _ (by decide) rfl)
  refine ⟨_, _, hr, Nat.le_refl 1, by decide, ?_⟩
  intro h
  exact absurd (h.1 (Nat.le_refl 1)) (by decide)

end NetHelper
