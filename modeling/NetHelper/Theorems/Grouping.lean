import NetHelper.Lemmas.Tx
import NetHelper.Push

/-!
# Pushing packets in groups

Single sends and reservations put the same packets into the same slots. Both are described by one function of the ring and
the packets (`RingMem.load`): the packets go into the slots from `head` on and `head` moves past them. Loading two lists one
after the other is loading both at once (`load_load`), so the way a list is cut into chunks, and the way each chunk is
pushed, does not show (`grouping_does_not_show`).
-/

namespace NetHelper

open Checked RingMem

namespace RingMem

/-- Put packets into the slots of the ring from the one `index` steps after `start` on. -/
def fillFrom (s : RingMem) (start index : Nat) : List Bytes → RingMem
  | [] => s
  | p :: ps => fillFrom (s.fill (Circ.adv s.numSlots start index) p) start (index + 1) ps

/-- Put packets into the slots from `head` on and move `head` past them. -/
def load (s : RingMem) (ps : List Bytes) : RingMem := (s.fillFrom s.head 0 ps).advance ps.length

section Load

variable {s : RingMem} {a i j k : Nat} {ps qs : List Bytes} {p : Bytes}

/-- Filling slots changes slots and buffers only. -/
theorem fillFrom_eq (s : RingMem) (a k : Nat) (ps : List Bytes) : s.fillFrom a k ps =
    { s with slot := (s.fillFrom a k ps).slot, mem := (s.fillFrom a k ps).mem } := by
  induction ps generalizing s k with
  | nil => rfl
  | cons p ps ih => exact ih _ _

@[simp] theorem fillFrom_numSlots : (s.fillFrom a k ps).numSlots = s.numSlots := by rw [fillFrom_eq]
@[simp] theorem fillFrom_nrBufSize : (s.fillFrom a k ps).nrBufSize = s.nrBufSize := by rw [fillFrom_eq]
@[simp] theorem fillFrom_head : (s.fillFrom a k ps).head = s.head := by rw [fillFrom_eq]
@[simp] theorem fillFrom_cur : (s.fillFrom a k ps).cur = s.cur := by rw [fillFrom_eq]
@[simp] theorem fillFrom_tail : (s.fillFrom a k ps).tail = s.tail := by rw [fillFrom_eq]

/-- Filling slots and moving `head` commute. -/
theorem fillFrom_moveHead (s : RingMem) (a k : Nat) (ps : List Bytes) :
    (s.moveHead i).fillFrom a k ps = (s.fillFrom a k ps).moveHead i := by
  induction ps generalizing s k with
  | nil => rfl
  | cons p ps ih => exact ih (s.fill (Circ.adv s.numSlots a k) p) (k + 1)

/-- Filling with one list and then, from where it ends, with another is filling with both. -/
theorem fillFrom_append (s : RingMem) (a k : Nat) (ps qs : List Bytes) :
    s.fillFrom a k (ps ++ qs) = (s.fillFrom a k ps).fillFrom a (k + ps.length) qs := by
  induction ps generalizing s k with
  | nil => rfl
  | cons p ps ih =>
    have e : k + (p :: ps).length = k + 1 + ps.length := by
      rw [List.length_cons]
      omega
    rw [e]
    exact ih _ _

/-- The slots may be counted from any earlier slot. -/
theorem fillFrom_adv (s : RingMem) (a k j : Nat) (ps : List Bytes) :
    s.fillFrom (Circ.adv s.numSlots a j) k ps = s.fillFrom a (j + k) ps := by
  induction ps generalizing s k with
  | nil => rfl
  | cons p ps ih =>
    have h := ih (s.fill (Circ.adv s.numSlots a (j + k)) p) (k + 1)
    rw [fillFrom, fillFrom, Circ.adv_adv]
    exact h

/-! ### Loading -/

/-- Loading packets fits the ring as the kernel hands it out. -/
theorem Valid.load (h : s.Valid) : (s.load ps).Valid := by
  have hv : (s.fillFrom s.head 0 ps).Valid := by
    rw [fillFrom_eq]
    exact ⟨h.pos, h.le, h.head_lt, h.cur_eq, h.tail_lt⟩
  exact hv.advance

/-- Loading no packets changes nothing. -/
theorem Valid.load_nil (h : s.Valid) : s.load [] = s := h.advance_zero

/-- Loading one list and then another is loading both. -/
theorem load_load (s : RingMem) (ps qs : List Bytes) : (s.load ps).load qs = s.load (ps ++ qs) := by
  have hfill : (s.load ps).fillFrom (s.load ps).head 0 qs =
      (s.fillFrom s.head 0 (ps ++ qs)).moveHead (Circ.adv s.numSlots s.head ps.length) := by
    have hadv := fillFrom_adv (s.fillFrom s.head 0 ps) s.head 0 ps.length qs
    rw [fillFrom_numSlots] at hadv
    rw [fillFrom_append, Nat.zero_add]
    simp only [load, RingMem.advance, fillFrom_numSlots, fillFrom_head, moveHead_head, fillFrom_moveHead]
    rw [hadv, Nat.add_zero]
  have hload : (s.load ps).load qs =
      ((s.fillFrom s.head 0 (ps ++ qs)).moveHead (Circ.adv s.numSlots s.head ps.length)).advance qs.length := by
    rw [← hfill]
    rfl
  rw [hload]
  simp only [load, RingMem.advance, moveHead_head, moveHead_numSlots, fillFrom_numSlots, fillFrom_head, Circ.adv_adv,
    List.length_append]
  rfl

/-- Loading takes slots of the window away. -/
theorem Valid.free_load (h : s.Valid) (hk : ps.length ≤ s.free) : (s.load ps).free = s.free - ps.length := by
  have hv : (s.load ps).free = (s.advance ps.length).free := by
    simp only [RingMem.load, RingMem.free, advance_numSlots, advance_head, advance_tail, fillFrom_numSlots, fillFrom_head,
      fillFrom_tail]
  rw [hv, h.free_advance hk]

/-- A packet sent is a packet loaded. -/
theorem Valid.load_single (h : s.Valid) : s.load [p] = (s.fill s.head p).advance 1 := by
  rw [RingMem.load, fillFrom, Circ.adv_zero h.head_lt]
  rfl

/-! ### What loading leaves in the slots -/

/-- A slot that is not filled keeps its contents and its buffer. -/
theorem fillFrom_other (hd : s.DistinctBufs) (ha : a < s.numSlots) (hj : j < s.numSlots)
    (hfit : ∀ p ∈ ps, p.length ≤ s.nrBufSize) (hne : ∀ i < ps.length, j ≠ Circ.adv s.numSlots a (k + i)) :
    (s.fillFrom a k ps).slot j = s.slot j ∧ (s.fillFrom a k ps).buffer j = s.buffer j ∧
      ((s.slot j).len ≤ s.nrBufSize → (s.fillFrom a k ps).packetAt j = s.packetAt j) := by
  induction ps generalizing s k with
  | nil => exact ⟨rfl, rfl, fun _ => rfl⟩
  | cons p ps ih =>
    have hp : p.length ≤ s.nrBufSize := hfit p List.mem_cons_self
    have hjk : j ≠ Circ.adv s.numSlots a k := hne 0 (by simp)
    have hrest : ∀ i < ps.length, j ≠ Circ.adv s.numSlots a (k + 1 + i) := by
      intro i hi
      have := hne (i + 1) (by rw [List.length_cons]; omega)
      rwa [Nat.add_assoc, Nat.add_comm 1 i]
    have hk : Circ.adv s.numSlots a k < s.numSlots := Circ.adv_lt (by omega)
    obtain ⟨h1, h2, h3⟩ := ih (s := s.fill (Circ.adv s.numSlots a k) p) (k := k + 1) hd.fill ha hj
      (fun q hq => hfit q (List.mem_cons_of_mem _ hq)) hrest
    have hslot : (s.fill (Circ.adv s.numSlots a k) p).slot j = s.slot j := fill_slot_of_ne hjk
    rw [fillFrom]
    refine ⟨h1.trans hslot, h2.trans (buffer_fill_of_ne hd hk hj hjk hp), ?_⟩
    intro hl
    rw [h3 (by rw [hslot]; exact hl)]
    exact packetAt_fill_of_ne hd hk hj hjk hp hl

/-- A slot that is filled shows its packet. -/
theorem fillFrom_at (hd : s.DistinctBufs) (hsmall : s.nrBufSize ≤ 65535) (ha : a < s.numSlots)
    (hfit : ∀ p ∈ ps, p.length ≤ s.nrBufSize) (hk : k + ps.length ≤ s.numSlots) (hi : i < ps.length) :
    ((s.fillFrom a k ps).slot (Circ.adv s.numSlots a (k + i))).len = ps[i].length ∧
      (s.fillFrom a k ps).packetAt (Circ.adv s.numSlots a (k + i)) = ps[i] := by
  induction ps generalizing s k i with
  | nil => nomatch hi
  | cons p ps ih =>
    have hp : p.length ≤ s.nrBufSize := hfit p List.mem_cons_self
    rw [List.length_cons] at hk hi
    rw [fillFrom]
    cases i with
    | zero =>
      have hlt : Circ.adv s.numSlots a k < s.numSlots := Circ.adv_lt (by omega)
      have hne : ∀ i < ps.length, Circ.adv s.numSlots a k ≠ Circ.adv s.numSlots a (k + 1 + i) := by
        intro i hi he
        have := Circ.adv_inj ha (by omega) (by omega) he
        omega
      obtain ⟨h1, _, h3⟩ := fillFrom_other (s := s.fill (Circ.adv s.numSlots a k) p) (k := k + 1) hd.fill ha hlt
        (fun q hq => hfit q (List.mem_cons_of_mem _ hq)) hne
      have hlen : ((s.fill (Circ.adv s.numSlots a k) p).slot (Circ.adv s.numSlots a k)).len = p.length := by
        rw [fill_slot_self, cast_of_lt (by omega)]
      simp only [Nat.add_zero, List.getElem_cons_zero]
      refine ⟨?_, ?_⟩
      · rw [h1]
        exact hlen
      · rw [h3 (by rw [hlen]; exact hp)]
        exact packetAt_fill_self (by omega)
    | succ i =>
      have e : k + (i + 1) = k + 1 + i := by omega
      rw [e]
      exact ih (s := s.fill (Circ.adv s.numSlots a k) p) hd.fill hsmall ha
        (fun q hq => hfit q (List.mem_cons_of_mem _ hq)) (by simp only [fill_numSlots]; omega) (by omega)

end Load

end RingMem

/-! ## The two ways of pushing -/

namespace GroupingAux

variable {s : RingMem} {ps : List Bytes} {b : BatchReservation} {k : Nat}

/-- Single sends load as many packets as there is room for. -/
theorem sendEach_eq (h : s.Valid) (hfit : ∀ p ∈ ps, p.length ≤ s.nrBufSize) : sendEach s ps =
    .ok (min ps.length s.free, s.load (ps.take (min ps.length s.free))) := by
  induction ps generalizing s with
  | nil =>
    rw [List.length_nil, Nat.zero_min, List.take_nil, h.load_nil]
    rfl
  | cons p ps ih =>
    have hp : p.length ≤ s.nrBufSize := hfit p List.mem_cons_self
    have hps : ∀ q ∈ ps, q.length ≤ s.nrBufSize := fun q hq => hfit q (List.mem_cons_of_mem _ hq)
    rw [sendEach]
    by_cases hf : s.free = 0
    · rw [TxRing.send_full h hp hf, ok_bind, hf, Nat.min_zero, List.take_zero, h.load_nil]
    · have hnext : (s.load [p]).free = s.free - 1 := h.free_load (by rw [List.length_singleton]; omega)
      have hmin : min (p :: ps).length s.free = min ps.length (s.free - 1) + 1 := by
        rw [List.length_cons]
        omega
      have hrest := ih (s := s.load [p]) h.load (by simpa [RingMem.load] using hps)
      rw [hnext, load_load] at hrest
      rw [TxRing.send_ok h hp (by omega), ok_bind, ← h.load_single]
      simp only [hrest, ok_bind]
      rw [hmin, List.take_succ_cons, List.singleton_append]

/-- Filling the packets of a reservation fills the slots that follow its start. -/
theorem fillEach_eq (hf : b.Fits s) (hle : s.numSlots ≤ 2 ^ 31) (hk : k + ps.length ≤ b.count) :
    fillEach b s k ps = .ok (s.fillFrom b.start k ps) := by
  induction ps generalizing s k with
  | nil => rfl
  | cons p ps ih =>
    rw [List.length_cons] at hk
    rw [fillEach, BatchReservation.packet_eq hf hle, if_neg (by omega), ok_bind]
    exact ih (s := s.fill (Circ.adv s.numSlots b.start k) p) ⟨hf.start_lt, hf.count_le⟩ hle (by omega)

/-- A reservation of every slot available loads as many packets as there is room for. -/
theorem sendBatch_eq (h : s.Valid) : sendBatch s ps =
    .ok (min ps.length s.free, s.load (ps.take (min ps.length s.free))) := by
  have hlt := h.free_lt
  rw [sendBatch, TxRing.reserveAll_eq h, ok_bind]
  by_cases hf : s.free = 0
  · rw [if_pos hf, hf, Nat.min_zero, List.take_zero, h.load_nil]
  · have hfit : BatchReservation.Fits { start := s.head, count := s.free } s := ⟨h.head_lt, Nat.le_of_lt hlt⟩
    have hlen : (ps.take (min ps.length s.free)).length = min ps.length s.free := by
      rw [List.length_take]
      omega
    have hroom : 0 + (ps.take (min ps.length s.free)).length ≤ s.free := by
      rw [hlen]
      omega
    rw [if_neg hf]
    simp only [fillEach_eq hfit h.le hroom, ok_bind]
    have hfit' : BatchReservation.Fits { start := s.head, count := s.free }
        (s.fillFrom s.head 0 (ps.take (min ps.length s.free))) := by
      refine ⟨?_, ?_⟩
      · rw [fillFrom_numSlots]
        exact hfit.start_lt
      · rw [fillFrom_numSlots]
        exact hfit.count_le
    rw [BatchReservation.commit_eq hfit' (by rw [fillFrom_numSlots]; exact h.le), ok_bind, Nat.min_assoc, Nat.min_self]
    by_cases h0 : min ps.length s.free = 0
    · rw [if_pos h0, h0, List.take_zero, h.load_nil]
      rfl
    · rw [if_neg h0, load, hlen, RingMem.advance, fillFrom_head]

/-- Either way of pushing loads as many packets as there is room for. -/
theorem push_eq (h : s.Valid) (hfit : ∀ p ∈ ps, p.length ≤ s.nrBufSize) (mode : PushMode) : push mode s ps =
    .ok (min ps.length s.free, s.load (ps.take (min ps.length s.free))) := by
  cases mode with
  | each => exact sendEach_eq h hfit
  | batch => exact sendBatch_eq h

/-- Pushing chunks loads as many packets of the whole list as there is room for. -/
theorem pushChunks_eq {chunks : List (PushMode × List Bytes)} (h : s.Valid)
    (hfit : ∀ p ∈ chunks.flatMap Prod.snd, p.length ≤ s.nrBufSize) : pushChunks s chunks =
      .ok (min (chunks.flatMap Prod.snd).length s.free,
        s.load ((chunks.flatMap Prod.snd).take (min (chunks.flatMap Prod.snd).length s.free))) := by
  induction chunks generalizing s with
  | nil =>
    rw [List.flatMap_nil, List.length_nil, Nat.zero_min, List.take_nil, h.load_nil]
    rfl
  | cons c chunks ih =>
    obtain ⟨mode, ps⟩ := c
    have hps : ∀ p ∈ ps, p.length ≤ s.nrBufSize := fun p hp => hfit p (by simp [hp])
    have hrest : ∀ p ∈ chunks.flatMap Prod.snd, p.length ≤ s.nrBufSize := by
      intro p hp
      exact hfit p (by rw [List.flatMap_cons]; exact List.mem_append_right _ hp)
    rw [pushChunks, push_eq h hps, ok_bind, List.flatMap_cons, List.length_append]
    by_cases hc : ps.length ≤ s.free
    · have hmin : min ps.length s.free = ps.length := Nat.min_eq_left hc
      have hnext := h.free_load hc
      have hmore := ih (s := s.load ps) h.load (by simpa [RingMem.load] using hrest)
      rw [hnext, load_load] at hmore
      have htotal : min (ps.length + (chunks.flatMap Prod.snd).length) s.free =
          ps.length + min (chunks.flatMap Prod.snd).length (s.free - ps.length) := by omega
      dsimp only
      rw [hmin, if_neg (Nat.lt_irrefl _), List.take_length, hmore, ok_bind, htotal, List.take_length_add_append]
    · have hmin : min ps.length s.free = s.free := by omega
      have htotal : min (ps.length + (chunks.flatMap Prod.snd).length) s.free = s.free := by omega
      dsimp only
      rw [hmin, if_pos (by omega), htotal, List.take_append_of_le_length (by omega)]

end GroupingAux

open GroupingAux

/-- What pushing packets does to a ring: as many as there is room for are in the slots from the old `head` on, `head` and
`cur` are past them, and nothing else has changed. -/
structure Pushed (s : RingMem) (ps : List Bytes) (accepted : Nat) (s' : RingMem) : Prop where
  accepted_eq : accepted = min ps.length s.free
  head_eq : s'.head = Circ.adv s.numSlots s.head accepted
  cur_eq : s'.cur = s'.head
  tail_eq : s'.tail = s.tail
  stored : ∀ i (h : i < ps.length), i < accepted →
    (s'.slot (Circ.adv s.numSlots s.head i)).len = ps[i].length ∧ s'.packetAt (Circ.adv s.numSlots s.head i) = ps[i]
  others : ∀ j < s.numSlots, j ∉ Circ.span s.numSlots s.head accepted → s'.slot j = s.slot j ∧ s'.buffer j = s.buffer j

/-- Loading the packets there is room for is what pushing does. -/
theorem GroupingAux.pushed_load (h : s.Valid) (hsmall : s.nrBufSize ≤ 65535) (hd : s.DistinctBufs)
    (hfit : ∀ p ∈ ps, p.length ≤ s.nrBufSize) :
    Pushed s ps (min ps.length s.free) (s.load (ps.take (min ps.length s.free))) := by
  have hlt := h.free_lt
  have hlen : (ps.take (min ps.length s.free)).length = min ps.length s.free := by
    rw [List.length_take]
    omega
  have htake : ∀ p ∈ ps.take (min ps.length s.free), p.length ≤ s.nrBufSize :=
    fun p hp => hfit p (List.mem_of_mem_take hp)
  refine ⟨rfl, ?_, rfl, ?_, ?_, ?_⟩
  · rw [load, advance_head, hlen, fillFrom_numSlots, fillFrom_head]
  · rw [load, advance_tail, fillFrom_tail]
  · intro i hi hacc
    have hat := fillFrom_at (k := 0) (i := i) hd hsmall h.head_lt htake (by omega) (by omega)
    rw [Nat.zero_add, List.getElem_take] at hat
    exact hat
  · intro j hj hout
    have hne : ∀ i < (ps.take (min ps.length s.free)).length, j ≠ Circ.adv s.numSlots s.head (0 + i) := by
      intro i hi he
      rw [Nat.zero_add] at he
      exact hout (Circ.mem_span.mpr ⟨i, by omega, he.symm⟩)
    obtain ⟨h1, h2, _⟩ := fillFrom_other hd h.head_lt hj htake hne
    exact ⟨h1, h2⟩

/-- However a list of packets is cut into chunks and however each chunk is pushed, the calls return, and the packets
accepted and the ring left are those of single sends of the whole list. -/
theorem grouping_does_not_show (s : RingMem) (h : s.Valid) (hsmall : s.nrBufSize ≤ 65535) (hd : s.DistinctBufs)
    (ps : List Bytes) (hfit : ∀ p ∈ ps, p.length ≤ s.nrBufSize) :
    ∃ accepted s', sendEach s ps = .ok (accepted, s') ∧ Pushed s ps accepted s' ∧
      ∀ chunks : List (PushMode × List Bytes), chunks.flatMap Prod.snd = ps → pushChunks s chunks = .ok (accepted, s') := by
  refine ⟨_, _, sendEach_eq h hfit, pushed_load h hsmall hd hfit, ?_⟩
  rintro chunks rfl
  exact pushChunks_eq h hfit

/-- `grouping_does_not_show` at three packets in a ring with two free slots, cut into a batch of two and a single send. -/
theorem grouping_does_not_show_two_of_three :
    ∃ s', sendEach (fresh 3 64 2 1) [[1], [2, 3], [4]] = .ok (2, s') ∧
      pushChunks (fresh 3 64 2 1) [(.batch, [[1], [2, 3]]), (.each, [[4]])] = .ok (2, s') := by
  have hv : (fresh 3 64 2 1).Valid := fresh_valid (by decide) (by decide) (by decide)
  obtain ⟨accepted, s', hone, hp, hall⟩ := grouping_does_not_show (fresh 3 64 2 1) hv (by decide) (fresh_distinct 3 64 2 1)
    [[1], [2, 3], [4]] (by decide)
  have htwo : accepted = 2 := hp.accepted_eq
  subst htwo
  exact ⟨s', hone, hall [(.batch, [[1], [2, 3]]), (.each, [[4]])] rfl⟩

end NetHelper
