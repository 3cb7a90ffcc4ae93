import NetHelper.Lemmas.Tx
import NetHelper.TxSystem

/-!
# The TX ring protocol

Whole runs of a TX ring whose user finishes each reservation before the next operation: the kernel never finds an index it
rejects, and the packets it takes are the packets accepted, in order. The invariant (`TxSys.Serial`) places `head` between
the kernel's head and `tail`, and says of the one reservation that can be open which packets its slots hold; one step keeps
it and is a step of the queue (`Serial.step`), and so is a whole run (`tx_protocol`).
-/

namespace NetHelper

open RingMem

/-- The steps of a user who finishes each reservation before the next operation, asks for packets no larger than a buffer,
and commits packets it has filled. -/
def TxEvent.Disciplined (s : TxSys) : TxEvent → Prop
  | .send .. => s.held = []
  | .reserveAll .. => s.held = []
  | .reserveBatch .. => False
  | .packet _ _ bytes _ => bytes.length ≤ s.ring.nrBufSize
  | .commit h written => written ≤ h.res.count ∧ ∀ i < written, (h.filled i).isSome
  | .drop _ => True
  | .sync .. => s.held = []

/-- A step of a disciplined user, or of the kernel. -/
def DisciplinedStep (s : TxSys) (e : TxEvent) (s' : TxSys) : Prop := e.Disciplined s ∧ TxStep s e s'

namespace TxSys

/-- The states a run may start from: nothing published, nothing reserved. -/
structure Start (s : TxSys) : Prop where
  pos : 1 ≤ s.ring.numSlots
  le : s.ring.numSlots ≤ 2 ^ 31
  small : s.ring.nrBufSize ≤ 65535
  distinct : s.ring.DistinctBufs
  head_lt : s.ring.head < s.ring.numSlots
  cur_eq : s.ring.cur = s.ring.head
  tail_lt : s.ring.tail < s.ring.numSlots
  khead_eq : s.khead = s.ring.head
  held_eq : s.held = []

/-- Every call the user may make returns: no arithmetic of it overflows. -/
structure CallsReturn (s : TxSys) : Prop where
  send : ∀ buf, ∃ r, TxRing.send s.ring buf = .ok r
  reserveAll : ∃ r, TxRing.reserveAll s.ring = .ok r
  packet : ∀ h ∈ s.held, ∀ index len, ∃ r, h.res.packet s.ring index len = .ok r
  commit : ∀ h ∈ s.held, ∀ written, ∃ r, h.res.commit s.ring written = .ok r

end TxSys

/-- What is known of an open reservation: it covers the whole window, and the packets stored are in its slots. -/
structure Held.Faithful (h : Held) (ring : RingMem) : Prop where
  res_eq : h.res = { start := ring.head, count := ring.free }
  stored : ∀ i p, h.filled i = some p →
    i < ring.free ∧ p.length ≤ ring.nrBufSize ∧ ring.packetAt (Circ.adv ring.numSlots ring.head i) = p

namespace TxSys

/-- The invariant of the protocol. -/
structure Serial (s : TxSys) : Prop where
  valid : s.ring.Valid
  small : s.ring.nrBufSize ≤ 65535
  distinct : s.ring.DistinctBufs
  khead_lt : s.khead < s.ring.numSlots
  between : Circ.Between s.ring.numSlots s.khead s.ring.head s.ring.tail
  fits : ∀ i ∈ s.published, (s.ring.slot i).len ≤ s.ring.nrBufSize
  alone : s.held = [] ∨ ∃ h, s.held = [h] ∧ h.Faithful s.ring

namespace Serial

variable {s s' : TxSys} {e : TxEvent}

/-! ## The packets in flight -/

/-- The slots published are slots of the ring. -/
theorem published_lt (hs : s.Serial) : ∀ i ∈ s.published, i < s.ring.numSlots := by
  intro i hi
  exact ((Circ.mem_window_iff hs.khead_lt).mp hi).1

/-- A slot of the window is not published. -/
theorem not_published (hs : s.Serial) {k : Nat} (hk : k < s.ring.free) :
    Circ.adv s.ring.numSlots s.ring.head k ∉ s.published :=
  Circ.adv_not_mem_window hs.khead_lt hs.valid.head_lt hs.valid.tail_lt hs.between hk

/-- A packet put into a slot of the window changes nothing in flight. -/
theorem packetAt_fill (hs : s.Serial) {k : Nat} {bytes : Bytes} (hk : k < s.ring.free)
    (hb : bytes.length ≤ s.ring.nrBufSize) :
    ∀ i ∈ s.published, (s.ring.fill (Circ.adv s.ring.numSlots s.ring.head k) bytes).packetAt i = s.ring.packetAt i := by
  intro i hi
  have hne : i ≠ Circ.adv s.ring.numSlots s.ring.head k := fun he => hs.not_published hk (he ▸ hi)
  exact packetAt_fill_of_ne hs.distinct (Circ.adv_lt hs.valid.numSlots_pos) (hs.published_lt i hi) hne hb (hs.fits i hi)

/-- Moving `head` over `k` slots of the window publishes them, after what was published. -/
theorem published_advance (hs : s.Serial) {k : Nat} (hk : k ≤ s.ring.free) :
    Circ.window s.ring.numSlots s.khead (Circ.adv s.ring.numSlots s.ring.head k) =
      s.published ++ Circ.span s.ring.numSlots s.ring.head k :=
  Circ.window_grow hs.khead_lt hs.valid.head_lt hs.valid.tail_lt hs.between hk

/-- Moving `head` over `k` slots of the window keeps it between the kernel's head and `tail`. -/
theorem between_advance (hs : s.Serial) {k : Nat} (hk : k ≤ s.ring.free) :
    Circ.Between s.ring.numSlots s.khead (Circ.adv s.ring.numSlots s.ring.head k) s.ring.tail :=
  Circ.between_adv hs.khead_lt hs.valid.head_lt hs.valid.tail_lt hs.between hk

/-! ## What each step does -/

/-- Publishing `k` filled slots of the window keeps the invariant, with no reservation open, and puts their packets in the
queue. -/
theorem publish (hs : s.Serial) {k : Nat} (hk : k ≤ s.ring.free)
    (hfit : ∀ i < k, (s.ring.slot (Circ.adv s.ring.numSlots s.ring.head i)).len ≤ s.ring.nrBufSize) :
    Serial { s with ring := s.ring.advance k, held := [] } ∧
      TxSys.inFlight { s with ring := s.ring.advance k, held := [] } =
        s.inFlight ++ (Circ.span s.ring.numSlots s.ring.head k).map s.ring.packetAt := by
  refine ⟨⟨hs.valid.advance, hs.small, hs.distinct, hs.khead_lt, hs.between_advance hk, ?_, Or.inl rfl⟩, ?_⟩
  · intro i hi
    rw [TxSys.published, advance_numSlots, advance_head, hs.published_advance hk] at hi
    rcases List.mem_append.mp hi with hi | hi
    · exact hs.fits i hi
    · obtain ⟨j, hj, rfl⟩ := Circ.mem_span.mp hi
      exact hfit j hj
  · rw [TxSys.inFlight, TxSys.published, advance_numSlots, advance_head, hs.published_advance hk, List.map_append]
    rfl

/-- A packet put into a slot of the window keeps what the invariant says of the ring, and changes nothing in flight. -/
theorem fill (hs : s.Serial) {k : Nat} {bytes : Bytes} (hk : k < s.ring.free) (hb : bytes.length ≤ s.ring.nrBufSize) :
    Serial { s with ring := s.ring.fill (Circ.adv s.ring.numSlots s.ring.head k) bytes, held := [] } ∧
      TxSys.inFlight { s with ring := s.ring.fill (Circ.adv s.ring.numSlots s.ring.head k) bytes, held := [] } =
        s.inFlight := by
  refine ⟨⟨hs.valid.fill, hs.small, hs.distinct.fill, hs.khead_lt, hs.between, ?_, Or.inl rfl⟩, ?_⟩
  · intro i hi
    have hne : i ≠ Circ.adv s.ring.numSlots s.ring.head k := fun he => hs.not_published hk (he ▸ hi)
    rw [fill_slot_of_ne hne]
    exact hs.fits i hi
  · exact List.map_congr_left (hs.packetAt_fill hk hb)

/-- What an open reservation knows stays true when its holder stores another packet. -/
theorem faithful_fill (hs : s.Serial) {h : Held} (hf : h.Faithful s.ring) {k : Nat} {bytes : Bytes}
    (hk : k < s.ring.free) (hb : bytes.length ≤ s.ring.nrBufSize) :
    (h.store k bytes).Faithful (s.ring.fill (Circ.adv s.ring.numSlots s.ring.head k) bytes) := by
  have hsmall := hs.small
  have hlt := hs.valid.free_lt
  refine ⟨hf.res_eq, ?_⟩
  intro i p hp
  by_cases hik : i = k
  · subst hik
    simp only [Held.store, Function.update_self, Option.some.injEq] at hp
    subst hp
    exact ⟨hk, hb, packetAt_fill_self (by omega)⟩
  · simp only [Held.store, ne_eq, hik, not_false_eq_true, Function.update_of_ne] at hp
    obtain ⟨hi, hl, hpk⟩ := hf.stored i p hp
    have hne : Circ.adv s.ring.numSlots s.ring.head i ≠ Circ.adv s.ring.numSlots s.ring.head k :=
      fun he => hik (Circ.adv_inj hs.valid.head_lt (by omega) (by omega) he)
    refine ⟨hi, hl, ?_⟩
    rw [fill_numSlots, fill_head]
    rw [packetAt_fill_of_ne hs.distinct (Circ.adv_lt hs.valid.numSlots_pos) (Circ.adv_lt hs.valid.numSlots_pos) hne hb ?_]
    · exact hpk
    · rw [← length_packetAt, hpk]
      exact hl

/-- The packets in the first `k` slots of a reservation are the packets its holder stored, when all of them are filled. -/
theorem packets_eq {ring : RingMem} {h : Held} (hf : h.Faithful ring) {k : Nat}
    (hfill : ∀ i < k, (h.filled i).isSome) :
    (Circ.span ring.numSlots ring.head k).map ring.packetAt = h.packets k := by
  simp only [Circ.span, Held.packets, List.map_map]
  apply List.map_congr_left
  intro i hi
  obtain ⟨p, hp⟩ := Option.isSome_iff_exists.mp (hfill i (List.mem_range.mp hi))
  simp [hp, (hf.stored i p hp).2.2]

/-- A held reservation of a disciplined user is the only one. -/
theorem held_eq (hs : s.Serial) {l r : List Held} {h : Held} (hh : s.held = l ++ h :: r) :
    l = [] ∧ r = [] ∧ h.Faithful s.ring := by
  rcases hs.alone with h0 | ⟨h', h1, hf⟩
  · rw [h0] at hh
    simp at hh
  · rw [h1] at hh
    cases l with
    | nil =>
      simp only [List.nil_append, List.cons.injEq] at hh
      obtain ⟨rfl, hr⟩ := hh
      exact ⟨rfl, hr.symm, hf⟩
    | cons a l => simp at hh

/-- The reservation of a disciplined user names slots of the ring. -/
theorem res_fits (hs : s.Serial) {h : Held} (hf : h.Faithful s.ring) : h.res.Fits s.ring := by
  rw [hf.res_eq]
  exact ⟨hs.valid.head_lt, Nat.le_of_lt hs.valid.free_lt⟩

/-- Giving a reservation back leaves none open. -/
theorem release (hs : s.Serial) : Serial { s with held := [] } :=
  ⟨hs.valid, hs.small, hs.distinct, hs.khead_lt, hs.between, hs.fits, Or.inl rfl⟩

/-- A TX sync keeps the invariant: the kernel's head is now `ring.head`, and nothing is in flight. -/
theorem sync (hs : s.Serial) (hheld : s.held = []) (freed : Nat) :
    Serial { s with ring := s.ring.txSync freed, khead := s.ring.head } := by
  have hn := hs.valid.numSlots_pos
  refine ⟨⟨hs.valid.pos, hs.valid.le, hs.valid.head_lt, hs.valid.cur_eq, Circ.adv_lt hn⟩, hs.small, hs.distinct,
    hs.valid.head_lt, Circ.between_refl hs.valid.head_lt, ?_, Or.inl hheld⟩
  intro i hi
  simp only [TxSys.published, txSync, Circ.window_self hs.valid.head_lt] at hi
  exact absurd hi List.not_mem_nil

/-! ## One step, and a run -/

/-- A send keeps the invariant, and the packet of one that succeeds joins the queue. -/
theorem step_send (hs : s.Serial) (hheld : s.held = []) {buf : Bytes} {res : Except Error Unit} {ring' : RingMem}
    (hc : TxRing.send s.ring buf = .ok (res, ring')) :
    Serial { s with ring := ring' } ∧
      Fifo.Step s.inFlight (TxEvent.send buf res).act (TxSys.inFlight { s with ring := ring' }) := by
  rcases TxRing.send_cases hs.valid hc with ⟨err, rfl, rfl⟩ | ⟨rfl, hb, hf, rfl⟩
  · exact ⟨hs, Fifo.Step.idle _⟩
  · have hsmall := hs.small
    have h0 : Circ.adv s.ring.numSlots s.ring.head 0 = s.ring.head := Circ.adv_zero hs.valid.head_lt
    obtain ⟨hs1, hq1⟩ := hs.fill hf hb
    rw [h0] at hs1 hq1
    have hlen : ∀ i < 1, ((s.ring.fill s.ring.head buf).slot (Circ.adv s.ring.numSlots s.ring.head i)).len ≤
        s.ring.nrBufSize := by
      intro i hi
      have hi0 : i = 0 := by omega
      rw [hi0, h0, fill_slot_self, Checked.cast_of_lt (by omega)]
      exact hb
    obtain ⟨hs2, hq2⟩ := hs1.publish (k := 1) hf hlen
    have hspan : (Circ.span s.ring.numSlots s.ring.head 1).map (s.ring.fill s.ring.head buf).packetAt = [buf] := by
      simp [Circ.span, h0, packetAt_fill_self (show buf.length < 2 ^ 16 by omega)]
    rw [hheld]
    refine ⟨hs2, ?_⟩
    rw [hq2, hq1]
    change Fifo.Step _ _ (s.inFlight ++ (Circ.span s.ring.numSlots s.ring.head 1).map _)
    rw [hspan]
    exact Fifo.Step.put _ _

/-- Reserving the whole window opens a reservation in whose slots nothing is stored yet. -/
theorem step_reserveAll (hs : s.Serial) (hheld : s.held = []) {res : Except Error (BatchReservation × Nat)}
    (hc : TxRing.reserveAll s.ring = .ok res) :
    (s.grant (res.map Prod.fst)).Serial ∧
      Fifo.Step s.inFlight (TxEvent.reserveAll res).act (s.grant (res.map Prod.fst)).inFlight := by
  rcases TxRing.reserveAll_cases hs.valid hc with ⟨_, rfl⟩ | ⟨hf, rfl⟩
  · exact ⟨hs, Fifo.Step.idle _⟩
  · have hopen : Held.Faithful { res := { start := s.ring.head, count := s.ring.free }, filled := fun _ => none } s.ring :=
      ⟨rfl, fun i p hp => by nomatch hp⟩
    refine ⟨⟨hs.valid, hs.small, hs.distinct, hs.khead_lt, hs.between, hs.fits, Or.inr ⟨_, ?_, hopen⟩⟩,
      Fifo.Step.idle _⟩
    simp [TxSys.grant, Except.map, hheld]

/-- A packet stored through the open reservation stays known to it, and nothing in flight changes. -/
theorem step_packet (hs : s.Serial) {h : Held} (hf : h.Faithful s.ring) {index : Nat} {bytes : Bytes} {sl : Slice}
    {ring' : RingMem} (hb : bytes.length ≤ s.ring.nrBufSize)
    (hc : h.res.packet s.ring index bytes.length = .ok (.ok sl, ring')) :
    Serial { s with ring := ring'.store sl.addr bytes, held := [h.store index bytes] } ∧
      Fifo.Step s.inFlight (.put [])
        (TxSys.inFlight { s with ring := ring'.store sl.addr bytes, held := [h.store index bytes] }) := by
  rcases BatchReservation.packet_store (hs.res_fits hf) hs.valid.le hc with ⟨_, he, _⟩ | ⟨hi, sl', hsl, _, _, hst⟩
  · nomatch he
  · cases hsl
    rw [hst]
    rw [hf.res_eq] at hi ⊢
    obtain ⟨hs1, hq1⟩ := hs.fill hi hb
    have hq : TxSys.inFlight { s with
        ring := s.ring.fill (Circ.adv s.ring.numSlots s.ring.head index) bytes, held := [h.store index bytes] } =
          s.inFlight := hq1
    refine ⟨⟨hs1.valid, hs1.small, hs1.distinct, hs1.khead_lt, hs1.between, hs1.fits, Or.inr ⟨_, rfl, ?_⟩⟩, ?_⟩
    · exact hs.faithful_fill hf hi hb
    · rw [hq]
      exact Fifo.Step.idle _

/-- Committing the first `written` packets of the open reservation, all filled, closes it and puts them in the queue. -/
theorem step_commit (hs : s.Serial) {h : Held} (hf : h.Faithful s.ring) {written : Nat} {ring' : RingMem}
    (hw : written ≤ h.res.count) (hfill : ∀ i < written, (h.filled i).isSome)
    (hc : h.res.commit s.ring written = .ok ring') :
    Serial { s with ring := ring', held := [] } ∧
      Fifo.Step s.inFlight (TxEvent.commit h written).act (TxSys.inFlight { s with ring := ring', held := [] }) := by
  have hcount : h.res.count = s.ring.free := by rw [hf.res_eq]
  have hstart : h.res.start = s.ring.head := by rw [hf.res_eq]
  rw [BatchReservation.commit_eq (hs.res_fits hf) hs.valid.le, Nat.min_eq_left hw] at hc
  simp only [TxEvent.act, Nat.min_eq_left hw]
  split at hc
  · rename_i h0
    cases hc
    rw [h0]
    exact ⟨hs.release, Fifo.Step.idle _⟩
  · have hring : ring' = s.ring.advance written := by
      cases hc
      rw [hstart]
      rfl
    have hfit : ∀ i < written,
        (s.ring.slot (Circ.adv s.ring.numSlots s.ring.head i)).len ≤ s.ring.nrBufSize := by
      intro i hi
      obtain ⟨p, hp⟩ := Option.isSome_iff_exists.mp (hfill i hi)
      obtain ⟨_, hl, hpk⟩ := hf.stored i p hp
      rw [← length_packetAt, hpk]
      exact hl
    obtain ⟨hs1, hq1⟩ := hs.publish (hcount ▸ hw) hfit
    rw [packets_eq hf hfill] at hq1
    rw [hring, hq1]
    exact ⟨hs1, Fifo.Step.put _ _⟩

/-- What the kernel takes at a TX sync is everything in flight. -/
theorem step_sync (hs : s.Serial) (hheld : s.held = []) (freed : Nat) :
    Serial { s with ring := s.ring.txSync freed, khead := s.ring.head } ∧
      Fifo.Step s.inFlight (.take s.inFlight)
        (TxSys.inFlight { s with ring := s.ring.txSync freed, khead := s.ring.head }) := by
  refine ⟨hs.sync hheld freed, ?_⟩
  have hnone : TxSys.inFlight { s with ring := s.ring.txSync freed, khead := s.ring.head } = [] := by
    simp [TxSys.inFlight, TxSys.published, txSync, Circ.window_self hs.valid.head_lt]
  have htake := Fifo.Step.take s.inFlight []
  rw [hnone]
  rwa [List.append_nil] at htake

/-- One step keeps the invariant and is a step of the queue of packets in flight. -/
theorem step (hs : s.Serial) (h : DisciplinedStep s e s') : s'.Serial ∧ Fifo.Step s.inFlight e.act s'.inFlight := by
  obtain ⟨hd, ht⟩ := h
  cases ht with
  | send hc => exact hs.step_send hd hc
  | reserveAll hc => exact hs.step_reserveAll hd hc
  | reserveBatch => exact absurd hd id
  | packet hh hc =>
    obtain ⟨rfl, rfl, hf⟩ := hs.held_eq hh
    exact hs.step_packet hf hd hc
  | packetErr hh hc =>
    obtain ⟨rfl, rfl, hf⟩ := hs.held_eq hh
    rcases BatchReservation.packet_store (hs.res_fits hf) hs.valid.le hc with ⟨_, _, rfl⟩ | ⟨_, sl', hsl, _⟩
    · exact ⟨hs, Fifo.Step.idle _⟩
    · nomatch hsl
  | commit hh hc =>
    obtain ⟨rfl, rfl, hf⟩ := hs.held_eq hh
    exact hs.step_commit hf hd.1 hd.2 hc
  | drop hh =>
    obtain ⟨rfl, rfl, _⟩ := hs.held_eq hh
    exact ⟨hs.release, Fifo.Step.idle _⟩
  | sync _ => exact hs.step_sync hd _

end Serial

/-- The states a run may start from satisfy the invariant, with nothing in flight. -/
theorem Start.serial {s : TxSys} (h : s.Start) : s.Serial ∧ s.inFlight = [] := by
  have hself : Circ.window s.ring.numSlots s.khead s.ring.head = [] := by
    rw [h.khead_eq]
    exact Circ.window_self h.head_lt
  refine ⟨⟨⟨h.pos, h.le, h.head_lt, h.cur_eq, h.tail_lt⟩, h.small, h.distinct, h.khead_eq ▸ h.head_lt, ?_, ?_,
    Or.inl h.held_eq⟩, ?_⟩
  · rw [h.khead_eq]
    exact Circ.between_refl h.head_lt
  · intro i hi
    rw [TxSys.published, hself] at hi
    exact absurd hi List.not_mem_nil
  · rw [TxSys.inFlight, TxSys.published, hself, List.map_nil]

/-- A fresh ring is one that a run may start from. -/
theorem start_fresh {n size head tail : Nat} (h : n ≤ 2 ^ 31 ∧ size ≤ 65535 ∧ head < n ∧ tail < n) :
    Start { ring := fresh n size head tail, khead := head, held := [] } :=
  ⟨Nat.lt_of_le_of_lt (Nat.zero_le _) h.2.2.1, h.1, h.2.1, fresh_distinct n size head tail, h.2.2.1, rfl, h.2.2.2, rfl, rfl⟩

/-- In a state of the invariant every call returns. -/
theorem Serial.callsReturn {s : TxSys} (hs : s.Serial) : s.CallsReturn := by
  have hres : ∀ h ∈ s.held, h.Faithful s.ring := by
    intro h hh
    rcases hs.alone with h0 | ⟨h', h1, hf⟩
    · rw [h0] at hh
      nomatch hh
    · rw [h1, List.mem_singleton] at hh
      subst hh
      exact hf
  refine ⟨?_, ?_, ?_, ?_⟩
  · intro buf
    exact ⟨_, TxRing.send_eq hs.valid⟩
  · exact ⟨_, TxRing.reserveAll_eq hs.valid⟩
  · intro h hh index len
    exact ⟨_, BatchReservation.packet_eq (hs.res_fits (hres h hh)) hs.valid.le index len⟩
  · intro h hh written
    exact ⟨_, BatchReservation.commit_eq (hs.res_fits (hres h hh)) hs.valid.le written⟩

end TxSys

/-- The TX ring protocol, over every run of a disciplined user and the kernel: `head` and `cur` are one slot of the ring,
`head` lies in the circular interval from the kernel's head to `tail`, every call returns, and the packets the kernel has
taken, followed by those in flight, are the packets accepted, in order. -/
theorem tx_protocol {s₀ s : TxSys} {es : List TxEvent} (h0 : s₀.Start) (hr : Lts.Run DisciplinedStep s₀ es s) :
    s.ring.head = s.ring.cur ∧ s.ring.head < s.ring.numSlots ∧
      Circ.Between s.ring.numSlots s.khead s.ring.head s.ring.tail ∧ s.CallsReturn ∧
      TxEvent.consumed es ++ s.inFlight = TxEvent.accepted es := by
  obtain ⟨hs0, hq0⟩ := h0.serial
  have hI : ∀ t e t', TxSys.Serial t → DisciplinedStep t e t' → TxSys.Serial t' := fun _ _ _ hs h => (hs.step h).1
  have hs : s.Serial := hr.invariant hI hs0
  have hq := hr.simulation TxSys.inFlight TxEvent.act hI (fun _ _ _ hs h => (hs.step h).2) hs0
  have hcons := Fifo.conservation hq
  rw [hq0, List.nil_append] at hcons
  exact ⟨hs.valid.cur_eq.symm, hs.valid.head_lt, hs.between, hs.callsReturn, hcons⟩

/-- `tx_protocol` at the run that sends one packet and lets the kernel take it. -/
theorem tx_protocol_send_sync :
    ∃ es s, Lts.Run DisciplinedStep { ring := fresh 4 64 0 2, khead := 0, held := [] } es s ∧
      TxEvent.accepted es = [[7]] ∧ TxEvent.consumed es ++ s.inFlight = TxEvent.accepted es := by
  have hv : (fresh 4 64 0 2).Valid := fresh_valid (by decide) (by decide) (by decide)
  have h0 : TxSys.Start { ring := fresh 4 64 0 2, khead := 0, held := [] } :=
    ⟨by decide, by decide, by decide, fresh_distinct 4 64 0 2, by decide, rfl, by decide, rfl, rfl⟩
  have h1 : DisciplinedStep { ring := fresh 4 64 0 2, khead := 0, held := [] } (.send [7] (.ok ()))
      { ring := ((fresh 4 64 0 2).fill 0 [7]).advance 1, khead := 0, held := [] } :=
    ⟨rfl, TxStep.send (TxRing.send_ok hv (by decide) (by decide))⟩
  have h2 : DisciplinedStep { ring := ((fresh 4 64 0 2).fill 0 [7]).advance 1, khead := 0, held := [] }
      (.sync (TxSys.inFlight { ring := ((fresh 4 64 0 2).fill 0 [7]).advance 1, khead := 0, held := [] }) 1) _ :=
    ⟨rfl, TxStep.sync (by decide)⟩
  have hr := Lts.Run.snoc (Lts.Run.single h1) h2
  exact ⟨_, _, hr, rfl, (tx_protocol h0 hr).2.2.2.2⟩

end NetHelper
