import NetHelper.Lemmas.Tx
import NetHelper.TokioAsync
import NetHelper.TxSystem

/-!
# Asynchronous sending

`poll_write` takes a ring for full when one slot of the window is left, and for not full when none is, where `send` takes it
for full when none is left. The two agree when at least two slots are free, when the ring has a single slot, and on packets
that are too long (`poll_write_agrees_iff`). A user who writes only then keeps to the window in every run, and no slot of the
window is lost, unless the ring has two slots: there the one slot that may be free is never written.
-/

namespace NetHelper

open Checked RingMem

/-- Nothing acts on the ring or the descriptor during a pass of `poll_write`. -/
structure WriteEnv.Quiet (env : WriteEnv) : Prop where
  beforePoll : ∀ w, env.beforePoll w = w
  beforeClear : ∀ w, env.beforeClear w = w
  beforeNext : ∀ w, env.beforeNext w = w

/-- What a call of `poll_write` that returns `r` is to have done: a packet that fits is written exactly when `send` sends
it, and then as `send` does; a packet is written into a slot of the window, and `head` does not pass `tail`; on a ring that
is full for `send` nothing is touched. -/
structure WritesAsSend (w : World) (buf : Bytes) (r : Poll (Except IoError Nat)) (w' : World) : Prop where
  wrote : buf.length ≤ w.ring.nrBufSize →
    ((∃ k, r = .ready (.ok k)) ↔ ∃ s', TxRing.send w.ring buf = .ok (.ok (), s'))
  alike : ∀ k s', r = .ready (.ok k) → TxRing.send w.ring buf = .ok (.ok (), s') →
    k = buf.length ∧ w'.ring.head = s'.head ∧ w'.ring.cur = s'.cur ∧ w'.ring.tail = s'.tail ∧
      (∀ i, (w'.ring.slot i).len = (s'.slot i).len) ∧ w'.ring.mem = s'.mem
  inside : ∀ k, r = .ready (.ok k) → ∃ i ∈ w.ring.owned,
    w'.ring = ((w.ring.fill i buf).setFlags i 0).moveHead w'.ring.head ∧
      Circ.Between w.ring.numSlots w.ring.head w'.ring.head w.ring.tail
  full : ∀ s', TxRing.send w.ring buf = .ok (.error .insufficientSpace, s') → w'.ring = w.ring

/-- A call of `poll_write` during which nothing else acts returns, in two passes at most, and does what it is to do. -/
def PollAgrees (w : World) (buf : Bytes) : Prop :=
  ∀ envs : List WriteEnv, (∀ env ∈ envs, env.Quiet) → 2 ≤ envs.length →
    ∃ r w', AsyncNetmapTxRing.pollWrite envs w buf = .ok (some r, w') ∧ WritesAsSend w buf r w'

/-- The states in which `poll_write` and `send` take the ring for full or not alike, and the packets that are too long for
both. -/
def RingMem.PollsLikeSend (s : RingMem) (buf : Bytes) : Prop :=
  s.nrBufSize < buf.length ∨ s.numSlots = 1 ∨ (s.head ≠ s.tail ∧ (s.head + 1) % s.numSlots ≠ s.tail)

instance (s : RingMem) (buf : Bytes) : Decidable (s.PollsLikeSend buf) := by
  unfold RingMem.PollsLikeSend
  infer_instance

/-! ## A TX ring that is written asynchronously -/

/-- A TX ring with its descriptor, and the head the kernel saw last. -/
structure AsyncTx where
  world : World
  khead : Nat

/-- The steps of a TX ring that is written asynchronously. -/
inductive AsyncTxEvent where
  | pollWrite (buf : Bytes) (r : Poll (Except IoError Nat))
  | pollFlush (r : Except IoError Unit)
  | sync (freed : Nat)

/-- The steps: a packet is written, during which nothing else acts; the ring is flushed, by an ioctl that is a kernel TX
sync when it succeeds; the kernel syncs it on its own. The readiness may change at a sync. -/
inductive AsyncTxStep : AsyncTx → AsyncTxEvent → AsyncTx → Prop where
  | pollWrite {s : AsyncTx} {envs : List WriteEnv} {buf : Bytes} {r : Poll (Except IoError Nat)} {w' : World}
      (hb : buf ≠ []) (hq : ∀ env ∈ envs, env.Quiet) (hl : 2 ≤ envs.length)
      (hc : AsyncNetmapTxRing.pollWrite envs s.world buf = .ok (some r, w')) :
      AsyncTxStep s (.pollWrite buf r) { s with world := w' }
  | pollFlush {s : AsyncTx} {ioctl : World → Except Int World} {w' : World} {freed : Nat}
      (hroom : s.world.ring.free + freed < s.world.ring.numSlots)
      (hk : ∀ w, ioctl s.world = .ok w → w.ring = s.world.ring.txSync freed)
      (hc : AsyncNetmapTxRing.pollFlush ioctl s.world = (.ready (.ok ()), w')) :
      AsyncTxStep s (.pollFlush (.ok ())) { world := w', khead := s.world.ring.head }
  | pollFlushErr {s : AsyncTx} {ioctl : World → Except Int World} {e : IoError} {w' : World}
      (hc : AsyncNetmapTxRing.pollFlush ioctl s.world = (.ready (.error e), w')) :
      AsyncTxStep s (.pollFlush (.error e)) { s with world := w' }
  | sync {s : AsyncTx} {w' : World} {freed : Nat} (hroom : s.world.ring.free + freed < s.world.ring.numSlots)
      (hk : w'.ring = s.world.ring.txSync freed) : AsyncTxStep s (.sync freed) { world := w', khead := s.world.ring.head }

/-- A packet is written only when `poll_write` and `send` agree. -/
def AsyncTxEvent.Agreed (s : AsyncTx) : AsyncTxEvent → Prop
  | .pollWrite buf _ => s.world.ring.PollsLikeSend buf
  | .pollFlush _ => True
  | .sync _ => True

/-- A step of a user who writes only then, or of the kernel. -/
def AgreedStep (s : AsyncTx) (e : AsyncTxEvent) (s' : AsyncTx) : Prop := e.Agreed s ∧ AsyncTxStep s e s'

/-- The slot `i` can still be used: further steps lead to a state in which it is at `head` and the application owns it, and the
packet is written into it and published. -/
def CanWrite (step : AsyncTx → AsyncTxEvent → AsyncTx → Prop) (s : AsyncTx) (i : Nat) (buf : Bytes) : Prop :=
  ∃ es t t', Lts.Run step s es t ∧ t.world.ring.head = i ∧ i ∈ t.world.ring.owned ∧
    step t (.pollWrite buf (.ready (.ok buf.length))) t' ∧
    t'.world.ring = ((t.world.ring.fill i buf).setFlags i 0).advance 1

/-- The states a run may start from and stays in: a well-formed ring with `head` between the kernel's head and `tail`. -/
structure AsyncTx.Placed (s : AsyncTx) : Prop where
  valid : s.world.ring.Valid
  khead_lt : s.khead < s.world.ring.numSlots
  between : Circ.Between s.world.ring.numSlots s.khead s.world.ring.head s.world.ring.tail

namespace RingMem

section Fields

variable (s : RingMem) (i flags : Nat)

@[simp] theorem setFlags_numSlots : (s.setFlags i flags).numSlots = s.numSlots := rfl
@[simp] theorem setFlags_head : (s.setFlags i flags).head = s.head := rfl
@[simp] theorem setFlags_tail : (s.setFlags i flags).tail = s.tail := rfl
@[simp] theorem setFlags_mem : (s.setFlags i flags).mem = s.mem := rfl

/-- Flags are no length. -/
@[simp] theorem setFlags_len (j : Nat) : ((s.setFlags i flags).slot j).len = (s.slot j).len := by
  by_cases h : j = i
  · subst h
    simp [setFlags]
  · simp [setFlags, h]

/-- Flags are no buffer. -/
@[simp] theorem setFlags_bufIdx (j : Nat) : ((s.setFlags i flags).slot j).bufIdx = (s.slot j).bufIdx := by
  by_cases h : j = i
  · subst h
    simp [setFlags]
  · simp [setFlags, h]

end Fields

theorem sameBufs_setFlags {s : RingMem} {i flags : Nat} : SameBufs s (s.setFlags i flags) :=
  ⟨rfl, rfl, rfl, rfl, setFlags_bufIdx s i flags⟩

theorem setFlags_slot_of_ne {s : RingMem} {i j flags : Nat} (h : j ≠ i) : (s.setFlags i flags).slot j = s.slot j := by
  simp [setFlags, h]

theorem Valid.setFlags {s : RingMem} {i flags : Nat} (h : s.Valid) : (s.setFlags i flags).Valid :=
  ⟨h.pos, h.le, h.head_lt, h.cur_eq, h.tail_lt⟩

end RingMem

namespace AsyncWriteAux

variable {w w' : World} {buf : Bytes} {env : WriteEnv} {envs : List WriteEnv}

/-- When `poll_write` takes a ring for full. -/
theorem full_iff {s : RingMem} (h : s.Valid) :
    Circ.adv s.numSlots s.head 1 = s.tail ↔ s.numSlots = 1 ∨ s.free = 1 := by
  have hpos := h.pos
  have ht := h.tail_lt
  constructor
  · intro he
    rcases Nat.eq_or_lt_of_le hpos with h1 | h1
    · exact Or.inl h1.symm
    · right
      rw [RingMem.free, ← he]
      exact Circ.dist_adv h.head_lt h1
  · rintro (h1 | h1)
    · have hlt : Circ.adv s.numSlots s.head 1 < s.numSlots := Circ.adv_lt hpos
      omega
    · rw [← h1]
      exact Circ.adv_dist h.head_lt ht

/-- The condition, by the number of free slots. -/
theorem pollsLikeSend_iff {s : RingMem} (h : s.Valid) :
    s.PollsLikeSend buf ↔ s.nrBufSize < buf.length ∨ s.numSlots = 1 ∨ 2 ≤ s.free := by
  have hfull := full_iff h
  have hzero := h.free_eq_zero
  have hlt := h.free_lt
  unfold RingMem.PollsLikeSend
  change _ ∨ _ ∨ (_ ∧ Circ.adv s.numSlots s.head 1 ≠ s.tail) ↔ _
  rw [ne_eq, ne_eq, hfull, ← hzero]
  omega

/-- A pass on a ring that is not taken for full returns: an error for a packet that is too long, and otherwise the packet is
in the slot at `head`, with no flags, and `head` is one further. -/
theorem pollWritePass_room (h : w.ring.Valid) (hb : buf ≠ [])
    (hroom : Circ.adv w.ring.numSlots w.ring.head 1 ≠ w.ring.tail) :
    AsyncNetmapTxRing.pollWritePass env w buf =
      .ok (if w.ring.nrBufSize < buf.length then (some (.ready (.error (.invalidInput (.packetTooLarge buf.length)))), w)
        else (some (.ready (.ok buf.length)),
          { w with ring := ((w.ring.fill w.ring.head buf).setFlags w.ring.head 0).advance 1 })) := by
  have hh := h.head_lt
  have hle := h.le
  unfold AsyncNetmapTxRing.pollWritePass
  dsimp only
  rw [add_of_lt (by omega), ok_bind, rem_of_pos h.numSlots_pos, ok_bind]
  have hfull : ((w.ring.head + 1) % w.ring.numSlots == w.ring.tail) = false := beq_eq_false_iff_ne.mpr hroom
  simp only [hfull, Bool.false_eq_true, hb, if_false, gt_iff_lt]
  split
  · rfl
  · rw [rem_of_pos h.numSlots_pos, ok_bind, Nat.mod_eq_of_lt hh]
    rfl

/-- A pass on a ring that is taken for full, while nothing else acts: an error, or pending, or another pass with the
readiness cleared. -/
theorem pollWritePass_full (h : w.ring.Valid) (hq : env.Quiet)
    (hfull : Circ.adv w.ring.numSlots w.ring.head 1 = w.ring.tail) :
    AsyncNetmapTxRing.pollWritePass env w buf =
      .ok (match env.pollErr with
        | some errno => (some (.ready (.error (.os errno))), w)
        | none =>
          if w.fd.writeReady then (none, { w with fd := w.fd.clearWriteReady })
          else (some .pending, { w with fd := { w.fd with writeWaker := true } })) := by
  have hh := h.head_lt
  have hle := h.le
  unfold AsyncNetmapTxRing.pollWritePass
  dsimp only
  rw [add_of_lt (by omega), ok_bind, rem_of_pos h.numSlots_pos, ok_bind]
  have hfull' : ((w.ring.head + 1) % w.ring.numSlots == w.ring.tail) = true := beq_iff_eq.mpr hfull
  simp only [hfull', if_true, hq.beforePoll]
  cases env.pollErr with
  | some errno => rfl
  | none =>
    unfold AsyncFd.pollWriteReady
    by_cases hr : w.fd.writeReady
    · simp only [hr, if_true, hq.beforeClear, hq.beforeNext]
    · simp only [hr, Bool.false_eq_true, if_false]

/-- A call on a ring that is not taken for full is one pass. -/
theorem pollWrite_room (h : w.ring.Valid) (hb : buf ≠ []) (hl : 2 ≤ envs.length)
    (hroom : Circ.adv w.ring.numSlots w.ring.head 1 ≠ w.ring.tail) :
    AsyncNetmapTxRing.pollWrite envs w buf =
      .ok (if w.ring.nrBufSize < buf.length then (some (.ready (.error (.invalidInput (.packetTooLarge buf.length)))), w)
        else (some (.ready (.ok buf.length)),
          { w with ring := ((w.ring.fill w.ring.head buf).setFlags w.ring.head 0).advance 1 })) := by
  cases envs with
  | nil => nomatch hl
  | cons env envs =>
    rw [AsyncNetmapTxRing.pollWrite, pollWritePass_room h hb hroom, ok_bind]
    by_cases hlong : w.ring.nrBufSize < buf.length
    · rw [if_pos hlong]
    · rw [if_neg hlong]

/-- A call on a ring that is taken for full, while nothing else acts, returns in two passes and touches only the descriptor:
the second pass finds the readiness cleared. -/
theorem pollWrite_full (buf : Bytes) (h : w.ring.Valid) (hq : ∀ env ∈ envs, env.Quiet) (hl : 2 ≤ envs.length)
    (hfull : Circ.adv w.ring.numSlots w.ring.head 1 = w.ring.tail) :
    ∃ r fd, AsyncNetmapTxRing.pollWrite envs w buf = .ok (some r, { w with fd := fd }) ∧ ∀ k, r ≠ .ready (.ok k) := by
  match envs, hl with
  | env₁ :: env₂ :: envs, _ =>
    have hq₁ : env₁.Quiet := hq env₁ (by simp)
    have hq₂ : env₂.Quiet := hq env₂ (by simp)
    rw [AsyncNetmapTxRing.pollWrite, pollWritePass_full h hq₁ hfull, ok_bind]
    cases env₁.pollErr with
    | some errno => exact ⟨_, _, rfl, fun k he => by nomatch he⟩
    | none =>
      by_cases hr : w.fd.writeReady
      · simp only [hr, if_true]
        have hcleared : ({ w with fd := w.fd.clearWriteReady } : World).fd.writeReady = false := rfl
        rw [AsyncNetmapTxRing.pollWrite, pollWritePass_full (w := { w with fd := w.fd.clearWriteReady }) h hq₂ hfull, ok_bind,
          hcleared]
        cases env₂.pollErr with
        | some errno => exact ⟨_, _, rfl, fun k he => by nomatch he⟩
        | none => exact ⟨_, _, rfl, fun k he => by nomatch he⟩
      · simp only [hr, Bool.false_eq_true, if_false]
        exact ⟨_, _, rfl, fun k he => by nomatch he⟩

/-! ### What a call does, by the number of free slots -/

/-- `head` is in the window when the window has a slot. -/
theorem head_mem_owned {s : RingMem} (h : s.Valid) (hf : 0 < s.free) : s.head ∈ s.owned := by
  rw [owned, Circ.mem_window_iff h.head_lt, Circ.dist_self h.head_lt]
  exact ⟨h.head_lt, hf⟩

/-- A call that touches nothing and writes nothing is right when `send` sends nothing either. -/
theorem writesAsSend_idle {r : Poll (Except IoError Nat)} {fd : AsyncFd} (hr : ∀ k, r ≠ .ready (.ok k))
    (hs : buf.length ≤ w.ring.nrBufSize → ∀ s', TxRing.send w.ring buf ≠ .ok (.ok (), s')) :
    WritesAsSend w buf r { w with fd := fd } := by
  refine ⟨?_, fun k _ he => absurd he (hr k), fun k he => absurd he (hr k), fun _ _ => rfl⟩
  intro hb
  constructor
  · rintro ⟨k, he⟩
    exact absurd he (hr k)
  · rintro ⟨s', he⟩
    exact absurd he (hs hb s')

/-- A call that writes the packet into the slot at `head` is right when the window has a slot. -/
theorem writesAsSend_written (h : w.ring.Valid) (hf : 0 < w.ring.free) (hb : buf.length ≤ w.ring.nrBufSize) :
    WritesAsSend w buf (.ready (.ok buf.length))
      { w with ring := ((w.ring.fill w.ring.head buf).setFlags w.ring.head 0).advance 1 } := by
  have hsend := TxRing.send_ok h hb hf
  refine ⟨fun _ => ⟨fun _ => ⟨_, hsend⟩, fun _ => ⟨_, rfl⟩⟩, ?_, ?_, ?_⟩
  · intro k s' hr hs
    rw [hsend] at hs
    cases hs
    cases hr
    exact ⟨rfl, rfl, rfl, rfl, fun i => setFlags_len _ _ _ i, rfl⟩
  · intro k _
    have hbetween := Circ.between_adv h.head_lt h.head_lt h.tail_lt (Circ.between_refl h.head_lt) (k := 1) hf
    exact ⟨w.ring.head, head_mem_owned h hf, rfl, by
      simpa only [advance_head, setFlags_numSlots, setFlags_head, fill_numSlots, fill_head] using hbetween⟩
  · intro s' hs
    rw [hsend] at hs
    nomatch hs

/-- `send` sends no packet on a ring that is full, and none that is too long. -/
theorem send_ne_ok (h : w.ring.Valid) (hno : w.ring.nrBufSize < buf.length ∨ w.ring.free = 0) (s' : RingMem) :
    TxRing.send w.ring buf ≠ .ok (.ok (), s') := by
  intro hs
  rcases TxRing.send_cases h hs with ⟨e, he, _⟩ | ⟨_, hb, hf, _⟩
  · nomatch he
  · omega

/-- A call is right when at least two slots are free, when the ring has a single slot, and when the packet is too long. -/
theorem pollAgrees_of (h : w.ring.Valid) (hb : buf ≠ [])
    (hc : w.ring.nrBufSize < buf.length ∨ w.ring.numSlots = 1 ∨ 2 ≤ w.ring.free) : PollAgrees w buf := by
  intro envs hq hl
  have hlt := h.free_lt
  by_cases hfull : Circ.adv w.ring.numSlots w.ring.head 1 = w.ring.tail
  · obtain ⟨r, fd, hcall, hr⟩ := pollWrite_full buf h hq hl hfull
    refine ⟨r, _, hcall, writesAsSend_idle hr ?_⟩
    intro hshort
    have hone := (full_iff h).mp hfull
    exact send_ne_ok h (by omega)
  · have hcall := pollWrite_room h hb hl hfull
    by_cases hlong : w.ring.nrBufSize < buf.length
    · rw [if_pos hlong] at hcall
      refine ⟨_, _, hcall, writesAsSend_idle (fun k he => by nomatch he) ?_⟩
      intro hshort
      omega
    · rw [if_neg hlong] at hcall
      have hone := mt (full_iff h).mpr hfull
      exact ⟨_, _, hcall, writesAsSend_written h (by omega) (by omega)⟩

/-- A pass during which nothing acts. -/
def quiet : WriteEnv := { beforePoll := id, pollErr := none, beforeClear := id, beforeNext := id }

theorem quiet_quiet : quiet.Quiet := ⟨fun _ => rfl, fun _ => rfl, fun _ => rfl⟩

/-- A call that is right finds two free slots, or a ring of one slot, or a packet that is too long. -/
theorem of_pollAgrees (h : w.ring.Valid) (hb : buf ≠ []) (ha : PollAgrees w buf) :
    w.ring.nrBufSize < buf.length ∨ w.ring.numSlots = 1 ∨ 2 ≤ w.ring.free := by
  have hq : ∀ env ∈ [quiet, quiet], env.Quiet := by simp [quiet_quiet]
  obtain ⟨r, w', hcall, hw⟩ := ha [quiet, quiet] hq (Nat.le_refl _)
  have hlt := h.free_lt
  have hfull := full_iff h
  by_contra hno
  have hshort : buf.length ≤ w.ring.nrBufSize := by omega
  by_cases hone : w.ring.free = 1
  · -- one slot is left: send sends, and poll_write takes the ring for full
    obtain ⟨r', fd, hcall', hr'⟩ := pollWrite_full buf h hq (Nat.le_refl _) (hfull.mpr (Or.inr hone))
    rw [hcall'] at hcall
    cases hcall
    obtain ⟨k, hk⟩ := (hw.wrote hshort).mpr ⟨_, TxRing.send_ok h hshort (by omega)⟩
    exact hr' k hk
  · -- no slot is left: send refuses, and poll_write writes
    have hroom := mt hfull.mp (by omega)
    rw [pollWrite_room h hb (Nat.le_refl _) hroom, if_neg (by omega)] at hcall
    cases hcall
    obtain ⟨s', hs⟩ := (hw.wrote hshort).mp ⟨_, rfl⟩
    exact send_ne_ok h (by omega) s' hs

/-! ### Steps -/

/-- A flush that succeeds is the ioctl. -/
theorem pollFlush_ok {ioctl : World → Except Int World}
    (hc : AsyncNetmapTxRing.pollFlush ioctl w = (.ready (.ok ()), w')) : ioctl w = .ok w' := by
  unfold AsyncNetmapTxRing.pollFlush at hc
  cases hi : ioctl w with
  | error errno =>
    rw [hi] at hc
    nomatch hc
  | ok w₁ =>
    rw [hi] at hc
    cases hc
    rfl

/-- A flush that fails changes nothing. -/
theorem pollFlush_error {ioctl : World → Except Int World} {e : IoError}
    (hc : AsyncNetmapTxRing.pollFlush ioctl w = (.ready (.error e), w')) : w' = w := by
  unfold AsyncNetmapTxRing.pollFlush at hc
  cases hi : ioctl w with
  | error errno =>
    rw [hi] at hc
    cases hc
    rfl
  | ok w₁ =>
    rw [hi] at hc
    nomatch hc

variable {s s' t : AsyncTx} {e : AsyncTxEvent} {i : Nat}

/-- A step by which no packet is written. -/
def Unwritten (e : AsyncTxEvent) : Prop := ∀ buf k, e ≠ .pollWrite buf (.ready (.ok k))

theorem unwritten_flush (r : Except IoError Unit) : Unwritten (.pollFlush r) := fun _ _ he => by nomatch he

theorem unwritten_sync (freed : Nat) : Unwritten (.sync freed) := fun _ _ he => by nomatch he

/-- A call has written the packet into the slot at `head` of the ring `ring`, which it did not take for full. -/
structure WroteInto (ring : RingMem) (buf : Bytes) (r : Poll (Except IoError Nat)) (ring' : RingMem) : Prop where
  room : Circ.adv ring.numSlots ring.head 1 ≠ ring.tail
  some : buf ≠ []
  fits : buf.length ≤ ring.nrBufSize
  result : r = .ready (.ok buf.length)
  ring_eq : ring' = ((ring.fill ring.head buf).setFlags ring.head 0).advance 1

/-- A packet written leaves the slots their buffers. -/
theorem WroteInto.sameBufs {ring ring' : RingMem} {r : Poll (Except IoError Nat)} (hw : WroteInto ring buf r ring') :
    SameBufs ring ring' := by
  rw [hw.ring_eq]
  exact (sameBufs_fill.trans sameBufs_setFlags).trans sameBufs_moveHead

/-- What a step can have done: nothing to the ring, or a packet is written, or the kernel has synced the ring. -/
theorem step_cases (hv : s.world.ring.Valid) (h : AsyncTxStep s e s') :
    (Unwritten e ∧ s'.world.ring = s.world.ring ∧ s'.khead = s.khead) ∨
      (∃ buf r, e = .pollWrite buf r ∧ WroteInto s.world.ring buf r s'.world.ring ∧ s'.khead = s.khead) ∨
      (∃ freed, Unwritten e ∧ s.world.ring.free + freed < s.world.ring.numSlots ∧
        s'.world.ring = s.world.ring.txSync freed ∧ s'.khead = s.world.ring.head) := by
  cases h with
  | @pollWrite envs buf r w' hb hq hl hc =>
    by_cases hfull : Circ.adv s.world.ring.numSlots s.world.ring.head 1 = s.world.ring.tail
    · obtain ⟨r', fd, hcall, hno⟩ := pollWrite_full buf hv hq hl hfull
      rw [hcall] at hc
      cases hc
      left
      exact ⟨fun _ k he => hno k (AsyncTxEvent.pollWrite.inj he).2, rfl, rfl⟩
    · rw [pollWrite_room hv hb hl hfull] at hc
      by_cases hlong : s.world.ring.nrBufSize < buf.length
      · rw [if_pos hlong] at hc
        cases hc
        left
        refine ⟨?_, rfl, rfl⟩
        intro _ _ he
        nomatch he
      · rw [if_neg hlong] at hc
        cases hc
        exact Or.inr (Or.inl ⟨buf, _, rfl, ⟨hfull, hb, by omega, rfl, rfl⟩, rfl⟩)
  | pollFlush hroom hk hc => exact Or.inr (Or.inr ⟨_, unwritten_flush _, hroom, hk _ (pollFlush_ok hc), rfl⟩)
  | pollFlushErr hc =>
    rw [pollFlush_error hc]
    exact Or.inl ⟨unwritten_flush _, rfl, rfl⟩
  | sync hroom hk => exact Or.inr (Or.inr ⟨_, unwritten_sync _, hroom, hk, rfl⟩)

/-- A step keeps `head` in its place and the buffers of the slots, and changes no slot outside the window; nor, when no two
slots have the same buffer, the bytes of one. -/
structure Keeps (s s' : AsyncTx) : Prop where
  placed : s'.Placed
  sameBufs : SameBufs s.world.ring s'.world.ring
  slot : ∀ i, i ∉ s.world.ring.owned → s'.world.ring.slot i = s.world.ring.slot i
  buffer : s.world.ring.DistinctBufs → ∀ i < s.world.ring.numSlots, i ∉ s.world.ring.owned →
    s'.world.ring.buffer i = s.world.ring.buffer i

/-- A step that leaves the ring alone. -/
theorem keeps_idle (hs : s.Placed) (hring : s'.world.ring = s.world.ring) (hkhead : s'.khead = s.khead) : Keeps s s' := by
  refine ⟨⟨?_, ?_, ?_⟩, ?_, ?_, ?_⟩
  · rw [hring]; exact hs.valid
  · rw [hring, hkhead]; exact hs.khead_lt
  · rw [hring, hkhead]; exact hs.between
  · rw [hring]; exact SameBufs.refl _
  · intro i _
    rw [hring]
  · intro _ i _ _
    rw [hring]

/-- A packet written into the slot at `head`, when the window has one. -/
theorem keeps_written (hs : s.Placed) (hf : 0 < s.world.ring.free) {r : Poll (Except IoError Nat)}
    (hw : WroteInto s.world.ring buf r s'.world.ring) (hkhead : s'.khead = s.khead) : Keeps s s' := by
  have hv := hs.valid
  have hring := hw.ring_eq
  have hbetween := Circ.between_adv hs.khead_lt hv.head_lt hv.tail_lt hs.between (k := 1) hf
  have hne : ∀ i, i ∉ s.world.ring.owned → i ≠ s.world.ring.head := fun i hi he => hi (he ▸ head_mem_owned hv hf)
  refine ⟨⟨?_, ?_, ?_⟩, hw.sameBufs, ?_, ?_⟩
  · rw [hring]
    exact hv.fill.setFlags.advance
  · rw [hw.sameBufs.numSlots, hkhead]
    exact hs.khead_lt
  · rw [hring, hkhead]
    simpa only [advance_numSlots, advance_head, advance_tail, setFlags_numSlots, setFlags_head, setFlags_tail, fill_numSlots,
      fill_head, fill_tail] using hbetween
  · intro i hi
    rw [hring, advance_slot, setFlags_slot_of_ne (hne i hi), fill_slot_of_ne (hne i hi)]
  · intro hd i hlt hi
    have hfill := buffer_fill_of_ne hd hv.head_lt hlt (hne i hi) hw.fits
    rw [RingMem.buffer, hw.sameBufs.bufPtr, hw.sameBufs.nrBufSize, hring, advance_mem, setFlags_mem]
    rwa [RingMem.buffer, fill_bufPtr, fill_nrBufSize] at hfill

/-- A kernel TX sync. -/
theorem keeps_sync (hs : s.Placed) {freed : Nat} (hring : s'.world.ring = s.world.ring.txSync freed)
    (hkhead : s'.khead = s.world.ring.head) : Keeps s s' := by
  have hv := hs.valid
  refine ⟨⟨?_, ?_, ?_⟩, ?_, ?_, ?_⟩
  · rw [hring]
    exact hv.txSync freed
  · rw [hring, hkhead]
    exact hv.head_lt
  · rw [hring, hkhead]
    exact Circ.between_refl hv.head_lt
  · rw [hring]
    exact sameBufs_txSync freed
  · intro i _
    rw [hring]
    rfl
  · intro _ i _ _
    rw [hring]
    rfl

/-- One step of a user who writes only when `poll_write` and `send` agree, or of the kernel. -/
theorem step (hs : s.Placed) (ht : AgreedStep s e s') : Keeps s s' := by
  obtain ⟨ha, ht⟩ := ht
  rcases step_cases hs.valid ht with ⟨-, hring, hkhead⟩ | ⟨buf, r, rfl, hw, hkhead⟩ | ⟨freed, -, -, hring, hkhead⟩
  · exact keeps_idle hs hring hkhead
  · have hcond := (pollsLikeSend_iff hs.valid).mp ha
    have hone := mt (full_iff hs.valid).mpr hw.room
    have hfits := hw.fits
    exact keeps_written hs (by omega) hw hkhead
  · exact keeps_sync hs hring hkhead

/-! ### The slots of the window stay usable -/

/-- What can be written after some more steps can be written. -/
theorem canWrite_of_run {step : AsyncTx → AsyncTxEvent → AsyncTx → Prop} {es : List AsyncTxEvent} (hr : Lts.Run step s es t)
    (h : CanWrite step t i buf) : CanWrite step s i buf := by
  obtain ⟨es', u, u', hr', hw⟩ := h
  exact ⟨es ++ es', u, u', hr.append hr', hw⟩

/-- With two slots free a packet that fits is written into the slot at `head`, and this is a step of a user who writes only
then. -/
theorem agreed_write (hv : s.world.ring.Valid) (hb : buf ≠ []) (hfit : buf.length ≤ s.world.ring.nrBufSize)
    (htwo : 2 ≤ s.world.ring.free) :
    ∃ s', AgreedStep s (.pollWrite buf (.ready (.ok buf.length))) s' ∧
      WroteInto s.world.ring buf (.ready (.ok buf.length)) s'.world.ring := by
  have hq : ∀ env ∈ [quiet, quiet], env.Quiet := by simp [quiet_quiet]
  have hlt := hv.free_lt
  have hroom := mt (full_iff hv).mp (by omega)
  have hcall := pollWrite_room hv hb (show 2 ≤ [quiet, quiet].length from Nat.le_refl _) hroom
  rw [if_neg (by omega)] at hcall
  exact ⟨_, ⟨(pollsLikeSend_iff hv).mpr (by omega), AsyncTxStep.pollWrite hb hq (Nat.le_refl _) hcall⟩,
    hroom, hb, hfit, rfl, rfl⟩

/-- On a ring of three slots or more the next packet can be written: the kernel gives slots back until two are free. -/
theorem write_next (hv : s.world.ring.Valid) (h3 : 3 ≤ s.world.ring.numSlots) (hb : buf ≠ [])
    (hfit : buf.length ≤ s.world.ring.nrBufSize) :
    ∃ es t t', Lts.Run AgreedStep s es t ∧ t.world.ring.Valid ∧ SameBufs s.world.ring t.world.ring ∧
      t.world.ring.head = s.world.ring.head ∧ 0 < t.world.ring.free ∧
      AgreedStep t (.pollWrite buf (.ready (.ok buf.length))) t' ∧
      WroteInto t.world.ring buf (.ready (.ok buf.length)) t'.world.ring := by
  have hlt := hv.free_lt
  obtain ⟨freed, hroom, htwo⟩ : ∃ freed, s.world.ring.free + freed < s.world.ring.numSlots ∧
      2 ≤ s.world.ring.free + freed := ⟨s.world.ring.numSlots - 1 - s.world.ring.free, by omega, by omega⟩
  let t : AsyncTx := { world := { s.world with ring := s.world.ring.txSync freed }, khead := s.world.ring.head }
  have hsync : AgreedStep s (.sync freed) t := ⟨trivial, AsyncTxStep.sync hroom rfl⟩
  have hfree : t.world.ring.free = s.world.ring.free + freed := free_txSync hv hroom
  obtain ⟨t', hstep, hw⟩ := agreed_write (s := t) (hv.txSync freed) hb hfit (by omega)
  exact ⟨_, t, t', Lts.Run.single hsync, hv.txSync freed, sameBufs_txSync freed, rfl, by omega, hstep, hw⟩

/-- On a ring of three slots or more the slot `k` steps from `head` can still be written: the slots before it are written
first. -/
theorem canWrite_adv (hv : s.world.ring.Valid) (h3 : 3 ≤ s.world.ring.numSlots) (hb : buf ≠ [])
    (hfit : buf.length ≤ s.world.ring.nrBufSize) (k : Nat) :
    CanWrite AgreedStep s (Circ.adv s.world.ring.numSlots s.world.ring.head k) buf := by
  induction k generalizing s with
  | zero =>
    obtain ⟨es, t, t', hr, ht, hbufs, hhead, hfree, hstep, hw⟩ := write_next hv h3 hb hfit
    rw [Circ.adv_zero hv.head_lt, ← hhead]
    exact ⟨es, t, t', hr, rfl, head_mem_owned ht hfree, hstep, hw.ring_eq⟩
  | succ k ih =>
    obtain ⟨es, t, t', hr, ht, hbufs, hhead, hfree, hstep, hw⟩ := write_next hv h3 hb hfit
    have ht' : t'.world.ring.Valid := by
      rw [hw.ring_eq]
      exact ht.fill.setFlags.advance
    have hbufs' := hbufs.trans hw.sameBufs
    have hnext : t'.world.ring.head = Circ.adv s.world.ring.numSlots s.world.ring.head 1 := by
      rw [hw.ring_eq, ← hbufs.numSlots, ← hhead]
      rfl
    have hlater := ih ht' (by rwa [hbufs'.numSlots]) (by rwa [hbufs'.nrBufSize])
    rw [hnext, hbufs'.numSlots, Circ.adv_adv, Nat.add_comm 1 k] at hlater
    exact canWrite_of_run (Lts.Run.snoc hr hstep) hlater

/-- A ring of two slots of which one is free. -/
structure Stuck (s : AsyncTx) : Prop where
  valid : s.world.ring.Valid
  two : s.world.ring.numSlots = 2
  one : s.world.ring.free = 1

/-- Such a ring is taken for full, and the kernel has no slot to give back. -/
theorem stuck_step (hs : Stuck s) (h : AsyncTxStep s e s') : Unwritten e ∧ Stuck s' := by
  obtain ⟨hv, htwo, hone⟩ := hs
  rcases step_cases hv h with ⟨he, hring, -⟩ | ⟨buf, r, -, hw, -⟩ | ⟨freed, he, hroom, hring, -⟩
  · refine ⟨he, ?_, ?_, ?_⟩ <;> rwa [hring]
  · exact absurd ((full_iff hv).mpr (Or.inr hone)) hw.room
  · refine ⟨he, ?_, ?_, ?_⟩
    · rw [hring]
      exact hv.txSync freed
    · rw [hring]
      exact htwo
    · rw [hring, free_txSync hv hroom]
      omega

/-- A slot of the window can still be written, by a user who writes whenever he likes or by one who writes only when
`poll_write` and `send` agree, exactly when the ring has three slots or more. -/
theorem canWrite_iff (hv : s.world.ring.Valid) (hi : i ∈ s.world.ring.owned) (hb : buf ≠ [])
    (hfit : buf.length ≤ s.world.ring.nrBufSize) :
    (CanWrite AgreedStep s i buf ↔ 3 ≤ s.world.ring.numSlots) ∧ (CanWrite AsyncTxStep s i buf ↔ 3 ≤ s.world.ring.numSlots) := by
  have hlt := hv.free_lt
  rw [owned, Circ.mem_window_iff hv.head_lt] at hi
  have hmay : 3 ≤ s.world.ring.numSlots → CanWrite AgreedStep s i buf := by
    intro h3
    rw [← Circ.adv_dist hv.head_lt hi.1]
    exact canWrite_adv hv h3 hb hfit _
  have hany : CanWrite AgreedStep s i buf → CanWrite AsyncTxStep s i buf := by
    rintro ⟨es, t, t', hr, hhead, hmem, hstep, hring⟩
    exact ⟨es, t, t', hr.mono fun _ _ _ h => h.2, hhead, hmem, hstep.2, hring⟩
  have hmust : CanWrite AsyncTxStep s i buf → 3 ≤ s.world.ring.numSlots := by
    rintro ⟨es, t, t', hr, -, -, hstep, -⟩
    by_contra h3
    -- the window has a slot, so there are two slots and one of them is free
    have hfree : s.world.ring.free = Circ.dist s.world.ring.numSlots s.world.ring.head s.world.ring.tail := rfl
    have hstuck : Stuck t := hr.invariant (fun _ _ _ hs h => (stuck_step hs h).2) ⟨hv, by omega, by omega⟩
    exact (stuck_step hstuck hstep).1 _ _ rfl
  exact ⟨⟨fun h => hmust (hany h), hmay⟩, ⟨hmust, fun h => hany (hmay h)⟩⟩

/-! ### Runs -/

/-- In every state of a run `head` is in its place, and the slots have the buffers they had. -/
theorem placed_run {s₀ : AsyncTx} {es : List AsyncTxEvent} (h0 : s₀.Placed) (hr : Lts.Run AgreedStep s₀ es s) :
    s.Placed ∧ SameBufs s₀.world.ring s.world.ring := by
  refine hr.invariant (I := fun t => t.Placed ∧ SameBufs s₀.world.ring t.world.ring) ?_ ⟨h0, SameBufs.refl _⟩
  rintro a e b ⟨ha, hbufs⟩ h
  have hk := step ha h
  exact ⟨hk.placed, hbufs.trans hk.sameBufs⟩

end AsyncWriteAux

open AsyncWriteAux

/-- In every state that a run of writes and kernel TX syncs reaches, when each packet was written in a state in which
`poll_write` and `send` agree: the two agree on a packet exactly in such a state; `head` lies between the kernel's head and
`tail`; a further step of the run changes no slot that the application does not own, nor, when no two slots have the same
buffer, a byte of its buffer; and a slot that the application owns, which it does only on a ring of two slots or more, can still
be written, in a run like this one or in any other, exactly when the ring has three slots or more. -/
theorem poll_write_agrees_iff {s₀ s : AsyncTx} {es : List AsyncTxEvent} (h0 : s₀.Placed)
    (hr : Lts.Run AgreedStep s₀ es s) :
    (∀ buf ≠ [], PollAgrees s.world buf ↔ s.world.ring.PollsLikeSend buf) ∧ s.Placed ∧
      (∀ e s', AgreedStep s e s' → ∀ i, i ∉ s.world.ring.owned → s'.world.ring.slot i = s.world.ring.slot i) ∧
      (s₀.world.ring.DistinctBufs → ∀ e s', AgreedStep s e s' → ∀ i < s.world.ring.numSlots, i ∉ s.world.ring.owned →
        s'.world.ring.buffer i = s.world.ring.buffer i) ∧
      ∀ i ∈ s.world.ring.owned, ∀ buf ≠ [], buf.length ≤ s.world.ring.nrBufSize →
        (CanWrite AgreedStep s i buf ↔ 3 ≤ s.world.ring.numSlots) ∧
          (CanWrite AsyncTxStep s i buf ↔ 3 ≤ s.world.ring.numSlots) := by
  obtain ⟨hs, hbufs⟩ := placed_run h0 hr
  refine ⟨?_, hs, fun _ _ ht => (step hs ht).slot, fun hd _ _ ht => (step hs ht).buffer (hbufs.distinct hd), ?_⟩
  · intro buf hb
    rw [pollsLikeSend_iff hs.valid]
    exact ⟨of_pollAgrees hs.valid hb, pollAgrees_of hs.valid hb⟩
  · intro i hi buf hb hfit
    exact canWrite_iff hs.valid hi hb hfit

namespace AsyncWriteAux

/-- A ring of so many slots whose kernel has seen everything, with a descriptor that is not ready. -/
def start (numSlots head tail : Nat) : AsyncTx :=
  { world :=
      { fd := { readReady := false, writeReady := false, readWaker := false, writeWaker := false }
        ring := fresh numSlots 64 head tail
        arrived := [] }
    khead := head }

theorem start_placed {numSlots head tail : Nat} (hle : numSlots ≤ 2 ^ 31) (hh : head < numSlots) (ht : tail < numSlots) :
    (start numSlots head tail).Placed :=
  ⟨fresh_valid hle hh ht, hh, Circ.between_refl hh⟩

end AsyncWriteAux

/-- `poll_write_agrees_iff` after one packet written into a ring with three free slots: the next one is written as `send`
would, and the last slot of the window can still be written. -/
theorem poll_write_agrees_second : ∃ es s, Lts.Run AgreedStep (start 4 0 3) es s ∧ es.length = 1 ∧ PollAgrees s.world [8] ∧
    s.world.ring.owned = [1, 2] ∧ CanWrite AgreedStep s 2 [9] := by
  have hq : ∀ env ∈ [quiet, quiet], env.Quiet := by simp [quiet_quiet]
  have h1 : AgreedStep (start 4 0 3) (.pollWrite [7] (.ready (.ok 1))) _ :=
    ⟨(by decide : (fresh 4 64 0 3).PollsLikeSend [7]), AsyncTxStep.pollWrite (by decide) hq (Nat.le_refl _) rfl⟩
  have hr := Lts.Run.single h1
  have hall := poll_write_agrees_iff (start_placed (by decide) (by decide) (by decide)) hr
  obtain ⟨hagrees, -, -, -, husable⟩ := hall
  exact ⟨_, _, hr, rfl, (hagrees [8] (by decide)).mpr (by decide), by decide,
    (husable 2 (by decide) [9] (by decide) (by decide)).1.mpr (by decide)⟩

/-- On a ring of two slots of which the application owns none, `poll_write` writes a packet and `send` refuses it. -/
theorem poll_write_full_ring_written :
    ∃ (s : AsyncTx) (buf : Bytes), s.Placed ∧ s.world.ring.nrBufSize ≤ 65535 ∧ buf ≠ [] ∧
      buf.length ≤ s.world.ring.nrBufSize ∧ ¬PollAgrees s.world buf := by
  refine ⟨start 2 0 0, [7], start_placed (by decide) (by decide) (by decide), by decide, by decide, by decide, ?_⟩
  intro ha
  have hq : ∀ env ∈ [quiet, quiet], env.Quiet := by simp [quiet_quiet]
  obtain ⟨r, w', hcall, hw⟩ := ha [quiet, quiet] hq (Nat.le_refl _)
  cases hcall
  obtain ⟨i, hi, _⟩ := hw.inside 1 rfl
  nomatch hi

end NetHelper
