import NetHelper.Lemmas.Rx
import NetHelper.Lemmas.RxSync
import NetHelper.TokioAsync

/-!
# Asynchronous receiving

`poll_read` takes the slot at `tail`, which is the first one the application does not own, and moves `tail`, which is the
kernel's. A call on a ring in which packets wait therefore does none of what it should, and a run delivers the stream of
packets exactly when no call ever finds one (`poll_read_delivers_iff`).
-/

namespace NetHelper

open Checked RingMem

/-- The kernel acts: an RX sync on the ring, and anything on the readiness. -/
def World.KernelActs (w w' : World) : Prop := ∃ ps, RxSync w.ring ps w'.ring ∧ w'.arrived = w.arrived ++ ps

/-- Nothing but the kernel acts during a call of `poll_read`, and its ioctl succeeds. -/
structure ReadEnv.OnlyKernel (env : ReadEnv) : Prop where
  ioctl : ∀ w : World, w.ring.Indexed → ∃ w', env.ioctl w = .ok w' ∧ w.KernelActs w'
  beforePoll : ∀ w : World, w.ring.Indexed → w.KernelActs (env.beforePoll w)
  beforeClear : ∀ w : World, w.ring.Indexed → w.KernelActs (env.beforeClear w)
  beforeRecheck : ∀ w : World, w.ring.Indexed → w.KernelActs (env.beforeRecheck w)

/-- The steps of an RX ring that is read asynchronously, with what is seen of them. -/
inductive ReadEvent where
  | kernel
  | pollRead (before : World) (env : ReadEnv) (buf : ReadBuf) (out : PollRead)

/-- The steps: the kernel acts between two calls, or the ring is polled with a buffer of any capacity. -/
inductive ReadStep : World → ReadEvent → World → Prop where
  | kernel {w w' : World} (hk : w.KernelActs w') : ReadStep w .kernel w'
  | pollRead {w : World} {env : ReadEnv} {buf : ReadBuf} {out : PollRead} (hk : env.OnlyKernel)
      (hc : AsyncNetmapRxRing.pollRead env w buf = .ok out) : ReadStep w (.pollRead w env buf out) out.world

/-- The ring as a call of `poll_read` finds it after its ioctl. -/
def ReadEnv.synced (env : ReadEnv) (w : World) : World :=
  match env.ioctl w with
  | .ok w' => w'
  | .error _ => w

/-- What a call of `poll_read` is to do. On an empty ring only the kernel acts, and nothing goes into the buffer. Otherwise
it reads a slot of the window only, leaves `tail` alone, consumes nothing for a buffer without room, and takes a packet that
fits as `recv` does. -/
structure ReadsWell (env : ReadEnv) (before : World) (buf : ReadBuf) (out : PollRead) : Prop where
  empty : (env.synced before).ring.head = (env.synced before).ring.tail →
    out.buf = buf ∧ out.slotRead = none ∧ (env.synced before).KernelActs out.world
  slot : ∀ i, out.slotRead = some i → i ∈ (env.synced before).ring.owned
  tail : (env.synced before).ring.head ≠ (env.synced before).ring.tail →
    out.world.ring.tail = (env.synced before).ring.tail
  noRoom : (env.synced before).ring.head ≠ (env.synced before).ring.tail → buf.remaining = 0 →
    out.buf = buf ∧ out.world.ring = (env.synced before).ring
  asRecv : (env.synced before).ring.head ≠ (env.synced before).ring.tail →
    ((env.synced before).ring.slot (env.synced before).ring.head).len ≤ buf.remaining →
    ∃ f s', RxRing.recv (env.synced before).ring = .ok (some f, s') ∧
      out.buf.filled = buf.filled ++ f.payload s'.mem ∧ out.world.ring.head = s'.head ∧
      out.world.ring.cur = s'.cur ∧ out.world.ring.tail = s'.tail

namespace ReadEvent

/-- The bytes a step puts into the caller's buffer. -/
def bytes : ReadEvent → Bytes
  | .kernel => []
  | .pollRead _ _ buf out => out.buf.filled.drop buf.filled.length

/-- Every call does what it is to do. -/
def Well : ReadEvent → Prop
  | .kernel => True
  | .pollRead before env buf out => ReadsWell env before buf out

/-- A call finds the ring empty after its ioctl: nothing waited, and nothing arrived. -/
def FindsEmpty : ReadEvent → Prop
  | .kernel => True
  | .pollRead before env _ _ => (env.synced before).ring.head = (env.synced before).ring.tail

end ReadEvent

/-- What a run is to do: every call does what it is to do, and the bytes put into the callers' buffers are a prefix of the
packets that waited at the start and those that arrived, in order. -/
structure DeliversStream (w₀ : World) (es : List ReadEvent) (w : World) : Prop where
  well : ∀ e ∈ es, e.Well
  stream : es.flatMap ReadEvent.bytes <+: (w₀.ring.waiting ++ w.arrived.drop w₀.arrived.length).flatten

namespace AsyncReadAux

variable {w w' w'' : World} {env : ReadEnv} {buf : ReadBuf} {e : ReadEvent}

/-- The kernel keeps the indices in the ring. -/
theorem KernelActs.indexed (h : w.ring.Indexed) (hk : w.KernelActs w') : w'.ring.Indexed := by
  obtain ⟨ps, hs, _⟩ := hk
  exact hs.indexed h

/-- The kernel leaves `head` alone. -/
theorem KernelActs.head (hk : w.KernelActs w') : w'.ring.head = w.ring.head := by
  obtain ⟨ps, hs, _⟩ := hk
  exact hs.head

/-- What the kernel does in two goes it may do in one. -/
theorem KernelActs.trans (h : w.ring.Indexed) (hk : w.KernelActs w') (hk' : w'.KernelActs w'') : w.KernelActs w'' := by
  obtain ⟨ps, hs, ha⟩ := hk
  obtain ⟨qs, hs', ha'⟩ := hk'
  exact ⟨ps ++ qs, hs.trans h hs', by rw [ha', ha, List.append_assoc]⟩

/-- The ring after the ioctl of a call. -/
theorem synced_indexed (hk : env.OnlyKernel) (h : w.ring.Indexed) :
    env.ioctl w = .ok (env.synced w) ∧ (env.synced w).ring.Indexed := by
  obtain ⟨w', hi, ha⟩ := hk.ioctl w h
  have hs : env.synced w = w' := by
    unfold ReadEnv.synced
    rw [hi]
  rw [hs]
  exact ⟨hi, KernelActs.indexed h ha⟩

/-- Waiting on an empty ring never goes on to a packet: only the kernel acts, and it does not move `head`. -/
theorem waitReadable_returns (hk : env.OnlyKernel) (h : w.ring.Indexed) (he : w.ring.head = w.ring.tail) :
    ∃ r w', AsyncNetmapRxRing.waitReadable env w w.ring.tail = (some r, w') ∧ w.KernelActs w' := by
  have hpoll := hk.beforePoll w h
  have hi := KernelActs.indexed h hpoll
  unfold AsyncNetmapRxRing.waitReadable
  cases env.pollErr with
  | some errno => exact ⟨_, _, rfl, hpoll⟩
  | none =>
    simp only [AsyncFd.pollReadReady]
    by_cases hr : (env.beforePoll w).fd.readReady
    · simp only [hr, if_true]
      -- the readiness is cleared, and head is read again and found where it was
      have hclear := hk.beforeClear (env.beforePoll w) hi
      have hcheck := hk.beforeRecheck { env.beforeClear (env.beforePoll w) with
        fd := (env.beforeClear (env.beforePoll w)).fd.clearReadReady } (KernelActs.indexed hi hclear)
      have hall := KernelActs.trans h hpoll (KernelActs.trans hi hclear hcheck)
      rw [if_pos ((KernelActs.head hall).trans he)]
      exact ⟨_, _, rfl, hall⟩
    · simp only [hr, Bool.false_eq_true, if_false]
      exact ⟨_, _, rfl, hpoll⟩

/-- A call on an empty ring returns what waiting returns, and touches neither the buffer nor the ring. -/
theorem pollRead_empty (hk : env.OnlyKernel) (h : w.ring.Indexed)
    (he : (env.synced w).ring.head = (env.synced w).ring.tail) (buf : ReadBuf) :
    ∃ r w', AsyncNetmapRxRing.pollRead env w buf = .ok { result := r, buf := buf, world := w', slotRead := none } ∧
      (env.synced w).KernelActs w' := by
  obtain ⟨hioctl, hi⟩ := synced_indexed hk h
  obtain ⟨r, w', hwait, hw'⟩ := waitReadable_returns hk hi he
  refine ⟨r, w', ?_, hw'⟩
  unfold AsyncNetmapRxRing.pollRead
  rw [hioctl]
  simp only [he, if_true, hwait]

/-- Taking a packet reads the slot at `tail` and moves `tail` past it. -/
theorem takePacket_eq (h : w.ring.Indexed) (buf : ReadBuf) :
    ∃ buf', AsyncNetmapRxRing.takePacket w w.ring.tail w.ring.numSlots buf =
      .ok {
        result := .ready (.ok ())
        buf := buf'
        world := { w with ring := w.ring.moveTail (Circ.adv w.ring.numSlots w.ring.tail 1) }
        slotRead := some w.ring.tail } := by
  have hle := h.le
  have ht := h.tail_lt
  unfold AsyncNetmapRxRing.takePacket
  rw [rem_of_pos h.pos, ok_bind, Nat.mod_eq_of_lt ht, add_of_lt (by omega), ok_bind, rem_of_pos h.pos, ok_bind]
  exact ⟨_, rfl⟩

/-- A call on a ring in which packets wait reads the slot at `tail` and moves `tail` past it. -/
theorem pollRead_waiting (hk : env.OnlyKernel) (h : w.ring.Indexed)
    (hne : (env.synced w).ring.head ≠ (env.synced w).ring.tail) (buf : ReadBuf) :
    ∃ buf', AsyncNetmapRxRing.pollRead env w buf =
      .ok {
        result := .ready (.ok ())
        buf := buf'
        world := { env.synced w with
          ring := (env.synced w).ring.moveTail (Circ.adv (env.synced w).ring.numSlots (env.synced w).ring.tail 1) }
        slotRead := some (env.synced w).ring.tail } := by
  obtain ⟨hioctl, hi⟩ := synced_indexed hk h
  obtain ⟨buf', htake⟩ := takePacket_eq hi buf
  refine ⟨buf', ?_⟩
  unfold AsyncNetmapRxRing.pollRead
  rw [hioctl]
  simp only [hne, if_false]
  exact htake

/-- Every call returns. -/
theorem pollRead_returns (hk : env.OnlyKernel) (h : w.ring.Indexed) (buf : ReadBuf) :
    ∃ out, AsyncNetmapRxRing.pollRead env w buf = .ok out := by
  by_cases he : (env.synced w).ring.head = (env.synced w).ring.tail
  · obtain ⟨r, w', hc, _⟩ := pollRead_empty hk h he buf
    exact ⟨_, hc⟩
  · obtain ⟨buf', hc⟩ := pollRead_waiting hk h he buf
    exact ⟨_, hc⟩

/-- One step: a call does what it is to do exactly when it finds the ring empty, and then puts no bytes into the buffer. -/
theorem step (h : w.ring.Indexed) (ht : ReadStep w e w') :
    w'.ring.Indexed ∧ (e.Well ↔ e.FindsEmpty) ∧ (e.FindsEmpty → e.bytes = []) := by
  cases ht with
  | kernel hk => exact ⟨KernelActs.indexed h hk, Iff.rfl, fun _ => rfl⟩
  | @pollRead env buf out hk hc =>
    have hi := (synced_indexed hk h).2
    by_cases he : (env.synced w).ring.head = (env.synced w).ring.tail
    · obtain ⟨r, w', hr, hacts⟩ := pollRead_empty hk h he buf
      rw [hr] at hc
      cases hc
      refine ⟨KernelActs.indexed hi hacts, ⟨fun _ => he, fun _ => ?_⟩, fun _ => List.drop_length⟩
      exact ⟨fun _ => ⟨rfl, rfl, hacts⟩, fun _ hs => absurd hs (by simp), fun hne => absurd he hne,
        fun hne => absurd he hne, fun hne => absurd he hne⟩
    · obtain ⟨buf', hr⟩ := pollRead_waiting hk h he buf
      rw [hr] at hc
      cases hc
      have hpos := hi.pos
      refine ⟨⟨hi.pos, hi.le, hi.head_lt, Circ.adv_lt hi.pos⟩, ⟨fun hw => ?_, fun hf => absurd hf he⟩,
        fun hf => absurd hf he⟩
      -- tail has moved, for a ring in which packets wait has two slots
      have htail := hw.tail he
      change Circ.adv (env.synced w).ring.numSlots (env.synced w).ring.tail 1 = (env.synced w).ring.tail at htail
      rw [Circ.adv_one hi.tail_lt] at htail
      have hhead := hi.head_lt
      split at htail <;> omega

end AsyncReadAux

open AsyncReadAux

/-- Over every run of calls of `poll_read` with buffers of any capacity, with the kernel acting between and during them:
every call returns, and the run delivers the stream of packets exactly when every call finds the ring empty. -/
theorem poll_read_delivers_iff {w₀ w : World} {es : List ReadEvent} (h0 : w₀.ring.Indexed)
    (hr : Lts.Run ReadStep w₀ es w) :
    (∀ env buf, env.OnlyKernel → ∃ out, AsyncNetmapRxRing.pollRead env w buf = .ok out) ∧
      (DeliversStream w₀ es w ↔ ∀ e ∈ es, e.FindsEmpty) := by
  have hI : ∀ (a : World) e b, a.ring.Indexed → ReadStep a e b → b.ring.Indexed := fun _ _ _ h ht => (step h ht).1
  have hi := hr.invariant (I := fun a : World => a.ring.Indexed) hI h0
  have hall := hr.events (I := fun a : World => a.ring.Indexed) hI (fun _ _ _ h ht => (step h ht).2) h0
  refine ⟨fun env buf hk => pollRead_returns hk hi buf, ?_, ?_⟩
  · intro hd e he
    exact (hall e he).1.mp (hd.well e he)
  · intro hf
    refine ⟨fun e he => (hall e he).1.mpr (hf e he), ?_⟩
    have hnone : es.flatMap ReadEvent.bytes = [] := by
      rw [List.flatMap_eq_nil_iff]
      intro e he
      exact (hall e he).2 (hf e he)
    rw [hnone]
    exact List.nil_prefix

namespace AsyncReadAux

/-- A descriptor that is not ready and has no waker. -/
def idleFd : AsyncFd := { readReady := false, writeReady := false, readWaker := false, writeWaker := false }

theorem quiet_onlyKernel : ReadEnv.quiet.OnlyKernel := by
  have hid : ∀ w : World, w.ring.Indexed → w.KernelActs w := by
    intro w h
    exact ⟨[], RxSync.refl h.tail_lt, (List.append_nil _).symm⟩
  exact ⟨fun w h => ⟨w, rfl, hid w h⟩, hid, hid, hid⟩

end AsyncReadAux

/-- `poll_read_delivers_iff` at the run of one call on a ring without packets. -/
theorem poll_read_delivers_empty :
    ∃ es w, Lts.Run ReadStep { fd := idleFd, ring := fresh 4 64 0 0, arrived := [] } es w ∧ es.length = 1 ∧
      DeliversStream { fd := idleFd, ring := fresh 4 64 0 0, arrived := [] } es w := by
  have hi : (fresh 4 64 0 0).Indexed := ⟨by decide, by decide, by decide, by decide⟩
  have h1 := Lts.Run.single (@ReadStep.pollRead { fd := idleFd, ring := fresh 4 64 0 0, arrived := [] } .quiet
    { filled := [], capacity := 8 } _ quiet_onlyKernel rfl)
  refine ⟨_, _, h1, rfl, (poll_read_delivers_iff hi h1).2.mpr ?_⟩
  intro e he
  rw [List.mem_singleton.mp he]
  rfl

/-- On a ring in which the packet `[7]` waits a call reads the empty slot behind it and gives the kernel's slot away. -/
theorem poll_read_takes_wrong_slot :
    ∃ w₀ es w, w₀.ring.Valid ∧ Lts.Run ReadStep w₀ es w ∧ ¬DeliversStream w₀ es w := by
  have h1 := Lts.Run.single (@ReadStep.pollRead
    { fd := idleFd, ring := (fresh 4 64 0 0).deliver [[7]], arrived := [] } .quiet
    { filled := [], capacity := 8 } _ quiet_onlyKernel rfl)
  refine ⟨_, _, _, ⟨by decide, by decide, by decide, rfl, by decide⟩, h1, ?_⟩
  intro hd
  have hw := hd.well _ List.mem_cons_self
  exact absurd (hw.slot 1 rfl) (by decide)

end NetHelper
