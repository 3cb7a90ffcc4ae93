import NetHelper.Lib.Lts
import NetHelper.TokioAsync
import NetHelper.Window

/-!
# Wake-ups

A poll that returns `Pending` is to have registered the waker of its task, and not to have cleared the readiness since.
`poll_write` does so: after clearing the readiness it polls the descriptor again. `poll_read` does not: on an empty ring
with the readiness set it clears the readiness and returns `Pending`. The polls are followed here with what they do to the
descriptor written down; without that they are the functions of `TokioAsync.lean` (`pollReadTraced_fst`,
`pollWriteTraced_fst`).
-/

namespace NetHelper

open Checked

/-- What a poll does to the readiness of the descriptor. -/
inductive FdOp where
  | register
  | clearReady
  deriving DecidableEq, Repr

/-- The waker has been registered, and the readiness has not been cleared since. -/
def FdOp.Registered (ops : List FdOp) : Prop := ∃ before after, ops = before ++ .register :: after ∧ .clearReady ∉ after

/-! ## The polls, with what they do to the descriptor -/

namespace AsyncNetmapRxRing

/-- `waitReadable`, with what it does to the descriptor. -/
def waitReadableTraced (env : ReadEnv) (w : World) (tail : Nat) :
    (Option (Poll (Except IoError Unit)) × World) × List FdOp :=
  let w := env.beforePoll w
  match env.pollErr with
  | some errno => ((some (.ready (.error (.os errno))), w), [])
  | none =>
    match w.fd.pollReadReady with
    | (.pending, fd) => ((some .pending, { w with fd := fd }), [.register])
    | (.ready (), fd) =>
      let w := env.beforeClear { w with fd := fd }
      let w := env.beforeRecheck { w with fd := w.fd.clearReadReady }
      (if w.ring.head = tail then (some .pending, w) else (none, w), [.clearReady])

/-- `pollRead`, with what it does to the descriptor. -/
def pollReadTraced (env : ReadEnv) (w : World) (buf : ReadBuf) : Outcome (PollRead × List FdOp) :=
  match env.ioctl w with
  | .error errno => .ok ({ result := .ready (.error (.os errno)), buf := buf, world := w, slotRead := none }, [])
  | .ok w =>
    let tail := w.ring.tail
    let numSlots := w.ring.numSlots
    if w.ring.head = tail then
      match waitReadableTraced env w tail with
      | ((some result, w), ops) => .ok ({ result := result, buf := buf, world := w, slotRead := none }, ops)
      | ((none, w), ops) => (takePacket w tail numSlots buf).map (fun out => (out, ops))
    else
      (takePacket w tail numSlots buf).map (fun out => (out, []))

end AsyncNetmapRxRing

namespace AsyncNetmapTxRing

/-- What a pass of the loop of `poll_write` does to the descriptor. -/
def passOps (env : WriteEnv) (w : World) : List FdOp :=
  if (w.ring.head + 1) % w.ring.numSlots = w.ring.tail then
    match env.pollErr with
    | some _ => []
    | none =>
      match (env.beforePoll w).fd.pollWriteReady with
      | (.pending, _) => [.register]
      | (.ready (), _) => [.clearReady]
  else []

/-- `pollWrite`, with what it does to the descriptor. -/
def pollWriteTraced : List WriteEnv → World → Bytes → Outcome ((Option (Poll (Except IoError Nat)) × World) × List FdOp)
  | [], w, _ => .ok ((none, w), [])
  | env :: envs, w, buf => do
    let (result, w') ← pollWritePass env w buf
    match result with
    | some r => .ok ((some r, w'), passOps env w)
    | none => do
      let (out, ops) ← pollWriteTraced envs w' buf
      .ok (out, passOps env w ++ ops)

end AsyncNetmapTxRing

/-! ## A reading and a writing task on one descriptor -/

/-- The kernel acts: it moves `tail` and does what it likes with slots, buffers and readiness, but leaves `head` alone and
registers no waker. -/
structure World.KernelUpdates (w w' : World) : Prop where
  head : w'.ring.head = w.ring.head
  readWaker : w'.fd.readWaker → w.fd.readWaker
  writeWaker : w'.fd.writeWaker → w.fd.writeWaker

/-- Nothing but the kernel acts during a call of `poll_read`. Its ioctl may fail. -/
structure ReadEnv.KernelOnly (env : ReadEnv) : Prop where
  ioctl : ∀ w w' : World, env.ioctl w = .ok w' → w.KernelUpdates w'
  beforePoll : ∀ w : World, w.KernelUpdates (env.beforePoll w)
  beforeClear : ∀ w : World, w.KernelUpdates (env.beforeClear w)
  beforeRecheck : ∀ w : World, w.KernelUpdates (env.beforeRecheck w)

/-- Nothing but the kernel acts during a pass of `poll_write`. -/
structure WriteEnv.KernelOnly (env : WriteEnv) : Prop where
  beforePoll : ∀ w : World, w.KernelUpdates (env.beforePoll w)
  beforeClear : ∀ w : World, w.KernelUpdates (env.beforeClear w)
  beforeNext : ∀ w : World, w.KernelUpdates (env.beforeNext w)

/-- The ring and the descriptor, and for each task whether it is parked: its last poll returned `Pending`, and it has not
been woken since. -/
structure Tasks where
  world : World
  readParked : Bool
  writeParked : Bool

/-- A parked task stays parked unless its waker, registered before, has been taken to wake it. -/
def staysParked (parked before after : Bool) : Bool := parked && !(before && !after)

/-- The steps of the kernel and the two tasks, with what is seen of them. -/
inductive WakeEvent where
  | kernel
  | pollRead (before : World) (env : ReadEnv) (result : Poll (Except IoError Unit)) (ops : List FdOp)
  | pollWrite (result : Poll (Except IoError Nat)) (ops : List FdOp)

/-- The steps: the kernel acts between polls, the reading task polls its ring, the writing task polls its ring. -/
inductive WakeStep : Tasks → WakeEvent → Tasks → Prop where
  | kernel {s : Tasks} {w' : World} (hk : s.world.KernelUpdates w') :
      WakeStep s .kernel
        { world := w'
          readParked := staysParked s.readParked s.world.fd.readWaker w'.fd.readWaker
          writeParked := staysParked s.writeParked s.world.fd.writeWaker w'.fd.writeWaker }
  | pollRead {s : Tasks} {env : ReadEnv} {buf : ReadBuf} {out : PollRead} {ops : List FdOp} (hk : env.KernelOnly)
      (hc : AsyncNetmapRxRing.pollReadTraced env s.world buf = .ok (out, ops)) :
      WakeStep s (.pollRead s.world env out.result ops)
        { world := out.world
          readParked := out.result == .pending
          writeParked := staysParked s.writeParked s.world.fd.writeWaker out.world.fd.writeWaker }
  | pollWrite {s : Tasks} {envs : List WriteEnv} {buf : Bytes} {r : Poll (Except IoError Nat)} {w' : World}
      {ops : List FdOp} (hk : ∀ env ∈ envs, env.KernelOnly)
      (hc : AsyncNetmapTxRing.pollWriteTraced envs s.world buf = .ok ((some r, w'), ops)) :
      WakeStep s (.pollWrite r ops)
        { world := w'
          readParked := staysParked s.readParked s.world.fd.readWaker w'.fd.readWaker
          writeParked := r == .pending }

/-- No task is parked without its waker registered. -/
structure Tasks.NoneLost (s : Tasks) : Prop where
  read : s.readParked → s.world.fd.readWaker
  write : s.writeParked → s.world.fd.writeWaker

/-- A poll that returns `Pending` has registered the waker and not cleared the readiness since. -/
def WakeEvent.Registers : WakeEvent → Prop
  | .kernel => True
  | .pollRead _ _ result ops => result = .pending → FdOp.Registered ops
  | .pollWrite result ops => result = .pending → FdOp.Registered ops

/-- A call of `poll_read` finds the ring empty after its ioctl, and the descriptor ready. -/
def ReadEnv.FindsReady (env : ReadEnv) (w : World) : Prop :=
  ∃ w', env.ioctl w = .ok w' ∧ w'.ring.head = w'.ring.tail ∧ env.pollErr = none ∧ (env.beforePoll w').fd.readReady = true

/-- No call of `poll_read` finds the ring empty and the descriptor ready. -/
def WakeEvent.Unready : WakeEvent → Prop
  | .kernel => True
  | .pollRead before env _ _ => ¬env.FindsReady before
  | .pollWrite _ _ => True

namespace WakeupsAux

variable {env : ReadEnv} {w w' w'' : World} {buf : ReadBuf} {s s' : Tasks} {e : WakeEvent}

/-- What the kernel does in two goes it may do in one. -/
theorem KernelUpdates.trans (h : w.KernelUpdates w') (h' : w'.KernelUpdates w'') : w.KernelUpdates w'' :=
  ⟨h'.head.trans h.head, fun hw => h.readWaker (h'.readWaker hw), fun hw => h.writeWaker (h'.writeWaker hw)⟩

/-! ## The traces are of the polls -/

theorem waitReadableTraced_fst (env : ReadEnv) (w : World) (tail : Nat) :
    (AsyncNetmapRxRing.waitReadableTraced env w tail).1 = AsyncNetmapRxRing.waitReadable env w tail := by
  unfold AsyncNetmapRxRing.waitReadableTraced AsyncNetmapRxRing.waitReadable
  cases env.pollErr with
  | some errno => rfl
  | none =>
    dsimp only
    obtain ⟨poll, fd⟩ := (env.beforePoll w).fd.pollReadReady
    cases poll with
    | ready _ => rfl
    | pending => rfl

/-- Without its trace the traced poll is `poll_read`. -/
theorem pollReadTraced_fst (env : ReadEnv) (w : World) (buf : ReadBuf) :
    (AsyncNetmapRxRing.pollReadTraced env w buf).map Prod.fst = AsyncNetmapRxRing.pollRead env w buf := by
  unfold AsyncNetmapRxRing.pollReadTraced AsyncNetmapRxRing.pollRead
  cases env.ioctl w with
  | error errno => rfl
  | ok w =>
    have hmap : ∀ (o : Outcome PollRead) (ops : List FdOp), (o.map (fun out => (out, ops))).map Prod.fst = o := by
      intro o ops
      cases o <;> rfl
    dsimp only
    split
    · rw [← waitReadableTraced_fst]
      obtain ⟨⟨result, w⟩, ops⟩ := AsyncNetmapRxRing.waitReadableTraced env w w.ring.tail
      cases result with
      | some r => rfl
      | none => exact hmap _ _
    · exact hmap _ _

/-- Without its trace the traced poll is `poll_write`. -/
theorem pollWriteTraced_fst (envs : List WriteEnv) (w : World) (buf : Bytes) :
    (AsyncNetmapTxRing.pollWriteTraced envs w buf).map Prod.fst = AsyncNetmapTxRing.pollWrite envs w buf := by
  induction envs generalizing w with
  | nil => rfl
  | cons env envs ih =>
    rw [AsyncNetmapTxRing.pollWriteTraced, AsyncNetmapTxRing.pollWrite]
    cases AsyncNetmapTxRing.pollWritePass env w buf with
    | error p => rfl
    | ok out =>
      obtain ⟨result, w'⟩ := out
      cases result with
      | some r => rfl
      | none =>
        have hrest := ih w'
        rw [ok_bind, ok_bind]
        dsimp only
        rw [← hrest]
        cases AsyncNetmapTxRing.pollWriteTraced envs w' buf <;> rfl

/-! ## Reading -/

/-- A trace that ends with the registration. -/
theorem registered_singleton : FdOp.Registered [.register] := ⟨[], [], rfl, List.not_mem_nil⟩

/-- A trace that only clears the readiness registers nothing. -/
theorem not_registered_clear : ¬FdOp.Registered [.clearReady] := by
  rintro ⟨before, after, he, -⟩
  have hm : FdOp.register ∈ [FdOp.clearReady] := by
    rw [he]
    simp
  nomatch List.mem_singleton.mp hm

/-- Taking a packet is no `Pending`. -/
theorem takePacket_ready {out : PollRead} {tail numSlots : Nat}
    (hc : AsyncNetmapRxRing.takePacket w tail numSlots buf = .ok out) : out.result = .ready (.ok ()) := by
  unfold AsyncNetmapRxRing.takePacket at hc
  by_cases hn : numSlots = 0
  · rw [rem, if_pos hn] at hc
    nomatch hc
  · have hpos : 0 < numSlots := by omega
    rw [rem_of_pos hpos, ok_bind] at hc
    by_cases hov : tail + 1 < 2 ^ 32
    · rw [add_of_lt hov, ok_bind, rem_of_pos hpos, ok_bind] at hc
      cases hc
      rfl
    · rw [add, if_neg hov] at hc
      nomatch hc

/-- A traced packet is no `Pending` either. -/
theorem takePacket_traced_ready {out : PollRead} {ops ops' : List FdOp} {tail numSlots : Nat}
    (hc : (AsyncNetmapRxRing.takePacket w tail numSlots buf).map (fun out => (out, ops)) = .ok (out, ops')) :
    out.result = .ready (.ok ()) := by
  cases ht : AsyncNetmapRxRing.takePacket w tail numSlots buf with
  | error p =>
    rw [ht] at hc
    nomatch hc
  | ok out' =>
    rw [ht] at hc
    cases hc
    exact takePacket_ready ht

/-- A call that finds the ring empty and the descriptor ready clears the readiness and returns `Pending`: the kernel does not
move `head`, so it is found where it was. -/
theorem pollRead_findsReady (hk : env.KernelOnly) (hf : env.FindsReady w) {out : PollRead} {ops : List FdOp}
    (hc : AsyncNetmapRxRing.pollReadTraced env w buf = .ok (out, ops)) :
    out.result = .pending ∧ ops = [.clearReady] := by
  obtain ⟨w₁, hioctl, hempty, herr, hready⟩ := hf
  have hpoll := hk.beforePoll w₁
  have hclear := hk.beforeClear (env.beforePoll w₁)
  have hcheck := hk.beforeRecheck { env.beforeClear (env.beforePoll w₁) with
    fd := (env.beforeClear (env.beforePoll w₁)).fd.clearReadReady }
  have hhead : (env.beforeRecheck { env.beforeClear (env.beforePoll w₁) with
      fd := (env.beforeClear (env.beforePoll w₁)).fd.clearReadReady }).ring.head = w₁.ring.tail :=
    hcheck.head.trans (hclear.head.trans (hpoll.head.trans hempty))
  unfold AsyncNetmapRxRing.pollReadTraced at hc
  rw [hioctl] at hc
  simp only [hempty, if_true, AsyncNetmapRxRing.waitReadableTraced, herr, AsyncFd.pollReadReady, hready, hhead] at hc
  cases hc
  exact ⟨rfl, rfl⟩

/-- A call that does not find the ring empty and the descriptor ready, and returns `Pending`, has registered the waker as the
last thing. -/
theorem pollRead_pending (hf : ¬env.FindsReady w) {out : PollRead} {ops : List FdOp}
    (hc : AsyncNetmapRxRing.pollReadTraced env w buf = .ok (out, ops)) (hp : out.result = .pending) :
    ops = [.register] ∧ out.world.fd.readWaker = true := by
  unfold AsyncNetmapRxRing.pollReadTraced at hc
  cases hioctl : env.ioctl w with
  | error errno =>
    rw [hioctl] at hc
    cases hc
    nomatch hp
  | ok w₁ =>
    rw [hioctl] at hc
    dsimp only at hc
    by_cases hempty : w₁.ring.head = w₁.ring.tail
    · rw [if_pos hempty] at hc
      unfold AsyncNetmapRxRing.waitReadableTraced at hc
      cases herr : env.pollErr with
      | some errno =>
        rw [herr] at hc
        cases hc
        nomatch hp
      | none =>
        have hnot : (env.beforePoll w₁).fd.readReady = false :=
          eq_false_of_ne_true (fun hr => hf ⟨w₁, hioctl, hempty, herr, hr⟩)
        simp only [herr, AsyncFd.pollReadReady, hnot, Bool.false_eq_true, if_false] at hc
        cases hc
        exact ⟨rfl, rfl⟩
    · rw [if_neg hempty] at hc
      rw [takePacket_traced_ready hc] at hp
      nomatch hp

/-! ## Writing -/

/-- A pass that returns `Pending` has registered the waker as the last thing. -/
theorem pass_pending {env : WriteEnv} {bytes : Bytes}
    (hc : AsyncNetmapTxRing.pollWritePass env w bytes = .ok (some .pending, w')) :
    AsyncNetmapTxRing.passOps env w = [.register] ∧ w'.fd.writeWaker = true := by
  unfold AsyncNetmapTxRing.pollWritePass at hc
  dsimp only at hc
  by_cases hov : w.ring.head + 1 < 2 ^ 32
  · rw [add_of_lt hov, ok_bind] at hc
    by_cases hn : w.ring.numSlots = 0
    · rw [rem, if_pos hn] at hc
      nomatch hc
    · have hpos : 0 < w.ring.numSlots := by omega
      rw [rem_of_pos hpos, ok_bind] at hc
      by_cases hfull : (w.ring.head + 1) % w.ring.numSlots = w.ring.tail
      · have hb : ((w.ring.head + 1) % w.ring.numSlots == w.ring.tail) = true := beq_iff_eq.mpr hfull
        unfold AsyncNetmapTxRing.passOps
        rw [if_pos hfull]
        simp only [hb, if_true] at hc
        cases herr : env.pollErr with
        | some errno =>
          rw [herr] at hc
          nomatch hc
        | none =>
          by_cases hr : (env.beforePoll w).fd.writeReady
          · simp only [herr, AsyncFd.pollWriteReady, hr, if_true] at hc
            nomatch hc
          · simp only [herr, AsyncFd.pollWriteReady, hr, Bool.false_eq_true, if_false] at hc
            cases hc
            simp only [AsyncFd.pollWriteReady, hr, Bool.false_eq_true, if_false, and_self]
      · have hb : ((w.ring.head + 1) % w.ring.numSlots == w.ring.tail) = false := beq_eq_false_iff_ne.mpr hfull
        simp only [hb, Bool.false_eq_true, if_false] at hc
        -- with room in the ring every way out is ready
        split at hc
        · nomatch hc
        · split at hc
          · nomatch hc
          · rw [rem_of_pos hpos] at hc
            nomatch hc
  · rw [add, if_neg hov] at hc
    nomatch hc

/-- A call of `poll_write` that returns `Pending` has registered the waker as the last thing, in its last pass. -/
theorem pollWrite_pending {envs : List WriteEnv} {bytes : Bytes} {ops : List FdOp}
    (hc : AsyncNetmapTxRing.pollWriteTraced envs w bytes = .ok ((some .pending, w'), ops)) :
    FdOp.Registered ops ∧ w'.fd.writeWaker = true := by
  induction envs generalizing w ops with
  | nil => nomatch hc
  | cons env envs ih =>
    rw [AsyncNetmapTxRing.pollWriteTraced] at hc
    cases hpass : AsyncNetmapTxRing.pollWritePass env w bytes with
    | error p =>
      rw [hpass] at hc
      nomatch hc
    | ok out =>
      obtain ⟨result, w₁⟩ := out
      rw [hpass, ok_bind] at hc
      cases result with
      | some r =>
        cases hc
        obtain ⟨hops, hw⟩ := pass_pending hpass
        rw [hops]
        exact ⟨registered_singleton, hw⟩
      | none =>
        dsimp only at hc
        cases hrest : AsyncNetmapTxRing.pollWriteTraced envs w₁ bytes with
        | error p =>
          rw [hrest] at hc
          nomatch hc
        | ok out =>
          obtain ⟨out, ops'⟩ := out
          rw [hrest, ok_bind] at hc
          cases hc
          -- what the earlier passes did stands before what the later ones did
          obtain ⟨⟨before, after, he, hno⟩, hw⟩ := ih hrest
          refine ⟨⟨AsyncNetmapTxRing.passOps env w ++ before, after, ?_, hno⟩, hw⟩
          rw [he, List.append_assoc]

/-! ## One step -/

/-- A task that stays parked had its waker registered and has it still. -/
theorem staysParked_waker {parked before after : Bool} (h : staysParked parked before after = true)
    (hw : parked = true → before = true) : after = true := by
  revert h hw
  cases parked <;> cases before <;> cases after <;> decide

/-- A poll registers, unless it is a call of `poll_read` that finds the ring empty and the descriptor ready. -/
theorem registers_iff (ht : WakeStep s e s') : e.Registers ↔ e.Unready := by
  cases ht with
  | kernel _ => exact Iff.rfl
  | @pollRead env buf out ops hk hc =>
    constructor
    · intro hreg hf
      obtain ⟨hp, hops⟩ := pollRead_findsReady hk hf hc
      have := hreg hp
      rw [hops] at this
      exact not_registered_clear this
    · intro hf hp
      rw [(pollRead_pending hf hc hp).1]
      exact registered_singleton
  | pollWrite _ hc =>
    refine ⟨fun _ => trivial, fun _ => ?_⟩
    rintro rfl
    exact (pollWrite_pending hc).1

/-- A step whose poll registers loses no task. -/
theorem step (hs : s.NoneLost) (hu : e.Unready) (ht : WakeStep s e s') : s'.NoneLost := by
  cases ht with
  | kernel _ => exact ⟨fun h => staysParked_waker h hs.read, fun h => staysParked_waker h hs.write⟩
  | pollRead _ hc =>
    exact ⟨fun h => (pollRead_pending hu hc (beq_iff_eq.mp h)).2, fun h => staysParked_waker h hs.write⟩
  | @pollWrite envs buf r w' ops _ hc =>
    refine ⟨fun h => staysParked_waker h hs.read, fun h => ?_⟩
    cases beq_iff_eq.mp h
    exact (pollWrite_pending hc).2

end WakeupsAux

open WakeupsAux

/-- Over every run of polls of both rings with the kernel acting between and during them: every poll that returns `Pending`
has registered the waker since it last cleared the readiness, and no task is parked without its waker, exactly when no call
of `poll_read` finds the ring empty and the descriptor ready. -/
theorem no_lost_wakeup_iff {s₀ s : Tasks} {es : List WakeEvent} (h0 : s₀.NoneLost) (hr : Lts.Run WakeStep s₀ es s) :
    (∀ e ∈ es, e.Registers) ∧ s.NoneLost ↔ ∀ e ∈ es, e.Unready := by
  have hiff : ∀ e ∈ es, (e.Registers ↔ e.Unready) :=
    hr.events (I := fun _ => True) (fun _ _ _ _ _ => trivial) (fun _ _ _ _ ht => registers_iff ht) trivial
  constructor
  · rintro ⟨hreg, -⟩ e he
    exact (hiff e he).mp (hreg e he)
  · intro hu
    refine ⟨fun e he => (hiff e he).mpr (hu e he), ?_⟩
    clear hiff
    induction hr with
    | nil => exact h0
    | snoc _ ht ih =>
      exact step (ih fun e he => hu e (List.mem_append_left _ he)) (hu _ (by simp)) ht

namespace WakeupsAux

/-- Both tasks on an empty ring of four slots, with nothing registered, and the readiness for reading as given. -/
def resting (ready : Bool) : Tasks :=
  { world :=
      { fd := { readReady := ready, writeReady := false, readWaker := false, writeWaker := false }
        ring := RingMem.fresh 4 64 0 0
        arrived := [] }
    readParked := false
    writeParked := false }

theorem resting_noneLost (ready : Bool) : (resting ready).NoneLost := by
  refine ⟨?_, ?_⟩
  · intro h
    nomatch h
  · intro h
    nomatch h

theorem quiet_kernelOnly : ReadEnv.quiet.KernelOnly := by
  have hid : ∀ w : World, w.KernelUpdates w := fun w => ⟨rfl, id, id⟩
  refine ⟨?_, hid, hid, hid⟩
  intro w w' h
  cases h
  exact hid w

end WakeupsAux

/-- `no_lost_wakeup_iff` at the run of one call of `poll_read` on an empty ring whose descriptor is not ready. -/
theorem no_lost_wakeup_idle : ∃ es s, Lts.Run WakeStep (resting false) es s ∧ s.readParked = true ∧ s.NoneLost := by
  have h1 := Lts.Run.single
    (@WakeStep.pollRead (resting false) ReadEnv.quiet { filled := [], capacity := 8 } _ _ quiet_kernelOnly rfl)
  refine ⟨_, _, h1, rfl, ((no_lost_wakeup_iff (resting_noneLost false) h1).mpr ?_).2⟩
  intro e he
  rw [List.mem_singleton.mp he]
  rintro ⟨w', hw, -, -, hready⟩
  cases hw
  nomatch hready

/-- On an empty ring whose descriptor is ready a call of `poll_read` parks its task with no waker registered. -/
theorem poll_read_parks_unregistered :
    ∃ s₀ es s, s₀.NoneLost ∧ Lts.Run WakeStep s₀ es s ∧ s.readParked = true ∧ s.world.fd.readWaker = false := by
  have h1 := Lts.Run.single
    (@WakeStep.pollRead (resting true) ReadEnv.quiet { filled := [], capacity := 8 } _ _ quiet_kernelOnly rfl)
  exact ⟨_, _, _, resting_noneLost true, h1, rfl, rfl⟩

end NetHelper
