import NetHelper.MainLoop
import NetHelper.Theorems.GeneratorStream

/-!
# The main loop sends

A round of the main loop is a round of the send loop and then TX syncs of the kernel, so what is known of the send loop is
known of the program (`main_round_run`, `main_loop_run`). When a full ring gets a slot back while the loop waits for one, often
enough, the loop ends (`main_loop_sends`).
-/

namespace NetHelper

open Checked Mm512 Generator RingMem

namespace Generator

/-- A system call that syncs a TX ring, when it succeeds. -/
def SyncsTx (f : RingMem → Except Int RingMem) : Prop := ∀ s s', s.Valid → f s = .ok s' → s.Synced s'

/-- The system calls of a round sync the TX ring. -/
structure Syncs.Kernel (k : Syncs) : Prop where
  ioctl : SyncsTx k.ioctl
  poll : SyncsTx k.poll

/-- On a full ring, unless it has a single slot, the system calls of a round make room. -/
def Syncs.MakesRoom (k : Syncs) : Prop :=
  ∀ s, s.Valid → 2 ≤ s.numSlots → s.free = 0 → 0 < (TxRing.sync k.poll (TxRing.syncIoctl k.ioctl s)).free

end Generator

namespace MainLoopAux

open GeneratorStreamAux SendLoopAux

variable {packetCount : Nat} {k : Syncs} {ks : List Syncs} {s s' : Sender} {w : Wire}
  {f : RingMem → Except Int RingMem}

/-- A round of the main loop is a round of the send loop and the syncs after it. -/
theorem mainRound_eq (h : s.ring.Valid) : mainRound k s = (do
    let r ← sendRound s
    match r with
    | .next s' =>
      .ok (.next { s' with ring :=
        if s.ring.free = 0 then TxRing.sync k.poll (TxRing.syncIoctl k.ioctl s'.ring) else TxRing.syncIoctl k.ioctl s'.ring })
    | .leave s' => .ok (.leave s')) := by
  unfold mainRound sendRound
  rw [TxRing.reserveAll_eq h, call, run_bind, run_bind]
  by_cases h0 : s.ring.free = 0
  · simp only [if_pos h0]
    rfl
  · simp only [if_neg h0]
    cases fillLoop { start := s.ring.head, count := s.ring.free } s.ring.free 0
        { ring := s.ring, currentPacketZmm := s.currentPacketZmm, packetsWritten := 0, stored := [] } with
    | error e => rfl
    | ok f =>
      simp only [run_bind]
      cases call (BatchReservation.commit { start := s.ring.head, count := s.ring.free } f.ring f.packetsWritten) with
      | error e => rfl
      | ok ring => rfl

/-- On a well-formed ring no round leaves the loop. -/
theorem sendRound_next (h : s.ring.Valid) {r : Round} (hc : sendRound s = .ok r) : ∃ s', r = .next s' := by
  unfold sendRound at hc
  obtain ⟨res, hr, hc⟩ := of_bind_ok hc
  rcases TxRing.reserveAll_cases h (of_call_ok hr) with ⟨_, rfl⟩ | ⟨_, rfl⟩
  · cases hc
    exact ⟨s, rfl⟩
  · obtain ⟨f, _, hc⟩ := of_bind_ok hc
    obtain ⟨ring', _, hc⟩ := of_bind_ok hc
    cases hc
    exact ⟨_, rfl⟩

/-! ## The program's steps are steps of the loop and the kernel -/

/-- A system call that syncs the ring leaves it synced, or as it was. -/
theorem synced_afterCall (hf : SyncsTx f) {ring : RingMem} (h : ring.Valid) : ring.Synced (TxRing.afterCall f ring) := by
  unfold TxRing.afterCall
  split
  · exact hf _ _ h ‹_›
  · exact h.synced

/-- A system call that syncs the ring is a step of the kernel, or none. -/
theorem run_afterCall (packetCount : Nat) (hf : SyncsTx f) (hv : w.sender.ring.Valid) : ∃ es khead',
    Lts.Run (WireStep packetCount) w es
      { sender := { w.sender with ring := TxRing.afterCall f w.sender.ring }, khead := khead' } := by
  unfold TxRing.afterCall
  split
  · rename_i ring' hc
    obtain ⟨freed, hroom, rfl⟩ := hf _ _ hv hc
    exact ⟨_, _, Lts.Run.single (WireStep.sync hroom)⟩
  · exact ⟨[], w.khead, Lts.Run.nil w⟩

/-- What the invariant of the send loop says of the ring, a run keeps. -/
theorem onWire_run {w' : Wire} {es : List WireEvent} (h : ∃ n, OnWire n w) (hr : Lts.Run (WireStep packetCount) w es w') :
    ∃ n, OnWire n w' := by
  refine hr.invariant (I := fun v => ∃ n, OnWire n v) ?_ h
  rintro v e v' ⟨n, hn⟩ hs
  cases hs with
  | round _ hc => exact ⟨_, (step_round hn hc).onWire⟩
  | sync _ => exact ⟨n, (step_sync hn _).1⟩

/-- A round of the program is a run of the send loop and the kernel. -/
theorem main_round_run (h : ∃ n, OnWire n w) (hi : w.sender.i < packetCount) (hk : k.Kernel)
    (hc : mainRound k w.sender = .ok (.next s')) :
    ∃ es khead', Lts.Run (WireStep packetCount) w es { sender := s', khead := khead' } := by
  have hv : w.sender.ring.Valid := h.elim fun _ hn => hn.serial.valid
  rw [mainRound_eq hv] at hc
  obtain ⟨r, hr, hc⟩ := of_bind_ok hc
  obtain ⟨s₁, rfl⟩ := sendRound_next hv hr
  cases hc
  have h1 := Lts.Run.single (WireStep.round hi hr)
  have hv1 : s₁.ring.Valid := (onWire_run h h1).elim fun _ hn => hn.serial.valid
  obtain ⟨es₂, khead₂, h2⟩ := run_afterCall packetCount (w := { w with sender := s₁ }) hk.ioctl hv1
  by_cases h0 : w.sender.ring.free = 0
  · have hv2 : (TxRing.syncIoctl k.ioctl s₁.ring).Valid := (synced_afterCall hk.ioctl hv1).valid hv1
    obtain ⟨es₃, khead₃, h3⟩ := run_afterCall packetCount
      (w := { sender := { s₁ with ring := TxRing.syncIoctl k.ioctl s₁.ring }, khead := khead₂ }) hk.poll hv2
    simp only [if_pos h0]
    exact ⟨_, khead₃, (h1.append h2).append h3⟩
  · simp only [if_neg h0]
    exact ⟨_, khead₂, h1.append h2⟩

/-- The program is a run of the send loop and the kernel, and ends when the counter is where it is to be. -/
theorem main_loop_run (h : ∃ n, OnWire n w) (hks : ∀ k ∈ ks, k.Kernel) {r : Option Sender}
    (hc : mainLoop packetCount ks w.sender = .ok r) :
    ∃ es w', Lts.Run (WireStep packetCount) w es w' ∧ ∀ s', r = some s' → w'.sender = s' ∧ packetCount ≤ s'.i := by
  induction ks generalizing w with
  | nil =>
    refine ⟨[], w, Lts.Run.nil w, ?_⟩
    intro s' hs
    rw [mainLoop] at hc
    split at hc
    · cases hc
      nomatch hs
    · cases hc
      cases hs
      exact ⟨rfl, by omega⟩
  | cons k ks ih =>
    rw [mainLoop] at hc
    split at hc
    · rename_i hi
      obtain ⟨round, hround, hc⟩ := of_bind_ok hc
      have hv : w.sender.ring.Valid := h.elim fun _ hn => hn.serial.valid
      have hnext : ∃ s', round = .next s' := by
        rw [mainRound_eq hv] at hround
        obtain ⟨r, hr, hround⟩ := of_bind_ok hround
        obtain ⟨s₁, rfl⟩ := sendRound_next hv hr
        cases hround
        exact ⟨_, rfl⟩
      obtain ⟨s', rfl⟩ := hnext
      obtain ⟨es, khead', hr⟩ := main_round_run h hi (hks k (by simp)) hround
      obtain ⟨es', w', hr', hend⟩ := ih (w := { sender := s', khead := khead' }) (onWire_run h hr)
        (fun k' hmem => hks k' (by simp [hmem])) hc
      exact ⟨es ++ es', w', hr.append hr', hend⟩
    · cases hc
      refine ⟨[], w, Lts.Run.nil w, ?_⟩
      intro s' hs
      cases hs
      exact ⟨rfl, by omega⟩

/-! ## The loop ends -/

/-- A round that the program makes on aligned buffers: it counts one when it found a slot free, and otherwise finds one next
time, if room was made. -/
theorem main_round_advances {n : Nat} (h : OnWire n w) (hk : k.Kernel)
    (ha : ∀ j < w.sender.ring.numSlots, w.sender.ring.bufPtr j % 64 = 0) (htwo : 2 ≤ w.sender.ring.numSlots) :
    ∃ s', mainRound k w.sender = .ok (.next s') ∧ SameBufs w.sender.ring s'.ring ∧
      ((0 < w.sender.ring.free ∧ s'.i = w.sender.i + 1) ∨
        (w.sender.ring.free = 0 ∧ s'.i = w.sender.i ∧ (k.MakesRoom → 0 < s'.ring.free))) := by
  have hv : w.sender.ring.Valid := h.serial.valid
  obtain ⟨s₁, hs₁⟩ := round_returns ⟨hv.addressed, hv.cur_eq⟩ hv.le ha
  have hdone := step_round h hs₁
  have hv1 : s₁.ring.Valid := hdone.onWire.serial.valid
  have hsync := synced_afterCall hk.ioctl hv1
  rw [mainRound_eq hv, hs₁, run_bind]
  by_cases h0 : w.sender.ring.free = 0
  · simp only [if_pos h0]
    have hsync2 := synced_afterCall hk.poll (hsync.valid hv1)
    have hsame : s₁ = w.sender := by
      rcases round_filled hv hs₁ with ⟨_, hs⟩ | ⟨hpos, _⟩
      · exact hs
      · omega
    refine ⟨_, rfl, hdone.bufs.trans (hsync.sameBufs.trans hsync2.sameBufs), Or.inr ⟨h0, ?_, ?_⟩⟩
    · rw [hsame]
    · intro hroom
      rw [hsame]
      exact hroom _ hv htwo h0
  · simp only [if_neg h0]
    rcases hdone.counted with ⟨hz, _⟩ | ⟨hpos, hi⟩
    · omega
    · exact ⟨_, rfl, hdone.bufs.trans hsync.sameBufs, Or.inl ⟨hpos, hi⟩⟩

/-- Two rounds that make room are enough for each packet, and one less when a slot is free, whatever other rounds there are. -/
theorem main_loop_ends {ks' : List Syncs} {n : Nat} (h : OnWire n w) (hks : ∀ k ∈ ks, k.Kernel) (hsub : ks'.Sublist ks)
    (hroom : ∀ k ∈ ks', k.MakesRoom) (ha : ∀ j < w.sender.ring.numSlots, w.sender.ring.bufPtr j % 64 = 0)
    (htwo : 2 ≤ w.sender.ring.numSlots) (hi : w.sender.i ≤ packetCount)
    (hlen : 2 * (packetCount - w.sender.i) ≤ ks'.length ∨
      (0 < w.sender.ring.free ∧ 2 * (packetCount - w.sender.i) ≤ ks'.length + 1)) :
    ∃ s, mainLoop packetCount ks w.sender = .ok (some s) ∧ s.i = packetCount := by
  induction ks generalizing w n ks' with
  | nil =>
    rw [List.sublist_nil.mp hsub, List.length_nil] at hlen
    refine ⟨w.sender, ?_, by omega⟩
    rw [mainLoop, if_neg (by omega)]
  | cons k ks ih =>
    rw [mainLoop]
    by_cases hlt : w.sender.i < packetCount
    · rw [if_pos hlt]
      obtain ⟨hk, hks⟩ := List.forall_mem_cons.mp hks
      obtain ⟨s', hround, hbufs, hcount⟩ := main_round_advances h hk ha htwo
      obtain ⟨es, khead', hr⟩ := main_round_run ⟨n, h⟩ hlt hk hround
      obtain ⟨n', hn'⟩ := onWire_run ⟨n, h⟩ hr
      rw [hround, run_bind]
      have ha' : ∀ j < s'.ring.numSlots, s'.ring.bufPtr j % 64 = 0 := by
        intro j hj
        rw [hbufs.numSlots] at hj
        rw [hbufs.bufPtr]
        exact ha j hj
      have htwo' : 2 ≤ s'.ring.numSlots := by
        rw [hbufs.numSlots]
        exact htwo
      rcases List.sublist_cons_iff.mp hsub with hrest | ⟨ks'', rfl, hrest⟩
      · exact ih hn' hks hrest hroom ha' htwo' (by dsimp only; omega) (by dsimp only; omega)
      · obtain ⟨hmakes, hroom⟩ := List.forall_mem_cons.mp hroom
        rw [List.length_cons] at hlen
        refine ih hn' hks hrest hroom ha' htwo' (by dsimp only; omega) ?_
        dsimp only
        rcases hcount with ⟨_, hi'⟩ | ⟨_, hi', hfree⟩
        · omega
        · have hpos := hfree hmakes
          omega
    · rw [if_neg hlt]
      exact ⟨w.sender, rfl, by omega⟩

end MainLoopAux

open MainLoopAux GeneratorStreamAux

/-- However the rounds of the program go, its syncs being TX syncs of the kernel when they succeed, what is seen is a run of the
send loop and the kernel: the packets taken followed by those in flight are the generated packets, from the first one on; and
a program that has ended has counted to the number it was given, and published no fewer packets. When the buffers begin at
multiples of 64 and two rounds or more for each packet make room on a full ring, however many do not, the program ends. -/
theorem main_loop_sends {packetCount : Nat} {ks : List Syncs} {w : Wire} (h0 : w.Start) (hks : ∀ k ∈ ks, k.Kernel) :
    (∀ r, mainLoop packetCount ks w.sender = .ok r → ∃ es w', Lts.Run (WireStep packetCount) w es w' ∧
      es.flatMap WireEvent.taken ++ w'.tx.inFlight = (List.range (publishedIn es)).map (fun k => bytes (generated k)) ∧
      ∀ s', r = some s' → w'.sender = s' ∧ s'.i = packetCount ∧ packetCount ≤ publishedIn es) ∧
    ∀ ks' : List Syncs, ks'.Sublist ks → (∀ k ∈ ks', k.MakesRoom) → 2 * packetCount ≤ ks'.length →
      (∀ j < w.sender.ring.numSlots, w.sender.ring.bufPtr j % 64 = 0) → 2 ≤ w.sender.ring.numSlots →
      ∃ s', mainLoop packetCount ks w.sender = .ok (some s') ∧ s'.i = packetCount := by
  have hstart : Streamed packetCount [] w := Streamed.start h0
  refine ⟨?_, ?_⟩
  · intro r hc
    obtain ⟨es, w', hr, hend⟩ := main_loop_run ⟨0, hstart.onWire⟩ hks hc
    have hall := streamed_run h0 hr
    have hle := hall.counted
    have hmin := hall.atLeast
    refine ⟨es, w', hr, hall.packets, ?_⟩
    intro s' hs
    obtain ⟨rfl, hcount⟩ := hend s' hs
    exact ⟨rfl, by omega, by omega⟩
  · intro ks' hsub hroom hlen ha htwo
    have hi := h0.i_eq
    exact main_loop_ends hstart.onWire hks hsub hroom ha htwo (by omega) (Or.inl (by omega))

namespace MainLoopAux

/-- Buffers of 2048 bytes of a fresh ring begin at multiples of 64. -/
theorem aligned_fresh (n head tail j : Nat) : (fresh n 2048 head tail).bufPtr j % 64 = 0 := by
  change (4096 + 4096 + j * 2048) % 64 = 0
  omega

/-- A kernel that gives every slot back at a sync. -/
def prompt : Syncs where
  ioctl s := .ok (s.txSync (s.numSlots - 1 - s.free))
  poll s := .ok (s.txSync (s.numSlots - 1 - s.free))

theorem prompt_kernel : prompt.Kernel := by
  have hcall : SyncsTx prompt.ioctl := by
    intro s s' h hs
    have hlt := h.free_lt
    cases hs
    exact ⟨_, by omega, rfl⟩
  exact ⟨hcall, hcall⟩

theorem prompt_makesRoom : prompt.MakesRoom := by
  intro s h htwo h0
  have hioctl : (TxRing.syncIoctl prompt.ioctl s).free = s.numSlots - 1 := by
    change (s.txSync (s.numSlots - 1 - s.free)).free = _
    rw [free_txSync h (by omega)]
    omega
  have hv : (TxRing.syncIoctl prompt.ioctl s).Valid := h.txSync _
  have hn : (TxRing.syncIoctl prompt.ioctl s).numSlots = s.numSlots := rfl
  change 0 < ((TxRing.syncIoctl prompt.ioctl s).txSync _).free
  rw [free_txSync hv (by omega)]
  omega

/-- A kernel whose system calls are interrupted. -/
def interrupted : Syncs where
  ioctl _ := .error 4
  poll _ := .error 4

theorem interrupted_kernel : interrupted.Kernel := by
  have hcall : SyncsTx interrupted.ioctl := by
    intro s s' _ hs
    cases hs
  exact ⟨hcall, hcall⟩

end MainLoopAux

/-- `main_loop_sends` for one packet, on a full ring, with a first round that is interrupted. -/
theorem main_loop_sends_one : ∃ s' es w',
    mainLoop 1 [interrupted, prompt, prompt] { ring := fresh 4 2048 0 0, currentPacketZmm := templateZmm, i := 0 } =
        .ok (some s') ∧
      Lts.Run (WireStep 1) { sender := ⟨fresh 4 2048 0 0, templateZmm, 0⟩, khead := 0 } es w' ∧ w'.sender = s' ∧
      1 ≤ publishedIn es := by
  have h0 : Wire.Start { sender := ⟨fresh 4 2048 0 0, templateZmm, 0⟩, khead := 0 } := Wire.start_fresh (by decide)
  have hall := @main_loop_sends 1 [interrupted, prompt, prompt] _ h0 (by simp [interrupted_kernel, prompt_kernel])
  obtain ⟨s', hs', _⟩ := hall.2 [prompt, prompt] (List.sublist_cons_self _ _) (by simp [prompt_makesRoom]) (Nat.le_refl 2)
    (fun j _ => aligned_fresh 4 0 0 j) (by decide)
  obtain ⟨es, w', hr, _, hend⟩ := hall.1 _ hs'
  obtain ⟨hw, _, hpub⟩ := hend s' rfl
  exact ⟨s', es, w', hs', hr, hw, hpub⟩

end NetHelper
