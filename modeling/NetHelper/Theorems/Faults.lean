import NetHelper.Theorems.MainLoop

/-!
# Where the program faults

The stores of the generator want addresses that are multiples of 64, and nobody sees to it that the buffers begin at such. A round
of the loop faults when one of the slots it is given has a buffer that does not, at the first of them, and else runs through
(`round_stops`). Nothing else ever stops the program: no index overflows and no call panics (`faults_at_buffers`).
-/

namespace NetHelper

open Checked Mm512 Generator RingMem

/-- The buffer of a slot begins at a multiple of 64. -/
def RingMem.Aligned (s : RingMem) (i : Nat) : Prop := s.bufPtr i % 64 = 0

namespace FaultsAux

open SendLoopAux GeneratorStreamAux MainLoopAux

variable {packetCount : Nat} {b : BatchReservation} {s : RingMem} {f : Filling} {v : Zmm} {w w' : Wire} {es : List WireEvent}

/-! ## One round -/

/-- Filling a batch ends at the first entry whose buffer is not aligned, or at the end. -/
theorem fillLoop_stops {k z : Nat} (hn : s.numSlots < 2 ^ 32) (hb : b.count < s.numSlots) (hov : b.start + b.count ≤ 2 ^ 32)
    (hk : z + k ≤ b.count) (h : f.After s v z) :
    ((∃ f', fillLoop b k z f = .ok f') ∧ ∀ y, z ≤ y → y < z + k → s.Aligned (entrySlot b s.numSlots y)) ∨
      ∃ y < z + k, ¬s.Aligned (entrySlot b s.numSlots y) ∧
        fillLoop b k z f = .error (.misaligned (s.bufPtr (entrySlot b s.numSlots y))) := by
  induction k generalizing z f with
  | zero => exact Or.inl ⟨⟨f, rfl⟩, fun y hy hlt => by omega⟩
  | succ k ih =>
    have he : fillEntry b f z = if s.bufPtr (entrySlot b s.numSlots z) % 64 = 0 then
        .ok (f.put (entrySlot b s.numSlots z)) else .error (.misaligned (s.bufPtr (entrySlot b s.numSlots z))) := by
      rw [fillEntry_eq (by rwa [h.bufs.numSlots]) (by rwa [h.bufs.numSlots]) (by omega), if_pos (by omega),
        h.bufs.numSlots, h.bufs.bufPtr]
    rw [fillLoop, he]
    by_cases ha : s.bufPtr (entrySlot b s.numSlots z) % 64 = 0
    · rw [if_pos ha, run_bind]
      rcases ih (by omega) (h.put (i := entrySlot b s.numSlots z)) with ⟨hret, hall⟩ | ⟨y, hy, hmis, hstop⟩
      · refine Or.inl ⟨hret, ?_⟩
        intro y hy hlt
        rcases Nat.eq_or_lt_of_le hy with rfl | hy
        · exact ha
        · exact hall y hy (by omega)
      · exact Or.inr ⟨y, by omega, hmis, hstop⟩
    · rw [if_neg ha, stop_bind]
      exact Or.inr ⟨z, by omega, ha, rfl⟩

/-- A round runs through and another follows, and every slot it was given is aligned; or it faults at one that is not. -/
theorem round_stops {s : Sender} (h : s.ring.Valid) :
    ((∃ s', sendRound s = .ok (.next s')) ∧ ∀ j ∈ s.ring.owned, s.ring.Aligned j) ∨
      ∃ j ∈ s.ring.owned, ¬s.ring.Aligned j ∧ sendRound s = .error (.misaligned (s.ring.bufPtr j)) := by
  have hle := h.le
  have hlt := h.free_lt
  have hh := h.head_lt
  have hmem : ∀ j, j ∈ s.ring.owned ↔ ∃ y < s.ring.free, Circ.adv s.ring.numSlots s.ring.head y = j :=
    fun j => Circ.mem_span
  unfold sendRound
  rw [TxRing.reserveAll_eq h, call, run_bind]
  by_cases h0 : s.ring.free = 0
  · left
    rw [if_pos h0]
    refine ⟨⟨s, rfl⟩, ?_⟩
    intro j hj
    obtain ⟨y, hy, _⟩ := (hmem j).mp hj
    omega
  · rw [if_neg h0]
    have hcases := fillLoop_stops (b := { start := s.ring.head, count := s.ring.free }) (k := s.ring.free)
      (v := s.currentPacketZmm) (by omega) hlt (by dsimp only; omega) (by rw [Nat.zero_add]) Filling.after_start
    rw [Nat.zero_add] at hcases
    unfold Filling.start at hcases
    rcases hcases with ⟨⟨f, hf⟩, hall⟩ | ⟨y, hy, hmis, hstop⟩
    · left
      have hn := (fillLoop_after (b := { start := s.ring.head, count := s.ring.free }) (by omega) hlt
        (Nat.le_refl _) hf).bufs.numSlots
      have hfits : BatchReservation.Fits { start := s.ring.head, count := s.ring.free } f.ring := by
        refine ⟨?_, ?_⟩
        · rwa [hn]
        · rw [hn]
          exact Nat.le_of_lt hlt
      dsimp only
      rw [hf, run_bind, BatchReservation.commit_eq hfits (by rwa [hn]), call, run_bind]
      refine ⟨⟨_, rfl⟩, ?_⟩
      intro j hj
      obtain ⟨y, hy, rfl⟩ := (hmem j).mp hj
      exact hall y (Nat.zero_le y) hy
    · right
      dsimp only
      rw [hstop, stop_bind]
      exact ⟨_, (hmem _).mpr ⟨y, hy, rfl⟩, hmis, rfl⟩

/-! ## Runs -/

/-- The buffers stay where they are. -/
theorem bufs_run (h : ∃ n, OnWire n w) (hr : Lts.Run (WireStep packetCount) w es w') :
    (∃ n, OnWire n w') ∧ SameBufs w.sender.ring w'.sender.ring := by
  refine hr.invariant (I := fun u => (∃ n, OnWire n u) ∧ SameBufs w.sender.ring u.sender.ring) ?_ ⟨h, SameBufs.refl _⟩
  rintro u e u' ⟨⟨n, hn⟩, hbufs⟩ hs
  cases hs with
  | round _ hc =>
    have hd := step_round hn hc
    exact ⟨⟨_, hd.onWire⟩, hbufs.trans hd.bufs⟩
  | sync _ => exact ⟨⟨n, (step_sync hn _).1⟩, hbufs.trans (sameBufs_txSync _)⟩

/-- The loop is stopped by nothing but a buffer that is not aligned. -/
theorem main_loop_stops {ks : List Syncs} (h : ∃ n, OnWire n w) (hks : ∀ k ∈ ks, k.Kernel) {e : Stop}
    (hc : mainLoop packetCount ks w.sender = .error e) :
    ∃ j < w.sender.ring.numSlots, ¬w.sender.ring.Aligned j ∧ e = .misaligned (w.sender.ring.bufPtr j) := by
  induction ks generalizing w with
  | nil =>
    rw [mainLoop] at hc
    split at hc <;> cases hc
  | cons k ks ih =>
    have hv : w.sender.ring.Valid := h.elim fun _ hn => hn.serial.valid
    rw [mainLoop] at hc
    by_cases hi : w.sender.i < packetCount
    · rw [if_pos hi] at hc
      obtain ⟨hk, hks⟩ := List.forall_mem_cons.mp hks
      rcases round_stops hv with ⟨⟨s₁, hs₁⟩, _⟩ | ⟨j, hj, hmis, hstop⟩
      · cases hround : mainRound k w.sender with
        | error e' =>
          rw [mainRound_eq hv, hs₁] at hround
          cases hround
        | ok r =>
          have hnext : ∃ s', r = .next s' := by
            rw [mainRound_eq hv, hs₁] at hround
            cases hround
            exact ⟨_, rfl⟩
          obtain ⟨s', rfl⟩ := hnext
          rw [hround, run_bind] at hc
          obtain ⟨es, khead', hr⟩ := main_round_run h hi hk hround
          obtain ⟨hon, hbufs⟩ := bufs_run h hr
          obtain ⟨j, hj, hmis, rfl⟩ := ih (w := { sender := s', khead := khead' }) hon hks hc
          rw [Aligned, hbufs.bufPtr] at hmis
          rw [hbufs.numSlots] at hj
          rw [hbufs.bufPtr]
          exact ⟨j, hj, hmis, rfl⟩
      · rw [mainRound_eq hv, hstop, stop_bind, stop_bind] at hc
        cases hc
        exact ⟨j, ((Circ.mem_window_iff hv.head_lt).mp hj).1, hmis, rfl⟩
    · rw [if_neg hi] at hc
      cases hc

/-! ## A kernel that brings the fault about -/

/-- A round at which the program faults. -/
theorem main_loop_faults {k : Syncs} {ks : List Syncs} (hv : w.sender.ring.Valid) (hi : w.sender.i < packetCount) {j : Nat}
    (hj : j ∈ w.sender.ring.owned) (hmis : ¬w.sender.ring.Aligned j) :
    ∃ e, mainLoop packetCount (k :: ks) w.sender = .error e := by
  rcases round_stops hv with ⟨_, hall⟩ | ⟨j', _, _, hstop⟩
  · exact absurd (hall j hj) hmis
  · rw [mainLoop, if_pos hi, mainRound_eq hv, hstop]
    exact ⟨_, rfl⟩

/-- Once all slots that can be free are free, the only one that is not is behind the last one published. -/
theorem mem_owned_of_free {s : RingMem} (h : s.Valid) (hfree : s.free = s.numSlots - 1) {j : Nat} (hj : j < s.numSlots)
    (hne : j ≠ Circ.adv s.numSlots s.head (s.numSlots - 1)) : j ∈ s.owned := by
  have hlt : Circ.dist s.numSlots s.head j < s.numSlots := Circ.dist_lt h.pos
  refine (Circ.mem_window_iff h.head_lt).mpr ⟨hj, ?_⟩
  have hdist : Circ.dist s.numSlots s.head s.tail = s.numSlots - 1 := hfree
  rw [hdist]
  by_contra hno
  have hlast : Circ.dist s.numSlots s.head j = s.numSlots - 1 := by omega
  have hadv := Circ.adv_dist h.head_lt hj
  rw [hlast] at hadv
  exact hne hadv.symm

/-- When a slot is free, the second round finds all slots free but one that the first has filled. -/
theorem faults_of_free {n j : Nat} (h : OnWire n w) (hi : w.sender.i + 1 < packetCount) (hpos : 0 < w.sender.ring.free)
    (hj : j < w.sender.ring.numSlots) (hmis : ¬w.sender.ring.Aligned j) :
    ∃ e, mainLoop packetCount [prompt, prompt] w.sender = .error e := by
  have hv : w.sender.ring.Valid := h.serial.valid
  rcases round_stops hv with ⟨⟨s₁, hs₁⟩, hall⟩ | ⟨j', hj', hmis', _⟩
  · have hd := step_round h hs₁
    have hv₁ : s₁.ring.Valid := hd.onWire.serial.valid
    have hn₁ : s₁.ring.numSlots = w.sender.ring.numSlots := hd.bufs.numSlots
    have hlt := hv.free_lt
    have hcount : s₁.i = w.sender.i + 1 := by
      rcases hd.counted with ⟨h0, _⟩ | ⟨_, hcount⟩
      · omega
      · exact hcount
    have hround : mainRound prompt w.sender =
        .ok (.next { s₁ with ring := s₁.ring.txSync (s₁.ring.numSlots - 1 - s₁.ring.free) }) := by
      rw [mainRound_eq hv, hs₁, run_bind]
      simp only [if_neg (Nat.ne_of_gt hpos)]
      rfl
    have hfree : (s₁.ring.txSync (s₁.ring.numSlots - 1 - s₁.ring.free)).free = s₁.ring.numSlots - 1 := by
      have hlt₁ := hv₁.free_lt
      rw [free_txSync hv₁ (by omega)]
      omega
    -- the slot behind the last one published was given at the first round
    have hhead : s₁.ring.head = Circ.adv w.sender.ring.numSlots w.sender.ring.head w.sender.ring.free := by
      have hhead₁ := hv₁.head_lt
      rw [hn₁] at hhead₁
      rw [← hd.published, Circ.adv_dist hv.head_lt hhead₁]
    have hne : j ≠ Circ.adv s₁.ring.numSlots s₁.ring.head (s₁.ring.numSlots - 1) := by
      rintro rfl
      refine hmis (hall _ (Circ.mem_span.mpr ⟨w.sender.ring.free - 1, ?_, ?_⟩))
      · change w.sender.ring.free - 1 < w.sender.ring.free
        omega
      · rw [hn₁, hhead, Circ.adv_adv]
        have hsum : w.sender.ring.free + (w.sender.ring.numSlots - 1) =
            w.sender.ring.free - 1 + w.sender.ring.numSlots := by omega
        rw [hsum, Circ.adv, Circ.adv, ← Nat.add_assoc, Nat.add_mod_right]
    have hmis₁ : ¬(s₁.ring.txSync (s₁.ring.numSlots - 1 - s₁.ring.free)).Aligned j := by
      change ¬s₁.ring.bufPtr j % 64 = 0
      rw [hd.bufs.bufPtr]
      exact hmis
    have hmem : j ∈ (s₁.ring.txSync (s₁.ring.numSlots - 1 - s₁.ring.free)).owned :=
      mem_owned_of_free (hv₁.txSync _) hfree (by rw [← hn₁] at hj; exact hj) hne
    rw [mainLoop, if_pos (by omega), hround, run_bind]
    refine main_loop_faults (w := ⟨{ s₁ with ring := s₁.ring.txSync (s₁.ring.numSlots - 1 - s₁.ring.free) }, 0⟩)
      (hv₁.txSync _) ?_ hmem hmis₁
    change s₁.i < packetCount
    omega
  · exact main_loop_faults hv (by omega) hj' hmis'

/-- A kernel that gives one slot back when asked to sync, and nothing at a poll. -/
def sparing : Syncs where
  ioctl s := .ok (s.txSync (if s.free = 0 ∧ 2 ≤ s.numSlots then 1 else 0))
  poll _ := .error 4

theorem sparing_kernel : sparing.Kernel := by
  refine ⟨?_, fun _ _ _ hs => ?_⟩
  · intro s s' h hs
    have hlt := h.free_lt
    cases hs
    refine ⟨_, ?_, rfl⟩
    split <;> omega
  · cases hs

end FaultsAux

open FaultsAux GeneratorStreamAux MainLoopAux

/-- The program is stopped by nothing but a store to a buffer that does not begin at a multiple of 64; and when it has two packets
or more to send, on a ring of two slots or more, no kernel can bring it to that exactly when every buffer begins at one. -/
theorem faults_at_buffers {packetCount : Nat} {w : Wire} (h0 : w.Start) :
    (∀ ks : List Syncs, (∀ k ∈ ks, k.Kernel) → ∀ e, mainLoop packetCount ks w.sender = .error e →
        ∃ j < w.sender.ring.numSlots, ¬w.sender.ring.Aligned j ∧ e = .misaligned (w.sender.ring.bufPtr j)) ∧
      (2 ≤ packetCount → 2 ≤ w.sender.ring.numSlots →
        ((∀ ks : List Syncs, (∀ k ∈ ks, k.Kernel) → ∀ e, mainLoop packetCount ks w.sender ≠ .error e) ↔
          ∀ j < w.sender.ring.numSlots, w.sender.ring.Aligned j)) := by
  have hstart : Streamed packetCount [] w := Streamed.start h0
  have hon := hstart.onWire
  have hstops : ∀ ks : List Syncs, (∀ k ∈ ks, k.Kernel) → ∀ e, mainLoop packetCount ks w.sender = .error e →
      ∃ j < w.sender.ring.numSlots, ¬w.sender.ring.Aligned j ∧ e = .misaligned (w.sender.ring.bufPtr j) :=
    fun ks hks e hc => main_loop_stops ⟨_, hon⟩ hks hc
  refine ⟨hstops, ?_⟩
  intro hcount htwo
  constructor
  · intro hnever j hj
    by_contra hmis
    have hi := h0.i_eq
    have hsecond : w.sender.i + 1 < packetCount := by omega
    have hv : w.sender.ring.Valid := hon.serial.valid
    rcases Nat.eq_zero_or_pos w.sender.ring.free with hz | hpos
    · -- the first round waits for a slot, and is given one
      have hround : mainRound sparing w.sender = .ok (.next { w.sender with ring := w.sender.ring.txSync 1 }) := by
        have hsend : sendRound w.sender = .ok (.next w.sender) := by
          unfold sendRound
          rw [TxRing.reserveAll_eq hv, if_pos hz]
          rfl
        rw [mainRound_eq hv, hsend, run_bind]
        simp only [if_pos hz]
        have hsync : TxRing.syncIoctl sparing.ioctl w.sender.ring = w.sender.ring.txSync 1 := by
          change w.sender.ring.txSync (if w.sender.ring.free = 0 ∧ 2 ≤ w.sender.ring.numSlots then 1 else 0) = _
          rw [if_pos ⟨hz, htwo⟩]
        rw [hsync]
        rfl
      obtain ⟨hon', _⟩ := step_sync hon 1
      have hfree : (w.sender.ring.txSync 1).free = 1 := by
        rw [free_txSync hv (by omega), hz]
      obtain ⟨e, he⟩ := faults_of_free hon' hsecond (Nat.lt_of_lt_of_eq Nat.one_pos hfree.symm) hj hmis
      refine hnever [sparing, prompt, prompt] (by simp [sparing_kernel, prompt_kernel]) e ?_
      rw [mainLoop, if_pos (by omega), hround, run_bind]
      exact he
    · obtain ⟨e, he⟩ := faults_of_free hon hsecond hpos hj hmis
      exact hnever [prompt, prompt] (by simp [prompt_kernel]) e he
  · intro hall ks hks e hc
    obtain ⟨j, hj, hmis, _⟩ := hstops ks hks e hc
    exact hmis (hall j hj)

/-- `faults_at_buffers` for two packets on a ring whose buffers of 272 bytes do not all begin at multiples of 64. -/
theorem faults_at_buffers_of_272 : ∃ ks e, (∀ k ∈ ks, Syncs.Kernel k) ∧
    mainLoop 2 ks { ring := fresh 4 272 0 2, currentPacketZmm := templateZmm, i := 0 } = .error e ∧
      ∃ j < 4, e = .misaligned ((fresh 4 272 0 2).bufPtr j) := by
  have h0 : Wire.Start { sender := ⟨fresh 4 272 0 2, templateZmm, 0⟩, khead := 0 } := Wire.start_fresh (by decide)
  obtain ⟨hstops, hiff⟩ := @faults_at_buffers 2 _ h0
  have hnot : ¬∀ j < 4, (fresh 4 272 0 2).Aligned j := by
    intro hall
    have h1 : (fresh 4 272 0 2).bufPtr 1 % 64 = 0 := hall 1 (by decide)
    exact absurd h1 (by decide)
  have hfault := mt (hiff (Nat.le_refl 2) (by decide)).mp hnot
  simp only [not_forall, ne_eq, not_not] at hfault
  obtain ⟨ks, hks, e, he⟩ := hfault
  obtain ⟨j, hj, _, heq⟩ := hstops ks hks e he
  exact ⟨ks, e, hks, he, j, hj, heq⟩

end NetHelper
