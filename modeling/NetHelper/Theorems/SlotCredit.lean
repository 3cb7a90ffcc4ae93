import Mathlib.Algebra.GroupWithZero.Nat
import NetHelper.Theorems.TxProtocol

/-!
# The slots of a TX ring in account

A packet accepted costs a slot of the window, a slot the kernel gives back adds one, and nothing else changes their number: a
reservation costs what is committed of it, and one that is dropped costs nothing (`TxSys.Serial.credit_step`). So no slot is
ever lost or used twice, and from what has happened so far it is known what the next call will do (`tx_credit`).
-/

namespace NetHelper

open RingMem

/-- The number of slots that the kernel has given back. -/
def TxEvent.freed : TxEvent → Nat
  | .sync _ freed => freed
  | _ => 0

/-- The number of slots that the kernel has given back in a run. -/
def TxEvent.totalFreed (es : List TxEvent) : Nat := (es.map TxEvent.freed).sum

namespace TxSys.Serial

variable {s s' : TxSys} {e : TxEvent}

/-- One step: what is free and what was accepted, against what was free and what was given back. -/
theorem credit_step (hs : s.Serial) (h : DisciplinedStep s e s') :
    s'.ring.free + e.act.ins.length = s.ring.free + e.freed := by
  obtain ⟨hd, ht⟩ := h
  cases ht with
  | @send buf _ _ hc =>
    rcases TxRing.send_cases hs.valid hc with ⟨_, rfl, rfl⟩ | ⟨rfl, _, hf, rfl⟩
    · rfl
    · have hleft : ((s.ring.fill s.ring.head buf).advance 1).free = s.ring.free - 1 := hs.valid.fill.free_advance hf
      change _ + 1 = s.ring.free + 0
      rw [hleft]
      omega
  | @reserveAll res _ => cases res <;> rfl
  | reserveBatch => exact absurd hd id
  | packet hh hc =>
    obtain ⟨rfl, rfl, hf⟩ := hs.held_eq hh
    rcases BatchReservation.packet_store (hs.res_fits hf) hs.valid.le hc with ⟨_, he, _⟩ | ⟨_, sl', hsl, _, _, hst⟩
    · cases he
    · cases hsl
      rw [hst]
      rfl
  | packetErr hh hc =>
    obtain ⟨rfl, rfl, hf⟩ := hs.held_eq hh
    rcases BatchReservation.packet_store (hs.res_fits hf) hs.valid.le hc with ⟨_, _, rfl⟩ | ⟨_, sl', hsl, _⟩
    · rfl
    · cases hsl
  | @commit _ _ h written ring' hh hc =>
    obtain ⟨rfl, rfl, hf⟩ := hs.held_eq hh
    have hcount : h.res.count = s.ring.free := by rw [hf.res_eq]
    have hstart : h.res.start = s.ring.head := by rw [hf.res_eq]
    have hlen : (TxEvent.commit h written).act.ins.length = written := by
      simp [TxEvent.act, Fifo.Act.ins, Held.packets, Nat.min_eq_left hd.1]
    rw [BatchReservation.commit_eq (hs.res_fits hf) hs.valid.le, Nat.min_eq_left hd.1, hstart] at hc
    rw [hlen]
    split at hc
    · cases hc
      simp_all [TxEvent.freed]
    · have hring : ring' = s.ring.advance written := by
        cases hc
        rfl
      have hle : written ≤ s.ring.free := hcount ▸ hd.1
      have hleft : ring'.free = s.ring.free - written := by
        rw [hring]
        exact hs.valid.free_advance hle
      change ring'.free + written = s.ring.free + 0
      omega
  | drop => rfl
  | sync hroom => exact free_txSync hs.valid hroom

/-- A whole run. -/
theorem credit_run {s₀ : TxSys} {es : List TxEvent} (h0 : s₀.Serial) (hr : Lts.Run DisciplinedStep s₀ es s) :
    s.ring.free + (TxEvent.accepted es).length = s₀.ring.free + TxEvent.totalFreed es := by
  induction hr with
  | nil => rfl
  | @snoc t u es e hr hs ih =>
    have ht : t.Serial := hr.invariant (fun _ _ _ hs h => (hs.step h).1) h0
    have hstep := ht.credit_step hs
    have hacc : TxEvent.accepted (es ++ [e]) = TxEvent.accepted es ++ e.act.ins := by
      simp [TxEvent.accepted]
    have hfreed : TxEvent.totalFreed (es ++ [e]) = TxEvent.totalFreed es + e.freed := by
      simp [TxEvent.totalFreed]
    rw [hacc, hfreed, List.length_append]
    omega

end TxSys.Serial

/-- Over every run of a disciplined user and the kernel, the slots free and the packets accepted are the slots that were free
and those given back, however many reservations were committed in part or dropped. So a packet that fits is refused exactly
when as many packets were accepted as slots were free at the start or given back since, and otherwise sent; and `reserve_all`
is refused then too, and otherwise gives all that is left. -/
theorem tx_credit {s₀ s : TxSys} {es : List TxEvent} (h0 : s₀.Start) (hr : Lts.Run DisciplinedStep s₀ es s) :
    s.ring.free + (TxEvent.accepted es).length = s₀.ring.free + TxEvent.totalFreed es ∧
      (∀ buf : Bytes, buf.length ≤ s.ring.nrBufSize →
        TxRing.send s.ring buf =
          if (TxEvent.accepted es).length = s₀.ring.free + TxEvent.totalFreed es then
            .ok (.error .insufficientSpace, s.ring)
          else .ok (.ok (), (s.ring.fill s.ring.head buf).advance 1)) ∧
      TxRing.reserveAll s.ring =
        if (TxEvent.accepted es).length = s₀.ring.free + TxEvent.totalFreed es then .ok (.error .insufficientSpace)
        else
          let left := s₀.ring.free + TxEvent.totalFreed es - (TxEvent.accepted es).length
          .ok (.ok ({ start := s.ring.head, count := left }, left)) := by
  have hs : s.Serial := hr.invariant (fun _ _ _ hs h => (hs.step h).1) h0.serial.1
  have hcredit := TxSys.Serial.credit_run h0.serial.1 hr
  have hfree : s.ring.free = s₀.ring.free + TxEvent.totalFreed es - (TxEvent.accepted es).length := by omega
  refine ⟨hcredit, ?_, ?_⟩
  · intro buf hbuf
    split
    · exact TxRing.send_full hs.valid hbuf (by omega)
    · exact TxRing.send_ok hs.valid hbuf (by omega)
  · rw [TxRing.reserveAll_eq hs.valid, ← hfree]
    split
    · rw [if_pos (by omega)]
    · rw [if_neg (by omega)]

/-- `tx_credit` at a run in which a reservation of two slots is dropped and a packet is sent: the next reservation has the
other slot. -/
theorem tx_credit_dropped : ∃ s es, Lts.Run DisciplinedStep { ring := fresh 4 64 0 2, khead := 0, held := [] } es s ∧
    es.length = 3 ∧ TxRing.reserveAll s.ring = .ok (.ok ({ start := 1, count := 1 }, 1)) := by
  have h0 : TxSys.Start { ring := fresh 4 64 0 2, khead := 0, held := [] } := TxSys.start_fresh (by decide)
  have h1 : DisciplinedStep { ring := fresh 4 64 0 2, khead := 0, held := [] }
      (.reserveAll (.ok ({ start := 0, count := 2 }, 2))) _ := ⟨rfl, TxStep.reserveAll rfl⟩
  have h2 : DisciplinedStep { ring := fresh 4 64 0 2, khead := 0, held := [⟨{ start := 0, count := 2 }, fun _ => none⟩] }
      (.drop ⟨{ start := 0, count := 2 }, fun _ => none⟩) { ring := fresh 4 64 0 2, khead := 0, held := [] } :=
    ⟨trivial, TxStep.drop (l := []) (r := []) rfl⟩
  have h3 : DisciplinedStep { ring := fresh 4 64 0 2, khead := 0, held := [] } (.send [7] (.ok ()))
      { ring := ((fresh 4 64 0 2).fill 0 [7]).advance 1, khead := 0, held := [] } :=
    ⟨rfl, TxStep.send (TxRing.send_ok h0.serial.1.valid (by decide) (by decide))⟩
  have hr := Lts.Run.snoc (Lts.Run.snoc (Lts.Run.single h1) h2) h3
  obtain ⟨_, _, hall⟩ := tx_credit h0 hr
  exact ⟨_, _, hr, rfl, hall⟩

end NetHelper
