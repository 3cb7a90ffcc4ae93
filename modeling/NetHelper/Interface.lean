import Mathlib.Data.Set.Basic
import NetHelper.Lib.Shared
import NetHelper.RxSystem
import NetHelper.Theorems.TxProtocol

/-!
# The rings of an interface

An interface has several TX and RX rings, and one memory: the rings of a handle from `netmap.rs` lie in one mapping, and take
their packet buffers from one pool. Each ring is in use as `TxSystem.lean` and `RxSystem.lean` say, and all of them are in
use at once. When the kernel syncs an RX ring, it stores into the buffers of that ring only.
-/

namespace NetHelper

namespace RingMem

/-- The ring with another memory behind it. -/
def withMem (s : RingMem) (m : Memory) : RingMem := { s with mem := m }

/-- The bytes of the buffers of a ring. -/
def cells (s : RingMem) : Set Nat := {a | ∃ i < s.numSlots, s.bufPtr i ≤ a ∧ a < s.bufPtr i + s.nrBufSize}

/-- Two rings of one pool with no buffer in common. -/
structure OtherBuffers (s t : RingMem) : Prop where
  base : s.addr + s.bufOfs = t.addr + t.bufOfs
  size : s.nrBufSize = t.nrBufSize
  bufIdx : ∀ i < s.numSlots, ∀ j < t.numSlots, (s.slot i).bufIdx ≠ (t.slot j).bufIdx

/-- The packets waiting in an RX ring fit their buffers. -/
def Fitting (s : RingMem) : Prop := ∀ i ∈ s.owned, (s.slot i).len ≤ s.nrBufSize

end RingMem

/-- A step of an RX ring, at which nothing is stored outside its buffers. -/
def OwnRxStep (s : RingMem) (e : RxEvent) (s' : RingMem) : Prop := RxStep s e s' ∧ ∀ a ∉ s.cells, s'.mem a = s.mem a

/-- A ring of an interface. -/
inductive RingName (ι κ : Type) where
  | tx (i : ι)
  | rx (k : κ)
  deriving DecidableEq

namespace Interface

variable {ι κ : Type}

/-- What a ring of each kind is. -/
def State : RingName ι κ → Type
  | .tx _ => TxSys
  | .rx _ => RingMem

/-- What happens to a ring of each kind. -/
def Event : RingName ι κ → Type
  | .tx _ => TxEvent
  | .rx _ => RxEvent

/-- The ring in memory. -/
def ring : (n : RingName ι κ) → State n → RingMem
  | .tx _, s => s.ring
  | .rx _, s => s

/-- A ring with another memory behind it. -/
def withMem : (n : RingName ι κ) → State n → Memory → State n
  | .tx _, s, m => { s with ring := s.ring.withMem m }
  | .rx _, s, m => RingMem.withMem s m

/-- A step of a ring: of a user who finishes each reservation before the next, of a receiver, or of the kernel. -/
def RingStep : (n : RingName ι κ) → State n → Event n → State n → Prop
  | .tx _, s, e, s' => DisciplinedStep s e s'
  | .rx _, s, e, s' => OwnRxStep s e s'

/-- The rings of an interface, over the memory they share. -/
def rings (ι κ : Type) : Shared.Parts (RingName ι κ) Nat UInt8 where
  State := State
  Event := Event
  mem n s := (ring n s).mem
  withMem := withMem
  step := RingStep

/-- An interface in use. -/
abbrev Sys (ι κ : Type) : Type := (rings ι κ).Whole

/-- The TX ring `i` as it is. -/
def Sys.tx (w : Sys ι κ) (i : ι) : TxSys := w.view (.tx i)

/-- The RX ring `k` as it is. -/
def Sys.rx (w : Sys ι κ) (k : κ) : RingMem := w.view (.rx k)

variable [DecidableEq ι] [DecidableEq κ]

/-- What has happened to the TX ring `i`. -/
def txEvents (i : ι) (es : List ((n : RingName ι κ) × (rings ι κ).Event n)) : List TxEvent :=
  Shared.Parts.eventsAt (P := rings ι κ) (.tx i) es

/-- What has happened to the RX ring `k`. -/
def rxEvents (k : κ) (es : List ((n : RingName ι κ) × (rings ι κ).Event n)) : List RxEvent :=
  Shared.Parts.eventsAt (P := rings ι κ) (.rx k) es

/-- An interface a run may start from: every TX ring with nothing published and nothing reserved, every RX ring well formed
with packets that fit, and no two rings with a buffer in common. -/
structure Start (w : Sys ι κ) : Prop where
  tx : ∀ i, (w.tx i).Start
  rx : ∀ k, (w.rx k).Valid ∧ (w.rx k).Fitting
  other : ∀ n n', n ≠ n' → (ring n (w.view n)).OtherBuffers (ring n' (w.view n'))

end Interface

end NetHelper
