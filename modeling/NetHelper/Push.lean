import NetHelper.Ring

/-!
# Pushing a list of packets

The two ways a user of a TX ring has of pushing a list of packets (`send` on each of them, or a reservation filled and
committed), and their use one after another on consecutive chunks of a list. Every step is a call of a function of
`Ring.lean`.
-/

namespace NetHelper

open Checked

/-- Send the packets one by one, up to the first that is refused: how many were accepted, and the ring. -/
def sendEach (s : RingMem) : List Bytes → Outcome (Nat × RingMem)
  | [] => .ok (0, s)
  | p :: ps => do
    let (res, s') ← TxRing.send s p
    match res with
    | .error _ => .ok (0, s')
    | .ok () => do
      let (accepted, s'') ← sendEach s' ps
      .ok (accepted + 1, s'')

/-- Ask the reservation for its packets from `index` on and fill them, up to the first that is refused. -/
def fillEach (b : BatchReservation) (s : RingMem) (index : Nat) : List Bytes → Outcome RingMem
  | [] => .ok s
  | p :: ps => do
    let (res, s') ← b.packet s index p.length
    match res with
    | .error _ => .ok s'
    | .ok slice => fillEach b (s'.store slice.addr p) (index + 1) ps

/-- Reserve every slot available, fill as many packets as were granted and commit them: how many were accepted, and the
ring. -/
def sendBatch (s : RingMem) (ps : List Bytes) : Outcome (Nat × RingMem) := do
  let res ← TxRing.reserveAll s
  match res with
  | .error _ => .ok (0, s)
  | .ok (b, granted) => do
    let written := min ps.length granted
    let s' ← fillEach b s 0 (ps.take written)
    let s'' ← b.commit s' written
    .ok (written, s'')

/-- The way a chunk is pushed. -/
inductive PushMode where
  | each
  | batch
  deriving DecidableEq, Repr

/-- Push one chunk. -/
def push : PushMode → RingMem → List Bytes → Outcome (Nat × RingMem)
  | .each => sendEach
  | .batch => sendBatch

/-- Push chunk after chunk, and nothing more after a chunk that did not fit whole. -/
def pushChunks (s : RingMem) : List (PushMode × List Bytes) → Outcome (Nat × RingMem)
  | [] => .ok (0, s)
  | (mode, ps) :: chunks => do
    let (accepted, s') ← push mode s ps
    if accepted < ps.length then
      .ok (accepted, s')
    else do
      let (more, s'') ← pushChunks s' chunks
      .ok (accepted + more, s'')

end NetHelper
