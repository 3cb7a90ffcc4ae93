import NetHelper.Fallback

/-!
# The fallback channel

A fallback channel is a bounded queue: every call is a step of the queue of `Lib/Fifo.lean`, the queue never outgrows its
capacity (`Channel.step`), and so what the sends put in comes out of the receives, whoever makes the calls and in whatever
order (`fallback_channel_fifo`).
-/

namespace NetHelper

/-- The state of a channel with the handles `tx` and `rx`: one queue, no longer than the capacity. -/
structure Channel (tx : FallbackTxRing) (rx : FallbackRxRing) (h : Heap) : Prop where
  connected : rx.ring = tx.ring
  bounded : (h.queue tx.ring.queue).length ≤ tx.ring.maxSize

namespace Channel

variable {tx : FallbackTxRing} {rx : FallbackRxRing} {h h' : Heap} {e : ChannelEvent} {es : List ChannelEvent}

/-- A new channel is connected and empty. -/
theorem create (maxSize : Nat) (h : Heap) :
    Channel (createFallbackChannel maxSize h).1.1 (createFallbackChannel maxSize h).1.2 (createFallbackChannel maxSize h).2 ∧
      (createFallbackChannel maxSize h).2.queue (createFallbackChannel maxSize h).1.1.ring.queue = [] := by
  have hq : (createFallbackChannel maxSize h).2.queue (createFallbackChannel maxSize h).1.1.ring.queue = [] := by
    simp [createFallbackChannel, Heap.alloc]
  refine ⟨⟨rfl, ?_⟩, hq⟩
  rw [hq]
  exact Nat.zero_le _

/-- A send is refused exactly when the queue is as long as its capacity, and then changes nothing. -/
theorem send_cases (hs : Channel tx rx h) (buf : Bytes) :
    ((h.queue tx.ring.queue).length = tx.ring.maxSize ∧ tx.send h buf = (.error .wouldBlock, h)) ∨
      ((h.queue tx.ring.queue).length < tx.ring.maxSize ∧
        tx.send h buf = (.ok (), h.set tx.ring.queue (h.queue tx.ring.queue ++ [buf]))) := by
  have hb := hs.bounded
  unfold FallbackTxRing.send
  rcases Nat.lt_or_eq_of_le hb with hlt | heq
  · right
    exact ⟨hlt, if_neg (by omega)⟩
  · left
    exact ⟨heq, if_pos (by omega)⟩

/-- A receive takes the payload at the front of the queue, if there is one. -/
theorem recv_cases (hs : Channel tx rx h) :
    (h.queue tx.ring.queue = [] ∧ rx.recv h = (none, h)) ∨
      ∃ buf queue, h.queue tx.ring.queue = buf :: queue ∧
        rx.recv h = (some (Frame.newOwned buf), h.set tx.ring.queue queue) := by
  have hcon := hs.connected
  unfold FallbackRxRing.recv
  rw [hcon]
  cases hq : h.queue tx.ring.queue with
  | nil =>
    left
    exact ⟨rfl, rfl⟩
  | cons buf queue =>
    right
    exact ⟨buf, queue, rfl, rfl⟩

/-- One call keeps the channel within its capacity, and is a step of the queue. -/
theorem step (hs : Channel tx rx h) (mem : Memory) (ht : ChannelStep tx rx h e h') :
    Channel tx rx h' ∧ Fifo.Step (h.queue tx.ring.queue) (e.act mem) (h'.queue tx.ring.queue) := by
  cases ht with
  | @send _ buf _ hc =>
    rcases hs.send_cases buf with ⟨_, he⟩ | ⟨hlt, he⟩
    · rw [he] at hc
      cases hc
      exact ⟨hs, Fifo.Step.idle _⟩
    · rw [he] at hc
      cases hc
      refine ⟨⟨hs.connected, ?_⟩, ?_⟩
      · rw [Heap.set_queue_self, List.length_append, List.length_singleton]
        exact hlt
      · rw [Heap.set_queue_self]
        exact Fifo.Step.put _ _
  | recv hc =>
    rcases hs.recv_cases with ⟨_, he⟩ | ⟨buf, queue, hq, he⟩
    · rw [he] at hc
      cases hc
      exact ⟨hs, Fifo.Step.take [] _⟩
    · have hb := hs.bounded
      rw [hq, List.length_cons] at hb
      rw [he] at hc
      cases hc
      refine ⟨⟨hs.connected, ?_⟩, ?_⟩
      · rw [Heap.set_queue_self]
        omega
      · rw [Heap.set_queue_self, hq]
        exact Fifo.Step.take [buf] queue

end Channel

namespace ChannelEvent

/-- One payload is sent for each send that succeeds. -/
theorem length_sent (mem : Memory) (es : List ChannelEvent) : (sent mem es).length = es.countP isSent := by
  induction es with
  | nil => rfl
  | cons e es ih =>
    rw [List.countP_cons, ← ih]
    unfold sent
    rw [List.map_cons, List.flatMap_cons, List.length_append, Nat.add_comm]
    congr 1
    rcases e with ⟨buf, _ | _⟩ | frame <;> rfl

/-- One payload is received for each receive that returns a frame. -/
theorem length_received (mem : Memory) (es : List ChannelEvent) : (received mem es).length = es.countP isReceived := by
  induction es with
  | nil => rfl
  | cons e es ih =>
    rw [List.countP_cons, ← ih]
    unfold received
    rw [List.map_cons, List.flatMap_cons, List.length_append, Nat.add_comm]
    congr 1
    rcases e with ⟨buf, _ | _⟩ | _ | frame <;> rfl

end ChannelEvent

open ChannelEvent

/-- Over every run of the users of a new channel, the payloads received followed by those in the queue are the payloads of
the sends that succeeded, in order, and the queue stays within its capacity. In every state reached the next send is refused
with `WouldBlock` exactly when the sends that succeeded are ahead of the frames received by the capacity, and then changes
nothing; the next receive returns nothing exactly when they are level. -/
theorem fallback_channel_fifo (maxSize : Nat) (h₀ : Heap) {tx : FallbackTxRing} {rx : FallbackRxRing} {h₁ h : Heap}
    {es : List ChannelEvent} (hc : createFallbackChannel maxSize h₀ = ((tx, rx), h₁))
    (hr : Lts.Run (ChannelStep tx rx) h₁ es h) (mem : Memory) :
    received mem es ++ h.queue tx.ring.queue = sent mem es ∧ (h.queue tx.ring.queue).length ≤ maxSize ∧
      (∀ buf, ((tx.send h buf).1 = .error .wouldBlock ↔ es.countP isSent = es.countP isReceived + maxSize) ∧
        ∀ err, (tx.send h buf).1 = .error err → err = .wouldBlock ∧ (tx.send h buf).2 = h) ∧
      ((rx.recv h).1 = none ↔ es.countP isSent = es.countP isReceived) := by
  obtain ⟨hnew, hempty⟩ := Channel.create maxSize h₀
  have hmax : (createFallbackChannel maxSize h₀).1.1.ring.maxSize = maxSize := rfl
  rw [hc] at hnew hempty hmax
  simp only at hnew hempty hmax
  have hI : ∀ a e b, Channel tx rx a → ChannelStep tx rx a e b → Channel tx rx b := fun _ _ _ hs ht => (hs.step mem ht).1
  have hs : Channel tx rx h := hr.invariant hI hnew
  have hq := hr.simulation (fun a => a.queue tx.ring.queue) (act mem) hI (fun _ _ _ hs ht => (hs.step mem ht).2) hnew
  simp only [hempty] at hq
  have hlen := Fifo.length_eq hq
  change (h.queue tx.ring.queue).length + (received mem es).length = (sent mem es).length at hlen
  rw [length_sent, length_received] at hlen
  refine ⟨Fifo.conservation hq, hmax ▸ hs.bounded, ?_, ?_⟩
  · intro buf
    rcases hs.send_cases buf with ⟨hfull, he⟩ | ⟨hroom, he⟩
    · rw [he]
      refine ⟨⟨fun _ => by omega, fun _ => rfl⟩, ?_⟩
      intro err herr
      cases herr
      exact ⟨rfl, rfl⟩
    · rw [he]
      refine ⟨⟨fun hf => (nomatch hf), fun _ => by omega⟩, ?_⟩
      intro err herr
      nomatch herr
  · rcases hs.recv_cases with ⟨hnone, he⟩ | ⟨buf, queue, hsome, he⟩
    · rw [he]
      rw [hnone, List.length_nil] at hlen
      exact ⟨fun _ => by omega, fun _ => rfl⟩
    · rw [he]
      rw [hsome, List.length_cons] at hlen
      exact ⟨fun hf => (nomatch hf), fun _ => by omega⟩

/-- `fallback_channel_fifo` at a channel of capacity one on which a packet is sent, a second one is refused, and the first
is received. -/
theorem fallback_channel_fifo_refused :
    ∃ tx rx h₁ h es, createFallbackChannel 1 { next := 0, queue := fun _ => [] } = ((tx, rx), h₁) ∧
      Lts.Run (ChannelStep tx rx) h₁ es h ∧ es.length = 3 ∧
      received (fun _ => 0) es ++ h.queue tx.ring.queue = [[7]] ∧ (rx.recv h).1 = none := by
  have hsend : ∀ tx rx h buf, ChannelStep tx rx h (.send buf (tx.send h buf).1) (tx.send h buf).2 :=
    fun _ _ _ _ => ChannelStep.send rfl
  have hrecv : ∀ tx rx h, ChannelStep tx rx h (.recv (rx.recv h).1) (rx.recv h).2 := fun _ _ _ => ChannelStep.recv rfl
  have h1 := Lts.Run.single (hsend { ring := ⟨0, 1⟩ } { ring := ⟨0, 1⟩ }
    (createFallbackChannel 1 { next := 0, queue := fun _ => [] }).2 [7])
  have h2 := Lts.Run.snoc h1 (hsend _ _ _ [8])
  have h3 := Lts.Run.snoc h2 (hrecv _ _ _)
  have hall := fallback_channel_fifo 1 { next := 0, queue := fun _ => [] } rfl h3 (fun _ => 0)
  exact ⟨_, _, _, _, _, rfl, h3, rfl, hall.1, hall.2.2.2.mpr rfl⟩

end NetHelper
