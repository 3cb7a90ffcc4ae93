import NetHelper.Program
import NetHelper.Theorems.MainLoop
import NetHelper.Theorems.Resolution

/-!
# The program ends

From the name of the interface to the last packet: the program ends, it fails exactly when the interface cannot be opened or has
no TX ring of its class, and when it has run its loop the packets on the wire are the generated ones (`program_ends`).
-/

namespace NetHelper

open Checked Mm512 Generator RingMem

namespace Generator

/-- A TX ring that the program can run on: nothing is published, and it has two slots or more, whose buffers begin at multiples
of 64 and hold a packet and its payload. -/
structure Suits (s : RingMem) : Prop where
  start : TxSys.Start { ring := s, khead := s.head, held := [] }
  size : 256 ≤ s.nrBufSize
  aligned : ∀ j < s.numSlots, s.bufPtr j % 64 = 0
  slots : 2 ≤ s.numSlots

/-- The program as it enters its loop on a ring. -/
def entry (ring : RingMem) : Wire :=
  { sender := { ring := ring, currentPacketZmm := templateZmm, i := 0 }, khead := ring.head }

/-- The interface cannot be used: it cannot be opened, or has no TX ring of the class asked for. -/
def Machine.Refuses (m : Machine) (ifname : List Char) (e : Error) : Prop :=
  (NetmapBuilder.new ifname).build m.ffi m.nmOpen = .error e ∨
    ∃ nm, (NetmapBuilder.new ifname).build m.ffi m.nmOpen = .ok nm ∧ nm.numTxRings = 0 ∧ e = .invalidRingIndex 0

/-- The program has sent what it is to send, on the ring: its loop and the kernel have made a run in which so many packets were
published, the packets taken and those in flight being the generated packets, from the first one on, in order. -/
def HasSent (ring : RingMem) (s : Sender) : Prop :=
  s.i = packetCount ∧ ∃ es w, Lts.Run (WireStep packetCount) (entry ring) es w ∧ w.sender = s ∧
    packetCount ≤ publishedIn es ∧
    es.flatMap WireEvent.taken ++ w.tx.inFlight = (List.range (publishedIn es)).map (fun k => bytes (generated k))

end Generator

namespace ProgramAux

open MainLoopAux GeneratorStreamAux ResolutionAux

/-- The main loop on a ring that suits it. -/
theorem loop_sends {ring : RingMem} {ks ks' : List Syncs} (h : Suits ring) (hks : ∀ k ∈ ks, k.Kernel)
    (hsub : ks'.Sublist ks) (hroom : ∀ k ∈ ks', k.MakesRoom) (hlen : 2 * packetCount ≤ ks'.length) :
    ∃ s, mainLoop packetCount ks (entry ring).sender = .ok (some s) ∧ HasSent ring s := by
  have h0 : (entry ring).Start := ⟨h.start, h.size, rfl, rfl⟩
  have hstart : Streamed packetCount [] (entry ring) := Streamed.start h0
  have hwire := hstart.onWire
  obtain ⟨s, hs, hi⟩ := main_loop_ends hwire hks hsub hroom h.aligned h.slots (Nat.zero_le packetCount) (Or.inl hlen)
  obtain ⟨es, w, hr, hend⟩ := main_loop_run ⟨_, hwire⟩ hks hs
  obtain ⟨hw, _⟩ := hend s rfl
  have hall := streamed_run h0 hr
  refine ⟨s, hs, hi, es, w, hr, hw, ?_, hall.packets⟩
  rw [← hi, ← hw]
  exact hall.atLeast

/-- What the program does when the interface named can be opened and has a TX ring. -/
theorem main_opened {m : Machine} {ks : List Syncs} {args : List (List Char)} {ifname : List Char} {nm : Netmap}
    (hname : args[1]? = some ifname) (hb : (NetmapBuilder.new ifname).build m.ffi m.nmOpen = .ok nm)
    (hpos : 0 < nm.numTxRings) :
    main m ks args = if m.avx512f then do
        let s ← mainLoop packetCount ks (entry (m.ringAt (netmapTxring nm.desc.nifp 0))).sender
        .ok (s.map (fun s => .returned (some s)))
      else .ok (some (.returned none)) := by
  rw [main, hname]
  simp only [hb, txRing_ok_iff.mpr ⟨hpos, rfl⟩]
  rfl

/-- What the program does when the interface cannot be used. -/
theorem main_refused {m : Machine} {ks : List Syncs} {args : List (List Char)} {ifname : List Char} {e : Error}
    (hname : args[1]? = some ifname) (h : m.Refuses ifname e) : main m ks args = .ok (some (.failed e)) := by
  rw [main, hname]
  rcases h with hb | ⟨nm, hb, h0, rfl⟩
  · simp only [hb]
  · simp only [hb, txRing_error_iff.mpr (Nat.le_of_eq h0)]

/-- An interface can be used, or is refused with one error. -/
theorem opens_or_refuses (m : Machine) (ifname : List Char) :
    (∃ nm, (NetmapBuilder.new ifname).build m.ffi m.nmOpen = .ok nm ∧ 0 < nm.numTxRings ∧ ∀ e, ¬m.Refuses ifname e) ∨
      ∃ e, m.Refuses ifname e ∧ ∀ e', m.Refuses ifname e' → e' = e := by
  cases hb : (NetmapBuilder.new ifname).build m.ffi m.nmOpen with
  | error e =>
    refine Or.inr ⟨e, Or.inl hb, ?_⟩
    rintro e' (he | ⟨nm, hn, _⟩)
    · rw [hb] at he
      exact (Except.error.inj he).symm
    · rw [hb] at hn
      cases hn
  | ok nm =>
    rcases Nat.eq_zero_or_pos nm.numTxRings with h0 | hpos
    · refine Or.inr ⟨.invalidRingIndex 0, Or.inr ⟨nm, hb, h0, rfl⟩, ?_⟩
      rintro e' (he | ⟨nm', _, _, rfl⟩)
      · rw [hb] at he
        cases he
      · rfl
    · refine Or.inl ⟨nm, rfl, hpos, ?_⟩
      rintro e (he | ⟨nm', hn, h0, _⟩)
      · rw [hb] at he
        cases he
      · rw [hb] at hn
        cases hn
        omega

end ProgramAux

open ProgramAux

/-- On an interface whose first TX ring suits it, with a kernel that makes room on a full ring often enough, the program ends: it
panics exactly when no interface is named, fails exactly when the interface cannot be opened or has no TX ring of its class, with
the error of that, and otherwise returns, without a loop when there is no AVX-512; and when it returns from its loop it has sent
what it is to send, on the first TX ring of the interface named. -/
theorem program_ends {m : Machine} {ks ks' : List Syncs} {args : List (List Char)}
    (hring : ∀ ifname nm, args[1]? = some ifname → (NetmapBuilder.new ifname).build m.ffi m.nmOpen = .ok nm →
      0 < nm.numTxRings → Suits (m.ringAt (netmapTxring nm.desc.nifp 0)))
    (hks : ∀ k ∈ ks, k.Kernel) (hsub : ks'.Sublist ks) (hroom : ∀ k ∈ ks', k.MakesRoom)
    (hlen : 2 * packetCount ≤ ks'.length) :
    ∃ e, main m ks args = .ok (some e) ∧ (e = .noInterface ↔ args.length < 2) ∧
      (∀ err, e = .failed err ↔ ∃ ifname, args[1]? = some ifname ∧ m.Refuses ifname err) ∧
      (∀ r, e = .returned r → (r = none ↔ m.avx512f = false)) ∧
      ∀ s, e = .returned (some s) → ∃ ifname nm, args[1]? = some ifname ∧
        (NetmapBuilder.new ifname).build m.ffi m.nmOpen = .ok nm ∧
        HasSent (m.ringAt (netmapTxring nm.desc.nifp 0)) s := by
  cases hname : args[1]? with
  | none =>
    have hshort : args.length < 2 := by
      have := List.getElem?_eq_none_iff.mp hname
      omega
    refine ⟨.noInterface, ?_, by simp [hshort], by simp, by simp, by simp⟩
    rw [main, hname]
  | some ifname =>
    have hlong : ¬args.length < 2 := by
      have := (List.getElem?_eq_some_iff.mp hname).1
      omega
    rcases opens_or_refuses m ifname with ⟨nm, hb, hpos, hnot⟩ | ⟨e, he, honly⟩
    · rw [main_opened hname hb hpos]
      cases havx : m.avx512f with
      | true =>
        obtain ⟨s, hs, hsent⟩ := loop_sends (hring ifname nm hname hb hpos) hks hsub hroom hlen
        refine ⟨.returned (some s), ?_, by simp [hlong], by simp [hnot], ?_, ?_⟩
        · rw [if_pos rfl, hs]
          rfl
        · rintro r ⟨⟩
          simp
        · rintro s' ⟨⟩
          exact ⟨ifname, nm, rfl, hb, hsent⟩
      | false =>
        refine ⟨.returned none, rfl, by simp [hlong], by simp [hnot], ?_, by simp⟩
        rintro r ⟨⟩
        simp
    · refine ⟨.failed e, main_refused hname he, by simp [hlong], ?_, by simp, by simp⟩
      intro err
      constructor
      · rintro ⟨⟩
        exact ⟨ifname, rfl, he⟩
      · rintro ⟨ifname', heq, herr⟩
        cases heq
        rw [honly err herr]

namespace ProgramAux

open ResolutionAux

/-- A machine with one interface, whose first TX ring has just been registered. -/
def machine : Machine :=
  { ffi := Ffi.headers, nmOpen := opens (evenly 1 0 1 0), ringAt := fun _ => fresh 4 2048 0 2, avx512f := true }

theorem suits_fresh : Suits (fresh 4 2048 0 2) :=
  ⟨TxSys.start_fresh (by decide), by decide, fun j _ => MainLoopAux.aligned_fresh 4 0 2 j, by decide⟩

end ProgramAux

open MainLoopAux

/-- `program_ends` for the program called with the name of an interface, after an interrupted round on a kernel that gives every
slot back. -/
theorem program_ends_eth0 : ∃ s,
    main machine (interrupted :: List.replicate (2 * packetCount) prompt) [['n'], ['e', 't', 'h', '0']] =
        .ok (some (.returned (some s))) ∧
      HasSent (fresh 4 2048 0 2) s := by
  have hroom : ∀ k ∈ List.replicate (2 * packetCount) prompt, k.MakesRoom := by
    intro k hk
    rw [List.eq_of_mem_replicate hk]
    exact prompt_makesRoom
  have hks : ∀ k ∈ interrupted :: List.replicate (2 * packetCount) prompt, k.Kernel := by
    intro k hk
    rcases List.mem_cons.mp hk with rfl | hk
    · exact interrupted_kernel
    · rw [List.eq_of_mem_replicate hk]
      exact prompt_kernel
  obtain ⟨e, hmain, hno, hfailed, hnone, hsent⟩ := @program_ends machine _ _ [['n'], ['e', 't', 'h', '0']]
    (fun _ _ _ _ _ => suits_fresh) hks (List.sublist_cons_self _ _) hroom (Nat.le_of_eq List.length_replicate.symm)
  cases e with
  | noInterface => exact absurd (hno.mp rfl) (by decide)
  | failed err =>
    obtain ⟨ifname, hname, hb | ⟨nm, hb, h0, _⟩⟩ := (hfailed err).mp rfl
    · cases hname
      cases hb
    · cases hname
      cases hb
      cases h0
  | returned r =>
    cases r with
    | none => exact absurd ((hnone none rfl).mp rfl) (by decide)
    | some s =>
      obtain ⟨_, _, _, _, h⟩ := hsent s rfl
      exact ⟨s, hmain, h⟩

end NetHelper
