import NetHelper.Theorems.InterfaceName
import NetHelper.Theorems.Resolution

/-!
# What the request asks for

A name is that of a pipe, of host rings, or any other, and that is what a request is to be judged by; `new` tells them apart
alike (`isPipeIf_new_iff`, `opensHost_new_iff`). A builder is configured by calls of its three setters, in any number and order,
and only the last call of each shows (`configure_eq`). The request then says what the caller asked for unless a number of rings
does not fit a u16, a pipe was asked for zero rings, or the caller's flags have a bit of the registration mode that the name
does not call for (`request_as_asked_iff`).
-/

namespace NetHelper

open Checked

/-- The bits of `nr_flags` that hold the registration mode. -/
def nrRegMask : UInt32 := 0xf

/-- A call of a setter of the builder. -/
inductive Setter where
  | numTxRings (num : Nat)
  | numRxRings (num : Nat)
  | flags (word : UInt32)
  deriving DecidableEq

namespace Setter

/-- Make the call. -/
def apply (b : NetmapBuilder) : Setter → NetmapBuilder
  | .numTxRings num => b.numTxRings num
  | .numRxRings num => b.numRxRings num
  | .flags word => b.flags word

/-- The number of TX rings a call asks for. -/
def tx? : Setter → Option Nat
  | .numTxRings num => some num
  | _ => none

/-- The number of RX rings a call asks for. -/
def rx? : Setter → Option Nat
  | .numRxRings num => some num
  | _ => none

/-- The flags a call asks for. -/
def flags? : Setter → Option UInt32
  | .flags word => some word
  | _ => none

/-- The number of TX rings asked for last. -/
def lastTx (calls : List Setter) : Option Nat := (calls.filterMap tx?).getLast?

/-- The number of RX rings asked for last. -/
def lastRx (calls : List Setter) : Option Nat := (calls.filterMap rx?).getLast?

/-- The flags asked for last. -/
def lastFlags (calls : List Setter) : Option UInt32 := (calls.filterMap flags?).getLast?

end Setter

open Setter

/-- Make the calls, one after another. -/
def NetmapBuilder.configure (b : NetmapBuilder) (calls : List Setter) : NetmapBuilder := calls.foldl Setter.apply b

/-! ## What a name calls for -/

/-- The names of pipes: "pipe{…}", with or without the prefix before it. -/
def IsPipeName (name : List Char) : Prop :=
  ∃ p id, (p = [] ∨ p = netmapPrefix) ∧ name = p ++ (pipePrefix ++ id ++ ['}'])

/-- The names for host rings: those with the mark at their end. -/
def IsHostName (name : List Char) : Prop := name.getLast? = some '^'

instance (name : List Char) : Decidable (IsHostName name) := by
  unfold IsHostName
  infer_instance

namespace RequestAux

open InterfaceNameAux

/-- What begins and ends like the name of a pipe is one: the two do not overlap. -/
theorem pipe_parts_iff (base : List Char) :
    (pipePrefix.isPrefixOf base && base.getLast? == some '}') = true ↔ ∃ id, base = pipePrefix ++ id ++ ['}'] := by
  rw [Bool.and_eq_true, List.isPrefixOf_iff_prefix, beq_iff_eq]
  constructor
  · rintro ⟨⟨rest, rfl⟩, hlast⟩
    cases hrest : rest.getLast? with
    | none =>
      rw [List.getLast?_eq_none_iff.mp hrest] at hlast
      exact absurd hlast (by decide)
    | some c =>
      rw [List.getLast?_append, hrest] at hlast
      cases hlast
      exact ⟨rest.dropLast, by rw [List.append_assoc, List.dropLast_append_getLast? _ hrest]⟩
  · rintro ⟨id, rfl⟩
    exact ⟨⟨id ++ ['}'], (List.append_assoc _ _ _).symm⟩, List.getLast?_concat⟩

/-- A name without the prefix is that of a pipe when it is "pipe{…}" itself. -/
theorem isPipeName_of_not_prefixed {name : List Char} (hn : ¬netmapPrefix <+: name) :
    IsPipeName name ↔ ∃ id, name = pipePrefix ++ id ++ ['}'] := by
  constructor
  · rintro ⟨p, id, rfl | rfl, rfl⟩
    · exact ⟨id, rfl⟩
    · exact absurd (List.prefix_append _ _) hn
  · rintro ⟨id, rfl⟩
    exact ⟨[], id, Or.inl rfl, rfl⟩

/-- A name with the prefix is that of a pipe when what is behind the prefix is "pipe{…}". -/
theorem isPipeName_prefixed (base : List Char) :
    IsPipeName (netmapPrefix ++ base) ↔ ∃ id, base = pipePrefix ++ id ++ ['}'] := by
  constructor
  · rintro ⟨p, id, rfl | rfl, he⟩
    · -- the two prefixes begin with different letters
      nomatch he
    · exact ⟨id, List.append_cancel_left he⟩
  · rintro ⟨id, rfl⟩
    exact ⟨netmapPrefix, id, Or.inr rfl, rfl⟩

/-- The builder takes a name for that of a pipe exactly when it is one. -/
theorem isPipeIf_new_iff (name : List Char) : (NetmapBuilder.new name).isPipeIf = true ↔ IsPipeName name := by
  rcases new_cases name with ⟨base, rfl, h⟩ | ⟨⟨hc, -⟩, h⟩ | ⟨hn, -, h⟩
  · rw [h, isPipeName_prefixed]
    exact pipe_parts_iff base
  · rw [h, isPipeName_of_not_prefixed fun hp => hc (colon_mem_of_prefixed hp)]
    exact pipe_parts_iff name
  · rw [h, isPipeName_of_not_prefixed hn]
    exact pipe_parts_iff name

/-- The builder opens a handle for host rings exactly for the names for them. -/
theorem opensHost_new_iff (name : List Char) : (NetmapBuilder.new name).opensHost = true ↔ IsHostName name := by
  rw [NetmapBuilder.opensHost_new, beq_iff_eq]
  rfl

end RequestAux

open RequestAux

instance (name : List Char) : Decidable (IsPipeName name) := decidable_of_iff _ (isPipeIf_new_iff name)

/-- The registration mode a name calls for. -/
def regMode (ffi : Ffi) (name : List Char) : UInt32 :=
  if IsPipeName name then 0 else if IsHostName name then ffi.nrRegSw else ffi.nrRegAllNic

/-- The number of rings to request under a name when so many were asked for last: none asked for means zero, and zero means one
for a pipe. -/
def ringsFor (name : List Char) (last : Option Nat) : Nat :=
  if IsPipeName name ∧ last.getD 0 = 0 then 1 else last.getD 0

/-- A number of rings fits a u16, and is not zero for a pipe. -/
def RingsFit (name : List Char) (last : Option Nat) : Prop :=
  ∀ num, last = some num → num ≤ 65535 ∧ (IsPipeName name → num ≠ 0)

/-- What the caller asked for can be said in the request. -/
structure AskFits (ffi : Ffi) (name : List Char) (calls : List Setter) : Prop where
  rings : ¬IsHostName name → RingsFit name (lastTx calls) ∧ RingsFit name (lastRx calls)
  flags : (lastFlags calls).getD 0 &&& nrRegMask = 0 ∨ (lastFlags calls).getD 0 &&& nrRegMask = regMode ffi name

/-- A request says what the caller asked for: the numbers of rings, unless the name is one for host rings; the registration
mode of the name; and the other bits of the flags. -/
structure Nmreq.AsAsked (ffi : Ffi) (name : List Char) (calls : List Setter) (req : Nmreq) : Prop where
  rings : ¬IsHostName name → req.nrTxRings = ringsFor name (lastTx calls) ∧ req.nrRxRings = ringsFor name (lastRx calls)
  mode : req.nrFlags &&& nrRegMask = regMode ffi name
  flags : req.nrFlags &&& ~~~nrRegMask = (lastFlags calls).getD 0 &&& ~~~nrRegMask

/-- The request for a name, configured by calls, is an error or says what the caller asked for. -/
def RequestAsAsked (ffi : Ffi) (name : List Char) (calls : List Setter) : Prop :=
  (∃ e, ((NetmapBuilder.new name).configure calls).buildNmreq ffi = .error e) ∨
    ∃ req, ((NetmapBuilder.new name).configure calls).buildNmreq ffi = .ok req ∧
      req.AsAsked ffi name calls

namespace RequestAux

variable {ffi : Ffi} {b : NetmapBuilder} {calls : List Setter}

/-! ## Setters -/

/-- The last of a list with one more in front, or else a default. -/
theorem getLast?_cons_getD {α : Type} (a : α) (l : List α) (d : α) : (a :: l).getLast?.getD d = l.getLast?.getD a := by
  rw [List.getLast?_cons]
  rfl

/-- Only the last call of each setter shows. -/
theorem configure_eq (b : NetmapBuilder) (calls : List Setter) : b.configure calls =
    { b with
      reqNumTxRings := ((calls.filterMap tx?).map (cast 16)).getLast?.getD b.reqNumTxRings
      reqNumRxRings := ((calls.filterMap rx?).map (cast 16)).getLast?.getD b.reqNumRxRings
      additionalFlags := (lastFlags calls).getD b.additionalFlags } := by
  induction calls generalizing b with
  | nil => rfl
  | cons c calls ih =>
    unfold lastFlags at ih ⊢
    have hstep : b.configure (c :: calls) = (c.apply b).configure calls := rfl
    rw [hstep, ih]
    cases c with
    | numTxRings num =>
      simp only [Setter.apply, NetmapBuilder.numTxRings, List.filterMap_cons, tx?, rx?, flags?, List.map_cons,
        getLast?_cons_getD]
    | numRxRings num =>
      simp only [Setter.apply, NetmapBuilder.numRxRings, List.filterMap_cons, tx?, rx?, flags?, List.map_cons,
        getLast?_cons_getD]
    | flags word =>
      simp only [Setter.apply, NetmapBuilder.flags, List.filterMap_cons, tx?, rx?, flags?, getLast?_cons_getD]

/-- The numbers of rings of a new builder: one for a pipe, zero otherwise. -/
theorem new_rings (name : List Char) : (NetmapBuilder.new name).reqNumTxRings = (if IsPipeName name then 1 else 0) ∧
    (NetmapBuilder.new name).reqNumRxRings = (if IsPipeName name then 1 else 0) ∧
    (NetmapBuilder.new name).additionalFlags = 0 := by
  simp only [← isPipeIf_new_iff name]
  exact ⟨rfl, rfl, rfl⟩

/-- The number of rings that is stored is the one to request exactly when the number asked for fits. -/
theorem stored_eq_iff (name : List Char) (last : Option Nat) :
    (last.map (cast 16)).getD (if IsPipeName name then 1 else 0) = ringsFor name last ↔ RingsFit name last := by
  unfold ringsFor RingsFit
  cases last with
  | none => by_cases hp : IsPipeName name <;> simp [hp]
  | some num =>
    simp only [Option.map_some, Option.getD_some, Option.some.injEq, forall_eq', Checked.cast]
    by_cases hp : IsPipeName name
    · simp only [hp, true_and, true_implies]
      split <;> omega
    · simp only [hp, false_and, if_false, false_implies, and_true]
      omega

/-! ## Flags -/

/-- Conjunction distributes over disjunction. -/
theorem or_and (f m k : UInt32) : (f ||| m) &&& k = f &&& k ||| m &&& k :=
  UInt32.toBitVec_inj.mp BitVec.and_or_distrib_right

/-- The modes: none, every NIC ring, and the host rings. -/
theorem mode_cases {m : UInt32} (hm : m ∈ [0, 1, 2]) : m = 0 ∨ m = 1 ∨ m = 2 := by simpa using hm

/-- Among the modes, adding the bits of a word to a mode gives the mode exactly when they are none or the mode itself. -/
theorem or_mode_iff {m : UInt32} (hm : m ∈ [0, 1, 2]) : ∀ x < 16,
    (UInt32.ofNat x ||| m = m ↔ UInt32.ofNat x = 0 ∨ UInt32.ofNat x = m) := by
  rcases mode_cases hm with rfl | rfl | rfl
  · decide
  · decide
  · decide

/-- Flags with a mode added have that mode exactly when they had none or that one. -/
theorem mode_iff {f m : UInt32} (hm : m ∈ [0, 1, 2]) :
    (f ||| m) &&& nrRegMask = m ↔ f &&& nrRegMask = 0 ∨ f &&& nrRegMask = m := by
  have hlt : (f &&& nrRegMask).toNat < 16 := by
    rw [UInt32.toNat_and]
    exact Nat.lt_of_le_of_lt Nat.and_le_right (by decide)
  have hmask : m &&& nrRegMask = m := by
    rcases mode_cases hm with rfl | rfl | rfl
    · decide
    · decide
    · decide
  rw [or_and, hmask]
  have h := or_mode_iff hm _ hlt
  rwa [UInt32.ofNat_toNat] at h

/-- A mode adds no bit outside the mask. -/
theorem rest_eq {f m : UInt32} (hm : m ∈ [0, 1, 2]) : (f ||| m) &&& ~~~nrRegMask = f &&& ~~~nrRegMask := by
  have hmask : m &&& ~~~nrRegMask = 0 := by
    rcases mode_cases hm with rfl | rfl | rfl
    · decide
    · decide
    · decide
  rw [or_and, hmask, UInt32.or_zero]

/-! ## The request -/

/-- The registration mode of a name, by what the builder makes of it. -/
theorem regMode_eq (ffi : Ffi) (name : List Char) : regMode ffi name =
    if (NetmapBuilder.new name).isPipeIf then 0
    else if (NetmapBuilder.new name).opensHost then ffi.nrRegSw else ffi.nrRegAllNic := by
  simp only [regMode, isPipeIf_new_iff, opensHost_new_iff]

/-- The request of a builder whose name is not too long. -/
theorem buildNmreq_ok (h : (utf8Bytes b.baseIfname).length < ffi.ifnamsiz) : ∃ req, b.buildNmreq ffi = .ok req ∧
    req.nrFlags = b.additionalFlags |||
      (if b.isPipeIf then 0 else if b.opensHost then ffi.nrRegSw else ffi.nrRegAllNic) ∧
    (b.opensHost = false → req.nrTxRings = b.reqNumTxRings ∧ req.nrRxRings = b.reqNumRxRings) := by
  unfold NetmapBuilder.buildNmreq NetmapBuilder.opensHost
  dsimp only
  rw [if_neg (by omega)]
  refine ⟨_, rfl, ?_⟩
  cases b.isPipeIf with
  | true => exact ⟨(UInt32.or_zero).symm, fun _ => ⟨rfl, rfl⟩⟩
  | false =>
    cases b.wantsHostRings with
    | true => exact ⟨rfl, by simp⟩
    | false => exact ⟨rfl, fun _ => ⟨rfl, rfl⟩⟩

/-- The request of a builder whose name is too long. -/
theorem buildNmreq_error (h : ffi.ifnamsiz ≤ (utf8Bytes b.baseIfname).length) : ∃ e, b.buildNmreq ffi = .error e := by
  unfold NetmapBuilder.buildNmreq
  dsimp only
  rw [if_pos h]
  exact ⟨_, rfl⟩

/-- The request of a configured builder, by the name and the calls. -/
theorem configured_ok (name : List Char) (calls : List Setter)
    (hlen : (utf8Bytes (NetmapBuilder.new name).baseIfname).length < ffi.ifnamsiz) :
    ∃ req, ((NetmapBuilder.new name).configure calls).buildNmreq ffi = .ok req ∧
      req.nrFlags = (lastFlags calls).getD 0 ||| regMode ffi name ∧
      (¬IsHostName name → req.nrTxRings = ((lastTx calls).map (cast 16)).getD (if IsPipeName name then 1 else 0) ∧
        req.nrRxRings = ((lastRx calls).map (cast 16)).getD (if IsPipeName name then 1 else 0)) := by
  obtain ⟨htx, hrx, hfl⟩ := new_rings name
  have hconf := configure_eq (NetmapBuilder.new name) calls
  have hlen' : (utf8Bytes ((NetmapBuilder.new name).configure calls).baseIfname).length < ffi.ifnamsiz := by
    rw [hconf]
    exact hlen
  obtain ⟨req, hreq, hflags, hrings⟩ := buildNmreq_ok hlen'
  refine ⟨req, hreq, ?_, ?_⟩
  · rw [hflags, hconf, hfl, regMode_eq]
    rfl
  · intro hhost
    have hopens : (NetmapBuilder.new name).opensHost = false := eq_false_of_ne_true (mt (opensHost_new_iff name).mp hhost)
    have h := hrings (by rw [hconf]; exact hopens)
    rw [hconf, htx, hrx, List.getLast?_map, List.getLast?_map] at h
    exact h

/-- A request that was made up says what the caller asked for exactly when that can be said. -/
theorem asAsked_iff (hsw : ffi.nrRegSw = 2) (hnic : ffi.nrRegAllNic = 1) (name : List Char) (calls : List Setter)
    (hlen : (utf8Bytes (NetmapBuilder.new name).baseIfname).length < ffi.ifnamsiz) :
    RequestAsAsked ffi name calls ↔ AskFits ffi name calls := by
  have hmode : regMode ffi name ∈ [0, 1, 2] := by
    unfold regMode
    rw [hsw, hnic]
    split
    · decide
    · split <;> decide
  obtain ⟨req, hreq, hflags, hrings⟩ := configured_ok name calls hlen
  unfold RequestAsAsked
  rw [hreq]
  constructor
  · rintro (⟨e, he⟩ | ⟨_, hr, hask⟩)
    · nomatch he
    · cases hr
      refine ⟨?_, ?_⟩
      · intro hhost
        obtain ⟨h1, h2⟩ := hask.rings hhost
        obtain ⟨h3, h4⟩ := hrings hhost
        exact ⟨(stored_eq_iff name _).mp (h3 ▸ h1), (stored_eq_iff name _).mp (h4 ▸ h2)⟩
      · have := hask.mode
        rw [hflags] at this
        exact (mode_iff hmode).mp this
  · intro hfits
    refine Or.inr ⟨req, rfl, ?_, ?_, ?_⟩
    · intro hhost
      obtain ⟨h1, h2⟩ := hfits.rings hhost
      obtain ⟨h3, h4⟩ := hrings hhost
      exact ⟨h3.trans ((stored_eq_iff name _).mpr h1), h4.trans ((stored_eq_iff name _).mpr h2)⟩
    · rw [hflags]
      exact (mode_iff hmode).mpr hfits.flags
    · rw [hflags]
      exact rest_eq hmode

/-- Calls with the same last call of each setter configure a builder alike. -/
theorem configure_congr {calls' : List Setter} (htx : lastTx calls = lastTx calls') (hrx : lastRx calls = lastRx calls')
    (hfl : lastFlags calls = lastFlags calls') : b.configure calls = b.configure calls' := by
  unfold lastTx at htx
  unfold lastRx at hrx
  rw [configure_eq, configure_eq, hfl, List.getLast?_map, List.getLast?_map, List.getLast?_map, List.getLast?_map, htx, hrx]

end RequestAux

open RequestAux

/-- Whatever the name and whatever the calls of setters, in any order: the request is an error or says what the caller asked
for exactly when the name is too long or what was asked for can be said. The request is the same for calls that ask for the
same things last, in whatever order. -/
theorem request_as_asked_iff (ffi : Ffi) (hsw : ffi.nrRegSw = 2) (hnic : ffi.nrRegAllNic = 1) (name : List Char)
    (calls : List Setter) :
    (RequestAsAsked ffi name calls ↔ ffi.ifnamsiz ≤ (utf8Bytes (NetmapBuilder.new name).baseIfname).length ∨
        AskFits ffi name calls) ∧
      ∀ calls', lastTx calls = lastTx calls' → lastRx calls = lastRx calls' → lastFlags calls = lastFlags calls' →
        ((NetmapBuilder.new name).configure calls).buildNmreq ffi =
          ((NetmapBuilder.new name).configure calls').buildNmreq ffi := by
  refine ⟨?_, fun calls' htx hrx hfl => by rw [configure_congr htx hrx hfl]⟩
  by_cases hlen : (utf8Bytes (NetmapBuilder.new name).baseIfname).length < ffi.ifnamsiz
  · rw [asAsked_iff hsw hnic name calls hlen]
    constructor
    · exact Or.inr
    · rintro (hlong | hfits)
      · omega
      · exact hfits
  · have hlong : ffi.ifnamsiz ≤ (utf8Bytes (NetmapBuilder.new name).baseIfname).length := by omega
    refine ⟨fun _ => Or.inl hlong, fun _ => Or.inl ?_⟩
    apply buildNmreq_error
    rw [configure_eq]
    exact hlong

/-- `request_as_asked_iff` at a pipe that is asked for two TX rings and then for three. -/
theorem request_as_asked_pipe :
    RequestAsAsked Ffi.headers ['p', 'i', 'p', 'e', '{', 'a', '}'] [.numTxRings 2, .flags 0x100, .numTxRings 3] := by
  refine (request_as_asked_iff Ffi.headers rfl rfl _ _).1.mpr (Or.inr ⟨fun _ => ⟨?_, ?_⟩, by decide⟩)
  · rintro num ⟨⟩
    decide
  · rintro num ⟨⟩

/-- A request can be for something else: zero rings for a pipe that is asked for zero, zero rings for a NIC that is asked
for 65536, and another registration mode for flags that have one of its bits. -/
theorem request_not_as_asked :
    ¬RequestAsAsked Ffi.headers ['p', 'i', 'p', 'e', '{', 'a', '}'] [.numTxRings 0] ∧
      ¬RequestAsAsked Ffi.headers ['e', 't', 'h', '0'] [.numRxRings 65536] ∧
      ¬RequestAsAsked Ffi.headers ['e', 't', 'h', '0'] [.flags 4] := by
  refine ⟨?_, ?_, ?_⟩
  · rw [asAsked_iff rfl rfl _ _ (by decide)]
    intro h
    exact ((h.rings (by decide)).1 0 rfl).2 (by decide) rfl
  · rw [asAsked_iff rfl rfl _ _ (by decide)]
    intro h
    exact absurd ((h.rings (by decide)).2 65536 rfl).1 (by decide)
  · rw [asAsked_iff rfl rfl _ _ (by decide)]
    intro h
    exact absurd h.flags (by decide)

end NetHelper
