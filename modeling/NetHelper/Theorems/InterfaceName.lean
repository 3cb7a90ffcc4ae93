import NetHelper.Lib.CStr
import NetHelper.Netmap

/-!
# The two names of an interface

`nm_open` is given an interface by two names: the raw name, as a C string, and the base name, in the fixed array of the
request. Both come from one string, and they say the same: the raw name is the base name between an optional prefix and an
optional mark (`names_agree`). The name that reaches `nm_open` in the array is the base name byte for byte.
-/

namespace NetHelper

open NetmapBuilder

/-- What the two names of the builder of a string have to do with each other and with the string. -/
structure NetmapBuilder.NamesAgree (name : List Char) : Prop where
  raw : ∃ p, (p = [] ∨ p = netmapPrefix) ∧
    (new name).ifnameRaw = p ++ (new name).baseIfname ++ if (new name).wantsHostRings then ['^'] else []
  again : new (new name).ifnameRaw = new name
  prefixed : ':' ∉ name → ¬pipePrefix <+: name → new (netmapPrefix ++ name) = new name

/-- Opening an interface gets as far as the call of `nm_open` with a request: the result is made of the answer to that call,
and different errors of the system give different results. -/
def NetmapBuilder.Reaches (ffi : Ffi) (b : NetmapBuilder) (req : Nmreq) : Prop :=
  ∃ result : Except (List Char) NmDesc → Except Error Netmap,
    (∀ nmOpen : NmOpen, b.build ffi nmOpen = result (nmOpen b.ifnameRaw req)) ∧
      ∀ os os', result (.error os) = result (.error os') → os = os'

namespace InterfaceNameAux

variable {name base : List Char} {ffi : Ffi} {b : NetmapBuilder} {req : Nmreq}

/-! ## The builder of a string, by its prefix -/

/-- The builder with a raw name and the name behind the prefix. -/
def ofParts (raw base : List Char) : NetmapBuilder :=
  { ifnameRaw := raw
    baseIfname := if base.getLast? == some '^' then base.dropLast else base
    wantsHostRings := base.getLast? == some '^'
    isPipeIf := pipePrefix.isPrefixOf base && base.getLast? == some '}'
    reqNumTxRings := if pipePrefix.isPrefixOf base && base.getLast? == some '}' then 1 else 0
    reqNumRxRings := if pipePrefix.isPrefixOf base && base.getLast? == some '}' then 1 else 0
    additionalFlags := 0 }

/-- A string with the prefix is the raw name, and what is behind the prefix the base. -/
theorem new_prefixed (base : List Char) : new (netmapPrefix ++ base) = ofParts (netmapPrefix ++ base) base := by
  have hp : netmapPrefix.isPrefixOf? (netmapPrefix ++ base) = some base :=
    List.isPrefixOf?_eq_some_iff_append_eq.mpr rfl
  unfold new
  rw [hp]
  rfl

/-- A string without the prefix is the base; the prefix is added when the string names no VALE port and no pipe. -/
theorem new_of_not_prefixed (hn : ¬netmapPrefix <+: name) :
    new name = ofParts (if ':' ∉ name ∧ ¬pipePrefix <+: name then netmapPrefix ++ name else name) name := by
  have hp : netmapPrefix.isPrefixOf? name = none := by
    rw [Option.eq_none_iff_forall_ne_some]
    intro rest he
    exact hn ⟨rest, List.isPrefixOf?_eq_some_iff_append_eq.mp he⟩
  have hc : (!name.contains ':' && !pipePrefix.isPrefixOf name) = true ↔ ':' ∉ name ∧ ¬pipePrefix <+: name := by
    rw [Bool.and_eq_true, Bool.not_eq_true', Bool.not_eq_true', ← Bool.not_eq_true, ← Bool.not_eq_true,
      List.contains_iff_mem, List.isPrefixOf_iff_prefix]
  unfold new
  rw [hp]
  by_cases hplain : ':' ∉ name ∧ ¬pipePrefix <+: name
  · simp only [hc.mpr hplain, hplain, if_true, not_false_eq_true, and_self]
    rfl
  · have hfalse := eq_false_of_ne_true (mt hc.mp hplain)
    rw [if_neg hplain]
    simp only [hfalse, Bool.false_eq_true, if_false]
    rfl

/-- The prefix has a colon in it. -/
theorem colon_mem_of_prefixed (h : netmapPrefix <+: name) : ':' ∈ name := h.subset (by decide)

/-- The three kinds of strings: with the prefix, without it and with it added, without it and left alone. -/
theorem new_cases (name : List Char) :
    (∃ base, name = netmapPrefix ++ base ∧ new name = ofParts (netmapPrefix ++ base) base) ∨
      ((':' ∉ name ∧ ¬pipePrefix <+: name) ∧ new name = ofParts (netmapPrefix ++ name) name) ∨
      (¬netmapPrefix <+: name ∧ ¬(':' ∉ name ∧ ¬pipePrefix <+: name) ∧ new name = ofParts name name) := by
  by_cases hn : netmapPrefix <+: name
  · obtain ⟨base, rfl⟩ := hn
    exact Or.inl ⟨base, rfl, new_prefixed base⟩
  · have h := new_of_not_prefixed hn
    by_cases hplain : ':' ∉ name ∧ ¬pipePrefix <+: name
    · rw [if_pos hplain] at h
      exact Or.inr (Or.inl ⟨hplain, h⟩)
    · rw [if_neg hplain] at h
      exact Or.inr (Or.inr ⟨hn, hplain, h⟩)

/-! ## What the names keep -/

/-- The mark that is taken off the base is the one the flag tells of. -/
theorem ofParts_base (raw base : List Char) :
    (ofParts raw base).baseIfname ++ (if (ofParts raw base).wantsHostRings then ['^'] else []) = base := by
  by_cases h : base.getLast? = some '^'
  · have hb : (base.getLast? == some '^') = true := beq_iff_eq.mpr h
    simp only [ofParts, hb, if_true]
    exact List.dropLast_append_getLast? _ h
  · have hb : (base.getLast? == some '^') = false := beq_eq_false_iff_ne.mpr h
    simp only [ofParts, hb, Bool.false_eq_true, if_false, List.append_nil]

/-- The raw name is the base with an optional prefix before it and an optional mark behind it. -/
theorem raw_eq (name : List Char) : ∃ p, (p = [] ∨ p = netmapPrefix) ∧
    (new name).ifnameRaw = p ++ (new name).baseIfname ++ if (new name).wantsHostRings then ['^'] else [] := by
  rcases new_cases name with ⟨base, -, h⟩ | ⟨-, h⟩ | ⟨-, -, h⟩
  · refine ⟨netmapPrefix, Or.inr rfl, ?_⟩
    rw [h, List.append_assoc, ofParts_base]
    rfl
  · refine ⟨netmapPrefix, Or.inr rfl, ?_⟩
    rw [h, List.append_assoc, ofParts_base]
    rfl
  · refine ⟨[], Or.inl rfl, ?_⟩
    rw [h, List.append_assoc, ofParts_base]
    rfl

/-- The raw name of a builder gives the same builder. -/
theorem new_raw (name : List Char) : new (new name).ifnameRaw = new name := by
  rcases new_cases name with ⟨base, -, h⟩ | ⟨-, h⟩ | ⟨-, -, h⟩
  · rw [h]
    exact new_prefixed base
  · rw [h]
    exact new_prefixed name
  · have hraw : (new name).ifnameRaw = name := by
      rw [h]
      rfl
    rw [hraw]

/-- A prefix before a string that would have been given it changes nothing. -/
theorem new_prefixed_of_plain (hc : ':' ∉ name) (hp : ¬pipePrefix <+: name) : new (netmapPrefix ++ name) = new name := by
  have hn : ¬netmapPrefix <+: name := fun h => hc (colon_mem_of_prefixed h)
  rw [new_prefixed, new_of_not_prefixed hn, if_pos ⟨hc, hp⟩]

/-- A NUL in the raw name comes from the string, and is in the base name. -/
theorem nul_mem_raw_iff (name : List Char) : '\x00' ∈ (new name).ifnameRaw ↔ '\x00' ∈ name := by
  have hp : '\x00' ∉ netmapPrefix := by decide
  rcases new_cases name with ⟨base, he, h⟩ | ⟨-, h⟩ | ⟨-, -, h⟩
  · rw [h, he]
    rfl
  · rw [h]
    exact List.mem_append.trans ⟨fun hm => hm.resolve_left hp, Or.inr⟩
  · rw [h]
    rfl

/-- A NUL in the base name is one in the raw name. -/
theorem nul_not_mem_base (h : '\x00' ∉ (new name).ifnameRaw) : '\x00' ∉ (new name).baseIfname := by
  obtain ⟨p, -, hraw⟩ := raw_eq name
  intro hm
  apply h
  rw [hraw]
  exact List.mem_append_left _ (List.mem_append_right _ hm)

/-! ## Reaching `nm_open` -/

/-- When the request can be made up, its name is the bytes of the base name, padded. -/
theorem buildNmreq_iff (ffi : Ffi) (b : NetmapBuilder) :
    (∃ req, b.buildNmreq ffi = .ok req) ↔ (utf8Bytes b.baseIfname).length < ffi.ifnamsiz := by
  unfold buildNmreq
  dsimp only
  split
  · refine ⟨?_, fun h => by omega⟩
    rintro ⟨_, he⟩
    nomatch he
  · exact ⟨fun _ => by omega, fun _ => ⟨_, rfl⟩⟩

/-- The name in a request, read as unsigned bytes. -/
theorem nrName_eq (h : b.buildNmreq ffi = .ok req) :
    req.nrName.map Int8.toUInt8 = CStr.pad ffi.ifnamsiz (utf8Bytes b.baseIfname) ∧
      (utf8Bytes b.baseIfname).length < ffi.ifnamsiz := by
  refine ⟨?_, (buildNmreq_iff ffi b).mp ⟨req, h⟩⟩
  unfold buildNmreq at h
  dsimp only at h
  split at h
  · nomatch h
  · cases h
    simp only [CStr.pad, List.map_append, List.map_map, List.map_replicate]
    congr 1
    exact List.map_id' _

/-- With a request and without a NUL the result is made of the answer. -/
theorem reaches_of (h : b.buildNmreq ffi = .ok req) (hnul : '\x00' ∉ b.ifnameRaw) : b.Reaches ffi req := by
  have hc : b.ifnameRaw.contains '\x00' = false := eq_false_of_ne_true (mt List.contains_iff_mem.mp hnul)
  refine ⟨fun answer => b.build ffi (fun _ _ => answer), ?_, ?_⟩
  · intro nmOpen
    simp only [build, h, hc]
    rfl
  · intro os os' he
    simp only [build, h, hc] at he
    injection he with he
    injection he with he
    exact List.append_cancel_left he

/-- Without a request, or with a NUL, the result is an error that nothing was asked for. -/
theorem build_const (h : ¬((∃ req, b.buildNmreq ffi = .ok req) ∧ '\x00' ∉ b.ifnameRaw)) :
    ∃ e, ∀ nmOpen, b.build ffi nmOpen = .error e := by
  cases hreq : b.buildNmreq ffi with
  | error e =>
    refine ⟨e, fun nmOpen => ?_⟩
    simp only [build, hreq]
    rfl
  | ok req =>
    have hnul : '\x00' ∈ b.ifnameRaw := by
      by_contra hno
      exact h ⟨⟨req, hreq⟩, hno⟩
    have hc : b.ifnameRaw.contains '\x00' = true := List.contains_iff_mem.mpr hnul
    have hbuild : ∀ nmOpen, b.build ffi nmOpen =
        .error (.bindFail ("Invalid raw interface name: ".toList ++ b.ifnameRaw)) := by
      intro nmOpen
      simp only [build, hreq, hc]
      rfl
    exact ⟨_, hbuild⟩

/-- The call is reached with the request that was made up, and only when the raw name is a C string. -/
theorem reaches_iff (ffi : Ffi) (b : NetmapBuilder) (req : Nmreq) :
    b.Reaches ffi req ↔ b.buildNmreq ffi = .ok req ∧ '\x00' ∉ b.ifnameRaw := by
  refine ⟨?_, fun h => reaches_of h.1 h.2⟩
  rintro ⟨result, hres, hinj⟩
  have hne : ([] : List Char) ≠ ['?'] := by decide
  by_cases hok : (∃ req, b.buildNmreq ffi = .ok req) ∧ '\x00' ∉ b.ifnameRaw
  · obtain ⟨⟨req', hreq⟩, hnul⟩ := hok
    refine ⟨?_, hnul⟩
    obtain ⟨result', hres', -⟩ := reaches_of hreq hnul
    by_cases he : req' = req
    · rwa [he] at hreq
    · -- were it another request, the answer to this one would not show
      have hask : ∀ os, result (.error os) = result' (.error []) := by
        intro os
        have h1 := hres (fun _ r => if r = req then .error os else .error [])
        have h2 := hres' (fun _ r => if r = req then .error os else .error [])
        rw [if_pos rfl] at h1
        rw [if_neg he] at h2
        exact h1.symm.trans h2
      exact absurd (hinj _ _ ((hask []).trans (hask ['?']).symm)) hne
  · obtain ⟨e, he⟩ := build_const hok
    have hask : ∀ os, result (.error os) = .error e := fun os => (hres (fun _ _ => .error os)).symm.trans (he _)
    exact absurd (hinj _ _ ((hask []).trans (hask ['?']).symm)) hne

end InterfaceNameAux

open InterfaceNameAux

/-- For every string: the two names agree; opening gets as far as `nm_open` exactly when the base name is shorter than
IFNAMSIZ bytes and the string has no NUL byte; and the name in the request that gets there, read back as a C string, is the
base name. -/
theorem names_agree (ffi : Ffi) (name : List Char) :
    NamesAgree name ∧
      ((∃ req, (new name).Reaches ffi req) ↔
        (utf8Bytes (new name).baseIfname).length < ffi.ifnamsiz ∧ 0 ∉ utf8Bytes name) ∧
      ∀ req, (new name).Reaches ffi req → req.nrName.length = ffi.ifnamsiz ∧
        CStr.read (req.nrName.map Int8.toUInt8) = some (utf8Bytes (new name).baseIfname) := by
  refine ⟨⟨raw_eq name, new_raw name, new_prefixed_of_plain⟩, ?_, ?_⟩
  · rw [← buildNmreq_iff ffi, utf8Bytes, CStr.zero_mem_utf8, ← nul_mem_raw_iff name]
    constructor
    · rintro ⟨req, h⟩
      obtain ⟨h1, h2⟩ := (reaches_iff ffi _ req).mp h
      exact ⟨⟨req, h1⟩, h2⟩
    · rintro ⟨⟨req, h1⟩, h2⟩
      exact ⟨req, (reaches_iff ffi _ req).mpr ⟨h1, h2⟩⟩
  · intro req h
    obtain ⟨h1, h2⟩ := (reaches_iff ffi _ req).mp h
    obtain ⟨hname, hlen⟩ := nrName_eq h1
    have hnul : 0 ∉ utf8Bytes (new name).baseIfname := mt (CStr.zero_mem_utf8 _).mp (nul_not_mem_base h2)
    refine ⟨?_, ?_⟩
    · have hl := congrArg List.length hname
      rwa [List.length_map, CStr.length_pad (Nat.le_of_lt hlen)] at hl
    · rw [hname]
      exact CStr.read_pad hnul hlen

/-- A name in Cyrillic with the mark of host rings has a base name of six bytes, and loses nothing. -/
theorem names_agree_cyrillic : (new ['с', 'е', 'т', '^']).baseIfname = ['с', 'е', 'т'] ∧
    ∃ req, (new ['с', 'е', 'т', '^']).Reaches Ffi.headers req ∧
      CStr.read (req.nrName.map Int8.toUInt8) = some [0xd1, 0x81, 0xd0, 0xb5, 0xd1, 0x82] := by
  obtain ⟨-, hreach, hread⟩ := names_agree Ffi.headers ['с', 'е', 'т', '^']
  obtain ⟨req, h⟩ := hreach.mpr (by decide)
  exact ⟨by decide, req, h, (hread req h).2⟩

end NetHelper
