import NetHelper.Ring

/-!
# Opening an interface

The builder of an interface and the interface itself (`netmap.rs`): the name is taken apart, the request is made up and
handed to `nm_open`, and the rings of the descriptor that comes back are found through the table `ring_ofs`. `nm_open` and
the constants of the netmap headers are parameters. Strings are lists of characters, and their lengths are counted in UTF-8
bytes.
-/

namespace NetHelper

open Checked

/-- The constants of the netmap headers that the crate uses. -/
structure Ffi where
  ifnamsiz : Nat
  netmapApi : Nat
  nrRegSw : UInt32
  nrRegAllNic : UInt32

/-- The constants as the headers define them. -/
def Ffi.headers : Ffi := { ifnamsiz := 16, netmapApi := 14, nrRegSw := 2, nrRegAllNic := 1 }

/-- The request handed to `nm_open`. -/
structure Nmreq where
  nrName : List Int8
  nrVersion : Nat
  nrOffset : Nat
  nrMemsize : Nat
  nrTxSlots : Nat
  nrRxSlots : Nat
  nrTxRings : Nat
  nrRxRings : Nat
  nrRingid : Nat
  nrFlags : UInt32
  nrCmd : Nat
  nrArg1 : Nat
  nrArg2 : Nat
  nrArg3 : Nat
  spare2 : List Nat
  deriving DecidableEq

/-- The `netmap_if` of an open interface: its address, the numbers of its rings, and the words from `ring_ofs` on. -/
structure NetmapIf where
  addr : Nat
  niTxRings : Nat
  niRxRings : Nat
  niHostTxRings : Nat
  niHostRxRings : Nat
  ringOfs : Nat → Nat

/-- The descriptor `nm_open` returns. -/
structure NmDesc where
  nifp : NetmapIf
  fd : Int

/-- Opening an interface by its raw name: a descriptor, or the text of the error the system reports. -/
abbrev NmOpen := List Char → Nmreq → Except (List Char) NmDesc

/-- The bytes of a string. -/
def utf8Bytes (s : List Char) : List UInt8 := s.flatMap String.utf8EncodeChar

/-! ## The builder -/

/-- A builder for configuring and opening an interface. -/
structure NetmapBuilder where
  ifnameRaw : List Char
  baseIfname : List Char
  wantsHostRings : Bool
  isPipeIf : Bool
  reqNumTxRings : Nat
  reqNumRxRings : Nat
  additionalFlags : UInt32
  deriving DecidableEq

/-- A Netmap interface. -/
structure Netmap where
  desc : NmDesc
  numTxRings : Nat
  numRxRings : Nat
  isHostIf : Bool

/-- The prefix of an interface name. -/
def netmapPrefix : List Char := ['n', 'e', 't', 'm', 'a', 'p', ':']

/-- The prefix of the name of a pipe. -/
def pipePrefix : List Char := ['p', 'i', 'p', 'e', '{']

namespace NetmapBuilder

/-- Create a new builder for an interface name. -/
def new (ifnameStr : List Char) : NetmapBuilder :=
  let (rawNameToUse, baseNameForReq) :=
    match netmapPrefix.isPrefixOf? ifnameStr with
    | some strippedPrefix => (ifnameStr, strippedPrefix)
    | none =>
      if !ifnameStr.contains ':' && !pipePrefix.isPrefixOf ifnameStr then
        (netmapPrefix ++ ifnameStr, ifnameStr)
      else
        (ifnameStr, ifnameStr)
  let wantsHostRings := baseNameForReq.getLast? == some '^'
  let effectiveBaseNameForReq := if wantsHostRings then baseNameForReq.dropLast else baseNameForReq
  let isPipe := pipePrefix.isPrefixOf baseNameForReq && baseNameForReq.getLast? == some '}'
  let defaultRings := if isPipe then 1 else 0
  { ifnameRaw := rawNameToUse
    baseIfname := effectiveBaseNameForReq
    wantsHostRings := wantsHostRings
    isPipeIf := isPipe
    reqNumTxRings := defaultRings
    reqNumRxRings := defaultRings
    additionalFlags := 0 }

/-- Set the desired number of TX rings, as a u16. -/
def numTxRings (b : NetmapBuilder) (num : Nat) : NetmapBuilder := { b with reqNumTxRings := cast 16 num }

/-- Set the desired number of RX rings, as a u16. -/
def numRxRings (b : NetmapBuilder) (num : Nat) : NetmapBuilder := { b with reqNumRxRings := cast 16 num }

/-- Set additional flags for the request. -/
def flags (b : NetmapBuilder) (flags : UInt32) : NetmapBuilder := { b with additionalFlags := flags }

/-- The request for `nm_open`. -/
def buildNmreq (ffi : Ffi) (b : NetmapBuilder) : Except Error Nmreq :=
  let bytes := utf8Bytes b.baseIfname
  if bytes.length ≥ ffi.ifnamsiz then
    .error (.bindFail ("Base interface name '".toList ++ b.baseIfname ++ "' is too long.".toList))
  else
    let nrNameBytes := bytes.map UInt8.toInt8 ++ List.replicate (ffi.ifnamsiz - bytes.length) 0
    let (reqFlags, hwTxRings, hwRxRings) :=
      if b.isPipeIf then
        (b.additionalFlags, b.reqNumTxRings, b.reqNumRxRings)
      else if b.wantsHostRings then
        (b.additionalFlags ||| ffi.nrRegSw, 0, 0)
      else
        (b.additionalFlags ||| ffi.nrRegAllNic, b.reqNumTxRings, b.reqNumRxRings)
    .ok {
      nrName := nrNameBytes
      nrVersion := cast 32 ffi.netmapApi
      nrOffset := 0
      nrMemsize := 0
      nrTxSlots := 0
      nrRxSlots := 0
      nrTxRings := hwTxRings
      nrRxRings := hwRxRings
      nrRingid := 0
      nrFlags := reqFlags
      nrCmd := 0
      nrArg1 := 0
      nrArg2 := 0
      nrArg3 := 0
      spare2 := [0] }

/-- Attempt to open the interface. The numbers of rings are read from the descriptor, by what the builder asked for. -/
def build (ffi : Ffi) (nmOpen : NmOpen) (b : NetmapBuilder) : Except Error Netmap := do
  let req ← buildNmreq ffi b
  -- a name with a NUL in it is no C string
  if b.ifnameRaw.contains '\x00' then
    .error (.bindFail ("Invalid raw interface name: ".toList ++ b.ifnameRaw))
  else
    match nmOpen b.ifnameRaw req with
    | .error os =>
      .error (.bindFail ("Failed to open interface via nm_open for '".toList ++ b.ifnameRaw ++ "'. Errno: ".toList ++ os))
    | .ok desc =>
      let nifp := desc.nifp
      let (actualNumTx, actualNumRx, finalIsHostIf) :=
        if b.isPipeIf then
          (nifp.niTxRings, nifp.niRxRings, false)
        else if b.wantsHostRings then
          (nifp.niHostTxRings, nifp.niHostRxRings, true)
        else
          (nifp.niTxRings, nifp.niRxRings, false)
      .ok { desc := desc, numTxRings := actualNumTx, numRxRings := actualNumRx, isHostIf := finalIsHostIf }

end NetmapBuilder

/-! ## The interface -/

/-- The address of a TX ring of an interface (`NETMAP_TXRING`). -/
def netmapTxring (nifp : NetmapIf) (index : Nat) : Nat := nifp.addr + nifp.ringOfs index

/-- The address of an RX ring of an interface (`NETMAP_RXRING`). -/
def netmapRxring (nifp : NetmapIf) (index : Nat) : Nat := nifp.addr + nifp.ringOfs (nifp.niTxRings + index)

namespace Netmap

/-- Get a handle to a TX ring. -/
def txRing (nm : Netmap) (index : Nat) : Except Error TxRing :=
  if index ≥ nm.numTxRings then
    .error (.invalidRingIndex index)
  else
    .ok (TxRing.new (netmapTxring nm.desc.nifp index) index)

/-- Get a handle to an RX ring. -/
def rxRing (nm : Netmap) (index : Nat) : Except Error RxRing :=
  if index ≥ nm.numRxRings then
    .error (.invalidRingIndex index)
  else
    .ok (RxRing.new (netmapRxring nm.desc.nifp index) index)

/-- The file descriptor of the interface. -/
def asRawFd (nm : Netmap) : Int := nm.desc.fd

end Netmap

end NetHelper
