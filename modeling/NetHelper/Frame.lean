import NetHelper.Lib.ByteMem

/-!
# Frames

A view of a packet (`frame.rs`): either a borrowed slice of memory, whose bytes are read when the view is read, or a vector
of its own. A borrowed frame therefore has a payload only in a memory, and the payload changes when the memory does.
-/

namespace NetHelper

/-- The bytes of a packet. -/
abbrev Bytes := List UInt8

/-- The memory of the process, by address. -/
abbrev Memory := Nat → UInt8

/-- A slice: its address and its length. -/
structure Slice where
  addr : Nat
  len : Nat
  deriving DecidableEq, Repr

/-- The empty slice `&[]`, which points to no packet buffer. -/
def Slice.empty : Slice := { addr := 1, len := 0 }

/-- The bytes a slice shows in a memory. -/
def Slice.read (sl : Slice) (mem : Memory) : Bytes := ByteMem.read mem sl.addr sl.len

/-- Borrowed bytes or owned ones (`Cow<[u8]>`). -/
inductive Cow where
  | borrowed (sl : Slice)
  | owned (v : Bytes)
  deriving DecidableEq, Repr

/-- A view of a packet. -/
structure Frame where
  data : Cow
  deriving DecidableEq, Repr

/-- A frame over a borrowed slice. -/
def Frame.new (sl : Slice) : Frame := { data := .borrowed sl }

/-- A frame that owns its bytes. -/
def Frame.newOwned (v : Bytes) : Frame := { data := .owned v }

/-- The payload of a frame, read in a memory. -/
def Frame.payload (f : Frame) (mem : Memory) : Bytes :=
  match f.data with
  | .borrowed sl => sl.read mem
  | .owned v => v

/-- The length of a frame. -/
def Frame.len (f : Frame) : Nat :=
  match f.data with
  | .borrowed sl => sl.len
  | .owned v => v.length

/-- Whether a frame has no bytes. -/
def Frame.isEmpty (f : Frame) : Bool := f.len == 0

@[simp] theorem Frame.payload_new (sl : Slice) (mem : Memory) : (Frame.new sl).payload mem = sl.read mem := rfl

@[simp] theorem Frame.payload_newOwned (v : Bytes) (mem : Memory) : (Frame.newOwned v).payload mem = v := rfl

@[simp] theorem Slice.read_empty (mem : Memory) : Slice.empty.read mem = [] := rfl

/-- The length of a frame is the length of its payload, in every memory. -/
theorem Frame.length_payload (f : Frame) (mem : Memory) : (f.payload mem).length = f.len := by
  obtain ⟨data⟩ := f
  cases data with
  | borrowed sl => simp [Frame.payload, Frame.len, Slice.read]
  | owned v => rfl

end NetHelper
