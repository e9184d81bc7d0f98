import Potocolom.Lib.Slice
import Potocolom.Lib.Walk

/-! # Reading stored bytes

What the walks of `storage.py` read with `struct.unpack_from`, `int.from_bytes`, slices and
`zlib.crc32`. A read outside the input is a failure of its own here, also for a slice, which
Python would clip. -/

namespace Potocolom.Stored

open Guard

inductive Failure where
  | valueError (message : String)
  /-- A read outside of the input. -/
  | outside
deriving DecidableEq, Repr

/-- The failures that `_inspect` catches. -/
def IsValueError (why : Failure) : Prop := ∃ message, why = .valueError message

theorem require_raises {c : Prop} [Decidable c] {message : String} :
    RaisesOnly IsValueError (require c (.valueError message)) := raisesOnly_require ⟨message, rfl⟩

theorem throw_raises {α : Type} {message : String} :
    RaisesOnly IsValueError (throw (.valueError message) : Except Failure α) :=
  raisesOnly_throw.2 ⟨message, rfl⟩

/-- `MAX_IMAGE_EDGE` -/
def maxImageEdge : Nat := 4096

/-- `MAX_PNG_CHUNKS` -/
def maxPngChunks : Nat := 4096

/-- `data[start:stop]` -/
def view (data : List UInt8) (start stop : Nat) : Except Failure (List UInt8) :=
  demand (Slice.slice? data start stop) .outside

/-- A big-endian number of the bytes from `start` to before `stop`. -/
def big (data : List UInt8) (start stop : Nat) : Except Failure Nat :=
  BigEndian.fromBytes <$> view data start stop

section Reads

variable {data rest : List UInt8} {position start stop : Nat}

theorem view_raises {P : Failure → Prop} (h : start ≤ stop ∧ stop ≤ data.length) :
    RaisesOnly P (view data start stop) := by
  rw [view, raisesOnly_demand]
  intro hnone
  have hsome := Slice.slice?_isSome.2 h
  rw [hnone] at hsome
  cases hsome

theorem view_eq_ok {bytes : List UInt8} :
    view data start stop = .ok bytes ↔ Slice.slice? data start stop = some bytes :=
  demand_eq_ok

theorem map_raises {P : Failure → Prop} {α β : Type} {x : Except Failure α} {f : α → β}
    (h : RaisesOnly P x) : RaisesOnly P (f <$> x) := by
  cases x with
  | ok a => exact raisesOnly_ok _
  | error why => exact raisesOnly_error.2 (raisesOnly_error.1 h)

theorem big_raises {P : Failure → Prop} (h : start ≤ stop ∧ stop ≤ data.length) :
    RaisesOnly P (big data start stop) :=
  map_raises (view_raises h)

/-- A number of so many bytes is read where its bytes stand. -/
theorem big_eq_ok {width n : Nat} (hstop : stop = start + width) :
    big data start stop = .ok n ↔
      n < 256 ^ width ∧ Slice.slice? data start stop = some (BigEndian.toBytes width n) := by
  simp only [big, map_eq_ok, view_eq_ok]
  constructor
  · rintro ⟨bytes, hbytes, hn⟩
    have hlength : bytes.length = width := by
      rw [Slice.length_of_slice? hbytes]
      omega
    obtain ⟨hwidth, rfl⟩ := (BigEndian.fromBytes_eq_iff hlength).1 hn
    exact ⟨hwidth, hbytes⟩
  · rintro ⟨hn, hbytes⟩
    exact ⟨_, hbytes, BigEndian.fromBytes_toBytes hn⟩

end Reads

/-! ## The checksum -/

/-- A bit of the checksum's division. -/
def crcBit (c : UInt32) : UInt32 := if c &&& 1 = 1 then (c >>> 1) ^^^ 0xEDB88320 else c >>> 1

def crcByte (c : UInt32) (b : UInt8) : UInt32 := Nat.iterate crcBit 8 (c ^^^ b.toUInt32)

/-- `zlib.crc32` -/
def crc32 (data : List UInt8) (value : UInt32) : UInt32 :=
  data.foldl crcByte (value ^^^ 0xFFFFFFFF) ^^^ 0xFFFFFFFF

/-- The checksum goes on from that of what stands before. -/
theorem crc32_append (data more : List UInt8) (value : UInt32) :
    crc32 (data ++ more) value = crc32 more (crc32 data value) := by
  rw [crc32, crc32, crc32, List.foldl_append, UInt32.xor_assoc, UInt32.xor_self, UInt32.xor_zero]

example : crc32 [73, 69, 78, 68] 0 = 0xAE426082 := by decide +kernel

end Potocolom.Stored
