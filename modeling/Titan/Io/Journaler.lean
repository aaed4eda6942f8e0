import Titan.Domain.Types
import Mathlib.Logic.Function.Basic
import Mathlib.Algebra.Ring.Nat

namespace Titan

def WAL_MAGIC : UInt64 := 0x544954414E
def WAL_VERSION : Nat := 1

def HEADER_BYTES : Nat := 64
def ORDER_BYTES : Nat := 40

/-- The 40 bytes of an order as five little-endian words. The padding holds nothing. -/
def Order.words (o : Order) : List UInt64 :=
  [o.id, o.seq, o.price.toUInt64, UInt64.ofNat (o.quantity.toNat + 2 ^ 32 * o.remaining.toNat),
    UInt64.ofNat (o.side.toNat + 2 ^ 8 * o.type.toNat)]

def Order.ofWords (w : Nat → UInt64) : Order where
  id := w 0
  seq := w 1
  price := (w 2).toInt64
  quantity := UInt32.ofNat (w 3).toNat
  remaining := UInt32.ofNat ((w 3).toNat / 2 ^ 32)
  side := UInt8.ofNat (w 4).toNat
  type := UInt8.ofNat ((w 4).toNat / 2 ^ 8)

inductive MsyncFlags
  | async
  | sync
  deriving DecidableEq, Repr

/-- A call of `msync` on the mapping; `count` is how many records had been appended by then. -/
structure Msync where
  start : Nat
  length : Nat
  flags : MsyncFlags
  count : Nat
  deriving DecidableEq, Repr

/-- A mapped log, `file` being its 8-byte words: 0 to 7 are the header, five more for each
    record. `writes` and `calls` are history. -/
structure Journaler where
  file : Nat → UInt64
  mapBytes : Nat
  capacity : Nat
  syncedCount : Nat
  writes : List (Nat × UInt64)
  calls : List Msync

namespace Journaler

def MAGIC_WORD : Nat := 0
def FORMAT_WORD : Nat := 1
def COUNT_WORD : Nat := 2

/-- The word `version`, `order_size` and `_pad` share. -/
def formatWord (version orderSize : Nat) : UInt64 := UInt64.ofNat (version + 2 ^ 16 * orderSize)

def recordWord (i j : Nat) : Nat := HEADER_BYTES / 8 + ORDER_BYTES / 8 * i + j

def store (j : Journaler) (word : Nat) (value : UInt64) : Journaler :=
  { j with file := Function.update j.file word value, writes := j.writes ++ [(word, value)] }

def copy (j : Journaler) (start : Nat) : List UInt64 → Journaler
  | [] => j
  | value :: rest => (j.store start value).copy (start + 1) rest

/-- The CREATE constructor over a file of zeroes. -/
def create (capacityOrders : Nat) : Journaler :=
  let j : Journaler :=
    { file := fun _ => 0, mapBytes := (HEADER_BYTES + capacityOrders * ORDER_BYTES) % 2 ^ 64, capacity := 0,
      syncedCount := 0, writes := [], calls := [] }
  let j := j.store MAGIC_WORD WAL_MAGIC
  let j := j.store FORMAT_WORD (formatWord WAL_VERSION 0)
  let j := j.store FORMAT_WORD (formatWord WAL_VERSION ORDER_BYTES)
  let j := j.store FORMAT_WORD (formatWord WAL_VERSION ORDER_BYTES)
  let j := j.store COUNT_WORD 0
  { j with capacity := capacityOrders }

def validate (file : Nat → UInt64) : Except String Unit :=
  if file MAGIC_WORD ≠ WAL_MAGIC then .error "journaler: bad magic (not a TITAN WAL)"
  else if (file FORMAT_WORD).toNat % 2 ^ 16 ≠ WAL_VERSION then .error "journaler: unsupported WAL version"
  else if (file FORMAT_WORD).toNat / 2 ^ 16 % 2 ^ 16 ≠ ORDER_BYTES then
    .error "journaler: order_size mismatch (Order ABI changed)"
  else .ok ()

/-- The OPEN constructor on a file of `bytes` bytes. -/
def ofFile (path : String) (bytes : Nat) (file : Nat → UInt64) : Except String Journaler := do
  if bytes < HEADER_BYTES then throw ("journaler: file too small / stat failed: " ++ path)
  validate file
  return { file := file, mapBytes := bytes, capacity := (bytes - HEADER_BYTES) / ORDER_BYTES, syncedCount := 0,
           writes := [], calls := [] }

def count (j : Journaler) : UInt64 := j.file COUNT_WORD

def record (file : Nat → UInt64) (i : Nat) : Order := Order.ofWords fun j => file (recordWord i j)

def append (j : Journaler) (order : Order) : Except String Journaler :=
  if j.count.toNat ≥ j.capacity then .error "journaler: WAL full"
  else
    let copied := j.copy (recordWord j.count.toNat 0) order.words
    .ok (copied.store COUNT_WORD (copied.count + 1))

def msync (j : Journaler) (start length : Nat) (flags : MsyncFlags) : Journaler :=
  { j with calls := j.calls ++ [⟨start, length, flags, j.count.toNat⟩] }

def syncDirty (pg : Nat) (j : Journaler) (flags : MsyncFlags) : Journaler :=
  let cnt := j.count.toNat
  if cnt = j.syncedCount ∧ flags = .async then j
  else
    let start := HEADER_BYTES + j.syncedCount * ORDER_BYTES
    let stop := HEADER_BYTES + cnt * ORDER_BYTES
    let start := start - start % pg
    let stop := (stop + pg - 1) / pg * pg
    let stop := if stop > j.mapBytes then j.mapBytes else stop
    let j := if stop > start then j.msync start (stop - start) flags else j
    let j := if flags = .sync then j.msync 0 pg .sync else j
    { j with syncedCount := cnt }

def flushAsync (pg : Nat) (j : Journaler) : Journaler := j.syncDirty pg .async

def flushSync (pg : Nat) (j : Journaler) : Journaler := j.syncDirty pg .sync

end Journaler

end Titan
