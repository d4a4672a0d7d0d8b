import AssetRecords.Buffer.Basic
import AssetRecords.Limits
/-!
# Reading data at a position

A cursor is an offset into data and nothing else.  A read takes bytes at the offset and moves it past them.  A read that
fails leaves the cursor where it was, unless it is only that a buffer cannot be had for the bytes; a run of reads stops
where the one that failed has left it.
-/
namespace AssetRecords

/-- A whole file in memory and the path it came from. -/
structure Content where
  path : String
  data : Bytes

structure Cursor where
  pos : Nat := 0
  deriving DecidableEq, Repr

/-- A computation that reads at a cursor: what it read or why it failed, and the cursor afterwards. -/
abbrev Reading := ExceptT Error (StateM Cursor)

namespace Reading

variable {α β : Type}

@[simp] theorem pure_apply (a : α) (c : Cursor) : (pure a : Reading α) c = (.ok a, c) := rfl

@[simp] theorem throw_apply (e : Error) (c : Cursor) : (throw e : Reading α) c = (.error e, c) := rfl

/-- One read after another; the second one starts where the first one has ended, unless that failed. -/
theorem bind_apply (read : Reading α) (next : α → Reading β) (c : Cursor) :
    (read >>= next) c =
      match read c with
      | (.ok a, c) => next a c
      | (.error e, c) => (.error e, c) := by
  show ExceptT.bindCont next (read c).1 (read c).2 = _
  rcases read c with ⟨_ | _, _⟩ <;> rfl

/-- The same read, but that a failure undoes its moves. -/
def atomically (read : Reading α) : Reading α := fun c =>
  match read c with
  | (.error e, _) => (.error e, c)
  | success => success

end Reading

namespace Cursor

def remaining (c : Cursor) (data : Bytes) : Nat := data.length - c.pos

def isAtEnd (c : Cursor) (data : Bytes) : Bool := data.length ≤ c.pos

def take (data : Bytes) (count : Nat) : Reading Bytes := fun c =>
  if c.pos + count ≤ data.length then (.ok ((data.drop c.pos).take count), ⟨c.pos + count⟩)
  else (.error (.unexpectedEnd c.pos count data.length), c)

theorem take_eq_ok {data : Bytes} {count : Nat} {c : Cursor} (h : c.pos + count ≤ data.length) :
    take data count c = (.ok ((data.drop c.pos).take count), ⟨c.pos + count⟩) := if_pos h

theorem take_eq_error {data : Bytes} {count : Nat} {c : Cursor} (h : data.length < c.pos + count) :
    take data count c = (.error (.unexpectedEnd c.pos count data.length), c) := if_neg (Nat.not_le.2 h)

/-- The number in the next bytes. -/
def natural (data : Bytes) (size : Nat) : Reading Nat := ofLittleEndian <$> take data size

def u8 (data : Bytes) : Reading UInt8 := UInt8.ofNat <$> natural data 1
def u16 (data : Bytes) : Reading UInt16 := UInt16.ofNat <$> natural data 2
def u32 (data : Bytes) : Reading UInt32 := UInt32.ofNat <$> natural data 4
def i32 (data : Bytes) : Reading Int32 := (fun n => (UInt32.ofNat n).toInt32) <$> natural data 4
def single (data : Bytes) : Reading Single := (fun n => ⟨BitVec.ofNat _ n⟩) <$> natural data 4

def singles (data : Bytes) (count : Nat) : Reading (Vector Single count) := do
  let bytes ← take data (count * 4)
  return .ofFn fun i => ⟨BitVec.ofNat _ (ofLittleEndian ((bytes.drop (i.val * 4)).take 4))⟩

def scalar (data : Bytes) (type : ScalarType) : Reading Scalar := (⟨type, type.bitsOf ·⟩) <$> take data type.size

/-- A text behind its length in bytes, which takes two bytes. -/
def string16 (data : Bytes) : Reading String :=
  Reading.atomically do
    let length ← u16 data
    let bytes ← take data length.toNat
    match Utf8.decode bytes with
    | .ok cs => return String.ofList cs
    | .error fault => throw (.notUtf8 fault)

/-- Fills a buffer with numbers of a type: what became of that, the buffer, and the cursor.  The bytes are looked for
before room for them is made, so that the buffer stays as it is unless they are there. -/
def refill (data : Bytes) (type : ScalarType) (count : Nat) (b : Buffer) (c : Cursor)
    (memory : Nat := Buffer.memoryLimit) : Except Error Unit × Buffer × Cursor :=
  if Buffer.addressSpace ≤ count * type.size then (.error (.malformed (.countOverflow count)), b, c)
  else
    match take data (count * type.size) c with
    | (.error e, c) => (.error e, b, c)
    | (.ok bytes, c) =>
      match Buffer.ofPayload type count bytes memory with
      | .ok b => (.ok (), b, c)
      | .error e => (.error e, {}, c)

def buffer (data : Bytes) (type : ScalarType) (count : Nat) (memory : Nat := Buffer.memoryLimit) : Reading Buffer :=
  fun c =>
  match refill data type count {} c memory with
  | (.ok _, b, c) => (.ok b, c)
  | (.error e, _, c) => (.error e, c)

/-- So many more values behind those that are read already, the last of which comes first. -/
def timesOnto {α : Type} (read : Reading α) : Nat → List α → Reading (List α)
  | 0, done => return done.reverse
  | count + 1, done => do timesOnto read count ((← read) :: done)

def times {α : Type} (read : Reading α) (count : Nat) : Reading (List α) := timesOnto read count []

theorem timesOnto_eq {α : Type} (read : Reading α) : ∀ (count : Nat) (done : List α),
    timesOnto read count done = (done.reverse ++ ·) <$> timesOnto read count []
  | 0, done => by simp [timesOnto]
  | count + 1, done => by
    simp only [timesOnto, map_bind]
    congr 1
    funext first
    rw [timesOnto_eq read count (first :: done), timesOnto_eq read count [first]]
    simp [Functor.map_map]

@[simp] theorem times_zero {α : Type} (read : Reading α) : times read 0 = pure [] := rfl

theorem times_succ {α : Type} (read : Reading α) (count : Nat) :
    times read (count + 1) = do return (← read) :: (← times read count) := by
  unfold times
  rw [timesOnto]
  congr 1
  funext first
  rw [timesOnto_eq]
  simp

end Cursor
end AssetRecords
