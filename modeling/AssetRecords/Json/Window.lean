import AssetRecords.Json.Writer
import AssetRecords.Text.Utf8
/-!
# Writing JSON into a window

A window is the front of a block of bytes.  It takes each piece whole or not at all, and counts on past its end, so that
a text that does not fit still tells how much room it needs.
-/
namespace AssetRecords
namespace Json

/-- The bytes at the front of a block that may be written to.  The bytes behind them are none of the writer's. -/
structure Window where
  block : Array UInt8
  capacity : Nat
  inside : capacity ≤ block.size

namespace Window

def whole (block : Array UInt8) : Window := ⟨block, block.size, Nat.le_refl _⟩

def overwrite (block : Array UInt8) (start : Nat) : Bytes → Array UInt8
  | [] => block
  | b :: rest => overwrite (block.setIfInBounds start b) (start + 1) rest

@[simp] theorem size_overwrite (block : Array UInt8) (start : Nat) (bytes : Bytes) :
    (overwrite block start bytes).size = block.size := by
  induction bytes generalizing block start with
  | nil => rfl
  | cons b rest ih => rw [overwrite, ih, Array.size_setIfInBounds]

end Window

/-- A window on its way, and how many bytes have been put so far, whether they fitted or not. -/
structure Filling where
  window : Window
  required : Nat := 0

namespace Filling

def put (f : Filling) (piece : Bytes) : Filling :=
  let ⟨⟨block, capacity, inside⟩, required⟩ := f
  let stop := required + piece.length
  if stop ≤ capacity then
    { window := ⟨Window.overwrite block required piece, capacity, by rwa [Window.size_overwrite]⟩, required := stop }
  else { window := ⟨block, capacity, inside⟩, required := stop }

def finish (f : Filling) : Except Error Nat :=
  if f.window.capacity < f.required then .error (.windowTooSmall f.required f.window.capacity) else .ok f.required

end Filling

/-- Writes a value into a window: how many bytes it takes, or why it cannot be had, and the window afterwards. -/
def writeInto (layout : Layout) (w : Window) (v : Value) : Except Error Nat × Window :=
  let emission := write layout 0 v
  let f := emission.pieces.foldl (fun f piece => f.put (Utf8.encode piece)) { window := w : Filling }
  match emission.refusal with
  | some e => (.error e, f.window)
  | none => (f.finish, f.window)

/-- The size of the first block that a text is written to. -/
def initialCapacity : Nat := 1024

def textOf (block : Array UInt8) (used : Nat) : Except Error String :=
  match Utf8.decode (block.toList.take used) with
  | .ok cs => .ok (String.ofList cs)
  | .error fault => .error (.notUtf8 fault)

/-- The JSON text of a value.  A block that the text does not fit grows to the right size, and the text is written to it
again. -/
def render (layout : Layout) (v : Value) : Except Error String :=
  match writeInto layout (.whole (Array.replicate initialCapacity 0)) v with
  | (.ok used, w) => textOf w.block used
  | (.error (.windowTooSmall required _), w) => do
    let (used, w) := writeInto layout (.whole (w.block ++ Array.replicate (required - w.block.size) 0)) v
    textOf w.block (← used)
  | (.error e, _) => .error e

end Json
end AssetRecords
