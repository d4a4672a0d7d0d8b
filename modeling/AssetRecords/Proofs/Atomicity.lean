import AssetRecords.Proofs.Asset.Wire
/-!
# Atomicity — reads that move all the way or not at all

A read at a cursor either takes the bytes of its answer, or it fails and the cursor is where it was.  That is what
`Atomic` says of a read, and it says that the answer is told by the bytes between the two cursors, wherever they stand
and whatever stands around them.  All reads of numbers, texts and buffers are such reads (`reads_atomic`), the last ones
as long as there is room for what the data holds.  Nothing changes where positions are words of a machine and a sum of
two words may go round (`take_eq_takeWords`).
-/
namespace AssetRecords

open Cursor (Passes)

namespace Reading

variable {α β : Type} {data : Bytes} {size : α → Nat} {read : Bytes → Reading α}

/-- A read that takes exactly the bytes of its answer, and none if it fails.  The answer is told by these bytes. -/
structure Atomic (data : Bytes) (size : α → Nat) (read : Bytes → Reading α) : Prop where
  moves : ∀ {c c' : Cursor} {a : α}, read data c = (.ok a, c') → c'.pos = c.pos + size a ∧ c'.pos ≤ data.length
  told : ∀ {c c' : Cursor} {a : α}, read data c = (.ok a, c') → ∃ bytes, Passes data c bytes c' ∧
    ∀ (other : Bytes) (d d' : Cursor), Passes other d bytes d' → read other d = (.ok a, d')
  stays : ∀ {c c' : Cursor} {e : Error}, read data c = (.error e, c') → c' = c

theorem map_eq_error_iff {f : α → β} {r : Reading α} {c c' : Cursor} {e : Error} :
    (f <$> r) c = (.error e, c') ↔ r c = (.error e, c') := by
  rw [map_apply]
  rcases r c with ⟨e' | a, m⟩
  · constructor
    · rintro ⟨⟩
      rfl
    · rintro ⟨⟩
      rfl
  · constructor
    · rintro ⟨⟩
    · rintro ⟨⟩

theorem atomically_eq_error {r : Reading α} {c c' : Cursor} {e : Error} (h : atomically r c = (.error e, c')) :
    c' = c := by
  unfold atomically at h
  rcases hr : r c with ⟨_ | a, m⟩
  · rw [hr] at h
    cases h
    rfl
  · rw [hr] at h
    cases h

/-- What is made of an answer is told by the same bytes. -/
theorem Atomic.map (h : Atomic data size read) (f : α → β) {size' : β → Nat} (same : ∀ a, size' (f a) = size a) :
    Atomic data size' fun data => f <$> read data := by
  refine ⟨fun {c c' b} run => ?_, fun {c c' b} run => ?_, fun run => h.stays (map_eq_error_iff.1 run)⟩
  · obtain ⟨a, first, rfl⟩ := map_eq_ok_iff.1 run
    rw [same]
    exact h.moves first
  · obtain ⟨a, first, rfl⟩ := map_eq_ok_iff.1 run
    obtain ⟨bytes, passes, again⟩ := h.told first
    exact ⟨bytes, passes, fun other d d' passes' => map_eq_ok_iff.2 ⟨a, again other d d' passes', rfl⟩⟩

end Reading

namespace Cursor

open Reading (Atomic)

variable {data : Bytes} {memory : Nat}

theorem take_eq_error_iff {count : Nat} {c c' : Cursor} {e : Error} : take data count c = (.error e, c') ↔
    data.length < c.pos + count ∧ e = .unexpectedEnd c.pos count data.length ∧ c' = c := by
  by_cases fits : c.pos + count ≤ data.length
  · rw [take_eq_ok fits]
    constructor
    · intro h
      cases h
    · rintro ⟨short, -⟩
      omega
  · rw [take_eq_error (by omega), Prod.mk.injEq, Except.error.injEq, eq_comm, eq_comm (a := c)]
    exact (and_iff_right (Nat.lt_of_not_le fits)).symm

theorem atomic_take (data : Bytes) (count : Nat) : Atomic data (fun _ => count) fun data => take data count := by
  refine ⟨fun {c c' bytes} run => ?_, fun {c c' bytes} run => ?_, fun run => (take_eq_error_iff.1 run).2.2⟩
  · obtain ⟨rfl, passes⟩ := take_eq_ok_iff.1 run
    exact ⟨Armature.pos_of_passes passes, passes.stop_le⟩
  · obtain ⟨length, passes⟩ := take_eq_ok_iff.1 run
    exact ⟨bytes, passes, fun other d d' passes' => take_eq_ok_iff.2 ⟨length, passes'⟩⟩

theorem atomic_natural (data : Bytes) (size : Nat) : Atomic data (fun _ => size) fun data => natural data size :=
  (atomic_take data size).map _ fun _ => rfl

theorem atomic_singles (data : Bytes) (count : Nat) :
    Atomic data (fun _ => count * 4) fun data => singles data count := by
  have mapped : ∀ data, singles data count = (fun bytes : Bytes => Vector.ofFn fun i : Fin count =>
      (⟨BitVec.ofNat _ (ofLittleEndian ((bytes.drop (i.val * 4)).take 4))⟩ : Single)) <$> take data (count * 4) :=
    fun _ => rfl
  simp only [mapped]
  exact (atomic_take data (count * 4)).map _ fun _ => rfl

/-- A text takes two bytes for its length, and its own. -/
theorem atomic_string16 (data : Bytes) :
    Atomic data (fun s : String => 2 + (Utf8.encode s.toList).length) string16 := by
  refine ⟨fun {c c' s} run => ?_, fun {c c' s} run => ?_, Reading.atomically_eq_error⟩
  · obtain ⟨-, passes⟩ := Asset.text_eq_ok_iff.1 run
    have length : (Asset.textBytes s).length = 2 + (Utf8.encode s.toList).length := by
      rw [Asset.textBytes, List.length_append, length_littleEndian]
    rw [← length]
    exact ⟨Armature.pos_of_passes passes, passes.stop_le⟩
  · obtain ⟨fits, passes⟩ := Asset.text_eq_ok_iff.1 run
    exact ⟨Asset.textBytes s, passes, fun other d d' passes' => Asset.text_eq_ok_iff.2 ⟨fits, passes'⟩⟩

/-- There is room for every buffer that is no larger than the data. -/
def HasRoom (memory : Nat) (data : Bytes) : Prop :=
  ∀ (type : ScalarType) (count : Nat), count * type.size ≤ data.length → ∃ b, Buffer.zeroed type count memory = .ok b

theorem hasRoom_of_granted (h : Buffer.Granted memory data.length) : HasRoom memory data := by
  intro type count fits
  exact ⟨_, Buffer.zeroed_eq_ok_iff.2 ⟨h.of_le fits, rfl⟩⟩

/-- Where there is room, bytes that stand in the data become a buffer. -/
theorem HasRoom.exists_ofPayload (room : HasRoom memory data) {type : ScalarType} {count : Nat} {bytes : Bytes}
    {c c' : Cursor} (taken : take data (count * type.size) c = (.ok bytes, c')) :
    ∃ b, Buffer.ofPayload type count bytes memory = .ok b := by
  obtain ⟨length, passes⟩ := take_eq_ok_iff.1 taken
  have fits : count * type.size ≤ data.length := by
    have stop := passes.stop_le
    rw [Armature.pos_of_passes passes, length] at stop
    omega
  obtain ⟨zeros, hzeros⟩ := room type count fits
  refine ⟨zeros.withPayload bytes, ?_⟩
  rw [Buffer.ofPayload, hzeros]
  rfl

theorem atomic_buffer (room : HasRoom memory data) (type : ScalarType) (count : Nat) :
    Atomic data (fun _ => count * type.size) fun data => buffer data type count memory := by
  simp only [buffer_eq]
  by_cases overflow : Buffer.addressSpace ≤ count * type.size
  · simp only [if_pos overflow]
    refine ⟨fun run => absurd run Reading.throw_ne_ok, fun run => absurd run Reading.throw_ne_ok, fun run => ?_⟩
    cases run
    rfl
  · simp only [if_neg overflow]
    have whole := atomic_take data (count * type.size)
    refine ⟨fun {c c' b} run => ?_, fun {c c' b} run => ?_, fun {c c' e} run => ?_⟩
    · obtain ⟨bytes, m, taken, made⟩ := Reading.bind_eq_ok_iff.1 run
      obtain ⟨-, rfl⟩ := Reading.liftM_eq_ok_iff.1 made
      exact whole.moves taken
    · obtain ⟨bytes, m, taken, made⟩ := Reading.bind_eq_ok_iff.1 run
      obtain ⟨granted, rfl⟩ := Reading.liftM_eq_ok_iff.1 made
      obtain ⟨length, passes⟩ := take_eq_ok_iff.1 taken
      refine ⟨bytes, passes, fun other d d' passes' => Reading.bind_eq_ok_iff.2 ⟨bytes, d', ?_, ?_⟩⟩
      · exact take_eq_ok_iff.2 ⟨length, passes'⟩
      · exact Reading.liftM_eq_ok_iff.2 ⟨granted, rfl⟩
    · rw [Reading.bind_apply] at run
      cases taken : take data (count * type.size) c with
      | mk outcome m =>
        rw [taken] at run
        cases outcome with
        | error e' =>
          cases run
          exact whole.stays taken
        | ok bytes =>
          -- there is room for the bytes that were taken
          obtain ⟨b, made⟩ := room.exists_ofPayload taken
          simp only [made, Reading.liftM_apply] at run
          cases run

/-- A buffer that is filled again becomes what is read, or stays as it was. -/
theorem refill_eq (room : HasRoom memory data) (type : ScalarType) (count : Nat) (b : Buffer) (c : Cursor) :
    refill data type count b c memory =
      match buffer data type count memory c with
      | (.ok filled, c') => (.ok (), filled, c')
      | (.error e, c') => (.error e, b, c') := by
  unfold buffer refill
  by_cases overflow : Buffer.addressSpace ≤ count * type.size
  · simp only [if_pos overflow]
  · simp only [if_neg overflow]
    cases taken : take data (count * type.size) c with
    | mk outcome m =>
      cases outcome with
      | error e => rfl
      | ok bytes =>
        obtain ⟨filled, made⟩ := room.exists_ofPayload taken
        simp only [made]

/-!
## Positions in words
-/

/-- The sum of two words, unless it goes round. -/
def sum? (a b : UInt64) : Option UInt64 := if a + b < a then none else some (a + b)

theorem sum?_eq_some_iff {a b c : UInt64} : sum? a b = some c ↔ c.toNat = a.toNat + b.toNat := by
  have ha := a.toNat_lt
  have hb := b.toNat_lt
  have hc := c.toNat_lt
  have sum := UInt64.toNat_add a b
  unfold sum?
  by_cases round : a + b < a
  · rw [if_pos round]
    rw [UInt64.lt_iff_toNat_lt] at round
    exact ⟨nofun, fun h => by omega⟩
  · rw [if_neg round, Option.some.injEq, ← UInt64.toNat_inj]
    rw [UInt64.lt_iff_toNat_lt] at round
    omega

/-- Bytes taken where positions are words: what is taken, and the position afterwards. -/
def takeWords (data : Bytes) (count pos : UInt64) : Except Error Bytes × UInt64 :=
  match (sum? pos count).filter (·.toNat ≤ data.length) with
  | some stop => (.ok ((data.drop pos.toNat).take (stop - pos).toNat), stop)
  | none => (.error (.unexpectedEnd pos.toNat count.toNat data.length), pos)

/-- **No position goes round**: data whose length is a word is read as where positions are numbers. -/
theorem take_eq_takeWords (small : data.length < UInt64.size) (count pos : UInt64) :
    take data count.toNat ⟨pos.toNat⟩ = ((takeWords data count pos).1, ⟨(takeWords data count pos).2.toNat⟩) := by
  unfold takeWords
  by_cases fits : pos.toNat + count.toNat ≤ data.length
  · -- the stop is within the data, so that it is a word
    have stop : (UInt64.ofNat (pos.toNat + count.toNat)).toNat = pos.toNat + count.toNat := by
      rw [UInt64.toNat_ofNat', Nat.mod_eq_of_lt (Nat.lt_of_le_of_lt fits small)]
    have back : (UInt64.ofNat (pos.toNat + count.toNat) - pos).toNat = count.toNat := by
      rw [UInt64.toNat_sub_of_le, stop, Nat.add_sub_cancel_left]
      rw [UInt64.le_iff_toNat_le, stop]
      exact Nat.le_add_right _ _
    rw [sum?_eq_some_iff.2 stop, Option.filter_some_pos (by rw [stop]; exact decide_eq_true fits)]
    simp only [back, stop]
    exact take_eq_ok fits
  · have none : (sum? pos count).filter (·.toNat ≤ data.length) = none := by
      rw [Option.filter_eq_none_iff]
      intro stop hstop
      rw [sum?_eq_some_iff.1 hstop]
      exact fun h => fits (of_decide_eq_true h)
    simp only [none]
    exact take_eq_error (Nat.lt_of_not_le fits)

/-!
## All reads
-/

/-- **Every read is exact and atomic.**  It moves the cursor over the bytes of its answer, which are within the data and
alone tell the answer, or it fails and the cursor is where it was; a buffer that was to be filled again is as it was
then, too.  Bytes are refused exactly if they reach past the end of the data as numbers, and so they are where positions
are words. -/
theorem reads_atomic {memory : Nat} {data : Bytes} (room : HasRoom memory data) :
    (∀ count, Atomic data (fun _ => count) fun data => take data count) ∧
    Atomic data (fun _ => 1) u8 ∧ Atomic data (fun _ => 2) u16 ∧ Atomic data (fun _ => 4) u32 ∧
    Atomic data (fun _ => 4) i32 ∧ Atomic data (fun _ => 4) single ∧
    (∀ count, Atomic data (fun _ => count * 4) fun data => singles data count) ∧
    (∀ type : ScalarType, Atomic data (fun _ => type.size) fun data => scalar data type) ∧
    Atomic data (fun s => 2 + (Utf8.encode s.toList).length) string16 ∧
    (∀ (type : ScalarType) (count : Nat),
      Atomic data (fun _ => count * type.size) fun data => buffer data type count memory) ∧
    (∀ type count (b : Buffer) c, refill data type count b c memory =
      match buffer data type count memory c with
      | (.ok filled, c') => (.ok (), filled, c')
      | (.error e, c') => (.error e, b, c')) ∧
    (∀ count c e c', take data count c = (.error e, c') ↔
      data.length < c.pos + count ∧ e = .unexpectedEnd c.pos count data.length ∧ c' = c) ∧
    (data.length < UInt64.size → ∀ count pos : UInt64, take data count.toNat ⟨pos.toNat⟩ =
      ((takeWords data count pos).1, ⟨(takeWords data count pos).2.toNat⟩)) := by
  have number (size : Nat) := atomic_natural data size
  refine ⟨atomic_take data, ?_, ?_, ?_, ?_, ?_, atomic_singles data, fun type => ?_, atomic_string16 data,
    atomic_buffer room, refill_eq room, fun _ _ _ _ => take_eq_error_iff, take_eq_takeWords⟩
  · exact (number 1).map _ fun _ => rfl
  · exact (number 2).map _ fun _ => rfl
  · exact (number 4).map _ fun _ => rfl
  · exact (number 4).map _ fun _ => rfl
  · exact (number 4).map _ fun _ => rfl
  · exact (atomic_take data type.size).map _ fun _ => rfl

/-- Four bytes in which a text of three is cut short, and a position behind them at which as much is asked for as a word
can hold. -/
theorem reads_atomic_cut :
    HasRoom 4 [3, 0, 0x68, 0xc3] ∧
    (∃ e c', string16 [3, 0, 0x68, 0xc3] {} = (.error e, c') ∧ c' = {}) ∧
    (∃ b c', buffer [3, 0, 0x68, 0xc3] .uint16 1 4 ⟨1⟩ = (.ok b, c') ∧ c'.pos = 3) ∧
    take [3, 0, 0x68, 0xc3] (0xffffffffffffffff : UInt64).toNat ⟨(5 : UInt64).toNat⟩ =
      (.error (.unexpectedEnd 5 0xffffffffffffffff 4), ⟨5⟩) := by
  have room : HasRoom 4 [3, 0, 0x68, 0xc3] := hasRoom_of_granted (by decide)
  obtain ⟨-, -, -, -, -, -, -, -, text, buffers, -, -, words⟩ := reads_atomic room
  have cut : string16 [3, 0, 0x68, 0xc3] {} = (.error (.unexpectedEnd 2 3 4), {}) := rfl
  have filled : buffer [3, 0, 0x68, 0xc3] .uint16 1 4 ⟨1⟩ = (.ok ⟨.uint16, 1, [0, 0x68, 0, 0, 0, 0, 0, 0]⟩, ⟨3⟩) :=
    rfl
  have far : takeWords [3, 0, 0x68, 0xc3] 0xffffffffffffffff 5 = (.error (.unexpectedEnd 5 0xffffffffffffffff 4), 5) := by
    decide
  refine ⟨room, ⟨_, _, cut, text.stays cut⟩, ⟨_, _, filled, ((buffers _ _).moves filled).1⟩, ?_⟩
  rw [words (by decide), far]
  rfl

end Cursor
end AssetRecords
