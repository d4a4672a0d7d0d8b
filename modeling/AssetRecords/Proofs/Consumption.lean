import AssetRecords.Proofs.Outcome
/-!
# Consumption — the bytes that a read depends on

A read that succeeds has taken the bytes up to its last cursor, and none of the others decide anything: that is what
`Consumes` says of a read.  On data that goes on otherwise it reads the same, and on data that ends before its last
cursor it fails because the data ends.  Reads that are made of such reads are such reads.
-/
namespace AssetRecords

/-- A failure because data of a size ends: what is asked for reaches past the end. -/
def Error.EndsAt (size : Nat) (e : Error) : Prop :=
  ∃ offset requested, e = .unexpectedEnd offset requested size ∧ offset ≤ size ∧ size < offset + requested

namespace Reading

variable {α β : Type}

/-- A read that has gone from a cursor to another over at least so many bytes, and has depended on them alone. -/
structure Consumed (read : Bytes → Reading α) (least : Nat) (data : Bytes) (c : Cursor) (a : α) (c' : Cursor) :
    Prop where
  progress : c.pos + least ≤ c'.pos
  inside : c'.pos ≤ data.length
  alike : ∀ {other : Bytes}, data.take c'.pos <+: other → read other c = (.ok a, c')
  short : ∀ {k : Nat}, c.pos ≤ k → k < c'.pos → ∃ e m, read (data.take k) c = (.error e, m) ∧ e.EndsAt k

/-- A read that takes at least so many bytes where it succeeds, and depends on the bytes that it takes and no others. -/
structure Consumes (least : Nat) (read : Bytes → Reading α) : Prop where
  consumed : ∀ {data : Bytes} {c : Cursor} {a : α} {c' : Cursor}, c.pos ≤ data.length → read data c = (.ok a, c') →
    Consumed read least data c a c'

variable {least least' : Nat} {read : Bytes → Reading α}

theorem Consumes.mono (h : Consumes least read) (le : least' ≤ least) : Consumes least' read := by
  refine ⟨fun hc run => ?_⟩
  obtain ⟨progress, inside, alike, short⟩ := h.consumed hc run
  exact ⟨by omega, inside, alike, short⟩

theorem Consumes.any (h : Consumes least read) : Consumes 0 read := h.mono (Nat.zero_le _)

/-- What does not look at the data takes no bytes. -/
theorem Consumes.still {e : Reading α} (h : ∀ c, (e c).2 = c) : Consumes 0 fun _ => e := by
  refine ⟨fun {data c a c'} hc (run : e c = (.ok a, c')) => ?_⟩
  obtain rfl : c = c' := by rw [← h c, run]
  exact ⟨Nat.le_refl _, hc, fun _ => run, fun low high => by omega⟩

theorem Consumes.pure (a : α) : Consumes 0 fun _ => (Pure.pure a : Reading α) := .still fun _ => rfl

theorem Consumes.lift (e : Except Error α) : Consumes 0 fun _ => (liftM e : Reading α) :=
  .still fun c => by rw [liftM_apply]

/-- What fails takes as many bytes as one likes. -/
theorem Consumes.throw (e : Error) : Consumes least fun _ => (MonadExcept.throw e : Reading α) :=
  ⟨fun _ run => absurd run throw_ne_ok⟩

theorem Consumes.bind {next : α → Bytes → Reading β} (h : Consumes least read) (h' : ∀ a, Consumes least' (next a)) :
    Consumes (least + least') fun data => read data >>= fun a => next a data := by
  refine ⟨fun {data c b c'} hc run => ?_⟩
  obtain ⟨a, m, first, second⟩ := bind_eq_ok_iff.1 run
  obtain ⟨progress, inside, alike, short⟩ := h.consumed hc first
  obtain ⟨progress', inside', alike', short'⟩ := (h' a).consumed inside second
  refine ⟨by omega, inside', fun {other} front => ?_, fun {k} low high => ?_⟩
  · have front' : data.take m.pos <+: other := (List.take_prefix_take_left (by omega)).trans front
    exact bind_eq_ok_iff.2 ⟨a, m, alike front', alike' front⟩
  · by_cases within : k < m.pos
    · obtain ⟨e, stop, fails, ends⟩ := short low within
      exact ⟨e, stop, by rw [bind_apply, fails], ends⟩
    · -- the first read has all its bytes, so that the second one has too few
      have first : read (data.take k) c = (.ok a, m) := alike (List.take_prefix_take_left (by omega))
      obtain ⟨e, stop, fails, ends⟩ := short' (by omega) high
      exact ⟨e, stop, by rw [bind_apply, first]; exact fails, ends⟩

/-- A read with others behind it takes what it takes itself. -/
theorem Consumes.front {next : α → Bytes → Reading β} (h : Consumes least read) (h' : ∀ a, Consumes 0 (next a)) :
    Consumes least fun data => read data >>= fun a => next a data :=
  h.bind h'

/-- A read that ends with an answer of its own. -/
theorem Consumes.bind_still {next : α → Reading β} (h : Consumes least read) (h' : ∀ a c, (next a c).2 = c) :
    Consumes least fun data => read data >>= next :=
  h.front fun a => .still (h' a)

theorem Consumes.map (f : α → β) (h : Consumes least read) : Consumes least fun data => f <$> read data := by
  simp only [map_eq_pure_bind]
  exact h.bind_still fun _ _ => rfl

theorem Consumes.atomically (h : Consumes least read) : Consumes least fun data => Reading.atomically (read data) := by
  refine ⟨fun {data c a c'} hc run => ?_⟩
  obtain ⟨progress, inside, alike, short⟩ := h.consumed hc (atomically_eq_ok_iff.1 run)
  refine ⟨progress, inside, fun front => atomically_eq_ok_iff.2 (alike front), fun low high => ?_⟩
  obtain ⟨e, stop, fails, ends⟩ := short low high
  exact ⟨e, c, by rw [Reading.atomically, fails], ends⟩

theorem Consumes.times (h : Consumes least read) (count : Nat) :
    Consumes (count * least) fun data => Cursor.times (read data) count := by
  induction count with
  | zero =>
    rw [Nat.zero_mul]
    exact .pure []
  | succ count ih =>
    simp only [Cursor.times_succ]
    exact (h.bind fun first => ih.bind_still fun _ _ => rfl).mono (by rw [Nat.succ_mul]; omega)

theorem Consumes.mapM {read : β → Bytes → Reading α} : ∀ {bs : List β}, (∀ b ∈ bs, Consumes 0 (read b)) →
    Consumes 0 fun data => bs.mapM fun b => read b data
  | [], _ => by
    simp only [List.mapM_nil]
    exact .pure []
  | b :: bs, h => by
    obtain ⟨first, rest⟩ := List.forall_mem_cons.1 h
    simp only [List.mapM_cons]
    exact first.front fun a => (Consumes.mapM rest).bind_still fun _ _ => rfl

/-- What is read only where a check does not fail. -/
theorem Consumes.unless (check : Prop) [Decidable check] (e : Error) {next : PUnit → Bytes → Reading α}
    (h : Consumes least (next ⟨⟩)) :
    Consumes least fun data => if check then MonadExcept.throw e >>= fun u => next u data else next ⟨⟩ data := by
  by_cases holds : check
  · simp only [if_pos holds]
    refine ⟨fun _ run => ?_⟩
    rw [bind_apply] at run
    cases run
  · simp only [if_neg holds]
    exact h

end Reading

namespace Cursor

open Reading (Consumes)

theorem consumes_take (count : Nat) : Consumes count fun data => take data count := by
  refine ⟨fun {data c bytes c'} _ (run : take data count c = (.ok bytes, c')) => ?_⟩
  have fits : c.pos + count ≤ data.length := by
    by_contra more
    rw [take_eq_error (by omega)] at run
    cases run
  rw [take_eq_ok fits, Prod.mk.injEq, Except.ok.injEq] at run
  obtain ⟨rfl, hc'⟩ := run
  have stop : c'.pos = c.pos + count := by rw [← hc']
  refine ⟨by omega, by omega, fun {other} front => ?_, fun {k} low high => ?_⟩
  · have length : (data.take c'.pos).length = c.pos + count := by
      rw [List.length_take]
      omega
    have long := front.length_le
    have same := List.prefix_iff_eq_take.1 front
    rw [length, stop] at same
    rw [take_eq_ok (by omega), List.take_drop, List.take_drop, same, hc']
  · have length : (data.take k).length = k := by
      rw [List.length_take]
      omega
    exact ⟨_, c, by rw [take_eq_error (by omega), length], c.pos, count, rfl, low, by omega⟩

theorem consumes_u8 : Consumes 1 u8 := ((consumes_take 1).map _).map _

theorem consumes_u16 : Consumes 2 u16 := ((consumes_take 2).map _).map _

theorem consumes_u32 : Consumes 4 u32 := ((consumes_take 4).map _).map _

theorem consumes_i32 : Consumes 4 i32 := ((consumes_take 4).map _).map _

theorem consumes_single : Consumes 4 single := ((consumes_take 4).map _).map _

theorem consumes_singles (count : Nat) : Consumes (count * 4) fun data => singles data count :=
  (consumes_take (count * 4)).bind_still fun _ _ => rfl

theorem consumes_scalar (type : ScalarType) : Consumes type.size fun data => scalar data type :=
  (consumes_take type.size).map _

theorem consumes_string16 : Consumes 0 string16 := by
  refine Consumes.atomically (consumes_u16.front fun length => ?_).any
  refine Consumes.any ((consumes_take length.toNat).bind_still fun bytes c => ?_)
  cases Utf8.decode bytes <;> rfl

/-- A buffer is filled with bytes that are looked for before room is made for them. -/
theorem buffer_eq (data : Bytes) (type : ScalarType) (count memory : Nat) : buffer data type count memory =
    if Buffer.addressSpace ≤ count * type.size then throw (.malformed (.countOverflow count))
    else take data (count * type.size) >>= fun bytes => liftM (Buffer.ofPayload type count bytes memory) := by
  funext c
  unfold buffer refill
  by_cases overflow : Buffer.addressSpace ≤ count * type.size
  · simp only [if_pos overflow]
    rfl
  · simp only [if_neg overflow]
    rw [Reading.bind_apply]
    rcases take data (count * type.size) c with ⟨e | bytes, c'⟩
    · rfl
    · simp only [Reading.liftM_apply]
      cases Buffer.ofPayload type count bytes memory <;> rfl

theorem consumes_buffer (type : ScalarType) (count : Nat) :
    Consumes (count * type.size) fun data => buffer data type count := by
  simp only [buffer_eq]
  split
  · exact .throw _
  · exact (consumes_take _).bind_still fun bytes c => by rw [Reading.liftM_apply]

end Cursor
end AssetRecords
