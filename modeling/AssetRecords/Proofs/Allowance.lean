import AssetRecords.Proofs.Typing
import AssetRecords.Proofs.Outcome
/-!
# Allowance — what limits allow

Limits are ordered by what they allow.  A read follows another when it succeeds wherever that one does, with the same
value; reads that are made of such reads follow each other, so that a reader follows itself under limits that allow more
once its checks do.  What a reader keeps within its limits is told of values part by part (`Value.Held`).
-/

/-- A run succeeds as another one does if each of its steps does. -/
theorem Except.mapM_mono {ε α β : Type} {f g : α → Except ε β} {as : List α} {bs : List β}
    (each : ∀ a ∈ as, ∀ b, f a = .ok b → g a = .ok b) (h : as.mapM f = .ok bs) : as.mapM g = .ok bs :=
  mapM_eq_ok_of_forall₂ (AssetRecords.forall₂_imp_of_mem (forall₂_of_mapM_eq_ok h) fun a ha b _ => each a ha b)

namespace AssetRecords
namespace Limits

/-- Limits that allow at least as much depth and as many elements. -/
instance : LE Limits := ⟨fun L L' => L.maxDepth ≤ L'.maxDepth ∧ L.maxElements ≤ L'.maxElements⟩

instance (L L' : Limits) : Decidable (L ≤ L') := inferInstanceAs (Decidable (_ ∧ _))

variable {L L' : Limits}

theorem le_rfl : L ≤ L := ⟨Nat.le_refl _, Nat.le_refl _⟩

theorem checkCount_mono (h : L ≤ L') {n : Nat} {u : Unit} (hn : L.checkCount n = .ok u) : L'.checkCount n = .ok u :=
  checkCount_eq_ok_iff.2 (Nat.le_trans (checkCount_eq_ok_iff.1 hn) h.2)

end Limits

namespace Reading

variable {α β : Type}

/-- Wherever one read succeeds the other one does, with the same value and the same cursor. -/
structure Follows (read read' : Reading α) : Prop where
  follow : ∀ {c c' : Cursor} {a : α}, read c = (.ok a, c') → read' c = (.ok a, c')

variable {read read' : Reading α}

theorem Follows.rfl : Follows read read := ⟨id⟩

/-- What fails is followed by anything. -/
theorem follows_throw (e : Error) : Follows (throw e) read := ⟨fun run => absurd run throw_ne_ok⟩

theorem Follows.bind {next next' : α → Reading β} (h : Follows read read') (h' : ∀ a, Follows (next a) (next' a)) :
    Follows (read >>= next) (read' >>= next') := by
  refine ⟨fun run => ?_⟩
  obtain ⟨a, m, first, second⟩ := bind_eq_ok_iff.1 run
  exact bind_eq_ok_iff.2 ⟨a, m, h.follow first, (h' a).follow second⟩

/-- The same read, and then others. -/
theorem Follows.behind {next next' : α → Reading β} (h : ∀ a, Follows (next a) (next' a)) :
    Follows (read >>= next) (read >>= next') :=
  Follows.rfl.bind h

theorem Follows.map (f : α → β) (h : Follows read read') : Follows (f <$> read) (f <$> read') := by
  refine ⟨fun run => ?_⟩
  obtain ⟨a, inner, rfl⟩ := map_eq_ok_iff.1 run
  exact map_eq_ok_iff.2 ⟨a, h.follow inner, Eq.refl _⟩

theorem Follows.mapM {read read' : β → Reading α} : ∀ {bs : List β}, (∀ b ∈ bs, Follows (read b) (read' b)) →
    Follows (bs.mapM read) (bs.mapM read')
  | [], _ => .rfl
  | b :: bs, h => by
    obtain ⟨first, rest⟩ := List.forall_mem_cons.1 h
    rw [List.mapM_cons, List.mapM_cons]
    exact first.bind fun _ => (Follows.mapM rest).bind fun _ => .rfl

theorem Follows.times (h : Follows read read') : ∀ count, Follows (Cursor.times read count) (Cursor.times read' count)
  | 0 => .rfl
  | count + 1 => by
    rw [Cursor.times_succ, Cursor.times_succ]
    exact h.bind fun _ => (h.times count).bind fun _ => .rfl

theorem follows_checkCount {L L' : Limits} (le : L ≤ L') (count : Nat) :
    Follows (liftM (L.checkCount count)) (liftM (L'.checkCount count)) := by
  refine ⟨fun run => ?_⟩
  obtain ⟨passed, rfl⟩ := liftM_eq_ok_iff.1 run
  exact liftM_eq_ok_iff.2 ⟨Limits.checkCount_mono le passed, Eq.refl _⟩

/-- What each read of a run keeps to, the whole run keeps to. -/
theorem forall_of_mapM_eq_ok {P : α → Prop} {read : β → Reading α} : ∀ {bs : List β} {as : List α} {c c' : Cursor},
    (∀ b ∈ bs, ∀ {a c c'}, read b c = (.ok a, c') → P a) → bs.mapM read c = (.ok as, c') → ∀ a ∈ as, P a
  | [], as, c, c', _, h => by
    obtain ⟨rfl, -⟩ := pure_eq_ok_iff.1 h
    nofun
  | b :: bs, as, c, c', each, h => by
    obtain ⟨first, rest⟩ := List.forall_mem_cons.1 each
    rw [List.mapM_cons] at h
    obtain ⟨a, m, ha, h⟩ := bind_eq_ok_iff.1 h
    obtain ⟨as, m', has, h⟩ := bind_eq_ok_iff.1 h
    obtain ⟨rfl, -⟩ := pure_eq_ok_iff.1 h
    exact List.forall_mem_cons.2 ⟨first ha, forall_of_mapM_eq_ok rest has⟩

end Reading

namespace Value

variable {block most room : Nat} {v : Value}

/-- No sequence and no buffer in a value has more than `most` elements, and its levels, the value itself being one, are
no more than `room`. -/
structure Held (block most room : Nat) (v : Value) : Prop where
  counts : v.CountsWithin most
  depth : v.depth block < room

theorem depthOfAll_le : ∀ {vs : List Value}, (∀ v ∈ vs, v.depth block < room) → depthOfAll block vs ≤ room
  | [], _ => Nat.zero_le _
  | v :: rest, h => by
    obtain ⟨first, rest⟩ := List.forall_mem_cons.1 h
    have := depthOfAll_le rest
    rw [depthOfAll]
    omega

/-- A value is held in a level more than its parts are. -/
theorem held_of_parts (count : v.count ≤ most) (parts : ∀ p ∈ v.parts, p.Held block most room)
    (numbers : ∀ type ns, v = .numbers type ns → ns ≠ [] → block ≤ room) : v.Held block most (room + 1) := by
  refine ⟨fun w occurs => ?_, Nat.lt_succ_of_le ?_⟩
  · cases occurs with
    | self => exact count
    | part hp within => exact (parts _ hp).counts w within
  · have below : ∀ p ∈ v.parts, p.depth block < room := fun p hp => (parts p hp).depth
    cases v with
    | record name fields =>
      rw [depth, depthOfFields_eq]
      exact depthOfAll_le below
    | tuple vs =>
      rw [depth]
      exact depthOfAll_le below
    | sequence element vs =>
      rw [depth]
      exact depthOfAll_le below
    | numbers type ns =>
      rw [depth]
      split
      · exact Nat.zero_le _
      · rename_i some
        exact numbers type ns rfl fun none => some (List.isEmpty_iff.2 none)
    | present content v =>
      rw [depth]
      exact below v List.mem_cons_self
    | _ => exact Nat.zero_le _

end Value
end AssetRecords
