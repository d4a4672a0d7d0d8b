import AssetRecords.Asset.Armature
import AssetRecords.Proofs.Asset.Atoms
/-!
# Chains — the joints of chains, read by recursion

The grammar of a chain calls itself for each child; the reader keeps a stack instead and stops early.  `chain` is the
grammar as a recursion, which knows of no limits and of no declared number of joints.  The reader answers what it makes
of that recursion in hindsight (`readChains_eq_judge`): it stops before the first joint in excess and behind the first
joint with children that stands too deep.
-/
namespace AssetRecords
namespace Armature

open Cursor (Passes)

/-!
## The recursion
-/

/-- A joint as the recursion comes by: how deep it stands, roots at depth 1, and the cursor behind it. -/
structure Visit where
  joint : Joint
  depth : Nat
  next : Cursor
  deriving DecidableEq

/-- What a recursion has read: the joints in order, and how and where it has ended. -/
structure Walk where
  visits : List Visit
  outcome : Except Error Unit
  stop : Cursor
  deriving DecidableEq

namespace Walk

def joints (w : Walk) : List Joint := w.visits.map (·.joint)

/-- A walk with a joint before it. -/
def behind (v : Visit) (w : Walk) : Walk := { w with visits := v :: w.visits }

/-- One walk after another, which is told how many joints there are before it and where it starts. -/
def andThen (w : Walk) (next : Nat → Cursor → Walk) : Walk :=
  match w.outcome with
  | .error _ => w
  | .ok () =>
    let rest := next w.visits.length w.stop
    { rest with visits := w.visits ++ rest.visits }

/-- So many walks, one after the other; `index` joints are before the first one. -/
def times (walk : Nat → Cursor → Walk) : (count index : Nat) → Cursor → Walk
  | 0, _, c => ⟨[], .ok (), c⟩
  | count + 1, index, c => (walk index c).andThen fun length c => times walk count (index + length) c

end Walk

/-- A chain: a joint and behind it the chains of its children, which have its index for their parent.  There is room
for so many levels; a chain takes bytes, so the length of the data is always enough. -/
def chainWithin (data : Bytes) : (room depth : Nat) → (parent : Option Nat) → (index : Nat) → Cursor → Walk
  | 0, _, _, _, c => ⟨[], .error (.depthLimit 0), c⟩
  | room + 1, depth, parent, index, c =>
    match readJoint data parent c with
    | (.error e, c) => ⟨[], .error e, c⟩
    | (.ok joint, c) =>
      (Walk.times (chainWithin data room (depth + 1) (some index)) joint.childCount.toNat (index + 1) c).behind
        ⟨joint, depth, c⟩

def chain (data : Bytes) : (depth : Nat) → (parent : Option Nat) → (index : Nat) → Cursor → Walk :=
  chainWithin data (data.length + 1)

/-- The chains of so many roots. -/
def rootChains (data : Bytes) (roots : Nat) (start : Cursor) : Walk := Walk.times (chain data 1 none) roots 0 start

section Progress

variable {data : Bytes} {parent : Option Nat} {c c' : Cursor} {joint : Joint}

theorem pos_of_passes {bytes : Bytes} (h : Passes data c bytes c') : c'.pos = c.pos + bytes.length := by
  obtain ⟨before, after, -, hc, hc'⟩ := h
  rw [hc, hc']

/-- The bytes of a joint: its name, its matrix and the inverse one, and the number of its children.  The joint above is
not among them. -/
def jointBytes (j : Joint) : Bytes :=
  Asset.textBytes j.name ++
    (Asset.singlesBytes j.matrix ++ (Asset.singlesBytes j.invMatrix ++ littleEndian 2 j.childCount.toNat))

/-- **A joint is read exactly where its bytes stand**, and gets the parent that it is read under. -/
theorem readJoint_eq_ok_iff : readJoint data parent c = (.ok joint, c') ↔
    joint.parent = parent ∧ Asset.FitsText joint.name ∧ Passes data c (jointBytes joint) c' := by
  constructor
  · intro h
    obtain ⟨name, c₁, hname, h⟩ := Reading.bind_eq_ok_iff.1 h
    obtain ⟨matrix, c₂, hmatrix, h⟩ := Reading.bind_eq_ok_iff.1 h
    obtain ⟨invMatrix, c₃, hinv, h⟩ := Reading.bind_eq_ok_iff.1 h
    obtain ⟨childCount, c₄, hcount, h⟩ := Reading.bind_eq_ok_iff.1 h
    obtain ⟨rfl, rfl⟩ := Reading.pure_eq_ok_iff.1 h
    obtain ⟨fits, passed⟩ := Asset.text_eq_ok_iff.1 hname
    exact ⟨rfl, fits, passed.append ((Asset.singles_eq_ok_iff.1 hmatrix).append ((Asset.singles_eq_ok_iff.1 hinv).append
      (Cursor.u16_eq_ok_iff.1 hcount)))⟩
  · rintro ⟨rfl, fits, passes⟩
    obtain ⟨c₁, name, passes⟩ := passes.split
    obtain ⟨c₂, matrix, passes⟩ := passes.split
    obtain ⟨c₃, invMatrix, count⟩ := passes.split
    refine Reading.bind_eq_ok_iff.2 ⟨_, c₁, Asset.text_eq_ok_iff.2 ⟨fits, name⟩, ?_⟩
    refine Reading.bind_eq_ok_iff.2 ⟨_, c₂, Asset.singles_eq_ok_iff.2 matrix, ?_⟩
    refine Reading.bind_eq_ok_iff.2 ⟨_, c₃, Asset.singles_eq_ok_iff.2 invMatrix, ?_⟩
    exact Reading.bind_eq_ok_iff.2 ⟨_, c', Cursor.u16_eq_ok_iff.2 count, rfl⟩

/-- A joint takes bytes, and they are within the data. -/
theorem progress_of_readJoint (h : readJoint data parent c = (.ok joint, c')) :
    c.pos < c'.pos ∧ c'.pos ≤ data.length ∧ joint.parent = parent := by
  obtain ⟨under, -, passes⟩ := readJoint_eq_ok_iff.1 h
  have stop := pos_of_passes passes
  rw [jointBytes, List.length_append, List.length_append, List.length_append, length_littleEndian] at stop
  exact ⟨by omega, passes.stop_le, under⟩

end Progress

namespace Walk

/-- A walk that comes to its end does not end before where it started. -/
def Forward (walk : Nat → Cursor → Walk) : Prop :=
  ∀ index c, (walk index c).outcome = .ok () → c.pos ≤ (walk index c).stop.pos

variable {walk walk' : Nat → Cursor → Walk}

theorem Forward.times (h : Forward walk) : ∀ count, Forward (Walk.times walk count)
  | 0, _, _, _ => Nat.le_refl _
  | count + 1, index, c, done => by
    rw [Walk.times, andThen] at done ⊢
    cases first : (walk index c).outcome with
    | error e => rw [first] at done; exact absurd (first.symm.trans done) nofun
    | ok _ =>
      rw [first] at done
      exact Nat.le_trans (h index c first) (h.times count _ _ done)

/-- Walks that are the same from a place on are the same when they are repeated from there. -/
theorem times_congr (place : Nat) (forward : Forward walk)
    (same : ∀ index c, place ≤ c.pos → walk index c = walk' index c) :
    ∀ (count index : Nat) (c : Cursor), place ≤ c.pos → times walk count index c = times walk' count index c
  | 0, _, _, _ => rfl
  | count + 1, index, c, h => by
    rw [times, times, ← same index c h, andThen, andThen]
    cases first : (walk index c).outcome with
    | error e => rfl
    | ok _ =>
      have rest := times_congr place forward same count (index + (walk index c).visits.length) (walk index c).stop
        (Nat.le_trans h (forward index c first))
      simp only [rest]

end Walk

section Recursion

variable {data : Bytes}

theorem forward_chainWithin (data : Bytes) : ∀ (room depth : Nat) (parent : Option Nat),
    Walk.Forward (chainWithin data room depth parent)
  | 0, _, _, _, _, done => by cases done
  | room + 1, depth, parent, index, c, done => by
    rw [chainWithin] at done ⊢
    rcases h : readJoint data parent c with ⟨e | joint, c'⟩
    · rw [h] at done
      cases done
    · rw [h] at done
      have below := (forward_chainWithin data room (depth + 1) (some index)).times _ _ _ done
      exact Nat.le_trans (Nat.le_of_lt (progress_of_readJoint h).1) below

/-- Room beyond the bytes that are left changes nothing. -/
theorem chainWithin_room : ∀ (room room' depth : Nat) (parent : Option Nat) (index : Nat) (c : Cursor),
    data.length - c.pos < room → data.length - c.pos < room' →
      chainWithin data room depth parent index c = chainWithin data room' depth parent index c
  | room + 1, room' + 1, depth, parent, index, c, h, h' => by
    rw [chainWithin, chainWithin]
    rcases hj : readJoint data parent c with ⟨e | joint, c'⟩
    · rfl
    · obtain ⟨further, inside, -⟩ := progress_of_readJoint hj
      have below := Walk.times_congr c'.pos (forward_chainWithin data room (depth + 1) (some index))
        (fun index' c'' later => chainWithin_room room room' _ _ _ _ (by omega) (by omega))
        joint.childCount.toNat (index + 1) c' (Nat.le_refl _)
      simp only [below]

theorem forward_chain (data : Bytes) (depth : Nat) (parent : Option Nat) : Walk.Forward (chain data depth parent) :=
  forward_chainWithin data _ _ _

/-- **The grammar of a chain**: a joint, and then the chains of its children, under the index of the joint. -/
theorem chain_eq (depth : Nat) (parent : Option Nat) (index : Nat) (c : Cursor) :
    chain data depth parent index c =
      match readJoint data parent c with
      | (.error e, c) => ⟨[], .error e, c⟩
      | (.ok joint, c) =>
        (Walk.times (chain data (depth + 1) (some index)) joint.childCount.toNat (index + 1) c).behind
          ⟨joint, depth, c⟩ := by
  rw [chain, chainWithin]
  rcases h : readJoint data parent c with ⟨e | joint, c'⟩
  · rfl
  · obtain ⟨further, inside, -⟩ := progress_of_readJoint h
    have below := Walk.times_congr c'.pos (forward_chainWithin data data.length (depth + 1) (some index))
      (fun index' c'' later => chainWithin_room data.length (data.length + 1) _ _ _ _ (by omega) (by omega))
      joint.childCount.toNat (index + 1) c' (Nat.le_refl _)
    simp only [below]

/-- What holds of a chain if it holds of all chains behind its first joint holds of every chain: bytes run out. -/
theorem chain_induction (data : Bytes) {motive : Nat → Option Nat → Nat → Cursor → Prop}
    (step : ∀ depth parent index c, (∀ joint c', readJoint data parent c = (.ok joint, c') →
      ∀ index' c'', c'.pos ≤ c''.pos → motive (depth + 1) (some index) index' c'') → motive depth parent index c)
    (depth : Nat) (parent : Option Nat) (index : Nat) (c : Cursor) : motive depth parent index c := by
  induction left : data.length - c.pos using Nat.strongRecOn generalizing depth parent index c with
  | ind left ih =>
    refine step depth parent index c fun joint c' h index' c'' later => ?_
    obtain ⟨further, inside, -⟩ := progress_of_readJoint h
    exact ih (data.length - c''.pos) (by omega) _ _ _ _ rfl

end Recursion

/-!
## What the reader makes of it
-/

/-- A joint with children that stands deeper than the limits admit. -/
def Visit.TooDeep (L : Limits) (v : Visit) : Prop := v.joint.childCount ≠ 0 ∧ L.maxDepth < v.depth

instance (L : Limits) (v : Visit) : Decidable (v.TooDeep L) := by unfold Visit.TooDeep; infer_instance

/-- The cursor behind the last of some joints, the first of which is read at a cursor. -/
def cursorBehind (c : Cursor) : List Visit → Cursor
  | [] => c
  | v :: rest => cursorBehind v.next rest

/-- What becomes of a walk from a cursor if `seen` joints are known before it and it may not go on when `declared` are:
it is given up before the first joint in excess and behind the first joint that stands too deep. -/
def judge (L : Limits) (declared : Nat) (seen : Nat) (c : Cursor) : List Visit → Except Error Unit → Cursor →
    Except Error Unit × Cursor
  | [], .ok (), stop => (.ok (), stop)
  | [], .error e, stop =>
    if seen = declared then (.error (.jointCount declared (declared + 1)), c) else (.error e, stop)
  | v :: rest, outcome, stop =>
    if seen = declared then (.error (.jointCount declared (declared + 1)), c)
    else if v.TooDeep L then (.error (.depthLimit L.maxDepth), v.next)
    else judge L declared (seen + 1) v.next rest outcome stop

def Walk.judge (L : Limits) (declared seen : Nat) (c : Cursor) (w : Walk) : Except Error Unit × Cursor :=
  Armature.judge L declared seen c w.visits w.outcome w.stop

theorem cursorBehind_append (c : Cursor) : ∀ before after : List Visit,
    cursorBehind c (before ++ after) = cursorBehind (cursorBehind c before) after := by
  intro before after
  induction before generalizing c with
  | nil => rfl
  | cons v before ih => exact ih v.next

namespace Walk

/-- A walk that comes to its end ends behind its last joint. -/
def Joined (c : Cursor) (w : Walk) : Prop := w.outcome = .ok () → w.stop = cursorBehind c w.visits

theorem joined_times {walk : Nat → Cursor → Walk} (c : Cursor)
    (h : ∀ index c', c.pos ≤ c'.pos → (walk index c').Joined c') (forward : Forward walk) :
    ∀ (count index : Nat) (c' : Cursor), c.pos ≤ c'.pos → (times walk count index c').Joined c'
  | 0, _, _, _ => fun _ => rfl
  | count + 1, index, c', later => by
    intro done
    rw [times, andThen] at done ⊢
    cases first : (walk index c').outcome with
    | error e => rw [first] at done; exact absurd (first.symm.trans done) nofun
    | ok _ =>
      rw [first] at done
      have rest := joined_times c h forward count (index + (walk index c').visits.length) (walk index c').stop
        (Nat.le_trans later (forward index c' first)) done
      show (times walk count _ _).stop = cursorBehind c' ((walk index c').visits ++ _)
      rw [cursorBehind_append, ← h index c' later first]
      exact rest

theorem joined_chain {data : Bytes} (depth : Nat) (parent : Option Nat) (index : Nat) (c : Cursor) :
    (chain data depth parent index c).Joined c := by
  induction depth, parent, index, c using chain_induction data with
  | step depth parent index c ih =>
    intro done
    rw [chain_eq] at done ⊢
    rcases h : readJoint data parent c with ⟨e | joint, c'⟩
    · rw [h] at done
      cases done
    · rw [h] at done
      exact joined_times c' (fun index' c'' later => ih joint c' h index' c'' later) (forward_chain data _ _) _ _ c'
        (Nat.le_refl _) done

end Walk

section Judge

variable {L : Limits} {declared seen : Nat} {c : Cursor}

theorem judge_append {outcome : Except Error Unit} {stop : Cursor} :
    ∀ (before after : List Visit) (seen : Nat) (c : Cursor), judge L declared seen c (before ++ after) outcome stop =
      match judge L declared seen c before (.ok ()) (cursorBehind c before) with
      | (.error e, c') => (.error e, c')
      | (.ok (), c') => judge L declared (seen + before.length) c' after outcome stop
  | [], after, seen, c => rfl
  | v :: before, after, seen, c => by
    rw [List.cons_append, judge, judge]
    by_cases excess : seen = declared
    · rw [if_pos excess, if_pos excess]
    · rw [if_neg excess, if_neg excess]
      by_cases deep : v.TooDeep L
      · rw [if_pos deep, if_pos deep]
      · rw [if_neg deep, if_neg deep, judge_append before after (seen + 1) v.next, List.length_cons, Nat.add_right_comm,
          Nat.add_assoc]
        rfl

/-- A walk that is not given up comes to its end. -/
theorem judge_eq_ok {outcome : Except Error Unit} {stop c' : Cursor} :
    ∀ {visits : List Visit} {seen : Nat} {c : Cursor}, judge L declared seen c visits outcome stop = (.ok (), c') →
      outcome = .ok () ∧ c' = stop
  | [], seen, c, h => by
    cases outcome with
    | error e => rw [judge] at h; split at h <;> cases h
    | ok _ => cases h; exact ⟨rfl, rfl⟩
  | v :: rest, seen, c, h => by
    rw [judge] at h
    split at h
    · cases h
    split at h
    · cases h
    · exact judge_eq_ok h

/-- A walk that is not given up has no joint in excess. -/
theorem length_le_of_judge_eq_ok {outcome : Except Error Unit} {stop c' : Cursor} :
    ∀ {visits : List Visit} {seen : Nat} {c : Cursor}, seen ≤ declared →
      judge L declared seen c visits outcome stop = (.ok (), c') → seen + visits.length ≤ declared
  | [], _, _, within, _ => within
  | v :: rest, seen, c, within, h => by
    rw [judge] at h
    split at h
    · cases h
    split at h
    · cases h
    · have := length_le_of_judge_eq_ok (by omega) h
      rw [List.length_cons]
      omega

/-- A walk that is not given up has no joint that stands too deep. -/
theorem shallow_of_judge_eq_ok {outcome : Except Error Unit} {stop c' : Cursor} :
    ∀ {visits : List Visit} {seen : Nat} {c : Cursor},
      judge L declared seen c visits outcome stop = (.ok (), c') → ∀ v ∈ visits, ¬v.TooDeep L
  | [], _, _, _ => nofun
  | v :: rest, seen, c, h => by
    rw [judge] at h
    split at h
    · cases h
    split at h
    · cases h
    · rename_i shallow
      exact List.forall_mem_cons.2 ⟨shallow, shallow_of_judge_eq_ok h⟩

theorem judge_of_shallow {stop : Cursor} : ∀ {visits : List Visit} {seen : Nat} {c : Cursor},
    (∀ v ∈ visits, ¬v.TooDeep L) → seen + visits.length ≤ declared →
      judge L declared seen c visits (.ok ()) stop = (.ok (), stop)
  | [], _, _, _, _ => rfl
  | v :: rest, seen, c, shallow, within => by
    rw [List.length_cons] at within
    rw [judge, if_neg (by omega), if_neg (shallow v List.mem_cons_self)]
    exact judge_of_shallow (fun u hu => shallow u (List.mem_cons_of_mem v hu)) (by omega)

/-- A walk is not given up as long as its joints are neither in excess nor too deep. -/
theorem judge_append_of_shallow {outcome : Except Error Unit} {stop : Cursor} {before : List Visit} (after : List Visit)
    (shallow : ∀ v ∈ before, ¬v.TooDeep L) (within : seen + before.length ≤ declared) :
    judge L declared seen c (before ++ after) outcome stop =
      judge L declared (seen + before.length) (cursorBehind c before) after outcome stop := by
  rw [judge_append, judge_of_shallow shallow within]

section Verdicts

variable {visits : List Visit} {outcome : Except Error Unit} {stop : Cursor}

theorem judge_of_excess (shallow : ∀ v ∈ visits.take declared, ¬v.TooDeep L)
    (excess : declared < visits.length ∨ visits.length = declared ∧ outcome ≠ .ok ()) :
    judge L declared 0 c visits outcome stop =
      (.error (.jointCount declared (declared + 1)), cursorBehind c (visits.take declared)) := by
  have full : 0 + (visits.take declared).length = declared := by
    rw [List.length_take]
    omega
  rw [← List.take_append_drop declared visits, judge_append_of_shallow _ shallow (Nat.le_of_eq full), full,
    List.take_append_drop]
  cases rest : visits.drop declared with
  | nil =>
    have ended := List.drop_eq_nil_iff.1 rest
    cases outcome with
    | error e => rw [judge, if_pos rfl]
    | ok _ => exact absurd excess (by simp; omega)
  | cons v rest => rw [judge, if_pos rfl]

theorem judge_of_failure {e : Error} (shallow : ∀ v ∈ visits, ¬v.TooDeep L) (fewer : visits.length < declared) :
    judge L declared 0 c visits (.error e) stop = (.error e, stop) := by
  rw [← List.append_nil visits, judge_append_of_shallow [] shallow (by omega), judge, if_neg (by omega)]

theorem judge_of_deep {before after : List Visit} {v : Visit} (shallow : ∀ u ∈ before, ¬u.TooDeep L)
    (within : before.length < declared) (deep : v.TooDeep L) :
    judge L declared 0 c (before ++ v :: after) outcome stop = (.error (.depthLimit L.maxDepth), v.next) := by
  rw [judge_append_of_shallow (v :: after) shallow (by omega), judge, if_neg (by omega), if_pos deep]

end Verdicts

theorem Walk.judge_andThen {w : Walk} {next : Nat → Cursor → Walk} (joined : w.Joined c) :
    (w.andThen next).judge L declared seen c =
      match w.judge L declared seen c with
      | (.error e, c') => (.error e, c')
      | (.ok (), c') => (next w.visits.length c').judge L declared (seen + w.visits.length) c' := by
  obtain ⟨visits, outcome, stop⟩ := w
  cases outcome with
  | error e =>
    simp only [andThen, judge]
    rcases h : Armature.judge L declared seen c visits (.error e) stop with ⟨e' | _, c'⟩
    · rfl
    · cases (judge_eq_ok h).1
  | ok _ =>
    obtain rfl : stop = cursorBehind c visits := joined rfl
    simp only [andThen, judge]
    rw [judge_append]
    rcases h : Armature.judge L declared seen c visits (.ok ()) (cursorBehind c visits) with ⟨_ | _, c'⟩
    · rfl
    · obtain ⟨-, rfl⟩ := judge_eq_ok h
      rfl

end Judge

/-!
## The reader with its stack
-/

section Stack

variable {L : Limits} {data : Bytes} {declared : Nat}

/-- What is left to the reader behind a walk: nothing if the walk is given up. -/
def Walk.followedBy (L : Limits) (declared : Nat) (c : Cursor) (joints : List Joint) (w : Walk)
    (rest : (left : Nat) → (joints : List Joint) → Reading (List Joint)) : Except Error (List Joint) × Cursor :=
  match w.judge L declared joints.length c with
  | (.error e, c') => (.error e, c')
  | (.ok (), c') => rest (declared - (joints.length + w.visits.length)) (w.joints.reverse ++ joints) c'

theorem Walk.length_joints (w : Walk) (joints : List Joint) :
    (w.joints.reverse ++ joints).length = joints.length + w.visits.length := by
  rw [List.length_append, List.length_reverse, Walk.joints, List.length_map, Nat.add_comm]

theorem Walk.followedBy_andThen {w : Walk} {next : Nat → Cursor → Walk} {c : Cursor} {joints : List Joint}
    {rest : Nat → List Joint → Reading (List Joint)} (joined : w.Joined c) :
    (w.andThen next).followedBy L declared c joints rest =
      w.followedBy L declared c joints fun _ joints' c' =>
        (next w.visits.length c').followedBy L declared c' joints' rest := by
  unfold followedBy
  rw [judge_andThen joined]
  rcases h : w.judge L declared joints.length c with ⟨e | _, c'⟩
  · rfl
  · simp only [length_joints]
    have whole : w.outcome = .ok () := (judge_eq_ok h).1
    obtain rfl : c' = w.stop := (judge_eq_ok h).2
    rcases h' : (next w.visits.length w.stop).judge L declared (joints.length + w.visits.length) w.stop with
      ⟨e | _, c''⟩
    · rfl
    · simp only [andThen, whole, Walk.joints, List.map_append, List.reverse_append, List.length_append,
        List.append_assoc, Nat.add_assoc]

/-- What follows matters only where a walk ends that is not given up. -/
theorem Walk.followedBy_congr {w : Walk} {c : Cursor} {joints : List Joint}
    {rest rest' : Nat → List Joint → Reading (List Joint)}
    (h : w.judge L declared joints.length c = (.ok (), w.stop) →
      rest (declared - (w.joints.reverse ++ joints).length) (w.joints.reverse ++ joints) w.stop =
        rest' (declared - (w.joints.reverse ++ joints).length) (w.joints.reverse ++ joints) w.stop) :
    w.followedBy L declared c joints rest = w.followedBy L declared c joints rest' := by
  unfold followedBy
  rcases judged : w.judge L declared joints.length c with ⟨e | _, c'⟩
  · rfl
  · obtain rfl : c' = w.stop := (judge_eq_ok judged).2
    rw [length_joints] at h
    exact h judged

theorem readChains_zero {roots : Nat} {stack : List (Nat × Nat)} {joints : List Joint} (more : stack ≠ [] ∨ roots ≠ 0) :
    readChains L data declared 0 roots stack joints = throw (.jointCount declared (declared + 1)) := by
  cases roots with
  | zero =>
    cases stack with
    | nil => simp at more
    | cons top stack => rfl
  | succ roots => rfl

/-- A joint is read, and unless it stands too deep it is put on the stack, whether it has children or not. -/
theorem readChains_succ {left roots : Nat} {stack : List (Nat × Nat)} {joints : List Joint} (c : Cursor)
    (more : stack ≠ [] ∨ roots ≠ 0) :
    readChains L data declared (left + 1) roots stack joints c =
      match readJoint data (stack.head?.map (·.1)) c with
      | (.error e, c') => (.error e, c')
      | (.ok joint, c') =>
        if joint.childCount ≠ 0 ∧ L.maxDepth < stack.length + 1 then (.error (.depthLimit L.maxDepth), c')
        else readChains L data declared left (if stack.isEmpty then roots - 1 else roots)
          (settle ((joints.length, joint.childCount.toNat) :: stack)) (joint :: joints) c' := by
  have unfolded : readChains L data declared (left + 1) roots stack joints =
      (do
        let joint ← readJoint data (stack.head?.map (·.1))
        let roots := if stack.isEmpty then roots - 1 else roots
        if joint.childCount = 0 then readChains L data declared left roots (settle stack) (joint :: joints)
        else
          let stack := (joints.length, joint.childCount.toNat) :: stack
          L.checkDepth stack.length
          readChains L data declared left roots (settle stack) (joint :: joints)) := by
    cases roots with
    | zero =>
      cases stack with
      | nil => simp at more
      | cons top stack => rfl
    | succ roots => rfl
  rw [unfolded, Reading.bind_apply]
  generalize stack.head?.map (·.1) = parent
  rcases readJoint data parent c with ⟨e | joint, c'⟩
  · rfl
  · by_cases leaf : joint.childCount = 0
    · simp only [leaf, if_true, ne_eq, not_true_eq_false, false_and, if_false]
      rfl
    · simp only [leaf, if_false, ne_eq, not_false_eq_true, true_and]
      rw [Reading.bind_apply, Reading.liftM_apply, Limits.checkDepth]
      by_cases deep : L.maxDepth < stack.length + 1
      · simp only [List.length_cons, if_pos deep]
      · simp only [List.length_cons, if_neg deep]

/-- The same step as a read with others behind it. -/
theorem readChains_eq_bind {left roots : Nat} {stack : List (Nat × Nat)} {joints : List Joint}
    (more : stack ≠ [] ∨ roots ≠ 0) : readChains L data declared (left + 1) roots stack joints =
      readJoint data (stack.head?.map (·.1)) >>= fun joint =>
        if joint.childCount ≠ 0 ∧ L.maxDepth < stack.length + 1 then throw (.depthLimit L.maxDepth)
        else readChains L data declared left (if stack.isEmpty then roots - 1 else roots)
          (settle ((joints.length, joint.childCount.toNat) :: stack)) (joint :: joints) := by
  funext c
  rw [readChains_succ c more, Reading.bind_apply]
  generalize stack.head?.map (·.1) = parent
  rcases readJoint data parent c with ⟨e | joint, c'⟩
  · rfl
  · simp only
    split <;> rfl

/-- Chains are read one after the other under the joint on the top of the stack if each of them is. -/
theorem readChains_times {parent roots : Nat} {stack : List (Nat × Nat)} {place : Cursor}
    (each : ∀ (left : Nat) (joints : List Joint) (c : Cursor), place.pos ≤ c.pos → joints.length ≤ declared →
      readChains L data declared (declared - joints.length) roots ((parent, left) :: stack) joints c =
        (chain data (stack.length + 2) (some parent) joints.length c).followedBy L declared c joints fun rest joints =>
          readChains L data declared rest roots (settle ((parent, left) :: stack)) joints) :
    ∀ (count : Nat) (joints : List Joint) (c : Cursor), place.pos ≤ c.pos → joints.length ≤ declared →
      readChains L data declared (declared - joints.length) roots (settle ((parent, count) :: stack)) joints c =
        (Walk.times (chain data (stack.length + 2) (some parent)) count joints.length c).followedBy L declared c joints
          fun rest joints => readChains L data declared rest roots (settle stack) joints
  | 0, joints, c, _, _ => rfl
  | count + 1, joints, c, later, within => by
    rw [Walk.times, Walk.followedBy_andThen (Walk.joined_chain _ _ _ _)]
    refine (each count joints c later within).trans (Walk.followedBy_congr fun judged => ?_)
    have forward := forward_chain data (stack.length + 2) (some parent) joints.length c (judge_eq_ok judged).1
    have fewer := length_le_of_judge_eq_ok within judged
    rw [← Walk.length_joints] at fewer
    rw [readChains_times each count _ _ (Nat.le_trans later forward) fewer, Walk.length_joints]

/-- A chain is read with its joint's parent on the top of the stack, and afterwards the parent waits for one child
less; without a parent there is one root less to come. -/
theorem readChains_eq_chain (data : Bytes) (depth : Nat) (parent : Option Nat) (index : Nat) (c : Cursor)
    (stack : List (Nat × Nat)) (roots : Nat) (joints : List Joint) (hdepth : depth = stack.length + 1)
    (hparent : stack.head?.map (·.1) = parent) (hindex : index = joints.length) (within : joints.length ≤ declared)
    (more : stack ≠ [] ∨ roots ≠ 0) :
    readChains L data declared (declared - joints.length) roots stack joints c =
      (chain data depth parent index c).followedBy L declared c joints fun left joints =>
        readChains L data declared left (if stack.isEmpty then roots - 1 else roots) (settle stack) joints := by
  induction depth, parent, index, c using chain_induction data generalizing stack roots joints with
  | step depth parent index c ih =>
    subst hdepth hindex
    rw [chain_eq]
    by_cases full : joints.length = declared
    · rw [Nat.sub_eq_zero_of_le (Nat.le_of_eq full.symm), readChains_zero more]
      rcases readJoint data parent c with ⟨e | joint, c'⟩
      · simp only [Walk.followedBy, Walk.judge, judge, if_pos full, Reading.throw_apply]
      · simp only [Walk.followedBy, Walk.judge, Walk.behind, judge, if_pos full, Reading.throw_apply]
    · obtain ⟨left, hleft⟩ : ∃ left, declared - joints.length = left + 1 := ⟨declared - joints.length - 1, by omega⟩
      rw [hleft, readChains_succ c more, hparent]
      rcases hj : readJoint data parent c with ⟨e | joint, c'⟩
      · simp only [Walk.followedBy, Walk.judge, judge, if_neg full]
      · simp only
        generalize hroots : (if stack.isEmpty then roots - 1 else roots) = roots'
        have each : ∀ (left : Nat) (joints' : List Joint) (c'' : Cursor), c'.pos ≤ c''.pos → joints'.length ≤ declared →
            readChains L data declared (declared - joints'.length) roots' ((joints.length, left) :: stack) joints' c'' =
              (chain data (stack.length + 2) (some joints.length) joints'.length c'').followedBy L declared c'' joints'
                fun rest joints' =>
                  readChains L data declared rest roots' (settle ((joints.length, left) :: stack)) joints' := by
          intro left joints' c'' later within
          have h := ih joint c' hj joints'.length c'' later ((joints.length, left) :: stack) roots' joints' rfl rfl rfl
            within (.inl (List.cons_ne_nil _ _))
          simpa only [List.isEmpty_cons, Bool.false_eq_true, if_false] using h
        have below := readChains_times each joint.childCount.toNat (joint :: joints) c' (Nat.le_refl _)
          (by rw [List.length_cons]; omega)
        have left_eq : declared - (joint :: joints).length = left := by rw [List.length_cons]; omega
        rw [left_eq] at below
        rw [below]
        by_cases deep : joint.childCount ≠ 0 ∧ L.maxDepth < stack.length + 1
        · have deep' : Visit.TooDeep L ⟨joint, stack.length + 1, c'⟩ := deep
          simp only [if_pos deep, Walk.followedBy, Walk.judge, Walk.behind, judge, if_neg full, if_pos deep']
        · have deep' : ¬Visit.TooDeep L ⟨joint, stack.length + 1, c'⟩ := deep
          simp only [if_neg deep, Walk.followedBy, Walk.judge, Walk.behind, judge, if_neg full, if_neg deep',
            Walk.joints, List.map_cons, List.reverse_cons, List.append_assoc, List.singleton_append, List.length_cons,
            Nat.add_assoc, Nat.add_comm 1]

/-- The chains of roots are read with an empty stack. -/
theorem readChains_eq_times (data : Bytes) : ∀ (roots : Nat) (joints : List Joint) (c : Cursor),
    joints.length ≤ declared → readChains L data declared (declared - joints.length) roots [] joints c =
      (Walk.times (chain data 1 none) roots joints.length c).followedBy L declared c joints
        fun left joints => readChains L data declared left 0 [] joints
  | 0, joints, c, _ => rfl
  | roots + 1, joints, c, within => by
    rw [Walk.times, Walk.followedBy_andThen (Walk.joined_chain _ _ _ _)]
    have first := readChains_eq_chain (L := L) data 1 none joints.length c [] (roots + 1) joints rfl rfl rfl within
      (.inr (Nat.succ_ne_zero _))
    refine first.trans (Walk.followedBy_congr fun judged => ?_)
    have fewer := length_le_of_judge_eq_ok within judged
    rw [← Walk.length_joints] at fewer
    rw [← Walk.length_joints]
    exact readChains_eq_times data roots _ _ fewer

/-- **The reader is the recursion in hindsight**: what it answers is what is to be made of the walk that the recursion
takes, and of the number of joints if the walk is not given up. -/
theorem readChains_eq_judge (roots : Nat) (start : Cursor) :
    readChains L data declared declared roots [] [] start =
      match (rootChains data roots start).judge L declared 0 start with
      | (.error e, c) => (.error e, c)
      | (.ok (), c) =>
        if (rootChains data roots start).visits.length = declared then (.ok (rootChains data roots start).joints, c)
        else (.error (.jointCount declared (rootChains data roots start).visits.length), c) := by
  have h := readChains_eq_times (L := L) data roots [] start (Nat.zero_le declared)
  rw [List.length_nil, Nat.sub_zero] at h
  rw [h, rootChains, Walk.followedBy, List.length_nil]
  rcases judged : (Walk.times (chain data 1 none) roots 0 start).judge L declared 0 start with ⟨e | _, c⟩
  · rfl
  · have fewer := length_le_of_judge_eq_ok (Nat.zero_le declared) judged
    generalize Walk.times (chain data 1 none) roots 0 start = w at fewer
    simp only [Nat.zero_add, List.append_nil] at fewer ⊢
    rw [readChains, List.reverse_reverse]
    by_cases all : w.visits.length = declared
    · rw [if_pos all, if_pos (by omega)]
      rfl
    · rw [if_neg all, if_neg (by omega), Nat.sub_sub_self fewer]
      rfl

end Stack

/-- Joints are read up to a place exactly if the recursion reads them up to there, their number is the declared one,
and none with children stands too deep. -/
theorem readChains_eq_ok_iff {L : Limits} {data : Bytes} {declared roots : Nat} {start stop : Cursor}
    {joints : List Joint} : readChains L data declared declared roots [] [] start = (.ok joints, stop) ↔
      (rootChains data roots start).outcome = .ok () ∧ (rootChains data roots start).stop = stop ∧
        (rootChains data roots start).joints = joints ∧ joints.length = declared ∧
          ∀ v ∈ (rootChains data roots start).visits, v.joint.childCount ≠ 0 → v.depth ≤ L.maxDepth := by
  rw [readChains_eq_judge]
  generalize rootChains data roots start = walk
  obtain ⟨visits, outcome, stop'⟩ := walk
  simp only [Walk.judge, Walk.joints]
  constructor
  · intro h
    rcases judged : judge L declared 0 start visits outcome stop' with ⟨e | _, c⟩
    · rw [judged] at h
      cases h
    · rw [judged] at h
      simp only at h
      by_cases all : visits.length = declared
      · rw [if_pos all] at h
        obtain ⟨whole, rfl⟩ := judge_eq_ok judged
        cases h
        refine ⟨whole, rfl, rfl, by rw [List.length_map, all], fun v hv children => ?_⟩
        exact Nat.le_of_not_lt fun deep => shallow_of_judge_eq_ok judged v hv ⟨children, deep⟩
      · rw [if_neg all] at h
        cases h
  · rintro ⟨rfl, rfl, rfl, all, shallow⟩
    rw [List.length_map] at all
    rw [judge_of_shallow (fun v hv deep => Nat.not_lt.2 (shallow v hv deep.1) deep.2) (by omega)]
    exact if_pos all

/-- **The reader with its stack refines the grammar of chains.**  A joint is its bytes.  Joints are read up to a place
exactly if the recursion reads them up to there, their number is the declared one, and none with children stands deeper
than the limits admit.  Otherwise the first thing that is wrong decides: a joint in excess, which is not read any more;
too few joints; a joint that cannot be read; or one that stands too deep. -/
theorem readChains_refines_chains (L : Limits) (data : Bytes) (declared roots : Nat) (start : Cursor) :
    let answer := readChains L data declared declared roots [] [] start
    let walk := rootChains data roots start
    let known := walk.visits.take declared
    (∀ parent c joint c', readJoint data parent c = (.ok joint, c') ↔
      joint.parent = parent ∧ Asset.FitsText joint.name ∧ Passes data c (jointBytes joint) c') ∧
    (∀ joints stop, answer = (.ok joints, stop) ↔
      walk.outcome = .ok () ∧ walk.stop = stop ∧ walk.joints = joints ∧ joints.length = declared ∧
        ∀ v ∈ walk.visits, v.joint.childCount ≠ 0 → v.depth ≤ L.maxDepth) ∧
    ((∀ v ∈ known, ¬v.TooDeep L) →
      (declared < walk.visits.length ∨ walk.visits.length = declared ∧ walk.outcome ≠ .ok () →
        answer = (.error (.jointCount declared (declared + 1)), cursorBehind start known)) ∧
      (walk.visits.length < declared → walk.outcome = .ok () →
        answer = (.error (.jointCount declared walk.visits.length), walk.stop)) ∧
      (walk.visits.length < declared → ∀ e, walk.outcome = .error e → answer = (.error e, walk.stop))) ∧
    (∀ before v after, walk.visits = before ++ v :: after → before.length < declared → (∀ u ∈ before, ¬u.TooDeep L) →
      v.TooDeep L → answer = (.error (.depthLimit L.maxDepth), v.next)) := by
  intro answer walk known
  refine ⟨fun _ _ _ _ => readJoint_eq_ok_iff, fun joints stop => readChains_eq_ok_iff, ?_⟩
  have hanswer : answer = match walk.judge L declared 0 start with
      | (.error e, c) => (.error e, c)
      | (.ok (), c) =>
        if walk.visits.length = declared then (.ok walk.joints, c)
        else (.error (.jointCount declared walk.visits.length), c) := readChains_eq_judge roots start
  clear_value answer walk
  obtain ⟨visits, outcome, stop⟩ := walk
  simp only [Walk.judge] at hanswer known ⊢
  have known_eq : visits.length < declared → known = visits := fun fewer => List.take_of_length_le (Nat.le_of_lt fewer)
  refine ⟨fun shallow => ⟨fun excess => ?_, fun fewer whole => ?_, ?_⟩, ?_⟩
  · rw [hanswer, judge_of_excess shallow excess]
  · rw [known_eq fewer] at shallow
    rw [hanswer, whole, judge_of_shallow shallow (by omega)]
    exact if_neg (Nat.ne_of_lt fewer)
  · rintro fewer e rfl
    rw [known_eq fewer] at shallow
    rw [hanswer, judge_of_failure shallow fewer]
  · rintro before v after rfl within shallow deep
    rw [hanswer, judge_of_deep shallow within deep]

/-- A joint with one child. -/
def upperArm : Joint := ⟨"upper arm", none, 1, .replicate 16 ⟨0x3f800000#32⟩, .replicate 16 ⟨0#32⟩⟩

def forearm : Joint := ⟨"forearm", some 0, 0, .replicate 16 ⟨0#32⟩, .replicate 16 ⟨0x40000000#32⟩⟩

def limb : Bytes := jointBytes upperArm ++ jointBytes forearm

/-- The joints of a limb are read; not so if another number of them is declared, or if no joint may have children. -/
theorem readChains_refines_chains_limb :
    readJoint limb none {} = (.ok upperArm, ⟨141⟩) ∧
    readChains {} limb 2 2 1 [] [] {} = (.ok [upperArm, forearm], ⟨280⟩) ∧
    readChains {} limb 1 1 1 [] [] {} = (.error (.jointCount 1 2), ⟨141⟩) ∧
    readChains {} limb 3 3 1 [] [] {} = (.error (.jointCount 3 2), ⟨280⟩) ∧
    readChains ⟨0, 0⟩ limb 2 2 1 [] [] {} = (.error (.depthLimit 0), ⟨141⟩) := by
  have walk : rootChains limb 1 {} = ⟨[⟨upperArm, 1, ⟨141⟩⟩, ⟨forearm, 2, ⟨280⟩⟩], .ok (), ⟨280⟩⟩ := by decide +kernel
  have passes : Passes limb {} (jointBytes upperArm) ⟨141⟩ := ⟨[], jointBytes forearm, rfl, rfl, by decide +kernel⟩
  obtain ⟨joint, read, -⟩ := readChains_refines_chains {} limb 2 1 {}
  obtain ⟨-, -, excess, -⟩ := readChains_refines_chains {} limb 1 1 {}
  obtain ⟨-, -, fewer, -⟩ := readChains_refines_chains {} limb 3 1 {}
  obtain ⟨-, -, -, deep⟩ := readChains_refines_chains ⟨0, 0⟩ limb 2 1 {}
  rw [walk] at read excess fewer deep
  refine ⟨(joint ..).2 ⟨rfl, by decide +kernel, passes⟩, ?_, ?_, ?_, ?_⟩
  · exact (read ..).2 ⟨rfl, rfl, rfl, rfl, by decide +kernel⟩
  · exact (excess (by decide +kernel)).1 (.inl (by decide))
  · exact (fewer (by decide +kernel)).2.1 (by decide) rfl
  · exact deep [] _ _ rfl (by decide) nofun (by decide +kernel)

end Armature
end AssetRecords
