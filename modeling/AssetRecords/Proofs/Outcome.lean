import AssetRecords.Cursor
import Mathlib.Data.List.Forall2
/-!
# Outcome — when a computation succeeds

A run of computations succeeds exactly when each of them does.  Every reader and writer is taken apart with the lemmas
of this module, so that no proof about a format unfolds a monad.
-/

namespace Except

variable {ε α β : Type}

theorem bind_eq_ok_iff {e : Except ε α} {f : α → Except ε β} {b : β} :
    (e >>= f) = .ok b ↔ ∃ a, e = .ok a ∧ f a = .ok b := by
  cases e with
  | error e => exact ⟨nofun, fun ⟨_, h, _⟩ => nomatch h⟩
  | ok a => exact ⟨fun h => ⟨a, rfl, h⟩, fun ⟨_, h, h'⟩ => by cases h; exact h'⟩

theorem map_eq_ok_iff {e : Except ε α} {f : α → β} {b : β} : (f <$> e) = .ok b ↔ ∃ a, e = .ok a ∧ f a = b := by
  cases e with
  | error e => exact ⟨nofun, fun ⟨_, h, _⟩ => nomatch h⟩
  | ok a =>
    constructor
    · rintro ⟨⟩
      exact ⟨a, rfl, rfl⟩
    · rintro ⟨_, ⟨⟩, rfl⟩
      rfl

theorem map_eq_error_iff {e : Except ε α} {f : α → β} {err : ε} : (f <$> e) = .error err ↔ e = .error err := by
  cases e with
  | error e => exact ⟨fun h => by cases h; rfl, fun h => by cases h; rfl⟩
  | ok a => exact ⟨nofun, nofun⟩

theorem toOption_eq_some_iff {e : Except ε α} {a : α} : e.toOption = some a ↔ e = .ok a := by
  cases e with
  | error e => exact ⟨nofun, nofun⟩
  | ok b => exact ⟨fun h => congrArg _ (Option.some.inj h), fun h => by cases h; rfl⟩

theorem exists_of_isOk {e : Except ε α} (h : e.isOk = true) : ∃ a, e = .ok a := by
  cases e with
  | error e => cases h
  | ok a => exact ⟨a, rfl⟩

/-- Why a computation fails, if it does. -/
def error? : Except ε α → Option ε
  | error e => some e
  | ok _ => none

theorem error?_eq_some_iff {e : Except ε α} {err : ε} : e.error? = some err ↔ e = .error err := by
  cases e with
  | error e => exact ⟨fun h => congrArg _ (Option.some.inj h), fun h => by cases h; rfl⟩
  | ok a => exact ⟨nofun, nofun⟩

theorem error?_eq_none_iff {e : Except ε α} : e.error? = none ↔ ∃ a, e = .ok a := by
  cases e with
  | error e => exact ⟨nofun, nofun⟩
  | ok a => exact ⟨fun _ => ⟨a, rfl⟩, fun _ => rfl⟩

@[simp] theorem error?_map (f : α → β) (e : Except ε α) : (f <$> e).error? = e.error? := by cases e <;> rfl

@[simp] theorem error?_bind_pure (f : α → β) (e : Except ε α) : (e >>= fun a => pure (f a)).error? = e.error? := by
  cases e <;> rfl

/-- Of two computations the first one that fails says why. -/
theorem error?_bind {e : Except ε α} {f : α → Except ε β} {o : Option ε} (next : ∀ a, (f a).error? = o) :
    (e >>= f).error? = e.error?.or o := by
  cases e with
  | error e => rfl
  | ok a => exact next a

/-- Of computations one after the other, the first one that fails says why. -/
theorem error?_all {one : α → Except ε β} {γ : Type} {all : List α → Except ε γ} {fault? : α → Option ε}
    (nil : (all []).error? = none)
    (cons : ∀ a rest, (all (a :: rest)).error? = (one a).error?.or (all rest).error?) :
    ∀ {as : List α}, (∀ a ∈ as, (one a).error? = fault? a) → (all as).error? = as.findSome? fault?
  | [], _ => nil
  | a :: rest, each => by
    obtain ⟨here, each⟩ := List.forall_mem_cons.1 each
    rw [cons, here, error?_all nil cons each, List.findSome?_cons]
    cases fault? a <;> rfl

/-- What each element becomes is what all of them become. -/
theorem mapM_eq_ok_of_forall₂ {f : β → Except ε α} {bs : List β} {as : List α}
    (h : List.Forall₂ (fun b a => f b = .ok a) bs as) : bs.mapM f = .ok as := by
  induction h with
  | nil => rfl
  | cons first _ rest =>
    rw [List.mapM_cons, first, rest]
    rfl

/-- What all elements become is what each of them becomes. -/
theorem forall₂_of_mapM_eq_ok {f : β → Except ε α} : ∀ {bs : List β} {as : List α}, bs.mapM f = .ok as →
    List.Forall₂ (fun b a => f b = .ok a) bs as
  | [], _, h => by
    cases h
    exact .nil
  | b :: bs, as, h => by
    rw [List.mapM_cons] at h
    obtain ⟨a, first, h⟩ := bind_eq_ok_iff.1 h
    obtain ⟨as, rest, ⟨⟩⟩ := bind_eq_ok_iff.1 h
    exact .cons first (forall₂_of_mapM_eq_ok rest)

theorem mapM_map_eq_ok {f : β → Except ε α} {g : α → β} {as : List α} (h : ∀ a ∈ as, f (g a) = .ok a) :
    (as.map g).mapM f = .ok as :=
  mapM_eq_ok_of_forall₂ (List.forall₂_map_left_iff.2 (List.forall₂_same.2 h))

/-!
## Two computations
-/

/-- Two computations fail alike, and what they come to is equal exactly under a condition. -/
inductive AgreeIff (p : Prop) : Except ε α → Except ε α → Prop where
  | fails (e : ε) : AgreeIff p (error e) (error e)
  | comes {a b : α} : (a = b ↔ p) → AgreeIff p (ok a) (ok b)

section AgreeIff

variable {p q : Prop} {e e' : Except ε α}

theorem agreeIff_iff :
    AgreeIff p e e' ↔ e.error? = e'.error? ∧ ∀ a b, e = .ok a → e' = .ok b → (a = b ↔ p) := by
  constructor
  · rintro (_ | same)
    · exact ⟨rfl, nofun⟩
    · exact ⟨rfl, by rintro _ _ ⟨⟩ ⟨⟩; exact same⟩
  · rintro ⟨fault, same⟩
    cases e with
    | error err =>
      rw [error?_eq_some_iff.1 fault.symm]
      exact .fails err
    | ok a =>
      obtain ⟨b, rfl⟩ := error?_eq_none_iff.1 fault.symm
      exact .comes (same a b rfl rfl)

theorem agreeIff_self (h : p) (e : Except ε α) : AgreeIff p e e := by
  cases e with
  | error err => exact .fails err
  | ok a => exact .comes (iff_of_true rfl h)

theorem AgreeIff.congr (h : AgreeIff p e e') (same : p ↔ q) : AgreeIff q e e' := propext same ▸ h

theorem AgreeIff.map {f : α → β} (injective : Function.Injective f) (h : AgreeIff p e e') :
    AgreeIff p (f <$> e) (f <$> e') := by
  cases h with
  | fails err => exact .fails err
  | comes same => exact .comes (injective.eq_iff.trans same)

/-- Where a computation comes to something, one that agrees with it does so too if and only if the condition holds. -/
theorem AgreeIff.eq_ok_iff {a : α} (h : AgreeIff p e e') (made : e' = .ok a) : e = .ok a ↔ p := by
  cases h with
  | fails err => cases made
  | comes same =>
    cases made
    rw [Except.ok.injEq, same]

theorem AgreeIff.cons {es es' : Except ε (List α)} (first : AgreeIff p e e') (rest : AgreeIff q es es') :
    AgreeIff (p ∧ q) (e >>= fun a => es >>= fun as => pure (a :: as))
      (e' >>= fun a => es' >>= fun as => pure (a :: as)) := by
  cases first with
  | fails err => exact .fails err
  | comes same =>
    cases rest with
    | fails err => exact .fails err
    | comes same' => exact .comes (by rw [List.cons.injEq, same, same'])

theorem AgreeIff.eq (h : AgreeIff p e e') (holds : p) : e = e' := by
  cases h with
  | fails err => rfl
  | comes same => rw [same.2 holds]

/-- Runs over two lists agree where each two elements do. -/
theorem agreeIff_mapM {f : β → Except ε α} {R : β → β → Prop} {bs bs' : List β}
    (h : List.Forall₂ (fun b b' => AgreeIff (R b b') (f b) (f b')) bs bs') :
    AgreeIff (List.Forall₂ R bs bs') (bs.mapM f) (bs'.mapM f) := by
  induction h with
  | nil => exact agreeIff_self .nil _
  | cons first _ rest =>
    rw [List.mapM_cons, List.mapM_cons]
    exact (first.cons rest).congr List.forall₂_cons.symm

end AgreeIff

end Except

namespace AssetRecords

theorem Limits.checkCount_eq_ok_iff {L : Limits} {n : Nat} : L.checkCount n = .ok () ↔ n ≤ L.maxElements := by
  unfold Limits.checkCount
  split
  · exact ⟨nofun, fun h => by omega⟩
  · exact ⟨fun _ => by omega, fun _ => rfl⟩

namespace Reading

variable {α β : Type} {c c' : Cursor}

theorem map_apply (f : α → β) (read : Reading α) (c : Cursor) :
    (f <$> read) c = ((read c).1.map f, (read c).2) := by
  rw [map_eq_pure_bind, bind_apply]
  rcases read c with ⟨_ | _, _⟩ <;> rfl

theorem liftM_apply (e : Except Error α) (c : Cursor) : (liftM e : Reading α) c = (e, c) := by
  cases e <;> rfl

theorem pure_eq_ok_iff {a b : α} : (pure a : Reading α) c = (.ok b, c') ↔ b = a ∧ c' = c := by
  rw [pure_apply]
  constructor
  · rintro ⟨⟩
    exact ⟨rfl, rfl⟩
  · rintro ⟨rfl, rfl⟩
    rfl

theorem liftM_eq_ok_iff {e : Except Error α} {a : α} : (liftM e : Reading α) c = (.ok a, c') ↔ e = .ok a ∧ c' = c := by
  rw [liftM_apply, Prod.mk.injEq, eq_comm (a := c)]

theorem throw_ne_ok {e : Error} {a : α} : (throw e : Reading α) c ≠ (.ok a, c') := by
  rintro ⟨⟩

/-- The second read starts where the first one has left the cursor. -/
theorem bind_eq_ok_iff {read : Reading α} {next : α → Reading β} {b : β} :
    (read >>= next) c = (.ok b, c') ↔ ∃ a m, read c = (.ok a, m) ∧ next a m = (.ok b, c') := by
  rw [bind_apply]
  rcases read c with ⟨e | a, m⟩
  · exact ⟨nofun, fun ⟨_, _, h, _⟩ => nomatch h⟩
  · exact ⟨fun h => ⟨a, m, rfl, h⟩, fun ⟨_, _, h, h'⟩ => by cases h; exact h'⟩

theorem map_eq_ok_iff {f : α → β} {read : Reading α} {b : β} :
    (f <$> read) c = (.ok b, c') ↔ ∃ a, read c = (.ok a, c') ∧ f a = b := by
  rw [map_apply]
  rcases read c with ⟨e | a, m⟩
  · exact ⟨nofun, fun ⟨_, h, _⟩ => nomatch h⟩
  · constructor
    · rintro ⟨⟩
      exact ⟨a, rfl, rfl⟩
    · rintro ⟨_, ⟨⟩, rfl⟩
      rfl

/-- A read comes to one answer, and to one place. -/
theorem ok_unique {read : Reading α} {a b : α} {m m' : Cursor} (h : read c = (.ok a, m)) (h' : read c = (.ok b, m')) :
    a = b ∧ m = m' := by
  rw [h, Prod.mk.injEq, Except.ok.injEq] at h'
  exact h'

/-- A check that is passed changes nothing. -/
theorem unless_eq_ok_iff {check : Prop} [Decidable check] {e : Error} {next : PUnit → Reading α} {a : α} :
    (if check then throw e >>= next else next ⟨⟩) c = (.ok a, c') ↔ ¬check ∧ next ⟨⟩ c = (.ok a, c') := by
  by_cases holds : check
  · rw [if_pos holds, bind_apply]
    exact ⟨nofun, fun ⟨passed, _⟩ => absurd holds passed⟩
  · rw [if_neg holds]
    exact (and_iff_right holds).symm

theorem length_of_mapM_eq_ok {read : α → Reading β} {as : List α} {bs : List β} (h : as.mapM read c = (.ok bs, c')) :
    bs.length = as.length := by
  induction as generalizing bs c with
  | nil =>
    rw [List.mapM_nil] at h
    obtain ⟨rfl, rfl⟩ := pure_eq_ok_iff.1 h
    rfl
  | cons a as ih =>
    rw [List.mapM_cons] at h
    obtain ⟨b, m, -, h⟩ := bind_eq_ok_iff.1 h
    obtain ⟨rest, m', hrest, h⟩ := bind_eq_ok_iff.1 h
    obtain ⟨rfl, rfl⟩ := pure_eq_ok_iff.1 h
    rw [List.length_cons, List.length_cons, ih hrest]

theorem atomically_eq_ok_iff {read : Reading α} {a : α} :
    atomically read c = (.ok a, c') ↔ read c = (.ok a, c') := by
  unfold atomically
  rcases read c with ⟨_ | _, _⟩
  · exact ⟨nofun, nofun⟩
  · rfl

end Reading
end AssetRecords
