import AssetRecords.DebugText.Reader
import AssetRecords.DebugText.Writer
import AssetRecords.Proofs.DebugText.Scanner
import Mathlib.Data.List.Forall2
/-!
# Lists — what stands between brackets

`Reads` says that a text is read as a value wherever it stands.  Parts and elements that are read each for itself are
read together from their list: what ends one of them is a comma or the bracket that is owed.
-/
namespace AssetRecords
namespace DebugText

variable {α β : Type}

/-- A text is read as a value wherever it stands between blanks, if any, and its end. -/
def Reads (read : Scan α) (text : List Char) (a : α) : Prop :=
  ∀ (offset : Nat) (gap after closers : List Char), gap.all Text.isBlank = true → Stops after →
    Yields read ⟨offset, gap ++ (text ++ after), closers⟩ a after closers

theorem reads_token {t : List Char} (h : IsToken t) : Reads token t t :=
  fun _ gap _ _ blank stops => yields_token gap blank h stops

theorem reads_quoted (cs : List Char) : Reads quoted (Quoted.encode cs) cs :=
  fun _ _ _ _ blank _ => yields_quoted cs blank

theorem Reads.map {read : Scan α} {text : List Char} {a : α} (f : α → β) (h : Reads read text a) :
    Reads (f <$> read) text (f a) :=
  fun offset gap after closers blank stops => (h offset gap after closers blank stops).map f

/-- What is computed from a value that was read is no further reading. -/
theorem Reads.bind {read : Scan α} {text : List Char} {a : α} (h : Reads read text a) {next : α → Scan β} {b : β}
    (h' : ∀ s, Yields (next a) s b s.rest s.closers) : Reads (read >>= next) text b :=
  fun offset gap after closers blank stops => (h offset gap after closers blank stops).bind fun _ => h' _

/-- A check that is passed is no reading. -/
theorem Reads.check {read : Scan α} {text : List Char} {a : α} {e : Except Error Unit} (he : e = .ok ())
    (h : Reads read text a) : Reads (liftM e >>= fun _ => read) text a :=
  fun _ gap after closers blank stops => (yields_liftM he _).bind fun offset => h offset gap after closers blank stops

/-!
## Parts and elements
-/

/-- The texts of further elements, each behind a comma. -/
def further : List (List Char) → List Char
  | [] => []
  | text :: texts => ',' :: ' ' :: (text ++ further texts)

theorem commaSeparated_cons (t : List Char) : ∀ ts, commaSeparated (t :: ts) = t ++ further ts
  | [] => by rw [commaSeparated, further, List.append_nil]
  | u :: ts => by
    rw [commaSeparated, commaSeparated_cons u ts, further]
    nofun

/-- Further elements end where they begin: with a comma, or with what is behind them. -/
theorem stops_further {after : List Char} (h : Stops after) : ∀ ts : List (List Char), Stops (further ts ++ after)
  | [] => h
  | _ :: _ => stops_cons (by decide)

/-- So many readers read so many texts as so many values. -/
inductive ReadsAll : List (Scan α) → List (List Char) → List α → Prop where
  | nil : ReadsAll [] [] []
  | cons {read : Scan α} {text : List Char} {a : α} {readers : List (Scan α)} {texts : List (List Char)} {as : List α} :
    Reads read text a → ReadsAll readers texts as → ReadsAll (read :: readers) (text :: texts) (a :: as)

theorem ReadsAll.yields_rest {readers : List (Scan α)} {texts : List (List Char)} {as : List α}
    (h : ReadsAll readers texts as) {after : List Char} (stops : Stops after) : ∀ {offset : Nat} {closers : List Char},
    Yields (readers.mapM fun reader => do expect ','; reader)
      ⟨offset, further texts ++ after, closers⟩ as after closers := by
  induction h with
  | nil => exact yields_pure _ _
  | @cons read text a readers texts as first _ ih =>
    intro offset closers
    rw [List.mapM_cons, further, List.cons_append, List.cons_append, List.append_assoc]
    have next : Yields (do expect ','; read)
        ⟨offset, ',' :: ' ' :: text ++ (further texts ++ after), closers⟩ a
        (further texts ++ after) closers :=
      (yields_expect [] rfl (by decide)).bind fun offset =>
        first offset [' '] _ closers (by decide) (stops_further stops texts)
    exact next.bind fun _ => ih.bind fun _ => yields_pure _ _

theorem reads_parts {first last : Char} (solid : Text.isBlank first = false) (solid' : Text.isBlank last = false)
    (ends : isDelimiter last = true) {readers : List (Scan α)} {texts : List (List Char)} {as : List α}
    (h : ReadsAll readers texts as) : Reads (parts first last readers) (bracketed first last texts) as := by
  intro offset gap after closers blank _
  rw [bracketed, List.cons_append, List.cons_append, List.append_assoc]
  refine (yields_openBracket gap blank solid).bind fun offset => ?_
  have close : ∀ offset, Yields (closeBracket >>= fun _ => pure as) ⟨offset, last :: after, last :: closers⟩ as after
      closers := fun _ => (yields_closeBracket solid').bind fun _ => yields_pure _ _
  cases h with
  | nil => exact close offset
  | @cons read text a readers texts as head tail =>
    rw [commaSeparated_cons, List.append_assoc]
    have stops : Stops ([last] ++ after) := stops_cons ends
    refine (head offset [] _ _ rfl (stops_further stops texts)).bind fun _ => ?_
    exact (tail.yields_rest stops).bind fun _ => (yields_pure _ _).bind close

/-- The beginning of an element, which no list takes for its end. -/
def Opens (text : List Char) : Prop := ∃ c rest, text = c :: rest ∧ Text.isBlank c = false ∧ c ≠ ']'

theorem length_le_further (texts : List (List Char)) : texts.length ≤ (further texts).length := by
  induction texts with
  | nil => exact Nat.le_refl _
  | cons t ts ih =>
    simp only [further, List.length_append, List.length_cons]
    omega

/-- `most` is the greatest number of elements that the readers admit. -/
theorem yields_elementsFrom {element : Nat → Scan α} {most : Nat} {texts : List (List Char)} {as : List α}
    (h : List.Forall₂ (fun t a => ∀ n ≤ most, Reads (element n) t a) texts as) {after closers : List Char} :
    ∀ {fuel count offset : Nat} (gap : List Char) {t : List Char} {a : α}, (∀ n ≤ most, Reads (element n) t a) →
      texts.length < fuel → count + texts.length < most → gap.all Text.isBlank = true →
      Yields (elementsFrom element fuel count)
        ⟨offset, gap ++ (t ++ (further texts ++ ']' :: after)), ']' :: closers⟩
        (a :: as) (']' :: after) (']' :: closers) := by
  have stops : Stops (']' :: after) := stops_cons (by decide)
  -- the first element stands apart: the reader asks for a comma only after it
  induction h with
  | nil =>
    intro fuel count offset gap t a first enough few blank
    obtain ⟨fuel, rfl⟩ := Nat.exists_eq_add_one_of_ne_zero (Nat.ne_of_gt enough)
    rw [elementsFrom]
    have admitted : count + 1 ≤ most := by rwa [List.length_nil] at few
    refine (first (count + 1) admitted offset gap _ _ blank stops).bind fun offset => ?_
    exact (yields_more_close (by decide) (by decide)).bind fun _ => yields_pure _ _
  | @cons t' a' texts as second _ ih =>
    intro fuel count offset gap t a first enough few blank
    simp only [List.length_cons] at enough few
    obtain ⟨fuel, rfl⟩ := Nat.exists_eq_add_one_of_ne_zero (Nat.ne_of_gt (Nat.zero_lt_of_lt enough))
    rw [elementsFrom]
    refine (first (count + 1) (by omega) offset gap _ _ blank (stops_further stops (t' :: texts))).bind fun offset => ?_
    rw [further, List.cons_append, List.cons_append, List.append_assoc]
    refine yields_more_comma.bind fun offset => ?_
    rw [if_pos rfl]
    exact (ih [' '] second (by omega) (by omega) (by decide)).bind fun _ => yields_pure _ _

theorem reads_elements {element : Nat → Scan α} {most : Nat} {texts : List (List Char)} {as : List α}
    (h : List.Forall₂ (fun t a => Opens t ∧ ∀ n ≤ most, Reads (element n) t a) texts as) (few : texts.length ≤ most) :
    Reads (elements element) (bracketed '[' ']' texts) as := by
  intro offset gap after closers blank _
  rw [bracketed, List.cons_append, List.cons_append, List.append_assoc]
  refine (yields_openBracket gap blank (by decide)).bind fun offset => ?_
  cases h with
  | nil =>
    have found : Yields peek ⟨offset, ']' :: after, ']' :: closers⟩ (some ']') (']' :: after) (']' :: closers) :=
      yields_peek [] rfl (by rintro _ ⟨⟩; decide)
    refine found.bind fun offset => ?_
    rw [if_pos rfl]
    exact (yields_pure _ _).bind fun _ => (yields_closeBracket (by decide)).bind fun _ => yields_pure _ _
  | @cons t a texts as first rest =>
    obtain ⟨⟨c, cs, rfl, solid, closing⟩, first⟩ := first
    rw [commaSeparated_cons, List.append_assoc]
    have found : Yields peek ⟨offset, c :: cs ++ (further texts ++ ([']'] ++ after)), ']' :: closers⟩
        (some c) (c :: cs ++ (further texts ++ ([']'] ++ after))) (']' :: closers) :=
      yields_peek [] rfl (by rintro _ ⟨⟩; exact solid)
    refine found.bind fun offset => ?_
    rw [if_neg (fun h => closing (Option.some.inj h))]
    refine (yields_get _).bind fun offset => ?_
    have rest : List.Forall₂ (fun t a => ∀ n ≤ most, Reads (element n) t a) texts as := rest.imp fun _ _ h => h.2
    have enough :
        texts.length < Scanner.fuel ⟨offset, c :: cs ++ (further texts ++ ([']'] ++ after)), ']' :: closers⟩ := by
      have := length_le_further texts
      simp only [Scanner.fuel, List.length_append, List.length_cons]
      omega
    simp only [List.length_cons] at few
    refine (yields_elementsFrom rest [] first enough (by omega) rfl).bind fun offset => ?_
    exact (yields_closeBracket (by decide)).bind fun _ => yields_pure _ _

end DebugText
end AssetRecords
