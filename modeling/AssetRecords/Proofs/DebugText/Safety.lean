import AssetRecords.Proofs.DebugText.Lockstep
import AssetRecords.Proofs.Initial
import AssetRecords.Proofs.Silence
/-!
# Safety — no text leads the machine astray

The readers call each other as the shape of the value says, and the text decides how often.  So the machine is compared
with the scanner reader by reader: brackets owe one more closing bracket while their container is read
(`mirrors_brackets`), a loop ends because there is less text behind each comma (`ends_turns`), a part is picked where it
is (`simulates_part`), an element that was just put in is the last one (`mirrors_lengthen`), and a buffer has as many
elements as there are numbers (`simulates_store`).  An induction over the room for levels puts them together
(`mirrors_value`), and what is asked of every step holds for a whole run (`decodes_safely`).
-/
namespace AssetRecords
namespace DebugText

variable {α β : Type} {text : List Char} {reading : List Container} {s : Scanner} {m : Machine}

/-!
## Brackets
-/

section Brackets

variable {c : Container} {stack stack' : List Char}

/-- What is done within a container is done from where the machine is, and the container is left again. -/
theorem Simulates.within {run : Decode α} {read : Scan α}
    (h : Simulates text (reading ++ [c]) stack stack' run read) :
    Simulates text reading stack stack' (Machine.within c run) read := by
  intro s m meets
  have inner : Meets text (reading ++ [c]) stack s { m with reading := m.reading ++ [c] } := by
    have held := meets.held
    refine ⟨⟨held.place, held.inside, held.stack, ?_, held.steps⟩, meets.within, meets.closers⟩
    rw [held.reading]
  have ends := h inner
  unfold Machine.within
  generalize run { m with reading := m.reading ++ [c] } = r at ends
  generalize read s = r' at ends
  cases ends with
  | comes there le =>
    refine .comes ⟨?_, there.within, there.closers⟩ le
    exact ⟨there.held.place, there.held.inside, there.held.stack, meets.held.reading, there.held.steps⟩
  | fails steps placed => exact .fails steps placed

theorem simulates_push (c : Container) :
    Simulates text (reading ++ [c]) (owed reading) (owed (reading ++ [c])) (Machine.push (closer c.first))
      (modify fun s => { s with closers := c.last :: s.closers }) := by
  intro s m h
  have pushed : Held text (reading ++ [c]) (owed (reading ++ [c])) s.offset { m with stack := m.stack ++ [c.last] } := by
    refine ⟨h.held.place, h.held.inside, ?_, h.held.reading, h.held.steps⟩
    rw [owed_concat, h.held.stack]
  refine .comes ⟨pushed.noted (show Deed.Sound text .push from trivial), h.within, ?_⟩ (Nat.le_refl _)
  rw [owed_concat, List.reverse_concat, ← h.closers]

/-- **A container is read between its brackets.** -/
theorem mirrors_brackets {body : Decode α} {body' : Scan α} (h : Mirrors text (reading ++ [c]) body body') :
    Mirrors text reading (Machine.brackets text c body)
      (do openBracket c.first c.last; let a ← body'; closeBracket; return a) := by
  have opened : (do openBracket c.first c.last; let a ← body'; closeBracket; return a : Scan α) = (do
      expect c.first
      let a ← (do
        modify fun s => { s with closers := c.last :: s.closers }
        body')
      closeBracket
      return a) := by
    simp only [openBracket, bind_assoc]
  have ascii : c.first.toNat < 0x80 := by cases c <;> decide
  rw [opened]
  refine (mirrors_expect ascii).bind fun _ => ?_
  refine Simulates.bind ((simulates_push c).bind fun _ => h).within fun a => ?_
  exact (simulates_closeBracket c).bind fun _ => simulates_pure a

end Brackets

/-!
## Lists
-/

theorem simulates_peek {next : Option UInt8 → Decode β} {next' : Option Char → Scan β} {stack' : List Char}
    (h : ∀ found, Simulates text reading (owed reading) stack' (next (found.map lead)) (next' found)) :
    Simulates text reading (owed reading) stack' (Machine.peek text >>= next) (peek >>= next') := by
  intro s m meets
  refine meets.goes_peek.ends fun m meets => ?_
  rw [Scan.bind_of_ok (peek_apply s)]
  exact (h _ meets).mono fun _ _ le => Nat.le_trans le (length_skipBlanks_le s)

section Lists

variable {turn : List α → Decode (List α)} {element : Nat → Scan α}

theorem elementsFrom_succ (element : Nat → Scan α) (fuel : Nat) (as : List α) :
    (as ++ ·) <$> elementsFrom element (fuel + 1) as.length = (do
      let as ← (as ++ [·]) <$> element (as.length + 1)
      if ← more then (as ++ ·) <$> elementsFrom element fuel as.length else return as) := by
  simp only [elementsFrom, map_bind, bind_map_left, List.length_append, List.length_singleton]
  refine bind_congr fun a => bind_congr fun b => ?_
  cases b <;> simp

/-- The loop ends with the text: behind each comma there is less of it. -/
theorem ends_turns (h : ∀ as, Mirrors text reading (turn as) ((as ++ [·]) <$> element (as.length + 1))) :
    ∀ {fuel fuel' : Nat} (as : List α) {s : Scanner} {m : Machine}, s.rest.length < fuel → s.rest.length < fuel' →
      Meets text reading (owed reading) s m →
      Ends text reading (owed reading) (fun _ s' => s'.rest.length ≤ s.rest.length) (Machine.turns text turn fuel as m)
        (((as ++ ·) <$> elementsFrom element fuel' as.length) s)
  | 0, _, _, _, _, few, _, _ => absurd few (Nat.not_lt_zero _)
  | _, 0, _, _, _, _, few, _ => absurd few (Nat.not_lt_zero _)
  | fuel + 1, fuel' + 1, as, s, m, few, few', meets => by
    rw [elementsFrom_succ]
    refine Ends.bind (h as meets) fun {as s₁ m₁} meets le => ?_
    refine Ends.bind (ends_more meets) fun {b s₂ m₂} meets le' => ?_
    cases b with
    | false => exact .comes meets (Nat.le_trans le' le)
    | true =>
      have shorter : s₂.rest.length < s.rest.length := Nat.lt_of_lt_of_le le' le
      have rest := ends_turns h as (Nat.lt_of_lt_of_le shorter (Nat.le_of_lt_succ few))
        (Nat.lt_of_lt_of_le shorter (Nat.le_of_lt_succ few')) meets
      exact rest.mono fun _ _ le => Nat.le_trans le (Nat.le_of_lt shorter)

/-- **A list is read as the scanner reads it**, one turn of the loop for each element. -/
theorem mirrors_elements {c : Container} (square : c.first = '[')
    (h : ∀ as, Mirrors text (reading ++ [c]) (turn as) ((as ++ [·]) <$> element (as.length + 1))) :
    Mirrors text reading (Machine.elements text c turn []) (elements element) := by
  have read : elements element = (do
      openBracket c.first c.last
      let as ← (do
        let found ← peek
        if found = some ']' then pure [] else do elementsFrom element (← get).fuel 0)
      closeBracket
      return as) := by
    rw [Container.last, square, elements, bind_assoc]
    refine bind_congr fun _ => bind_congr fun found => ?_
    split <;> rfl
  rw [read]
  refine mirrors_brackets (simulates_peek fun found => ?_)
  by_cases closes : found = some ']'
  · rw [if_pos ((map_lead_eq_iff (by decide)).2 closes), if_pos closes]
    exact simulates_pure []
  · rw [if_neg fun same => closes ((map_lead_eq_iff (by decide)).1 same), if_neg closes]
    intro s m meets
    obtain ⟨before, whole, -⟩ := meets.within
    have few : s.rest.length < Utf8.size text + 1 := by
      have bytes := Utf8.length_le_size s.rest
      rw [whole, Utf8.size_append]
      omega
    have turns := ends_turns h [] few (Nat.lt_succ_self s.rest.length) meets
    have same : (([] : List α) ++ ·) <$> elementsFrom element s.fuel 0 = elementsFrom element s.fuel 0 := id_map _
    rw [Scan.get_bind]
    exact same ▸ turns

end Lists

/-!
## Parts
-/

section Parts

variable {read : α → Decode α}

/-- The part at an index is overwritten, and then the others. -/
theorem simulates_part {a : α} {reader : Scan α} (done : List α) {as : List α} {readers : Scan (List α)}
    (first : Mirrors text reading (read a) reader)
    (rest : ∀ a, Mirrors text reading (Machine.overwrite text read as.length (done ++ [a]).length (done ++ [a] ++ as))
      ((done ++ [a] ++ ·) <$> readers)) :
    Mirrors text reading (do
      let b ← read (← Machine.pick done.length (done ++ a :: as))
      Machine.overwrite text read as.length (done.length + 1) ((done ++ a :: as).set done.length b))
      ((done ++ ·) <$> (do return (← reader) :: (← readers))) := by
  have there : (done ++ a :: as)[done.length]? = some a := by
    rw [List.getElem?_append_right (Nat.le_refl _), Nat.sub_self]
    rfl
  have put : ∀ b, (done ++ a :: as).set done.length b = done ++ [b] ++ as := by
    intro b
    rw [List.set_append_right _ _ (Nat.le_refl _), Nat.sub_self, List.append_assoc]
    rfl
  have read' : (done ++ ·) <$> (do return (← reader) :: (← readers) : Scan (List α)) = (do
      let a ← reader
      (done ++ [a] ++ ·) <$> readers) := by
    simp
  rw [read']
  intro s m meets
  refine (meets.goes_pick there).ends fun m meets => ?_
  refine Simulates.bind first (fun b => ?_) meets
  rw [put, show done.length + 1 = (done ++ [b]).length from by rw [List.length_append]; rfl]
  exact rest b

/-- The parts behind the first one, each behind a comma. -/
theorem mirrors_overwrite {as : List α} {readers : List (Scan α)}
    (h : List.Forall₂ (fun a reader => Mirrors text reading (read a) reader) as readers) :
    ∀ done : List α, done ≠ [] → Mirrors text reading (Machine.overwrite text read as.length done.length (done ++ as))
      ((done ++ ·) <$> readers.mapM fun reader => do expect ','; reader) := by
  induction h with
  | nil =>
    intro done _
    rw [List.mapM_nil, map_pure]
    exact simulates_pure _
  | @cons a reader as readers first _ ih =>
    intro done some
    have read' : (done ++ ·) <$> ((reader :: readers).mapM fun reader => do expect ','; reader) = (do
        expect ','
        (done ++ ·) <$> (do return (← reader) :: (← readers.mapM fun reader => do expect ','; reader))) := by
      simp
    rw [read', List.length_cons, Machine.overwrite]
    show Mirrors text reading (if 0 < done.length then (Machine.expect text ',' >>= fun _ => do
      let b ← read (← Machine.pick done.length (done ++ a :: as))
      Machine.overwrite text read as.length (done.length + 1) ((done ++ a :: as).set done.length b)) else _) _
    rw [if_pos (List.length_pos_iff.2 some)]
    refine (mirrors_expect (by decide)).bind fun _ => simulates_part done first fun b => ?_
    exact ih (done ++ [b]) (List.append_ne_nil_of_right_ne_nil done (List.cons_ne_nil b []))

theorem mirrors_parts {c : Container} {as : List α} {readers : List (Scan α)}
    (h : List.Forall₂ (fun a reader => Mirrors text (reading ++ [c]) (read a) reader) as readers) :
    Mirrors text reading (Machine.brackets text c (Machine.overwrite text read as.length 0 as))
      (parts c.first c.last readers) := by
  cases h with
  | nil =>
    have read : parts c.first c.last ([] : List (Scan α)) = (do
        openBracket c.first c.last
        let as ← pure []
        closeBracket
        return as) := rfl
    rw [read]
    exact mirrors_brackets (simulates_pure [])
  | @cons a reader as readers first others =>
    have read : parts c.first c.last (reader :: readers) = (do
        openBracket c.first c.last
        let as ← ([] ++ ·) <$> (do return (← reader) :: (← readers.mapM fun reader => do expect ','; reader))
        closeBracket
        return as) := by
      simp [parts]
    rw [read]
    refine mirrors_brackets ?_
    have parts := simulates_part [] first fun b => mirrors_overwrite others [b] (List.cons_ne_nil b [])
    exact parts

end Parts

/-!
## Elements
-/

theorem placed_of_silent {e : Error} (h : e.Silent) : Placed text e := fun offset f he => absurd he (h offset f)

theorem resize_zero (initial : α) (as : List α) : resize initial 0 as = [] := by
  rw [resize, Nat.zero_sub]
  rfl

theorem resize_succ (initial : α) (as : List α) : resize initial (as.length + 1) as = as ++ [initial] := by
  rw [resize, List.take_of_length_le (Nat.le_succ _), Nat.add_sub_cancel_left]
  rfl

/-- An element that is put in is read as such. -/
theorem mirrors_lengthen {L : Limits} {initial : α} {read : α → Decode α} {reader : Scan α}
    (h : Mirrors text reading (read initial) reader) (as : List α) :
    Mirrors text reading (Machine.lengthen L initial read as)
      ((as ++ [·]) <$> (do liftM (L.checkCount (as.length + 1)); reader)) := by
  have read' : (as ++ [·]) <$> (do liftM (L.checkCount (as.length + 1)); reader : Scan α) = (do
      liftM (L.checkCount (as.length + 1))
      let a ← reader
      return as ++ [a]) := by
    simp
  have there : (as ++ [initial])[as.length]? = some initial := by
    rw [List.getElem?_append_right (Nat.le_refl _), Nat.sub_self]
    rfl
  have put : ∀ a, (as ++ [initial]).set as.length a = as ++ [a] := by
    intro a
    rw [List.set_append_right _ _ (Nat.le_refl _), Nat.sub_self]
    rfl
  rw [read', Machine.lengthen, resize_succ]
  refine (simulates_lift fun _ fails => placed_of_silent (silent_checkCount fails)).bind fun _ s m meets => ?_
  refine (meets.goes_pick there).ends fun m meets => ?_
  refine Simulates.bind h (fun a => ?_) meets
  rw [put]
  exact simulates_pure _

theorem mirrors_number (L : Limits) (ns : List Number) :
    Mirrors text reading (Machine.number text L ns) ((ns ++ [·]) <$> readNumber L (ns.length + 1)) := by
  rw [readNumber, map_bind]
  refine mirrors_token.bind fun token => ?_
  cases Number.parse? token with
  | none =>
    show Mirrors text reading (Machine.fail (.badNumber (String.ofList token)))
      (failWith (.badNumber (String.ofList token)))
    exact simulates_fail nofun
  | some n =>
    have length : (ns ++ [n]).length = ns.length + 1 := List.length_append
    have read : (ns ++ [·]) <$> (do liftM (L.checkCount (ns.length + 1)); return n : Scan Number) = (do
        liftM (L.checkCount (ns.length + 1))
        return ns ++ [n]) := by
      simp
    dsimp only
    rw [length, read]
    exact (simulates_lift fun _ fails => placed_of_silent (silent_checkCount fails)).bind fun _ => simulates_pure _

/-!
## Buffers
-/

section Storing

variable {zeros : Buffer}

/-- **Numbers that are stored one by one are stored as a whole.** -/
theorem simulates_store (wf : zeros.WellFormed) : ∀ (ns : List Number) (done : List zeros.type.Bits),
    done.length + ns.length = zeros.length →
    Mirrors text reading (Machine.store ns done.length (zeros.stored done))
      (liftM (do
        let elements ← ns.mapM zeros.type.narrow
        return zeros.stored (done ++ elements) : Except Error Buffer) : Scan Buffer)
  | [], done, _ => by
    have read : (do
        let elements ← [].mapM zeros.type.narrow
        return zeros.stored (done ++ elements) : Except Error Buffer) = .ok (zeros.stored done) := by
      show Except.ok (zeros.stored (done ++ [])) = _
      rw [List.append_nil]
    rw [read]
    exact simulates_pure _
  | n :: ns, done, count => by
    have room : done.length < zeros.length := by
      rw [List.length_cons] at count
      omega
    have store (outcome : Except Error zeros.type.Bits) (narrowed : zeros.type.narrow n = outcome) :
        (zeros.stored done).perform (.store done.length n) = match outcome with
          | .error e => (.refused e, zeros.stored done)
          | .ok e => (.done, zeros.stored (done ++ [e])) := by
      have inside : done.length < (zeros.stored done).length := room
      rw [Buffer.perform, show (zeros.stored done).type.narrow n = outcome from narrowed]
      cases outcome with
      | error e => rfl
      | ok e =>
        show (if done.length < (zeros.stored done).length then _ else _ : Buffer.Outcome × Buffer) = _
        rw [if_pos inside, wf.setElement_stored e room]
    rw [List.mapM_cons, Machine.store]
    cases narrowed : zeros.type.narrow n with
    | error e =>
      rw [store _ narrowed]
      exact simulates_throw (placed_of_silent (silent_narrow narrowed))
    | ok e =>
      rw [store _ narrowed]
      intro s m meets
      have picked : Goes (Machine.note (.pick done.length zeros.length)) m () (Meets text reading (owed reading) s) :=
        ⟨_, rfl, meets.held.noted room, meets.within, meets.closers⟩
      refine Goes.ends picked fun m meets => ?_
      have length : (done ++ [e]).length = done.length + 1 := List.length_append
      have left : (done ++ [e]).length + ns.length = zeros.length := by
        rw [List.length_cons] at count
        omega
      have rest := simulates_store wf ns (done ++ [e]) left meets
      rw [length] at rest
      have read : (do
          let elements ← (do return e :: (← ns.mapM zeros.type.narrow))
          return zeros.stored (done ++ elements) : Except Error Buffer) = (do
          let elements ← ns.mapM zeros.type.narrow
          return zeros.stored (done ++ [e] ++ elements)) := by
        simp
      exact read ▸ rest

end Storing

theorem mirrors_buffer (L : Limits) : Mirrors text reading (Machine.buffer text L) (readBuffer L) := by
  refine mirrors_token.bind fun name => ?_
  dsimp only
  cases ScalarType.ofName? (String.ofList name) with
  | none => exact simulates_fail nofun
  | some type =>
    refine (mirrors_elements rfl (mirrors_number L)).bind fun numbers => ?_
    cases zeroed : Buffer.zeroed type numbers.length with
    | error e =>
      have refused : Buffer.ofNumbers type numbers = .error e := by
        rw [Buffer.ofNumbers, zeroed]
        rfl
      rw [refused]
      exact simulates_throw (placed_of_silent (silent_zeroed zeroed))
    | ok zeros =>
      have length : zeros.length = numbers.length := (Buffer.zeroed_eq_ok_iff.1 zeroed).2 ▸ rfl
      have stored : Mirrors text reading (Machine.store numbers 0 (zeros.stored [])) _ :=
        simulates_store (Buffer.wellFormed_of_zeroed zeroed) numbers [] (length ▸ Nat.zero_add _)
      rw [Buffer.ofNumbers_eq zeroed]
      rw [Buffer.stored_nil] at stored
      exact stored

/-!
## Values
-/

theorem mirrors_leaf (type : LeafType) : Mirrors text reading (Machine.leaf text type) (readLeaf type) := by
  cases type with
  | text => exact mirrors_quoted.bind fun _ => simulates_pure _
  | _ => exact mirrors_token.bind fun _ => simulates_lift fun _ fails => placed_of_silent (silent_parse fails)

theorem placed_depthLimit (limit : Nat) : Placed text (.depthLimit limit) := nofun

/-- What may be absent is so if the next token is its word. -/
theorem mirrors_optional {content : Shape} {run : Decode Value} {read : Scan Value}
    (h : Mirrors text reading run read) :
    Mirrors text reading
      (do
        if (← Machine.peekToken text) = some "null".toList then
          discard (Machine.token text)
          return Value.absent content
        return Value.present content (← run))
      (do
        if nextToken (← get) = "null".toList then
          discard token
          return Value.absent content
        return Value.present content (← read)) := by
  intro s m meets
  refine (goes_peekToken meets).ends fun m meets => ?_
  rw [Scan.get_bind]
  by_cases null : nextToken s = "null".toList
  · have some : nextToken s ≠ [] := null ▸ by decide
    rw [if_neg some, if_pos (congrArg Option.some null), if_pos null]
    exact (mirrors_token.map _).bind (fun _ => simulates_pure _) meets
  · -- Without a token the machine has no word to compare, and the scanner an empty one.
    have other : (if nextToken s = [] then none else some (nextToken s)) ≠ some "null".toList := by
      split
      · exact nofun
      · exact fun same => null (Option.some.inj same)
    rw [if_neg other, if_neg null]
    exact h.bind (fun _ => simulates_pure _) meets

variable {S : Schema} {L : Limits}

/-- **A value is read over another one of its shape as the scanner reads it.** -/
theorem mirrors_value : ∀ {room : Nat} {v : Value} {shape : Shape} {reading : List Container}, S.HasShape v shape →
    S.Coherent shape → Mirrors text reading (Machine.value text S L room v) (readValue S L room shape)
  | 0, _, _, _, _, _ => simulates_throw (placed_depthLimit L.maxDepth)
  | room + 1, v, shape, reading, fits, coherent => by
    cases fits with
    | leaf l => exact (mirrors_leaf l.type).map _
    | enum table variant initial =>
      refine mirrors_token.bind fun key => ?_
      exact (simulates_lift fun _ fails => placed_of_silent (silent_ofKey fails)).bind fun _ => simulates_pure _
    | @record name fields keys shapes =>
      refine Simulates.map _ (mirrors_parts ?_)
      rw [List.forall₂_map_right_iff]
      refine forall₂_imp_of_mem (Schema.forall₂_fields keys shapes) ?_
      rintro ⟨_, v⟩ - f hf ⟨rfl, fits⟩
      exact (mirrors_value fits (coherent.sub (.field hf .self))).bind fun _ => simulates_pure _
    | @tuple vs shapes fits =>
      refine Simulates.map _ (mirrors_parts ?_)
      rw [List.forall₂_map_right_iff]
      exact forall₂_imp_of_mem fits fun v _ shape hs fits => mirrors_value fits (coherent.sub (.element hs .self))
    | @vector vs xs fits =>
      rw [List.forall₂_map_right_iff] at fits
      refine Simulates.map _ (mirrors_parts ?_)
      rw [List.forall₂_map_right_iff]
      exact fits.imp fun _ _ fits => mirrors_value fits (Schema.plain_leaf _).coherent
    | numbers type ns =>
      rw [Machine.value, readValue, resize_zero]
      refine Simulates.map _ (mirrors_elements rfl (mirrors_lengthen ?_))
      have number : Mirrors text (reading ++ [.sequence]) (do Machine.lift (type.parse (← Machine.token text)))
          (do liftM (type.parse (← token))) :=
        mirrors_token.bind fun _ => simulates_lift fun _ fails => placed_of_silent (silent_parse_number fails)
      by_cases none : room = 0
      · simp only [if_pos none]
        exact (simulates_throw (placed_depthLimit L.maxDepth)).bind fun _ => number
      · simp only [if_neg none]
        exact number
    | @sequence element vs fits =>
      rw [Machine.value, readValue, resize_zero]
      refine Simulates.map _ (mirrors_elements rfl (mirrors_lengthen ?_))
      have within := coherent.sub (.sequence .self)
      exact mirrors_value (S.hasShape_initial element within) within
    | buffer wf => exact (mirrors_buffer L).map _
    | absent content =>
      exact mirrors_optional (mirrors_value (S.hasShape_initial content (coherent.sub (.optional .self)))
        (coherent.sub (.optional .self)))
    | @present content v fits =>
      exact mirrors_optional (mirrors_value (S.hasShape_initial content (coherent.sub (.optional .self)))
        (coherent.sub (.optional .self)))

/-- Before anything is read the machine is where the scanner is. -/
theorem meets_start (text : List Char) : Meets text [] (owed []) (.start text) {} :=
  ⟨⟨rfl, Nat.zero_le _, rfl, rfl, nofun⟩, ⟨[], rfl, rfl⟩, rfl⟩

/-- A value, and nothing behind it. -/
def whole (S : Schema) (L : Limits) (shape : Shape) : Scan Value := do
  let v ← readValue S L (L.maxDepth + 1) shape
  if (← peek).isSome then failWith .trailing
  return v

theorem read_eq (shape : Shape) (text : String) :
    read S L shape text = Prod.fst <$> whole S L shape (.start text.toList) := by
  unfold read whole
  cases value : readValue S L (L.maxDepth + 1) shape (.start text.toList) with
  | error e =>
    rw [Scan.bind_of_error value]
    rfl
  | ok r =>
    obtain ⟨v, s⟩ := r
    rw [Scan.bind_of_ok value, Scan.bind_of_ok (peek_apply s)]
    show (if s.skipBlanks.rest.isEmpty then _ else _ : Except Error Value) = _
    cases s.skipBlanks.rest <;> rfl

/-- A whole text is read as the scanner reads it. -/
theorem mirrors_decode {v : Value} {shape : Shape} (fits : S.HasShape v shape) (coherent : S.Coherent shape) :
    Mirrors text reading (Machine.decode text S L v) (whole S L shape) := by
  refine (mirrors_value fits coherent).bind fun v => simulates_peek fun found => ?_
  cases found with
  | none => exact simulates_pure v
  | some c =>
    have blames : SyntaxFault.trailing ≠ .unbalanced := nofun
    exact (simulates_fail blames).bind fun _ => simulates_pure v

/-- **No text leads the decoder astray.**  Over the initial value of a shape the machine does not panic and ends as the
scanner does.  At each of its steps the position is within the text and the stack holds the closing brackets of the
containers that are being read; cuts go between characters and indices are inside.  The stack is empty when a value is
read, and a fault of the text is at a position between two characters and never that of a bracket too many. -/
theorem decodes_safely {shape : Shape} (coherent : S.Coherent shape) (L : Limits) (text : String) :
    let run := Machine.decode text.toList S L (S.initial shape) {}
    run.1 ≠ .error .panicked ∧ run.1 = (read S L shape text).mapError .failed ∧
    (∀ step ∈ run.2.steps, step.Sound text.toList) ∧ (∀ v, run.1 = .ok v → run.2.stack = []) ∧
    ∀ offset f, read S L shape text = .error (.syntaxFault offset f) →
      f ≠ .unbalanced ∧ IsBoundary text.toList offset ∧ offset ≤ (Utf8.encode text.toList).length := by
  have ends := mirrors_decode (L := L) (S.hasShape_initial shape coherent) coherent (meets_start text.toList)
  intro run
  have is : run = Machine.decode text.toList S L (S.initial shape) {} := rfl
  rw [← is] at ends
  rw [read_eq]
  generalize whole S L shape (.start text.toList) = read at ends
  generalize run = run at ends
  cases ends with
  | comes meets => exact ⟨nofun, rfl, meets.held.steps, fun _ _ => meets.held.stack, nofun⟩
  | fails steps placed =>
    refine ⟨nofun, rfl, steps, nofun, ?_⟩
    rintro offset f ⟨⟩
    obtain ⟨blames, boundary⟩ := placed offset f rfl
    exact ⟨blames, boundary, boundary.le⟩

/-- A tuple that is not closed: the text ends, between characters, behind its tenth byte. -/
theorem decodes_safely_unclosed :
    let shape := Shape.tuple [.leaf .text, .numbers .uint8]
    Schema.Coherent {} shape ∧
      (Machine.decode "(\"é\", [7]".toList {} ⟨2, 8⟩ (Schema.initial {} shape) {}).1 =
        .error (.failed (.syntaxFault 10 (.expected ')' none))) ∧
      IsBoundary "(\"é\", [7]".toList 10 := by
  have fails : read {} ⟨2, 8⟩ (.tuple [.leaf .text, .numbers .uint8]) "(\"é\", [7]" =
      .error (.syntaxFault 10 (.expected ')' none)) := rfl
  have coherent : Schema.Coherent {} (.tuple [.leaf .text, .numbers .uint8]) :=
    (Schema.plain_of_records (fun _ none => (List.not_mem_nil none).elim) rfl).coherent
  obtain ⟨-, same, -, -, placed⟩ := decodes_safely coherent ⟨2, 8⟩ "(\"é\", [7]"
  rw [fails] at same
  exact ⟨coherent, same, (placed _ _ fails).2.1⟩

end DebugText
end AssetRecords
