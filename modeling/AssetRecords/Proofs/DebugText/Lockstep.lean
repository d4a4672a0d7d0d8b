import AssetRecords.Proofs.DebugText.Boundaries
/-!
# Lockstep — the machine beside the scanner

The machine meets the scanner where it is at the same position, between characters, and owes the same brackets.  Each
reader of the machine, started where it meets the scanner, ends as the scanner's does (`Ends`): with the same result and
where they meet again, or with the same failure.  It never panics on the way, and every step is sound: the position is
within the text, the stack holds the closing brackets of the containers that are being read, cuts go between characters
and indices are inside.
-/
namespace AssetRecords
namespace DebugText

variable {α β : Type}

/-!
## Sound steps
-/

/-- The closing brackets of containers. -/
def owed (reading : List Container) : List Char := reading.map Container.last

def Deed.Sound (text : List Char) : Deed → Prop
  | .cut start stop => IsBoundary text start ∧ IsBoundary text stop ∧ start ≤ stop
  | .pick index count => index < count
  | .look | .move | .push | .pop => True

/-- A step that goes astray nowhere. -/
structure Step.Sound (text : List Char) (step : Step) : Prop where
  inside : step.pos ≤ (Utf8.encode text).length
  owed : step.stack = owed step.reading
  deed : step.deed.Sound text

/-- A failure that blames a position between characters, and not the stack. -/
def Placed (text : List Char) (e : Error) : Prop :=
  ∀ offset f, e = .syntaxFault offset f → f ≠ .unbalanced ∧ IsBoundary text offset

/-- The machine is at a position, and has made sound steps only. -/
structure Held (text : List Char) (reading : List Container) (stack : List Char) (pos : Nat) (m : Machine) : Prop where
  place : m.pos = pos
  inside : pos ≤ (Utf8.encode text).length
  stack : m.stack = stack
  reading : m.reading = reading
  steps : ∀ step ∈ m.steps, step.Sound text

/-- What is left for the scanner is the end of the text, and the offset is what came before. -/
def Within (text : List Char) (s : Scanner) : Prop := ∃ before, text = before ++ s.rest ∧ s.offset = Utf8.size before

/-- The machine is where the scanner is. -/
structure Meets (text : List Char) (reading : List Container) (stack : List Char) (s : Scanner) (m : Machine) : Prop where
  held : Held text reading stack s.offset m
  within : Within text s
  closers : s.closers = stack.reverse

/-- A run of the machine ends as that of the scanner. -/
inductive Ends (text : List Char) (reading : List Container) (stack : List Char) (behind : α → Scanner → Prop) :
    Except Stop α × Machine → Except Error (α × Scanner) → Prop where
  | comes {a : α} {m : Machine} {s : Scanner} : Meets text reading stack s m → behind a s →
    Ends text reading stack behind (.ok a, m) (.ok (a, s))
  | fails {e : Error} {m : Machine} : (∀ step ∈ m.steps, step.Sound text) → Placed text e →
    Ends text reading stack behind (.error (.failed e), m) (.error e)

/-- The machine reads what the scanner reads, and changes its stack. -/
def Simulates (text : List Char) (reading : List Container) (stack stack' : List Char) (run : Decode α)
    (read : Scan α) : Prop :=
  ∀ ⦃s : Scanner⦄ ⦃m : Machine⦄, Meets text reading stack s m →
    Ends text reading stack' (fun _ s' => s'.rest.length ≤ s.rest.length) (run m) (read s)

/-- The machine reads what the scanner reads, and owes what it has owed. -/
def Mirrors (text : List Char) (reading : List Container) (run : Decode α) (read : Scan α) : Prop :=
  Simulates text reading (owed reading) (owed reading) run read

/-- A run of the machine that comes to something. -/
def Goes (run : Decode α) (m : Machine) (a : α) (post : Machine → Prop) : Prop :=
  ∃ m', run m = (.ok a, m') ∧ post m'

section Runs

variable {run : Decode α} {next : α → Decode β} {m m' : Machine} {a : α} {s s' : Scanner}

theorem Decode.bind_of_ok (h : run m = (.ok a, m')) : (run >>= next) m = next a m' := by
  show ExceptT.bindCont next (run m).1 (run m).2 = _
  rw [h]
  rfl

theorem Decode.bind_of_error {stop : Stop} (h : run m = (.error stop, m')) : (run >>= next) m = (.error stop, m') := by
  show ExceptT.bindCont next (run m).1 (run m).2 = _
  rw [h]
  rfl

theorem Decode.map_of_ok {f : α → β} (h : run m = (.ok a, m')) : (f <$> run) m = (.ok (f a), m') := by
  rw [map_eq_pure_bind]
  exact Decode.bind_of_ok h

theorem Decode.map_of_error {f : α → β} {stop : Stop} (h : run m = (.error stop, m')) :
    (f <$> run) m = (.error stop, m') := by
  rw [map_eq_pure_bind]
  exact Decode.bind_of_error h

theorem Decode.tryCatch_of_ok (h : run m = (.ok a, m')) (handle : Stop → Decode α) :
    tryCatch run handle m = (.ok a, m') := by
  simp only [tryCatch, tryCatchThe, MonadExceptOf.tryCatch, ExceptT.tryCatch, ExceptT.mk, bind, StateT.bind]
  rw [h]
  rfl

theorem Decode.tryCatch_of_error {stop : Stop} (h : run m = (.error stop, m')) (handle : Stop → Decode α) :
    tryCatch run handle m = handle stop m' := by
  simp only [tryCatch, tryCatchThe, MonadExceptOf.tryCatch, ExceptT.tryCatch, ExceptT.mk, bind, StateT.bind]
  rw [h]

theorem Decode.get_bind (next : Machine → Decode β) (m : Machine) : (get >>= next) m = next m m := rfl

theorem Scan.bind_of_ok {read : Scan α} {next : α → Scan β} (h : read s = .ok (a, s')) :
    (read >>= next) s = next a s' := by
  show (read s >>= fun p => next p.1 p.2) = _
  rw [h]
  rfl

theorem Scan.bind_of_error {read : Scan α} {next : α → Scan β} {e : Error} (h : read s = .error e) :
    (read >>= next) s = .error e := by
  show (read s >>= fun p => next p.1 p.2) = _
  rw [h]
  rfl

theorem Goes.bind {P Q : Machine → Prop} {b : β} (h : Goes run m a P) (h' : ∀ m', P m' → Goes (next a) m' b Q) :
    Goes (run >>= next) m b Q := by
  obtain ⟨m', first, there⟩ := h
  obtain ⟨m'', second, behind⟩ := h' m' there
  exact ⟨m'', (Decode.bind_of_ok first).trans second, behind⟩

theorem goes_pure {P : Machine → Prop} (h : P m) : Goes (pure a) m a P := ⟨m, rfl, h⟩

variable {text : List Char} {reading : List Container} {stack stack' stack'' : List Char}
  {behind behind' : α → Scanner → Prop}

theorem Ends.mono {r : Except Stop α × Machine} {r' : Except Error (α × Scanner)}
    (h : Ends text reading stack behind r r') (imp : ∀ a s, behind a s → behind' a s) :
    Ends text reading stack behind' r r' := by
  cases h with
  | comes meets there => exact .comes meets (imp _ _ there)
  | fails steps placed => exact .fails steps placed

/-- What the machine does for itself before it goes on as the scanner does. -/
theorem Goes.ends {P : Machine → Prop} {after : β → Scanner → Prop} {r : Except Error (β × Scanner)}
    (h : Goes run m a P) (h' : ∀ m', P m' → Ends text reading stack after (next a m') r) :
    Ends text reading stack after ((run >>= next) m) r := by
  obtain ⟨m', first, there⟩ := h
  rw [Decode.bind_of_ok first]
  exact h' m' there

theorem Ends.bind {read : Scan α} {next' : α → Scan β} {after : β → Scanner → Prop}
    (h : Ends text reading stack behind (run m) (read s))
    (h' : ∀ {a s' m'}, Meets text reading stack s' m' → behind a s' →
      Ends text reading stack' after (next a m') (next' a s')) :
    Ends text reading stack' after ((run >>= next) m) ((read >>= next') s) := by
  generalize first : run m = r at h
  generalize first' : read s = r' at h
  cases h with
  | comes meets there =>
    rw [Decode.bind_of_ok first, Scan.bind_of_ok first']
    exact h' meets there
  | fails steps placed =>
    rw [Decode.bind_of_error first, Scan.bind_of_error first']
    exact .fails steps placed

theorem Simulates.bind {read : Scan α} {next' : α → Scan β} (h : Simulates text reading stack stack' run read)
    (h' : ∀ a, Simulates text reading stack' stack'' (next a) (next' a)) :
    Simulates text reading stack stack'' (run >>= next) (read >>= next') := by
  intro s m meets
  refine (h meets).bind fun meets' le => ?_
  exact (h' _ meets').mono fun _ _ le' => Nat.le_trans le' le

theorem simulates_pure (a : α) : Simulates text reading stack stack (pure a) (pure a) :=
  fun _ _ meets => .comes meets (Nat.le_refl _)

theorem Simulates.map {read : Scan α} (f : α → β) (h : Simulates text reading stack stack' run read) :
    Simulates text reading stack stack' (f <$> run) (f <$> read) := by
  simp only [map_eq_pure_bind]
  exact h.bind fun a => simulates_pure (f a)

theorem Meets.fails (h : Meets text reading stack s m) {e : Error} (placed : Placed text e) :
    Ends text reading stack' behind (.error (.failed e), m) (.error e) :=
  .fails h.held.steps placed

theorem Within.isBoundary (h : Within text s) : IsBoundary text s.offset := by
  obtain ⟨before, split, offset⟩ := h
  exact ⟨before, s.rest, split, by rw [offset, Utf8.length_encode]⟩

theorem Meets.fault (h : Meets text reading stack s m) {f : SyntaxFault} (blames : f ≠ .unbalanced) :
    Ends text reading stack' behind (Machine.fail f m) (.error (s.fault f)) := by
  have at' : (Machine.fail f : Decode α) m = (.error (.failed (s.fault f)), m) := by
    show (Except.error (Stop.failed (.syntaxFault m.pos f)), m) = _
    rw [h.held.place]
    rfl
  rw [at']
  refine h.fails ?_
  rintro offset f' ⟨⟩
  exact ⟨blames, h.within.isBoundary⟩

theorem simulates_fail {f : SyntaxFault} (blames : f ≠ .unbalanced) :
    Simulates text reading stack stack' (Machine.fail f : Decode α) (failWith f) :=
  fun _ _ meets => meets.fault blames

/-- A failure that is not of the text blames no position. -/
theorem simulates_lift {e : Except Error α} (silent : ∀ err, e = .error err → Placed text err) :
    Simulates text reading stack stack (Machine.lift e) (liftM e : Scan α) := by
  intro s m meets
  cases e with
  | ok a => exact .comes meets (Nat.le_refl _)
  | error err => exact meets.fails (silent err rfl)

theorem simulates_throw {e : Error} (placed : Placed text e) :
    Simulates text reading stack stack' (throw (.failed e) : Decode α) (throw e) :=
  fun _ _ meets => meets.fails placed

end Runs

/-!
## Where the machine is
-/

section Positions

variable {text : List Char} {reading : List Container} {stack : List Char} {s : Scanner} {m : Machine}

theorem Within.offset_le (h : Within text s) : s.offset ≤ (Utf8.encode text).length := h.isBoundary.le

theorem Within.advance (h : Within text s) (count : Nat) : Within text (s.advance count) := by
  obtain ⟨before, split, offset⟩ := h
  refine ⟨before ++ s.rest.take count, ?_, ?_⟩
  · rw [List.append_assoc]
    show text = before ++ (s.rest.take count ++ s.rest.drop count)
    rw [List.take_append_drop, split]
  · rw [Utf8.size_append, ← offset]
    rfl

theorem length_advance_le (s : Scanner) (count : Nat) : (s.advance count).rest.length ≤ s.rest.length := by
  show (s.rest.drop count).length ≤ _
  rw [List.length_drop]
  exact Nat.sub_le _ _

theorem length_skipBlanks_le (s : Scanner) : s.skipBlanks.rest.length ≤ s.rest.length := length_advance_le s _

variable {pos pos' : Nat}

theorem Held.noted (h : Held text reading (owed reading) pos m) {deed : Deed} (sound : deed.Sound text) :
    Held text reading (owed reading) pos (m.noted deed) := by
  refine ⟨h.place, h.inside, h.stack, h.reading, ?_⟩
  refine List.forall_mem_cons.2 ⟨⟨?_, ?_, sound⟩, h.steps⟩
  · exact h.place ▸ h.inside
  · show m.stack = owed m.reading
    rw [h.stack, h.reading]

theorem Held.moved (h : Held text reading stack pos m) (inside : pos' ≤ (Utf8.encode text).length) :
    Held text reading stack pos' { m with pos := pos' } :=
  ⟨rfl, inside, h.stack, h.reading, h.steps⟩

theorem Held.goes_here (h : Held text reading stack pos m) :
    Goes Machine.here m pos (Held text reading stack pos) :=
  ⟨m, congrArg (fun pos => (Except.ok pos, m)) h.place, h⟩

theorem Held.goes_moveTo (h : Held text reading (owed reading) pos m) (inside : pos' ≤ (Utf8.encode text).length) :
    Goes (Machine.moveTo pos') m () (Held text reading (owed reading) pos') :=
  ⟨_, rfl, (h.moved inside).noted trivial⟩

theorem Held.goes_byteAt (h : Held text reading (owed reading) pos m) (index : Nat) :
    Goes (Machine.byteAt text index) m (Utf8.encode text)[index]? (Held text reading (owed reading) pos) :=
  ⟨_, rfl, h.noted trivial⟩

theorem Held.goes_cut (h : Held text reading (owed reading) pos m) {before piece after : List Char}
    (split : text = before ++ (piece ++ after)) :
    Goes (Machine.cut text (Utf8.size before) (Utf8.size before + Utf8.size piece)) m piece
      (Held text reading (owed reading) pos) := by
  have taken : slice? text (Utf8.size before) (Utf8.size before + Utf8.size piece) = some piece :=
    slice?_eq_some_iff.2 ⟨before, after, split, rfl, rfl⟩
  refine ⟨m.noted (.cut (Utf8.size before) (Utf8.size before + Utf8.size piece)), ?_, h.noted ⟨?_, ?_, ?_⟩⟩
  · unfold Machine.cut
    rw [taken]
    rfl
  · exact ⟨before, piece ++ after, split, (Utf8.length_encode before).symm⟩
  · refine ⟨before ++ piece, after, ?_, ?_⟩
    · rw [split, List.append_assoc]
    · rw [Utf8.length_encode, Utf8.size_append]
  · exact Nat.le_add_right _ _

theorem Held.goes_pick (h : Held text reading (owed reading) pos m) {as : List α} {index : Nat} {a : α}
    (there : as[index]? = some a) : Goes (Machine.pick index as) m a (Held text reading (owed reading) pos) := by
  obtain ⟨inside, -⟩ := List.getElem?_eq_some_iff.1 there
  refine ⟨m.noted (.pick index as.length), ?_, h.noted inside⟩
  unfold Machine.pick
  rw [there]
  rfl

theorem Meets.goes_here (h : Meets text reading stack s m) :
    Goes Machine.here m s.offset (Meets text reading stack s) := by
  obtain ⟨m', run, held⟩ := h.held.goes_here
  exact ⟨m', run, held, h.within, h.closers⟩

theorem Meets.goes_pick (h : Meets text reading (owed reading) s m) {as : List α} {index : Nat} {a : α}
    (there : as[index]? = some a) : Goes (Machine.pick index as) m a (Meets text reading (owed reading) s) := by
  obtain ⟨m', run, held⟩ := h.held.goes_pick there
  exact ⟨m', run, held, h.within, h.closers⟩

/-- The machine goes along when the scanner advances. -/
theorem Meets.goes_moveTo (h : Meets text reading (owed reading) s m) (count : Nat) :
    Goes (Machine.moveTo (s.advance count).offset) m () (Meets text reading (owed reading) (s.advance count)) := by
  obtain ⟨m', run, held⟩ := h.held.goes_moveTo (h.within.advance count).offset_le
  exact ⟨m', run, held, h.within.advance count, h.closers⟩

theorem Within.getElem? (h : Within text s) : (Utf8.encode text)[s.offset]? = s.rest.head?.map lead := by
  obtain ⟨before, split, offset⟩ := h
  rw [split, offset]
  exact Utf8.getElem?_encode before s.rest

theorem Meets.goes_byteAt (h : Meets text reading (owed reading) s m) :
    Goes (Machine.byteAt text s.offset) m (s.rest.head?.map lead) (Meets text reading (owed reading) s) := by
  obtain ⟨m', run, held⟩ := h.held.goes_byteAt s.offset
  rw [h.within.getElem?] at run
  exact ⟨m', run, held, h.within, h.closers⟩

theorem Meets.goes_cut (h : Meets text reading (owed reading) s m) {before piece after : List Char}
    (split : text = before ++ (piece ++ after)) :
    Goes (Machine.cut text (Utf8.size before) (Utf8.size before + Utf8.size piece)) m piece
      (Meets text reading (owed reading) s) := by
  obtain ⟨m', run, held⟩ := h.held.goes_cut split
  exact ⟨m', run, held, h.within, h.closers⟩

theorem Meets.goes_rest (h : Meets text reading (owed reading) s m) :
    Goes (Machine.cut text s.offset (Utf8.size text)) m s.rest (Meets text reading (owed reading) s) := by
  obtain ⟨before, whole, offset⟩ := h.within
  have split : text = before ++ (s.rest ++ []) := by rw [List.append_nil, ← whole]
  have end' : Utf8.size before + Utf8.size s.rest = Utf8.size text := by rw [← Utf8.size_append, ← whole]
  rw [offset, ← end']
  exact h.goes_cut split

end Positions

/-!
## Tokens
-/

section Tokens

variable {text : List Char} {reading : List Container} {s : Scanner} {m : Machine}

theorem Meets.goes_skipBlanks (h : Meets text reading (owed reading) s m) :
    Goes (Machine.skipBlanks text) m () (Meets text reading (owed reading) s.skipBlanks) := by
  refine h.goes_here.bind fun m h => h.goes_rest.bind fun m h => ?_
  have size := Utf8.size_append (s.rest.takeWhile Text.isBlank) (s.rest.dropWhile Text.isBlank)
  rw [List.takeWhile_append_dropWhile] at size
  have there : s.offset + (Utf8.size s.rest - Utf8.size (s.rest.dropWhile Text.isBlank)) = s.skipBlanks.offset := by
    rw [skipBlanks_eq, size, Nat.add_sub_cancel]
  rw [there]
  exact h.goes_moveTo _

theorem Meets.goes_peek (h : Meets text reading (owed reading) s m) :
    Goes (Machine.peek text) m (s.skipBlanks.rest.head?.map lead) (Meets text reading (owed reading) s.skipBlanks) :=
  h.goes_skipBlanks.bind fun _ h => h.goes_here.bind fun _ h => h.goes_byteAt

theorem map_byteChar (found : Option Char) : (found.map lead).map byteChar = found.map firstByte := by
  cases found with
  | none => rfl
  | some c => exact congrArg some (byteChar_lead c)

/-- An ASCII character is passed with one byte. -/
theorem offset_advance_one {c : Char} (ascii : c.toNat < 0x80) (found : s.rest.head? = some c) :
    (s.advance 1).offset = s.offset + 1 := by
  obtain ⟨rest, text⟩ := List.head?_eq_some_iff.1 found
  show s.offset + Utf8.size (s.rest.take 1) = _
  rw [text]
  show s.offset + (c.utf8Size + 0) = _
  rw [utf8Size_ascii ascii]

theorem mirrors_expect {wanted : Char} (ascii : wanted.toNat < 0x80) :
    Mirrors text reading (Machine.expect text wanted) (expect wanted) := by
  intro s m h
  rw [expect_apply]
  refine h.goes_peek.ends fun m h => ?_
  by_cases found : s.skipBlanks.rest.head? = some wanted
  · rw [if_pos ((map_lead_eq_iff ascii).2 found), if_pos found]
    refine h.goes_here.ends fun m h => ?_
    obtain ⟨m', run, meets⟩ := h.goes_moveTo 1
    rw [offset_advance_one ascii found] at run
    rw [run]
    exact .comes meets (Nat.le_trans (length_advance_le _ _) (length_skipBlanks_le s))
  · rw [if_neg fun same => found ((map_lead_eq_iff ascii).1 same), if_neg found, map_byteChar]
    exact h.fault nofun

theorem ascii_last (c : Container) : c.last.toNat < 0x80 := by cases c <;> decide

theorem owed_concat (reading : List Container) (c : Container) : owed (reading ++ [c]) = owed reading ++ [c.last] :=
  List.map_append

theorem simulates_closeBracket (c : Container) :
    Simulates text reading (owed (reading ++ [c])) (owed reading) (Machine.closeBracket text) closeBracket := by
  intro s m h
  have closers : s.closers = c.last :: (owed reading).reverse := by
    rw [h.closers, owed_concat, List.reverse_concat]
  have stack : m.stack = owed reading ++ [c.last] := h.held.stack.trans (owed_concat reading c)
  have popped : Goes Machine.pop m (some c.last)
      (Meets text reading (owed reading) { s with closers := (owed reading).reverse }) := by
    have last : m.stack.getLast? = some c.last := by rw [stack, List.getLast?_concat]
    have shorter : Held text reading (owed reading) s.offset { m with stack := m.stack.dropLast } := by
      refine ⟨h.held.place, h.held.inside, ?_, h.held.reading, h.held.steps⟩
      show m.stack.dropLast = _
      rw [stack, List.dropLast_concat]
    have noted := shorter.noted (show Deed.Sound text .pop from trivial)
    refine ⟨{ m with stack := m.stack.dropLast }.noted .pop, ?_, noted, h.within, rfl⟩
    rw [← last]
    rfl
  refine popped.ends fun m h => ?_
  have passed : closeBracket s = expect c.last { s with closers := (owed reading).reverse } := by
    rw [closeBracket, Scan.get_bind, closers]
    rfl
  rw [passed]
  exact mirrors_expect (ascii_last c) h

theorem head?_closers (h : Meets text reading (owed reading) s m) : s.closers.head? = m.stack.getLast? := by
  rw [h.closers, List.head?_reverse, h.held.stack]

theorem closes_iff (h : Meets text reading (owed reading) s m) (found : Option Char) :
    ((found.map lead).isSome && found.map lead == m.stack.getLast?.map Char.toUInt8) =
      (found.isSome && found == s.closers.head?) := by
  rw [head?_closers h, h.held.stack]
  cases found with
  | none => rfl
  | some b =>
    cases last : (owed reading).getLast? with
    | none => rfl
    | some w =>
      obtain ⟨c, -, rfl⟩ := List.mem_map.1 (List.mem_of_getLast? last)
      by_cases is : b = c.last
      · simp [is, (lead_eq_iff (ascii_last c)).2 rfl]
      · simp [is, mt (lead_eq_iff (ascii_last c)).1 is]

/-- Behind a comma there is less left. -/
theorem ends_more (h : Meets text reading (owed reading) s m) :
    Ends text reading (owed reading) (fun b s' => s'.rest.length + b.toNat ≤ s.rest.length) (Machine.more text m)
      (more s) := by
  refine h.goes_peek.ends fun m h' => ?_
  by_cases comma : s.skipBlanks.rest.head? = some ','
  · rw [if_pos ((map_lead_eq_iff (by decide)).2 comma), more_of_comma comma]
    refine h'.goes_here.ends fun m h' => ?_
    obtain ⟨m', run, meets⟩ := h'.goes_moveTo 1
    rw [offset_advance_one (by decide) comma] at run
    rw [Decode.bind_of_ok run]
    refine .comes meets ?_
    obtain ⟨rest, text⟩ := List.head?_eq_some_iff.1 comma
    have shorter := length_skipBlanks_le s
    show (s.skipBlanks.rest.drop 1).length + 1 ≤ _
    rw [text] at shorter ⊢
    exact shorter
  · rw [if_neg fun same => comma ((map_lead_eq_iff (by decide)).1 same), more_of_not_comma comma]
    rw [Decode.get_bind, closes_iff h', show s.skipBlanks.closers = s.closers from rfl, map_byteChar]
    by_cases closes : (s.skipBlanks.rest.head?.isSome && s.skipBlanks.rest.head? == s.closers.head?) = true
    · rw [if_pos closes, if_pos closes]
      exact .comes h' (length_skipBlanks_le s)
    · rw [if_neg closes, if_neg closes]
      exact h'.fault nofun

/-- A token, or none where a delimiter or nothing comes next. -/
theorem token_cases (h : Meets text reading (owed reading) s m) :
    (nextToken s = [] ∧ ∃ m', Machine.token text m = Machine.fail .expectedValue m' ∧
      Meets text reading (owed reading) s.skipBlanks m') ∨
    nextToken s ≠ [] ∧ Goes (Machine.token text) m (nextToken s)
      (Meets text reading (owed reading) (s.skipBlanks.advance (nextToken s).length)) := by
  by_cases empty : nextToken s = []
  · have length : Utf8.size (s.skipBlanks.rest.takeWhile (!isDelimiter ·)) = 0 := congrArg Utf8.size empty
    obtain ⟨m₁, skipped, h⟩ := h.goes_skipBlanks
    obtain ⟨m₂, placed, h⟩ := h.goes_here
    obtain ⟨m₃, taken, h⟩ := h.goes_rest
    refine .inl ⟨empty, m₃, ?_, h⟩
    rw [Machine.token, Decode.bind_of_ok skipped, Decode.bind_of_ok placed, Decode.bind_of_ok taken, length]
    rfl
  · refine .inr ⟨empty, h.goes_skipBlanks.bind fun m h => h.goes_here.bind fun m h => h.goes_rest.bind fun m h => ?_⟩
    have full : Utf8.size (nextToken s) ≠ 0 := by
      have bytes := Utf8.length_le_size (nextToken s)
      have length := List.length_pos_iff.2 empty
      omega
    show Goes (if Utf8.size (nextToken s) = 0 then _ else do
      Machine.moveTo (s.skipBlanks.offset + Utf8.size (nextToken s))
      Machine.cut text s.skipBlanks.offset (s.skipBlanks.offset + Utf8.size (nextToken s))) m _ _
    rw [if_neg full]
    have front : s.skipBlanks.rest.take (nextToken s).length = nextToken s :=
      (List.prefix_iff_eq_take.1 (List.takeWhile_prefix _)).symm
    obtain ⟨before, whole, offset⟩ := h.within
    rw [← List.takeWhile_append_dropWhile (p := (!isDelimiter ·)) (l := s.skipBlanks.rest)] at whole
    have stop : (s.skipBlanks.advance (nextToken s).length).offset = s.skipBlanks.offset + Utf8.size (nextToken s) := by
      rw [Scanner.advance, front]
    have moved := h.goes_moveTo (nextToken s).length
    rw [stop] at moved
    refine moved.bind fun m h => ?_
    have cut := h.goes_cut whole
    rw [← offset] at cut
    exact cut

theorem mirrors_token : Mirrors text reading (Machine.token text) token := by
  intro s m h
  rw [token_apply]
  obtain ⟨empty, m', run, meets⟩ | ⟨full, m', run, meets⟩ := token_cases h
  · rw [run, empty]
    exact meets.fault nofun
  · rw [run, if_neg (by rwa [List.isEmpty_iff])]
    exact .comes meets (Nat.le_trans (length_advance_le _ _) (length_skipBlanks_le s))

/-- The next token is seen from where the machine is. -/
theorem goes_peekToken (h : Meets text reading (owed reading) s m) :
    Goes (Machine.peekToken text) m (if nextToken s = [] then none else some (nextToken s))
      (Meets text reading (owed reading) s) := by
  refine h.goes_here.bind fun m h => ?_
  have back : ∀ {s' m'}, Meets text reading (owed reading) s' m' →
      Goes (Machine.moveTo s.offset) m' () (Meets text reading (owed reading) s) := by
    intro s' m' h'
    obtain ⟨m'', run, held⟩ := h'.held.goes_moveTo h.within.offset_le
    exact ⟨m'', run, held, h.within, h.closers⟩
  obtain ⟨empty, m', run, meets⟩ | ⟨full, m', run, meets⟩ := token_cases h
  · rw [if_pos empty]
    refine Goes.bind ⟨m', ?_, meets⟩ fun m h => (back h).bind fun m h => goes_pure h
    exact Decode.tryCatch_of_error (Decode.map_of_error run) _
  · rw [if_neg full]
    refine Goes.bind ⟨m', ?_, meets⟩ fun m h => (back h).bind fun m h => goes_pure h
    exact Decode.tryCatch_of_ok (Decode.map_of_ok run) _

end Tokens

/-!
## Strings
-/

section Strings

variable {text : List Char} {reading : List Container} {s : Scanner} {m : Machine}

theorem Within.slice? (h : Within text s) (count : Nat) :
    slice? text s.offset (s.offset + count) = takeBytes count s.rest := by
  obtain ⟨before, split, offset⟩ := h
  rw [DebugText.slice?, if_pos (Nat.le_add_right _ _), Nat.add_sub_cancel_left, offset, split, dropBytes_append]
  rfl

/-- An escape: the machine finds none where the scanner finds none, and passes all but two of its bytes otherwise. -/
def Escapes (text : List Char) (reading : List Container) (s : Scanner) (m : Machine) : Prop :=
  (∃ f m', Machine.escape text s.offset m = Machine.fail f m' ∧ f ≠ .unbalanced ∧
    Meets text reading (owed reading) s m' ∧ ∀ fuel, stringBody (fuel + 1) s = .error (s.fault f)) ∨
  ∃ c count pos, Goes (Machine.escape text s.offset) m c (Held text reading (owed reading) pos) ∧ 0 < count ∧
    (s.advance count).offset = pos + 2 ∧
    ∀ fuel, stringBody (fuel + 1) s = (fun r => (c :: r.1, r.2)) <$> stringBody fuel (s.advance count)

section Escape

variable {offset : Nat} {rest closers : List Char}

/-- Behind the backslash stands the first byte of what is left. -/
theorem goes_escaped (h : Meets text reading (owed reading) ⟨offset, '\\' :: rest, closers⟩ m) :
    Goes (Machine.byteAt text (offset + 1)) m (rest.head?.map lead)
      (Meets text reading (owed reading) ⟨offset, '\\' :: rest, closers⟩) := by
  obtain ⟨m', looked, held⟩ := h.held.goes_byteAt (offset + 1)
  rw [show (Utf8.encode text)[offset + 1]? = rest.head?.map lead from (h.within.advance 1).getElem?] at looked
  exact ⟨m', looked, held, h.within, h.closers⟩

theorem escapes_codePoint (h : Meets text reading (owed reading) ⟨offset, '\\' :: 'u' :: rest, closers⟩ m) :
    Escapes text reading ⟨offset, '\\' :: 'u' :: rest, closers⟩ m := by
  obtain ⟨m', looked, h⟩ := goes_escaped h
  have entered : Machine.escape text offset m = Machine.codePoint text offset m' := Decode.bind_of_ok looked
  have sliced : slice? text (offset + 2) (offset + 6) = takeBytes 4 rest := (h.within.advance 2).slice? 4
  cases four : takeBytes 4 rest with
  | none =>
    simp only [Machine.codePoint, sliced, four] at entered
    exact .inl ⟨.truncatedEscape, m', entered, nofun, h, fun _ => by simp [stringBody, four]⟩
  | some digits =>
    cases back : (codePoint? digits).bind scalarValue? with
    | none =>
      simp only [Machine.codePoint, sliced, four, back] at entered
      refine .inl ⟨.badCodePoint (String.ofList digits), m', entered, by simp, h, fun _ => ?_⟩
      simp [stringBody, four, back]
    | some c =>
      simp only [Machine.codePoint, sliced, four, back] at entered
      obtain ⟨size, after, rfl⟩ := takeBytes_eq_some four
      have length : ('\\' :: 'u' :: digits).length = 2 + digits.length := Nat.add_comm digits.length 2
      have six : Utf8.size ('\\' :: 'u' :: digits) = 6 := by
        show 1 + (1 + Utf8.size digits) = 6
        rw [size]
      have passed := advance_append offset ('\\' :: 'u' :: digits) after closers
      rw [length, six] at passed
      have stop := congrArg Scanner.offset passed
      have le := (h.within.advance (2 + digits.length)).offset_le
      have inside : offset + 4 ≤ (Utf8.encode text).length := by
        refine Nat.le_trans ?_ le
        exact stop ▸ Nat.add_le_add_left (by decide : 4 ≤ 6) offset
      obtain ⟨m'', moved, held⟩ := h.held.goes_moveTo inside
      refine .inr ⟨c, 2 + digits.length, offset + 4, ⟨m'', ?_, held⟩, Nat.lt_add_right _ Nat.zero_lt_two, stop,
        fun _ => stringBody_codePoint four back⟩
      rw [entered]
      exact Decode.bind_of_ok moved

theorem escapes_letter {x : Char} (u : x ≠ 'u')
    (h : Meets text reading (owed reading) ⟨offset, '\\' :: x :: rest, closers⟩ m) :
    Escapes text reading ⟨offset, '\\' :: x :: rest, closers⟩ m := by
  obtain ⟨m', looked, h⟩ := goes_escaped h
  have other : lead x ≠ 'u'.toUInt8 := mt (lead_eq_iff (by decide)).1 u
  have entered : Machine.escape text offset m = Machine.letter (lead x) m' :=
    (Decode.bind_of_ok looked).trans (congrFun (if_neg other) m')
  cases known : Quoted.unescape? x with
  | none =>
    simp only [Machine.letter, unescape?_lead, known] at entered
    exact .inl ⟨.badEscape, m', entered, nofun, h, fun _ => by simp [stringBody, u, known]⟩
  | some c =>
    simp only [Machine.letter, unescape?_lead, known] at entered
    have ascii : x.toNat < 0x80 := by
      by_contra large
      rw [unescape?_large (Nat.le_of_not_lt large)] at known
      cases known
    have two : Utf8.size ['\\', x] = 2 := by
      show 1 + (x.utf8Size + 0) = 2
      rw [utf8Size_ascii ascii]
    have stop := congrArg Scanner.offset (advance_append offset ['\\', x] rest closers)
    rw [two] at stop
    exact .inr ⟨c, 2, offset, ⟨m', entered, h.held⟩, Nat.zero_lt_two, stop, fun _ => stringBody_escape u known⟩

theorem escapes (h : Meets text reading (owed reading) ⟨offset, '\\' :: rest, closers⟩ m) :
    Escapes text reading ⟨offset, '\\' :: rest, closers⟩ m := by
  cases rest with
  | nil =>
    obtain ⟨m', looked, h⟩ := goes_escaped h
    exact .inl ⟨.badEscape, m', Decode.bind_of_ok looked, nofun, h, fun _ => rfl⟩
  | cons x rest =>
    by_cases u : x = 'u'
    · subst u
      exact escapes_codePoint h
    · exact escapes_letter u h

end Escape

/-- Bytes that are neither a quote nor a backslash are passed one by one, whatever characters they belong to. -/
theorem stringFrom_bytes (start : Nat) (out : List Char) : ∀ {bytes front back : Bytes} {fuel pos : Nat} {m : Machine},
    Utf8.encode text = front ++ (bytes ++ back) → pos = front.length →
    (∀ b ∈ bytes, b ≠ '"'.toUInt8 ∧ b ≠ '\\'.toUInt8) → Held text reading (owed reading) pos m →
    ∃ m', Machine.stringFrom text (fuel + bytes.length) start out m = Machine.stringFrom text fuel start out m' ∧
      Held text reading (owed reading) (pos + bytes.length) m'
  | [], _, _, _, _, m, _, _, _, held => ⟨m, rfl, held⟩
  | b :: bytes, front, back, fuel, pos, m, whole, place, plain, held => by
    obtain ⟨⟨quote, backslash⟩, plain⟩ := List.forall_mem_cons.1 plain
    have there : (Utf8.encode text)[pos]? = some b := by
      rw [whole, place, List.getElem?_append_right (Nat.le_refl _), Nat.sub_self]
      rfl
    obtain ⟨m₁, placed, held⟩ := held.goes_here
    obtain ⟨m₂, looked, held⟩ := held.goes_byteAt pos
    have inside : pos + 1 ≤ (Utf8.encode text).length := Nat.succ_le_of_lt (List.getElem?_eq_some_iff.1 there).1
    obtain ⟨m₃, moved, held⟩ := held.goes_moveTo inside
    have rest : Utf8.encode text = (front ++ [b]) ++ (bytes ++ back) := by
      rw [whole, List.append_assoc]
      rfl
    have behind : pos + 1 = (front ++ [b]).length := by rw [place, List.length_append, List.length_singleton]
    obtain ⟨m', run, held⟩ := stringFrom_bytes start out rest behind plain held
    refine ⟨m', ?_, ?_⟩
    · rw [there] at looked
      rw [List.length_cons, ← Nat.add_assoc, Machine.stringFrom, Decode.bind_of_ok placed, Decode.bind_of_ok looked]
      show (if b = '"'.toUInt8 then _ else if b = '\\'.toUInt8 then _ else _ : Decode (List Char)) m₂ = _
      rw [if_neg quote, if_neg backslash, Decode.bind_of_ok moved]
      exact run
    · rw [List.length_cons, Nat.add_comm bytes.length, ← Nat.add_assoc]
      exact held

/-- The byte at the machine's position decides how a string goes on. -/
theorem stringFrom_entered (h : Meets text reading (owed reading) s m) (fuel start : Nat) (out : List Char) :
    ∃ m', Meets text reading (owed reading) s m' ∧ Machine.stringFrom text (fuel + 1) start out m =
      (match s.rest.head?.map lead with
        | none => Machine.fail .unterminatedString
        | some b =>
          if b = '"'.toUInt8 then do
            let piece ← Machine.cut text start s.offset
            Machine.moveTo (s.offset + 1)
            return out ++ piece
          else if b = '\\'.toUInt8 then do
            let piece ← Machine.cut text start s.offset
            let c ← Machine.escape text s.offset
            let start := (← Machine.here) + 2
            Machine.moveTo start
            Machine.stringFrom text fuel start (out ++ piece ++ [c])
          else do
            Machine.moveTo (s.offset + 1)
            Machine.stringFrom text fuel start out) m' := by
  obtain ⟨m₁, placed, h⟩ := h.goes_here
  obtain ⟨m₂, looked, h⟩ := h.goes_byteAt
  refine ⟨m₂, h, ?_⟩
  rw [Machine.stringFrom, Decode.bind_of_ok placed]
  exact Decode.bind_of_ok looked

theorem size_advance_lt {count : Nat} (some : 0 < count) (left : s.rest ≠ []) :
    Utf8.size (s.advance count).rest < Utf8.size s.rest := by
  have size := Utf8.size_append (s.rest.take count) (s.rest.drop count)
  rw [List.take_append_drop] at size
  have front : 0 < (s.rest.take count).length := by
    rw [List.length_take]
    exact Nat.lt_min.2 ⟨some, List.length_pos_iff.2 left⟩
  have bytes := Utf8.length_le_size (s.rest.take count)
  show Utf8.size (s.rest.drop count) < _
  omega

theorem length_advance_lt {count : Nat} (some : 0 < count) (left : s.rest ≠ []) :
    (s.advance count).rest.length < s.rest.length := by
  have length := List.length_pos_iff.2 left
  show (s.rest.drop count).length < _
  rw [List.length_drop]
  omega

/-- What comes in front of a string that is read. -/
theorem map_cons_stringBody (out : List Char) (c : Char) (r : Except Error (List Char × Scanner)) :
    (fun r => (out ++ r.1, r.2)) <$> (fun r => (c :: r.1, r.2)) <$> r = (fun r => (out ++ [c] ++ r.1, r.2)) <$> r := by
  cases r with
  | error e => rfl
  | ok r =>
    show Except.ok (out ++ c :: r.1, r.2) = Except.ok (out ++ [c] ++ r.1, r.2)
    rw [List.append_assoc]
    rfl

/-- The rest of a string is read as the scanner reads it, if that has this much fuel: `run` are the characters that are
passed but not yet cut out. -/
def Finishes (text : List Char) (reading : List Container) (fuel' : Nat) : Prop :=
  ∀ ⦃fuel : Nat⦄ (before run out : List Char) ⦃s : Scanner⦄ ⦃m : Machine⦄,
    s.rest.length < fuel' → Utf8.size s.rest < fuel → text = before ++ (run ++ s.rest) →
    s.offset = Utf8.size before + Utf8.size run → Meets text reading (owed reading) s m →
    Ends text reading (owed reading) (fun _ s' => s'.rest.length ≤ s.rest.length)
      (Machine.stringFrom text fuel (Utf8.size before) out m)
      ((fun r => (out ++ run ++ r.1, r.2)) <$> stringBody fuel' s)

section Finishing

variable {before run out rest closers : List Char} {c : Char} {offset fuel fuel' : Nat}

/-- The quote ends it, and what was passed is cut out. -/
theorem ends_quote (whole : text = before ++ (run ++ '"' :: rest)) (place : offset = Utf8.size before + Utf8.size run)
    (h : Meets text reading (owed reading) ⟨offset, '"' :: rest, closers⟩ m) :
    Ends text reading (owed reading) (fun _ s' => s'.rest.length ≤ rest.length + 1)
      (Machine.stringFrom text (fuel + 1) (Utf8.size before) out m)
      ((fun r => (out ++ run ++ r.1, r.2)) <$> stringBody (fuel' + 1) ⟨offset, '"' :: rest, closers⟩) := by
  have read : (fun r => (out ++ run ++ r.1, r.2)) <$> stringBody (fuel' + 1) ⟨offset, '"' :: rest, closers⟩ =
      .ok (out ++ run, Scanner.advance ⟨offset, '"' :: rest, closers⟩ 1) := by
    show Except.ok (out ++ run ++ [], _) = _
    rw [List.append_nil]
  obtain ⟨m', h, entered⟩ := stringFrom_entered h fuel (Utf8.size before) out
  simp only [List.head?_cons, Option.map_some] at entered
  rw [if_pos ((lead_eq_iff (by decide)).2 rfl)] at entered
  have cut := h.goes_cut whole
  rw [← place] at cut
  rw [entered, read]
  refine cut.ends fun m h => ?_
  obtain ⟨m', moved, h⟩ := h.goes_moveTo 1
  rw [offset_advance_one (c := '"') (by decide) rfl] at moved
  rw [Decode.bind_of_ok moved]
  exact .comes h (length_advance_le _ 1)

/-- What was passed is cut out before an escape, and nothing is passed behind it. -/
theorem Finishes.escape (ih : Finishes text reading fuel') (few : rest.length + 1 < fuel' + 1)
    (few' : Utf8.size ('\\' :: rest) < fuel + 1) (whole : text = before ++ (run ++ '\\' :: rest))
    (place : offset = Utf8.size before + Utf8.size run)
    (h : Meets text reading (owed reading) ⟨offset, '\\' :: rest, closers⟩ m) :
    Ends text reading (owed reading) (fun _ s' => s'.rest.length ≤ rest.length + 1)
      (Machine.stringFrom text (fuel + 1) (Utf8.size before) out m)
      ((fun r => (out ++ run ++ r.1, r.2)) <$> stringBody (fuel' + 1) ⟨offset, '\\' :: rest, closers⟩) := by
  obtain ⟨m', h, entered⟩ := stringFrom_entered h fuel (Utf8.size before) out
  simp only [List.head?_cons, Option.map_some] at entered
  rw [if_neg (by decide), if_pos ((lead_eq_iff (by decide)).2 rfl)] at entered
  have cut := h.goes_cut whole
  rw [← place] at cut
  rw [entered]
  refine cut.ends fun m h => ?_
  obtain ⟨f, m', run', blames, h, fails⟩ | ⟨c, count, pos, escaped, some, stop, reads⟩ := escapes h
  · rw [fails, Decode.bind_of_error run']
    exact h.fault blames
  · refine escaped.ends fun m held => held.goes_here.ends fun m held => ?_
    have behind := h.within.advance count
    obtain ⟨m', moved, held⟩ := held.goes_moveTo behind.offset_le
    rw [stop] at moved
    rw [Decode.bind_of_ok moved, reads, map_cons_stringBody]
    have left : (Scanner.mk offset ('\\' :: rest) closers).rest ≠ [] := List.cons_ne_nil _ _
    have length := Nat.lt_of_lt_of_le (length_advance_lt some left) (Nat.le_of_lt_succ few)
    have size := Nat.lt_of_lt_of_le (size_advance_lt some left) (Nat.le_of_lt_succ few')
    obtain ⟨before', whole, place⟩ := h.within.advance count
    have rest := ih before' [] (out ++ run ++ [c]) length size whole place ⟨held, behind, h.closers⟩
    rw [← place, stop, List.append_nil] at rest
    exact rest.mono fun _ _ le => Nat.le_trans le (length_advance_le _ count)

/-- Any other character is passed byte by byte. -/
theorem Finishes.character (ih : Finishes text reading fuel') (quote : c ≠ '"') (backslash : c ≠ '\\')
    (few : rest.length + 1 < fuel' + 1) (few' : Utf8.size (c :: rest) < fuel + 1)
    (whole : text = before ++ (run ++ c :: rest)) (place : offset = Utf8.size before + Utf8.size run)
    (h : Meets text reading (owed reading) ⟨offset, c :: rest, closers⟩ m) :
    Ends text reading (owed reading) (fun _ s' => s'.rest.length ≤ rest.length + 1)
      (Machine.stringFrom text (fuel + 1) (Utf8.size before) out m)
      ((fun r => (out ++ run ++ r.1, r.2)) <$> stringBody (fuel' + 1) ⟨offset, c :: rest, closers⟩) := by
  rw [stringBody_plain quote backslash, map_cons_stringBody, List.append_assoc]
  have plain : ∀ b ∈ String.utf8EncodeChar c, b ≠ '"'.toUInt8 ∧ b ≠ '\\'.toUInt8 := fun b hb =>
    ⟨ne_of_mem_encodeChar (by decide) quote b hb, ne_of_mem_encodeChar (by decide) backslash b hb⟩
  have bytes : Utf8.encode text = Utf8.encode (before ++ run) ++ (String.utf8EncodeChar c ++ Utf8.encode rest) := by
    rw [whole, ← List.append_assoc, Utf8.encode_append, Utf8.encode_cons]
  have place' : offset = (Utf8.encode (before ++ run)).length := by
    rw [Utf8.length_encode, Utf8.size_append, ← place]
  -- The machine takes a turn for each byte where the scanner takes one for the character.
  have fuel_eq : fuel + 1 = fuel + 1 - c.utf8Size + (String.utf8EncodeChar c).length := by
    have size : c.utf8Size + Utf8.size rest < fuel + 1 := few'
    rw [String.length_utf8EncodeChar]
    omega
  rw [fuel_eq]
  obtain ⟨m', passed, held⟩ := stringFrom_bytes (Utf8.size before) out bytes place' plain h.held
  rw [passed]
  rw [String.length_utf8EncodeChar] at held
  have size : Utf8.size rest < fuel + 1 - c.utf8Size := Nat.lt_sub_of_add_lt (Nat.add_comm _ _ ▸ few')
  have whole' : text = before ++ (run ++ [c] ++ rest) := by
    rw [whole, List.append_assoc run]
    rfl
  have place'' : offset + c.utf8Size = Utf8.size before + Utf8.size (run ++ [c]) := by
    rw [Utf8.size_append, ← Nat.add_assoc, ← place]
    rfl
  have rest := ih before (run ++ [c]) out (Nat.lt_of_succ_lt_succ few) size whole' place''
    ⟨held, h.within.advance 1, h.closers⟩
  exact rest.mono fun _ _ le => Nat.le_succ_of_le le

end Finishing

theorem finishes : ∀ fuel', Finishes text reading fuel'
  | 0, _, _, _, _, _, _, few, _, _, _, _ => absurd few (Nat.not_lt_zero _)
  | _, 0, _, _, _, _, _, _, few, _, _, _ => absurd few (Nat.not_lt_zero _)
  | fuel' + 1, fuel + 1, before, run, out, ⟨offset, rest, closers⟩, m, few, few', whole, place, h => by
    cases rest with
    | nil =>
      obtain ⟨m', h, entered⟩ := stringFrom_entered h fuel (Utf8.size before) out
      rw [entered]
      exact h.fault nofun
    | cons c rest =>
      by_cases quote : c = '"'
      · subst quote
        exact ends_quote whole place h
      by_cases backslash : c = '\\'
      · subst backslash
        exact (finishes fuel').escape few few' whole place h
      · exact (finishes fuel').character quote backslash few few' whole place h

/-- **A string is read as the scanner reads it.** -/
theorem mirrors_quoted : Mirrors text reading (Machine.quoted text) quoted := by
  refine (mirrors_expect (by decide)).bind fun _ s m h => ?_
  refine h.goes_here.ends fun m h => ?_
  obtain ⟨before, whole, place⟩ := h.within
  have few : Utf8.size s.rest < Utf8.size text + 1 := by
    rw [whole, Utf8.size_append]
    omega
  have body := finishes (s.rest.length + 1) before [] [] (Nat.lt_succ_self s.rest.length) few whole place h
  rw [← place] at body
  have read : ∀ body : Except Error (List Char × Scanner), (liftM body >>= fun r => do set r.2; return r.1 : Scan _) s =
      (fun r => ([] ++ [] ++ r.1, r.2)) <$> body := by
    intro body
    cases body <;> rfl
  rw [Scan.get_bind]
  exact read _ ▸ body

end Strings

end DebugText
end AssetRecords
