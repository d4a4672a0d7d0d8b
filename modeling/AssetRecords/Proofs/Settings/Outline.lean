import AssetRecords.Proofs.Settings.Headers
/-!
# Outline — what the lines of a text say

Each line says nothing, names a section, assigns a text to a key of the section that it stands in, or is at fault
(`classify`).  To read lines is to follow them for each field apart (`readLines_eq_ok_iff`): whatever a line says, it
does to a field what it would do without the other fields.
-/
namespace AssetRecords
namespace Settings

/-- What a line says. -/
inductive Line where
  | nothing
  | header (name : String)
  | entry (key : String) (text : List Char)
  | fault (why : SyntaxFault)
  deriving DecidableEq

/-- What a line says that has no blanks at its ends. -/
def Line.ofTrimmed : List Char → Line
  | [] | ';' :: _ | '#' :: _ => .nothing
  | '[' :: rest =>
    if rest.getLast? = some ']' then .header (String.ofList (Text.trim rest.dropLast))
    else .fault (.unterminatedHeader (String.ofList ('[' :: rest)))
  | line =>
    if line.contains '=' then
      .entry (String.ofList (Text.trim (line.takeWhile (· != '=')))) (Text.trim ((line.dropWhile (· != '=')).drop 1))
    else .fault (.notAssignment (String.ofList line))

def classify (line : List Char) : Line := .ofTrimmed (Text.trim line)

def Line.isFault : Line → Bool
  | fault _ => true
  | _ => false

/-- The section behind a line; there is none in front of the first header. -/
def Line.next (current : Option String) : Line → Option String
  | header name => some name
  | _ => current

def sectionBehind (current : Option String) (ls : List (List Char)) : Option String :=
  ls.foldl (fun current line => (classify line).next current) current

def Line.names : Line → List String
  | header name => [name]
  | _ => []

/-- The sections that lines name. -/
def headers (ls : List (List Char)) : List String := ls.flatMap fun line => (classify line).names

theorem headers_cons (line : List Char) (ls : List (List Char)) :
    headers (line :: ls) = (classify line).names ++ headers ls := List.flatMap_cons

/-- The text that a line assigns to a key in a section, if it stands there. -/
def Line.textFor (section? : Option String) (key : String) (current : Option String) : Line → List (List Char)
  | entry k text => if current = section? ∧ k = key then [text] else []
  | _ => []

/-- The texts that lines assign to a key anywhere in a section, or in front of the first header. -/
def texts (section? : Option String) (key : String) : (current : Option String) → List (List Char) → List (List Char)
  | _, [] => []
  | current, line :: rest =>
    (classify line).textFor section? key current ++ texts section? key ((classify line).next current) rest

variable {S : Schema}

/-- **A line is read as what it says.** -/
theorem readLine_eq (offset : Nat) (line : List Char) (s : State) : readLine S offset (Text.trim line) s =
    match classify line with
    | .nothing => .ok s
    | .header name => turn S name s
    | .entry key text => s.take offset key text
    | .fault why => .error (.syntaxFault offset why) := by
  rw [classify]
  generalize Text.trim line = line
  unfold readLine Line.ofTrimmed
  split
  · rfl
  · rfl
  · rfl
  · rename_i rest
    by_cases closed : rest.getLast? = some ']'
    · simp only [if_pos closed]
    · simp only [if_neg closed]
  · by_cases equals : line.contains '=' = true
    · simp only [if_pos equals]
      rfl
    · simp only [if_neg equals]

/-!
## One field
-/

/-- The fields of a record after a text has been assigned to a key. -/
def setText (key : String) (text : List Char) (fields : List (String × Value)) :
    Except Error (List (String × Value)) :=
  Fields.update key (fun old => parse old.shape text) fields

/-- What a line does to the field of a key. -/
def Line.step (S : Schema) (key : String) (current : Option String) (v : Value) : Line → Except Error Value
  | header name => .ok (if name = key then opened S v else v)
  | entry k text =>
    match current with
    | none => if k = key then parse v.shape text else .ok v
    | some name => if name = key then updateBlock (setText k text) v else .ok v
  | _ => .ok v

/-- What lines do to the field of a key. -/
def follow (S : Schema) (key : String) : (current : Option String) → List (List Char) → Value → Except Error Value
  | _, [], v => .ok v
  | current, line :: rest, v => do
    follow S key ((classify line).next current) rest (← (classify line).step S key current v)

/-!
## Headers and sections
-/

section Sections

variable {v v' w : Value} {change : List (String × Value) → Except Error (List (String × Value))}

/-- What is open is opened as it is. -/
theorem openBlock?_of_openBlock? (h : openBlock? S v = some w) : openBlock? S w = some w := by
  cases v with
  | record name fields =>
    cases h
    rfl
  | absent content =>
    rw [openBlock?] at h
    split at h
    · cases h
      rfl
    · cases h
  | present content v =>
    cases v with
    | record name fields =>
      cases h
      rfl
    | _ => cases h
  | _ => cases h

theorem openBlock?_opened (v : Value) : openBlock? S (opened S v) = openBlock? S v := by
  unfold opened
  cases ready : openBlock? S v with
  | none => exact ready
  | some w => exact openBlock?_of_openBlock? ready

theorem opened_opened (v : Value) : opened S (opened S v) = opened S v := by
  rw [opened, openBlock?_opened]
  unfold opened
  cases openBlock? S v <;> rfl

/-- What takes lines takes lines after some. -/
theorem isSome_openBlock?_updateBlock (h : updateBlock change v = .ok v') :
    (openBlock? S v').isSome = (openBlock? S v).isSome := by
  cases v with
  | record name fields =>
    obtain ⟨fields', -, rfl⟩ := Except.map_eq_ok_iff.1 h
    rfl
  | present content w =>
    cases w with
    | record name fields =>
      obtain ⟨fields', -, rfl⟩ := Except.map_eq_ok_iff.1 h
      rfl
    | _ =>
      cases h
      rfl
  | _ =>
    cases h
    rfl

/-- What takes no lines is left as it is. -/
theorem updateBlock_of_openBlock?_eq_none (h : openBlock? S v = none) : updateBlock change v = .ok v := by
  cases v with
  | record name fields => cases h
  | present content w =>
    cases w with
    | record name fields => cases h
    | _ => rfl
  | _ => rfl

/-- Lines land in a section as long as its field takes lines. -/
theorem landing_congr {name : String} {fields fields' : List (String × Value)} (same : List.Forall₂ (fun f f' =>
      f'.1 = f.1 ∧ (openBlock? S f'.2).isSome = (openBlock? S f.2).isSome) fields fields') :
    landing S name fields' = landing S name fields := by
  have found : ((Fields.find? name fields').bind (openBlock? S)).isSome =
      ((Fields.find? name fields).bind (openBlock? S)).isSome := by
    induction same with
    | nil => rfl
    | @cons f f' rest rest' first _ ih =>
      rw [Fields.find?, Fields.find?, lookup_cons_eq_ite, lookup_cons_eq_ite, first.1]
      by_cases here : name = f.1
      · rw [if_pos here, if_pos here]
        exact first.2
      · rw [if_neg here, if_neg here]
        exact ih
  rw [landing, landing, found]

theorem landing_cases (S : Schema) (name : String) (fields : List (String × Value)) :
    landing S name fields = .block name ∨ landing S name fields = .nowhere := by
  unfold landing
  split
  · exact .inl rfl
  · exact .inr rfl

theorem openBlock?_of_landing {name : String} {fields : List (String × Value)} {f : String × Value}
    (distinct : (fields.map (·.1)).Nodup) (h : landing S name fields = .nowhere) (hf : f ∈ fields) (here : name = f.1) :
    openBlock? S f.2 = none := by
  unfold landing at h
  split at h
  · cases h
  · rename_i closed
    rw [here, Fields.find?, lookup_of_mem distinct hf] at closed
    exact Option.not_isSome_iff_eq_none.1 closed

end Sections

/-!
## All fields
-/

/-- Where lines go in a section. -/
def targetOf (S : Schema) : (current : Option String) → List (String × Value) → Target
  | none, _ => .root
  | some name, fields => landing S name fields

/-- A field after a line. -/
def Steps (S : Schema) (current : Option String) (l : Line) (f f' : String × Value) : Prop :=
  f'.1 = f.1 ∧ l.step S f.1 current f.2 = .ok f'.2

/-- A field after lines. -/
def Follows (S : Schema) (current : Option String) (ls : List (List Char)) (f f' : String × Value) : Prop :=
  f'.1 = f.1 ∧ follow S f.1 current ls f.2 = .ok f'.2

section Lines

variable {current : Option String} {s s' : State}

theorem map_eq_ok_state_iff {e : Except Error (List (String × Value))} {target : Target}
    {next : Option String} {R : String × Value → String × Value → Prop}
    (settles : ∀ fields', e = .ok fields' ↔ List.Forall₂ R s.fields fields')
    (lands : ∀ fields', List.Forall₂ R s.fields fields' → targetOf S next fields' = target) :
    (⟨·, target⟩) <$> e = .ok s' ↔ s'.target = targetOf S next s'.fields ∧ List.Forall₂ R s.fields s'.fields := by
  rw [Except.map_eq_ok_iff]
  constructor
  · rintro ⟨fields', h, rfl⟩
    have each := (settles fields').1 h
    exact ⟨(lands fields' each).symm, each⟩
  · rintro ⟨placed, each⟩
    exact ⟨s'.fields, (settles _).2 each, by rw [← lands _ each, ← placed]⟩

/-- A line that leaves every field as it is leaves the state as it is. -/
theorem ok_eq_ok_state_iff {R : String × Value → String × Value → Prop} (placed : s.target = targetOf S current s.fields)
    (still : ∀ f ∈ s.fields, ∀ f', R f f' ↔ f'.1 = f.1 ∧ f.2 = f'.2) :
    (.ok s : Except Error State) = .ok s' ↔
      s'.target = targetOf S current s'.fields ∧ List.Forall₂ R s.fields s'.fields := by
  have same {fields' : List (String × Value)} : List.Forall₂ R s.fields fields' ↔ s.fields = fields' := by
    rw [← List.forall₂_eq_eq_eq]
    constructor
    · intro each
      exact forall₂_imp_of_mem each fun f hf f' _ h =>
        Prod.ext ((still f hf f').1 h).1.symm ((still f hf f').1 h).2
    · intro each
      exact forall₂_imp_of_mem each fun f hf f' _ h => (still f hf f').2 ⟨by rw [h], by rw [h]⟩
  refine map_eq_ok_state_iff (e := .ok s.fields) (fun fields' => ?_) fun fields' each => ?_
  · rw [Except.ok.injEq, same]
  · rw [placed, same.1 each]

theorem assign_eq_ok_iff_setText {offset : Nat} {key : String} {text : List Char} {fields fields' : List (String × Value)} :
    assign offset key text fields = .ok fields' ↔ setText key text fields = .ok fields' := by
  unfold assign setText
  cases Fields.update key (fun old => parse old.shape text) fields with
  | error e => exact ⟨nofun, nofun⟩
  | ok fields => rfl

/-- An assignment does to each field what it does to it alone. -/
theorem take_eq_ok_iff {offset : Nat} {key : String} {text : List Char} (distinct : (s.fields.map (·.1)).Nodup)
    (placed : s.target = targetOf S current s.fields) : s.take offset key text = .ok s' ↔
      s'.target = targetOf S current s'.fields ∧ List.Forall₂ (Steps S current (.entry key text)) s.fields s'.fields := by
  cases current with
  | none =>
    unfold State.take
    rw [placed]
    refine map_eq_ok_state_iff (fun fields' => ?_) fun _ _ => rfl
    rw [assign_eq_ok_iff_setText, setText, Fields.update_eq_ok_iff distinct]
    refine forall₂_congr_iff fun f f' => and_congr_right' ?_
    rw [Line.step]
    by_cases here : key = f.1
    · simp only [if_pos here, if_pos here.symm]
    · rw [if_neg (Ne.symm here), if_neg here, Except.ok.injEq, eq_comm]
  | some name =>
    rw [targetOf] at placed
    unfold State.take
    obtain lands | lands := landing_cases S name s.fields
    · rw [placed, lands]
      refine map_eq_ok_state_iff (fun fields' => ?_) fun fields' each => lands ▸ landing_congr ?_
      · rw [Fields.update_eq_ok_iff distinct]
        refine forall₂_congr_iff fun f f' => and_congr_right' ?_
        rw [Line.step]
        by_cases here : name = f.1
        · simp only [if_pos here, if_pos here.symm]
          exact updateBlock_eq_ok_congr (fun _ _ => assign_eq_ok_iff_setText) _ _
        · rw [if_neg (Ne.symm here), if_neg here, Except.ok.injEq, eq_comm]
      · refine each.imp fun f f' h => ⟨h.1, ?_⟩
        have becomes := h.2
        simp only [Line.step] at becomes
        split at becomes
        · exact isSome_openBlock?_updateBlock becomes
        · rw [Except.ok.inj becomes]
    · rw [placed, lands]
      refine ok_eq_ok_state_iff placed fun f hf f' => and_congr_right' ?_
      rw [Line.step]
      by_cases here : name = f.1
      · simp only [if_pos here, updateBlock_of_openBlock?_eq_none (openBlock?_of_landing distinct lands hf here),
          Except.ok.injEq]
      · simp only [if_neg here, Except.ok.injEq]

/-- **A line does to each field what it does to it alone.** -/
theorem readLine_eq_ok_iff {offset : Nat} {line : List Char} (distinct : (s.fields.map (·.1)).Nodup)
    (placed : s.target = targetOf S current s.fields) :
    readLine S offset (Text.trim line) s = .ok s' ↔ (classify line).isFault = false ∧
      s'.target = targetOf S ((classify line).next current) s'.fields ∧
      List.Forall₂ (Steps S current (classify line)) s.fields s'.fields := by
  rw [readLine_eq]
  cases classify line with
  | fault why => exact ⟨nofun, nofun⟩
  | nothing =>
    refine Iff.trans ?_ (and_iff_right rfl).symm
    exact ok_eq_ok_state_iff placed fun f _ f' => and_congr_right' (Except.ok.injEq ..).to_iff
  | header name =>
    refine Iff.trans ?_ (and_iff_right rfl).symm
    simp only [turn_eq]
    refine map_eq_ok_state_iff (fun fields' => ?_) fun fields' each => landing_congr ?_
    · rw [Fields.update_eq_ok_iff distinct]
      refine forall₂_congr_iff fun f f' => and_congr_right' ?_
      rw [Line.step]
      by_cases here : f.1 = name
      · rw [if_pos here, if_pos here.symm]
      · rw [if_neg here, if_neg (Ne.symm here), Except.ok.injEq, eq_comm]
    · refine each.imp fun f f' h => ⟨h.1, ?_⟩
      rw [← Except.ok.inj h.2]
      split
      · rw [openBlock?_opened]
      · rfl
  | entry key text =>
    refine Iff.trans ?_ (and_iff_right rfl).symm
    exact take_eq_ok_iff distinct placed

/-- **Lines do to each field what they do to it alone**, and they can be read if none of them is at fault. -/
theorem readLines_eq_ok_iff : ∀ {ls : List (List Char)} {offset : Nat} {current : Option String} {s s' : State},
    (s.fields.map (·.1)).Nodup → s.target = targetOf S current s.fields →
      (readLines S offset ls s = .ok s' ↔ (∀ line ∈ ls, (classify line).isFault = false) ∧
        s'.target = targetOf S (sectionBehind current ls) s'.fields ∧
        List.Forall₂ (Follows S current ls) s.fields s'.fields)
  | [], offset, current, s, s', _, placed => by
    rw [readLines, and_iff_right (List.forall_mem_nil _)]
    exact ok_eq_ok_state_iff placed fun f _ f' => and_congr_right' (Except.ok.injEq ..).to_iff
  | line :: ls, offset, current, s, s', distinct, placed => by
    have both (f f') : Follows S current (line :: ls) f f' ↔ ∃ g, Steps S current (classify line) f g ∧
        Follows S ((classify line).next current) ls g f' := by
      rw [Follows, follow, Except.bind_eq_ok_iff]
      constructor
      · rintro ⟨key, v, first, rest⟩
        exact ⟨(f.1, v), ⟨rfl, first⟩, key, rest⟩
      · rintro ⟨g, ⟨key, first⟩, key', rest⟩
        exact ⟨key'.trans key, g.2, first, key ▸ rest⟩
    rw [readLines, Except.bind_eq_ok_iff, List.forall_mem_cons]
    constructor
    · rintro ⟨m, first, rest⟩
      obtain ⟨sound, landed, each⟩ := (readLine_eq_ok_iff distinct placed).1 first
      have keys : m.fields.map (·.1) = s.fields.map (·.1) := Fields.keys_of_forall₂ (fun _ _ h => h.1) each
      obtain ⟨sound', landed', each'⟩ := (readLines_eq_ok_iff (keys ▸ distinct) landed).1 rest
      exact ⟨⟨sound, sound'⟩, landed', Fields.forall₂_trans (fun f g f' h h' => (both f f').2 ⟨g, h, h'⟩) each each'⟩
    · rintro ⟨⟨sound, sound'⟩, landed', each⟩
      obtain ⟨next, first, rest⟩ := exists_between (each.imp fun f f' h => (both f f').1 h)
      have keys : next.map (·.1) = s.fields.map (·.1) := Fields.keys_of_forall₂ (fun _ _ h => h.1) first
      refine ⟨⟨next, targetOf S ((classify line).next current) next⟩, ?_, ?_⟩
      · exact (readLine_eq_ok_iff distinct placed).2 ⟨sound, rfl, first⟩
      · exact (readLines_eq_ok_iff (keys ▸ distinct) rfl).2 ⟨sound', landed', rest⟩

end Lines

end Settings
end AssetRecords
