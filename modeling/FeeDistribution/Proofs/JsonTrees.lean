import FeeDistribution.Proofs.JsonText

/-!
# Trees are read as they are written

A tree without fractions, all of whose strings have a text, is read back from its own text
(`parse?_compact`).  Arrays and objects nest, so the three readers and the three writers are followed
together; what they are given to read is longer than half their bound, and each of them leaves
enough of the bound to the next (`readValue_render`).
-/

namespace FeeDistribution.Json

mutual

/-- Whether a tree has no fraction or exponent and every string in it has a text. -/
def Plain : Json → Prop
  | decimal _ => False
  | str text => text.isSome
  | arr items => PlainItems items
  | obj members => PlainMembers members
  | _ => True

/-- Whether every item of an array is plain. -/
def PlainItems : List Json → Prop
  | [] => True
  | item :: rest => item.Plain ∧ PlainItems rest

/-- Whether every member of an object has a name and is plain. -/
def PlainMembers : List (Option String × Json) → Prop
  | [] => True
  | (name, value) :: rest => name.isSome ∧ value.Plain ∧ PlainMembers rest

end

variable {json : Json} {rest : List Char}

/-! ## Where a value begins -/

/-- Space is passed over, and an array of items does not begin with the bracket that ends it. -/
def Opens (c : Char) : Prop :=
  isBlank c = false ∧ c ≠ ']'

theorem ne_of_isDigit {c : Char} (other : Char) (hc : c.isDigit) (hother : other.isDigit = false) :
    c ≠ other := by
  rintro rfl
  rw [hc] at hother
  cases hother

theorem opens_of_isDigit {c : Char} (hc : c.isDigit) : Opens c := by
  refine ⟨?_, ne_of_isDigit ']' hc rfl⟩
  simp [isBlank, ne_of_isDigit ' ' hc rfl, ne_of_isDigit '\t' hc rfl,
    ne_of_isDigit '\n' hc rfl, ne_of_isDigit '\r' hc rfl]

theorem renderNat_eq_cons (n : Nat) : ∃ c digits, renderNat n = c :: digits ∧ c.isDigit := by
  obtain ⟨c, digits, hdigits⟩ := List.exists_cons_of_ne_nil (l := renderNat n) Nat.toDigits_ne_nil
  exact ⟨c, digits, hdigits, isDigit_of_mem_renderNat (hdigits ▸ List.mem_cons_self)⟩

theorem render_eq_cons (hplain : json.Plain) :
    ∃ c text, json.render = c :: text ∧ Opens c := by
  cases json with
  | null => exact ⟨'n', _, by rw [render], rfl, by decide⟩
  | bool value => cases value <;> exact ⟨_, _, by rw [render], rfl, by decide⟩
  | int negative magnitude =>
      cases negative with
      | true => exact ⟨'-', _, by rw [render]; rfl, rfl, by decide⟩
      | false =>
          obtain ⟨c, digits, hdigits, hc⟩ := renderNat_eq_cons magnitude
          exact ⟨c, digits, by rw [render]; exact hdigits, opens_of_isDigit hc⟩
  | decimal number => exact hplain.elim
  | str text =>
      cases text with
      | none => cases hplain
      | some text => exact ⟨'"', _, by rw [render]; rfl, rfl, by decide⟩
  | arr items => cases items <;> exact ⟨'[', _, by rw [render], rfl, by decide⟩
  | obj members => cases members <;> exact ⟨'{', _, by rw [render], rfl, by decide⟩

theorem skipBlanks_cons (rest : List Char) {c : Char} (hc : isBlank c = false) :
    skipBlanks (c :: rest) = c :: rest :=
  List.dropWhile_cons_of_neg (by simp [hc])

/-! ## One step of each reader -/

theorem readValue_digit {c : Char} (hc : c.isDigit) (fuel : Nat) :
    readValue (fuel + 1) (c :: rest) = readMagnitude false (c :: rest) := by
  rw [readValue, skipBlanks_cons _ (opens_of_isDigit hc).1]
  split <;> rename_i heq
  any_goals exact absurd (List.head_eq_of_cons_eq heq) (ne_of_isDigit _ hc rfl)
  · cases heq
  · rfl

theorem readValue_bracket {c : Char} (hc : Opens c) (fuel : Nat) :
    readValue (fuel + 1) ('[' :: c :: rest) =
      (readItems fuel (c :: rest)).map fun (items, rest) => (.arr items, rest) := by
  have hskip := skipBlanks_cons rest hc.1
  rw [readValue, skipBlanks_cons (c := '[') _ rfl]
  simp only [hskip]
  split
  · rename_i heq
    cases heq
    exact absurd rfl hc.2
  · cases readItems fuel (c :: rest) <;> rfl

theorem readValue_brace (fuel : Nat) :
    readValue (fuel + 1) ('{' :: '"' :: rest) =
      (readMembers fuel ('"' :: rest)).map fun (members, rest) => (.obj members, rest) := by
  have hskip := skipBlanks_cons (c := '"') rest rfl
  rw [readValue, skipBlanks_cons (c := '{') _ rfl]
  simp only [hskip]
  split
  · rename_i heq
    cases heq
  · cases readMembers fuel ('"' :: rest) <;> rfl

theorem readItems_of_readValue {text : List Char} {fuel : Nat} {item : Json}
    (hitem : readValue fuel text = some (item, rest)) :
    (∀ tail, rest = ']' :: tail → readItems (fuel + 1) text = some ([item], tail)) ∧
      ∀ tail, rest = ',' :: tail → readItems (fuel + 1) text =
        (readItems fuel tail).map fun (items, rest) => (item :: items, rest) := by
  constructor
  · rintro tail rfl
    simp only [readItems, hitem]
    rfl
  · rintro tail rfl
    simp only [readItems, hitem]
    show (readItems fuel tail).bind _ = _
    cases readItems fuel tail <;> rfl

theorem readMembers_of_readValue {text after : List Char} {fuel : Nat} {name : String}
    {value : Json} (hname : readString text = some (some name, ':' :: after))
    (hvalue : readValue fuel after = some (value, rest)) :
    (∀ tail, rest = '}' :: tail →
      readMembers (fuel + 1) ('"' :: text) = some ([(some name, value)], tail)) ∧
      ∀ tail, rest = ',' :: tail → readMembers (fuel + 1) ('"' :: text) =
        (readMembers fuel tail).map fun (members, rest) =>
          ((some name, value) :: members, rest) := by
  have hquote := skipBlanks_cons (c := '"') text rfl
  constructor
  · rintro tail rfl
    simp only [readMembers, hquote, hname]
    show Option.bind (readValue fuel after) _ = _
    rw [hvalue]
    rfl
  · rintro tail rfl
    simp only [readMembers, hquote, hname]
    show Option.bind (readValue fuel after) _ = _
    rw [hvalue]
    show (readMembers fuel tail).bind _ = _
    cases readMembers fuel tail <;> rfl

/-! ## Whole trees -/

/-- The text of the items of an array, with the bracket that ends it. -/
def itemsText : List Json → List Char
  | [] => []
  | item :: items => item.render ++ renderItems items

/-- The text of the members of an object, with the brace that ends it. -/
def membersText : List (Option String × Json) → List Char
  | [] => []
  | (name, value) :: members => renderText name ++ ':' :: (value.render ++ renderMembers members)

theorem delimited_renderItems (items : List Json) : Delimited (renderItems items ++ rest) := by
  cases items <;> rw [renderItems] <;> exact delimited_cons (by simp)

theorem delimited_renderMembers (members : List (Option String × Json)) :
    Delimited (renderMembers members ++ rest) := by
  cases members <;> rw [renderMembers] <;> exact delimited_cons (by simp)

theorem renderText_append (text : String) :
    renderText (some text) ++ rest = '"' :: (text.toList.flatMap escape ++ '"' :: rest) := by
  simp [renderText]

theorem length_renderItems_cons (item : Json) (items : List Json) :
    (renderItems (item :: items)).length = (itemsText (item :: items)).length + 1 := by
  rw [renderItems, itemsText, List.length_cons]

theorem length_renderMembers_cons (member : Option String × Json)
    (members : List (Option String × Json)) :
    (renderMembers (member :: members)).length = (membersText (member :: members)).length + 1 := by
  rw [renderMembers, membersText, List.length_cons]

theorem render_length_pos (hplain : json.Plain) : 0 < json.render.length := by
  obtain ⟨c, text, htext, _⟩ := render_eq_cons hplain
  rw [htext]
  exact Nat.succ_pos _

-- The recursion follows the trees.  Every call leaves a character of its text to its caller, so
-- twice the length of what is left to read never exceeds what is left of the bound.
mutual

theorem readValue_render : ∀ (json : Json) (fuel : Nat) (rest : List Char), json.Plain →
    2 * json.render.length ≤ fuel → Delimited rest →
    readValue fuel (json.render ++ rest) = some (json, rest)
  | json, 0, _, hplain, hfuel, _ => by
    have hpositive := render_length_pos hplain
    omega
  | null, fuel + 1, rest, _, _, _ => by rw [render]; rfl
  | bool true, fuel + 1, rest, _, _, _ => by rw [render]; rfl
  | bool false, fuel + 1, rest, _, _, _ => by rw [render]; rfl
  | int true magnitude, fuel + 1, rest, _, _, hrest => by
    rw [render]
    exact readMagnitude_renderNat true magnitude hrest
  | int false magnitude, fuel + 1, rest, _, _, hrest => by
    obtain ⟨c, digits, hdigits, hc⟩ := renderNat_eq_cons magnitude
    have hread := readMagnitude_renderNat false magnitude hrest
    have htext : (int false magnitude).render = renderNat magnitude := by rw [render]; rfl
    rw [htext]
    rw [hdigits] at hread ⊢
    exact (readValue_digit hc fuel).trans hread
  | decimal _, _, _, hplain, _, _ => hplain.elim
  | str none, _, _, hplain, _, _ => nomatch hplain
  | str (some text), fuel + 1, rest, _, _, _ => by
    rw [render, renderText_append, readValue, skipBlanks_cons (c := '"') _ rfl]
    simp only [readString_renderText]
    rfl
  | arr [], fuel + 1, rest, _, _, _ => by rw [render]; rfl
  | arr (item :: items), fuel + 1, rest, hplain, hfuel, _ => by
    rw [render, List.length_cons] at hfuel
    have hread := readItems_render (item :: items) fuel rest (by simp) hplain
      (by rw [itemsText]; omega)
    obtain ⟨c, text, htext, hc⟩ := render_eq_cons hplain.1
    rw [itemsText, htext, List.cons_append, List.cons_append] at hread
    rw [render, htext, List.cons_append, List.cons_append, List.cons_append, readValue_bracket hc,
      hread]
    rfl
  | obj [], fuel + 1, rest, _, _, _ => by rw [render]; rfl
  | obj (member :: members), fuel + 1, rest, hplain, hfuel, _ => by
    obtain ⟨_ | name, value⟩ := member
    · nomatch hplain.1
    · have hread := readMembers_render ((some name, value) :: members) fuel rest (by simp) hplain
        (by rw [render, List.length_cons] at hfuel; rw [membersText]; omega)
      rw [membersText, List.append_assoc, renderText_append] at hread
      rw [render, List.cons_append, List.append_assoc, renderText_append, readValue_brace, hread]
      rfl

theorem readItems_render : ∀ (items : List Json) (fuel : Nat) (rest : List Char), items ≠ [] →
    PlainItems items → 2 * (itemsText items).length ≤ fuel →
    readItems fuel (itemsText items ++ rest) = some (items, rest)
  | [], _, _, hsome, _, _ => absurd rfl hsome
  | item :: items, 0, _, _, hplain, hfuel => by
    have hpositive := render_length_pos hplain.1
    rw [itemsText, List.length_append] at hfuel
    omega
  | item :: items, fuel + 1, rest, _, hplain, hfuel => by
    have hpositive := render_length_pos hplain.1
    rw [itemsText, List.length_append] at hfuel
    have hitem := readValue_render item fuel (renderItems items ++ rest) hplain.1 (by
      cases items <;> simp [renderItems] at hfuel <;> omega) (delimited_renderItems items)
    obtain ⟨hlast, hmore⟩ := readItems_of_readValue hitem
    rw [itemsText, List.append_assoc]
    cases items with
    | nil => exact hlast rest rfl
    | cons next items =>
        rw [length_renderItems_cons] at hfuel
        rw [hmore (itemsText (next :: items) ++ rest) rfl,
          readItems_render (next :: items) fuel rest (by simp) hplain.2 (by omega)]
        rfl

theorem readMembers_render : ∀ (members : List (Option String × Json)) (fuel : Nat)
    (rest : List Char), members ≠ [] → PlainMembers members →
    2 * (membersText members).length ≤ fuel →
    readMembers fuel (membersText members ++ rest) = some (members, rest)
  | [], _, _, hsome, _, _ => absurd rfl hsome
  | (none, value) :: members, _, _, _, hplain, _ => nomatch hplain.1
  | (some name, value) :: members, 0, _, _, hplain, hfuel => by
    have hpositive := render_length_pos hplain.2.1
    rw [membersText, List.length_append, List.length_cons] at hfuel
    omega
  | (some name, value) :: members, fuel + 1, rest, _, hplain, hfuel => by
    rw [membersText, List.length_append, List.length_cons, List.length_append] at hfuel
    have hvalue := readValue_render value fuel (renderMembers members ++ rest) hplain.2.1 (by omega)
      (delimited_renderMembers members)
    have hname := readString_renderText name
      (':' :: (value.render ++ (renderMembers members ++ rest)))
    obtain ⟨hlast, hmore⟩ := readMembers_of_readValue hname hvalue
    rw [membersText, List.append_assoc, List.cons_append, List.append_assoc, renderText_append]
    cases members with
    | nil => exact hlast rest rfl
    | cons next members =>
        rw [length_renderMembers_cons] at hfuel
        rw [hmore (membersText (next :: members) ++ rest) rfl,
          readMembers_render (next :: members) fuel rest (by simp) hplain.2.2 (by omega)]
        rfl

end

/-- A plain tree is read back from its text. -/
theorem parse?_compact (hplain : json.Plain) : parse? json.compact = some json := by
  have hread := readValue_render json (2 * json.render.length + 2) [] hplain (by omega)
    delimited_nil
  rw [List.append_nil] at hread
  simp only [parse?, compact, String.toList_ofList, hread]
  rfl

end FeeDistribution.Json
