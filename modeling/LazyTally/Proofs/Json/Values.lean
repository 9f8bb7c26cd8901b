import LazyTally.Proofs.Json.Tokens

/-!
# Reading values

The reader reads what the grammar derives and nothing else.  Each call of it is worth half a
character: an item with its mark has two characters at least, and it costs one call for the item and
one for the value in it, so twice the length of the text is fuel enough.

## Main results

* `Reader.value_append`, `Reader.exists_value` — the values that are read are those of the grammar.
* `parse?_eq_some_iff` — a text is parsed to a value if and only if it denotes the value.
-/

namespace LazyTally.Json

namespace Grammar

/-- A value begins with neither a blank nor a closing bracket. -/
theorem Value.exists_head {chars : List Char} {json : Json} (h : Value chars json) :
    ∃ c rest, chars = c :: rest ∧ c ∉ spaces ∧ c ≠ ']' := by
  cases h with
  | number hliteral =>
    obtain ⟨c, rest, rfl, hc⟩ := hliteral.exists_head
    refine ⟨c, rest, rfl, notMem_spaces hc, ?_⟩
    rintro rfl
    exact absurd hc (by decide)
  | string hquoted =>
    cases hquoted with
    | mk hbody => exact ⟨'"', _, rfl, by decide, by decide⟩
  | null | true | false | noItems | array | noMembers | object =>
    exact ⟨_, _, rfl, by decide, by decide⟩

/-- The items of an array begin, after blanks, with something else than a closing bracket. -/
theorem Items.exists_head {chars : List Char} {found : List Json} (h : Items chars found)
    (rest : List Char) : ∃ c others, Reader.skipBlanks (chars ++ rest) = c :: others ∧ c ≠ ']' := by
  obtain ⟨item, tail, rfl, hitem⟩ : ∃ item tail, chars = item ++ tail ∧
      ∃ json, Padded item json := by
    cases h with
    | last hitem => exact ⟨_, _, rfl, _, hitem⟩
    | more hitem _ => exact ⟨_, _, rfl, _, hitem⟩
  obtain ⟨json, hbefore, hvalue, hafter⟩ := hitem
  obtain ⟨c, others, rfl, hblank, hbracket⟩ := hvalue.exists_head
  rw [List.append_assoc, List.append_assoc, Reader.skipBlanks_append hbefore, List.append_assoc,
    List.cons_append, Reader.skipBlanks_cons hblank]
  exact ⟨c, _, rfl, hbracket⟩

/-- The members of an object begin, after blanks, with a quote. -/
theorem Members.exists_head {chars : List Char} {found : List (Option String × Json)}
    (h : Members chars found) (rest : List Char) :
    ∃ others, Reader.skipBlanks (chars ++ rest) = '"' :: others := by
  obtain ⟨front, tail, rfl, hname⟩ : ∃ front tail, chars = front ++ tail ∧
      ∃ name, Name front name := by
    cases h with
    | last hname _ => exact ⟨_, _, rfl, _, hname⟩
    | more hname _ _ => exact ⟨_, _, rfl, _, hname⟩
  obtain ⟨name, hbefore, ⟨hbody⟩, hafter⟩ := hname
  rw [List.append_assoc, List.append_assoc, Reader.skipBlanks_append hbefore, List.append_assoc,
    List.cons_append, Reader.skipBlanks_cons (by decide)]
  exact ⟨_, rfl⟩

end Grammar

namespace Reader

open Grammar

/-! ### What is read is the same after blanks -/

theorem value_skipBlanks (fuel : Nat) (ahead : List Char) :
    value fuel (skipBlanks ahead) = value fuel ahead := by
  cases fuel with
  | zero => rfl
  | succ fuel => rw [value, value, skipBlanks_skipBlanks]

theorem items_skipBlanks (fuel : Nat) (ahead : List Char) :
    items fuel (skipBlanks ahead) = items fuel ahead := by
  cases fuel with
  | zero => rfl
  | succ fuel => rw [items, items, value_skipBlanks]

theorem members_skipBlanks (fuel : Nat) (ahead : List Char) :
    members fuel (skipBlanks ahead) = members fuel ahead := by
  cases fuel with
  | zero => rfl
  | succ fuel => rw [members, members, skipBlanks_skipBlanks]

theorem value_blank_append {blanks : List Char} (h : Blank blanks) (fuel : Nat)
    (ahead : List Char) : value fuel (blanks ++ ahead) = value fuel ahead := by
  rw [← value_skipBlanks, skipBlanks_append h, value_skipBlanks]

/-! ### The values of the grammar are read -/

/-- A digit or a minus sign is read as the beginning of a number. -/
theorem value_of_number {c : Char} (h : c.isDigit ∨ c = '-') (fuel : Nat) (rest : List Char) :
    value (fuel + 1) (c :: rest)
      = (numberLiteral (c :: rest)).bind fun found => some (.number found.1, found.2) := by
  rw [value, skipBlanks_cons (notMem_spaces h)]
  split <;> first | rfl | (next heq => rw [(List.cons.inj heq).1] at h; exact absurd h (by decide))

/-- A bracket with something else than the closing one after it opens an array with items. -/
theorem value_of_bracket {ahead others : List Char} {c : Char}
    (h : skipBlanks ahead = c :: others) (hc : c ≠ ']') (fuel : Nat) :
    value (fuel + 1) ('[' :: ahead)
      = (items fuel ahead).bind fun found => some (.array found.1, found.2) := by
  rw [← items_skipBlanks, h, value, skipBlanks_cons (by decide)]
  simp only [h]
  split
  · next heq => exact absurd (List.cons.inj heq).1 hc
  · rfl

/-- A brace with a quote after it opens an object with members. -/
theorem value_of_brace {ahead others : List Char} (h : skipBlanks ahead = '"' :: others)
    (fuel : Nat) :
    value (fuel + 1) ('{' :: ahead)
      = (members fuel ahead).bind fun found => some (.object found.1, found.2) := by
  rw [← members_skipBlanks, h, value, skipBlanks_cons (by decide)]
  simp only [h]
  rfl

/-- A member and the closing brace. -/
theorem members_of_last {front after ahead rest : List Char} {name : Option String} {item : Json}
    {fuel : Nat} (hname : Name front name) (hafter : Blank after)
    (hread : value fuel ahead = some (item, after ++ '}' :: rest)) :
    members (fuel + 1) (front ++ ':' :: ahead) = some ([(name, item)], rest) := by
  obtain ⟨hbefore, ⟨hbody⟩, hbehind⟩ := hname
  rw [List.append_assoc, List.append_assoc, members, skipBlanks_append hbefore, List.cons_append,
    skipBlanks_cons (by decide)]
  simp only [stringBody_append (.mk hbody), Option.bind_eq_bind, Option.bind_some,
    skipBlanks_to hbehind (c := ':') (by decide), hread,
    skipBlanks_to hafter (c := '}') (by decide)]

/-- A member, a comma and further members. -/
theorem members_of_more {front after ahead rest tail : List Char} {name : Option String}
    {item : Json} {found : List (Option String × Json)} {fuel : Nat} (hname : Name front name)
    (hafter : Blank after) (hread : value fuel ahead = some (item, after ++ ',' :: rest))
    (hrest : members fuel rest = some (found, tail)) :
    members (fuel + 1) (front ++ ':' :: ahead) = some ((name, item) :: found, tail) := by
  obtain ⟨hbefore, ⟨hbody⟩, hbehind⟩ := hname
  rw [List.append_assoc, List.append_assoc, members, skipBlanks_append hbefore, List.cons_append,
    skipBlanks_cons (by decide)]
  simp only [stringBody_append (.mk hbody), Option.bind_eq_bind, Option.bind_some, hread, hrest,
    skipBlanks_to hbehind (c := ':') (by decide), skipBlanks_to hafter (c := ',') (by decide)]

-- The recursion is along the derivation: what is inside has at least one character less, which is
-- worth the call for the value and the call for the item that holds it.
mutual

/-- With fuel for its characters, a value is read and the rest is given back. -/
theorem value_append {chars : List Char} {json : Json} (h : Value chars json) (fuel : Nat)
    (hfuel : 2 * chars.length ≤ fuel) {rest : List Char} (hrest : Stops rest) :
    value fuel (chars ++ rest) = some (json, rest) := by
  obtain ⟨c, others, hchars, -, -⟩ := h.exists_head
  -- a value has at least one character, so there is fuel for one call
  obtain ⟨fuel, rfl⟩ : ∃ less, fuel = less + 1 :=
    Nat.exists_eq_succ_of_ne_zero (by rw [hchars, List.length_cons] at hfuel; omega)
  cases h with
  | null => rfl
  | true => rfl
  | false => rfl
  | number hliteral =>
    obtain ⟨c, others, rfl, hc⟩ := hliteral.exists_head
    rw [List.cons_append, value_of_number hc, ← List.cons_append,
      numberLiteral_append hliteral hrest]
    rfl
  | string hquoted =>
    obtain ⟨hbody⟩ := hquoted
    rw [List.cons_append, value, skipBlanks_cons (by decide)]
    show (stringBody _ >>= _) = _
    rw [stringBody_append (.mk hbody)]
    rfl
  | noItems hblank =>
    rw [List.cons_append, value, skipBlanks_cons (by decide)]
    simp only [List.append_assoc, skipBlanks_append hblank]
    rfl
  | array hitems =>
    obtain ⟨c, others, hhead, hc⟩ := hitems.exists_head rest
    -- the bracket pays for the call of the value, and the items for their own
    rw [List.length_cons] at hfuel
    rw [List.cons_append, value_of_bracket hhead hc, items_append hitems fuel (by omega)]
    rfl
  | noMembers hblank =>
    rw [List.cons_append, value, skipBlanks_cons (by decide)]
    simp only [List.append_assoc, skipBlanks_append hblank]
    rfl
  | object hmembers =>
    obtain ⟨others, hhead⟩ := hmembers.exists_head rest
    rw [List.length_cons] at hfuel
    rw [List.cons_append, value_of_brace hhead, members_append hmembers fuel (by omega)]
    rfl

/-- The blanks before a value are skipped, and those after it are given back. -/
theorem padded_append {chars : List Char} {json : Json} (h : Padded chars json) (fuel : Nat)
    (hfuel : 2 * chars.length ≤ fuel) {rest : List Char} (hrest : Stops rest) :
    ∃ after, Blank after ∧ value fuel (chars ++ rest) = some (json, after ++ rest) := by
  cases h with
  | mk hbefore hvalue hafter =>
    simp only [List.length_append] at hfuel
    refine ⟨_, hafter, ?_⟩
    rw [List.append_assoc, List.append_assoc, value_blank_append hbefore,
      value_append hvalue fuel (by omega) (hafter.stops_append hrest)]

/-- The items of an array are read up to the closing bracket. -/
theorem items_append {chars : List Char} {found : List Json} (h : Items chars found) (fuel : Nat)
    (hfuel : 2 * chars.length ≤ fuel) {rest : List Char} :
    items fuel (chars ++ rest) = some (found, rest) := by
  cases h with
  | last hitem =>
    simp only [List.length_append, List.length_cons] at hfuel
    obtain ⟨fuel, rfl⟩ : ∃ less, fuel = less + 1 := Nat.exists_eq_succ_of_ne_zero (by omega)
    -- the item ends before its bracket, which no value goes on with
    obtain ⟨after, hafter, hread⟩ := padded_append hitem fuel (by omega)
      (stops_cons (c := ']') (by decide) rest)
    rw [List.append_assoc, List.singleton_append, items, hread]
    simp only [Option.bind_eq_bind, Option.bind_some, skipBlanks_to hafter (c := ']') (by decide)]
  | more hitem hrest =>
    simp only [List.length_append, List.length_cons] at hfuel
    obtain ⟨fuel, rfl⟩ : ∃ less, fuel = less + 1 := Nat.exists_eq_succ_of_ne_zero (by omega)
    obtain ⟨after, hafter, hread⟩ := padded_append hitem fuel (by omega)
      (stops_cons (c := ',') (by decide) _)
    rw [List.append_assoc, List.cons_append, items, hread]
    simp only [Option.bind_eq_bind, Option.bind_some, skipBlanks_to hafter (c := ',') (by decide),
      items_append hrest fuel (by omega)]

/-- The members of an object are read up to the closing brace. -/
theorem members_append {chars : List Char} {found : List (Option String × Json)}
    (h : Members chars found) (fuel : Nat) (hfuel : 2 * chars.length ≤ fuel) {rest : List Char} :
    members fuel (chars ++ rest) = some (found, rest) := by
  cases h with
  | last hname hitem =>
    simp only [List.length_append, List.length_cons] at hfuel
    obtain ⟨fuel, rfl⟩ : ∃ less, fuel = less + 1 := Nat.exists_eq_succ_of_ne_zero (by omega)
    obtain ⟨after, hafter, hread⟩ := padded_append hitem fuel (by omega)
      (stops_cons (c := '}') (by decide) rest)
    rw [List.append_assoc, List.cons_append, List.append_assoc, List.singleton_append,
      members_of_last hname hafter hread]
  | more hname hitem hrest =>
    simp only [List.length_append, List.length_cons] at hfuel
    obtain ⟨fuel, rfl⟩ : ∃ less, fuel = less + 1 := Nat.exists_eq_succ_of_ne_zero (by omega)
    obtain ⟨after, hafter, hread⟩ := padded_append hitem fuel (by omega)
      (stops_cons (c := ',') (by decide) _)
    rw [List.append_assoc, List.cons_append, List.append_assoc, List.cons_append,
      members_of_more hname hafter hread (members_append hrest fuel (by omega))]

end

/-! ### What is read is a value of the grammar -/

/-- A value and the blanks after it, which are skipped next. -/
theorem exists_padded {ahead rest : List Char} {json : Json}
    (h : ∃ before chars, Blank before ∧ Value chars json ∧ ahead = before ++ (chars ++ rest)) :
    ∃ chars, Padded chars json ∧ ahead = chars ++ skipBlanks rest := by
  obtain ⟨before, chars, hbefore, hvalue, hahead⟩ := h
  obtain ⟨after, hafter, hrest⟩ := exists_blank rest
  refine ⟨_, .mk hbefore hvalue hafter, hahead.trans ?_⟩
  rw [List.append_assoc, List.append_assoc, ← hrest]

/-- What is read as a name is one, and the blanks after it are skipped next. -/
theorem exists_name {ahead inside rest : List Char} {name : Option String}
    (hquote : skipBlanks ahead = '"' :: inside) (h : stringBody inside = some (name, rest)) :
    ∃ front, Name front name ∧ ahead = front ++ skipBlanks rest := by
  obtain ⟨before, hbefore, hahead⟩ := exists_blank ahead
  obtain ⟨chars, hquoted, hinside⟩ := exists_quoted h
  obtain ⟨after, hafter, hrest⟩ := exists_blank rest
  refine ⟨_, .mk hbefore hquoted hafter, hahead.trans ?_⟩
  rw [hquote, hinside, List.append_assoc, List.append_assoc, ← hrest, List.cons_append]

-- The recursion is on the fuel, as in the reader.
mutual

/-- What is read as a value is one, after blanks. -/
theorem exists_value : {fuel : Nat} → {ahead rest : List Char} → {json : Json} →
    value fuel ahead = some (json, rest) →
    ∃ before chars, Blank before ∧ Value chars json ∧ ahead = before ++ (chars ++ rest)
  | 0, _, _, _, h => nomatch h
  | fuel + 1, ahead, rest, json, h => by
    -- blanks are dropped first, so only what is behind them has to be spelled
    obtain ⟨before, hbefore, hahead⟩ := exists_blank ahead
    suffices hchars : ∃ chars, Value chars json ∧ skipBlanks ahead = chars ++ rest by
      obtain ⟨chars, hvalue, heq⟩ := hchars
      exact ⟨before, chars, hbefore, hvalue, heq ▸ hahead⟩
    unfold value at h
    split at h
    · next heq =>
      obtain ⟨rfl, rfl⟩ := Prod.mk.inj (Option.some.inj h)
      exact ⟨_, .null, heq⟩
    · next heq =>
      obtain ⟨rfl, rfl⟩ := Prod.mk.inj (Option.some.inj h)
      exact ⟨_, .true, heq⟩
    · next heq =>
      obtain ⟨rfl, rfl⟩ := Prod.mk.inj (Option.some.inj h)
      exact ⟨_, .false, heq⟩
    · next heq =>
      obtain ⟨text, hread, rfl⟩ := exists_of_bind h
      obtain ⟨chars, hquoted, rfl⟩ := exists_quoted hread
      exact ⟨_, .string hquoted, heq⟩
    · -- an array, empty or not
      next inside heq =>
      obtain ⟨blanks, hblanks, hinside⟩ := exists_blank inside
      split at h
      · next hclose =>
        obtain ⟨rfl, rfl⟩ := Prod.mk.inj (Option.some.inj h)
        refine ⟨_, .noItems hblanks, heq.trans ?_⟩
        rw [List.cons_append, List.append_assoc, List.singleton_append, ← hclose, ← hinside]
      · rw [items_skipBlanks] at h
        obtain ⟨found, hread, rfl⟩ := exists_of_bind h
        obtain ⟨chars, hitems, rfl⟩ := exists_items hread
        exact ⟨_, .array hitems, heq⟩
    · -- an object, empty or not
      next inside heq =>
      obtain ⟨blanks, hblanks, hinside⟩ := exists_blank inside
      split at h
      · next hclose =>
        obtain ⟨rfl, rfl⟩ := Prod.mk.inj (Option.some.inj h)
        refine ⟨_, .noMembers hblanks, heq.trans ?_⟩
        rw [List.cons_append, List.append_assoc, List.singleton_append, ← hclose, ← hinside]
      · rw [members_skipBlanks] at h
        obtain ⟨found, hread, rfl⟩ := exists_of_bind h
        obtain ⟨chars, hmembers, rfl⟩ := exists_members hread
        exact ⟨_, .object hmembers, heq⟩
    · -- any other character begins a number, if anything
      obtain ⟨literal, hread, rfl⟩ := exists_of_bind h
      obtain ⟨chars, hliteral, heq⟩ := exists_literal hread
      exact ⟨_, .number hliteral, heq⟩

/-- What is read as items are items and their closing bracket. -/
theorem exists_items : {fuel : Nat} → {ahead rest : List Char} → {found : List Json} →
    items fuel ahead = some (found, rest) → ∃ chars, Items chars found ∧ ahead = chars ++ rest
  | 0, _, _, _, h => nomatch h
  | fuel + 1, ahead, rest, found, h => by
    obtain ⟨⟨item, after⟩, hread, hafter⟩ := Option.bind_eq_some_iff.mp h
    obtain ⟨chars, hitem, rfl⟩ := exists_padded (exists_value hread)
    dsimp only at hafter
    -- a comma goes on with the next item, a bracket ends the array
    split at hafter
    · next hmark =>
      obtain ⟨others, hothers, rfl⟩ := exists_of_bind hafter
      obtain ⟨tail, htail, rfl⟩ := exists_items hothers
      exact ⟨_, .more hitem htail, by rw [hmark, List.append_assoc, List.cons_append]⟩
    · next hmark =>
      obtain ⟨rfl, rfl⟩ := Prod.mk.inj (Option.some.inj hafter)
      exact ⟨_, .last hitem, by rw [hmark, List.append_assoc, List.singleton_append]⟩
    · exact nomatch hafter

/-- What is read as members are members and their closing brace. -/
theorem exists_members : {fuel : Nat} → {ahead rest : List Char} →
    {found : List (Option String × Json)} → members fuel ahead = some (found, rest) →
    ∃ chars, Members chars found ∧ ahead = chars ++ rest
  | 0, _, _, _, h => nomatch h
  | fuel + 1, ahead, rest, found, h => by
    unfold members at h
    split at h
    · next inside hquote =>
      obtain ⟨⟨name, behind⟩, hname, hbehind⟩ := Option.bind_eq_some_iff.mp h
      obtain ⟨front, hfront, rfl⟩ := exists_name hquote hname
      dsimp only at hbehind
      -- after its name a member has a colon and a value
      split at hbehind
      · next hcolon =>
        obtain ⟨⟨item, after⟩, hread, hafter⟩ := Option.bind_eq_some_iff.mp hbehind
        obtain ⟨chars, hitem, rfl⟩ := exists_padded (exists_value hread)
        dsimp only at hafter
        -- a comma goes on with the next member, a brace ends the object
        split at hafter
        · next hmark =>
          obtain ⟨others, hothers, rfl⟩ := exists_of_bind hafter
          obtain ⟨tail, htail, rfl⟩ := exists_members hothers
          refine ⟨_, .more hfront hitem htail, ?_⟩
          rw [hcolon, hmark, List.append_assoc, List.cons_append, List.append_assoc,
            List.cons_append]
        · next hmark =>
          obtain ⟨rfl, rfl⟩ := Prod.mk.inj (Option.some.inj hafter)
          refine ⟨_, .last hfront hitem, ?_⟩
          rw [hcolon, hmark, List.append_assoc, List.cons_append, List.append_assoc,
            List.singleton_append]
        · exact nomatch hafter
      · exact nomatch hbehind
    · exact nomatch h

end

end Reader

/-! ### The value of a text -/

/-- A text is parsed to a value if and only if it denotes the value. -/
theorem parse?_eq_some_iff {text : String} {json : Json} :
    parse? text = some json ↔ Denotes text json := by
  constructor
  · intro h
    obtain ⟨⟨found, rest⟩, hread, hfound⟩ := Option.bind_eq_some_iff.mp h
    obtain ⟨chars, hpadded, htext⟩ := Reader.exists_padded (Reader.exists_value hread)
    dsimp only at hfound
    split at hfound
    · -- nothing but blanks may be left, and these were taken with the value
      next hend =>
      obtain rfl := Option.some.inj hfound
      rw [List.isEmpty_iff.mp hend, List.append_nil] at htext
      rw [Denotes, htext]
      exact hpadded
    · exact nomatch hfound
  · intro h
    -- two units of fuel are left for the blanks before the value and behind it
    obtain ⟨after, hafter, hread⟩ := Reader.padded_append h (2 * text.toList.length + 2)
      (by omega) Grammar.stops_nil
    have hend : Reader.skipBlanks after = [] := by
      rw [← List.append_nil after, Reader.skipBlanks_append hafter]
      rfl
    rw [List.append_nil, List.append_nil] at hread
    simp only [parse?, hread, Option.bind_eq_bind, Option.bind_some, hend]
    rfl

end LazyTally.Json
