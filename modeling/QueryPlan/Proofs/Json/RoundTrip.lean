import QueryPlan.Proofs.Json.Numbers
import QueryPlan.Proofs.Json.Strings

/-!
# Reading JSON texts that were written

A value that is written is read back, on one line or indented. Objects have to name each member
once, as of two members of one name only the last one would count, and real numbers have to be
doubles. What follows the text of a value must not be taken for more digits of a number.

## Main definitions

* `Json.Sound` : a value that there is: its objects name each member once and its numbers are
  doubles.
* `Json.Reads` : a value is read back in front of any text.

## Main results

* `Json.Sound.reads` : every value that there is is read back.
* `Json.Sound.read_write` : a text of one value is read as that value.
* `Json.Sound.plain_write` : values are written in plain text.
-/

namespace QueryPlan.Json

open Text

/-- A value that there is: its objects name each member once and its numbers are doubles. -/
inductive Sound : Json → Prop
  | null : Sound .null
  | bool (b : Bool) : Sound (.bool b)
  | int (n : ℤ) : Sound (.int n)
  | real {x : Binary64} (hx : x.IsDouble) : Sound (.real x)
  | str (s : String) : Sound (.str s)
  | arr {items : List Json} (hitems : ∀ v ∈ items, Sound v) : Sound (.arr items)
  | obj {members : List (String × Json)} (hnames : (members.map Prod.fst).Nodup)
      (hmembers : ∀ m ∈ members, Sound m.2) : Sound (.obj members)

variable {layout : Layout} {v : Json} {items : List Json} {members : List (String × Json)}
  {cs ds rest : List Char} {fuel : ℕ}

/-! ### Blanks -/

/-- Blanks of a layout. -/
def Blanks (cs : List Char) : Prop := ∀ c ∈ cs, c = ' ' ∨ c = '\n'

theorem Blanks.skipBlanks_append (h : Blanks cs) (ds : List Char) :
    skipBlanks (cs ++ ds) = skipBlanks ds :=
  List.dropWhile_append_of_pos fun c hc => by
    obtain rfl | rfl := h c hc <;> rfl

theorem Blanks.plain (h : Blanks cs) : Plain cs := fun c hc => by
  obtain rfl | rfl := h c hc <;> decide

theorem blanks_lineBreak (layout : Layout) : Blanks layout.lineBreak.toList := by
  intro c hc
  cases layout with
  | compact => simp [Layout.lineBreak] at hc
  | indented depth =>
    simp only [Layout.lineBreak, String.toList_append, String.toList_ofList, List.mem_append,
      List.mem_replicate] at hc
    obtain hc | hc := hc
    · exact .inr (by simpa using hc)
    · exact .inl hc.2

/-- The colon after a name has blanks behind it. -/
theorem exists_toList_colon (layout : Layout) :
    ∃ gap, layout.colon.toList = ':' :: gap ∧ Blanks gap := by
  cases layout with
  | compact => exact ⟨[], rfl, nofun⟩
  | indented depth =>
    have htext : ": ".toList = [':', ' '] := by decide
    exact ⟨[' '], htext, fun c hc => .inl (List.mem_singleton.1 hc)⟩

/-- A text begins with a character that neither is blank nor ends a list or an object. -/
def Opens (cs : List Char) : Prop :=
  ∃ c ds, cs = c :: ds ∧ c ∉ [' ', '\t', '\n', '\r', ']', '}']

theorem Opens.append (h : Opens cs) (ds : List Char) : Opens (cs ++ ds) := by
  obtain ⟨c, cs, rfl, hc⟩ := h
  exact ⟨c, cs ++ ds, rfl, hc⟩

theorem Opens.skipBlanks_eq (h : Opens cs) : skipBlanks cs = cs := by
  obtain ⟨c, cs, rfl, hc⟩ := h
  simp only [List.mem_cons, not_or] at hc
  exact List.dropWhile_cons_of_neg (by simp [hc])

theorem Blanks.skipBlanks_append_of_opens (h : Blanks cs) (hds : Opens ds) :
    skipBlanks (cs ++ ds) = ds := by
  rw [h.skipBlanks_append, hds.skipBlanks_eq]

/-- A text that begins with a blank, a comma or the end of a list or an object is none that a number
goes on with. -/
theorem delimited_cons {c : Char} (h : c ∈ [' ', '\n', ',', ']', '}']) : Delimited (c :: cs) := by
  intro d hd
  obtain rfl : c = d := by simpa using hd
  fin_cases h <;> decide

theorem Blanks.delimited_append (h : Blanks cs) (hds : Delimited ds) : Delimited (cs ++ ds) := by
  cases cs with
  | nil => exact hds
  | cons c cs => exact delimited_cons (by obtain rfl | rfl := h c List.mem_cons_self <;> decide)

/-! ### Numbers and words -/

/-- A number begins neither like another value, nor with a blank, nor with the end of one. -/
theorem not_mem_of_minus_or_digit {c : Char} (hc : c = '-' ∨ c.isDigit = true) :
    c ∉ ['"', '\x7b', '['] ∧ c ∉ [' ', '\t', '\n', '\r', ']', '\x7d'] := by
  obtain rfl | hc := hc
  · decide
  · constructor <;> intro hmem <;> fin_cases hmem <;> cases hc

theorem opens_signedText (t : Numeral) (negative : Bool) : Opens (t.signedText negative) := by
  obtain ⟨c, cs, htext, hc⟩ := t.exists_cons_signedText negative
  exact ⟨c, cs, htext, (not_mem_of_minus_or_digit hc).2⟩

/-- What begins with no quote or bracket is a word or a number. -/
theorem readValue_eq_readScalar {c : Char} (hc : c ∉ ['"', '\x7b', '[']) :
    readValue (fuel + 1) (c :: cs) = readScalar (c :: cs) := by
  simp only [List.mem_cons, List.not_mem_nil, or_false, not_or] at hc
  simp [readValue, hc]

theorem readValue_signedText (t : Numeral) (negative : Bool) (hrest : Delimited rest) :
    readValue (fuel + 1) (t.signedText negative ++ rest) = .ok (t.value negative, rest) := by
  have hread := t.readScalar_signedText negative hrest
  obtain ⟨c, cs, htext, hc⟩ := t.exists_cons_signedText negative
  rw [htext, List.cons_append] at hread ⊢
  rw [readValue_eq_readScalar (not_mem_of_minus_or_digit hc).1, hread]

/-- The text of a double. -/
theorem readValue_writeReal {x : Binary64} (hx : x.IsDouble) (hrest : Delimited rest) :
    readValue (fuel + 1) ((writeReal x).toList ++ rest) = .ok (.real x, rest) := by
  cases x with
  | finite negative units =>
    obtain ⟨t, htext, hvalue⟩ := exists_numeral_real hx negative
    rw [htext, readValue_signedText t negative hrest, hvalue]
  | infinite negative => cases negative <;> rfl
  | notNumber => rfl

theorem opens_writeReal {x : Binary64} (hx : x.IsDouble) : Opens (writeReal x).toList := by
  cases x with
  | finite negative units =>
    obtain ⟨t, htext, -⟩ := exists_numeral_real hx negative
    exact htext ▸ opens_signedText t negative
  | infinite negative => cases negative <;> exact ⟨_, _, rfl, by decide⟩
  | notNumber => exact ⟨_, _, rfl, by decide⟩

theorem readValue_int (n : ℤ) (hrest : Delimited rest) :
    readValue (fuel + 1) ((toString n).toList ++ rest) = .ok (.int n, rest) := by
  obtain ⟨t, negative, htext, hvalue⟩ := exists_numeral_int n
  rw [htext, readValue_signedText t negative hrest, hvalue]

theorem readValue_writeString (s : String) (rest : List Char) :
    readValue (fuel + 1) ((writeString s).toList ++ rest) = .ok (.str s, rest) := by
  have hlength := length_le_length_flatMap s.toList
  rw [toList_writeString, List.cons_append, List.append_assoc, List.singleton_append, readValue,
    readString_flatMap]
  · simp [Except.map]
  · rw [List.length_cons, List.length_append]
    omega

/-- The text of a value begins with a character of its own. -/
theorem Sound.opens_write (h : Sound v) (layout : Layout) : Opens (writeWith layout v).toList := by
  cases h with
  | null => exact ⟨'n', ['u', 'l', 'l'], by simp [writeWith], by decide⟩
  | bool b =>
    cases b with
    | false => exact ⟨'f', ['a', 'l', 's', 'e'], by simp [writeWith], by decide⟩
    | true => exact ⟨'t', ['r', 'u', 'e'], by simp [writeWith], by decide⟩
  | int n =>
    obtain ⟨t, negative, htext, -⟩ := exists_numeral_int n
    rw [writeWith, htext]
    exact opens_signedText t negative
  | real hx =>
    rw [writeWith]
    exact opens_writeReal hx
  | str s =>
    rw [writeWith]
    exact ⟨_, _, toList_writeString s, by decide⟩
  | @arr items _ =>
    cases items with
    | nil => exact ⟨'[', [']'], by simp [writeWith], by decide⟩
    | cons item items => exact ⟨'[', _, by simp [writeWith]; rfl, by decide⟩
  | @obj members _ _ =>
    cases members with
    | nil => exact ⟨'\x7b', ['\x7d'], by simp [writeWith], by decide⟩
    | cons m members =>
      obtain ⟨name, value⟩ := m
      exact ⟨'\x7b', _, by simp [writeWith]; rfl, by decide⟩

/-! ### Lists and objects -/

/-- A value is read back with as much fuel as its text is long. -/
def Reads (v : Json) : Prop :=
  ∀ (layout : Layout) (fuel : ℕ) (rest : List Char), (writeWith layout v).toList.length ≤ fuel →
    Delimited rest → readValue fuel ((writeWith layout v).toList ++ rest) = .ok (v, rest)

/-- One item is read; what follows it decides how to go on. -/
theorem readItems_item (hreads : Reads v) (taken : List Json)
    (hfuel : (writeWith layout v).toList.length ≤ fuel) (hrest : Delimited rest) :
    readItems (fuel + 1) taken ((writeWith layout v).toList ++ rest) =
      match skipBlanks rest with
      | ']' :: tail => .ok (.arr (v :: taken).reverse, tail)
      | ',' :: tail => readItems fuel (v :: taken) (skipBlanks tail)
      | other => fail .expectingComma other := by
  have hstep := readItems.eq_2 taken ((writeWith layout v).toList ++ rest) fuel
  rw [hreads layout fuel rest hfuel hrest] at hstep
  exact hstep

/-- Items are read back up to the bracket behind them. -/
theorem readItems_writeItems (layout : Layout) (items : List Json) (item : Json)
    (taken : List Json) (hsound : ∀ v ∈ item :: items, Sound v)
    (hreads : ∀ v ∈ item :: items, Reads v) (hcs : Blanks cs) (rest : List Char)
    (hfuel : (writeWith layout item).toList.length + (writeItems layout items).toList.length
      < fuel) :
    readItems fuel taken ((writeWith layout item).toList ++
        ((writeItems layout items).toList ++ (cs ++ ']' :: rest))) =
      .ok (.arr (taken.reverse ++ item :: items), rest) := by
  induction items generalizing item taken fuel with
  | nil =>
    obtain ⟨fuel, rfl⟩ := Nat.exists_eq_succ_of_ne_zero (Nat.ne_zero_of_lt hfuel)
    have hend : skipBlanks (cs ++ ']' :: rest) = ']' :: rest := hcs.skipBlanks_append _
    rw [writeItems, String.toList_empty, List.nil_append,
      readItems_item (hreads item List.mem_cons_self) taken (by omega)
        (hcs.delimited_append (delimited_cons (by decide))), hend, List.reverse_cons]
    rfl
  | cons next items ih =>
    obtain ⟨fuel, rfl⟩ := Nat.exists_eq_succ_of_ne_zero (Nat.ne_zero_of_lt hfuel)
    have htext : (writeItems layout (next :: items)).toList = ',' :: (layout.lineBreak.toList ++
        ((writeWith layout next).toList ++ (writeItems layout items).toList)) := by
      simp [writeItems]
    rw [htext] at hfuel ⊢
    simp only [List.length_cons, List.length_append] at hfuel
    have hskip := (blanks_lineBreak layout).skipBlanks_append_of_opens
      (((hsound next (by simp)).opens_write layout).append
        ((writeItems layout items).toList ++ (cs ++ ']' :: rest)))
    have hnext := @ih fuel next (item :: taken) (fun v hv => hsound v (List.mem_cons_of_mem _ hv))
      (fun v hv => hreads v (List.mem_cons_of_mem _ hv)) (by omega)
    rw [List.cons_append, readItems_item (hreads item List.mem_cons_self) taken (by omega)
      (delimited_cons (by decide)), show skipBlanks (',' :: _) = ',' :: _ from rfl]
    simp only [List.append_assoc, hskip, hnext, List.reverse_cons, List.singleton_append]

/-- A member of a new name is put behind the others. -/
theorem setMember_of_not_mem {name : String} {value : Json} {members : List (String × Json)}
    (h : name ∉ members.map Prod.fst) :
    setMember name value members = members ++ [(name, value)] := by
  induction members with
  | nil => rfl
  | cons m members ih =>
    obtain ⟨n, v⟩ := m
    simp only [List.map_cons, List.mem_cons, not_or] at h
    rw [setMember, if_neg (Ne.symm h.1), ih h.2, List.cons_append]

theorem fst_not_mem_of_nodup {m : String × Json} {taken members : List (String × Json)}
    (h : ((taken ++ m :: members).map Prod.fst).Nodup) : m.1 ∉ taken.map Prod.fst := by
  rw [List.map_append, List.map_cons, List.nodup_append] at h
  exact fun hmem => h.2.2 _ hmem _ List.mem_cons_self rfl

/-- Names are read back. -/
theorem readString_writeString (s : String) (rest : List Char) :
    ∃ cs, (writeString s).toList ++ rest = '"' :: cs ∧
      readString ('"' :: cs).length ('"' :: cs).length cs = .ok (s.toList, rest) := by
  have hlength := length_le_length_flatMap s.toList
  refine ⟨s.toList.flatMap escapeChar ++ '"' :: rest, by simp [toList_writeString], ?_⟩
  rw [readString_flatMap]
  rw [List.length_cons, List.length_append]
  omega

/-- One member is read; what follows it decides how to go on. -/
theorem readMembers_member {m : String × Json} (hsound : Sound m.2) (hreads : Reads m.2)
    {taken : List (String × Json)} (hname : m.1 ∉ taken.map Prod.fst)
    (hfuel : (writeWith layout m.2).toList.length ≤ fuel) (hrest : Delimited rest) :
    readMembers (fuel + 1) taken ((writeString m.1).toList ++ (layout.colon.toList ++
        ((writeWith layout m.2).toList ++ rest))) =
      match skipBlanks rest with
      | '\x7d' :: tail => .ok (.obj (taken ++ [m]), tail)
      | ',' :: tail => readMembers fuel (taken ++ [m]) (skipBlanks tail)
      | other => fail .expectingComma other := by
  obtain ⟨name, value⟩ := m
  obtain ⟨gap, hcolon, hgap⟩ := exists_toList_colon layout
  have hskip := hgap.skipBlanks_append_of_opens ((hsound.opens_write layout).append rest)
  obtain ⟨ds, htext, hread⟩ := readString_writeString name (':' :: (gap ++
    ((writeWith layout value).toList ++ rest)))
  rw [hcolon, List.cons_append, htext]
  have hstep := readMembers.eq_2 taken fuel ds
  simp only [hread, show ∀ cs, skipBlanks (':' :: cs) = ':' :: cs from fun _ => rfl, hskip,
    hreads layout fuel rest hfuel hrest, String.ofList_toList, setMember_of_not_mem hname] at hstep
  exact hstep

/-- Members are read back up to the brace behind them. -/
theorem readMembers_writeMembers (layout : Layout) (members : List (String × Json))
    (m : String × Json) (taken : List (String × Json))
    (hnames : ((taken ++ m :: members).map Prod.fst).Nodup) (hsound : ∀ n ∈ m :: members, Sound n.2)
    (hreads : ∀ n ∈ m :: members, Reads n.2) (hcs : Blanks cs) (rest : List Char)
    (hfuel : (writeWith layout m.2).toList.length + (writeMembers layout members).toList.length
      < fuel) :
    readMembers fuel taken ((writeString m.1).toList ++ (layout.colon.toList ++
        ((writeWith layout m.2).toList ++
          ((writeMembers layout members).toList ++ (cs ++ '\x7d' :: rest))))) =
      .ok (.obj (taken ++ m :: members), rest) := by
  induction members generalizing m taken fuel with
  | nil =>
    obtain ⟨fuel, rfl⟩ := Nat.exists_eq_succ_of_ne_zero (Nat.ne_zero_of_lt hfuel)
    have hname := fst_not_mem_of_nodup hnames
    have hend : skipBlanks (cs ++ '\x7d' :: rest) = '\x7d' :: rest := hcs.skipBlanks_append _
    rw [writeMembers, String.toList_empty, List.nil_append,
      readMembers_member (hsound m List.mem_cons_self) (hreads m List.mem_cons_self) hname (by omega)
        (hcs.delimited_append (delimited_cons (by decide))), hend]
    rfl
  | cons next members ih =>
    obtain ⟨fuel, rfl⟩ := Nat.exists_eq_succ_of_ne_zero (Nat.ne_zero_of_lt hfuel)
    have hname := fst_not_mem_of_nodup hnames
    have htext : (writeMembers layout (next :: members)).toList = ',' ::
        (layout.lineBreak.toList ++ ((writeString next.1).toList ++ (layout.colon.toList ++
          ((writeWith layout next.2).toList ++ (writeMembers layout members).toList)))) := by
      simp [writeMembers]
    rw [htext] at hfuel ⊢
    simp only [List.length_cons, List.length_append] at hfuel
    have hopens : Opens (writeString next.1).toList := ⟨_, _, toList_writeString next.1, by decide⟩
    have hskip := (blanks_lineBreak layout).skipBlanks_append_of_opens
      (hopens.append (layout.colon.toList ++ ((writeWith layout next.2).toList ++
        ((writeMembers layout members).toList ++ (cs ++ '\x7d' :: rest)))))
    have hnext := @ih fuel next (taken ++ [m]) (by simpa using hnames)
      (fun n hn => hsound n (List.mem_cons_of_mem _ hn))
      (fun n hn => hreads n (List.mem_cons_of_mem _ hn)) (by omega)
    rw [List.cons_append, readMembers_member (hsound m List.mem_cons_self)
      (hreads m List.mem_cons_self) hname (by omega) (delimited_cons (by decide)),
      show skipBlanks (',' :: _) = ',' :: _ from rfl]
    simp only [List.append_assoc, hskip, hnext, List.singleton_append]

/-! ### Values -/

/-- A list whose first item opens is read item by item. -/
theorem readValue_bracket (hcs : Blanks cs) (hds : Opens ds) :
    readValue (fuel + 1) ('[' :: (cs ++ ds)) = readItems fuel [] ds := by
  have hskip := hcs.skipBlanks_append_of_opens hds
  obtain ⟨c, ds, rfl, hc⟩ := hds
  simp only [List.mem_cons, not_or] at hc
  simp [readValue, hskip, hc]

/-- An object whose first name opens is read member by member. -/
theorem readValue_brace (hcs : Blanks cs) (hds : Opens ds) :
    readValue (fuel + 1) ('\x7b' :: (cs ++ ds)) = readMembers fuel [] ds := by
  have hskip := hcs.skipBlanks_append_of_opens hds
  obtain ⟨c, ds, rfl, hc⟩ := hds
  simp only [List.mem_cons, not_or] at hc
  simp [readValue, hskip, hc]

/-- It is enough to read a value with some fuel, for its text is not empty. -/
theorem Sound.reads_of_succ (h : Sound v)
    (hread : ∀ (layout : Layout) (fuel : ℕ) (rest : List Char),
      (writeWith layout v).toList.length ≤ fuel + 1 → Delimited rest →
      readValue (fuel + 1) ((writeWith layout v).toList ++ rest) = .ok (v, rest)) : Reads v := by
  intro layout fuel rest hfuel hrest
  obtain ⟨c, cs, htext, -⟩ := h.opens_write layout
  cases fuel with
  | zero => simp [htext] at hfuel
  | succ fuel => exact hread layout fuel rest hfuel hrest

/-- A list is read back if its items are. -/
theorem readValue_arr (hitems : ∀ v ∈ items, Sound v) (hreads : ∀ v ∈ items, Reads v)
    (hfuel : (writeWith layout (.arr items)).toList.length ≤ fuel + 1) (rest : List Char) :
    readValue (fuel + 1) ((writeWith layout (.arr items)).toList ++ rest) =
      .ok (.arr items, rest) := by
  cases items with
  | nil => simp [writeWith, readValue, skipBlanks]
  | cons item items =>
    have htext : (writeWith layout (.arr (item :: items))).toList ++ rest = '[' ::
        (layout.deeper.lineBreak.toList ++ ((writeWith layout.deeper item).toList ++
          ((writeItems layout.deeper items).toList ++
            (layout.lineBreak.toList ++ ']' :: rest)))) := by simp [writeWith]
    have hlength := congrArg List.length htext
    simp only [List.length_append, List.length_cons] at hlength
    rw [htext, readValue_bracket (blanks_lineBreak layout.deeper)
      (((hitems item List.mem_cons_self).opens_write layout.deeper).append _)]
    exact readItems_writeItems layout.deeper items item [] hitems hreads (blanks_lineBreak layout)
      rest (by omega)

/-- An object is read back if its values are. -/
theorem readValue_obj (hnames : (members.map Prod.fst).Nodup) (hmembers : ∀ m ∈ members, Sound m.2)
    (hreads : ∀ m ∈ members, Reads m.2)
    (hfuel : (writeWith layout (.obj members)).toList.length ≤ fuel + 1) (rest : List Char) :
    readValue (fuel + 1) ((writeWith layout (.obj members)).toList ++ rest) =
      .ok (.obj members, rest) := by
  cases members with
  | nil => simp [writeWith, readValue, skipBlanks]
  | cons m members =>
    have htext : (writeWith layout (.obj (m :: members))).toList ++ rest = '\x7b' ::
        (layout.deeper.lineBreak.toList ++ ((writeString m.1).toList ++
          (layout.deeper.colon.toList ++ ((writeWith layout.deeper m.2).toList ++
            ((writeMembers layout.deeper members).toList ++
              (layout.lineBreak.toList ++ '\x7d' :: rest)))))) := by
      obtain ⟨name, value⟩ := m
      have hcolon : layout.colon = layout.deeper.colon := by cases layout <;> rfl
      simp [writeWith, hcolon]
    have hlength := congrArg List.length htext
    simp only [List.length_append, List.length_cons] at hlength
    have hopens : Opens (writeString m.1).toList := ⟨_, _, toList_writeString m.1, by decide⟩
    rw [htext, readValue_brace (blanks_lineBreak layout.deeper) (hopens.append _)]
    exact readMembers_writeMembers layout.deeper members m [] hnames hmembers hreads
      (blanks_lineBreak layout) rest (by omega)

/-- A value is read back in front of any text. -/
theorem Sound.reads (h : Sound v) : Reads v := by
  induction h with
  | null =>
    refine Sound.null.reads_of_succ fun layout fuel rest _ _ => ?_
    simp [writeWith, readValue, readScalar]
  | bool b =>
    refine (Sound.bool b).reads_of_succ fun layout fuel rest _ _ => ?_
    cases b <;> simp [writeWith, readValue, readScalar]
  | int n =>
    refine (Sound.int n).reads_of_succ fun layout fuel rest _ hrest => ?_
    rw [writeWith, readValue_int n hrest]
  | real hx =>
    refine (Sound.real hx).reads_of_succ fun layout fuel rest _ hrest => ?_
    rw [writeWith, readValue_writeReal hx hrest]
  | str s =>
    refine (Sound.str s).reads_of_succ fun layout fuel rest _ _ => ?_
    rw [writeWith, readValue_writeString]
  | arr hitems ih =>
    exact (Sound.arr hitems).reads_of_succ fun layout fuel rest hfuel _ =>
      readValue_arr hitems ih hfuel rest
  | obj hnames hmembers ih =>
    exact (Sound.obj hnames hmembers).reads_of_succ fun layout fuel rest hfuel _ =>
      readValue_obj hnames hmembers ih hfuel rest

/-! ### Plain text -/

theorem plain_int (n : ℤ) : Plain (toString n).toList := by
  obtain ⟨t, negative, htext, -⟩ := exists_numeral_int n
  exact htext ▸ t.plain_signedText negative

theorem plain_writeReal {x : Binary64} (hx : x.IsDouble) : Plain (writeReal x).toList := by
  cases x with
  | finite negative units =>
    obtain ⟨t, htext, -⟩ := exists_numeral_real hx negative
    exact htext ▸ t.plain_signedText negative
  | infinite negative => cases negative <;> simp [writeReal] <;> decide
  | notNumber => simp [writeReal]; decide

theorem plain_colon (layout : Layout) : Plain layout.colon.toList := by
  obtain ⟨gap, hcolon, hgap⟩ := exists_toList_colon layout
  exact hcolon ▸ plain_cons.2 ⟨by decide, hgap.plain⟩

theorem plain_writeItems {items : List Json}
    (h : ∀ v ∈ items, ∀ layout, Plain (writeWith layout v).toList) (layout : Layout) :
    Plain (writeItems layout items).toList := by
  induction items with
  | nil => simp [writeItems]
  | cons item items ih =>
    obtain ⟨hitem, hitems⟩ := List.forall_mem_cons.1 h
    have hcomma : IsPlain ',' := by decide
    simp [writeItems, hcomma, hitem layout, ih hitems, (blanks_lineBreak layout).plain]

theorem plain_writeMembers {members : List (String × Json)}
    (h : ∀ m ∈ members, ∀ layout, Plain (writeWith layout m.2).toList) (layout : Layout) :
    Plain (writeMembers layout members).toList := by
  induction members with
  | nil => simp [writeMembers]
  | cons m members ih =>
    obtain ⟨hmember, hmembers⟩ := List.forall_mem_cons.1 h
    have hcomma : IsPlain ',' := by decide
    simp [writeMembers, hcomma, hmember layout, ih hmembers, (blanks_lineBreak layout).plain,
      plain_writeString, plain_colon]

/-- Values are written in plain text. -/
theorem Sound.plain_write (h : Sound v) (layout : Layout) : Plain (writeWith layout v).toList := by
  induction h generalizing layout with
  | null => simp [writeWith]; decide
  | bool b => cases b <;> simp [writeWith] <;> decide
  | int n => simpa [writeWith] using plain_int n
  | real hx => simpa [writeWith] using plain_writeReal hx
  | str s => simpa [writeWith] using plain_writeString s
  | @arr items hitems ih =>
    have hbrackets : IsPlain '[' ∧ IsPlain ']' := by decide
    cases items with
    | nil => simp [writeWith, hbrackets]
    | cons item items =>
      obtain ⟨hitem, hmore⟩ := List.forall_mem_cons.1 ih
      simp [writeWith, hbrackets, hitem, plain_writeItems hmore, (blanks_lineBreak _).plain]
  | @obj members hnames hmembers ih =>
    have hbraces : IsPlain '\x7b' ∧ IsPlain '\x7d' := by decide
    cases members with
    | nil => simp [writeWith, hbraces]
    | cons m members =>
      obtain ⟨hmember, hmore⟩ := List.forall_mem_cons.1 ih
      simp [writeWith, hbraces, hmember, plain_writeMembers hmore, (blanks_lineBreak _).plain,
        plain_writeString, plain_colon]

/-- A text of one value is read as that value. -/
theorem Sound.read_write (h : Sound v) (layout : Layout) :
    read (writeWith layout v).toList = .ok v := by
  have hmark : (writeWith layout v).toList.head? ≠ some '\ufeff' := by
    intro hhead
    have hplain := h.plain_write layout _ (List.mem_of_head? hhead)
    revert hplain
    decide
  have hread := h.reads layout (2 * (writeWith layout v).toList.length + 1) [] (by omega) nofun
  rw [List.append_nil] at hread
  rw [read, if_neg hmark, (h.opens_write layout).skipBlanks_eq, hread]
  rfl

end QueryPlan.Json
