import Kawa.Lib.Json

/-!
The printed form that `json.dump` writes without options: a blank after every comma and colon, and
no character outside ASCII.  It reads back, and a part of an object's text does not.
-/

namespace Json

/-! ## Printing -/

def hexDigits (n : Nat) : List Char :=
  [hexDigit (n / 4096 % 16), hexDigit (n / 256 % 16), hexDigit (n / 16 % 16), hexDigit (n % 16)]

/-- `ensure_ascii`: what is beyond ASCII is escaped as one code unit of 16 bits or two. -/
def asciiEscape (c : Char) : List Char :=
  if c.toNat < 127 then escapeChar c
  else if c.toNat < 65536 then '\\' :: 'u' :: hexDigits c.toNat
  else
    '\\' :: 'u' :: hexDigits (55296 + (c.toNat - 65536) / 1024) ++
      '\\' :: 'u' :: hexDigits (56320 + (c.toNat - 65536) % 1024)

/-! ## The escapes read back -/

theorem hexValue_hexDigit : ∀ n < 16, hexValue (hexDigit n) = some n := by decide

theorem hex4_hexDigits {n : Nat} (small : n < 65536) :
    hex4 (hexDigit (n / 4096 % 16)) (hexDigit (n / 256 % 16)) (hexDigit (n / 16 % 16))
      (hexDigit (n % 16)) = some n := by
  have digit : ∀ m, hexValue (hexDigit (m % 16)) = some (m % 16) := fun m =>
    hexValue_hexDigit _ (Nat.mod_lt _ (by decide))
  simp only [hex4, digit, Option.bind_eq_bind, Option.bind_some, Option.pure_def, Option.some_inj]
  omega

/-- One code unit that is no surrogate is its character. -/
theorem readString_unit {c : Char} (single : c.toNat < 65536) (rest : List Char) :
    readString ('\\' :: 'u' :: hexDigits c.toNat ++ rest) =
      (readString rest).map fun (text, rest) => (c :: text, rest) := by
  have valid : c.toNat.isValidChar := c.valid
  have plain : ¬(55296 ≤ c.toNat ∧ c.toNat < 56320) := by
    unfold Nat.isValidChar at valid
    omega
  have code := hex4_hexDigits single
  simp only [hexDigits, List.cons_append, List.nil_append, readString, code, Option.bind_eq_bind,
    Option.bind_some, plain, ↓reduceIte, scalar_toNat]
  cases readString rest <;> simp

/-- Two surrogates are the character that they share. -/
theorem readString_pair {c : Char} {high low : Nat} (highs : 55296 ≤ high ∧ high < 56320)
    (lows : 56320 ≤ low ∧ low < 57344)
    (joined : 65536 + (high - 55296) * 1024 + (low - 56320) = c.toNat) (rest : List Char) :
    readString ('\\' :: 'u' :: hexDigits high ++ '\\' :: 'u' :: hexDigits low ++ rest) =
      (readString rest).map fun (text, rest) => (c :: text, rest) := by
  have first := hex4_hexDigits (show high < 65536 by omega)
  have second := hex4_hexDigits (show low < 65536 by omega)
  simp only [hexDigits, List.cons_append, List.nil_append, readString, first, second,
    Option.bind_eq_bind, Option.bind_some, highs, lows, and_self, ↓reduceIte, joined,
    scalar_toNat]
  cases readString rest <;> simp

theorem readString_asciiEscape (c : Char) (rest : List Char) :
    readString (asciiEscape c ++ rest) =
      (readString rest).map fun (text, rest) => (c :: text, rest) := by
  unfold asciiEscape
  split
  · exact readString_escapeChar c rest
  · split
    · rename_i single
      exact readString_unit single rest
    · have valid : c.toNat.isValidChar := c.valid
      unfold Nat.isValidChar at valid
      exact readString_pair (by omega) (by omega) (by omega) rest

theorem readString_dumped (text rest : List Char) :
    readString (text.flatMap asciiEscape ++ '"' :: rest) = some (text, rest) := by
  induction text with
  | nil => simp [readString]
  | cons c text ih =>
      rw [List.flatMap_cons, List.append_assoc, readString_asciiEscape, ih]
      rfl

/-- `json.dump` without options. -/
def dumped : Style where
  blank := [' ']
  escape := asciiEscape
  spaces c member := by rw [List.mem_singleton.mp member]; rfl
  reads := readString_dumped

/-- `json.dump(obj, f)` -/
def dump (value : Json) : String := String.ofList (spell dumped value)

/-! ## Text that is cut short -/

theorem skipSpace_append {text rest : List Char} (extra : List Char)
    (found : skipSpace text = rest) (more : rest ≠ []) :
    skipSpace (text ++ extra) = rest ++ extra := by
  unfold skipSpace at found ⊢
  rw [List.dropWhile_append, found]
  simp [more]

theorem readString_append {text chars rest : List Char}
    (read : readString text = some (chars, rest)) (extra : List Char) :
    readString (text ++ extra) = some (chars, rest ++ extra) := by
  fun_induction readString text generalizing chars rest with
  | case1 => cases read
  | case2 rest =>
      cases read
      simp [readString]
  | case3 a b c d after paired single =>
      simp only [Option.bind_eq_bind, Option.bind_eq_some_iff] at read
      obtain ⟨code, named, read⟩ := read
      simp only [List.cons_append, readString, named, Option.bind_eq_bind, Option.bind_some]
      by_cases surrogate : 55296 ≤ code ∧ code < 56320
      · rw [if_pos surrogate] at read ⊢
        split at read
        · simp only [Option.bind_eq_some_iff] at read
          obtain ⟨low, lowNamed, read⟩ := read
          simp only [List.cons_append, lowNamed, Option.bind_some]
          split at read
          · rename_i lows
            simp only [Option.bind_eq_some_iff, Option.pure_def, Option.some_inj] at read
            obtain ⟨char, joined, ⟨text, left⟩, later, made⟩ := read
            cases made
            simp only [if_pos lows, joined, paired later, Option.bind_some, Option.pure_def]
          · cases read
        · cases read
      · rw [if_neg surrogate] at read ⊢
        simp only [Option.bind_eq_some_iff, Option.pure_def, Option.some_inj] at read
        obtain ⟨char, joined, ⟨text, left⟩, later, made⟩ := read
        cases made
        simp only [joined, single later, Option.bind_some, Option.pure_def]
  | case4 c after unlike ih =>
      simp only [Option.bind_eq_bind, Option.bind_eq_some_iff, Option.pure_def,
        Option.some_inj] at read
      obtain ⟨char, simple, ⟨text, left⟩, later, made⟩ := read
      cases made
      have notUnit : c ≠ 'u' := by
        rintro rfl
        cases simple
      rw [List.cons_append, List.cons_append, readString]
      · simp only [simple, ih later, Option.bind_eq_bind, Option.bind_some, Option.pure_def]
      · exact fun _ _ _ _ _ same => absurd same notUnit
  | case5 c after unlike =>
      cases read
  | case6 c after quote slash lead plain ih =>
      simp only [Option.bind_eq_bind, Option.bind_eq_some_iff, Option.pure_def,
        Option.some_inj] at read
      obtain ⟨⟨text, left⟩, later, made⟩ := read
      cases made
      have notSlash : c ≠ '\\' := fun same => plain (.inr same)
      rw [List.cons_append, readString]
      · simp only [plain, ↓reduceIte, ih later, Option.bind_eq_bind, Option.bind_some,
          Option.pure_def]
      · exact quote
      · exact fun _ _ _ _ _ same _ => notSlash same
      · exact fun _ _ same _ => notSlash same

theorem readValue_starts {readFloat : String → Option Double} {fuel : Nat} {text : List Char}
    {read : Json × List Char} (value : readValue readFloat fuel text = some read) : text ≠ [] := by
  rintro rfl
  cases fuel <;> cases value

theorem readItems_starts {readFloat : String → Option Double} {fuel : Nat} {text : List Char}
    {read : List Json × List Char} (items : readItems readFloat fuel text = some read) :
    text ≠ [] := by
  cases fuel with
  | zero => cases items
  | succ fuel =>
      rw [readItems, Option.bind_eq_bind, Option.bind_eq_some_iff] at items
      obtain ⟨_, first, _⟩ := items
      exact readValue_starts first

theorem readMembers_starts {readFloat : String → Option Double} {fuel : Nat} {text : List Char}
    {seen : List (String × Json)} {read : List (String × Json) × List Char}
    (members : readMembers readFloat fuel text seen = some read) : text ≠ [] := by
  rintro rfl
  cases fuel <;> cases members

/-- A number with text behind it ends where that text begins. -/
theorem readNumber_append (readFloat : String → Option Double) (fuel : Nat) {text : List Char}
    {number : Json} (named : readNumber readFloat (text.takeWhile isNumberChar) = some number)
    (more : text.dropWhile isNumberChar ≠ []) (extra : List Char) :
    readValue readFloat (fuel + 1) (text ++ extra) =
      some (number, text.dropWhile isNumberChar ++ extra) := by
  have literal : text.takeWhile isNumberChar ≠ [] := by
    intro none
    rw [none] at named
    cases named
  have chars : ∀ c ∈ text.takeWhile isNumberChar, isNumberChar c = true := fun c member =>
    List.mem_takeWhile_imp member
  have stop : EndsNumber (text.dropWhile isNumberChar ++ extra) := by
    intro c tail same
    have first := List.head_dropWhile_not isNumberChar more
    obtain ⟨d, other, equal⟩ := List.exists_cons_of_ne_nil more
    simp only [equal, List.head_cons] at first
    rw [equal, List.cons_append] at same
    cases same
    exact first
  have reads := readValue_number readFloat fuel literal chars stop
  rw [named, ← List.append_assoc, List.takeWhile_append_dropWhile] at reads
  exact reads

mutual

/-- A value with text behind it reads the same when that text goes on. -/
theorem readValue_append (readFloat : String → Option Double) {fuel : Nat} {text rest : List Char}
    {value : Json} (read : readValue readFloat fuel text = some (value, rest))
    (more : rest ≠ [] ∨ text.head? = some '{') {enough : Nat} (bound : fuel ≤ enough)
    (extra : List Char) :
    readValue readFloat enough (text ++ extra) = some (value, rest ++ extra) := by
  cases fuel with
  | zero => cases read
  | succ fuel =>
      obtain ⟨enough, rfl⟩ := Nat.exists_eq_succ_of_ne_zero (by omega : enough ≠ 0)
      unfold readValue at read
      split at read
      · cases read
        rfl
      · cases read
        rfl
      · cases read
        rfl
      · simp only [Option.bind_eq_bind, Option.bind_eq_some_iff, Option.pure_def,
          Option.some_inj] at read
        obtain ⟨⟨chars, left⟩, string, made⟩ := read
        cases made
        simp only [List.cons_append, readValue, readString_append string, Option.bind_eq_bind,
          Option.bind_some, Option.pure_def]
      · rename_i inside
        split at read
        · rename_i after start
          cases read
          have begins := skipSpace_append extra start (by simp)
          simp only [List.cons_append, readValue, begins]
        · rename_i start
          simp only [Option.bind_eq_bind, Option.bind_eq_some_iff, Option.pure_def,
            Option.some_inj] at read
          obtain ⟨⟨items, left⟩, listed, made⟩ := read
          cases made
          have body := readItems_append readFloat listed (Nat.le_of_succ_le_succ bound) extra
          obtain ⟨c, tail, equal⟩ := List.exists_cons_of_ne_nil (readItems_starts listed)
          have begins := skipSpace_append extra equal (by simp)
          rw [equal] at body
          simp only [List.cons_append, readValue, begins]
          split
          · rename_i same
            cases same
            exact absurd equal (start _)
          · rw [← List.cons_append, body]
            rfl
      · rename_i inside
        split at read
        · rename_i after start
          cases read
          have begins := skipSpace_append extra start (by simp)
          simp only [List.cons_append, readValue, begins]
        · rename_i start
          simp only [Option.bind_eq_bind, Option.bind_eq_some_iff, Option.pure_def,
            Option.some_inj] at read
          obtain ⟨⟨members, left⟩, listed, made⟩ := read
          cases made
          have body := readMembers_append readFloat listed (Nat.le_of_succ_le_succ bound) extra
          obtain ⟨c, tail, equal⟩ := List.exists_cons_of_ne_nil (readMembers_starts listed)
          have begins := skipSpace_append extra equal (by simp)
          rw [equal] at body
          simp only [List.cons_append, readValue, begins]
          split
          · rename_i same
            cases same
            exact absurd equal (start _)
          · rw [← List.cons_append, body]
            rfl
      · rename_i object
        simp only [Option.bind_eq_bind, Option.bind_eq_some_iff, Option.pure_def,
          Option.some_inj] at read
        obtain ⟨number, named, made⟩ := read
        cases made
        have more : text.dropWhile isNumberChar ≠ [] := by
          refine more.resolve_right fun brace => ?_
          cases text with
          | nil => cases brace
          | cons c tail =>
              cases brace
              exact object tail rfl
        exact readNumber_append readFloat enough named more extra
termination_by fuel

theorem readItems_append (readFloat : String → Option Double) {fuel : Nat}
    {text rest : List Char} {items : List Json}
    (read : readItems readFloat fuel text = some (items, rest)) {enough : Nat}
    (bound : fuel ≤ enough) (extra : List Char) :
    readItems readFloat enough (text ++ extra) = some (items, rest ++ extra) := by
  cases fuel with
  | zero => cases read
  | succ fuel =>
      obtain ⟨enough, rfl⟩ := Nat.exists_eq_succ_of_ne_zero (by omega : enough ≠ 0)
      simp only [readItems, Option.bind_eq_bind, Option.bind_eq_some_iff] at read
      obtain ⟨⟨item, left⟩, first, read⟩ := read
      dsimp only at read
      have more : left ≠ [] := by
        rintro rfl
        cases read
      have head := readValue_append readFloat first (.inl more) (Nat.le_of_succ_le_succ bound) extra
      simp only [readItems, head, Option.bind_eq_bind, Option.bind_some]
      split at read
      · rename_i after comma
        simp only [Option.bind_eq_some_iff, Option.pure_def, Option.some_inj] at read
        obtain ⟨⟨others, tail⟩, later, made⟩ := read
        cases made
        have rest := readItems_append readFloat later (Nat.le_of_succ_le_succ bound) extra
        simp only [skipSpace_append extra comma (by simp), List.cons_append,
          skipSpace_append extra rfl (readItems_starts later), rest, Option.bind_some, Option.pure_def]
      · rename_i after closing
        cases read
        simp only [skipSpace_append extra closing (by simp), List.cons_append,
          Option.pure_def]
      · cases read
termination_by fuel

theorem readMembers_append (readFloat : String → Option Double) {fuel : Nat}
    {text rest : List Char} {seen members : List (String × Json)}
    (read : readMembers readFloat fuel text seen = some (members, rest)) {enough : Nat}
    (bound : fuel ≤ enough) (extra : List Char) :
    readMembers readFloat enough (text ++ extra) seen = some (members, rest ++ extra) := by
  cases fuel with
  | zero => cases read
  | succ fuel =>
      obtain ⟨enough, rfl⟩ := Nat.exists_eq_succ_of_ne_zero (by omega : enough ≠ 0)
      unfold readMembers at read
      split at read
      · simp only [Option.bind_eq_bind, Option.bind_eq_some_iff] at read
        obtain ⟨⟨key, left⟩, named, read⟩ := read
        dsimp only at read
        split at read
        · rename_i after colon
          simp only [Option.bind_eq_some_iff] at read
          obtain ⟨⟨value, left⟩, first, read⟩ := read
          dsimp only at read
          have more : left ≠ [] := by
            rintro rfl
            cases read
          have head :=
            readValue_append readFloat first (.inl more) (Nat.le_of_succ_le_succ bound) extra
          simp only [List.cons_append, readMembers, readString_append named, Option.bind_eq_bind,
            Option.bind_some, skipSpace_append extra colon (by simp),
            skipSpace_append extra rfl (readValue_starts first), head]
          split at read
          · rename_i later comma
            have rest := readMembers_append readFloat read (Nat.le_of_succ_le_succ bound) extra
            simp only [skipSpace_append extra comma (by simp), List.cons_append,
              skipSpace_append extra rfl (readMembers_starts read), rest]
          · rename_i later closing
            cases read
            simp only [skipSpace_append extra closing (by simp), List.cons_append,
              Option.pure_def]
          · cases read
        · cases read
      · cases read
termination_by fuel

end

theorem spell_object (style : Style) (members : List (String × Json)) :
    (spell style (obj members)).head? = some '{' := by
  cases members <;> simp [spell]

/-- A part of the text of an object is no document. -/
theorem loads_cut (style : Style) {readFloat : String → Option Double}
    (doubles : ReadsDoubles readFloat) {members : List (String × Json)}
    (keyed : WellKeyed (obj members)) {part : List Char} (cut : part <+: spell style (obj members))
    (short : part ≠ spell style (obj members)) :
    loads readFloat (String.ofList part) = none := by
  obtain ⟨extra, whole⟩ := cut
  have head := spell_object style members
  rw [← whole] at head
  by_contra loaded
  obtain ⟨value, loaded⟩ := Option.ne_none_iff_exists'.mp loaded
  simp only [loads, String.toList_ofList, Option.bind_eq_bind, Option.bind_eq_some_iff] at loaded
  obtain ⟨⟨first, rest⟩, read, _⟩ := loaded
  cases part with
  | nil => exact absurd rfl (readValue_starts read)
  | cons c tail =>
      obtain rfl : c = '{' := Option.some.inj head
      rw [skipSpace_cons (by decide)] at read
      obtain ⟨enough, covers, reads⟩ : ∃ enough, 2 * ('{' :: tail).length + 2 ≤ enough ∧
          cost (obj members) ≤ enough := ⟨_, Nat.le_max_left _ _, Nat.le_max_right _ _⟩
      have long := readValue_append readFloat read (.inr rfl) covers extra
      have own := readValue_spell style doubles (obj members) keyed enough reads []
        (by intro c tail equal; simp at equal)
      rw [List.append_nil, ← whole] at own
      rw [own] at long
      have ended : rest ++ extra = [] := (congrArg Prod.snd (Option.some.inj long)).symm
      rw [(List.append_eq_nil_iff.mp ended).2, List.append_nil] at whole
      exact short whole

end Json
