import ListScript.Proofs.Number.Inspect

/-!
# Parenthesised data

A datum is what a symbolic form is made of: numbers, counts, words, strings and characters, and
lists of data between parentheses. Its text tells it (`Datum.text_append_inj`), although characters are
written with blanks and parentheses as they are, and although nothing marks a number or a word.
-/

namespace ListScript

/-- A datum. -/
inductive Datum where
  /-- A number of the language. -/
  | number (value : Number)
  /-- A natural number. -/
  | count (n : Nat)
  /-- A name or a word that heads a list. -/
  | word (text : String)
  /-- A string between quotes. -/
  | string (text : String)
  /-- A character behind its mark. -/
  | character (value : Char)
  /-- Data between parentheses, with blanks between them. -/
  | list (items : List Datum)

namespace Datum

/-! ## Texts -/

mutual

/-- The text of a datum. -/
@[simp]
def text : Datum → List Char
  | .number value => value.inspect.toList
  | .count n => Nat.toDigits 10 n
  | .word text => text.toList
  | .string text => (Text.quoteString text).toList
  | .character value => '@' :: (Text.escapeChar value).toList
  | .list items => '(' :: (joined ' ' items ++ [')'])

/-- The texts of data, with a separator between each two of them. -/
@[simp]
def joined : Char → List Datum → List Char
  | _, [] => []
  | separator, d :: rest => d.text ++ following separator rest

/-- The texts of data, with a separator before each of them. -/
@[simp]
def following : Char → List Datum → List Char
  | _, [] => []
  | separator, d :: rest => separator :: (d.text ++ following separator rest)

end

/-- The characters of numbers, counts and words: all but those that mark or part data. -/
def isPlain (c : Char) : Bool :=
  !(c == ' ' || c == '\n' || c == '(' || c == ')' || c == '\x22' || c == '@')

/-- The word is plain and does not start as numbers do. -/
def isWord (text : String) : Bool :=
  !text.toList.isEmpty && text.toList.all isPlain && !Number.startsNumber text.toList

mutual

/-- The datum can be told by its text: its numbers are finite, and its words are words. -/
@[simp]
def isReadable : Datum → Bool
  | .number value => value.isFinite
  | .word text => isWord text
  | .list items => areReadable items
  | _ => true

/-- All the data can be told by their texts. -/
@[simp]
def areReadable : List Datum → Bool
  | [] => true
  | d :: rest => d.isReadable && areReadable rest

end

/-! ## Numbers, counts and words -/

/-- Nothing marks the datum. -/
def isBare : Datum → Bool
  | .number _ | .count _ | .word _ => true
  | _ => false

/-- A class of characters without those that mark or part data is plain. -/
theorem isPlain_of_class {P : Char → Bool}
    (hmarks : [' ', '\n', '(', ')', '\x22', '@'].any P = false) {c : Char} (h : P c = true) :
    isPlain c = true := by
  unfold isPlain
  rw [Bool.not_eq_true']
  by_contra hmark
  simp only [Bool.not_eq_false, Bool.or_eq_true, beq_iff_eq, or_assoc] at hmark
  rw [List.any_eq_true.2 ⟨c, by simpa using hmark, h⟩] at hmarks
  cases hmarks

theorem isPlain_of_isNumeral {c : Char} (h : Number.isNumeral c = true) : isPlain c = true :=
  isPlain_of_class rfl h

theorem isDigit_of_mem_count {n : Nat} {c : Char} (h : c ∈ (count n).text) : c.isDigit = true := by
  rw [text] at h
  exact Decimal.isDigit_of_mem_toDigits h

/-- What nothing marks is a row of plain characters. -/
theorem text_of_isBare {d : Datum} (hbare : d.isBare = true) (h : d.isReadable = true) :
    d.text ≠ [] ∧ ∀ c ∈ d.text, isPlain c = true := by
  cases d with
  | number value =>
      obtain ⟨-, hplain, c, hc, -⟩ := Number.inspect_shape h
      exact ⟨List.ne_nil_of_mem hc, fun c hc => isPlain_of_isNumeral (hplain c hc)⟩
  | count n =>
      refine ⟨Nat.toDigits_ne_nil, fun c hc => ?_⟩
      exact isPlain_of_isNumeral (Number.isNumeral_of_isDigit (isDigit_of_mem_count hc))
  | word text =>
      simp only [isReadable, isWord, Bool.and_eq_true, Bool.not_eq_true', List.isEmpty_eq_false_iff,
        List.all_eq_true] at h
      exact h.1
  | string | character | list => cases hbare

theorem startsNumber_count (n : Nat) : Number.startsNumber (count n).text = true := by
  obtain ⟨first, rest, hcons⟩ := List.exists_cons_of_ne_nil (Nat.toDigits_ne_nil (n := n) (b := 10))
  have hdigit : first.isDigit = true := Decimal.isDigit_of_mem_toDigits (n := n) (by simp [hcons])
  rw [text, hcons]
  exact Number.startsNumber_of_isDigit hdigit rest

theorem startsNumber_number {value : Number} (h : value.isFinite = true) :
    Number.startsNumber (number value).text = true :=
  (Number.inspect_shape h).1

theorem startsNumber_word {w : String} (h : isWord w = true) :
    Number.startsNumber (word w).text = false := by
  unfold isWord at h
  rw [Bool.and_eq_true, Bool.not_eq_true'] at h
  exact h.2

/-- A count has digits only, a number has more than that. -/
theorem text_number_ne_count {value : Number} (h : value.isFinite = true) (n : Nat) :
    (number value).text ≠ (count n).text := by
  intro heq
  obtain ⟨-, -, c, hc, hmark⟩ := Number.inspect_shape h
  rw [isDigit_of_mem_count (heq ▸ hc : c ∈ (count n).text)] at hmark
  cases hmark

/-- Numbers, counts and words are told by their texts. -/
theorem eq_of_text_eq {d d' : Datum} (hbare : d.isBare = true) (hbare' : d'.isBare = true)
    (h : d.isReadable = true) (h' : d'.isReadable = true) (heq : d.text = d'.text) : d = d' := by
  have hstart := congrArg Number.startsNumber heq
  cases d with
  | number value =>
      rw [startsNumber_number h] at hstart
      cases d' with
      | number value' => rw [Number.inspect_inj h h' (String.toList_inj.1 heq)]
      | count n => exact absurd heq (text_number_ne_count h n)
      | word w => exact absurd (hstart.trans (startsNumber_word h')) (by decide)
      | string | character | list => cases hbare'
  | count n =>
      rw [startsNumber_count] at hstart
      cases d' with
      | number value' => exact absurd heq.symm (text_number_ne_count h' n)
      | count n' => rw [Decimal.toDigits_inj heq]
      | word w => exact absurd (hstart.trans (startsNumber_word h')) (by decide)
      | string | character | list => cases hbare'
  | word w =>
      rw [startsNumber_word h] at hstart
      cases d' with
      | number value' => exact absurd (hstart.trans (startsNumber_number h')) (by decide)
      | count n => exact absurd (hstart.trans (startsNumber_count n)) (by decide)
      | word w' => rw [String.toList_inj.1 heq]
      | string | character | list => cases hbare'
  | string | character | list => cases hbare

/-! ## Where a datum ends -/

/-- What nothing marks does not start with a mark. -/
theorem text_append_ne_cons {d : Datum} (hbare : d.isBare = true) (h : d.isReadable = true)
    {mark : Char} (hmark : isPlain mark = false) (rest rest' : List Char) :
    d.text ++ rest ≠ mark :: rest' := by
  intro heq
  obtain ⟨hne, hplain⟩ := text_of_isBare hbare h
  obtain ⟨first, tail, htext⟩ := List.exists_cons_of_ne_nil hne
  rw [htext] at heq
  have hfirst := hplain first (by simp [htext])
  rw [(List.cons.inj heq).1, hmark] at hfirst
  cases hfirst

/-- Strings, characters and lists start with a mark. -/
theorem exists_mark {d : Datum} (hbare : d.isBare = false) :
    ∃ mark tail, d.text = mark :: tail ∧ isPlain mark = false ∧ mark ≠ ')' := by
  cases d with
  | number | count | word => cases hbare
  | string s =>
      rw [text, Text.toList_quoteString]
      exact ⟨_, _, rfl, by decide, by decide⟩
  | character | list =>
      rw [text]
      exact ⟨_, _, rfl, by decide, by decide⟩

/-- Whether something marks a datum is told by its text. -/
theorem isBare_eq {d d' : Datum} (h : d.isReadable = true) (h' : d'.isReadable = true)
    {rest rest' : List Char} (heq : d.text ++ rest = d'.text ++ rest') : d.isBare = d'.isBare := by
  cases hbare : d.isBare <;> cases hbare' : d'.isBare
  · rfl
  · obtain ⟨mark, tail, htext, hmark, -⟩ := exists_mark hbare
    rw [htext] at heq
    exact absurd heq.symm (text_append_ne_cons hbare' h' hmark _ _)
  · obtain ⟨mark, tail, htext, hmark, -⟩ := exists_mark hbare'
    rw [htext] at heq
    exact absurd heq (text_append_ne_cons hbare h hmark _ _)
  · rfl

/-- The text ends here, or a list does. -/
def Closes (rest : List Char) : Prop := ∀ c ∈ rest.head?, c = ')'

theorem closes_nil : Closes [] := nofun

theorem closes_cons (rest : List Char) : Closes (')' :: rest) := by
  intro c hc
  cases hc
  rfl

theorem Closes.stops {rest : List Char} (h : Closes rest) : Text.Stops isPlain rest := by
  intro c hc
  rw [h c hc]
  rfl

/-- No datum stands where the text or a list ends. -/
theorem Closes.ne_text_append {rest : List Char} (hrest : Closes rest) {d : Datum}
    (h : d.isReadable = true) (rest' : List Char) : rest ≠ d.text ++ rest' := by
  rintro rfl
  cases hbare : d.isBare with
  | true =>
      obtain ⟨hne, hplain⟩ := text_of_isBare hbare h
      obtain ⟨first, tail, htext⟩ := List.exists_cons_of_ne_nil hne
      have hfirst := hplain first (by simp [htext])
      rw [hrest first (by rw [htext]; rfl)] at hfirst
      cases hfirst
  | false =>
      obtain ⟨mark, tail, htext, -, hmark⟩ := exists_mark hbare
      exact hmark (hrest mark (by rw [htext]; rfl))

/-- The character parts data. -/
def Parts (separator : Char) : Prop := isPlain separator = false ∧ separator ≠ ')'

theorem Closes.ne_cons {rest : List Char} (h : Closes rest) {separator : Char}
    (hparts : Parts separator) (rest' : List Char) : rest ≠ separator :: rest' := by
  rintro rfl
  exact hparts.2 (h separator rfl)

theorem stops_following {separator : Char} (hparts : Parts separator) (ds : List Datum)
    {rest : List Char} (hrest : Closes rest) :
    Text.Stops isPlain (following separator ds ++ rest) := by
  cases ds with
  | nil => exact hrest.stops
  | cons d ds => exact Text.stops_cons hparts.1 _

mutual

/-- A datum is told by its text, and so is where it ends. -/
theorem text_append_inj (d d' : Datum) (h : d.isReadable = true) (h' : d'.isReadable = true)
    {rest rest' : List Char} (hrest : Text.Stops isPlain rest) (hrest' : Text.Stops isPlain rest')
    (heq : d.text ++ rest = d'.text ++ rest') : d = d' ∧ rest = rest' := by
  have hbares := isBare_eq h h' heq
  cases d with
  | number | count | word =>
      -- both are runs of plain characters, and neither rest goes on with one
      obtain ⟨htext, hrests⟩ := Text.append_inj_of_stops (text_of_isBare rfl h).2
        (text_of_isBare hbares.symm h').2 hrest hrest' heq
      exact ⟨eq_of_text_eq rfl hbares.symm h h' htext, hrests⟩
  | string s =>
      cases d' with
      | number | count | word => cases hbares
      | string s' =>
          obtain ⟨rfl, hrests⟩ := Text.quoteString_append_inj heq
          exact ⟨rfl, hrests⟩
      | character | list =>
          rw [text, Text.toList_quoteString] at heq
          exact absurd (List.cons.inj heq).1 (by decide)
  | character c =>
      cases d' with
      | number | count | word => cases hbares
      | string s' =>
          rw [text, text, Text.toList_quoteString] at heq
          exact absurd (List.cons.inj heq).1 (by decide)
      | character c' =>
          obtain ⟨rfl, hrests⟩ := Text.escapeChar_append_inj (List.cons.inj heq).2
          exact ⟨rfl, hrests⟩
      | list => exact absurd (List.cons.inj heq).1 (by decide)
  | list items =>
      cases d' with
      | number | count | word => cases hbares
      | string s' =>
          rw [text, text, Text.toList_quoteString] at heq
          exact absurd (List.cons.inj heq).1 (by decide)
      | character => exact absurd (List.cons.inj heq).1 (by decide)
      | list items' =>
          rw [text, text, List.cons_append, List.cons_append, List.append_assoc,
            List.append_assoc] at heq
          obtain ⟨rfl, hrests⟩ := joined_append_inj items items' ⟨by decide, by decide⟩ h h'
            (closes_cons rest) (closes_cons rest') (List.cons.inj heq).2
          exact ⟨rfl, (List.cons.inj hrests).2⟩

/-- Data with a separator between each two of them are told by their texts. -/
theorem joined_append_inj (ds ds' : List Datum) {separator : Char} (hparts : Parts separator)
    (h : areReadable ds = true) (h' : areReadable ds' = true)
    {rest rest' : List Char} (hrest : Closes rest) (hrest' : Closes rest')
    (heq : joined separator ds ++ rest = joined separator ds' ++ rest') :
    ds = ds' ∧ rest = rest' := by
  cases ds with
  | nil =>
      cases ds' with
      | nil => exact ⟨rfl, heq⟩
      | cons d' ds' =>
          rw [areReadable, Bool.and_eq_true] at h'
          rw [joined, joined, List.append_assoc] at heq
          exact absurd heq (hrest.ne_text_append h'.1 _)
  | cons d ds =>
      rw [areReadable, Bool.and_eq_true] at h
      cases ds' with
      | nil =>
          rw [joined, joined, List.append_assoc] at heq
          exact absurd heq.symm (hrest'.ne_text_append h.1 _)
      | cons d' ds' =>
          rw [areReadable, Bool.and_eq_true] at h'
          rw [joined, joined, List.append_assoc, List.append_assoc] at heq
          obtain ⟨rfl, htails⟩ := text_append_inj d d' h.1 h'.1 (stops_following hparts ds hrest)
            (stops_following hparts ds' hrest') heq
          obtain ⟨rfl, hrests⟩ := following_append_inj ds ds' hparts h.2 h'.2 hrest hrest' htails
          exact ⟨rfl, hrests⟩

/-- Data with a separator before each of them are told by their texts. -/
theorem following_append_inj (ds ds' : List Datum) {separator : Char} (hparts : Parts separator)
    (h : areReadable ds = true) (h' : areReadable ds' = true)
    {rest rest' : List Char} (hrest : Closes rest) (hrest' : Closes rest')
    (heq : following separator ds ++ rest = following separator ds' ++ rest') :
    ds = ds' ∧ rest = rest' := by
  cases ds with
  | nil =>
      cases ds' with
      | nil => exact ⟨rfl, heq⟩
      | cons d' ds' =>
          rw [following, following] at heq
          exact absurd heq (hrest.ne_cons hparts _)
  | cons d ds =>
      rw [areReadable, Bool.and_eq_true] at h
      cases ds' with
      | nil =>
          rw [following, following] at heq
          exact absurd heq.symm (hrest'.ne_cons hparts _)
      | cons d' ds' =>
          rw [areReadable, Bool.and_eq_true] at h'
          rw [following, following, List.cons_append, List.cons_append, List.append_assoc,
            List.append_assoc] at heq
          obtain ⟨rfl, htails⟩ := text_append_inj d d' h.1 h'.1 (stops_following hparts ds hrest)
            (stops_following hparts ds' hrest') (List.cons.inj heq).2
          obtain ⟨rfl, hrests⟩ := following_append_inj ds ds' hparts h.2 h'.2 hrest hrest' htails
          exact ⟨rfl, hrests⟩

end

end Datum

end ListScript
