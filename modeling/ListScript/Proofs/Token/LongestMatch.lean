import ListScript.Proofs.Token.Tiling

/-!
# Longest match

A token is the longest text of its class that stands where it begins: symbols and keywords among the
spellings, names and keywords among the words, numbers among the numerals. Only where none of these
and no string or character begins, a character is not recognized. What begins at a character is
taken apart once (`Piece.begins_beginning`), and `scan_longest` collects what is said of each class.
-/

namespace ListScript.Token

/-! ## Classes of texts -/

/-- A letter or underscore, and then letters, digits and underscores. -/
def isWord : List Char → Bool
  | [] => false
  | first :: rest => isWordStart first && rest.all isWordPart

/-- One digit or more. -/
def isDigits (chars : List Char) : Bool := !chars.isEmpty && chars.all Char.isDigit

/-- Digits, or digits with a point between them. -/
def IsNumeral (chars : List Char) : Prop :=
  isDigits chars = true ∨ ∃ whole fraction, chars = whole ++ '.' :: fraction ∧
    isDigits whole = true ∧ isDigits fraction = true

/-- The spelling of a symbol or a keyword. -/
def IsSpelling (chars : List Char) : Prop :=
  ∃ kind : Kind, ∃ spelling, kind.spelling? = some spelling ∧ chars = spelling.toList

/-- The character begins a word, a number, a string or a character literal. -/
def startsWordOrLiteral (c : Char) : Bool := c == '\x22' || c == '@' || c.isDigit || isWordStart c

/-- A name or a keyword. -/
def Kind.isWordKind : Kind → Bool
  | .identifier | .keyword _ => true
  | _ => false

/-- The text begins with the given characters, which are in the class, and with no longer ones that
are in it. -/
structure Longest (P : List Char → Prop) (chars text : List Char) : Prop where
  mem : P chars
  begins : chars <+: text
  length_le : ∀ other, P other → other <+: text → other.length ≤ chars.length

/-- If the whole text is in the class, it is the longest. -/
theorem Longest.eq_of_mem {P : List Char → Prop} {chars text : List Char}
    (h : Longest P chars text) (htext : P text) : chars = text :=
  h.begins.eq_of_length_le (h.length_le text htext (List.prefix_refl text))

theorem isDigits_iff {chars : List Char} :
    isDigits chars = true ↔ chars ≠ [] ∧ ∀ c ∈ chars, c.isDigit = true := by
  simp [isDigits]

/-- A symbol is written with its spelling. -/
theorem isSpelling_symbol (s : Symbol) : IsSpelling s.spelling.toList := ⟨.symbol s, _, rfl, rfl⟩

/-- A keyword is written with its spelling. -/
theorem isSpelling_keyword (k : Keyword) : IsSpelling k.spelling.toList := ⟨.keyword k, _, rfl, rfl⟩

/-- A spelling is that of a symbol or of a keyword. -/
theorem IsSpelling.cases {chars : List Char} (h : IsSpelling chars) :
    (∃ s : Symbol, chars = s.spelling.toList) ∨ ∃ k : Keyword, chars = k.spelling.toList := by
  obtain ⟨kind, spelling, hkind, rfl⟩ := h
  cases kind with
  | symbol s =>
      cases hkind
      exact .inl ⟨s, rfl⟩
  | keyword k =>
      cases hkind
      exact .inr ⟨k, rfl⟩
  | _ => cases hkind

/-- Keywords have the form of a word. -/
theorem isWord_keyword (k : Keyword) : isWord k.spelling.toList = true := by
  cases k <;> decide

/-- A run of characters is no longer than the longest one. -/
theorem length_le_takeWhile {p : Char → Bool} {chars text : List Char}
    (hchars : ∀ c ∈ chars, p c = true) (h : chars <+: text) :
    chars.length ≤ (text.takeWhile p).length := by
  obtain ⟨more, rfl⟩ := h
  rw [List.takeWhile_append_of_pos hchars, List.length_append]
  exact Nat.le_add_right _ _

namespace Piece

/-! ## Words -/

/-- A word is the longest one at its start. -/
theorem longest_word {first : Char} (h : isWordStart first = true) (rest : List Char) :
    Longest (isWord · = true) (first :: rest.takeWhile isWordPart) (first :: rest) where
  mem := by simp [isWord, h]
  begins := List.cons_prefix_cons.2 ⟨rfl, List.takeWhile_prefix _⟩
  length_le other hother hbegins := by
    cases other with
    | nil => exact Nat.zero_le _
    | cons c other =>
        rw [isWord, Bool.and_eq_true, List.all_eq_true] at hother
        have hle := length_le_takeWhile hother.2 (List.cons_prefix_cons.1 hbegins).2
        exact Nat.succ_le_succ hle

/-- A word takes all the characters that can go on with it. -/
theorem take_word (first : Char) (rest : List Char) :
    rest.take (word first rest).tailLength = rest.takeWhile isWordPart := by
  rw [word_tailLength]
  exact (List.prefix_iff_eq_take.1 (List.takeWhile_prefix _)).symm

/-! ## Numbers -/

/-- A number has a fraction exactly if there are a point and a digit after its first digits. -/
theorem number_cases (rest : List Char) :
    let digits := rest.takeWhile Char.isDigit
    (∃ fraction, rest = digits ++ '.' :: fraction ∧ fraction.takeWhile Char.isDigit ≠ [] ∧
      rest.take (number rest).tailLength = digits ++ '.' :: fraction.takeWhile Char.isDigit) ∨
    ((∀ fraction, rest = digits ++ '.' :: fraction → fraction.takeWhile Char.isDigit = []) ∧
      rest.take (number rest).tailLength = digits) := by
  intro digits
  have hdigits : digits <+: rest := List.takeWhile_prefix _
  have hsplit := List.prefix_iff_eq_append.1 hdigits
  unfold number
  dsimp only
  split
  · next fraction hdrop =>
      rw [hdrop] at hsplit
      by_cases hplaces : fraction.takeWhile Char.isDigit = []
      · refine .inr ⟨fun other hother => ?_, ?_⟩
        · cases List.append_cancel_left (hsplit.trans hother)
          exact hplaces
        · rw [hplaces]
          exact (List.prefix_iff_eq_take.1 hdigits).symm
      · refine .inl ⟨fraction, hsplit.symm, hplaces, ?_⟩
        have htaken : digits ++ '.' :: fraction.takeWhile Char.isDigit <+: rest := by
          rw [← hsplit, List.prefix_append_right_inj, List.cons_prefix_cons]
          exact ⟨rfl, List.takeWhile_prefix _⟩
        rw [List.prefix_iff_eq_take.1 htaken, if_neg (by simpa using hplaces), List.length_append,
          List.length_cons, Nat.add_right_comm, Nat.add_assoc]
  · next hpoint =>
      refine .inr ⟨fun fraction hfraction => ?_, (List.prefix_iff_eq_take.1 hdigits).symm⟩
      exact (hpoint fraction (List.append_cancel_left (hsplit.trans hfraction))).elim

/-- The digits before a point are all that there are. -/
theorem takeWhile_isDigit_of_point {whole : List Char} (h : ∀ c ∈ whole, c.isDigit = true)
    (more : List Char) : (whole ++ '.' :: more).takeWhile Char.isDigit = whole := by
  rw [List.takeWhile_append_of_pos h, List.takeWhile_cons_of_neg (by decide), List.append_nil]

/-- A number is the longest numeral at its start. -/
theorem longest_number {first : Char} (h : first.isDigit = true) (rest : List Char) :
    Longest IsNumeral (first :: rest.take (number rest).tailLength) (first :: rest) := by
  have htext : (first :: rest).takeWhile Char.isDigit = first :: rest.takeWhile Char.isDigit :=
    List.takeWhile_cons_of_pos h
  have hdigits : isDigits (first :: rest.takeWhile Char.isDigit) = true := by
    simp [isDigits, h]
  refine ⟨?_, List.cons_prefix_cons.2 ⟨rfl, List.take_prefix _ _⟩, ?_⟩
  · obtain ⟨fraction, -, hplaces, htaken⟩ | ⟨-, htaken⟩ := number_cases rest
    · rw [htaken]
      exact .inr ⟨_, _, rfl, hdigits, by simp [isDigits, hplaces]⟩
    · rw [htaken]
      exact .inl hdigits
  · rintro other (hother | ⟨whole, fraction, rfl, hwhole, hfraction⟩) hbegins
    · have hle := length_le_takeWhile (isDigits_iff.1 hother).2 hbegins
      rw [htext] at hle
      refine Nat.le_trans hle (Nat.succ_le_succ ?_)
      obtain ⟨fraction, -, -, htaken⟩ | ⟨-, htaken⟩ := number_cases rest
      · rw [htaken]
        simp
      · exact Nat.le_of_eq (congrArg List.length htaken).symm
    · -- A numeral with a point has the same digits before it, and so the number has the point too.
      obtain ⟨more, hmore⟩ := hbegins
      rw [List.append_assoc, List.cons_append] at hmore
      have hsame := takeWhile_isDigit_of_point (isDigits_iff.1 hwhole).2 (fraction ++ more)
      rw [hmore, htext] at hsame
      subst hsame
      have hrest : rest.takeWhile Char.isDigit ++ '.' :: (fraction ++ more) = rest :=
        (List.cons.inj hmore).2
      have hplaces := length_le_takeWhile (isDigits_iff.1 hfraction).2 (List.prefix_append _ more)
      have hpos := List.length_pos_iff.2 (isDigits_iff.1 hfraction).1
      obtain ⟨fraction', hrest', -, htaken⟩ | ⟨hnone, -⟩ := number_cases rest
      · rw [htaken]
        cases List.append_cancel_left (hrest.trans hrest')
        simpa using hplaces
      · rw [hnone _ hrest.symm, List.length_nil] at hplaces
        omega

/-! ## What begins at a character -/

/-- The pieces by what they begin with. -/
inductive Begins (first : Char) (rest : List Char) : Piece → Prop where
  | string (h : first = '\x22') : Begins first rest (.string rest)
  | character (h : first = '@') : Begins first rest (.character rest)
  | number (h : first.isDigit = true) : Begins first rest (.number rest)
  | word (h : isWordStart first = true) : Begins first rest (.word first rest)
  | symbol {s : Symbol} {n : Nat} (h : startsWordOrLiteral first = false)
      (hs : symbol? first rest = some (s, n)) : Begins first rest ⟨.ok (.symbol s), n⟩
  | unrecognized (h : startsWordOrLiteral first = false) (hs : symbol? first rest = none) :
      Begins first rest ⟨.error (.unrecognized first), 0⟩

/-- A piece begins as its first character says. -/
theorem begins_beginning (first : Char) (rest : List Char) :
    Begins first rest (beginning first rest) := by
  unfold beginning
  split
  · next h => exact .string (beq_iff_eq.1 h)
  split
  · next h => exact .character (beq_iff_eq.1 h)
  split
  · next h => exact .number h
  split
  · next h => exact .word h
  · have hother : startsWordOrLiteral first = false := by simp_all [startsWordOrLiteral]
    split
    · next s n hs => exact .symbol hother hs
    · next hs => exact .unrecognized hother hs

/-- A symbol starts with nothing that another token starts with. -/
theorem startsWordOrLiteral_of_symbol {s : Symbol} {first : Char} {rest : List Char}
    (h : s.spelling.toList <+: first :: rest) : startsWordOrLiteral first = false := by
  obtain ⟨c, tail, hs, hquote, hmark, hdigit, hstart⟩ := exists_spelling_eq_cons s
  rw [hs] at h
  obtain ⟨rfl, -⟩ := List.cons_prefix_cons.1 h
  simp [startsWordOrLiteral, hquote, hmark, hdigit, hstart]

/-- A keyword starts as words do. -/
theorem isWordStart_of_keyword {k : Keyword} {first : Char} {rest : List Char}
    (h : k.spelling.toList <+: first :: rest) : isWordStart first = true := by
  have hword := isWord_keyword k
  cases hk : k.spelling.toList with
  | nil =>
      rw [hk] at hword
      cases hword
  | cons c tail =>
      rw [hk] at h hword
      obtain ⟨rfl, -⟩ := List.cons_prefix_cons.1 h
      exact (Bool.and_eq_true_iff.1 hword).1

/-- What starts a word starts a word or a literal. -/
theorem startsWordOrLiteral_of_isWordStart {c : Char} (h : isWordStart c = true) :
    startsWordOrLiteral c = true := by
  simp [startsWordOrLiteral, h]

/-- Where no other token begins, no symbol is found exactly if the text begins with no spelling. -/
theorem symbol?_eq_none_iff {first : Char} {rest : List Char}
    (h : startsWordOrLiteral first = false) :
    symbol? first rest = none ↔ ∀ chars, IsSpelling chars → ¬ chars <+: first :: rest := by
  constructor
  · intro hnone chars hchars hbegins
    obtain ⟨s, rfl⟩ | ⟨k, rfl⟩ := hchars.cases
    · obtain ⟨t, n, ht, -⟩ := exists_symbol? hbegins
      rw [hnone] at ht
      cases ht
    · rw [startsWordOrLiteral_of_isWordStart (isWordStart_of_keyword hbegins)] at h
      cases h
  · intro hnone
    cases hs : symbol? first rest with
    | none => rfl
    | some found => exact (hnone _ (isSpelling_symbol found.1) (spelling_of_symbol? hs).1).elim

/-- What is taken for a symbol is the longest spelling. -/
theorem longest_symbol {first : Char} {rest : List Char} {s : Symbol} {n : Nat}
    (h : startsWordOrLiteral first = false) (hs : symbol? first rest = some (s, n)) :
    Longest IsSpelling s.spelling.toList (first :: rest) where
  mem := isSpelling_symbol s
  begins := (spelling_of_symbol? hs).1
  length_le other hother hbegins := by
    obtain ⟨t, rfl⟩ | ⟨k, rfl⟩ := hother.cases
    · obtain ⟨s', n', hs', hle⟩ := exists_symbol? hbegins
      rw [hs] at hs'
      cases hs'
      rw [String.length_toList, String.length_toList, (spelling_of_symbol? hs).2]
      exact hle
    · rw [startsWordOrLiteral_of_isWordStart (isWordStart_of_keyword hbegins)] at h
      cases h

/-- What is taken for a keyword is the longest spelling. -/
theorem longest_keyword {first : Char} {rest : List Char} {k : Keyword}
    (h : isWordStart first = true) (hk : k.spelling.toList = first :: rest.takeWhile isWordPart) :
    Longest IsSpelling k.spelling.toList (first :: rest) where
  mem := isSpelling_keyword k
  begins := by
    rw [hk]
    exact (longest_word h rest).begins
  length_le other hother hbegins := by
    obtain ⟨s, rfl⟩ | ⟨k', rfl⟩ := hother.cases
    · have hother := startsWordOrLiteral_of_symbol hbegins
      rw [startsWordOrLiteral_of_isWordStart h] at hother
      cases hother
    · rw [hk]
      exact (longest_word h rest).length_le _ (isWord_keyword k') hbegins

end Piece

/-- The characters are the longest match for a token of the kind at the beginning of the text. -/
structure LongestMatch (kind : Kind) (chars text : List Char) : Prop where
  /-- A symbol or keyword is spelled as it must be, and the text begins with no longer spelling. -/
  spelling : ∀ spelling, kind.spelling? = some spelling →
    chars = spelling.toList ∧ Longest IsSpelling chars text
  /-- A name or keyword is the longest word, and is a keyword if it is spelled like one. -/
  word : kind.isWordKind = true → Longest (isWord · = true) chars text ∧
    ∀ k : Keyword, kind = .keyword k ↔ chars = k.spelling.toList
  /-- A number is the longest numeral. -/
  numeral : kind = .number → Longest IsNumeral chars text

namespace Piece

/-- A token is the longest match. -/
theorem longestMatch_beginning {first : Char} {rest : List Char} {kind : Kind}
    (h : (beginning first rest).result = .ok kind) :
    LongestMatch kind (first :: rest.take (beginning first rest).tailLength) (first :: rest) := by
  have hbegins := begins_beginning first rest
  generalize beginning first rest = piece at h hbegins
  cases hbegins with
  | string hfirst =>
      cases result_string rest h
      exact ⟨by simp [Kind.spelling?], by simp [Kind.isWordKind], by simp⟩
  | character hfirst =>
      cases result_character rest h
      exact ⟨by simp [Kind.spelling?], by simp [Kind.isWordKind], by simp⟩
  | number hfirst =>
      rw [result_number] at h
      cases h
      exact ⟨by simp [Kind.spelling?], by simp [Kind.isWordKind],
        fun _ => longest_number hfirst rest⟩
  | word hfirst =>
      have hword := longest_word hfirst rest
      rw [take_word]
      rw [word] at h
      cases hk : keyword? (first :: rest.takeWhile isWordPart) with
      | none =>
          rw [hk] at h
          cases h
          refine ⟨by simp [Kind.spelling?], fun _ => ⟨hword, fun k => ?_⟩, by simp⟩
          rw [eq_comm (b := k.spelling.toList), ← keyword?_eq_some_iff, hk]
          simp
      | some k =>
          rw [hk] at h
          cases h
          refine ⟨fun spelling hspelling => ?_, fun _ => ⟨hword, fun k' => ?_⟩, by simp⟩
          · cases hspelling
            rw [← keyword?_eq_some_iff.1 hk]
            exact ⟨rfl, longest_keyword hfirst (keyword?_eq_some_iff.1 hk)⟩
          · rw [eq_comm (b := k'.spelling.toList), ← keyword?_eq_some_iff, hk]
            simp
  | @symbol s n hother hs =>
      cases h
      refine ⟨fun spelling hspelling => ?_, by simp [Kind.isWordKind], by simp⟩
      cases hspelling
      have htaken : first :: rest.take n = s.spelling.toList := by
        obtain ⟨hbegins, hlength⟩ := spelling_of_symbol? hs
        rw [List.prefix_iff_eq_take.1 hbegins, String.length_toList, hlength, List.take_succ_cons]
      rw [htaken]
      exact ⟨rfl, longest_symbol hother hs⟩
  | unrecognized => cases h

/-- A text is never reported as a character that begins nothing. -/
theorem result_string_ne (chars : List Char) (c : Char) :
    (string chars).result ≠ .error (.unrecognized c) := by
  fun_induction string chars <;> simp_all

/-- A character literal is never reported as a character that begins nothing. -/
theorem result_character_ne (chars : List Char) (c : Char) :
    (character chars).result ≠ .error (.unrecognized c) := by
  unfold character
  split
  · simp
  · simp
  · split <;> simp
  · simp

/-- A character is not recognized exactly if no spelling and no other token begins with it. -/
theorem unrecognized_iff {first c : Char} {rest : List Char} :
    (beginning first rest).result = .error (.unrecognized c) ↔
      c = first ∧ (∀ chars, IsSpelling chars → ¬ chars <+: first :: rest) ∧
        startsWordOrLiteral first = false := by
  have hbegins := begins_beginning first rest
  generalize beginning first rest = piece at hbegins
  cases hbegins with
  | string hfirst => simp [result_string_ne, startsWordOrLiteral, hfirst]
  | character hfirst => simp [result_character_ne, startsWordOrLiteral, hfirst]
  | number hfirst => simp [result_number, startsWordOrLiteral, hfirst]
  | word hfirst =>
      have hresult : (word first rest).result ≠ .error (.unrecognized c) := by
        unfold word
        dsimp only
        split <;> simp
      simp [hresult, startsWordOrLiteral, hfirst]
  | symbol hother hs => simp [← symbol?_eq_none_iff hother, hs]
  | unrecognized hother hs => simp [← symbol?_eq_none_iff hother, hs, hother, eq_comm]

end Piece

/-! ## The whole text -/

/-- `Found source item first rest` says that the item begins with a character of the source, with a
given text after it, and is what begins there. -/
structure Found (source : String) (item : Except LexError Token) (first : Char)
    (rest : List Char) : Prop where
  text_eq : Span.dropBytes (itemSpan item).start source.toList = some (first :: rest)
  token_eq : ∀ token, item = .ok token →
    (Piece.beginning first rest).result = .ok token.kind ∧
      token.lexeme.toList = first :: rest.take (Piece.beginning first rest).tailLength
  error_eq : ∀ error, item = .error error →
    (Piece.beginning first rest).result = .error error.cause

/-- The rest at a cursor is the source after so many bytes. -/
theorem Cursor.Within.dropBytes {source : String} {cursor : Cursor} (h : cursor.Within source) :
    Span.dropBytes cursor.offset source.toList = some cursor.rest := by
  obtain ⟨before, hsource, hoffset⟩ := h
  rw [hsource, hoffset, dropBytes_byteLength]

/-- Every item begins somewhere in the source. -/
theorem Cursor.Within.exists_found {source : String} {cursor : Cursor} (h : cursor.Within source)
    {item : Except LexError Token} (hitem : item ∈ cursor.items) :
    ∃ first rest, Found source item first rest := by
  fun_induction items cursor with
  | case1 => cases hitem
  | case2 cursor item' after hnext ih =>
      obtain rfl | hmem := List.mem_cons.1 hitem
      · obtain ⟨first, rest, hrest, rfl, -⟩ := exists_of_next? hnext
        refine ⟨first, rest, ?_, fun token htoken => ?_, fun error herror => ?_⟩
        · rw [itemSpan_itemAt, Span.start_between, (h.advance _).dropBytes, hrest]
        · have hyields := yields_of_itemAt hrest htoken
          exact ⟨hyields.kind_eq, by rw [hyields.lexeme_eq, String.toList_ofList]⟩
        · unfold itemAt at herror
          dsimp only at herror
          split at herror
          · cases herror
          · next cause hcause =>
              cases herror
              exact hcause
      · exact ih (h.next? hnext) hmem

/-- Each item was found at some place of the source. -/
theorem exists_found {source : String} {item : Except LexError Token} (h : item ∈ scan source) :
    ∃ first rest, Found source item first rest :=
  (Cursor.within_start source).exists_found h

/-- What is found in a source text is the longest match: a token is the longest spelling, word or
numeral that stands where it begins, and a character is not recognized exactly if no spelling stands
there and no word, number, string or character literal begins with it. -/
theorem scan_longest {source : String} {item : Except LexError Token} (h : item ∈ scan source) :
    ∃ first rest, Span.dropBytes (itemSpan item).start source.toList = some (first :: rest) ∧
      (∀ token, item = .ok token →
        LongestMatch token.kind token.lexeme.toList (first :: rest)) ∧
      ∀ c, (∃ span, item = .error ⟨.unrecognized c, span⟩) ↔
        c = first ∧ (∀ chars, IsSpelling chars → ¬ chars <+: first :: rest) ∧
          startsWordOrLiteral first = false := by
  obtain ⟨first, rest, hfound⟩ := exists_found h
  refine ⟨first, rest, hfound.text_eq, fun token htoken => ?_, fun c => ?_⟩
  · obtain ⟨hkind, hlexeme⟩ := hfound.token_eq token htoken
    rw [hlexeme]
    exact Piece.longestMatch_beginning hkind
  · rw [← Piece.unrecognized_iff]
    cases item with
    | ok token => simp [(hfound.token_eq token rfl).1]
    | error error =>
        obtain ⟨cause, span⟩ := error
        simp [hfound.error_eq ⟨cause, span⟩ rfl]

/-- In a range up to and with its last number, the two points and the sign are one symbol, and none
of them belongs to the number before. -/
theorem scan_longest_range :
    let number : Token := ⟨.number, ⟨0, 1⟩, "1", false⟩
    let sign : Token := ⟨.symbol .doubleDotEqual, ⟨1, 3⟩, "..=", false⟩
    .ok number ∈ scan "1..=5" ∧ .ok sign ∈ scan "1..=5" ∧
      LongestMatch .number "1".toList "1..=5".toList ∧
      LongestMatch (.symbol .doubleDotEqual) "..=".toList "..=5".toList := by
  intro number sign
  have hscan : scan "1..=5" = [number, sign, ⟨.number, ⟨4, 1⟩, "5", false⟩].map .ok :=
    scan_of_tokens? (by decide +kernel)
  have hnumber : .ok number ∈ scan "1..=5" := by simp [hscan]
  have hsign : .ok sign ∈ scan "1..=5" := by simp [hscan]
  refine ⟨hnumber, hsign, ?_, ?_⟩
  · obtain ⟨first, rest, htext, hmatch, -⟩ := scan_longest hnumber
    have hstart : Span.dropBytes 0 "1..=5".toList = some "1..=5".toList := by decide +kernel
    rw [Option.some.inj (htext.symm.trans hstart)] at hmatch
    exact hmatch number rfl
  · obtain ⟨first, rest, htext, hmatch, -⟩ := scan_longest hsign
    have hstart : Span.dropBytes 1 "1..=5".toList = some "..=5".toList := by decide +kernel
    rw [Option.some.inj (htext.symm.trans hstart)] at hmatch
    exact hmatch sign rfl

end ListScript.Token
