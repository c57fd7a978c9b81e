import ListScript.Proofs.Token.Lookahead
import ListScript.Proofs.Token.Scanning

/-!
# Scanning texts put together

A piece of text that scans as a token is not changed by a blank after it and whatever comes then
(`Piece.beginning_append`). So texts can be scanned one after the other: words with spaces between
them (`scan_spaced`), and two texts with a newline between them (`scan_join`).
-/

namespace ListScript

/-! ## Blanks belong to no token -/

theorem Text.isBlank_lt {c : Char} (h : Text.isBlank c = true) :
    c.toNat ≤ 32 ∨ 133 ≤ c.toNat := by
  unfold Text.isBlank at h
  simp only [Bool.or_eq_true, Bool.and_eq_true, decide_eq_true_eq, beq_iff_eq] at h
  omega

namespace Token

/-- Letters are two ranges of code points. -/
theorem toNat_of_isAlpha {c : Char} (h : c.isAlpha = true) :
    65 ≤ c.toNat ∧ c.toNat ≤ 90 ∨ 97 ≤ c.toNat ∧ c.toNat ≤ 122 := by
  have hranges : (decide (c.val ≥ 'A'.val ∧ c.val ≤ 'Z'.val) ||
      decide (c.val ≥ 'a'.val) && decide (c.val ≤ 'z'.val)) = true := h
  simp only [Bool.or_eq_true, Bool.and_eq_true, decide_eq_true_eq, ge_iff_le,
    UInt32.le_iff_toNat_le] at hranges
  exact hranges

theorem isWordPart_of_isBlank {c : Char} (h : Text.isBlank c = true) : isWordPart c = false := by
  have hblank := Text.isBlank_lt h
  rw [Bool.eq_false_iff]
  intro hpart
  simp only [isWordPart, Char.isAlphanum, Bool.or_eq_true, beq_iff_eq] at hpart
  obtain (halpha | hdigit) | rfl := hpart
  · have := toNat_of_isAlpha halpha
    omega
  · have hrange : 48 ≤ c.toNat ∧ c.toNat ≤ 57 := Char.isDigit_iff_toNat.1 hdigit
    omega
  · revert h
    decide

theorem isDigit_of_isBlank {c : Char} (h : Text.isBlank c = true) : c.isDigit = false := by
  have hpart := isWordPart_of_isBlank h
  simp only [isWordPart, Char.isAlphanum, Bool.or_eq_false_iff] at hpart
  exact hpart.1.2

theorem isDigit_of_isWordStart {c : Char} (h : isWordStart c = true) : c.isDigit = false := by
  rw [Bool.eq_false_iff]
  intro hdigit
  have hrange : 48 ≤ c.toNat ∧ c.toNat ≤ 57 := Char.isDigit_iff_toNat.1 hdigit
  simp only [isWordStart, Bool.or_eq_true, beq_iff_eq] at h
  obtain halpha | rfl := h
  · have := toNat_of_isAlpha halpha
    omega
  · revert hdigit
    decide

/-- No symbol has a blank in it. -/
theorem not_mem_spelling {c : Char} (h : Text.isBlank c = true) (s : Symbol) :
    c ∉ s.spelling.toList := by
  intro hmem
  have hclear : s.spelling.toList.any Text.isBlank = false := by
    cases s <;> rfl
  rw [List.any_eq_true.2 ⟨c, hmem, h⟩] at hclear
  cases hclear

namespace Piece

variable {c : Char} (hc : Text.isBlank c = true) (more : List Char)

theorem string_of_ne {d : Char} (hquote : d ≠ '\x22') (hslash : d ≠ '\\') (rest : List Char) :
    string (d :: rest) = (string rest).after 1 := by
  rw [string]
  · exact hquote
  · exact fun h _ => hslash h
  · exact fun _ _ h _ => hslash h

/-- A backslash in a string begins an escape or stands at the end. -/
theorem ne_backslash {d : Char} {rest : List Char} (hlone : d = '\\' → rest = [] → False)
    (hescape : ∀ e more, d = '\\' → rest = e :: more → False) : d ≠ '\\' := by
  rintro rfl
  cases rest with
  | nil => exact hlone rfl rfl
  | cons e rest => exact hescape e rest rfl rfl

/-- A closed string is not changed by what comes after it. -/
theorem string_append (chars more : List Char) {kind : Kind}
    (h : (string chars).result = .ok kind) : string (chars ++ more) = string chars := by
  fun_induction string chars with
  | case1 => cases h
  | case2 => rfl
  | case3 => cases h
  | case4 d rest hd ih =>
      show string ('\\' :: d :: (rest ++ more)) = _
      rw [string, if_pos hd, ih h]
  | case5 => cases h
  | case6 d rest hquote hlone hescape ih =>
      rw [List.cons_append, string_of_ne hquote (ne_backslash hlone hescape), ih h]

theorem character_of_ne {d : Char} (hd : d ≠ '\\') (rest : List Char) :
    character (d :: rest) = ⟨.ok .character, 1⟩ := by
  rw [character]
  · exact fun h _ => hd h
  · exact fun _ _ h _ => hd h

/-- A character literal is not changed by what comes after it. -/
theorem character_append (chars more : List Char) {kind : Kind}
    (h : (character chars).result = .ok kind) : character (chars ++ more) = character chars := by
  cases chars with
  | nil => cases h
  | cons d rest =>
      by_cases hd : d = '\\'
      · subst hd
        cases rest with
        | nil => cases h
        | cons e rest => rfl
      · rw [List.cons_append, character_of_ne hd, character_of_ne hd]

omit hc in
/-- A run of characters that a blank does not belong to ends where the text does. -/
theorem takeWhile_append {p : Char → Bool} (hp : p c = false) (chars : List Char) :
    (chars ++ c :: more).takeWhile p = chars.takeWhile p := by
  induction chars with
  | nil => simp [hp]
  | cons d chars ih => rw [List.cons_append, List.takeWhile_cons, List.takeWhile_cons, ih]

include hc

theorem number_append (chars : List Char) : number (chars ++ c :: more) = number chars := by
  have hdigit := isDigit_of_isBlank hc
  have hlength : (chars.takeWhile Char.isDigit).length ≤ chars.length :=
    (List.takeWhile_prefix _).length_le
  unfold number
  dsimp only
  rw [takeWhile_append more hdigit, List.drop_append_of_le_length hlength]
  cases hdrop : chars.drop (chars.takeWhile Char.isDigit).length with
  | nil =>
      have hpoint : c ≠ '.' := by
        rintro rfl
        revert hc
        decide
      rw [List.nil_append]
      split
      · rename_i heq
        cases heq
        exact (hpoint rfl).elim
      · rfl
  | cons d rest =>
      rw [List.cons_append]
      by_cases hd : d = '.'
      · subst hd
        simp only [takeWhile_append more hdigit]
      · split
        · rename_i heq
          cases heq
          exact (hd rfl).elim
        · split
          · rename_i heq
            cases heq
            exact (hd rfl).elim
          · rfl

theorem word_append (first : Char) (chars : List Char) :
    word first (chars ++ c :: more) = word first chars := by
  unfold word
  dsimp only
  rw [takeWhile_append more (isWordPart_of_isBlank hc)]

/-- No symbol goes on with a blank, so looking ahead ends at one. -/
theorem symbol?_append (first : Char) (chars : List Char) :
    symbol? first (chars ++ c :: more) = symbol? first chars := by
  have hblank {d : Char} (hd : Text.isBlank d = false) (chars : List Char) :
      goesOn d (chars ++ c :: more) = goesOn d chars := by
    cases chars with
    | nil =>
        rw [List.nil_append, goesOn_cons, goesOn, List.head?_nil]
        refine beq_false_of_ne ?_
        rintro rfl
        exact Bool.noConfusion (hd.symm.trans hc)
    | cons e chars => rw [List.cons_append, goesOn_cons, goesOn_cons]
  cases chars with
  | nil =>
      unfold symbol?
      simp (disch := decide) only [hblank]
      rfl
  | cons e chars =>
      unfold symbol?
      simp (disch := decide) only [hblank, List.cons_append, List.drop_succ_cons, List.drop_zero,
        goesOn_cons]

/-- A token is not changed by a blank after it and whatever comes then. -/
theorem beginning_append {first : Char} {chars : List Char} {kind : Kind}
    (h : (beginning first chars).result = .ok kind) :
    beginning first (chars ++ c :: more) = beginning first chars := by
  unfold beginning at h ⊢
  by_cases hquote : (first == '\x22') = true
  · rw [if_pos hquote] at h
    rw [if_pos hquote, if_pos hquote, string_append chars _ h]
  rw [if_neg hquote] at h
  rw [if_neg hquote, if_neg hquote]
  by_cases hmark : (first == '@') = true
  · rw [if_pos hmark] at h
    rw [if_pos hmark, if_pos hmark, character_append chars _ h]
  rw [if_neg hmark, if_neg hmark, number_append hc, word_append hc, symbol?_append hc]

end Piece

/-! ## Words -/

/-- The word scans as one token of the given kind. -/
def IsToken (kind : Kind) (word : List Char) : Prop :=
  ∃ first tail, word = first :: tail ∧ Piece.beginning first tail = ⟨.ok kind, tail.length⟩

/-- In a symbol's spelling, the symbol is found. -/
theorem Piece.symbol?_spelling {s : Symbol} {first : Char} {tail : List Char}
    (h : s.spelling.toList = first :: tail) : symbol? first tail = some (s, tail.length) := by
  cases s <;> cases h <;> rfl

/-- A symbol's spelling begins with nothing that another kind of token begins with. -/
theorem exists_spelling_eq_cons (s : Symbol) :
    ∃ first tail, s.spelling.toList = first :: tail ∧ (first == '\x22') = false ∧
      (first == '@') = false ∧ first.isDigit = false ∧ isWordStart first = false := by
  cases s <;> exact ⟨_, _, rfl, by decide⟩

/-- A symbol's spelling scans as the symbol. -/
theorem isToken_symbol (s : Symbol) : IsToken (.symbol s) s.spelling.toList := by
  obtain ⟨first, tail, hs, hquote, hmark, hdigit, hstart⟩ := exists_spelling_eq_cons s
  refine ⟨first, tail, hs, ?_⟩
  unfold Piece.beginning
  rw [Piece.symbol?_spelling hs, hquote, hmark, hdigit, hstart]
  rfl

/-- A name scans as a name. -/
theorem isToken_identifier {name : String} (h : isName name = true) :
    IsToken .identifier name.toList := by
  unfold isName at h
  split at h
  · cases h
  · rename_i first rest hname
    simp only [Bool.and_eq_true, List.all_eq_true, Option.isNone_iff_eq_none] at h
    obtain ⟨⟨hstart, hrest⟩, hkeyword⟩ := h
    refine ⟨first, rest, hname, ?_⟩
    have hmarks : first ≠ '\x22' ∧ first ≠ '@' := by
      constructor <;> rintro rfl <;> revert hstart <;> decide
    have htake : (rest ++ []).takeWhile isWordPart = rest ++ [].takeWhile isWordPart :=
      List.takeWhile_append_of_pos hrest
    rw [List.append_nil, List.takeWhile_nil, List.append_nil] at htake
    unfold Piece.beginning Piece.word
    simp [hmarks, isDigit_of_isWordStart hstart, hstart, htake, hkeyword]

/-- A blank starts no token. -/
theorem Piece.beginning_of_isBlank {first : Char} (h : Text.isBlank first = true)
    (rest : List Char) : (beginning first rest).result = .error (.unrecognized first) := by
  have hstart : isWordStart first = false := by
    have hpart := isWordPart_of_isBlank h
    simp only [isWordPart, isWordStart, Char.isAlphanum, Bool.or_eq_false_iff] at hpart ⊢
    exact ⟨hpart.1.1, hpart.2⟩
  have hmarks : first ≠ '\x22' ∧ first ≠ '@' := by
    constructor <;> rintro rfl <;> revert h <;> decide
  have hsymbol : symbol? first rest = none := by
    rw [Option.eq_none_iff_forall_ne_some]
    rintro ⟨s, n⟩ hs
    obtain ⟨c, tail, hspelling, -⟩ := exists_spelling_eq_cons s
    have hbegins := (spelling_of_symbol? hs).1
    rw [hspelling] at hbegins
    obtain ⟨rfl, -⟩ := List.cons_prefix_cons.1 hbegins
    exact not_mem_spelling h s (by rw [hspelling]; exact List.mem_cons_self)
  unfold beginning
  simp [hmarks, isDigit_of_isBlank h, hstart, hsymbol]

/-- The text after a word ends it: it is empty or begins with a blank. -/
def EndsWord (rest : List Char) : Prop := ∀ c more, rest = c :: more → Text.isBlank c = true

/-- A word that is a token stays one before a text that ends it. -/
theorem Piece.beginning_of_endsWord {kind : Kind} {first : Char} {tail rest : List Char}
    (h : beginning first tail = ⟨.ok kind, tail.length⟩) (hrest : EndsWord rest) :
    beginning first (tail ++ rest) = ⟨.ok kind, tail.length⟩ := by
  cases rest with
  | nil => rw [List.append_nil, h]
  | cons c more => rw [beginning_append (hrest c more rfl) more (by rw [h]), h]

/-- A token is not taken for a gap. -/
theorem gapLength_of_isToken {kind : Kind} {first : Char} {tail rest : List Char}
    (h : Piece.beginning first tail = ⟨.ok kind, tail.length⟩) (hrest : EndsWord rest) :
    gapLength false (first :: (tail ++ rest)) = 0 := by
  have hblank : Text.isBlank first = false := by
    rw [Bool.eq_false_iff]
    intro hblank
    have herror := Piece.beginning_of_isBlank hblank tail
    rw [h] at herror
    cases herror
  have hcomment : ¬ (first = '/' ∧ (tail ++ rest).head? = some '/') := by
    rintro ⟨rfl, hhead⟩
    cases tail with
    | nil =>
        cases rest with
        | nil => cases hhead
        | cons c more =>
            cases hhead
            have hslash := hrest _ _ rfl
            revert hslash
            decide
    | cons d tail =>
        cases hhead
        -- Two slashes are read as one, which leaves the second.
        have hslash : Piece.beginning '/' ('/' :: tail) = ⟨.ok (.symbol .slash), 0⟩ := rfl
        rw [hslash] at h
        injection h with _ hlength
        cases hlength
  unfold gapLength
  rw [if_neg (by simp), hblank, if_neg (by simp), if_neg]
  simpa using hcomment

theorem gapLength_spaces (n : Nat) (rest : List Char) :
    gapLength false (List.replicate n ' ' ++ rest) = n + gapLength false rest := by
  induction n with
  | zero => simp
  | succ n ih =>
      rw [List.replicate_succ, List.cons_append, gapLength, if_neg (by simp), if_pos (by decide),
        ih]
      omega

namespace Cursor

/-- A word after some spaces is taken from the text, and the rest is left. -/
theorem next?_word {kind : Kind} {word rest : List Char} (hword : IsToken kind word)
    (hrest : EndsWord rest) (n offset : Nat) :
    ∃ token after,
      (mk (List.replicate n ' ' ++ (word ++ rest)) offset).next? = some (.ok token, after) ∧
        token.kind = kind ∧ token.lexeme = String.ofList word ∧ token.startsLine = false ∧
        after.rest = rest := by
  obtain ⟨first, tail, rfl, hbeginning⟩ := hword
  have hgap : gapLength false (List.replicate n ' ' ++ (first :: tail ++ rest)) = n := by
    rw [gapLength_spaces, List.cons_append, gapLength_of_isToken hbeginning hrest, Nat.add_zero]
  have hhere : ((mk (List.replicate n ' ' ++ (first :: tail ++ rest)) offset).advance
      (gapLength false (List.replicate n ' ' ++ (first :: tail ++ rest)))).rest =
        first :: (tail ++ rest) := by
    rw [hgap]
    show (List.replicate n ' ' ++ (first :: tail ++ rest)).drop n = _
    rw [List.drop_left' (List.length_replicate ..)]
    rfl
  have hpiece := Piece.beginning_of_endsWord hbeginning hrest
  have hnext := next?_of_cons hhere
  rw [hpiece] at hnext
  unfold itemAt at hnext
  rw [hpiece] at hnext
  refine ⟨_, _, hnext, rfl, ?_, ?_, ?_⟩
  · dsimp only
    rw [hhere, List.take_succ_cons, List.take_left]
  · dsimp only
    rw [hgap, List.take_left' (List.length_replicate ..)]
    simp
  · show List.drop (tail.length + 1) _ = rest
    rw [hhere, List.drop_succ_cons, List.drop_left]

end Cursor

/-- Words in order with spaces between them, where `gap` says how many more than one, given how many
words come after the space. -/
def spaced (gap : Nat → Nat) : List String → List Char
  | [] => []
  | [word] => word.toList
  | word :: next :: rest =>
    word.toList ++ (List.replicate (gap rest.length + 1) ' ' ++ spaced gap (next :: rest))

/-- Words that are tokens scan to these tokens, with spaces between them. -/
theorem Cursor.items_spaced (gap : Nat → Nat) {words : List (Kind × String)}
    (h : ∀ word ∈ words, IsToken word.1 word.2.toList) (n offset : Nat) :
    ∃ tokens : List Token, (mk (List.replicate n ' ' ++ spaced gap (words.map (·.2))) offset).items =
        tokens.map .ok ∧ tokens.map gist = words.map fun word => (word.1, word.2, false) := by
  induction words generalizing n offset with
  | nil =>
      refine ⟨[], ?_, rfl⟩
      rw [items_eq, next?_of_nil]
      · rfl
      · show List.drop (gapLength false _) (List.replicate n ' ' ++ []) = []
        rw [gapLength_spaces]
        simp
  | cons word words ih =>
      obtain ⟨kind, text⟩ := word
      have hword : IsToken kind text.toList := h (kind, text) (by simp)
      have hwords : ∀ word ∈ words, IsToken word.1 word.2.toList :=
        fun word hmem => h word (by simp [hmem])
      -- What follows the word: nothing, or spaces and the other words.
      obtain ⟨rest, m, hspaced, hends, hrest⟩ : ∃ rest m,
          spaced gap ((kind, text) :: words |>.map (·.2)) = text.toList ++ rest ∧
            EndsWord rest ∧ rest = List.replicate m ' ' ++ spaced gap (words.map (·.2)) := by
        cases words with
        | nil => exact ⟨[], 0, by simp [spaced], fun _ _ h => (nomatch h), rfl⟩
        | cons next words =>
            refine ⟨_, _, rfl, ?_, rfl⟩
            intro c more hcons
            cases hcons
            decide
      obtain ⟨token, after, hnext, hkind, hlexeme, hline, hafter⟩ :=
        next?_word hword hends n offset
      obtain ⟨tokens, hitems, hgist⟩ := ih hwords m after.offset
      refine ⟨token :: tokens, ?_, ?_⟩
      · rw [hspaced, items_eq, hnext]
        dsimp only
        rw [List.map_cons, ← hitems, ← hrest, ← hafter]
      · rw [List.map_cons, hgist, List.map_cons, gist, hkind, hlexeme, hline, String.ofList_toList]

/-- Words that are tokens scan to these tokens, with spaces between them. -/
theorem scan_spaced (gap : Nat → Nat) {words : List (Kind × String)}
    (h : ∀ word ∈ words, IsToken word.1 word.2.toList) :
    ∃ tokens : List Token, scan (String.ofList (spaced gap (words.map (·.2)))) = tokens.map .ok ∧
      tokens.map gist = words.map fun word => (word.1, word.2, false) := by
  have hitems := Cursor.items_spaced gap h 0 0
  rw [List.replicate_zero, List.nil_append] at hitems
  unfold scan Cursor.start
  rw [String.toList_ofList]
  exact hitems

/-! ## Two texts -/

namespace Piece

theorem string_tailLength_le (chars : List Char) : (string chars).tailLength ≤ chars.length := by
  fun_induction string chars with
  | case1 => exact Nat.le_refl _
  | case2 rest => exact Nat.le_add_left 1 rest.length
  | case3 => exact Nat.le_refl _
  | case4 c rest _ ih => exact Nat.add_le_add_right ih 2
  | case5 c rest => exact Nat.le_add_left 2 rest.length
  | case6 c rest _ _ _ ih => exact Nat.add_le_add_right ih 1

theorem character_tailLength_le (chars : List Char) :
    (character chars).tailLength ≤ chars.length := by
  unfold character
  split
  · exact Nat.le_refl _
  · exact Nat.le_refl _
  · split <;> simp
  · simp

theorem number_tailLength_le (chars : List Char) : (number chars).tailLength ≤ chars.length := by
  have hdigits : (chars.takeWhile Char.isDigit).length ≤ chars.length :=
    (List.takeWhile_prefix _).length_le
  unfold number
  dsimp only
  split
  · rename_i fraction hdrop
    have hplaces : (fraction.takeWhile Char.isDigit).length ≤ fraction.length :=
      (List.takeWhile_prefix _).length_le
    have hlength := congrArg List.length hdrop
    rw [List.length_drop, List.length_cons] at hlength
    dsimp only
    split <;> omega
  · exact hdigits

theorem word_tailLength (first : Char) (chars : List Char) :
    (word first chars).tailLength = (chars.takeWhile isWordPart).length := by
  unfold word
  dsimp only
  split <;> rfl

/-- What a piece takes is there. -/
theorem tailLength_le (first : Char) (chars : List Char) :
    (beginning first chars).tailLength ≤ chars.length := by
  unfold beginning
  split
  · exact string_tailLength_le chars
  split
  · exact character_tailLength_le chars
  split
  · exact number_tailLength_le chars
  split
  · rw [word_tailLength]
    exact (List.takeWhile_prefix _).length_le
  split
  · rename_i s n hs
    obtain ⟨hbegins, hlength⟩ := spelling_of_symbol? hs
    have hle := hbegins.length_le
    rw [String.length_toList, hlength, List.length_cons] at hle
    exact Nat.le_of_succ_le_succ hle
  · exact Nat.zero_le _

end Piece

theorem gapLength_cons (inComment : Bool) (c : Char) (rest : List Char) :
    gapLength inComment (c :: rest) =
      if inComment then gapLength (c != '\n') rest + 1
      else if Text.isBlank c then gapLength false rest + 1
      else if c == '/' && rest.head? == some '/' then gapLength true rest + 1
      else 0 := rfl

theorem gapLength_le (inComment : Bool) (chars : List Char) :
    gapLength inComment chars ≤ chars.length := by
  fun_induction gapLength inComment chars <;> simp_all

/-- A gap that ends inside a text ends there whatever comes after a newline. -/
theorem gapLength_append_of_lt {inComment : Bool} {chars : List Char}
    (h : gapLength inComment chars < chars.length) (more : List Char) :
    gapLength inComment (chars ++ '\n' :: more) = gapLength inComment chars := by
  induction chars generalizing inComment with
  | nil => cases h
  | cons c rest ih =>
      have hhead : ((rest ++ '\n' :: more).head? == some '/') = (rest.head? == some '/') := by
        cases rest <;> rfl
      rw [gapLength_cons, List.length_cons] at h
      rw [List.cons_append, gapLength_cons, gapLength_cons, hhead]
      by_cases hcomment : inComment = true
      · simp only [if_pos hcomment] at h ⊢
        rw [ih (Nat.lt_of_succ_lt_succ h)]
      simp only [if_neg hcomment] at h ⊢
      by_cases hblank : Text.isBlank c = true
      · simp only [if_pos hblank] at h ⊢
        rw [ih (Nat.lt_of_succ_lt_succ h)]
      simp only [if_neg hblank] at h ⊢
      by_cases hslashes : (c == '/' && rest.head? == some '/') = true
      · simp only [if_pos hslashes] at h ⊢
        rw [ih (Nat.lt_of_succ_lt_succ h)]
      · simp only [if_neg hslashes]

/-- A gap that reaches to the end of a text goes on after a newline, in a comment or not. -/
theorem gapLength_append_of_eq {inComment : Bool} {chars : List Char}
    (h : gapLength inComment chars = chars.length) (more : List Char) :
    gapLength inComment (chars ++ '\n' :: more) = chars.length + 1 + gapLength false more := by
  induction chars generalizing inComment with
  | nil =>
      cases inComment with
      | true =>
          rw [List.nil_append, gapLength, if_pos rfl]
          show gapLength false more + 1 = _
          rw [List.length_nil]
          omega
      | false =>
          rw [List.nil_append, gapLength, if_neg (by simp), if_pos (by decide), List.length_nil]
          omega
  | cons c rest ih =>
      rw [gapLength_cons, List.length_cons] at h
      rw [List.cons_append, gapLength_cons, List.length_cons]
      by_cases hcomment : inComment = true
      · simp only [if_pos hcomment] at h ⊢
        rw [ih (Nat.succ.inj h)]
        omega
      simp only [if_neg hcomment] at h ⊢
      by_cases hblank : Text.isBlank c = true
      · simp only [if_pos hblank] at h ⊢
        rw [ih (Nat.succ.inj h)]
        omega
      simp only [if_neg hblank] at h ⊢
      cases rest with
      | nil => simp at h
      | cons d rest =>
          by_cases hslashes : (c == '/' && (d :: rest).head? == some '/') = true
          · simp only [if_pos hslashes] at h
            have hhead : (d :: rest ++ '\n' :: more).head? = (d :: rest).head? := rfl
            rw [hhead, if_pos hslashes, ih (Nat.succ.inj h)]
            omega
          · simp only [if_neg hslashes] at h
            cases h

namespace Cursor

/-- The place in a longer text, which goes on with more after the end. -/
def followedBy (cursor : Cursor) (more : List Char) : Cursor := ⟨cursor.rest ++ more, cursor.offset⟩

theorem advance_followedBy {cursor : Cursor} {n : Nat} (h : n ≤ cursor.rest.length)
    (more : List Char) :
    (cursor.followedBy more).advance n = (cursor.advance n).followedBy more := by
  unfold advance followedBy
  dsimp only
  rw [List.drop_append_of_le_length h, List.take_append_of_le_length h]

/-- A token is found in the longer text as it is in the shorter one. -/
theorem next?_followedBy {cursor after : Cursor} {token : Token}
    (h : cursor.next? = some (.ok token, after)) (more : List Char) :
    (cursor.followedBy ('\n' :: more)).next? =
      some (.ok token, after.followedBy ('\n' :: more)) := by
  obtain ⟨first, rest, hrest, hitem, rfl⟩ := exists_of_next? h
  have hyields := yields_of_itemAt hrest hitem.symm
  have hlength := congrArg List.length hrest
  have hlt : gapLength false cursor.rest < cursor.rest.length := by
    have hdrop : ((cursor.advance (gapLength false cursor.rest)).rest).length =
      cursor.rest.length - gapLength false cursor.rest := List.length_drop
    rw [hdrop, List.length_cons] at hlength
    omega
  have hgap : gapLength false (cursor.followedBy ('\n' :: more)).rest =
      gapLength false cursor.rest := gapLength_append_of_lt hlt more
  have hhere : (cursor.followedBy ('\n' :: more)).advance (gapLength false cursor.rest) =
      (cursor.advance (gapLength false cursor.rest)).followedBy ('\n' :: more) :=
    advance_followedBy (Nat.le_of_lt hlt) _
  have hpiece : Piece.beginning first (rest ++ '\n' :: more) = Piece.beginning first rest :=
    Piece.beginning_append (by decide) more hyields.kind_eq
  have htail : (Piece.beginning first rest).tailLength + 1 ≤
      (cursor.advance (gapLength false cursor.rest)).rest.length := by
    rw [hrest, List.length_cons]
    exact Nat.succ_le_succ (Piece.tailLength_le first rest)
  have hcons : ((cursor.followedBy ('\n' :: more)).advance
      (gapLength false (cursor.followedBy ('\n' :: more)).rest)).rest =
        first :: (rest ++ '\n' :: more) := by
    rw [hgap, hhere]
    show _ ++ _ = _
    rw [hrest]
    rfl
  have hitems : (cursor.followedBy ('\n' :: more)).itemAt first (rest ++ '\n' :: more) =
      cursor.itemAt first rest := by
    unfold itemAt
    dsimp only
    rw [hpiece, hgap, hhere, advance_followedBy htail]
    unfold followedBy
    dsimp only
    rw [List.take_append_of_le_length htail, List.take_append_of_le_length (Nat.le_of_lt hlt)]
  rw [next?_of_cons hcons, hitems, hgap, hhere, hpiece, advance_followedBy htail, hitem]

/-- Where nothing more is found, the gap reaches to the end of the text. -/
theorem gapLength_of_next? {cursor : Cursor} (h : cursor.next? = none) :
    gapLength false cursor.rest = cursor.rest.length := by
  cases hdrop : (cursor.advance (gapLength false cursor.rest)).rest with
  | nil =>
      have hle := gapLength_le false cursor.rest
      have hge := List.drop_eq_nil_iff.1 hdrop
      omega
  | cons first rest =>
      rw [next?_of_cons hdrop] at h
      cases h

/-- After the last token, the longer text goes on with what comes after the newline. -/
theorem next?_followedBy_of_none {cursor : Cursor} (h : cursor.next? = none) (more : List Char) :
    (cursor.followedBy ('\n' :: more)).next? =
      (mk more (cursor.offset + byteLength cursor.rest + 1)).next?.map fun found =>
        (found.1.map fun token => { token with startsLine := true }, found.2) := by
  have hgap := gapLength_of_next? h
  have hgap' : gapLength false (cursor.followedBy ('\n' :: more)).rest =
      cursor.rest.length + 1 + gapLength false more := gapLength_append_of_eq hgap more
  -- The gap takes the whole text and the newline, and then the gap of what comes after.
  have hsplit : cursor.rest ++ '\n' :: more = (cursor.rest ++ ['\n']) ++ more := by simp
  have hlength : cursor.rest.length + 1 = (cursor.rest ++ ['\n']).length := by simp
  have hhere : (cursor.followedBy ('\n' :: more)).advance
      (cursor.rest.length + 1 + gapLength false more) =
        (mk more (cursor.offset + byteLength cursor.rest + 1)).advance (gapLength false more) := by
    unfold advance followedBy
    dsimp only
    rw [hsplit, hlength, List.drop_length_add_append, List.take_length_add_append,
      byteLength_append, byteLength_append, ← Nat.add_assoc, ← Nat.add_assoc]
    rfl
  have hline : ((cursor.followedBy ('\n' :: more)).rest.take
      (cursor.rest.length + 1 + gapLength false more)).contains '\n' = true := by
    show ((cursor.rest ++ '\n' :: more).take _).contains '\n' = true
    rw [hsplit, hlength, List.take_length_add_append]
    simp
  cases hrest : ((mk more (cursor.offset + byteLength cursor.rest + 1)).advance
      (gapLength false more)).rest with
  | nil =>
      rw [next?_of_nil hrest, next?_of_nil (by rw [hgap', hhere, hrest])]
      rfl
  | cons first rest =>
      have hcons : ((cursor.followedBy ('\n' :: more)).advance
          (gapLength false (cursor.followedBy ('\n' :: more)).rest)).rest = first :: rest := by
        rw [hgap', hhere, hrest]
      rw [next?_of_cons hrest, next?_of_cons hcons, hgap', hhere]
      congr 2
      unfold itemAt
      dsimp only
      rw [hgap', hhere, hline]
      cases (Piece.beginning first rest).result <;> rfl

/-- A step leaves the end of the text where it is. -/
theorem stop_of_next? {cursor after : Cursor} {item : Except LexError Token}
    (h : cursor.next? = some (item, after)) :
    after.offset + byteLength after.rest = cursor.offset + byteLength cursor.rest := by
  have hadvance (cursor : Cursor) (n : Nat) : (cursor.advance n).offset +
      byteLength (cursor.advance n).rest = cursor.offset + byteLength cursor.rest := by
    show cursor.offset + _ + byteLength (cursor.rest.drop n) = _
    rw [Nat.add_assoc, ← byteLength_append, List.take_append_drop]
  obtain ⟨first, rest, -, -, rfl⟩ := exists_of_next? h
  rw [hadvance, hadvance]

/-- A text and what comes after a newline are scanned one after the other. -/
theorem items_followedBy {cursor : Cursor} {tokens : List Token}
    (h : cursor.items = tokens.map .ok) (more : List Char) :
    (cursor.followedBy ('\n' :: more)).items = tokens.map .ok ++
      (mk more (cursor.offset + byteLength cursor.rest + 1)).items.modifyHead
        (·.map fun token => { token with startsLine := true }) := by
  induction tokens generalizing cursor with
  | nil =>
      have hnone : cursor.next? = none := by
        rw [items_eq] at h
        split at h
        · assumption
        · cases h
      rw [items_eq, next?_followedBy_of_none hnone, items_eq]
      cases (mk more (cursor.offset + byteLength cursor.rest + 1)).next? <;> rfl
  | cons token tokens ih =>
      obtain ⟨after, hnext, hafter⟩ := next?_of_items_eq_cons h
      rw [items_eq, next?_followedBy hnext]
      dsimp only
      rw [ih hafter, stop_of_next? hnext]
      rfl

/-- Where a text stands does not change what its tokens are. -/
theorem items_at {rest : List Char} {offset : Nat} {tokens : List Token}
    (h : (mk rest offset).items = tokens.map .ok) (offset' : Nat) :
    ∃ tokens' : List Token, (mk rest offset').items = tokens'.map .ok ∧
      tokens'.map gist = tokens.map gist := by
  induction tokens generalizing rest offset offset' with
  | nil =>
      refine ⟨[], ?_, rfl⟩
      cases hdrop : ((mk rest offset).advance (gapLength false rest)).rest with
      | nil =>
          have hnil : ((mk rest offset').advance (gapLength false rest)).rest = [] := hdrop
          rw [items_eq, next?_of_nil hnil]
          rfl
      | cons first more =>
          rw [items_eq, next?_of_cons hdrop] at h
          cases h
  | cons token tokens ih =>
      obtain ⟨after, hnext, hafter⟩ := next?_of_items_eq_cons h
      obtain ⟨first, more, hrest, hitem, rfl⟩ := exists_of_next? hnext
      have hyields := yields_of_itemAt hrest hitem.symm
      have hcons : ((mk rest offset').advance (gapLength false rest)).rest = first :: more := hrest
      obtain ⟨tokens', htokens', hgist⟩ := ih hafter
        (((mk rest offset').advance (gapLength false rest)).advance
          ((Piece.beginning first more).tailLength + 1)).offset
      obtain ⟨token', htoken', hgist'⟩ : ∃ token' : Token,
          (mk rest offset').itemAt first more = .ok token' ∧ token'.gist = token.gist := by
        unfold itemAt
        dsimp only
        rw [hyields.kind_eq]
        refine ⟨_, rfl, ?_⟩
        unfold gist
        dsimp only
        rw [hyields.lexeme_eq, hyields.startsLine_eq, hcons, List.take_succ_cons]
      refine ⟨token' :: tokens', ?_, by rw [List.map_cons, hgist', hgist, List.map_cons]⟩
      rw [items_eq, next?_of_cons hcons]
      dsimp only
      rw [htoken', List.map_cons, ← htokens']
      rfl

end Cursor

/-- The tokens with the first one on a new line. -/
def onNewLine (tokens : List Token) : List Token :=
  tokens.modifyHead fun token => { token with startsLine := true }

/-- Two texts with a newline between them scan as one after the other, where the first token of the
second is on a new line. -/
theorem scan_join {source source' : String} {tokens tokens' : List Token}
    (h : scan source = tokens.map .ok) (h' : scan source' = tokens'.map .ok) :
    ∃ more : List Token, scan (source ++ "\n" ++ source') = (tokens ++ more).map .ok ∧
      more.map gist = (onNewLine tokens').map gist := by
  obtain ⟨moved, hmoved, hgist⟩ :=
    Cursor.items_at h' (0 + byteLength source.toList + 1)
  refine ⟨onNewLine moved, ?_, ?_⟩
  · have hjoin := Cursor.items_followedBy h source'.toList
    have hstart : Cursor.start (source ++ "\n" ++ source') =
        (Cursor.start source).followedBy ('\n' :: source'.toList) := by
      unfold Cursor.start Cursor.followedBy
      simp
    unfold scan
    rw [hstart, hjoin]
    show _ ++ List.modifyHead _ (Cursor.items ⟨source'.toList, 0 + byteLength source.toList + 1⟩) = _
    rw [hmoved, List.map_append]
    cases moved <;> rfl
  · cases moved <;> cases tokens' <;> simp_all [onNewLine, gist]

end Token

end ListScript
