import ListScript.Proofs.Token.LongestMatch

/-!
# Tokens written one after the other

A token's own text, cut out of the source, scans as the same token (`Piece.isToken_of_beginning`):
no token depends on what came after it. So the texts of the tokens of a source, with a space between
each two, scan to the same tokens again: `tokens?_respaced`.
-/

namespace ListScript.Token

namespace Piece

/-- A closed string is read in its own text alone. -/
theorem string_take {chars : List Char} {kind : Kind} (h : (string chars).result = .ok kind) :
    string (chars.take (string chars).tailLength) = string chars := by
  fun_induction string chars with
  | case1 => cases h
  | case2 => rfl
  | case3 => cases h
  | case4 c rest hc ih =>
      show string ('\\' :: c :: rest.take (string rest).tailLength) = _
      rw [string, if_pos hc, ih h]
  | case5 => cases h
  | case6 c rest hquote hlone hescape ih =>
      show string (c :: rest.take (string rest).tailLength) = _
      rw [string_of_ne hquote (ne_backslash hlone hescape), ih h]

/-- A character literal is read in its own text alone. -/
theorem character_take {chars : List Char} {kind : Kind}
    (h : (character chars).result = .ok kind) :
    character (chars.take (character chars).tailLength) = character chars := by
  cases chars with
  | nil => cases h
  | cons d rest =>
      by_cases hd : d = '\\'
      · subst hd
        cases rest with
        | nil => cases h
        | cons e rest =>
            rw [character] at h ⊢
            split at h
            · next he =>
                rw [if_pos he]
                show character ['\\', e] = _
                rw [character, if_pos he]
            · cases h
      · rw [character_of_ne hd, List.take_succ_cons, character_of_ne hd]

theorem beginning_of_isDigit {first : Char} (h : first.isDigit = true) (rest : List Char) :
    beginning first rest = number rest := by
  have hmarks : first ≠ '\x22' ∧ first ≠ '@' := by
    constructor <;> rintro rfl <;> revert h <;> decide
  simp [beginning, hmarks, h]

theorem beginning_of_isWordStart {first : Char} (h : isWordStart first = true)
    (rest : List Char) : beginning first rest = word first rest := by
  have hmarks : first ≠ '\x22' ∧ first ≠ '@' := by
    constructor <;> rintro rfl <;> revert h <;> decide
  simp [beginning, hmarks, isDigit_of_isWordStart h, h]

/-- A number is read in its own text alone, which is the longest numeral in itself. -/
theorem number_take {first : Char} (h : first.isDigit = true) (rest : List Char) :
    number (rest.take (number rest).tailLength) = number rest := by
  have hlength : (rest.take (number rest).tailLength).length = (number rest).tailLength := by
    rw [List.length_take, Nat.min_eq_left (number_tailLength_le rest)]
  have hown := (longest_number h rest).mem
  generalize rest.take (number rest).tailLength = own at hlength hown
  have hwhole := (List.cons.inj ((longest_number h own).eq_of_mem hown)).2
  have hsame : (number own).tailLength = (number rest).tailLength := by
    rw [← hlength, ← congrArg List.length hwhole, List.length_take,
      Nat.min_eq_left (number_tailLength_le own)]
  calc number own = ⟨(number own).result, (number own).tailLength⟩ := rfl
    _ = ⟨(number rest).result, (number rest).tailLength⟩ := by
      rw [hsame, result_number, result_number]
    _ = number rest := rfl

/-- A word is read in its own text alone. -/
theorem word_take (first : Char) (rest : List Char) :
    word first (rest.take (word first rest).tailLength) = word first rest := by
  have hwhole : (rest.takeWhile isWordPart).takeWhile isWordPart = rest.takeWhile isWordPart := by
    have htake : (rest.takeWhile isWordPart ++ []).takeWhile isWordPart =
        rest.takeWhile isWordPart ++ [].takeWhile isWordPart :=
      List.takeWhile_append_of_pos (List.all_eq_true.1 List.all_takeWhile)
    rwa [List.append_nil, List.takeWhile_nil, List.append_nil] at htake
  rw [take_word]
  unfold word
  rw [hwhole]

/-- A token is read in its own text alone. -/
theorem beginning_take {first : Char} {rest : List Char} {kind : Kind}
    (h : (beginning first rest).result = .ok kind) :
    beginning first (rest.take (beginning first rest).tailLength) = beginning first rest := by
  have hmatch := longestMatch_beginning h
  have hbegins := begins_beginning first rest
  generalize beginning first rest = piece at h hmatch hbegins
  cases hbegins with
  | string hfirst =>
      subst hfirst
      exact string_take h
  | character hfirst =>
      subst hfirst
      exact character_take h
  | number hfirst => rw [beginning_of_isDigit hfirst, number_take hfirst]
  | word hfirst => rw [beginning_of_isWordStart hfirst, word_take]
  | @symbol s n _ hs =>
      cases h
      obtain ⟨hown, -⟩ := hmatch.spelling s.spelling rfl
      obtain ⟨c, tail, hspelling, hsymbol⟩ := isToken_symbol s
      obtain ⟨rfl, htail⟩ := List.cons.inj (hown.trans hspelling)
      have hlength := (spelling_of_symbol? hs).2
      rw [← String.length_toList, hspelling, List.length_cons] at hlength
      rw [htail, hsymbol, Nat.succ.inj hlength]
  | unrecognized => cases h

/-- A token's own text scans as the token. -/
theorem isToken_of_beginning {first : Char} {rest : List Char} {kind : Kind}
    (h : (beginning first rest).result = .ok kind) :
    IsToken kind (first :: rest.take (beginning first rest).tailLength) := by
  refine ⟨first, _, rfl, ?_⟩
  rw [beginning_take h, List.length_take, Nat.min_eq_left (tailLength_le first rest), ← h]

end Piece

theorem toList_intercalate_space (words : List String) :
    (" ".intercalate words).toList = spaced (fun _ => 0) words := by
  fun_induction spaced (fun _ => 0) words with
  | case1 => rfl
  | case2 word => simp
  | case3 word next rest ih =>
      rw [String.intercalate_cons_cons, String.toList_append, String.toList_append, ih,
        List.append_assoc]
      rfl

/-- The tokens of a source text, written with a space between each two, are read again with the same
kinds and texts. -/
theorem tokens?_respaced {source : String} {tokens : List Token}
    (h : tokens? source = some tokens) :
    ∃ tokens', tokens? (" ".intercalate (tokens.map (·.lexeme))) = some tokens' ∧
      tokens'.map (fun token => (token.kind, token.lexeme)) =
        tokens.map fun token => (token.kind, token.lexeme) := by
  have hscan := scan_of_tokens? h
  have hwords : ∀ word ∈ tokens.map fun token => (token.kind, token.lexeme),
      IsToken word.1 word.2.toList := by
    intro word hword
    obtain ⟨token, htoken, rfl⟩ := List.mem_map.1 hword
    have hmem : .ok token ∈ scan source := by
      rw [hscan]
      exact List.mem_map_of_mem htoken
    obtain ⟨first, rest, hfound⟩ := exists_found hmem
    obtain ⟨hkind, hlexeme⟩ := hfound.token_eq token rfl
    rw [hlexeme]
    exact Piece.isToken_of_beginning hkind
  obtain ⟨tokens', hscan', hgist⟩ := scan_spaced (fun _ => 0) hwords
  have htexts : (tokens.map fun token => (token.kind, token.lexeme)).map (·.2) =
      tokens.map (·.lexeme) := by simp
  rw [htexts, ← toList_intercalate_space, String.ofList_toList] at hscan'
  refine ⟨tokens', tokens?_of_scan hscan', ?_⟩
  have hkinds := congrArg (List.map fun gist => (gist.1, gist.2.1)) hgist
  simpa [gist, Function.comp_def] using hkinds

/-- A slash that is a character and one that divides, which would make a comment if the mark were
not there, and the points of a range next to a number. -/
theorem tokens?_respaced_tight :
    ∃ tokens tokens', tokens? "x=@//1..5" = some tokens ∧
      " ".intercalate (tokens.map (·.lexeme)) = "x = @/ / 1 .. 5" ∧
      tokens? "x = @/ / 1 .. 5" = some tokens' ∧
      tokens'.map (fun token => (token.kind, token.lexeme)) =
        tokens.map fun token => (token.kind, token.lexeme) := by
  have hview : (tokens? "x=@//1..5").map (fun tokens => " ".intercalate (tokens.map (·.lexeme))) =
      some "x = @/ / 1 .. 5" := by decide +kernel
  obtain ⟨tokens, htokens, htext⟩ := Option.map_eq_some_iff.1 hview
  obtain ⟨tokens', htokens', hkinds⟩ := tokens?_respaced htokens
  rw [htext] at htokens'
  exact ⟨tokens, tokens', htokens, htext, htokens', hkinds⟩

end ListScript.Token
