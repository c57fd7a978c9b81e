import ListScript.Proofs.Expr.Composition
import ListScript.Proofs.Token.LongestMatch

/-!
# Literals stand for what they spell

`Escape.Spells text body` says that the body of a string literal writes a text character by
character, each one as it is or by an escape. The scanner goes over a body to find where the literal
ends, and the reader goes over it once more to find what it stands for. Both see the same
characters: what spells a text is scanned as one token and read as that text (`Token.scan_quoted`,
`Block.parse_quoted`), and the body of every string literal spells a text, so that reading drops
nothing (`Piece.exists_spells_of_string`). `Token.literals_faithful` collects this.
-/

namespace ListScript

namespace Escape

/-- The body of a literal writes the characters of the text in order: each one as it is, unless it
is a quote or a backslash, or by an escape that stands for it. -/
inductive Spells : (text body : List Char) → Prop where
  | nil : Spells [] []
  | raw {c : Char} {text body : List Char} (hquote : c ≠ '\x22') (hslash : c ≠ '\\')
      (h : Spells text body) : Spells (c :: text) (c :: body)
  | escaped {c letter : Char} {text body : List Char} (hletter : unescape? letter = some c)
      (h : Spells text body) : Spells (c :: text) ('\\' :: letter :: body)

theorem decode_of_ne {c : Char} (h : c ≠ '\\') (rest : List Char) :
    decode (c :: rest) = c :: decode rest := by
  rw [decode]
  · exact fun _ _ hc _ => h hc
  · exact fun hc _ => h hc

theorem decode_escape {letter c : Char} (h : unescape? letter = some c) (rest : List Char) :
    decode ('\\' :: letter :: rest) = c :: decode rest := by
  show (unescape? letter).toList ++ decode rest = _
  rw [h]
  rfl

/-- A body stands for the text that it spells. -/
theorem Spells.decode_eq {text body : List Char} (h : Spells text body) : decode body = text := by
  induction h with
  | nil => rfl
  | raw _ hslash _ ih => rw [decode_of_ne hslash, ih]
  | escaped hletter _ ih => rw [decode_escape hletter, ih]

end Escape

open Escape (Spells)

namespace Token

namespace Piece

/-! ## Bodies of literals -/

/-- A literal whose body spells a text ends at the quote after it. -/
theorem string_of_spells {text body : List Char} (h : Spells text body) (rest : List Char) :
    string (body ++ '\x22' :: rest) = ⟨.ok .string, body.length + 1⟩ := by
  induction h with
  | nil => rfl
  | raw hquote hslash _ ih =>
      rw [List.cons_append, string_of_ne hquote hslash, ih]
      rfl
  | @escaped c letter _ body hletter _ ih =>
      show string ('\\' :: letter :: (body ++ '\x22' :: rest)) = _
      rw [string, if_pos (Option.isSome_of_eq_some hletter), ih]
      rfl

/-- The body of a string literal spells a text. -/
theorem exists_spells_of_string (chars : List Char) {kind : Kind}
    (h : (string chars).result = .ok kind) :
    ∃ text body, chars.take (string chars).tailLength = body ++ ['\x22'] ∧ Spells text body := by
  fun_induction string chars with
  | case1 => cases h
  | case2 rest => exact ⟨[], [], rfl, .nil⟩
  | case3 => cases h
  | case4 letter rest hletter ih =>
      obtain ⟨c, hc⟩ := Option.isSome_iff_exists.1 hletter
      obtain ⟨text, body, hbody, hspells⟩ := ih h
      refine ⟨c :: text, '\\' :: letter :: body, ?_, .escaped hc hspells⟩
      exact congrArg (fun tail => '\\' :: letter :: tail) hbody
  | case5 => cases h
  | case6 c rest hquote hlone hescape ih =>
      obtain ⟨text, body, hbody, hspells⟩ := ih h
      refine ⟨c :: text, c :: body, ?_, .raw hquote (ne_backslash hlone hescape) hspells⟩
      exact congrArg (c :: ·) hbody

/-- A character literal stands for one character. -/
theorem exists_decode_of_character (chars : List Char) {kind : Kind}
    (h : (character chars).result = .ok kind) :
    ∃ c, Escape.decode (chars.take (character chars).tailLength) = [c] := by
  cases chars with
  | nil => cases h
  | cons c rest =>
      by_cases hslash : c = '\\'
      · subst hslash
        cases rest with
        | nil => cases h
        | cons letter rest =>
            rw [character] at h ⊢
            split at h
            · next hletter =>
                obtain ⟨c, hc⟩ := Option.isSome_iff_exists.1 hletter
                rw [if_pos hletter]
                exact ⟨c, Escape.decode_escape hc []⟩
            · cases h
      · rw [character_of_ne hslash]
        exact ⟨c, Escape.decode_of_ne hslash []⟩

/-! ## Which tokens are literals -/

theorem isWordKind_of_word {first : Char} {rest : List Char} {kind : Kind}
    (h : (word first rest).result = .ok kind) : kind.isWordKind = true := by
  unfold word at h
  dsimp only at h
  split at h <;> cases h <;> rfl

/-- A string literal begins with a quote, and a character literal with a mark. -/
theorem beginning_of_literal {first : Char} {rest : List Char} {kind : Kind}
    (h : (beginning first rest).result = .ok kind) :
    (kind = .string → first = '\x22' ∧ beginning first rest = string rest) ∧
      (kind = .character → first = '@' ∧ beginning first rest = character rest) := by
  have hbegins := begins_beginning first rest
  generalize beginning first rest = piece at h hbegins
  cases hbegins with
  | string hfirst =>
      cases result_string rest h
      exact ⟨fun _ => ⟨hfirst, rfl⟩, by simp⟩
  | character hfirst =>
      cases result_character rest h
      exact ⟨by simp, fun _ => ⟨hfirst, rfl⟩⟩
  | number hfirst =>
      rw [result_number] at h
      cases h
      simp
  | word hfirst =>
      have hkind := isWordKind_of_word h
      constructor <;> rintro rfl <;> cases hkind
  | symbol =>
      cases h
      simp
  | unrecognized => cases h

end Piece

/-! ## One token -/

/-- A text that is a token scans to this token. -/
theorem scan_of_isToken {kind : Kind} {source : String} (h : IsToken kind source.toList) :
    scan source = [.ok ⟨kind, ⟨0, source.utf8ByteSize⟩, source, false⟩] := by
  obtain ⟨first, tail, hsource, hpiece⟩ := h
  have hgap : gapLength false (Cursor.start source).rest = 0 := by
    have hends : EndsWord [] := by simp [EndsWord]
    have hgap := gapLength_of_isToken hpiece hends
    rw [List.append_nil, ← hsource] at hgap
    exact hgap
  have hhere : (Cursor.start source).advance 0 = Cursor.start source := rfl
  have hrest : ((Cursor.start source).advance 0).rest = first :: tail := hsource
  have hafter : ((Cursor.start source).advance (tail.length + 1)).rest = [] := by
    show source.toList.drop (tail.length + 1) = []
    rw [hsource]
    exact List.drop_length
  have hstop : ((Cursor.start source).advance (tail.length + 1)).offset = source.utf8ByteSize := by
    show 0 + byteLength (source.toList.take (tail.length + 1)) = _
    rw [List.take_of_length_le (by rw [hsource]; exact Nat.le_refl _), byteLength_toList,
      Nat.zero_add]
  have hlexeme : String.ofList ((Cursor.start source).rest.take (tail.length + 1)) = source := by
    show String.ofList (source.toList.take (tail.length + 1)) = _
    rw [List.take_of_length_le (by rw [hsource]; exact Nat.le_refl _), String.ofList_toList]
  have hnext := Cursor.next?_of_cons (hgap ▸ hrest)
  unfold Cursor.itemAt at hnext
  rw [hgap, hhere, hpiece] at hnext
  dsimp only at hnext
  rw [hstop, hlexeme] at hnext
  rw [scan, Cursor.items_eq, hnext]
  dsimp only
  rw [Cursor.items_of_rest_eq_nil hafter]
  rfl

/-- A text between quotes that spells another is one string literal. -/
theorem scan_quoted {source : String} {text body : List Char} (h : Spells text body)
    (hsource : source.toList = '\x22' :: (body ++ ['\x22'])) :
    scan source = [.ok ⟨.string, ⟨0, source.utf8ByteSize⟩, source, false⟩] := by
  refine scan_of_isToken ⟨_, _, hsource, ?_⟩
  show Piece.string (body ++ ['\x22']) = _
  rw [Piece.string_of_spells h, List.length_append]
  rfl

theorem stringValue_eq {lexeme : String} {text body : List Char}
    (hlexeme : lexeme.toList = '\x22' :: (body ++ ['\x22'])) (h : Spells text body) :
    stringValue lexeme = String.ofList text := by
  rw [stringValue, hlexeme, List.drop_succ_cons, List.drop_zero, List.dropLast_concat, h.decode_eq]

end Token

/-! ## Reading a string literal -/

namespace Parser

theorem operand_of_string {s : TokenStream} {token : Token}
    {rest : List (Except LexError Token)} (hs : s.pending = .ok token :: rest)
    (hkind : token.kind = .string) (x : Nat → Parser Expr) (rounds : Nat) :
    operand x rounds s = .ok (.string token.span (Token.stringValue token.lexeme))
      { s with pending := rest, previousStop := token.span.stop } := by
  unfold operand
  rw [run_bind, take_of_cons hs]
  dsimp only
  unfold operandOf
  rw [hkind]
  rfl

/-- A string literal that is all of a stream is read as one expression. -/
theorem sequence_of_string {s : TokenStream} {token : Token} (hs : s.pending = [.ok token])
    (hkind : token.kind = .string) :
    sequence (expressionWithin 2) .endOfText 2 s =
      .ok [.string token.span (Token.stringValue token.lexeme)]
        { s with pending := [], previousStop := token.span.stop } := by
  have hskip : skipSemicolons s = .ok () s := by
    refine skipSemicolons_of_beforeOther fun other more heq => ?_
    cases hs.symm.trans heq
    rw [hkind]
    simp
  rw [sequence_of_cons hskip hs (by rw [hkind]; simp), run_bind]
  rw [expressionWithin, run_bind, operand_of_string hs hkind]
  dsimp only
  rw [continued_of_nil rfl]
  dsimp only
  rw [run_bind, sequence_of_nil rfl rfl]
  rfl

end Parser

/-- A text between quotes that spells another is read as that. -/
theorem Block.parse_quoted {source : String} {text body : List Char} (h : Spells text body)
    (hsource : source.toList = '\x22' :: (body ++ ['\x22'])) :
    Block.parse source = .ok ⟨[.string ⟨0, source.utf8ByteSize⟩ (String.ofList text)],
      ⟨0, source.utf8ByteSize⟩⟩ := by
  have hpending : (TokenStream.ofSource source).pending = _ := Token.scan_quoted h hsource
  have hread := Parser.sequence_of_string hpending rfl
  have hlength : (TokenStream.ofSource source).pending.length + 1 = 2 := by rw [hpending]; rfl
  rw [← hlength] at hread
  unfold Block.parse
  rw [Parser.program_of_sequence hread, Token.stringValue_eq hsource h]
  rfl

namespace Token

/-- Literals stand for what they spell. A source that is a text between quotes, each character of
which is written as it is or by an escape, scans to one string literal, which takes up the source,
and then the end of the text, and it is read as the text. The body of every string literal of a
source spells a text, which is what it stands for, so that none of its characters is dropped. What
comes after the mark in a character literal stands for exactly one character. -/
theorem literals_faithful :
    (∀ (text : String) (body : List Char) (source : String), Spells text.toList body →
      source.toList = '\x22' :: (body ++ ['\x22']) →
      scan source = [.ok ⟨.string, ⟨0, source.utf8ByteSize⟩, source, false⟩] ∧
      (∀ reads, resultAfter source (reads + 1) = .ok (ending source.utf8ByteSize)) ∧
      Block.parse source =
        .ok ⟨[.string ⟨0, source.utf8ByteSize⟩ text], ⟨0, source.utf8ByteSize⟩⟩) ∧
    (∀ (source : String) (token : Token), .ok token ∈ scan source → token.kind = .string →
      ∃ text body, token.lexeme.toList = '\x22' :: (body ++ ['\x22']) ∧ Spells text body ∧
        Escape.decode body = text ∧ stringValue token.lexeme = String.ofList text) ∧
    ∀ (source : String) (token : Token), .ok token ∈ scan source → token.kind = .character →
      ∃ c body, token.lexeme.toList = '@' :: body ∧ Escape.decode body = [c] ∧
        characterValue token.lexeme = [c] := by
  refine ⟨?_, ?_, ?_⟩
  · intro text body source hspells hsource
    have hscan := scan_quoted hspells hsource
    have hparse := Block.parse_quoted hspells hsource
    rw [String.ofList_toList] at hparse
    refine ⟨hscan, fun reads => ?_, hparse⟩
    rw [resultAfter_eq, hscan]
    rfl
  · intro source token hmem hkind
    obtain ⟨first, rest, hfound⟩ := exists_found hmem
    obtain ⟨hresult, hlexeme⟩ := hfound.token_eq token rfl
    rw [hkind] at hresult
    obtain ⟨rfl, hpiece⟩ := (Piece.beginning_of_literal hresult).1 rfl
    rw [hpiece] at hresult hlexeme
    obtain ⟨text, body, hbody, hspells⟩ := Piece.exists_spells_of_string rest hresult
    rw [hbody] at hlexeme
    exact ⟨text, body, hlexeme, hspells, hspells.decode_eq, stringValue_eq hlexeme hspells⟩
  · intro source token hmem hkind
    obtain ⟨first, rest, hfound⟩ := exists_found hmem
    obtain ⟨hresult, hlexeme⟩ := hfound.token_eq token rfl
    rw [hkind] at hresult
    obtain ⟨rfl, hpiece⟩ := (Piece.beginning_of_literal hresult).2 rfl
    rw [hpiece] at hresult hlexeme
    obtain ⟨c, hdecode⟩ := Piece.exists_decode_of_character rest hresult
    refine ⟨c, _, hlexeme, hdecode, ?_⟩
    rw [characterValue, hlexeme, List.drop_succ_cons, List.drop_zero, hdecode]

/-- A quote, which can be written by an escape only, and a tab as it is. -/
theorem literals_faithful_quote :
    Block.parse "\"\\\"\t\"" = .ok ⟨[.string ⟨0, 5⟩ "\"\t"], ⟨0, 5⟩⟩ := by
  obtain ⟨hread, -, -⟩ := literals_faithful
  have hspells : Spells "\"\t".toList ['\\', '\x22', '\t'] := by
    have htext : "\"\t".toList = ['\x22', '\t'] := by decide +kernel
    rw [htext]
    exact .escaped rfl (.raw (by decide) (by decide) .nil)
  exact (hread _ _ "\"\\\"\t\"" hspells (by decide +kernel)).2.2

end Token

end ListScript
