import ListScript.Proofs.Expr.Erasure
import ListScript.Token.Scan

/-!
# What scanning yields

The scanner's step is taken apart once (`Cursor.exists_of_next?`); what follows says which kinds each
rule gives, that a token called a name is one, and that a token remembers whether the text between
it and the token before holds a newline (`Token.zipWith_newlineBetween`).
-/

namespace ListScript.Token

/-- What reading sees of a token: its kind and text, and whether it is on a new line. -/
def gist (token : Token) : Kind × String × Bool := (token.kind, token.lexeme, token.startsLine)

namespace Piece

/-! ## Kinds of pieces -/

@[simp] theorem result_after (n : Nat) (piece : Piece) : (piece.after n).result = piece.result := rfl

/-- A piece that begins with a quote is a string or faulty. -/
theorem result_string (chars : List Char) {kind : Kind} (h : (string chars).result = .ok kind) :
    kind = .string := by
  fun_induction string chars with
  | case1 => cases h
  | case2 => cases h; rfl
  | case3 => cases h
  | case4 c rest _ ih => exact ih h
  | case5 => cases h
  | case6 _ rest _ _ _ ih => exact ih h

/-- A piece that begins with a mark is a character or faulty. -/
theorem result_character (chars : List Char) {kind : Kind}
    (h : (character chars).result = .ok kind) : kind = .character := by
  unfold character at h
  split at h
  · cases h
  · cases h
  · split at h <;> cases h
    rfl
  · cases h
    rfl

/-- A piece that begins with a digit is a number. -/
theorem result_number (chars : List Char) : (number chars).result = .ok .number := by
  unfold number
  dsimp only
  split <;> rfl

/-- A word is a name if it is no keyword. -/
theorem word_of_identifier {first : Char} {rest : List Char}
    (h : (word first rest).result = .ok .identifier) :
    keyword? (first :: rest.takeWhile isWordPart) = none ∧
      (word first rest).tailLength = (rest.takeWhile isWordPart).length := by
  unfold word at h ⊢
  dsimp only at h ⊢
  cases hkeyword : keyword? (first :: rest.takeWhile isWordPart) with
  | none => exact ⟨rfl, rfl⟩
  | some keyword =>
      rw [hkeyword] at h
      cases h

/-- What is called a name is a word and no keyword. -/
theorem beginning_of_identifier {first : Char} {rest : List Char}
    (h : (beginning first rest).result = .ok .identifier) :
    isWordStart first = true ∧ keyword? (first :: rest.takeWhile isWordPart) = none ∧
      (beginning first rest).tailLength = (rest.takeWhile isWordPart).length := by
  unfold beginning at h ⊢
  split at h
  · cases result_string rest h
  split at h
  · cases result_character rest h
  split at h
  · rw [result_number] at h
    cases h
  split at h
  · rename_i hquote hmark hdigit hstart
    simp only [hquote, hmark, hdigit, hstart]
    exact ⟨trivial, word_of_identifier h⟩
  · split at h <;> cases h

/-- The end of the text is no piece of it. -/
theorem beginning_ne_endOfText (first : Char) (rest : List Char) :
    (beginning first rest).result ≠ .ok .endOfText := by
  intro h
  unfold beginning at h
  split at h
  · cases result_string rest h
  split at h
  · cases result_character rest h
  split at h
  · rw [result_number] at h
    cases h
  split at h
  · unfold word at h
    dsimp only at h
    split at h <;> cases h
  · split at h <;> cases h

end Piece

/-! ## One step of the scanner -/

namespace Cursor

/-- What a step yields: a token with its place, text and line, or an error with its place. -/
def itemAt (cursor : Cursor) (first : Char) (rest : List Char) : Except LexError Token :=
  let here := cursor.advance (gapLength false cursor.rest)
  let piece := Piece.beginning first rest
  let span := Span.between here.offset (here.advance (piece.tailLength + 1)).offset
  match piece.result with
  | .ok kind =>
    .ok
      { kind
        span
        lexeme := String.ofList (here.rest.take (piece.tailLength + 1))
        startsLine := (cursor.rest.take (gapLength false cursor.rest)).contains '\n' }
  | .error cause => .error ⟨cause, span⟩

/-- After the gap comes the piece that begins with the first character there. -/
theorem next?_of_cons {cursor : Cursor} {first : Char} {rest : List Char}
    (h : (cursor.advance (gapLength false cursor.rest)).rest = first :: rest) :
    cursor.next? = some (cursor.itemAt first rest,
      (cursor.advance (gapLength false cursor.rest)).advance
        ((Piece.beginning first rest).tailLength + 1)) := by
  unfold next? itemAt
  dsimp only
  split
  · rename_i hnil
    rw [h] at hnil
    cases hnil
  · rename_i first' rest' hcons
    rw [h] at hcons
    cases hcons
    cases (Piece.beginning first rest).result <;> rfl

/-- After a gap up to the end there is no piece. -/
theorem next?_of_nil {cursor : Cursor}
    (h : (cursor.advance (gapLength false cursor.rest)).rest = []) : cursor.next? = none := by
  unfold next?
  dsimp only
  split
  · rfl
  · rename_i hcons
    rw [h] at hcons
    cases hcons

/-- A step skips blanks and comments and takes the piece that begins there. -/
theorem exists_of_next? {cursor after : Cursor} {item : Except LexError Token}
    (h : cursor.next? = some (item, after)) :
    ∃ first rest, (cursor.advance (gapLength false cursor.rest)).rest = first :: rest ∧
      item = cursor.itemAt first rest ∧
      after = (cursor.advance (gapLength false cursor.rest)).advance
        ((Piece.beginning first rest).tailLength + 1) := by
  cases hrest : (cursor.advance (gapLength false cursor.rest)).rest with
  | nil =>
      rw [next?_of_nil hrest] at h
      cases h
  | cons first rest =>
      rw [next?_of_cons hrest] at h
      cases h
      exact ⟨first, rest, rfl, rfl, rfl⟩

/-- The items of a cursor are the next one and those after it. -/
theorem items_eq (cursor : Cursor) :
    cursor.items = match cursor.next? with
      | none => []
      | some (item, after) => item :: after.items := by
  rw [items]
  split <;> rename_i h <;> rw [h]

/-- A step from a place yields the first item and leads to the place of the others. -/
theorem next?_of_items_eq_cons {cursor : Cursor} {item : Except LexError Token}
    {rest : List (Except LexError Token)} (h : cursor.items = item :: rest) :
    ∃ after, cursor.next? = some (item, after) ∧ after.items = rest := by
  rw [items_eq] at h
  split at h
  · cases h
  · rename_i after hnext
    cases h
    exact ⟨after, hnext, rfl⟩

/-- The fields of a token that a step yields. -/
structure Yields (cursor : Cursor) (first : Char) (rest : List Char) (token : Token) : Prop where
  kind_eq : (Piece.beginning first rest).result = .ok token.kind
  lexeme_eq : token.lexeme =
    String.ofList (first :: rest.take (Piece.beginning first rest).tailLength)
  span_eq : token.span = .between (cursor.advance (gapLength false cursor.rest)).offset
    ((cursor.advance (gapLength false cursor.rest)).advance
      ((Piece.beginning first rest).tailLength + 1)).offset
  startsLine_eq :
    token.startsLine = (cursor.rest.take (gapLength false cursor.rest)).contains '\n'

/-- A token that stands at the cursor is yielded. -/
theorem yields_of_itemAt {cursor : Cursor} {first : Char} {rest : List Char} {token : Token}
    (hrest : (cursor.advance (gapLength false cursor.rest)).rest = first :: rest)
    (h : cursor.itemAt first rest = .ok token) : cursor.Yields first rest token := by
  unfold itemAt at h
  dsimp only at h
  split at h
  · rename_i hkind
    cases h
    refine ⟨hkind, ?_, rfl, rfl⟩
    dsimp only
    rw [hrest, List.take_succ_cons]
  · cases h

/-- A token that is called a name is one. -/
theorem Yields.isName {cursor : Cursor} {first : Char} {rest : List Char} {token : Token}
    (h : cursor.Yields first rest token) (hkind : token.kind = .identifier) :
    isName token.lexeme = true := by
  obtain ⟨hstart, hkeyword, hlength⟩ := Piece.beginning_of_identifier (hkind ▸ h.kind_eq)
  have htake : rest.take (rest.takeWhile isWordPart).length = rest.takeWhile isWordPart :=
    (List.prefix_iff_eq_take.1 (List.takeWhile_prefix _)).symm
  rw [h.lexeme_eq, hlength, htake]
  unfold Token.isName
  rw [String.toList_ofList]
  simp [hstart, hkeyword]

/-- No token that is scanned is the end, and identifiers are names. -/
theorem of_mem_items {cursor : Cursor} {token : Token} (h : .ok token ∈ cursor.items) :
    token.kind ≠ .endOfText ∧ (token.kind = .identifier → isName token.lexeme = true) := by
  fun_induction items cursor with
  | case1 => cases h
  | case2 cursor item after hnext ih =>
      rw [List.mem_cons] at h
      obtain rfl | h := h
      · obtain ⟨first, rest, hrest, hitem, -⟩ := exists_of_next? hnext
        have hyields := yields_of_itemAt hrest hitem.symm
        refine ⟨fun hkind => ?_, hyields.isName⟩
        exact Piece.beginning_ne_endOfText first rest (hkind ▸ hyields.kind_eq)
      · exact ih h

/-! ## Gaps -/

end Cursor

@[simp] theorem byteLength_append (a b : List Char) :
    byteLength (a ++ b) = byteLength a + byteLength b := by
  induction a with
  | nil => simp [byteLength]
  | cons c a ih =>
      simp only [byteLength, List.cons_append, List.foldr_cons] at ih ⊢
      omega

/-- Dropping the bytes of some characters drops these characters. -/
theorem dropBytes_byteLength (a b : List Char) :
    Span.dropBytes (byteLength a) (a ++ b) = some b := by
  induction a with
  | nil =>
      rw [show byteLength [] = 0 from rfl, Span.dropBytes]
      rfl
  | cons c a ih =>
      have hpos := c.utf8Size_pos
      have hlength : byteLength (c :: a) = (c.utf8Size - 1 + byteLength a) + 1 := by
        show c.utf8Size + byteLength a = _
        omega
      rw [hlength, List.cons_append, Span.dropBytes, if_pos (by omega)]
      rw [show c.utf8Size - 1 + byteLength a + 1 - c.utf8Size = byteLength a by omega]
      exact ih

/-- The text under a span is what stands between as many bytes before as its start says and as many
after as its end. -/
theorem text?_of_append (a b c : List Char) {source : String} (h : source.toList = a ++ (b ++ c)) :
    (Span.between (byteLength a) (byteLength a + byteLength b)).text? source =
      some (String.ofList b) := by
  unfold Span.text? Span.between
  dsimp only
  rw [h, dropBytes_byteLength, Nat.add_sub_cancel_left]
  show (Span.dropBytes (byteLength b) (b ++ c)).bind _ = _
  rw [dropBytes_byteLength]
  show some (String.ofList ((b ++ c).take ((b ++ c).length - c.length))) = _
  simp

/-- A newline stands in the source between the two tokens. -/
def newlineBetween (source : String) (a b : Token) : Bool :=
  ((Span.between a.span.stop b.span.start).text? source).any (·.toList.contains '\n')

namespace Cursor

/-- The cursor stands in the source: what is left is a suffix of it, at the right offset. -/
def Within (source : String) (cursor : Cursor) : Prop :=
  ∃ before, source.toList = before ++ cursor.rest ∧ cursor.offset = byteLength before

/-- A source is within itself. -/
theorem within_start (source : String) : (start source).Within source := ⟨[], rfl, rfl⟩

/-- Going forward stays within the source. -/
theorem Within.advance {source : String} {cursor : Cursor} (h : cursor.Within source) (n : Nat) :
    (cursor.advance n).Within source := by
  obtain ⟨before, hrest, hoffset⟩ := h
  refine ⟨before ++ cursor.rest.take n, ?_, ?_⟩
  · show _ = before ++ cursor.rest.take n ++ cursor.rest.drop n
    rw [List.append_assoc, List.take_append_drop, hrest]
  · show cursor.offset + byteLength (cursor.rest.take n) = _
    rw [byteLength_append, hoffset]

/-- What a cursor passes is the text between its two offsets. -/
theorem Within.text? {source : String} {cursor : Cursor} (h : cursor.Within source) (n : Nat) :
    (Span.between cursor.offset (cursor.advance n).offset).text? source =
      some (String.ofList (cursor.rest.take n)) := by
  obtain ⟨before, hrest, hoffset⟩ := h
  show (Span.between cursor.offset (cursor.offset + byteLength (cursor.rest.take n))).text? _ = _
  rw [hoffset]
  refine text?_of_append before _ (cursor.rest.drop n) ?_
  rw [List.take_append_drop, hrest]

/-- Reading a piece stays within the source. -/
theorem Within.next? {source : String} {cursor after : Cursor} {item : Except LexError Token}
    (h : cursor.Within source) (hnext : cursor.next? = some (item, after)) :
    after.Within source := by
  obtain ⟨first, rest, -, -, rfl⟩ := exists_of_next? hnext
  exact (h.advance _).advance _

/-- A token begins where its gap ends, and ends where the next step begins. -/
theorem span_of_next? {cursor after : Cursor} {token : Token}
    (h : cursor.next? = some (.ok token, after)) :
    token.span.start = (cursor.advance (gapLength false cursor.rest)).offset ∧
      token.span.stop = after.offset ∧
      token.startsLine = (cursor.rest.take (gapLength false cursor.rest)).contains '\n' := by
  obtain ⟨first, rest, hrest, hitem, rfl⟩ := exists_of_next? h
  have hyields := yields_of_itemAt hrest hitem.symm
  rw [hyields.span_eq]
  refine ⟨rfl, ?_, hyields.startsLine_eq⟩
  generalize cursor.advance _ = here
  show here.offset + (here.offset + _ - here.offset) = here.offset + _
  omega

/-- All tokens but the first start a line if there is a newline between them and the one before. -/
theorem Within.zipWith_newlineBetween {source : String} {tokens : List Token} {cursor : Cursor}
    (hcursor : cursor.Within source) (h : cursor.items = tokens.map .ok) :
    List.zipWith (newlineBetween source) tokens tokens.tail = tokens.tail.map (·.startsLine) := by
  induction tokens generalizing cursor with
  | nil => rfl
  | cons a tokens ih =>
      obtain ⟨after, hnext, hafter⟩ := next?_of_items_eq_cons h
      have hwithin := hcursor.next? hnext
      have htail := ih hwithin hafter
      cases tokens with
      | nil => rfl
      | cons b tokens =>
          obtain ⟨after', hnext', -⟩ := next?_of_items_eq_cons hafter
          rw [List.tail_cons, List.zipWith_cons_cons, List.map_cons]
          congr 1
          unfold newlineBetween
          rw [(span_of_next? hnext).2.1, (span_of_next? hnext').1, (span_of_next? hnext').2.2,
            hwithin.text?]
          simp

end Cursor

/-- The tokens of a text: names are names, and none is the end of the text. -/
theorem of_mem_scan {source : String} {token : Token} (h : .ok token ∈ scan source) :
    token.kind ≠ .endOfText ∧ (token.kind = .identifier → isName token.lexeme = true) :=
  Cursor.of_mem_items h

/-- The tokens of a source are not the end, and its identifiers are names. -/
theorem of_scan {source : String} {tokens : List Token} (h : scan source = tokens.map .ok) :
    ∀ token ∈ tokens, token.kind ≠ .endOfText ∧
      (token.kind = .identifier → isName token.lexeme = true) := by
  intro token hmem
  refine of_mem_scan (?_ : .ok token ∈ scan source)
  rw [h]
  exact List.mem_map_of_mem hmem

/-- A token remembers whether a newline stands between it and the token before. -/
theorem zipWith_newlineBetween {source : String} {tokens : List Token}
    (h : scan source = tokens.map .ok) :
    List.zipWith (newlineBetween source) tokens tokens.tail = tokens.tail.map (·.startsLine) :=
  (Cursor.within_start source).zipWith_newlineBetween h

/-! ## Texts without lexical errors -/

/-- The tokens of a source text that has no lexical error. -/
def tokens? (source : String) : Option (List Token) := (scan source).mapM (·.toOption)

/-- Items that give tokens all along are those tokens. -/
theorem mapM_toOption {items : List (Except LexError Token)} {tokens : List Token}
    (h : items.mapM (·.toOption) = some tokens) : items = tokens.map .ok := by
  induction items generalizing tokens with
  | nil =>
      cases h
      rfl
  | cons item items ih =>
      rw [List.mapM_cons] at h
      cases item with
      | error error => cases h
      | ok token =>
          obtain ⟨_, hfirst, h⟩ := Option.bind_eq_some_iff.1 h
          obtain ⟨rest, hrest, h⟩ := Option.bind_eq_some_iff.1 h
          cases hfirst
          cases h
          rw [ih hrest, List.map_cons]

theorem scan_of_tokens? {source : String} {tokens : List Token}
    (h : tokens? source = some tokens) : scan source = tokens.map .ok := mapM_toOption h

theorem tokens?_of_scan {source : String} {tokens : List Token}
    (h : scan source = tokens.map .ok) : tokens? source = some tokens := by
  unfold tokens?
  rw [h]
  clear h
  induction tokens with
  | nil => rfl
  | cons token tokens ih =>
      rw [List.map_cons, List.mapM_cons, ih]
      rfl

end ListScript.Token
