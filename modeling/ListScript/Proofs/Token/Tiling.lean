import ListScript.Proofs.Source.Boundary
import ListScript.Proofs.Token.Joining

/-!
# Scanning loses nothing

The tokens and lexical errors of a source text stand in it one after the other, and all that stands
before, between and after them is blanks and comments: the text is `Tiled` by them. This is a
property of one step of the scanner (`Cursor.Within.gap`), carried on to the end of the text
(`Cursor.Within.tiled`). `scan_lossless` says what follows for whoever reads a source text token by
token.
-/

namespace ListScript.Token

/-! ## Blanks and comments -/

/-- Blanks and comments. A comment runs from two slashes to a newline, and where the source ends, as
`final` says, it may lack the newline. -/
inductive Trivia (final : Prop) : List Char → Prop where
  | nil : Trivia final []
  | blank {c : Char} {rest : List Char} (hc : Text.isBlank c = true) (hrest : Trivia final rest) :
      Trivia final (c :: rest)
  | comment (body : List Char) {rest : List Char} (hbody : '\n' ∉ body)
      (hrest : Trivia final rest) : Trivia final ('/' :: '/' :: (body ++ '\n' :: rest))
  | lastComment (body : List Char) (hbody : '\n' ∉ body) (hfinal : final) :
      Trivia final ('/' :: '/' :: body)

theorem Trivia.mono {final final' : Prop} (h : final → final') {chars : List Char}
    (hchars : Trivia final chars) : Trivia final' chars := by
  induction hchars with
  | nil => exact .nil
  | blank hc _ ih => exact .blank hc ih
  | comment body hbody _ ih => exact .comment body hbody ih
  | lastComment body hbody hfinal => exact .lastComment body hbody (h hfinal)

/-- What is left of a comment, and blanks and comments after it. -/
inductive CommentRest (final : Prop) : List Char → Prop where
  | ended (body : List Char) {rest : List Char} (hbody : '\n' ∉ body)
      (hrest : Trivia final rest) : CommentRest final (body ++ '\n' :: rest)
  | last {body : List Char} (hbody : '\n' ∉ body) (hfinal : final) : CommentRest final body

namespace CommentRest

variable {final : Prop} {c : Char} {chars : List Char}

theorem mono {final' : Prop} (h : final → final') (hchars : CommentRest final chars) :
    CommentRest final' chars := by
  cases hchars with
  | ended body hbody hrest => exact .ended body hbody (hrest.mono h)
  | last hbody hfinal => exact .last hbody (h hfinal)

theorem cons (hc : c ≠ '\n') (h : CommentRest final chars) : CommentRest final (c :: chars) := by
  cases h with
  | ended body hbody hrest => exact .ended (c :: body) (by simp [hc.symm, hbody]) hrest
  | last hbody hfinal => exact .last (by simp [hc.symm, hbody]) hfinal

/-- A slash before what is left of a comment, if that begins with one, makes a comment. -/
theorem trivia (h : CommentRest final ('/' :: chars)) : Trivia final ('/' :: '/' :: chars) := by
  generalize htext : '/' :: chars = text at h
  cases h with
  | ended body hbody hrest =>
      cases body with
      | nil => cases htext
      | cons d body =>
          cases htext
          exact .comment body (fun hmem => hbody (List.mem_cons_of_mem _ hmem)) hrest
  | last hbody hfinal =>
      subst htext
      exact .lastComment chars (fun hmem => hbody (List.mem_cons_of_mem _ hmem)) hfinal

end CommentRest

/-- A gap is made up of blanks and comments, and one that begins inside a comment of the rest of it
and more. -/
theorem trivia_of_gapLength (chars : List Char) :
    Trivia (gapLength false chars = chars.length) (chars.take (gapLength false chars)) ∧
      CommentRest (gapLength true chars = chars.length) (chars.take (gapLength true chars)) := by
  induction chars with
  | nil => exact ⟨.nil, .last (by simp) rfl⟩
  | cons c rest ih =>
      obtain ⟨hplain, hcomment⟩ := ih
      have hplain := hplain.mono (congrArg (· + 1))
      have hcomment := hcomment.mono (congrArg (· + 1))
      constructor
      · rw [gapLength_cons, if_neg (by simp)]
        split
        · next hblank => exact .blank hblank hplain
        · split
          · next hslashes =>
              rw [Bool.and_eq_true, beq_iff_eq, beq_iff_eq] at hslashes
              obtain ⟨rfl, hhead⟩ := hslashes
              obtain ⟨rest, rfl⟩ := List.head?_eq_some_iff.1 hhead
              exact hcomment.trivia
          · exact .nil
      · rw [gapLength_cons, if_pos rfl]
        by_cases hc : c = '\n'
        · subst hc
          exact .ended [] (by simp) hplain
        · rw [bne_iff_ne.2 hc]
          exact hcomment.cons hc

/-! ## Tiles -/

/-- Where a token or a lexical error stands. -/
def itemSpan : Except LexError Token → Span
  | .ok token => token.span
  | .error error => error.span

/-- Between the two offsets stand blanks and comments only. -/
def Gap (source : String) (a b : Nat) : Prop :=
  a ≤ b ∧ ∃ text, (Span.between a b).text? source = some text ∧
    Trivia (b = source.utf8ByteSize) text.toList

theorem Gap.boundary {source : String} {a b : Nat} (h : Gap source a b) :
    Boundary source a ∧ Boundary source b := by
  obtain ⟨hle, text, htext, -⟩ := h
  have hboundary := Boundary.text?_isSome_iff.1 (Option.isSome_of_eq_some htext)
  rwa [Span.start_between, Span.stop_between hle] at hboundary

theorem gap_self {source : String} {a : Nat} (h : Boundary source a) : Gap source a a := by
  obtain ⟨before, after, hsource, rfl⟩ := h
  exact ⟨Nat.le_refl _, _, text?_of_append before [] after hsource, .nil⟩

/-- From an offset on the source is made up of what stands under the items, one after the other, and
of blanks and comments before, between and after them. -/
inductive Tiled (source : String) : Nat → List (Except LexError Token) → Prop where
  | nil {offset : Nat} (hgap : Gap source offset source.utf8ByteSize) : Tiled source offset []
  | cons {offset : Nat} {item : Except LexError Token} {items : List (Except LexError Token)}
      {text : String} (hgap : Gap source offset (itemSpan item).start)
      (hlt : (itemSpan item).start < (itemSpan item).stop)
      (htext : (itemSpan item).text? source = some text)
      (hlexeme : ∀ token, item = .ok token → token.lexeme = text)
      (hitems : Tiled source (itemSpan item).stop items) : Tiled source offset (item :: items)

namespace Cursor

theorem itemSpan_itemAt (cursor : Cursor) (first : Char) (rest : List Char) :
    itemSpan (cursor.itemAt first rest) =
      .between (cursor.advance (gapLength false cursor.rest)).offset
        ((cursor.advance (gapLength false cursor.rest)).advance
          ((Piece.beginning first rest).tailLength + 1)).offset := by
  unfold itemAt
  dsimp only
  cases (Piece.beginning first rest).result <;> rfl

theorem le_offset_advance (cursor : Cursor) (n : Nat) : cursor.offset ≤ (cursor.advance n).offset :=
  Nat.le_add_right _ _

theorem Within.offset_add {source : String} {cursor : Cursor} (h : cursor.Within source) :
    cursor.offset + byteLength cursor.rest = source.utf8ByteSize := by
  obtain ⟨before, hrest, hoffset⟩ := h
  rw [← byteLength_toList, hrest, byteLength_append, hoffset]

/-- The place after all that is left is the end of the source. -/
theorem Within.offset_advance_length {source : String} {cursor : Cursor}
    (h : cursor.Within source) :
    (cursor.advance cursor.rest.length).offset = source.utf8ByteSize := by
  show cursor.offset + byteLength (cursor.rest.take cursor.rest.length) = _
  rw [List.take_length, h.offset_add]

/-- What a step skips are blanks and comments. -/
theorem Within.gap {source : String} {cursor : Cursor} (h : cursor.Within source) :
    Gap source cursor.offset (cursor.advance (gapLength false cursor.rest)).offset := by
  refine ⟨cursor.le_offset_advance _, _, h.text? _, ?_⟩
  rw [String.toList_ofList]
  refine (trivia_of_gapLength cursor.rest).1.mono fun hall => ?_
  rw [hall, h.offset_advance_length]

/-- A step takes one character at least. -/
theorem offset_lt_advance {cursor : Cursor} {first : Char} {rest : List Char}
    (h : cursor.rest = first :: rest) (n : Nat) :
    cursor.offset < (cursor.advance (n + 1)).offset := by
  have hpos : 0 < byteLength (cursor.rest.take (n + 1)) := byteLength_pos (by rw [h]; simp)
  show cursor.offset < cursor.offset + _
  omega

/-- The source is tiled from wherever the scanner stands. -/
theorem Within.tiled {source : String} {cursor : Cursor} (h : cursor.Within source) :
    Tiled source cursor.offset cursor.items := by
  fun_induction items cursor with
  | case1 cursor hnext =>
      have hgap := h.gap
      rw [gapLength_of_next? hnext, h.offset_advance_length] at hgap
      exact .nil hgap
  | case2 cursor item after hnext ih =>
      have hitems := ih (h.next? hnext)
      obtain ⟨first, rest, hrest, rfl, rfl⟩ := exists_of_next? hnext
      have hlt := offset_lt_advance hrest (Piece.beginning first rest).tailLength
      have hspan := cursor.itemSpan_itemAt first rest
      have hstop := Span.stop_between (Nat.le_of_lt hlt)
      rw [← hspan] at hstop
      have htext := (h.advance (gapLength false cursor.rest)).text?
        ((Piece.beginning first rest).tailLength + 1)
      rw [← hspan, hrest, List.take_succ_cons] at htext
      refine .cons ?_ ?_ htext (fun token htoken => ?_) ?_
      · rw [hspan]
        exact h.gap
      · rw [hstop, hspan]
        exact hlt
      · exact (yields_of_itemAt hrest htoken).lexeme_eq
      · rw [hstop]
        exact hitems

end Cursor

/-- A source text is tiled by what is found in it. -/
theorem tiled_scan (source : String) : Tiled source 0 (scan source) :=
  (Cursor.within_start source).tiled

/-! ## What the tiles are -/

/-- The spans before, between and after the given ones, from an offset on. -/
def gaps (size : Nat) : Nat → List Span → List Span
  | offset, [] => [.between offset size]
  | offset, span :: rest => .between offset span.start :: gaps size span.stop rest

namespace Tiled

variable {source : String} {offset : Nat} {items : List (Except LexError Token)}

theorem boundary (h : Tiled source offset items) : Boundary source offset := by
  cases h with
  | nil hgap => exact hgap.boundary.1
  | cons hgap => exact hgap.boundary.1

theorem offset_le (h : Tiled source offset items) : offset ≤ source.utf8ByteSize :=
  h.boundary.le_size

/-- Each tile takes one byte at least. -/
theorem length_le (h : Tiled source offset items) :
    items.length ≤ source.utf8ByteSize - offset := by
  induction h with
  | nil => exact Nat.zero_le _
  | cons hgap hlt _ _ hitems ih =>
      have hle := hgap.1
      have hstop := hitems.offset_le
      rw [List.length_cons]
      omega

/-- Tiles are not empty and stand in the source, and a token's text is what stands under it. -/
theorem of_mem (h : Tiled source offset items) {item : Except LexError Token}
    (hitem : item ∈ items) :
    offset ≤ (itemSpan item).start ∧ (itemSpan item).start < (itemSpan item).stop ∧
      (itemSpan item).stop ≤ source.utf8ByteSize ∧
      ∃ text, (itemSpan item).text? source = some text ∧
        ∀ token, item = .ok token → token.lexeme = text := by
  induction h with
  | nil => cases hitem
  | cons hgap hlt htext hlexeme hitems ih =>
      obtain rfl | hmem := List.mem_cons.1 hitem
      · exact ⟨hgap.1, hlt, hitems.offset_le, _, htext, hlexeme⟩
      · obtain ⟨hstart, hrest⟩ := ih hmem
        exact ⟨Nat.le_trans hgap.1 (Nat.le_trans (Nat.le_of_lt hlt) hstart), hrest⟩

/-- Tiles do not overlap. -/
theorem pairwise (h : Tiled source offset items) :
    (items.map itemSpan).Pairwise fun a b => a.stop ≤ b.start := by
  induction h with
  | nil => exact .nil
  | cons _ _ _ _ hitems ih =>
      refine .cons (fun span hspan => ?_) ih
      obtain ⟨item, hitem, rfl⟩ := List.mem_map.1 hspan
      exact (hitems.of_mem hitem).1

/-- What is not under a tile is blanks and comments. -/
theorem gap_of_mem (h : Tiled source offset items) {gap : Span}
    (hgap : gap ∈ gaps source.utf8ByteSize offset (items.map itemSpan)) :
    Gap source gap.start gap.stop := by
  have hbetween {a b : Nat} (h : Gap source a b) :
      Gap source (Span.between a b).start (Span.between a b).stop := by
    rw [Span.stop_between h.1]
    exact h
  induction h with
  | nil hlast =>
      cases List.mem_singleton.1 hgap
      exact hbetween hlast
  | cons hfirst _ _ _ _ ih =>
      obtain rfl | hmem := List.mem_cons.1 hgap
      · exact hbetween hfirst
      · exact ih hmem

end Tiled

/-! ## Reading on -/

/-- What is read at a place and the place after it: the next token or lexical error, and from the
end of the text on the ending, for ever. -/
def Cursor.read (source : String) (cursor : Cursor) : Except LexError Token × Cursor :=
  match cursor.next? with
  | some found => found
  | none => (.ok (ending source.utf8ByteSize), cursor.advance cursor.rest.length)

/-- The place in the source after so many reads. -/
def placeAfter (source : String) : Nat → Cursor
  | 0 => .start source
  | reads + 1 => ((placeAfter source reads).read source).2

/-- What the next read after so many reads yields. -/
def resultAfter (source : String) (reads : Nat) : Except LexError Token :=
  ((placeAfter source reads).read source).1

namespace Cursor

theorem items_of_rest_eq_nil {cursor : Cursor} (h : cursor.rest = []) : cursor.items = [] := by
  have hnil : (cursor.advance (gapLength false cursor.rest)).rest = [] := by
    show cursor.rest.drop _ = []
    rw [h, List.drop_nil]
  rw [items_eq, next?_of_nil hnil]

/-- A read takes the first item, if there is one. -/
theorem read_eq {cursor : Cursor} (source : String) :
    (cursor.read source).1 = cursor.items.headD (.ok (ending source.utf8ByteSize)) ∧
      (cursor.read source).2.items = cursor.items.tail := by
  unfold read
  rw [items_eq cursor]
  cases cursor.next? with
  | some found => exact ⟨rfl, rfl⟩
  | none => exact ⟨rfl, items_of_rest_eq_nil List.drop_length⟩

/-- A read that finds something goes forward. -/
theorem offset_lt_read {cursor : Cursor} (h : cursor.items ≠ []) (source : String) :
    cursor.offset < (cursor.read source).2.offset := by
  unfold read
  cases hnext : cursor.next? with
  | none =>
      rw [items_eq, hnext] at h
      exact (h rfl).elim
  | some found =>
      obtain ⟨first, rest, hrest, -, hafter⟩ := exists_of_next? hnext
      show cursor.offset < found.2.offset
      rw [hafter]
      exact Nat.lt_of_le_of_lt (cursor.le_offset_advance _) (offset_lt_advance hrest _)

end Cursor

/-- Each read takes one more item of the source. -/
theorem items_placeAfter (source : String) (reads : Nat) :
    (placeAfter source reads).items = (scan source).drop reads := by
  induction reads with
  | zero => rfl
  | succ reads ih => rw [placeAfter, (Cursor.read_eq source).2, ih, List.tail_drop]

/-- The reads yield what is found in the source in order, and then the ending. -/
theorem resultAfter_eq (source : String) (reads : Nat) :
    resultAfter source reads =
      (scan source)[reads]?.getD (.ok (ending source.utf8ByteSize)) := by
  rw [resultAfter, (Cursor.read_eq source).1, items_placeAfter, List.headD_eq_head?_getD,
    List.head?_drop]

/-- Reading a source text token by token comes to its end after one read for each byte and one more
at most, whatever lexical errors there are. It yields what is found in the text, each time taking a
byte at least, and then the ending, for ever. What is found stands in the text at character
boundaries and one after the other, the text under a token being its own, and all that stands
before, between and after is blanks and comments. -/
theorem scan_lossless (source : String) :
    (∀ reads, resultAfter source reads =
      (scan source)[reads]?.getD (.ok (ending source.utf8ByteSize))) ∧
    (scan source).length ≤ source.utf8ByteSize ∧
    (ending source.utf8ByteSize).kind = .endOfText ∧
    (ending source.utf8ByteSize).span = .empty source.utf8ByteSize ∧
    (∀ token, .ok token ∈ scan source → token.kind ≠ .endOfText) ∧
    (∀ reads < (scan source).length,
      (placeAfter source reads).offset < (placeAfter source (reads + 1)).offset) ∧
    (∀ item ∈ scan source, (itemSpan item).start < (itemSpan item).stop ∧
      (itemSpan item).stop ≤ source.utf8ByteSize ∧
      ∃ text, (itemSpan item).text? source = some text ∧
        ∀ token, item = .ok token → token.lexeme = text) ∧
    ((scan source).map itemSpan).Pairwise (fun a b => a.stop ≤ b.start) ∧
    ∀ gap ∈ gaps source.utf8ByteSize 0 ((scan source).map itemSpan),
      ∃ text, gap.text? source = some text ∧
        Trivia (gap.stop = source.utf8ByteSize) text.toList := by
  have htiled := tiled_scan source
  refine ⟨resultAfter_eq source, htiled.length_le, rfl, rfl, fun token hmem => (of_mem_scan hmem).1,
    fun reads hlt => ?_, fun item hitem => (htiled.of_mem hitem).2, htiled.pairwise,
    fun gap hgap => ?_⟩
  · apply Cursor.offset_lt_read
    rw [items_placeAfter, ne_eq, List.drop_eq_nil_iff]
    exact Nat.not_le_of_lt hlt
  · obtain ⟨-, text, htext, htrivia⟩ := htiled.gap_of_mem hgap
    rw [gap.between_start_stop] at htext
    exact ⟨text, htext, htrivia⟩

end ListScript.Token
