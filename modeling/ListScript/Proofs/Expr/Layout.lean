import Mathlib.Data.List.Forall2
import ListScript.Proofs.Expr.Lockstep
import ListScript.Proofs.Token.Scanning

/-!
# Layout

Where tokens stand has no part in what they mean: two texts with the same tokens, and with newlines
in the same gaps between them, stand for the same trees or fail for the same cause
(`Block.parse_layout`). What stands before the first token is free, since nothing looks at the line
of a token that starts an expression (`Parser.program_withLine`).
-/

namespace ListScript

/-- The streams hold tokens that are alike, one by one, and no errors. -/
def TokenStream.Alike (s t : TokenStream) : Prop :=
  ∃ tokens tokens', s.pending = tokens.map .ok ∧ t.pending = tokens'.map .ok ∧
    List.Forall₂ Token.Alike tokens tokens'

theorem TokenStream.Alike.length_eq {s t : TokenStream} (h : s.Alike t) :
    s.pending.length = t.pending.length := by
  obtain ⟨tokens, tokens', hs, ht, h⟩ := h
  rw [hs, ht, List.length_map, List.length_map, h.length_eq]

/-- The blocks hold trees that are alike, one by one. -/
def Block.Alike (block block' : Block) : Prop := Expr.AlikeAll block.body block'.body

/-- The block at no place. -/
def Block.erase (block : Block) : Block := ⟨Expr.eraseAll block.body, .empty 0⟩

namespace Parser

theorem dropSemicolons_alike {tokens tokens' : List Token}
    (h : List.Forall₂ Token.Alike tokens tokens') (stop stop' : Nat) :
    ∃ rest rest', (dropSemicolons (tokens.map .ok) stop).1 = rest.map .ok ∧
      (dropSemicolons (tokens'.map .ok) stop').1 = rest'.map .ok ∧
      List.Forall₂ Token.Alike rest rest' := by
  induction h generalizing stop stop' with
  | nil => exact ⟨[], [], rfl, rfl, .nil⟩
  | @cons a b tokens tokens' hab h ih =>
      simp only [List.map_cons, dropSemicolons, ← hab.kind_eq]
      split
      · exact ih _ _
      · exact ⟨a :: tokens, b :: tokens', rfl, rfl, .cons hab h⟩

/-- Streams with tokens that are alike are read in lockstep, up to the places of errors. -/
theorem lockstep_alike : Lockstep TokenStream.Alike fun e e' => e.cause = e'.cause where
  peek := by
    rintro s t ⟨tokens, tokens', hs, ht, h⟩
    have hst : s.Alike t := ⟨tokens, tokens', hs, ht, h⟩
    unfold Parser.peek
    rw [hs, ht]
    cases h with
    | nil => exact ⟨⟨rfl, rfl, rfl, fun hkind => nomatch hkind⟩, hst⟩
    | cons hab h => exact ⟨hab, hst⟩
  take := by
    rintro s t ⟨tokens, tokens', hs, ht, h⟩
    unfold Parser.take
    rw [hs, ht]
    cases h with
    | nil => exact ⟨⟨rfl, rfl, rfl, fun hkind => nomatch hkind⟩, [], [], rfl, rfl, .nil⟩
    | cons hab h => exact ⟨hab, _, _, rfl, rfl, h⟩
  skipSemicolons := by
    rintro s t ⟨tokens, tokens', hs, ht, h⟩
    unfold Parser.skipSemicolons
    rw [hs, ht]
    exact ⟨trivial, dropSemicolons_alike h _ _⟩
  throw := fun _ _ _ => rfl

/-- Reading all of two streams with tokens that are alike gives blocks that are alike, or fails on
both for the same cause. -/
theorem program_alike {s t : TokenStream} (h : s.Alike t) :
    Meets TokenStream.Alike (fun e e' => e.cause = e'.cause) Block.Alike (program s)
      (program t) := by
  have hbody := lockstep_alike.sequence
    (lockstep_alike.expressionWithin (t.pending.length + 1)) .endOfText (t.pending.length + 1)
  have hblock : InStep TokenStream.Alike (fun e e' => e.cause = e'.cause) Block.Alike
      ((Block.mk · ⟨0, s.size⟩) <$> sequence _ _ _) ((Block.mk · ⟨0, t.size⟩) <$> sequence _ _ _) :=
    hbody.map fun _ _ hbody => hbody
  unfold program
  rw [h.length_eq]
  exact hblock h

/-! ## The first token -/

section

variable (x : Nat → Parser Expr) (rounds : Nat) (token : Token) (line : Bool)
variable (rest : List (Except LexError Token)) (size stop : Nat)

/-- What an operand is does not depend on the line of its first token. -/
theorem operand_withLine :
    operand x rounds ⟨.ok { token with startsLine := line } :: rest, size, stop⟩ =
      operand x rounds ⟨.ok token :: rest, size, stop⟩ := by
  obtain ⟨kind, span, lexeme, startsLine⟩ := token
  unfold operand
  rw [run_bind, run_bind]
  show _ = _
  unfold take
  dsimp only
  cases kind with
  | keyword keyword => cases keyword <;> rfl
  | symbol symbol => cases symbol <;> rfl
  | _ => rfl

/-- What an expression is does not depend on the line of its first token. -/
theorem expressionWithin_withLine (room least : Nat) :
    expressionWithin (room + 1) least
        ⟨.ok { token with startsLine := line } :: rest, size, stop⟩ =
      expressionWithin (room + 1) least ⟨.ok token :: rest, size, stop⟩ := by
  unfold expressionWithin
  rw [run_bind, run_bind, operand_withLine]

/-- What a text stands for does not depend on the line of its first token. -/
theorem program_withLine (hkind : token.kind ≠ .endOfText) :
    program ⟨.ok { token with startsLine := line } :: rest, size, stop⟩ =
      program ⟨.ok token :: rest, size, stop⟩ := by
  have hsequence (room rounds : Nat) :
      sequence (expressionWithin (room + 1)) .endOfText (rounds + 1)
          ⟨.ok { token with startsLine := line } :: rest, size, stop⟩ =
        sequence (expressionWithin (room + 1)) .endOfText (rounds + 1)
          ⟨.ok token :: rest, size, stop⟩ := by
    unfold sequence
    rw [run_bind, run_bind]
    unfold skipSemicolons
    by_cases hsemicolon : token.kind = .symbol .semicolon
    · simp only [dropSemicolons, hsemicolon, if_pos]
    · simp only [dropSemicolons, hsemicolon, if_neg, not_false_eq_true]
      rw [run_bind, run_bind]
      simp only [peek, hkind, if_neg, not_false_eq_true]
      rw [run_bind, run_bind, expressionWithin_withLine]
  unfold program
  dsimp only [List.length_cons]
  rw [map_eq_pure_bind, run_bind, run_bind, hsequence]

end

end Parser

/-- Tokens of the same kinds and texts on the same lines are alike. -/
theorem Token.forall₂_alike {tokens tokens' : List Token}
    (hnames : ∀ token ∈ tokens, token.kind = .identifier → Token.isName token.lexeme = true)
    (htokens : tokens.map (fun token => (token.kind, token.lexeme)) =
      tokens'.map fun token => (token.kind, token.lexeme))
    (hlines : tokens.map (·.startsLine) = tokens'.map (·.startsLine)) :
    List.Forall₂ Token.Alike tokens tokens' := by
  induction tokens generalizing tokens' with
  | nil =>
      cases tokens' with
      | nil => exact .nil
      | cons => cases htokens
  | cons a tokens ih =>
      cases tokens' with
      | nil => cases htokens
      | cons b tokens' =>
          simp only [List.map_cons, List.cons.injEq, Prod.mk.injEq] at htokens hlines
          obtain ⟨⟨hkind, hlexeme⟩, htokens⟩ := htokens
          refine .cons ⟨hkind, hlexeme, hlines.1, hnames a (by simp)⟩ ?_
          exact ih (fun token h => hnames token (by simp [h])) htokens hlines.2

theorem Token.forall₂_alike_of_gist {tokens tokens' : List Token}
    (hnames : ∀ token ∈ tokens, token.kind = .identifier → Token.isName token.lexeme = true)
    (h : tokens.map gist = tokens'.map gist) : List.Forall₂ Token.Alike tokens tokens' := by
  have htokens := congrArg (List.map fun g => (g.1, g.2.1)) h
  have hlines := congrArg (List.map fun g => g.2.2) h
  rw [List.map_map, List.map_map] at htokens hlines
  exact forall₂_alike hnames htokens hlines

/-- The same texts with newlines in the same gaps: after the first token, the streams are alike. -/
theorem TokenStream.alike_of_gaps {a a' : Token} {rest rest' : List Token} {source source' : String}
    (hsource : Token.scan source = (a :: rest).map .ok)
    (hsource' : Token.scan source' = (a' :: rest').map .ok)
    (htokens : (a :: rest).map (fun token => (token.kind, token.lexeme)) =
      (a' :: rest').map fun token => (token.kind, token.lexeme))
    (hgaps : List.zipWith (Token.newlineBetween source) (a :: rest) rest =
      List.zipWith (Token.newlineBetween source') (a' :: rest') rest') :
    (ofSource source).Alike
      ⟨.ok { a' with startsLine := a.startsLine } :: rest'.map .ok, source'.utf8ByteSize, 0⟩ := by
  refine ⟨a :: rest, { a' with startsLine := a.startsLine } :: rest', hsource, rfl, ?_⟩
  have hlines : rest.map (·.startsLine) = rest'.map (·.startsLine) := by
    have h := Token.zipWith_newlineBetween hsource
    have h' := Token.zipWith_newlineBetween hsource'
    rw [List.tail_cons] at h h'
    rw [← h, ← h', hgaps]
  refine Token.forall₂_alike (fun token hmem => (Token.of_scan hsource token hmem).2) htokens ?_
  rw [List.map_cons, List.map_cons, hlines]

/-- Where both ways of reading a text meet, so do the answers. -/
theorem Block.parse_of_meets {source source' : String} {t : TokenStream}
    (ht : Parser.program t = Parser.program (.ofSource source'))
    (h : Parser.Meets TokenStream.Alike (fun e e' => e.cause = e'.cause) Block.Alike
      (Parser.program (.ofSource source)) (Parser.program t)) :
    (∃ block block', parse source = .ok block ∧ parse source' = .ok block' ∧
      block.erase = block'.erase ∧ block.symbolic = block'.symbolic) ∨
    (∃ error error', parse source = .error error ∧ parse source' = .error error' ∧
      error.cause = error'.cause) := by
  rw [ht] at h
  unfold parse
  cases hs : Parser.program (.ofSource source) <;>
    cases ht : Parser.program (.ofSource source') <;> rw [hs, ht] at h
  case ok.ok block _ block' _ =>
    refine .inl ⟨block, block', rfl, rfl, ?_, ?_⟩
    · unfold erase
      rw [h.1.1]
    · unfold symbolic
      rw [h.1.symbolicAll_eq]
  case error.error error _ error' _ => exact .inr ⟨error, error', rfl, rfl, h.1⟩
  all_goals exact h.elim

namespace Block

/-- What tokens stand for depends on their kinds and texts and on which gaps between them hold a
newline. -/
theorem parse_layout {source source' : String} {tokens tokens' : List Token}
    (hsource : Token.tokens? source = some tokens)
    (hsource' : Token.tokens? source' = some tokens')
    (htokens : tokens.map (fun token => (token.kind, token.lexeme)) =
      tokens'.map fun token => (token.kind, token.lexeme))
    (hgaps : List.zipWith (Token.newlineBetween source) tokens tokens.tail =
      List.zipWith (Token.newlineBetween source') tokens' tokens'.tail) :
    (∃ block block', parse source = .ok block ∧ parse source' = .ok block' ∧
      block.erase = block'.erase ∧ block.symbolic = block'.symbolic) ∨
    (∃ error error', parse source = .error error ∧ parse source' = .error error' ∧
      error.cause = error'.cause) := by
  have hscan := Token.scan_of_tokens? hsource
  have hscan' := Token.scan_of_tokens? hsource'
  cases tokens with
  | nil =>
      obtain rfl : tokens' = [] := List.map_eq_nil_iff.1 htokens.symm
      exact parse_of_meets rfl (Parser.program_alike ⟨[], [], hscan, hscan', .nil⟩)
  | cons a rest =>
      cases tokens' with
      | nil => cases htokens
      | cons a' rest' =>
          -- The first token of the second text is moved to the line of the first text's.
          have halike := TokenStream.alike_of_gaps hscan hscan' htokens hgaps
          refine parse_of_meets ?_ (Parser.program_alike halike)
          have hkind := (Token.of_scan hscan' a' List.mem_cons_self).1
          rw [Parser.program_withLine _ _ _ _ _ hkind]
          unfold TokenStream.ofSource
          rw [hscan', List.map_cons]

/-- A comment and some blanks more or less change nothing, where the newline stays. -/
theorem parse_layout_comment :
    (Token.tokens? "x // y\n -y").map (·.map (·.lexeme)) = some ["x", "-", "y"] ∧
      (Token.tokens? "\nx\n-  y").map (·.map (·.lexeme)) = some ["x", "-", "y"] ∧
      ∃ block block', parse "x // y\n -y" = .ok block ∧ parse "\nx\n-  y" = .ok block' ∧
        block.erase = block'.erase ∧ block.symbolic = block'.symbolic := by
  let tokens : List Token := [⟨.identifier, ⟨0, 1⟩, "x", false⟩, ⟨.symbol .minus, ⟨8, 1⟩, "-", true⟩,
    ⟨.identifier, ⟨9, 1⟩, "y", false⟩]
  let tokens' : List Token := [⟨.identifier, ⟨1, 1⟩, "x", true⟩, ⟨.symbol .minus, ⟨3, 1⟩, "-", true⟩,
    ⟨.identifier, ⟨6, 1⟩, "y", false⟩]
  have hsource : Token.tokens? "x // y\n -y" = some tokens := by decide +kernel
  have hsource' : Token.tokens? "\nx\n-  y" = some tokens' := by decide +kernel
  refine ⟨by rw [hsource]; rfl, by rw [hsource']; rfl, ?_⟩
  obtain hblocks | ⟨error, -, herror, -⟩ :=
    parse_layout hsource hsource' (by decide) (by decide +kernel)
  · exact hblocks
  · have hok : (parse "x // y\n -y").isOk = true := by decide +kernel
    rw [herror] at hok
    cases hok

end Block

end ListScript
