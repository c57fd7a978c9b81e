import ListScript.Command
import ListScript.Proofs.Expr.Composition
import ListScript.Proofs.Expr.Reading

/-!
# Texts that are refused

A text with lexical errors is refused by every command. Reading stops at the first lexical error at
the latest, since whoever looks at one reports it (`Parser.halts_expressionWithin`), and what cannot
be read is not run. So listing the tokens of a text, showing its expressions and running it agree on
whether there are lexical errors, and on the first of them (`Command.lexical_errors_agree`).
-/

namespace ListScript

/-- The first lexical error among what was scanned. -/
def Token.firstError? (items : List (Except LexError Token)) : Option LexError :=
  items.findSome? fun
    | .ok _ => none
    | .error error => some error

/-- Tokens do not count for which error comes first. -/
theorem Token.firstError?_append (tokens : List Token) (items : List (Except LexError Token)) :
    firstError? (tokens.map .ok ++ items) = firstError? items := by
  induction tokens with
  | nil => rfl
  | cons token tokens ih => exact ih

/-- Tokens have no error among them. -/
theorem Token.firstError?_tokens (tokens : List Token) : firstError? (tokens.map .ok) = none := by
  have happend := firstError?_append tokens []
  rwa [List.append_nil] at happend

namespace Parser

/-- A lexical error that the reader reports is the first one of its stream. As long as it succeeds,
it has taken tokens only. -/
def Halts {α : Type} (p : Parser α) : Prop :=
  ∀ s, match p s with
    | .ok _ s' => ∃ tokens : List Token, s.pending = tokens.map .ok ++ s'.pending
    | .error e _ => ∀ error, e.cause = .lexical error →
      e = .ofLexError error ∧ Token.firstError? s.pending = some error

namespace Halts

variable {α β : Type}

/-- A reader that reports no lexical error and leaves the stream as it is when it succeeds. -/
theorem of_unchanged {p : Parser α}
    (h : ∀ s, match p s with
      | .ok _ s' => s'.pending = s.pending
      | .error e _ => ∀ error, e.cause ≠ .lexical error) : Halts p := by
  intro s
  have hs := h s
  split <;> rename_i heq <;> rw [heq] at hs
  · exact ⟨[], hs.symm⟩
  · intro error hcause
    exact absurd hcause (hs error)

/-- A reader halts at the first error, be it in the first part or the second. -/
theorem bind {p : Parser α} {f : α → Parser β} (hp : Halts p) (hf : ∀ a, Halts (f a)) :
    Halts (p >>= f) := by
  intro s
  have hps := hp s
  rw [run_bind]
  cases hrun : p s with
  | error e s' =>
      rw [hrun] at hps
      exact hps
  | ok a s' =>
      rw [hrun] at hps
      obtain ⟨tokens, htokens⟩ := hps
      have hfs := hf a s'
      dsimp only
      cases hrun' : f a s' with
      | ok b s'' =>
          rw [hrun'] at hfs
          obtain ⟨tokens', htokens'⟩ := hfs
          refine ⟨tokens ++ tokens', ?_⟩
          rw [htokens, htokens', List.map_append, List.append_assoc]
      | error e s'' =>
          rw [hrun'] at hfs
          intro error hcause
          obtain ⟨he, hfirst⟩ := hfs error hcause
          exact ⟨he, by rw [htokens, Token.firstError?_append, hfirst]⟩

/-- Looking at an item halts at an error. -/
theorem peek : Halts Parser.peek := by
  intro s
  unfold Parser.peek
  cases hpending : s.pending with
  | nil => exact ⟨[], hpending.symm⟩
  | cons item rest =>
      cases item with
      | ok token => exact ⟨[], hpending.symm⟩
      | error error =>
          intro error' hcause
          cases hcause
          exact ⟨rfl, rfl⟩

/-- Taking an item halts at an error. -/
theorem take : Halts Parser.take := by
  intro s
  unfold Parser.take
  cases hpending : s.pending with
  | nil => exact ⟨[], rfl⟩
  | cons item rest =>
      cases item with
      | ok token => exact ⟨[token], rfl⟩
      | error error =>
          intro error' hcause
          cases hcause
          exact ⟨rfl, rfl⟩

/-- Skipping semicolons takes tokens only, and reports nothing. -/
theorem skipSemicolons : Halts Parser.skipSemicolons := by
  intro s
  obtain ⟨tokens, htokens, -⟩ := takes_skipSemicolons (s := s) rfl
  exact ⟨tokens, htokens⟩

end Halts

/-- The elementary steps halt at the first error, and so do sequences of them. -/
theorem closed_halts : Closed Halts where
  pure a := .of_unchanged fun _ => rfl
  bind := .bind
  throw _ hcause := .of_unchanged fun _ => ParseError.Cause.ne_lexical hcause
  exhausted := .of_unchanged fun _ => by simp [exhausted]
  peek := .peek
  take := .take
  skipSemicolons := .skipSemicolons
  spanFrom _ := .of_unchanged fun _ => rfl
  absentNumber _ := .of_unchanged fun _ => rfl

/-- Reading expressions stops at the first lexical error at the latest. -/
theorem halts_expressionWithin (room least : Nat) : Halts (expressionWithin room least) :=
  closed_halts.expressionWithin room least

end Parser

/-- A text that is refused for a lexical error is refused for its first one. -/
theorem Block.eq_of_parse_lexical {text : String} {error : ParseError} {lexical : LexError}
    (h : parse text = .error error) (hcause : error.cause = .lexical lexical) :
    error = .ofLexError lexical ∧ Token.firstError? (Token.scan text) = some lexical := by
  have hprogram : Parser.Halts Parser.program := fun s =>
    Parser.closed_halts.map (Block.mk · ⟨0, s.size⟩)
      (Parser.closed_halts.sequence (Parser.halts_expressionWithin _) _ _) s
  have hhalts := hprogram (.ofSource text)
  unfold parse at h
  split at h
  · cases h
  · next error' s' hrun =>
      cases h
      rw [hrun] at hhalts
      exact hhalts lexical hcause

namespace Command

/-- A text that cannot be read is not run, whatever would carry it out. -/
theorem runScriptBy_of_error {text : String} {error : ParseError}
    (h : Block.parse text = .error error)
    (run : Session → Block → Except RuntimeError Value × Session) (format : Format)
    (config : Config) (showsValue : Bool) (path : String) :
    runScriptBy run format config showsValue text path =
      ⟨exitUnreadable, [], parseDiagnostics format text path error⟩ := by
  unfold runScriptBy
  rw [h]

/-- A text that cannot be read has no expressions to show. -/
theorem showExpressions_of_error {text : String} {error : ParseError}
    (h : Block.parse text = .error error) (format : Format) (path : String) :
    showExpressions format text path =
      ⟨exitUnreadable, [], parseDiagnostics format text path error⟩ := by
  unfold showExpressions
  rw [h]

/-- Listing the tokens of a text fails just when one of its pieces is no token. -/
theorem exit_listTokens (format : Format) (text : String) :
    (listTokens format text).exit = exitUnreadable ↔
      ∃ error, Token.firstError? (Token.scan text) = some error := by
  have hhead : Token.firstError? (Token.scan text) = _ := List.head?_filterMap.symm
  rw [hhead]
  show (if List.isEmpty (List.filterMap _ (Token.scan text)) then 0 else exitUnreadable) =
    exitUnreadable ↔ _
  cases List.filterMap _ (Token.scan text) with
  | nil => simp [exitUnreadable]
  | cons error errors => simp

/-- Reading and scanning agree on lexical errors. If a text can be read, scanning it from the start
meets none, and if reading fails with one, it is the first that scanning meets, at its place. Where
listing the tokens exits with 65, showing the expressions and running the text do so too, and write
nothing but what is wrong with the text. That does not depend on what would carry out a program, so
nothing of the text is evaluated. -/
theorem lexical_errors_agree (text path : String) :
    (∀ program, Block.parse text = .ok program →
      Token.firstError? (Token.scan text) = none) ∧
    (∀ error lexical, Block.parse text = .error error → error.cause = .lexical lexical →
      error.span = lexical.span ∧ Token.firstError? (Token.scan text) = some lexical) ∧
    ∀ format, (perform text path (.tokenize format)).exit = 65 →
      ∃ error, Block.parse text = .error error ∧
        (∀ format, perform text path (.parse format) =
          ⟨65, [], parseDiagnostics format text path error⟩) ∧
        ∀ format config showsValue,
          perform text path (.execute format config showsValue) =
            ⟨65, [], parseDiagnostics format text path error⟩ ∧
          ∀ run, runScriptBy run format config showsValue text path =
            ⟨65, [], parseDiagnostics format text path error⟩ := by
  have hread : ∀ program, Block.parse text = .ok program →
      Token.firstError? (Token.scan text) = none := by
    intro program hparse
    obtain ⟨tokens, hscan⟩ := Block.exists_tokens_of_parse hparse
    rw [hscan, Token.firstError?_tokens]
  refine ⟨hread, ?_, ?_⟩
  · intro error lexical hparse hcause
    obtain ⟨rfl, hfirst⟩ := Block.eq_of_parse_lexical hparse hcause
    exact ⟨rfl, hfirst⟩
  · intro format hexit
    obtain ⟨lexical, hfirst⟩ := (exit_listTokens format text).1 hexit
    cases hparse : Block.parse text with
    | ok program =>
        rw [hread program hparse] at hfirst
        cases hfirst
    | error error =>
        refine ⟨error, rfl, fun format => showExpressions_of_error hparse format path, ?_⟩
        intro format config showsValue
        refine ⟨?_, fun run => runScriptBy_of_error hparse run format config showsValue path⟩
        show runScript format config showsValue text path = _
        unfold runScript
        exact runScriptBy_of_error hparse Session.run format config showsValue path

/-- A text that can be read, and one whose second expression starts with a character that no token
starts with. -/
theorem lexical_errors_agree_hash :
    Token.firstError? (Token.scan "a") = none ∧
    Token.firstError? (Token.scan "a\n#") = some ⟨.unrecognized '#', ⟨2, 1⟩⟩ ∧
    ∀ run, (runScriptBy run .basic {} true "a\n#" "").exit = 65 := by
  obtain ⟨program, hread⟩ :=
    Block.exists_parse (by decide +kernel : (Block.parse "a").isOk = true)
  have hrefused : Block.parse "a\n#" = .error (.ofLexError ⟨.unrecognized '#', ⟨2, 1⟩⟩) := by
    with_unfolding_all rfl
  obtain ⟨hnone, -, -⟩ := lexical_errors_agree "a" ""
  obtain ⟨-, hfirst, hexit⟩ := lexical_errors_agree "a\n#" ""
  refine ⟨hnone _ hread, (hfirst _ _ hrefused rfl).2, ?_⟩
  intro run
  obtain ⟨error, -, -, hrun⟩ := hexit .basic (by decide +kernel)
  rw [(hrun .basic {} true).2 run]

end Command

end ListScript
