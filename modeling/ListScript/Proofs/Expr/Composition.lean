import ListScript.Proofs.Expr.Layout
import ListScript.Proofs.Expr.Resumption
import ListScript.Proofs.Token.Joining

/-!
# Programs one after the other

Two texts with a newline between them stand for the expressions of the first and then those of the
second, except where the second begins with a star and the first does not end with a semicolon: a
star continues an expression from the line before (`Block.parse_join`).
-/

namespace ListScript

namespace Parser

variable {more : List Token} {size : Nat}

/-! ## Where expressions end -/

/-- An expression ends before a token that does not continue it, or binds too weakly. -/
theorem leftPower_lt_of_continued {x : Nat → Parser Expr} {room least rounds : Nat} {lhs e : Expr}
    {s s' : TokenStream} (h : continued x room least rounds lhs s = .ok e s') {token : Token}
    {rest : List (Except LexError Token)} (hs' : s'.pending = .ok token :: rest)
    {continuation : Continuation} (htoken : Continuation.ofToken? token = some continuation) :
    continuation.leftPower < least := by
  induction rounds generalizing lhs s with
  | zero => cases h
  | succ rounds ih =>
      unfold continued at h
      obtain ⟨next, t, hpeek, hround⟩ := exists_of_bind h
      obtain rfl := eq_of_peek hpeek
      -- Where the loop ends, the token looked at is the one that is left.
      have hlast : (pure lhs : Parser Expr) t = .ok e s' → next = token := by
        intro hend
        cases hend
        rw [peek_of_cons hs'] at hpeek
        cases hpeek
        rfl
      cases hnext : Continuation.ofToken? next with
      | none =>
          rw [hnext] at hround
          rw [hlast hround, htoken] at hnext
          cases hnext
      | some c =>
          rw [hnext] at hround
          dsimp only at hround
          split at hround
          · rename_i hweak
            rw [hlast hround, htoken] at hnext
            cases hnext
            exact hweak
          · obtain ⟨_, _, -, hround⟩ := exists_of_bind hround
            obtain ⟨_, _, -, hround⟩ := exists_of_bind hround
            exact ih hround

/-- Nothing that comes after an expression continues it. -/
theorem ofToken?_of_expressionWithin {room : Nat} {s s' : TokenStream} {e : Expr}
    (h : expressionWithin room 0 s = .ok e s') {token : Token}
    {rest : List (Except LexError Token)} (hs' : s'.pending = .ok token :: rest) :
    Continuation.ofToken? token = none := by
  cases room with
  | zero => cases h
  | succ room =>
      obtain ⟨lhs, t, -, h⟩ := exists_of_bind h
      cases htoken : Continuation.ofToken? token with
      | none => rfl
      | some continuation =>
          exact absurd (leftPower_lt_of_continued h hs' htoken) (Nat.not_lt_zero _)

/-! ## One round of a program -/

/-- Semicolons are skipped up to something else. -/
theorem of_skipSemicolons {s t : TokenStream} {tokens : List Token}
    (hs : s.pending = tokens.map .ok) (h : skipSemicolons s = .ok () t) :
    ∃ semicolons rest, tokens = semicolons ++ rest ∧ t.pending = rest.map .ok ∧
      ∀ token ∈ semicolons, token.kind = .symbol .semicolon := by
  obtain ⟨taken, hpending, hall⟩ := takes_skipSemicolons h
  rw [hs, List.map_eq_append_iff] at hpending
  obtain ⟨semicolons, rest, rfl, hsemicolons, hrest⟩ := hpending
  rw [List.map_inj_right fun _ _ => Except.ok.inj] at hsemicolons
  subst hsemicolons
  exact ⟨semicolons, rest, rfl, hrest.symm, hall⟩

/-- Where only semicolons are left, the tokens to come are what is read. -/
theorem skipSemicolons_followedBy {s t : TokenStream} (h : skipSemicolons s = .ok () t)
    (ht : t.pending = []) :
    skipSemicolons (s.followedBy more size) =
      skipSemicolons ⟨more.map .ok, size, t.previousStop⟩ := by
  refine skipSemicolons_induction (P := fun s t => t.pending = [] →
    skipSemicolons (s.followedBy more size) =
      skipSemicolons ⟨more.map .ok, size, t.previousStop⟩) ?_ ?_ h ht
  · intro s _ hnil
    rw [TokenStream.followedBy, hnil, List.nil_append]
  · intro token rest size' stop t hkind ih hnil
    exact (skipSemicolons_of_semicolon hkind _ _ _).trans (ih hnil)

section

variable {x : Nat → Parser Expr} {rounds : Nat} {s t : TokenStream}
  (hskip : skipSemicolons s = .ok () t)

include hskip

theorem sequence_of_nil (ht : t.pending = []) :
    sequence x .endOfText (rounds + 1) s = .ok [] t := by
  unfold sequence
  rw [run_bind, hskip]
  dsimp only
  rw [run_bind, peek_of_nil ht]
  rfl

theorem sequence_of_cons {token : Token} {rest : List (Except LexError Token)}
    (ht : t.pending = .ok token :: rest) (hkind : token.kind ≠ .endOfText) :
    sequence x .endOfText (rounds + 1) s = (do
      let first ← x 0
      let rest ← sequence x .endOfText rounds
      return first :: rest : Parser (List Expr)) t := by
  conv => lhs; unfold sequence
  rw [run_bind, hskip]
  dsimp only
  rw [run_bind, peek_of_cons ht]
  dsimp only
  rw [if_neg hkind, if_neg hkind]

end

/-- An expression is read first where there is one, whatever comes after the stream. -/
theorem sequence_followedBy_of_finished {x : Nat → Parser Expr} {rounds : Nat} {s t : TokenStream}
    {taken rest : List Token} (hskip : skipSemicolons s = .ok () t)
    (ht : t.pending = (taken ++ rest).map .ok) (htaken : Finished taken)
    (hkinds : ∀ token ∈ taken ++ rest, token.kind ≠ .endOfText) :
    sequence x .endOfText (rounds + 1) (s.followedBy more size) = (do
      let first ← x 0
      let rest ← sequence x .endOfText rounds
      return first :: rest : Parser (List Expr)) (t.followedBy more size) := by
  obtain ⟨token, taken, rfl⟩ := htaken.exists_cons
  have hskip' : skipSemicolons (s.followedBy more size) = .ok () (t.followedBy more size) :=
    passesAt_skipSemicolons hskip (by rw [ht]; simp)
  have hhead : (t.followedBy more size).pending =
      .ok token :: ((taken ++ rest).map .ok ++ more.map .ok) := by
    unfold TokenStream.followedBy
    rw [ht]
    rfl
  exact sequence_of_cons hskip' hhead (hkinds token (by simp))

/-- A program is over, or it begins with semicolons, an expression and another program. -/
theorem round_of_sequence {x : Nat → Parser Expr} {rounds : Nat} {s s' : TokenStream}
    {es : List Expr} {tokens : List Token} (hs : s.pending = tokens.map .ok)
    (hkinds : ∀ token ∈ tokens, token.kind ≠ .endOfText)
    (htakes : ∀ least, Takes Finished (x least))
    (h : sequence x .endOfText rounds s = .ok es s') :
    ∃ t semicolons rest, skipSemicolons s = .ok () t ∧ tokens = semicolons ++ rest ∧
      t.pending = rest.map .ok ∧ (∀ token ∈ semicolons, token.kind = .symbol .semicolon) ∧
      (rest = [] ∧ es = [] ∨
        ∃ rounds' e es' t' taken rest', rounds = rounds' + 1 ∧ rest = taken ++ rest' ∧
          Finished taken ∧ x 0 t = .ok e t' ∧ t'.pending = rest'.map .ok ∧
          sequence x .endOfText rounds' t' = .ok es' s' ∧ es = e :: es') := by
  cases rounds with
  | zero => cases h
  | succ rounds =>
      obtain ⟨_, t, hskip, -⟩ := exists_of_bind h
      obtain ⟨semicolons, rest, htokens, ht, hall⟩ := of_skipSemicolons hs hskip
      refine ⟨t, semicolons, rest, hskip, htokens, ht, hall, ?_⟩
      cases rest with
      | nil =>
          rw [sequence_of_nil hskip ht] at h
          cases h
          exact .inl ⟨rfl, rfl⟩
      | cons token rest =>
          have hkind : token.kind ≠ .endOfText := hkinds token (by simp [htokens])
          rw [sequence_of_cons hskip ht hkind] at h
          obtain ⟨e, t', hx, h⟩ := exists_of_bind h
          obtain ⟨es', _, hes, h⟩ := exists_of_bind h
          cases h
          obtain ⟨taken, hpending, hfinished⟩ := htakes 0 hx
          rw [ht] at hpending
          obtain ⟨taken', rest', hsplit, htaken, ht'⟩ := List.map_eq_append_iff.1 hpending
          obtain rfl : taken' = taken :=
            List.map_injective_iff.2 (fun _ _ h => Except.ok.inj h) htaken
          exact .inr ⟨rounds, e, es', t', taken', rest', rfl, hsplit, hfinished, hx, ht'.symm, hes,
            rfl⟩

/-- Only semicolons are no finished tokens. -/
theorem not_finished_semicolons {tokens : List Token}
    (h : ∀ token ∈ tokens, token.kind = .symbol .semicolon) : ¬ Finished tokens := by
  rintro ⟨init, last, rfl, hlast⟩
  exact hlast (h last (by simp))

section

variable (hmore : Opens more) {room room' : Nat} (hroom : room ≤ room') {rounds : Nat}
  {s s' : TokenStream} {es : List Expr} {tokens : List Token} (hs : s.pending = tokens.map .ok)
  (hkinds : ∀ token ∈ tokens, token.kind ≠ .endOfText)
  (h : sequence (expressionWithin room) .endOfText rounds s = .ok es s')

include hmore hroom hs hkinds h

/-- A program is read as before, and then the tokens to come. -/
theorem sequence_followedBy (hjoin : ¬ (Finished tokens ∧ Glues more)) {n rounds' : Nat}
    (hn : 0 < n) (hrounds : tokens.length + n ≤ rounds') (size : Nat) :
    ∃ stop k, n ≤ k ∧
      sequence (expressionWithin room') .endOfText rounds' (s.followedBy more size) =
        ((es ++ ·) <$> sequence (expressionWithin room') .endOfText k : Parser (List Expr))
          ⟨more.map .ok, size, stop⟩ := by
  induction rounds generalizing s es tokens rounds' with
  | zero => cases h
  | succ rounds ih =>
      obtain ⟨t, semicolons, rest, hskip, rfl, ht, hall, hround⟩ :=
        round_of_sequence hs hkinds (takes_expressionWithin room) h
      obtain ⟨rounds', rfl⟩ : ∃ k, rounds' = k + 1 := ⟨rounds' - 1, by omega⟩
      obtain ⟨rfl, rfl⟩ | ⟨_, e, es', t', taken, rest', hsucc, rfl, hfinished, he, ht', hes, rfl⟩ :=
        hround
      · refine ⟨t.previousStop, rounds' + 1, by omega, ?_⟩
        have hskip' : skipSemicolons (s.followedBy more size) = _ :=
          skipSemicolons_followedBy hskip ht
        show _ = (id <$> sequence (expressionWithin room') .endOfText (rounds' + 1) : Parser _) _
        rw [id_map]
        unfold sequence
        rw [run_bind, run_bind, hskip']
      · cases hsucc
        have hkinds' : ∀ token ∈ taken ++ rest', token.kind ≠ .endOfText :=
          fun token hmem => hkinds token (List.mem_append_right _ hmem)
        -- The expression does not reach the star, or there is none.
        have hread : expressionWithin room' 0 (t.followedBy more size) =
            .ok e (t'.followedBy more size) := by
          obtain hread | ⟨hglues, hend, -⟩ := resumesAt_expressionWithin hmore hroom 0 he
          · exact hread
          · obtain rfl : rest' = [] := by
              rw [ht'] at hend
              exact List.map_eq_nil_iff.1 hend
            rw [List.append_nil] at hjoin
            exact (hjoin ⟨hfinished.prepend semicolons, hglues⟩).elim
        have hjoin' : ¬ (Finished rest' ∧ Glues more) :=
          fun hglued => hjoin ⟨(hglued.1.prepend _).prepend _, hglued.2⟩
        have hlength : rest'.length + n ≤ rounds' := by
          obtain ⟨token, taken', rfl⟩ := hfinished.exists_cons
          simp only [List.length_append, List.length_cons] at hrounds
          omega
        obtain ⟨stop, k, hk, hrest⟩ :=
          ih ht' (fun token hmem => hkinds' token (by simp [hmem])) hes hjoin' hlength
        refine ⟨stop, k, hk, ?_⟩
        rw [sequence_followedBy_of_finished hskip ht hfinished hkinds', run_bind, hread]
        dsimp only
        rw [run_bind, hrest, map_eq_pure_bind, map_eq_pure_bind, run_bind, run_bind]
        cases sequence (expressionWithin room') .endOfText k ⟨more.map .ok, size, stop⟩ <;> rfl

/-- Where the tokens to come begin with a star and the program does not end with a semicolon, the
last expression of the program goes on. -/
theorem not_prefix_of_glues (hfinished : Finished tokens) (hglues : Glues more) {rounds' : Nat}
    {es' : List Expr} {u : TokenStream}
    (h' : sequence (expressionWithin room') .endOfText rounds' (s.followedBy more size) =
      .ok es' u) :
    ¬ Expr.eraseAll es <+: Expr.eraseAll es' := by
  induction rounds generalizing s es tokens rounds' es' with
  | zero => cases h
  | succ rounds ih =>
      obtain ⟨t, semicolons, rest, hskip, rfl, ht, hall, hround⟩ :=
        round_of_sequence hs hkinds (takes_expressionWithin room) h
      obtain ⟨rfl, rfl⟩ | ⟨_, e, es₁, t', taken, rest', hsucc, rfl, htaken, he, ht', hes, rfl⟩ :=
        hround
      · rw [List.append_nil] at hfinished
        exact (not_finished_semicolons hall hfinished).elim
      · cases hsucc
        have hkinds' : ∀ token ∈ taken ++ rest', token.kind ≠ .endOfText :=
          fun token hmem => hkinds token (List.mem_append_right _ hmem)
        cases rounds' with
        | zero => cases h'
        | succ rounds' =>
            rw [sequence_followedBy_of_finished hskip ht htaken hkinds'] at h'
            obtain ⟨e', u₁, he', h'⟩ := exists_of_bind h'
            obtain ⟨es₂, u₂, hes₂, h'⟩ := exists_of_bind h'
            cases h'
            show ¬ e.erase :: Expr.eraseAll es₁ <+: e'.erase :: Expr.eraseAll es₂
            rw [List.cons_prefix_cons]
            rintro ⟨herase, hbegins⟩
            obtain hread | ⟨-, -, hgrew⟩ := resumesAt_expressionWithin hmore hroom 0 he
            · rw [he'] at hread
              cases hread
              cases rest' with
              | nil =>
                  -- The star would continue the expression that was read.
                  obtain ⟨star, more, rfl, hstar⟩ := hglues
                  have hnone := ofToken?_of_expressionWithin he' (followedBy_of_nil ht')
                  unfold Continuation.ofToken? at hnone
                  rw [hstar] at hnone
                  cases hnone
              | cons token rest' =>
                  have hrest : Finished (token :: rest') := by
                    rw [← List.append_assoc] at hfinished
                    exact hfinished.of_append (by simp)
                  exact ih ht' (fun token hmem => hkinds' token (by simp [hmem])) hes hrest hes₂
                    hbegins
            · have hlt := hgrew e' u₁ he'
              have heq := congrArg Expr.binaries herase
              rw [e.binaries_erase, e'.binaries_erase] at heq
              exact Nat.ne_of_lt hlt heq

end

/-! ## Programs that are read to their end -/

/-- A program that is read has no lexical error. -/
theorem exists_tokens_of_sequence {x : Nat → Parser Expr} (htakes : ∀ least, Takes Finished (x least))
    {rounds : Nat} {s s' : TokenStream} {es : List Expr}
    (hkinds : ∀ token, .ok token ∈ s.pending → token.kind ≠ .endOfText)
    (h : sequence x .endOfText rounds s = .ok es s') :
    ∃ tokens : List Token, s.pending = tokens.map .ok := by
  induction rounds generalizing s es with
  | zero => cases h
  | succ rounds ih =>
      obtain ⟨_, t, hskip, hround⟩ := exists_of_bind h
      obtain ⟨semicolons, hs, -⟩ := takes_skipSemicolons hskip
      obtain ⟨token, _, hpeek, hround⟩ := exists_of_bind hround
      cases ht : t.pending with
      | nil => exact ⟨semicolons, by rw [hs, ht, List.append_nil]⟩
      | cons item rest =>
          cases item with
          | error error =>
              unfold peek at hpeek
              rw [ht] at hpeek
              cases hpeek
          | ok token =>
              have hkind : token.kind ≠ .endOfText := hkinds token (by simp [hs, ht])
              rw [sequence_of_cons hskip ht hkind] at h
              obtain ⟨e, t', hx, h⟩ := exists_of_bind h
              obtain ⟨es', _, hes, hend⟩ := exists_of_bind h
              cases hend
              obtain ⟨taken, hpending, -⟩ := htakes 0 hx
              have hkinds' : ∀ token, .ok token ∈ t'.pending → token.kind ≠ .endOfText := by
                intro token hmem
                refine hkinds token ?_
                rw [hs, hpending]
                exact List.mem_append_right _ (List.mem_append_right _ hmem)
              obtain ⟨tokens, htokens⟩ := ih hkinds' hes
              refine ⟨semicolons ++ (taken ++ tokens), ?_⟩
              rw [hs, hpending, htokens, List.map_append, List.map_append]

/-- Only certain tokens open an operand. -/
theorem opens_of_operand {x : Nat → Parser Expr} {rounds : Nat} {s s' : TokenStream} {e : Expr}
    {token : Token} {rest : List (Except LexError Token)} (hs : s.pending = .ok token :: rest)
    (h : operand x rounds s = .ok e s') : token.kind.opens = true := by
  unfold operand at h
  rw [run_bind, take_of_cons hs] at h
  dsimp only at h
  unfold operandOf at h
  cases hkind : token.kind with
  | symbol symbol =>
      rw [hkind] at h
      cases symbol <;> first | rfl | cases h
  | keyword keyword =>
      rw [hkind] at h
      cases keyword <;> first | rfl | cases h
  | endOfText =>
      rw [hkind] at h
      cases h
  | _ => rfl

/-- A program that is read begins with an opening token. -/
theorem opens_of_sequence {room rounds : Nat} {s s' : TokenStream} {es : List Expr} {token : Token}
    {rest : List Token} (hs : s.pending = (token :: rest).map .ok)
    (hkind : token.kind ≠ .endOfText)
    (h : sequence (expressionWithin room) .endOfText rounds s = .ok es s') :
    token.kind.opens = true := by
  by_cases hsemicolon : token.kind = .symbol .semicolon
  · rw [hsemicolon]
    rfl
  · cases rounds with
    | zero => cases h
    | succ rounds =>
        have hskip : skipSemicolons s = .ok () s := by
          refine skipSemicolons_of_beforeOther fun other more heq => ?_
          cases hs.symm.trans heq
          exact hsemicolon
        rw [sequence_of_cons hskip hs hkind] at h
        obtain ⟨e, t', hx, -⟩ := exists_of_bind h
        cases room with
        | zero => cases hx
        | succ room =>
            obtain ⟨lhs, t, hoperand, -⟩ := exists_of_bind hx
            exact opens_of_operand hs hoperand

/-- More room changes nothing. -/
theorem sequence_of_le {room room' rounds rounds' : Nat} (hroom : room ≤ room') {s s' : TokenStream}
    {es : List Expr} {tokens : List Token} (hs : s.pending = tokens.map .ok)
    (hkinds : ∀ token ∈ tokens, token.kind ≠ .endOfText)
    (h : sequence (expressionWithin room) .endOfText rounds s = .ok es s')
    (hrounds : tokens.length + 1 ≤ rounds') :
    ∃ u, sequence (expressionWithin room') .endOfText rounds' s = .ok es u := by
  have hopens : Opens [] := fun _ _ h => nomatch h
  have hjoin : ¬ (Finished tokens ∧ Glues []) := fun ⟨_, _, _, h, _⟩ => nomatch h
  obtain ⟨stop, k, hk, hread⟩ :=
    sequence_followedBy hopens hroom hs hkinds h hjoin Nat.one_pos hrounds s.size
  obtain ⟨k, rfl⟩ : ∃ j, k = j + 1 := ⟨k - 1, by omega⟩
  have hsame : s.followedBy [] s.size = s := by
    unfold TokenStream.followedBy
    rw [List.map_nil, List.append_nil]
  rw [hsame] at hread
  refine ⟨⟨[], s.size, stop⟩, hread.trans ?_⟩
  rw [map_eq_pure_bind, run_bind, sequence_of_nil (t := ⟨[], s.size, stop⟩) rfl rfl]
  show EStateM.Result.ok (es ++ []) _ = _
  rw [List.append_nil]

end Parser

/-! ## Two texts -/

namespace Token

/-- The kind of the first token of a text without lexical errors. -/
def firstKind? (source : String) : Option Kind :=
  (tokens? source).bind fun tokens => tokens.head?.map (·.kind)

/-- The kind of the last token of a text without lexical errors. -/
def lastKind? (source : String) : Option Kind :=
  (tokens? source).bind fun tokens => tokens.getLast?.map (·.kind)

theorem glues_iff_firstKind? {source : String} {tokens : List Token}
    (h : scan source = tokens.map .ok) :
    Glues tokens ↔ firstKind? source = some (.symbol .star) := by
  unfold firstKind? Glues
  rw [tokens?_of_scan h]
  cases tokens <;> simp

theorem finished_iff_lastKind? {source : String} {tokens : List Token}
    (h : scan source = tokens.map .ok) :
    Finished tokens ↔ ∃ kind, lastKind? source = some kind ∧ kind ≠ .symbol .semicolon := by
  unfold lastKind? Finished
  rw [tokens?_of_scan h]
  constructor
  · rintro ⟨init, last, rfl, hlast⟩
    exact ⟨last.kind, by simp, hlast⟩
  · rintro ⟨kind, hkind, hne⟩
    obtain ⟨last, hlast, rfl⟩ := Option.map_eq_some_iff.1 hkind
    obtain ⟨init, hinit⟩ := List.getLast?_eq_some_iff.1 hlast
    exact ⟨init, last, hinit, hne⟩

end Token

/-- A program is the sequence of its expressions and takes up the whole source. -/
theorem Parser.exists_of_program {s s' : TokenStream} {block : Block}
    (h : program s = .ok block s') :
    ∃ es, sequence (expressionWithin (s.pending.length + 1)) .endOfText (s.pending.length + 1) s =
      .ok es s' ∧ block = ⟨es, ⟨0, s.size⟩⟩ := by
  unfold program at h
  dsimp only at h
  rw [map_eq_pure_bind] at h
  obtain ⟨es, _, hread, hblock⟩ := exists_of_bind h
  cases hblock
  exact ⟨es, hread, rfl⟩

theorem Parser.sequence_of_program {s s' : TokenStream} {block : Block}
    (h : program s = .ok block s') :
    sequence (expressionWithin (s.pending.length + 1)) .endOfText (s.pending.length + 1) s =
      .ok block.body s' := by
  obtain ⟨es, hread, rfl⟩ := exists_of_program h
  exact hread

theorem Parser.program_of_sequence {s s' : TokenStream} {es : List Expr}
    (h : sequence (expressionWithin (s.pending.length + 1)) .endOfText (s.pending.length + 1) s =
      .ok es s') : program s = .ok ⟨es, ⟨0, s.size⟩⟩ s' := by
  unfold program
  dsimp only
  rw [map_eq_pure_bind, run_bind, h]
  rfl

namespace Block

theorem exists_of_parse {source : String} {block : Block} (h : parse source = .ok block) :
    ∃ s', Parser.program (.ofSource source) = .ok block s' := by
  unfold parse at h
  split at h
  · cases h
    exact ⟨_, ‹_›⟩
  · cases h

theorem exists_parse {source : String} (h : (parse source).isOk = true) :
    ∃ block, parse source = .ok block := by
  cases hparse : parse source with
  | error error => rw [hparse] at h; cases h
  | ok block => exact ⟨block, rfl⟩

/-- A text that stands for something has no lexical errors. -/
theorem exists_tokens_of_parse {source : String} {block : Block} (h : parse source = .ok block) :
    ∃ tokens : List Token, Token.scan source = tokens.map .ok := by
  obtain ⟨s', hprogram⟩ := exists_of_parse h
  exact Parser.exists_tokens_of_sequence (Parser.takes_expressionWithin _)
    (fun token hmem => (Token.of_mem_scan hmem).1) (Parser.sequence_of_program hprogram)

end Block

section

variable {tokens more : List Token}
  (hgist : more.map Token.gist = (Token.onNewLine tokens).map Token.gist)

include hgist

/-- The first token of a text after a newline is of the same kind, on a new line. -/
theorem Token.of_gist_onNewLine :
    (more = [] ∧ tokens = []) ∨ ∃ token rest token' rest', more = token :: rest ∧
      tokens = token' :: rest' ∧ token.kind = token'.kind ∧ token.startsLine = true := by
  cases more with
  | nil =>
      cases tokens with
      | nil => exact .inl ⟨rfl, rfl⟩
      | cons => cases hgist
  | cons token rest =>
      cases tokens with
      | nil => cases hgist
      | cons token' rest' =>
          have hhead : token.gist = Token.gist { token' with startsLine := true } :=
            (List.cons.inj hgist).1
          injection hhead with hkind hrest
          injection hrest with _ hline
          exact .inr ⟨token, rest, token', rest', rfl, rfl, hkind, hline⟩

theorem glues_iff_of_gist : Glues more ↔ Glues tokens := by
  obtain ⟨rfl, rfl⟩ | ⟨token, rest, token', rest', rfl, rfl, hkind, -⟩ :=
    Token.of_gist_onNewLine hgist
  · rfl
  · unfold Glues
    constructor
    · rintro ⟨_, _, ⟨rfl⟩, hstar⟩
      exact ⟨token', rest', rfl, hkind.symm.trans hstar⟩
    · rintro ⟨_, _, ⟨rfl⟩, hstar⟩
      exact ⟨token, rest, rfl, hkind.trans hstar⟩

/-- The first token of a text that stands for something opens an expression. -/
theorem opens_of_gist {source : String} {block : Block} (h : Block.parse source = .ok block)
    (hscan : Token.scan source = tokens.map .ok) : Opens more := by
  obtain ⟨rfl, rfl⟩ | ⟨token, rest, token', rest', rfl, rfl, hkind, hline⟩ :=
    Token.of_gist_onNewLine hgist
  · exact fun _ _ hnil => nomatch hnil
  · rintro _ _ ⟨rfl⟩
    refine ⟨hline, ?_⟩
    obtain ⟨s', hprogram⟩ := Block.exists_of_parse h
    have hend := (Token.of_scan hscan token' List.mem_cons_self).1
    rw [hkind]
    exact Parser.opens_of_sequence hscan hend (Parser.sequence_of_program hprogram)

end

/-- The tokens of a text after a newline stand for what the text stands for. -/
theorem Parser.exists_sequence_of_gist {source : String} {block : Block} {tokens more : List Token}
    (h : Block.parse source = .ok block) (hscan : Token.scan source = tokens.map .ok)
    (hnames : ∀ token ∈ more, token.kind = .identifier → Token.isName token.lexeme = true)
    (hgist : more.map Token.gist = (Token.onNewLine tokens).map Token.gist) (size stop : Nat) :
    ∃ es s', sequence (expressionWithin (more.length + 1)) .endOfText (more.length + 1)
      ⟨more.map .ok, size, stop⟩ = .ok es s' ∧ Expr.eraseAll es = Expr.eraseAll block.body := by
  obtain ⟨_, hprogram⟩ := Block.exists_of_parse h
  -- The line of the first token does not matter.
  have hline : program ⟨(Token.onNewLine tokens).map .ok, source.utf8ByteSize, 0⟩ =
      program (.ofSource source) := by
    unfold TokenStream.ofSource
    rw [hscan]
    cases tokens with
    | nil => rfl
    | cons token tokens =>
        exact program_withLine _ _ _ _ _ (Token.of_scan hscan token List.mem_cons_self).1
  have halike : TokenStream.Alike ⟨more.map .ok, size, stop⟩
      ⟨(Token.onNewLine tokens).map .ok, source.utf8ByteSize, 0⟩ :=
    ⟨more, Token.onNewLine tokens, rfl, rfl, Token.forall₂_alike_of_gist hnames hgist⟩
  have hmeets := program_alike halike
  rw [hline, hprogram] at hmeets
  cases hread : program ⟨more.map .ok, size, stop⟩ with
  | error error s' => rw [hread] at hmeets; exact hmeets.elim
  | ok block' s' =>
      rw [hread] at hmeets
      have hsequence := sequence_of_program hread
      dsimp only at hsequence
      rw [List.length_map] at hsequence
      exact ⟨block'.body, s', hsequence, hmeets.1.1⟩

namespace Block

section

variable {source source' joint : String} {block block' : Block} {tokens tokens' more : List Token}
  (h : parse source = .ok block) (h' : parse source' = .ok block')
  (hscan : Token.scan source = tokens.map .ok) (hscan' : Token.scan source' = tokens'.map .ok)
  (hjoint : Token.scan joint = (tokens ++ more).map .ok)
  (hgist : more.map Token.gist = (Token.onNewLine tokens').map Token.gist)

include hscan hjoint

/-- The stream of the whole is the first one, followed by the tokens of the second text. -/
theorem ofSource_eq_followedBy :
    TokenStream.ofSource joint = (TokenStream.ofSource source).followedBy more joint.utf8ByteSize := by
  unfold TokenStream.ofSource TokenStream.followedBy
  rw [hjoint, hscan, List.map_append]

theorem length_pending_le : (TokenStream.ofSource source).pending.length + 1 ≤
    (TokenStream.ofSource joint).pending.length + 1 := by
  show (Token.scan source).length + 1 ≤ (Token.scan joint).length + 1
  rw [hscan, hjoint, List.length_map, List.length_map, List.length_append]
  omega

include h h' hscan' hgist

theorem parse_of_not_glues (hjoin : ¬ (Finished tokens ∧ Glues more)) :
    ∃ whole, parse joint = .ok whole ∧
      Expr.eraseAll whole.body = Expr.eraseAll block.body ++ Expr.eraseAll block'.body := by
  have hmem := Token.of_scan hjoint
  obtain ⟨s', hprogram⟩ := exists_of_parse h
  have hread := Parser.sequence_of_program hprogram
  have hlength : (TokenStream.ofSource joint).pending.length = tokens.length + more.length := by
    show (Token.scan joint).length = _
    rw [hjoint, List.length_map, List.length_append]
  have hrounds : tokens.length + (more.length + 1) ≤
      (TokenStream.ofSource joint).pending.length + 1 := by omega
  obtain ⟨stop, k, hk, hjoined⟩ := Parser.sequence_followedBy (opens_of_gist hgist h' hscan')
    (length_pending_le hscan hjoint) hscan (fun token h => (Token.of_scan hscan token h).1) hread
    hjoin (Nat.succ_pos _) hrounds joint.utf8ByteSize
  -- The second text is read with less room on its own, which makes no difference.
  obtain ⟨es, _, hes, herase⟩ := Parser.exists_sequence_of_gist h' hscan'
    (fun token h => (hmem token (List.mem_append_right _ h)).2) hgist joint.utf8ByteSize stop
  have hroom : more.length + 1 ≤ (TokenStream.ofSource joint).pending.length + 1 := by omega
  obtain ⟨u, hu⟩ := Parser.sequence_of_le hroom rfl
    (fun token h => (hmem token (List.mem_append_right _ h)).1) hes hk
  rw [map_eq_pure_bind, Parser.run_bind, hu, ← ofSource_eq_followedBy hscan hjoint] at hjoined
  refine ⟨⟨block.body ++ es, ⟨0, joint.utf8ByteSize⟩⟩, ?_, ?_⟩
  · unfold parse
    rw [Parser.program_of_sequence hjoined]
    rfl
  · show Expr.eraseAll (block.body ++ es) = _
    rw [Expr.eraseAll_append, herase]

theorem not_parse_of_glues (hfinished : Finished tokens) (hglues : Glues more) :
    ¬ ∃ whole, parse joint = .ok whole ∧
      Expr.eraseAll whole.body = Expr.eraseAll block.body ++ Expr.eraseAll block'.body := by
  rintro ⟨whole, hparse, herase⟩
  obtain ⟨_, hprogram⟩ := exists_of_parse h
  obtain ⟨_, hprogram'⟩ := exists_of_parse hparse
  have hread := Parser.sequence_of_program hprogram
  have hread' := Parser.sequence_of_program hprogram'
  nth_rewrite 3 [ofSource_eq_followedBy hscan hjoint] at hread'
  refine Parser.not_prefix_of_glues (opens_of_gist hgist h' hscan')
    (length_pending_le hscan hjoint) hscan (fun token h => (Token.of_scan hscan token h).1) hread
    hfinished hglues hread' ?_
  rw [herase]
  exact List.prefix_append _ _

end

/-- What two texts with a newline between them stand for is what the one and then the other stands
for, except where the first ends with something else than a semicolon and the second begins with a
star. -/
theorem parse_join {source source' : String} {block block' : Block}
    (h : parse source = .ok block) (h' : parse source' = .ok block') :
    (∃ whole, parse (source ++ "\n" ++ source') = .ok whole ∧
      Expr.eraseAll whole.body = Expr.eraseAll block.body ++ Expr.eraseAll block'.body) ↔
    ¬ ((∃ kind, Token.lastKind? source = some kind ∧ kind ≠ .symbol .semicolon) ∧
      Token.firstKind? source' = some (.symbol .star)) := by
  obtain ⟨tokens, hscan⟩ := exists_tokens_of_parse h
  obtain ⟨tokens', hscan'⟩ := exists_tokens_of_parse h'
  obtain ⟨more, hjoint, hgist⟩ := Token.scan_join hscan hscan'
  rw [← Token.finished_iff_lastKind? hscan, ← Token.glues_iff_firstKind? hscan',
    ← glues_iff_of_gist hgist]
  constructor
  · rintro hwhole ⟨hfinished, hglues⟩
    exact not_parse_of_glues h h' hscan hscan' hjoint hgist hfinished hglues hwhole
  · exact parse_of_not_glues h h' hscan hscan' hjoint hgist

/-- A minus on a new line begins another expression. -/
theorem parse_join_minus :
    ∃ block block' whole, parse "x = 1" = .ok block ∧ parse "-y" = .ok block' ∧
      parse "x = 1\n-y" = .ok whole ∧
      Expr.eraseAll whole.body = Expr.eraseAll block.body ++ Expr.eraseAll block'.body := by
  obtain ⟨block, h⟩ := exists_parse (by decide +kernel : (parse "x = 1").isOk = true)
  obtain ⟨block', h'⟩ := exists_parse (by decide +kernel : (parse "-y").isOk = true)
  obtain ⟨whole, hwhole, herase⟩ := (parse_join h h').2 (by decide +kernel)
  exact ⟨block, block', whole, h, h', hwhole, herase⟩

/-- A newline does not part all programs: a star on a new line continues the expression before. -/
theorem newline_not_parting :
    ¬ ∀ source source' block block', parse source = .ok block → parse source' = .ok block' →
      ∃ whole, parse (source ++ "\n" ++ source') = .ok whole ∧
        Expr.eraseAll whole.body = Expr.eraseAll block.body ++ Expr.eraseAll block'.body := by
  intro h
  obtain ⟨block, hblock⟩ := exists_parse (by decide +kernel : (parse "a").isOk = true)
  obtain ⟨block', hblock'⟩ := exists_parse (by decide +kernel : (parse "*b").isOk = true)
  obtain ⟨whole, hwhole, herase⟩ := h "a" "*b" block block' hblock hblock'
  -- The whole is one expression, not two.
  have hone : (parse "a").toOption.map (·.body.length) = some 1 := by decide +kernel
  have hone' : (parse "*b").toOption.map (·.body.length) = some 1 := by decide +kernel
  have hwhole' : (parse ("a" ++ "\n" ++ "*b")).toOption.map (·.body.length) = some 1 := by
    decide +kernel
  rw [hblock] at hone
  rw [hblock'] at hone'
  rw [hwhole] at hwhole'
  have hbody : block.body.length = 1 := Option.some.inj hone
  have hbody' : block'.body.length = 1 := Option.some.inj hone'
  have hjoined : whole.body.length = 1 := Option.some.inj hwhole'
  have hlength := congrArg List.length herase
  rw [List.length_append, Expr.length_eraseAll, Expr.length_eraseAll, Expr.length_eraseAll] at hlength
  omega

end Block

end ListScript
