import ListScript.Token.Scan

/-!
# Looking ahead

A symbol is found by looking at one character after the other, and the spellings stand in a table of
their own. The two agree: what is taken for a symbol is its spelling (`Piece.spelling_of_symbol?`),
and where a text begins with a spelling, a symbol at least as long is found
(`Piece.exists_symbol?`). In the same way, the words that are keywords are the spellings of the
keywords (`Piece.keyword?_eq_some_iff`).
-/

namespace ListScript.Token.Piece

/-! ## Keywords -/

/-- In the table of words, every keyword stands by its spelling. -/
theorem spelling_of_mem_table : ∀ entry ∈ Keyword.table, entry.2.spelling = entry.1 := by
  decide

/-- Every keyword stands in the table of words. -/
theorem lookup_spelling (k : Keyword) : Keyword.table.lookup k.spelling = some k := by
  cases k <;> decide

/-- A word is found in the table of words if it stands there. -/
theorem keyword?_eq_some_iff_mem {word : List Char} {k : Keyword} :
    keyword? word = some k ↔ (String.ofList word, k) ∈ Keyword.table := by
  constructor
  · intro h
    obtain ⟨before, after, htable, -⟩ := List.lookup_eq_some_iff.1 h
    rw [htable]
    exact List.mem_append_right _ List.mem_cons_self
  · intro h
    have hspelling : k.spelling = String.ofList word := spelling_of_mem_table _ h
    rw [keyword?, ← hspelling]
    exact lookup_spelling k

/-- A word is a keyword if it is spelled like it. -/
theorem keyword?_eq_some_iff {word : List Char} {k : Keyword} :
    keyword? word = some k ↔ k.spelling.toList = word := by
  constructor
  · intro h
    rw [spelling_of_mem_table _ (keyword?_eq_some_iff_mem.1 h), String.toList_ofList]
  · rintro rfl
    rw [keyword?, String.ofList_toList]
    exact lookup_spelling k

/-! ## Symbols -/

theorem goesOn_cons (c d : Char) (more : List Char) : goesOn c (d :: more) = (d == c) := by
  rw [goesOn, List.head?_cons, Option.some_beq_some]

/-- A text that goes on with a character begins with it. -/
theorem exists_of_goesOn {c : Char} {rest : List Char} (h : goesOn c rest = true) :
    ∃ more, rest = c :: more :=
  List.head?_eq_some_iff.1 (beq_iff_eq.1 h)

/-- What is taken for a symbol is how the symbol is written. -/
theorem spelling_of_symbol? {first : Char} {rest : List Char} {s : Symbol} {n : Nat}
    (h : symbol? first rest = some (s, n)) :
    s.spelling.toList <+: first :: rest ∧ s.spelling.length = n + 1 := by
  unfold symbol? at h
  split at h
  case h_9 =>
    -- After a point, two characters are looked at.
    split at h
    · next hpoint =>
        obtain ⟨rest, rfl⟩ := exists_of_goesOn hpoint
        split at h
        · next hequal =>
            obtain ⟨more, hmore⟩ := exists_of_goesOn hequal
            rw [List.drop_succ_cons, List.drop_zero] at hmore
            cases hmore
            cases h
            exact ⟨⟨more, rfl⟩, rfl⟩
        · cases h
          exact ⟨⟨rest, rfl⟩, rfl⟩
    · cases h
      exact ⟨⟨rest, rfl⟩, rfl⟩
  all_goals
    repeat' split at h
    all_goals
      first
        | cases h <;> exact ⟨⟨rest, rfl⟩, rfl⟩
        | next hnext =>
            obtain ⟨more, rfl⟩ := exists_of_goesOn hnext
            cases h
            exact ⟨⟨more, rfl⟩, rfl⟩

/-- If a text begins with how a symbol is written, a symbol is found that takes as much or more. -/
theorem exists_symbol? {first : Char} {rest : List Char} {t : Symbol}
    (h : t.spelling.toList <+: first :: rest) :
    ∃ s n, symbol? first rest = some (s, n) ∧ t.spelling.length ≤ n + 1 := by
  obtain ⟨more, hmore⟩ := h
  cases t
  all_goals
    simp only [Symbol.spelling, String.reduceToList, List.cons_append, List.nil_append,
      List.cons.injEq] at hmore
    obtain ⟨rfl, rfl⟩ := hmore
    -- The characters of the spelling are passed, and those after it can only lead on.
    simp only [symbol?, goesOn_cons, List.drop_succ_cons, List.drop_zero, Char.reduceBEq,
      Bool.false_eq_true, if_true, if_false]
    repeat' split
    all_goals exact ⟨_, _, rfl, by decide⟩

end ListScript.Token.Piece
