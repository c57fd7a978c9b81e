import ListScript.Proofs.Token.Scanning

/-!
# Character boundaries

An offset into a source text counts bytes, so it may fall inside a character. `Boundary` says that
it does not. Between two boundaries stands a text (`Boundary.text?_between`), and a span has a text
exactly if both of its ends are boundaries (`Boundary.text?_isSome_iff`).
-/

namespace ListScript

namespace Token

@[simp] theorem byteLength_nil : byteLength [] = 0 := rfl

@[simp] theorem byteLength_cons (c : Char) (chars : List Char) :
    byteLength (c :: chars) = c.utf8Size + byteLength chars := rfl

/-- Every character takes a byte at least. -/
theorem length_le_byteLength (chars : List Char) : chars.length ≤ byteLength chars := by
  induction chars with
  | nil => exact Nat.le_refl _
  | cons c chars ih =>
      have hpos := c.utf8Size_pos
      rw [List.length_cons, byteLength_cons]
      omega

/-- There are bytes where there are characters. -/
theorem byteLength_pos {chars : List Char} (h : chars ≠ []) : 0 < byteLength chars :=
  Nat.lt_of_lt_of_le (List.length_pos_iff.2 h) (length_le_byteLength chars)

/-- The size of a text is the number of bytes of its characters. -/
theorem byteLength_toList (source : String) : byteLength source.toList = source.utf8ByteSize := by
  have hofList (chars : List Char) : byteLength chars = (String.ofList chars).utf8ByteSize := by
    induction chars with
    | nil => rfl
    | cons c chars ih =>
        rw [byteLength_cons, ih, ← List.singleton_append, String.ofList_append,
          String.utf8ByteSize_append, ← String.singleton_eq_ofList, String.utf8ByteSize_singleton]
  rw [hofList, String.ofList_toList]

end Token

open Token

@[simp] theorem Span.start_between (a b : Nat) : (Span.between a b).start = a := rfl

/-- A span between two offsets ends at the second one. -/
theorem Span.stop_between {a b : Nat} (h : a ≤ b) : (Span.between a b).stop = b :=
  Nat.add_sub_cancel' h

/-- A span is the one between its ends. -/
theorem Span.between_start_stop (span : Span) : Span.between span.start span.stop = span := by
  unfold between stop
  rw [Nat.add_sub_cancel_left]

/-- A span ends no earlier than it starts. -/
theorem Span.start_le_stop (span : Span) : span.start ≤ span.stop := Nat.le_add_right _ _

/-- What is left after some bytes comes after characters of as many bytes. -/
theorem Span.exists_of_dropBytes {n : Nat} {chars rest : List Char}
    (h : Span.dropBytes n chars = some rest) :
    ∃ before, chars = before ++ rest ∧ byteLength before = n := by
  fun_induction Span.dropBytes n chars with
  | case1 chars =>
      cases h
      exact ⟨[], rfl, rfl⟩
  | case2 => cases h
  | case3 n c chars hsize ih =>
      obtain ⟨before, rfl, hlength⟩ := ih h
      refine ⟨c :: before, rfl, ?_⟩
      rw [byteLength_cons, hlength]
      omega
  | case4 => cases h

/-- The offset stands before, between or after the characters of the source. -/
def Boundary (source : String) (offset : Nat) : Prop :=
  ∃ before after, source.toList = before ++ after ∧ byteLength before = offset

namespace Boundary

variable {source : String} {a b : Nat}

/-- A source starts at a boundary. -/
theorem zero (source : String) : Boundary source 0 := ⟨[], source.toList, rfl, rfl⟩

/-- A source ends at a boundary. -/
theorem size (source : String) : Boundary source source.utf8ByteSize :=
  ⟨source.toList, [], by rw [List.append_nil], byteLength_toList source⟩

/-- Boundaries lie within the source. -/
theorem le_size (h : Boundary source a) : a ≤ source.utf8ByteSize := by
  obtain ⟨before, after, hsource, rfl⟩ := h
  rw [← byteLength_toList, hsource, byteLength_append]
  exact Nat.le_add_right _ _

/-- Of two boundaries the lesser one stands in the text before the other. -/
theorem exists_append (ha : Boundary source a) (hb : Boundary source b) (hle : a ≤ b) :
    ∃ before middle after, source.toList = before ++ (middle ++ after) ∧ byteLength before = a ∧
      byteLength (before ++ middle) = b := by
  obtain ⟨before, after, hsource, rfl⟩ := ha
  obtain ⟨before', after', hsource', rfl⟩ := hb
  obtain ⟨middle, rfl, hafter⟩ | ⟨middle, rfl, hafter⟩ :=
    List.append_eq_append_iff.1 (hsource.symm.trans hsource')
  · exact ⟨before, middle, after', by rw [hsource, hafter], rfl, rfl⟩
  · -- The other way round the two are equal, as there are no characters of no bytes.
    have hnil : middle = [] := by
      cases middle with
      | nil => rfl
      | cons c middle =>
          have hpos := c.utf8Size_pos
          rw [byteLength_append, byteLength_cons] at hle
          omega
    subst hnil
    exact ⟨before', [], after, by rw [hsource, List.append_nil, List.nil_append], by simp, by simp⟩

/-- Between two boundaries stands a text. -/
theorem text?_between (ha : Boundary source a) (hb : Boundary source b) (hle : a ≤ b) :
    ∃ text, (Span.between a b).text? source = some text := by
  obtain ⟨before, middle, after, hsource, rfl, rfl⟩ := exists_append ha hb hle
  rw [byteLength_append]
  exact ⟨_, text?_of_append before middle after hsource⟩

/-- A span has a text exactly if both its ends are boundaries. -/
theorem text?_isSome_iff {span : Span} :
    (span.text? source).isSome = true ↔ Boundary source span.start ∧ Boundary source span.stop := by
  constructor
  · intro h
    obtain ⟨text, htext⟩ := Option.isSome_iff_exists.1 h
    obtain ⟨tail, htail, htext⟩ := Option.bind_eq_some_iff.1 htext
    obtain ⟨rest, hrest, -⟩ := Option.bind_eq_some_iff.1 htext
    obtain ⟨before, hsource, hbefore⟩ := Span.exists_of_dropBytes htail
    obtain ⟨middle, rfl, hmiddle⟩ := Span.exists_of_dropBytes hrest
    refine ⟨⟨before, middle ++ rest, hsource, hbefore⟩, before ++ middle, rest, ?_, ?_⟩
    · rw [hsource, List.append_assoc]
    · rw [byteLength_append, hbefore, hmiddle]
      rfl
  · rintro ⟨hstart, hstop⟩
    obtain ⟨text, htext⟩ := text?_between hstart hstop span.start_le_stop
    rw [← span.between_start_stop, htext]
    rfl

end Boundary

end ListScript
