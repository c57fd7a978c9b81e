import ListScript.Proofs.Source.Boundary
import ListScript.Source.Lines

/-!
# The line table counts newlines

Among the lines of a text, those that end by an offset are as many as the newlines before it, and
the lines that begin after it are those behind the next one (`Lines.divided_split`). Halving finds
the line between the two kinds (`Lines.search_eq`), so the number of the line that holds an offset
is one more than the number of newlines before it: `Lines.lineAt_ofText`. No other character has the
byte of a newline among its bytes, so the same holds of bytes: `Lines.lineAt_eq_bytes`.
-/

namespace ListScript.Lines

open Token (byteLength byteLength_cons byteLength_nil byteLength_toList)

/-- The number of newlines among the first `bytes` bytes. -/
def newlinesWithin : (bytes : Nat) → List Char → Nat
  | _, [] => 0
  | bytes, c :: rest =>
    (if c = '\n' ∧ 0 < bytes then 1 else 0) + newlinesWithin (bytes - c.utf8Size) rest

@[simp] theorem newlinesWithin_zero (chars : List Char) : newlinesWithin 0 chars = 0 := by
  induction chars with
  | nil => rfl
  | cons c chars ih => rw [newlinesWithin, Nat.zero_sub, ih, if_neg (by simp)]

/-- Within the bytes of the first characters stand their newlines. -/
theorem newlinesWithin_append (before after : List Char) :
    newlinesWithin (byteLength before) (before ++ after) = before.count '\n' := by
  induction before with
  | nil => rw [byteLength_nil, newlinesWithin_zero, List.count_nil]
  | cons c before ih =>
      have hpos : 0 < c.utf8Size + byteLength before := Nat.add_pos_left c.utf8Size_pos _
      rw [List.cons_append, newlinesWithin, byteLength_cons, Nat.add_sub_cancel_left, ih,
        List.count_cons, Nat.add_comm]
      simp only [hpos, and_true, beq_iff_eq]

/-! ## Halving -/

/-- The lines before the one at `index` end by the offset, and those behind it begin after it. -/
def Divided (intervals : Array (Nat × Nat)) (offset index : Nat) : Prop :=
  ∀ i interval, intervals[i]? = some interval →
    (interval.1 ≤ offset ↔ i ≤ index) ∧ (interval.2 ≤ offset ↔ i < index)

/-- Halving finds the line that divides the others, unless it lies behind the lines searched. -/
theorem search_eq {intervals : Array (Nat × Nat)} {offset index : Nat}
    (hdivided : Divided intervals offset index) {low width : Nat} (hlow : low ≤ index)
    (hwidth : index ≤ low + width) (hsize : low + width ≤ intervals.size) :
    search intervals offset low width = if index < low + width then some index else none := by
  fun_induction search intervals offset low width with
  | case1 low => rw [if_neg (by omega)]
  | case2 low width half hmiddle =>
      have hle := Array.getElem?_eq_none_iff.1 hmiddle
      omega
  | case3 low width half first after hmiddle hlt ih =>
      have hbehind : index < low + half := by
        have hfirst := (hdivided _ _ hmiddle).1
        omega
      rw [ih hlow (by omega) (by omega), if_pos hbehind, if_pos (by omega)]
  | case4 low width half first after hmiddle hle hafter ih =>
      have hbefore : low + half < index := (hdivided _ _ hmiddle).2.1 hafter
      have hend : low + half + 1 + (width - half) = low + (width + 1) := by omega
      rw [ih (by omega) (by omega) (by omega), hend]
  | case5 low width half first after hmiddle hle hafter =>
      have hindex : index = low + half := by
        obtain ⟨hfirst, hlast⟩ := hdivided _ _ hmiddle
        omega
      rw [hindex, if_pos (by omega)]

theorem lineAt_of_divided {lines : Lines} {offset index : Nat}
    (hdivided : Divided lines.intervals offset index) (hindex : index ≤ lines.intervals.size) :
    lines.lineAt offset = index + 1 := by
  unfold lineAt
  rw [search_eq hdivided (Nat.zero_le _) (by omega) (by omega), Nat.zero_add]
  by_cases hlt : index < lines.intervals.size
  · rw [if_pos hlt]
  · rw [if_neg hlt, Nat.le_antisymm hindex (Nat.le_of_not_lt hlt)]
    rfl

/-! ## The lines of a text -/

/-- Lines are not empty, and none begins before the first. -/
theorem start_le_of_mem_split {start offset : Nat} {chars : List Char} {interval : Nat × Nat}
    (hle : start ≤ offset) (h : interval ∈ split start offset chars) :
    start ≤ interval.1 ∧ interval.1 < interval.2 := by
  fun_induction split start offset chars with
  | case1 start offset hlt =>
      obtain rfl := List.mem_singleton.1 h
      exact ⟨Nat.le_refl _, by omega⟩
  | case2 => cases h
  | case3 start offset rest next ih =>
      have hnext : start < next := Nat.lt_of_le_of_lt hle (Nat.lt_add_of_pos_right (by decide))
      obtain rfl | h := List.mem_cons.1 h
      · exact ⟨Nat.le_refl _, hnext⟩
      · obtain ⟨hstart, hend⟩ := ih (Nat.le_refl _) h
        exact ⟨by omega, hend⟩
  | case4 start offset c rest next hc ih => exact ih (Nat.le_trans hle (Nat.le_add_right _ _)) h

/-- There are no more newlines than lines. -/
theorem newlinesWithin_le_length_split (bytes start offset : Nat) (chars : List Char) :
    newlinesWithin bytes chars ≤ (split start offset chars).length := by
  fun_induction split start offset chars generalizing bytes with
  | case1 => exact Nat.zero_le _
  | case2 => exact Nat.zero_le _
  | case3 start offset rest next ih =>
      have hrest := ih (bytes - '\n'.utf8Size)
      rw [newlinesWithin, List.length_cons]
      split <;> omega
  | case4 start offset c rest next hc ih =>
      have hrest := ih (bytes - c.utf8Size)
      rw [newlinesWithin, if_neg (by simp [hc])]
      omega

/-- As many lines end by an offset as there are newlines before it. -/
theorem divided_split {start offset target : Nat} {chars : List Char} (hle : start ≤ offset)
    (hstart : start ≤ target) (hend : target ≤ offset + byteLength chars) :
    Divided (split start offset chars).toArray target (newlinesWithin (target - offset) chars) := by
  intro i interval h
  rw [List.getElem?_toArray] at h
  fun_induction split start offset chars generalizing i with
  | case1 start offset hlt =>
      rw [byteLength_nil] at hend
      cases i with
      | zero =>
          obtain rfl := Option.some.inj h
          simp only [newlinesWithin]
          omega
      | succ i => cases h
  | case2 => simp at h
  | case3 start offset rest next ih =>
      have hnext : next = offset + 1 := rfl
      have hsub : target - offset - '\n'.utf8Size = target - next := Nat.sub_sub _ _ _
      rw [newlinesWithin, hsub]
      by_cases hlt : target < next
      · -- By an offset in the first line none has ended, and all others are still to begin.
        rw [Nat.sub_eq_zero_of_le (Nat.le_of_lt hlt), newlinesWithin_zero, if_neg (by omega)]
        cases i with
        | zero =>
            obtain rfl := Option.some.inj h
            omega
        | succ i =>
            have hbehind := start_le_of_mem_split (Nat.le_refl _) (List.mem_of_getElem? h)
            omega
      · rw [if_pos ⟨rfl, by omega⟩]
        cases i with
        | zero =>
            obtain rfl := Option.some.inj h
            omega
        | succ i =>
            rw [byteLength_cons, ← Nat.add_assoc] at hend
            have hrest := ih (Nat.le_refl _) (Nat.le_of_not_lt hlt) hend i h
            omega
  | case4 start offset c rest next hc ih =>
      rw [newlinesWithin, if_neg (by simp [hc]), Nat.zero_add, Nat.sub_sub]
      rw [byteLength_cons, ← Nat.add_assoc] at hend
      exact ih (Nat.le_trans hle (Nat.le_add_right _ _)) hstart hend i h

/-- The line that holds an offset is one more than the newlines before the offset. -/
theorem lineAt_ofText {text : String} {offset : Nat} (h : offset ≤ text.utf8ByteSize) :
    (ofText text).lineAt offset = newlinesWithin offset text.toList + 1 := by
  rw [← byteLength_toList] at h
  unfold ofText
  split
  · next hnil =>
      rw [hnil, byteLength_nil] at h
      obtain rfl := Nat.le_zero.1 h
      simp [lineAt, search]
  · rw [← Nat.zero_add (byteLength _)] at h
    refine lineAt_of_divided (divided_split (Nat.le_refl 0) (Nat.zero_le _) h) ?_
    rw [List.size_toArray]
    exact newlinesWithin_le_length_split _ _ _ _

/-- A line that is found is one of the table. -/
theorem lt_size_of_search {intervals : Array (Nat × Nat)} {offset low width index : Nat}
    (h : search intervals offset low width = some index) : index < intervals.size := by
  fun_induction search intervals offset low width with
  | case1 => cases h
  | case2 => cases h
  | case3 low width half first after hmiddle hlt ih => exact ih h
  | case4 low width half first after hmiddle hle hafter ih => exact ih h
  | case5 low width half first after hmiddle hle hafter =>
      obtain rfl := Option.some.inj h
      exact (Array.getElem?_eq_some_iff.1 hmiddle).1

/-- No offset has a number beyond the one past the last line. -/
theorem lineAt_le_beyond (lines : Lines) (offset : Nat) : lines.lineAt offset ≤ lines.beyond := by
  unfold lineAt
  split
  · next index hindex => exact Nat.succ_le_succ (Nat.le_of_lt (lt_size_of_search hindex))
  · exact Nat.le_refl _

/-- Unless there are too many lines for that, the numbers of lines have 32 bits. -/
theorem lineAt_lt_size {lines : Lines} (h : lines.intervals.size < UInt32.size - 1)
    (offset : Nat) : lines.lineAt offset < UInt32.size := by
  have hle := lines.lineAt_le_beyond offset
  unfold beyond at hle
  omega

/-- The line of a character boundary is one more than the newlines in the text before it. -/
theorem lineAt_of_boundary {source : String} {offset : Nat} (h : Boundary source offset) :
    ∃ before, (Span.between 0 offset).text? source = some before ∧
      (ofText source).lineAt offset = before.toList.count '\n' + 1 := by
  have hle := h.le_size
  obtain ⟨before, after, hsource, rfl⟩ := h
  refine ⟨String.ofList before, ?_, ?_⟩
  · have htext := Token.text?_of_append [] before after hsource
    rwa [byteLength_nil, Nat.zero_add] at htext
  · rw [lineAt_ofText hle, hsource, newlinesWithin_append, String.toList_ofList]

/-! ## Newlines among the bytes of a text -/

/-- The byte of a newline stands in no other character. -/
theorem eq_newline_of_mem {c : Char} (h : 10 ∈ String.utf8EncodeChar c) : c = '\n' := by
  have hbyte {value : Nat} (h : 10 = UInt8.ofNat value) : value % 256 = 10 :=
    (congrArg UInt8.toNat h).symm
  rw [String.utf8EncodeChar] at h
  split at h
  · have hvalue := hbyte (List.mem_singleton.1 h)
    exact Char.ext (UInt32.toNat_inj.1 (show c.val.toNat = 10 by omega))
  · -- Each byte of a longer character is at least 128.
    exfalso
    split at h
    · simp only [List.mem_cons, List.not_mem_nil, or_false] at h
      obtain h | h := h <;> have := hbyte h <;> omega
    · split at h
      · simp only [List.mem_cons, List.not_mem_nil, or_false] at h
        obtain h | h | h := h <;> have := hbyte h <;> omega
      · simp only [List.mem_cons, List.not_mem_nil, or_false] at h
        obtain h | h | h | h := h <;> have := hbyte h <;> omega

/-- Among the first bytes of a character a newline's byte stands once, if it is a newline. -/
theorem count_take_utf8EncodeChar (c : Char) (bytes : Nat) :
    ((String.utf8EncodeChar c).take bytes).count 10 = if c = '\n' ∧ 0 < bytes then 1 else 0 := by
  by_cases hc : c = '\n'
  · subst hc
    cases bytes with
    | zero => rfl
    | succ bytes =>
        rw [if_pos ⟨rfl, Nat.succ_pos bytes⟩]
        show ([10].take (bytes + 1)).count (10 : UInt8) = 1
        rw [List.take_succ_cons, List.take_nil]
        rfl
  · rw [if_neg fun h => hc h.1, List.count_eq_zero]
    exact fun hmem => hc (eq_newline_of_mem (List.mem_of_mem_take hmem))

/-- The newlines within some bytes are the bytes of newlines among them. -/
theorem newlinesWithin_eq_count (bytes : Nat) (chars : List Char) :
    newlinesWithin bytes chars = ((chars.flatMap String.utf8EncodeChar).take bytes).count 10 := by
  induction chars generalizing bytes with
  | nil => rw [newlinesWithin, List.flatMap_nil, List.take_nil, List.count_nil]
  | cons c chars ih =>
      rw [newlinesWithin, ih, List.flatMap_cons, List.take_append, List.count_append,
        count_take_utf8EncodeChar, String.length_utf8EncodeChar]

/-- The number of the line at a byte offset, the end of the text included, is one more than the
number of newline bytes before the offset. Unless the text has too many lines for that, it is a
number of 32 bits. -/
theorem lineAt_eq_bytes (text : String) (offset : Nat) (h : offset ≤ text.utf8ByteSize) :
    (ofText text).lineAt offset = 1 + (text.toUTF8.data.toList.take offset).count 10 ∧
      ((ofText text).intervals.size < UInt32.size - 1 →
        (ofText text).lineAt offset < UInt32.size) := by
  have hbytes : text.toUTF8.data.toList = text.toList.flatMap String.utf8EncodeChar := by
    show text.toByteArray.data.toList = _
    rw [← String.utf8Encode_toList, List.utf8Encode, List.toList_data_toByteArray]
  constructor
  · rw [lineAt_ofText h, newlinesWithin_eq_count, hbytes, Nat.add_comm]
  · intro hsize
    exact lineAt_lt_size hsize offset

/-- At the end of a text that ends with a newline, behind a character of two bytes. -/
theorem lineAt_eq_bytes_end : (ofText "é\nb\n").lineAt 5 = 3 := by
  have hline := (lineAt_eq_bytes "é\nb\n" 5 (by decide)).1
  have hcount : ("é\nb\n".toUTF8.data.toList.take 5).count 10 = 2 := by decide +kernel
  rw [hline, hcount]

end ListScript.Lines
