import ListScript.Text.Quoted
import ListScript.Token.Escape
import Mathlib.Tactic.Common

/-!
# Spellings of characters

Both escaped forms of a character are spelled in one of three ways: the character itself, a
backslash and a letter, or its code point. No spelling is the beginning of another one
(`Spelled.append_inj`), so a quoted text tells which characters it stands for and where it ends
(`quoteString_append_inj`).
-/

namespace ListScript.Text

/-! ## Runs -/

/-- The text does not go on with a character of the class. -/
def Stops (cls : Char → Bool) (rest : List Char) : Prop := ∀ c ∈ rest.head?, cls c = false

/-- A run stops before a character outside its class. -/
theorem stops_cons {cls : Char → Bool} {c : Char} (h : cls c = false) (rest : List Char) :
    Stops cls (c :: rest) := by
  intro d hd
  cases hd
  exact h

/-- Two runs of a class of characters are equal if the texts that they begin are and neither goes
on. -/
theorem append_inj_of_stops {P : Char → Bool} {run run' rest rest' : List Char}
    (hrun : ∀ c ∈ run, P c = true) (hrun' : ∀ c ∈ run', P c = true) (hrest : Stops P rest)
    (hrest' : Stops P rest') (h : run ++ rest = run' ++ rest') : run = run' ∧ rest = rest' := by
  induction run generalizing run' with
  | nil =>
      cases run' with
      | nil => exact ⟨rfl, h⟩
      | cons c run' =>
          have hstop := hrest c (by rw [show rest = _ from h]; rfl)
          rw [hrun' c (by simp)] at hstop
          cases hstop
  | cons c run ih =>
      cases run' with
      | nil =>
          have hstop := hrest' c (by rw [← show _ = rest' from h]; rfl)
          rw [hrun c (by simp)] at hstop
          cases hstop
      | cons c' run' =>
          rw [List.cons_append, List.cons_append, List.cons.injEq] at h
          obtain ⟨rfl, h⟩ := h
          obtain ⟨rfl, hrests⟩ := ih (fun d hd => hrun d (by simp [hd]))
            (fun d hd => hrun' d (by simp [hd])) h
          exact ⟨rfl, hrests⟩

/-! ## Code points -/

/-- The digits of hexadecimal numbers are told apart by what they stand for. -/
theorem digitChar_inj : ∀ m < 16, ∀ n < 16, Nat.digitChar m = Nat.digitChar n → m = n := by
  decide

theorem digitChar_ne_brace : ∀ n < 16, (Nat.digitChar n != '\x7d') = true := by
  decide

/-- No hexadecimal digit closes an escape. -/
theorem ne_brace_of_mem_toDigits {n : Nat} {c : Char} (h : c ∈ Nat.toDigits 16 n) :
    (c != '\x7d') = true := by
  induction n using Nat.strongRecOn with
  | _ n ih =>
      rw [Nat.toDigits_eq_if (by decide)] at h
      split at h
      · rename_i hlt
        rw [List.mem_singleton.1 h]
        exact digitChar_ne_brace n hlt
      · rw [List.mem_append, List.mem_singleton] at h
        obtain h | rfl := h
        · exact ih (n / 16) (by omega) h
        · exact digitChar_ne_brace _ (Nat.mod_lt _ (by decide))

/-- A number is told by its hexadecimal digits. -/
theorem toDigits_sixteen_inj {m n : Nat} (h : Nat.toDigits 16 m = Nat.toDigits 16 n) : m = n := by
  induction m using Nat.strongRecOn generalizing n with
  | _ m ih =>
      have hlast : ∀ k, (Nat.toDigits 16 k).getLast? = some (Nat.digitChar (k % 16)) ∧
          (Nat.toDigits 16 k).dropLast = if k < 16 then [] else Nat.toDigits 16 (k / 16) := by
        intro k
        rw [Nat.toDigits_eq_if (by decide)]
        split
        · rename_i hlt
          rw [Nat.mod_eq_of_lt hlt]
          exact ⟨rfl, rfl⟩
        · rw [List.getLast?_concat, List.dropLast_concat]
          exact ⟨rfl, rfl⟩
      have hdigit : m % 16 = n % 16 := by
        refine digitChar_inj _ (Nat.mod_lt _ (by decide)) _ (Nat.mod_lt _ (by decide)) ?_
        have := (hlast m).1
        rw [h, (hlast n).1] at this
        exact (Option.some.inj this).symm
      have hfront := (hlast m).2
      rw [h, (hlast n).2] at hfront
      split at hfront <;> split at hfront
      · omega
      · exact absurd hfront.symm Nat.toDigits_ne_nil
      · exact absurd hfront Nat.toDigits_ne_nil
      · have := ih (m / 16) (by omega) hfront.symm
        omega

/-! ## Spellings -/

/-- The ways to spell a character between quotes: as it is, unless it is the backslash or the quote;
by a backslash and a letter; by its code point. -/
inductive Spelled (quote c : Char) : List Char → Prop where
  | plain : c ≠ '\\' → c ≠ quote → Spelled quote c [c]
  | short (letter : Char) : Escape.unescape? letter = some c → Spelled quote c ['\\', letter]
  | codePoint : Spelled quote c ('\\' :: 'u' :: '\x7b' :: (Nat.toDigits 16 c.toNat ++ ['\x7d']))

/-- A code point is escaped by its hexadecimal digits between braces. -/
theorem toList_codePointEscape (c : Char) :
    (codePointEscape c).toList =
      '\\' :: 'u' :: '\x7b' :: (Nat.toDigits 16 c.toNat ++ ['\x7d']) := by
  unfold codePointEscape
  simp

/-- No spelling of a character is the beginning of a spelling of another one. -/
theorem Spelled.append_inj {quote c c' : Char} {text text' rest rest' : List Char}
    (h : Spelled quote c text) (h' : Spelled quote c' text') (heq : text ++ rest = text' ++ rest') :
    c = c' ∧ rest = rest' := by
  cases h with
  | plain hne _ =>
      cases h' with
      | plain => exact ⟨(List.cons.inj heq).1, (List.cons.inj heq).2⟩
      | short | codePoint => exact absurd (List.cons.inj heq).1 hne
  | short letter hletter =>
      cases h' with
      | plain hne _ => exact absurd (List.cons.inj heq).1.symm hne
      | short letter' hletter' =>
          obtain ⟨rfl, hrest⟩ := List.cons.inj (List.cons.inj heq).2
          rw [hletter] at hletter'
          exact ⟨Option.some.inj hletter', hrest⟩
      | codePoint =>
          rw [(List.cons.inj (List.cons.inj heq).2).1] at hletter
          cases hletter
  | codePoint =>
      cases h' with
      | plain hne _ => exact absurd (List.cons.inj heq).1.symm hne
      | short letter hletter =>
          rw [← (List.cons.inj (List.cons.inj heq).2).1] at hletter
          cases hletter
      | codePoint =>
          simp only [List.cons_append, List.append_assoc, List.cons.injEq, true_and] at heq
          obtain ⟨hnat, hrest⟩ := append_inj_of_stops (P := (· != '\x7d'))
            (fun _ => ne_brace_of_mem_toDigits) (fun _ => ne_brace_of_mem_toDigits)
            (stops_cons rfl _) (stops_cons rfl _) heq
          exact ⟨Char.ext (UInt32.toNat_inj.1 (toDigits_sixteen_inj hnat)), (List.cons.inj hrest).2⟩

/-- The shared escapes are spellings. -/
theorem spelled_of_sharedEscape? (quote : Char) {c : Char} {escape : String}
    (h : sharedEscape? c = some escape) : Spelled quote c escape.toList := by
  unfold sharedEscape? at h
  split at h <;> cases h
  · exact .short 'n' rfl
  · exact .short 'r' rfl
  · exact .short 't' rfl
  · exact .short '\\' rfl

/-- The backslash has an escape. -/
theorem ne_backslash_of_sharedEscape? {c : Char} (h : sharedEscape? c = none) : c ≠ '\\' := by
  rintro rfl
  cases h

/-- A character between quotes is spelled so that it is read back. -/
theorem spelled_quotedChar {quote : Char} (hquote : Escape.unescape? quote = some quote)
    (c : Char) : Spelled quote c (quotedChar quote c).toList := by
  unfold quotedChar
  split
  · exact spelled_of_sharedEscape? _ ‹_›
  · rename_i hshared
    split
    · rename_i hnull
      subst hnull
      exact .short '0' rfl
    split
    · rename_i heq
      subst heq
      rw [String.toList_ofList]
      exact .short c hquote
    rename_i hne
    split
    · rw [toList_codePointEscape]
      exact .codePoint
    · rw [Char.toString_eq_singleton, String.toList_singleton]
      exact .plain (ne_backslash_of_sharedEscape? hshared) hne

/-- An escaped character is spelled so that it is read back in a text. -/
theorem spelled_escapeChar (c : Char) : Spelled '\x22' c (escapeChar c).toList := by
  unfold escapeChar
  split
  · exact spelled_of_sharedEscape? _ ‹_›
  · rename_i hshared
    split
    · rename_i hquote
      rw [String.toList_ofList]
      refine .short c ?_
      rw [Bool.or_eq_true, decide_eq_true_eq, decide_eq_true_eq] at hquote
      obtain rfl | rfl := hquote <;> rfl
    rename_i hquote
    rw [Bool.or_eq_true, decide_eq_true_eq, decide_eq_true_eq] at hquote
    split
    · rw [Char.toString_eq_singleton, String.toList_singleton]
      exact .plain (ne_backslash_of_sharedEscape? hshared) (fun h => hquote (.inr h))
    · rw [toList_codePointEscape]
      exact .codePoint

/-! ## Quoted texts -/

/-- What stands between quotes does not begin as the closing quote does. -/
theorem Spelled.exists_cons {quote c : Char} {text : List Char} (h : Spelled quote c text)
    (hquote : '\\' ≠ quote) : ∃ first tail, text = first :: tail ∧ first ≠ quote := by
  cases h with
  | plain _ hne => exact ⟨c, [], rfl, hne⟩
  | short letter => exact ⟨'\\', _, rfl, hquote⟩
  | codePoint => exact ⟨'\\', _, rfl, hquote⟩

/-- The characters of a quoted text are told one after the other, up to the closing quote. -/
theorem flatMap_append_inj {quote : Char} {spell : Char → List Char}
    (hspell : ∀ c, Spelled quote c (spell c)) (hquote : '\\' ≠ quote)
    {chars chars' rest rest' : List Char}
    (h : chars.flatMap spell ++ quote :: rest = chars'.flatMap spell ++ quote :: rest') :
    chars = chars' ∧ rest = rest' := by
  induction chars generalizing chars' with
  | nil =>
      cases chars' with
      | nil => exact ⟨rfl, (List.cons.inj h).2⟩
      | cons c' chars' =>
          obtain ⟨first, tail, htext, hne⟩ := (hspell c').exists_cons hquote
          rw [List.flatMap_cons, htext] at h
          exact absurd (List.cons.inj h).1.symm hne
  | cons c chars ih =>
      cases chars' with
      | nil =>
          obtain ⟨first, tail, htext, hne⟩ := (hspell c).exists_cons hquote
          rw [List.flatMap_cons, htext] at h
          exact absurd (List.cons.inj h).1 hne
      | cons c' chars' =>
          rw [List.flatMap_cons, List.flatMap_cons, List.append_assoc, List.append_assoc] at h
          obtain ⟨rfl, htail⟩ := (hspell c).append_inj (hspell c') h
          obtain ⟨rfl, hrest⟩ := ih htail
          exact ⟨rfl, hrest⟩

/-- A text is quoted character by character. -/
theorem toList_quoteString (s : String) :
    (quoteString s).toList =
      '\x22' :: (s.toList.flatMap (fun c => (quotedChar '\x22' c).toList) ++ ['\x22']) := by
  unfold quoteString
  simp [String.toList_join, List.flatMap_map]

/-- A quoted string tells what stands in it and where it ends. -/
theorem quoteString_append_inj {s s' : String} {rest rest' : List Char}
    (h : (quoteString s).toList ++ rest = (quoteString s').toList ++ rest') :
    s = s' ∧ rest = rest' := by
  simp only [toList_quoteString, List.cons_append, List.append_assoc, List.cons.injEq, true_and,
    List.nil_append] at h
  obtain ⟨hchars, hrest⟩ := flatMap_append_inj (spelled_quotedChar rfl) (by decide) h
  exact ⟨String.toList_inj.1 hchars, hrest⟩

/-- An escaped character tells which one it is and where it ends. -/
theorem escapeChar_append_inj {c c' : Char} {rest rest' : List Char}
    (h : (escapeChar c).toList ++ rest = (escapeChar c').toList ++ rest') : c = c' ∧ rest = rest' :=
  (spelled_escapeChar c).append_inj (spelled_escapeChar c') h

end ListScript.Text
