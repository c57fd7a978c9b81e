import ListScript.Proofs.Expr.Composition
import ListScript.Proofs.Expr.Symbolic
import ListScript.Proofs.Number.Literal

/-!
# Reading the symbolic form back

`Expr.ofDatum?` reads a tree back from its datum, up to places (`Expr.ofDatum?_datum`): names are
told from keywords, and a limit that was left out is filled in. As the symbolic form tells the datum,
that of a program tells its trees (`Block.symbolic_eq_iff`).
-/

namespace ListScript

namespace Expr

/-- The expression that a word stands for. -/
def ofWord (word : String) : Expr :=
  if word = "null" then .null (.empty 0)
  else if word = "true" then .boolean (.empty 0) true
  else if word = "false" then .boolean (.empty 0) false
  else .identifier (.empty 0) word

/-- All the expressions, if all of them could be read. -/
def together : List (Option Expr) → Option (List Expr)
  | [] => some []
  | none :: _ => none
  | some e :: rest => (together rest).map (e :: ·)

/-- The words among the data. -/
def wordsOf : List Datum → List String
  | .word w :: rest => w :: wordsOf rest
  | _ => []

/-- The expression of a node, given its items and what could be read of them. -/
def ofNode? : Head → List Datum → List (Option Expr) → Option Expr
  | .list, _, es => (together es).map (.list (.empty 0))
  | .block, _, es => (together es).map (.block (.empty 0))
  | .group, _, [some a] => some (.group (.empty 0) a)
  | .control kind, [.count n], _ => some (.control (.empty 0) ⟨kind, n⟩)
  | .unary operator, _, [some a] => some (.unary (.empty 0) operator a)
  | .update step after, _, [some a] => some (.update (.empty 0) step after a)
  | .binary operator, _, [some a, some b] => some (.binary (.empty 0) operator a b)
  | .assign mode, _, [some a, some b] =>
    some (.assign (.empty 0) a b (.number (.empty 0) (.ofInt (-1))) mode)
  | .assign mode, _, [some a, some b, some c] => some (.assign (.empty 0) a b c mode)
  | .call, _, some a :: es => (together es).map (.call (.empty 0) a)
  | .function, .list parameters :: _, [_, some (.block _ body)] =>
    some (.function (.empty 0) (wordsOf parameters) body (.empty 0))
  | .branch, _, [some a, some b] => some (.branch (.empty 0) a b none)
  | .branch, _, [some a, some b, some c] => some (.branch (.empty 0) a b (some c))
  | .whileLoop, _, [some a, some b] => some (.whileLoop (.empty 0) a b)
  | .forLoop, _, [some a, some b, some c, some d] => some (.forLoop (.empty 0) a b c d)
  | .forEach walk, .word name :: _, [_, some a, some b] =>
    some (.forEach (.empty 0) walk name a b)
  | .index, _, [some a, some b] => some (.index (.empty 0) a b)
  | .method, .word name :: _, _ :: some a :: es => (together es).map (.method (.empty 0) a name)
  | .range inclusive, _, [some a, some b, some c] => some (.range (.empty 0) a b c inclusive)
  | .shift, _, [some a, some b] => some (.shift (.empty 0) a b)
  | .pop, _, [some a, some b] => some (.pop (.empty 0) a b)
  | .push, _, [some a, some b, some c] => some (.push (.empty 0) a b c)
  | _, _, _ => none

mutual

/-- The expression that a datum is the datum of, at no place. -/
@[simp]
def ofDatum? : Datum → Option Expr
  | .number value => some (.number (.empty 0) value)
  | .string text => some (.string (.empty 0) text)
  | .character value => some (.character (.empty 0) value)
  | .word word => some (ofWord word)
  | .list (.word word :: items) =>
    match Head.of? word items.length with
    | some head => ofNode? head items (ofData? items)
    | none => none
  | _ => none

/-- What can be read of each datum. -/
@[simp]
def ofData? : List Datum → List (Option Expr)
  | [] => []
  | d :: rest => ofDatum? d :: ofData? rest

end

theorem ofDatum?_node {head : Head} {items : List Datum} (h : head.admits items.length = true) :
    ofDatum? (.node head items) = ofNode? head items (ofData? items) := by
  unfold Datum.node
  rw [ofDatum?, Head.of?_word h]

theorem together_map (es : List Expr) : together (es.map some) = some es := by
  induction es with
  | nil => rfl
  | cons e es ih =>
      rw [List.map_cons, together, ih]
      rfl

theorem wordsOf_map (words : List String) : wordsOf (words.map .word) = words := by
  induction words with
  | nil => rfl
  | cons word words ih => rw [List.map_cons, wordsOf, ih]

/-- No keyword is a name. -/
theorem ne_spelling_of_isName {name : String} (h : Token.isName name = true) (k : Keyword) :
    name ≠ k.spelling := by
  rintro rfl
  cases k <;> exact absurd h (by decide +kernel)

theorem ofWord_of_isName {name : String} (h : Token.isName name = true) :
    ofWord name = .identifier (.empty 0) name := by
  have hnull : name ≠ "null" := ne_spelling_of_isName h .nullWord
  have htrue : name ≠ "true" := ne_spelling_of_isName h .trueWord
  have hfalse : name ≠ "false" := ne_spelling_of_isName h .falseWord
  unfold ofWord
  rw [if_neg hnull, if_neg htrue, if_neg hfalse]

/-- A limit that the symbolic form leaves out is minus one. -/
theorem erase_of_isDefaultLimit {e : Expr} (h : e.isDefaultLimit = true) :
    e.erase = .number (.empty 0) (.ofInt (-1)) := by
  cases e with
  | number span value =>
      rw [isDefaultLimit, Bool.and_eq_true] at h
      rw [erase, Number.eq_neg_one h.1]
  | _ => cases h

mutual

/-- A tree that a text can give is read back from its datum, up to places. -/
theorem ofDatum?_datum (e : Expr) (h : e.every legible = true) :
    ofDatum? e.datum = some e.erase := by
  cases e with
  | number | string | character => rfl
  | boolean _ value =>
      rw [datum, ofDatum?]
      cases value <;> rfl
  | null => rfl
  | identifier _ name =>
      rw [every, legible, Bool.and_true] at h
      rw [datum, ofDatum?, ofWord_of_isName h, erase]
  | control _ signal =>
      rw [datum, ofDatum?_node rfl]
      rfl
  | list _ es | block _ es =>
      simp only [every, Bool.and_eq_true] at h
      rw [datum, ofDatum?_node rfl, ofData?_dataAll es h.2, ofNode?, together_map, erase]
      rfl
  | group _ a | unary _ _ a | update _ _ _ a =>
      simp only [every, Bool.and_eq_true] at h
      rw [datum, ofDatum?_node rfl]
      simp only [ofData?, ofDatum?_datum a h.2, ofNode?, erase]
  | binary _ _ a b | whileLoop _ a b | index _ a b | shift _ a b | pop _ a b =>
      simp only [every, Bool.and_eq_true] at h
      rw [datum, ofDatum?_node rfl]
      simp only [ofData?, ofDatum?_datum a h.2.1, ofDatum?_datum b h.2.2, ofNode?, erase]
  | range _ a b c _ | push _ a b c =>
      simp only [every, Bool.and_eq_true] at h
      rw [datum, ofDatum?_node rfl]
      simp only [ofData?, ofDatum?_datum a h.2.1.1, ofDatum?_datum b h.2.1.2,
        ofDatum?_datum c h.2.2, ofNode?, erase]
  | forLoop _ a b c d =>
      simp only [every, Bool.and_eq_true] at h
      rw [datum, ofDatum?_node rfl]
      simp only [ofData?, ofDatum?_datum a h.2.1.1.1, ofDatum?_datum b h.2.1.1.2,
        ofDatum?_datum c h.2.1.2, ofDatum?_datum d h.2.2, ofNode?, erase]
  | forEach _ walk name a b =>
      simp only [every, Bool.and_eq_true] at h
      rw [datum, ofDatum?_node rfl]
      simp only [ofData?, ofDatum?_datum a h.2.1, ofDatum?_datum b h.2.2, ofNode?, erase]
  | assign _ a b c mode =>
      simp only [every, Bool.and_eq_true] at h
      rw [datum]
      split
      · rename_i hlimit
        rw [ofDatum?_node rfl]
        simp only [ofData?, ofDatum?_datum a h.2.1.1, ofDatum?_datum b h.2.1.2, ofNode?, erase,
          erase_of_isDefaultLimit hlimit]
      · rw [ofDatum?_node rfl]
        simp only [ofData?, ofDatum?_datum a h.2.1.1, ofDatum?_datum b h.2.1.2,
          ofDatum?_datum c h.2.2, ofNode?, erase]
  | branch _ a b failure =>
      cases failure with
      | none =>
          simp only [every, Bool.and_eq_true] at h
          rw [datum, ofDatum?_node rfl]
          simp only [ofData?, ofDatum?_datum a h.2.1, ofDatum?_datum b h.2.2, ofNode?, erase]
      | some c =>
          simp only [every, Bool.and_eq_true] at h
          rw [datum, ofDatum?_node rfl]
          simp only [ofData?, ofDatum?_datum a h.2.1.1, ofDatum?_datum b h.2.1.2,
            ofDatum?_datum c h.2.2, ofNode?, erase]
  | call _ a es =>
      simp only [every, Bool.and_eq_true] at h
      rw [datum, ofDatum?_node (by simp [Head.admits])]
      simp only [ofData?, ofDatum?_datum a h.2.1, ofData?_dataAll es h.2.2, ofNode?, together_map,
        Option.map_some, erase]
  | method _ a name es =>
      simp only [every, Bool.and_eq_true] at h
      rw [datum, ofDatum?_node (by simp [Head.admits])]
      simp only [ofData?, ofDatum?_datum a h.2.1, ofData?_dataAll es h.2.2, ofNode?, together_map,
        Option.map_some, erase]
  | function _ parameters es _ =>
      simp only [every, Bool.and_eq_true] at h
      have hbody :
          ofDatum? (.node .block (dataAll es)) = some (.block (.empty 0) (eraseAll es)) := by
        rw [ofDatum?_node rfl, ofData?_dataAll es h.2, ofNode?, together_map]
        rfl
      rw [datum, ofDatum?_node rfl]
      simp only [ofData?, hbody, ofNode?, wordsOf_map, erase]

theorem ofData?_dataAll (es : List Expr) (h : everyAll legible es = true) :
    ofData? (dataAll es) = (eraseAll es).map some := by
  cases es with
  | nil => rfl
  | cons e es =>
      rw [everyAll, Bool.and_eq_true] at h
      rw [dataAll, ofData?, ofDatum?_datum e h.1, ofData?_dataAll es h.2]
      rfl

end

/-- Trees that texts can give are equal up to places if their data are equal. -/
theorem eraseAll_eq_of_dataAll_eq {es es' : List Expr} (h : everyAll legible es = true)
    (h' : everyAll legible es' = true) (heq : dataAll es = dataAll es') :
    eraseAll es = eraseAll es' := by
  have hback := congrArg ofData? heq
  rw [ofData?_dataAll es h, ofData?_dataAll es' h'] at hback
  exact List.map_injective_iff.2 (Option.some_injective _) hback

end Expr

namespace Block

/-- A program is such as a text can give. -/
theorem everyAll_legible_of_parse {source : String} {block : Block} (h : parse source = .ok block) :
    Expr.everyAll Expr.legible block.body = true := by
  obtain ⟨tokens, hscan⟩ := exists_tokens_of_parse h
  obtain ⟨s', hprogram⟩ := exists_of_parse h
  have hnames : ∀ token ∈ tokens, token.kind = .identifier → Token.isName token.lexeme = true :=
    fun token hmem => (Token.of_scan hscan token hmem).2
  -- the text is read in lockstep with itself, which says more than that both runs are equal
  have hself : (TokenStream.ofSource source).Alike (.ofSource source) :=
    ⟨tokens, tokens, hscan, hscan, Token.forall₂_alike_of_gist hnames rfl⟩
  have hmeets := Parser.program_alike hself
  rw [hprogram] at hmeets
  exact hmeets.1.2.1

/-- The symbolic form of a program tells its trees up to places, and does not tell places, if all of
its numbers are finite. -/
theorem symbolic_eq_iff {source source' : String} {block block' : Block}
    (h : parse source = .ok block) (h' : parse source' = .ok block')
    (hfinite : Expr.everyAll Expr.isFiniteNode block.body = true)
    (hfinite' : Expr.everyAll Expr.isFiniteNode block'.body = true) :
    block.symbolic = block'.symbolic ↔ block.erase = block'.erase := by
  have hlegible := everyAll_legible_of_parse h
  have hlegible' := everyAll_legible_of_parse h'
  constructor
  · intro htexts
    -- the lines are data with a newline between each two of them, and nothing comes after
    have hjoined : Datum.joined '\n' (Expr.dataAll block.body) ++ [] =
        Datum.joined '\n' (Expr.dataAll block'.body) ++ [] := by
      rw [Expr.joined_eq (Expr.texts_dataAll block.body),
        Expr.joined_eq (Expr.texts_dataAll block'.body)]
      exact congrArg (·.toList ++ []) htexts
    have hdata := (Datum.joined_append_inj _ _ ⟨by decide, by decide⟩
      (Expr.areReadable_dataAll _ hlegible hfinite) (Expr.areReadable_dataAll _ hlegible' hfinite')
      Datum.closes_nil Datum.closes_nil hjoined).1
    unfold erase
    rw [Expr.eraseAll_eq_of_dataAll_eq hlegible hlegible' hdata]
  · intro herase
    have hbodies : Expr.AlikeAll block.body block'.body :=
      ⟨congrArg Block.body herase, hlegible, hlegible'⟩
    unfold symbolic
    rw [hbodies.symbolicAll_eq]

/-- Two texts of one program: the zero at the end of the number, the layout and the comment leave no
trace. A character that is a parenthesis and a limit that is left out are told from the text. -/
theorem symbolic_eq_iff_layout :
    ∃ block block', parse "a = -b * 2.50\n@(" = .ok block ∧
      parse "a=-b*2.5 // scaled\n@(" = .ok block' ∧
      Expr.everyAll Expr.isFiniteNode block.body = true ∧
      Expr.everyAll Expr.isFiniteNode block'.body = true ∧ block.erase = block'.erase := by
  have hview : ∀ source ∈ ["a = -b * 2.50\n@(", "a=-b*2.5 // scaled\n@("],
      (parse source).toOption.map
        (fun block => (Expr.everyAll Expr.isFiniteNode block.body, block.symbolic)) =
        some (true, "(= a (* (- b) 2.5))\n@(") := by
    decide +kernel
  have hread : ∀ source ∈ ["a = -b * 2.50\n@(", "a=-b*2.5 // scaled\n@("],
      ∃ block, parse source = .ok block ∧ Expr.everyAll Expr.isFiniteNode block.body = true ∧
        block.symbolic = "(= a (* (- b) 2.5))\n@(" := by
    intro source hmem
    have hsource := hview source hmem
    cases hparse : parse source with
    | error error =>
        rw [hparse] at hsource
        cases hsource
    | ok block =>
        rw [hparse] at hsource
        exact ⟨block, rfl, congrArg Prod.fst (Option.some.inj hsource),
          congrArg Prod.snd (Option.some.inj hsource)⟩
  obtain ⟨block, h, hfinite, hsymbolic⟩ := hread _ List.mem_cons_self
  obtain ⟨block', h', hfinite', hsymbolic'⟩ := hread _ (List.mem_cons_of_mem _ List.mem_cons_self)
  exact ⟨block, block', h, h', hfinite, hfinite',
    (symbolic_eq_iff h h' hfinite hfinite').1 (hsymbolic.trans hsymbolic'.symm)⟩

end Block

end ListScript
