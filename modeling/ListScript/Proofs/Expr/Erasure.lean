import ListScript.Expr.Printer
import ListScript.Proofs.Expr.Every
import ListScript.Token.Scan

/-!
# Trees without places

`Expr.erase` forgets where the nodes of a tree stand. Two trees are `Expr.Alike` when they are equal
up to places and every node of both is such as a text can give: names are names, and minus one,
which no literal denotes, has no place in the source. On trees of that kind the symbolic form does
not depend on places (`Expr.symbolic_erase`), although it looks at one: the place tells a limit that
was written from one that was filled in.
-/

namespace ListScript

/-- The word is a name: it starts and goes on as words do, and is no keyword. -/
def Token.isName (word : String) : Bool :=
  match word.toList with
  | [] => false
  | first :: rest =>
    isWordStart first && rest.all isWordPart && (Piece.keyword? (first :: rest)).isNone

namespace Expr

mutual

/-- The expression with every node at the same place. -/
@[simp]
def erase : Expr → Expr
  | .number _ value => .number (.empty 0) value
  | .boolean _ value => .boolean (.empty 0) value
  | .null _ => .null (.empty 0)
  | .string _ text => .string (.empty 0) text
  | .character _ value => .character (.empty 0) value
  | .identifier _ name => .identifier (.empty 0) name
  | .list _ items => .list (.empty 0) (eraseAll items)
  | .block _ body => .block (.empty 0) (eraseAll body)
  | .group _ inner => .group (.empty 0) inner.erase
  | .control _ signal => .control (.empty 0) signal
  | .unary _ operator operand => .unary (.empty 0) operator operand.erase
  | .update _ step after operand => .update (.empty 0) step after operand.erase
  | .binary _ operator lhs rhs => .binary (.empty 0) operator lhs.erase rhs.erase
  | .assign _ target value limit mode =>
    .assign (.empty 0) target.erase value.erase limit.erase mode
  | .call _ callee arguments => .call (.empty 0) callee.erase (eraseAll arguments)
  | .function _ parameters body _ => .function (.empty 0) parameters (eraseAll body) (.empty 0)
  | .branch _ condition success none => .branch (.empty 0) condition.erase success.erase none
  | .branch _ condition success (some failure) =>
    .branch (.empty 0) condition.erase success.erase (some failure.erase)
  | .whileLoop _ condition body => .whileLoop (.empty 0) condition.erase body.erase
  | .forLoop _ start condition step body =>
    .forLoop (.empty 0) start.erase condition.erase step.erase body.erase
  | .forEach _ walk name enumerable body =>
    .forEach (.empty 0) walk name enumerable.erase body.erase
  | .index _ target position => .index (.empty 0) target.erase position.erase
  | .method _ receiver name arguments =>
    .method (.empty 0) receiver.erase name (eraseAll arguments)
  | .range _ first last step inclusive =>
    .range (.empty 0) first.erase last.erase step.erase inclusive
  | .shift _ source target => .shift (.empty 0) source.erase target.erase
  | .pop _ source position => .pop (.empty 0) source.erase position.erase
  | .push _ target position value => .push (.empty 0) target.erase position.erase value.erase

/-- The expressions with every node at the same place. -/
@[simp]
def eraseAll : List Expr → List Expr
  | [] => []
  | e :: rest => e.erase :: eraseAll rest

end

/-- The node is such as a text can give: its names are names, and minus one stands nowhere. -/
@[simp]
def legible : Expr → Bool
  | .number span value => !value.eq (.ofInt (-1)) || span.length == 0
  | .identifier _ name | .forEach _ _ name _ _ | .method _ _ name _ => Token.isName name
  | .function _ parameters _ _ => parameters.all Token.isName
  | _ => true

/-- The trees are equal up to places, and a text can give each of them. -/
def Alike (e e' : Expr) : Prop :=
  e.erase = e'.erase ∧ e.every legible = true ∧ e'.every legible = true

/-- The lists hold trees that are alike, one by one. -/
def AlikeAll (es es' : List Expr) : Prop :=
  eraseAll es = eraseAll es' ∧ everyAll legible es = true ∧ everyAll legible es' = true

/-- Places are taken from each of several expressions. -/
theorem eraseAll_append (es es' : List Expr) :
    eraseAll (es ++ es') = eraseAll es ++ eraseAll es' := by
  induction es with
  | nil => rfl
  | cons e es ih => rw [List.cons_append, eraseAll, ih, eraseAll, List.cons_append]

/-- Taking the places away leaves as many expressions. -/
theorem length_eraseAll (es : List Expr) : (eraseAll es).length = es.length := by
  induction es with
  | nil => rfl
  | cons e es ih => rw [eraseAll, List.length_cons, ih, List.length_cons]

/-! ## Likeness passes through every construct -/

section

variable {sp sp' bsp bsp' : Span} {a a' b b' c c' d d' : Expr} {es es' : List Expr}

/-- Without any expressions, all are alike. -/
theorem AlikeAll.nil : AlikeAll [] [] := by
  simp [AlikeAll]

/-- Expressions are alike one by one. -/
theorem AlikeAll.cons (h : a.Alike a') (hs : AlikeAll es es') :
    AlikeAll (a :: es) (a' :: es') := by
  simp_all [AlikeAll, Alike]

/-- If several expressions are alike, the first ones and the others are. -/
theorem AlikeAll.of_cons (h : AlikeAll (a :: es) (a' :: es')) : a.Alike a' ∧ AlikeAll es es' := by
  simp_all [AlikeAll, Alike]

/-- Lists of expressions that are alike are alike. -/
theorem Alike.list (hs : AlikeAll es es') : Alike (.list sp es) (.list sp' es') := by
  simp_all [AlikeAll, Alike]

/-- Blocks of expressions that are alike are alike. -/
theorem Alike.block (hs : AlikeAll es es') : Alike (.block sp es) (.block sp' es') := by
  simp_all [AlikeAll, Alike]

/-- Groups of expressions that are alike are alike. -/
theorem Alike.group (h : a.Alike a') : Alike (.group sp a) (.group sp' a') := by
  simp_all [Alike]

/-- Signs before expressions that are alike are alike. -/
theorem Alike.unary (op : Unary) (h : a.Alike a') :
    Alike (.unary sp op a) (.unary sp' op a') := by
  simp_all [Alike]

/-- Steps of expressions that are alike are alike. -/
theorem Alike.update (step : Step) (after : Bool) (h : a.Alike a') :
    Alike (.update sp step after a) (.update sp' step after a') := by
  simp_all [Alike]

/-- Operations on expressions that are alike are alike. -/
theorem Alike.binary (op : Binary) (ha : a.Alike a') (hb : b.Alike b') :
    Alike (.binary sp op a b) (.binary sp' op a' b') := by
  simp_all [Alike]

/-- Assignments between expressions that are alike are alike. -/
theorem Alike.assign (mode : BindingMode) (ha : a.Alike a') (hb : b.Alike b') (hc : c.Alike c') :
    Alike (.assign sp a b c mode) (.assign sp' a' b' c' mode) := by
  simp_all [Alike]

/-- Calls of expressions that are alike are alike. -/
theorem Alike.call (ha : a.Alike a') (hs : AlikeAll es es') :
    Alike (.call sp a es) (.call sp' a' es') := by
  simp_all [AlikeAll, Alike]

/-- Branches without alternative between expressions that are alike are alike. -/
theorem Alike.branch (ha : a.Alike a') (hb : b.Alike b') :
    Alike (.branch sp a b none) (.branch sp' a' b' none) := by
  simp_all [Alike]

/-- Branches with an alternative between expressions that are alike are alike. -/
theorem Alike.branchElse (ha : a.Alike a') (hb : b.Alike b') (hc : c.Alike c') :
    Alike (.branch sp a b (some c)) (.branch sp' a' b' (some c')) := by
  simp_all [Alike]

/-- Loops under conditions that are alike are alike. -/
theorem Alike.whileLoop (ha : a.Alike a') (hb : b.Alike b') :
    Alike (.whileLoop sp a b) (.whileLoop sp' a' b') := by
  simp_all [Alike]

/-- Loops with a step between expressions that are alike are alike. -/
theorem Alike.forLoop (ha : a.Alike a') (hb : b.Alike b') (hc : c.Alike c') (hd : d.Alike d') :
    Alike (.forLoop sp a b c d) (.forLoop sp' a' b' c' d') := by
  simp_all [Alike]

/-- Loops over items with the same name are alike if their parts are. -/
theorem Alike.forEach (walk : Walk) {name : String} (hname : Token.isName name = true)
    (ha : a.Alike a') (hb : b.Alike b') :
    Alike (.forEach sp walk name a b) (.forEach sp' walk name a' b') := by
  simp_all [Alike]

/-- Elements of expressions that are alike are alike. -/
theorem Alike.index (ha : a.Alike a') (hb : b.Alike b') :
    Alike (.index sp a b) (.index sp' a' b') := by
  simp_all [Alike]

/-- Methods of the same name on expressions that are alike are alike. -/
theorem Alike.method {name : String} (hname : Token.isName name = true) (ha : a.Alike a')
    (hs : AlikeAll es es') : Alike (.method sp a name es) (.method sp' a' name es') := by
  simp_all [AlikeAll, Alike]

/-- Ranges between expressions that are alike are alike. -/
theorem Alike.range (inclusive : Bool) (ha : a.Alike a') (hb : b.Alike b') (hc : c.Alike c') :
    Alike (.range sp a b c inclusive) (.range sp' a' b' c' inclusive) := by
  simp_all [Alike]

/-- Shifts between expressions that are alike are alike. -/
theorem Alike.shift (ha : a.Alike a') (hb : b.Alike b') :
    Alike (.shift sp a b) (.shift sp' a' b') := by
  simp_all [Alike]

/-- Being alike goes both ways. -/
theorem Alike.symm (h : a.Alike b) : b.Alike a := ⟨h.1.symm, h.2.2, h.2.1⟩

/-- Only a name is like a name. -/
theorem Alike.of_identifier {name : String} (h : Alike (.identifier sp name) b) :
    Token.isName name = true ∧ ∃ sp', b = .identifier sp' name := by
  obtain ⟨herase, hname, -⟩ := h
  rw [every, legible, Bool.and_true] at hname
  refine ⟨hname, ?_⟩
  cases b with
  | branch _ _ _ failure => cases failure <;> simp at herase
  | _ => simp_all

/-- Only an assignment is like an assignment. -/
theorem Alike.of_assign {mode : BindingMode} (h : Alike (.assign sp a b c mode) d) :
    ∃ sp' a' b' c', d = .assign sp' a' b' c' mode ∧ a.Alike a' ∧ b.Alike b' ∧ c.Alike c' := by
  cases d with
  | branch _ _ _ failure => cases failure <;> simp [Alike] at h
  | assign sp' a' b' c' mode' =>
      refine ⟨sp', a', b', c', ?_⟩
      simp_all [Alike]
  | _ => simp [Alike] at h

end

/-! ## The symbolic form -/

/-- Whether a limit is the default does not depend on its place. -/
theorem isDefaultLimit_erase {e : Expr} (h : e.every legible = true) :
    e.erase.isDefaultLimit = e.isDefaultLimit := by
  cases e with
  | number span value =>
      simp only [every, legible, Bool.and_true, Bool.or_eq_true, Bool.not_eq_true'] at h
      simp only [erase, isDefaultLimit]
      obtain h | h := h
      · simp [h]
      · simp [h, Span.empty]
  | branch _ _ _ failure => cases failure <;> rfl
  | _ => rfl

mutual

/-- The symbolic form of a tree that a text can give does not depend on places. -/
theorem symbolic_erase (e : Expr) (h : e.every legible = true) :
    e.erase.symbolic = e.symbolic := by
  cases e with
  | number | boolean | null | string | character | identifier | control => rfl
  | list _ es | block _ es | function _ _ es _ =>
      simp only [every, Bool.and_eq_true] at h
      simp only [erase, symbolic, symbolicAll_eraseAll es h.2]
  | group _ a | unary _ _ a | update _ _ _ a =>
      simp only [every, Bool.and_eq_true] at h
      simp only [erase, symbolic, symbolic_erase a h.2]
  | binary _ _ a b | whileLoop _ a b | forEach _ _ _ a b | index _ a b | shift _ a b | pop _ a b =>
      simp only [every, Bool.and_eq_true] at h
      simp only [erase, symbolic, symbolic_erase a h.2.1, symbolic_erase b h.2.2]
  | range _ a b c _ | push _ a b c =>
      simp only [every, Bool.and_eq_true] at h
      simp only [erase, symbolic, symbolic_erase a h.2.1.1, symbolic_erase b h.2.1.2,
        symbolic_erase c h.2.2]
  | assign _ a b c _ =>
      simp only [every, Bool.and_eq_true] at h
      simp only [erase, symbolic, symbolic_erase a h.2.1.1, symbolic_erase b h.2.1.2,
        symbolic_erase c h.2.2, isDefaultLimit_erase h.2.2]
  | branch _ a b failure =>
      cases failure with
      | none =>
          simp only [every, Bool.and_eq_true] at h
          simp only [erase, symbolic, symbolic_erase a h.2.1, symbolic_erase b h.2.2]
      | some c =>
          simp only [every, Bool.and_eq_true] at h
          simp only [erase, symbolic, symbolic_erase a h.2.1.1, symbolic_erase b h.2.1.2,
            symbolic_erase c h.2.2]
  | forLoop _ a b c d =>
      simp only [every, Bool.and_eq_true] at h
      simp only [erase, symbolic, symbolic_erase a h.2.1.1.1, symbolic_erase b h.2.1.1.2,
        symbolic_erase c h.2.1.2, symbolic_erase d h.2.2]
  | call _ a es | method _ a _ es =>
      simp only [every, Bool.and_eq_true] at h
      simp only [erase, symbolic, symbolic_erase a h.2.1, symbolicAll_eraseAll es h.2.2]

/-- The symbolic forms of trees that a text can give do not depend on places. -/
theorem symbolicAll_eraseAll (es : List Expr) (h : everyAll legible es = true) :
    symbolicAll (eraseAll es) = symbolicAll es := by
  cases es with
  | nil => rfl
  | cons e rest =>
      simp only [everyAll, Bool.and_eq_true] at h
      simp only [eraseAll, symbolicAll, symbolic_erase e h.1, symbolicAll_eraseAll rest h.2]

end

/-- Trees that are alike have the same symbolic form. -/
theorem AlikeAll.symbolicAll_eq {es es' : List Expr} (h : AlikeAll es es') :
    symbolicAll es = symbolicAll es' := by
  rw [← symbolicAll_eraseAll es h.2.1, ← symbolicAll_eraseAll es' h.2.2, h.1]

end Expr

end ListScript
