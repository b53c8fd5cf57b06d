import Lox.Proofs.Decimal.Layout
import Lox.Proofs.Listing.Forms
import Lox.Proofs.Token.Words

/-!
# Trees read from forms

Which tree a form lists. Nothing in a listing tells the places of tokens and the numbers of
references, so what is read has none.

* `Expr.bare`, `Stmt.bare`: a tree without places and numbers.
* `number?`: the number that a word is the listing of.
* `Form.expr?`, `Form.stmt?`: **the tree that a form lists.** The head of a form says what it is, and the
  number of its parts tells a sign from an operator between two operands.
-/

namespace Lox

/-! ## 1. Trees without places -/

/-- A token that stands nowhere. -/
def unplaced (kind : Token.Kind) (lexeme : String) : Token := ⟨kind, lexeme, ⟨0, 0⟩⟩

/-- A token without its place. -/
def Token.bare (t : Token) : Token := unplaced t.kind t.lexeme

/-- A reference without its number. -/
def Reference.bare (r : Reference) : Reference := ⟨⟨0⟩, r.token.bare⟩

mutual

/-- **An expression without places and numbers.** -/
def Expr.bare : Expr → Expr
  | .literal l => .literal l
  | .group inner => .group inner.bare
  | .unary op operand => .unary op.bare operand.bare
  | .binary left op right => .binary left.bare op.bare right.bare
  | .logical left op right => .logical left.bare op.bare right.bare
  | .conditional condition yes no => .conditional condition.bare yes.bare no.bare
  | .read ref => .read ref.bare
  | .assign ref value => .assign ref.bare value.bare
  | .call callee paren args => .call callee.bare paren.bare (exprsBare args)
  | .get object name => .get object.bare name.bare
  | .set object name value => .set object.bare name.bare value.bare
  | .this ref => .this ref.bare
  | .super ref method => .super ref.bare method.bare
  | .lambda code => .lambda code.bare

/-- Expressions without places and numbers. -/
def exprsBare : List Expr → List Expr
  | [] => []
  | e :: rest => e.bare :: exprsBare rest

/-- A function without places and numbers. -/
def Code.bare : Code → Code
  | .mk params body => .mk (params.map Token.bare) (stmtsBare body)

/-- A function with its name, without places and numbers. -/
def FunDecl.bare : FunDecl → FunDecl
  | .mk name code => .mk name.bare code.bare

/-- Functions with their names, without places and numbers. -/
def funDeclsBare : List FunDecl → List FunDecl
  | [] => []
  | d :: rest => d.bare :: funDeclsBare rest

/-- **A statement without places and numbers.** -/
def Stmt.bare : Stmt → Stmt
  | .expr e => .expr e.bare
  | .varDecl name init => .varDecl name.bare init.bare
  | .funDecl decl => .funDecl decl.bare
  | .classDecl name superclass methods =>
    .classDecl name.bare (superclass.map Reference.bare) (funDeclsBare methods)
  | .branch condition yes no => .branch condition.bare yes.bare (optionBare no)
  | .whileLoop condition body => .whileLoop condition.bare body.bare
  | .forLoop init condition increment body =>
    .forLoop (optionBare init) condition.bare (optionExprBare increment) body.bare
  | .block body => .block (stmtsBare body)
  | .ret keyword value => .ret keyword.bare (optionExprBare value)
  | .leave keyword => .leave keyword.bare
  | .next keyword => .next keyword.bare

/-- Statements without places and numbers. -/
def stmtsBare : List Stmt → List Stmt
  | [] => []
  | s :: rest => s.bare :: stmtsBare rest

/-- A statement that may be missing, without places and numbers. -/
def optionBare : Option Stmt → Option Stmt
  | none => none
  | some s => some s.bare

/-- An expression that may be missing, without places and numbers. -/
def optionExprBare : Option Expr → Option Expr
  | none => none
  | some e => some e.bare

end

/-! ## 2. Words -/

/-- A double that is neither infinite nor no number. -/
def IsFinite (x : Float) : Prop := ∃ negative m q, Decimal.parts x = .finite negative m q

open Classical in
/-- **The number that a word lists.** -/
noncomputable def number? (word : String) : Option Float :=
  if h : ∃ x, IsFinite x ∧ listedNumber x = word then some h.choose else none

/-- What a word lists: a literal, `this` or a name. -/
noncomputable def leafOf (word : String) : Expr :=
  match Token.Kind.ofWord word with
  | .kwTrue => .literal (.bool true)
  | .kwFalse => .literal (.bool false)
  | .kwNil => .literal .nil
  | .kwThis => .this ⟨⟨0⟩, unplaced .kwThis word⟩
  | _ =>
    match number? word with
    | some x => .literal (.number x)
    | none => .read ⟨⟨0⟩, unplaced .identifier word⟩

/-- The operator that is spelled as a word. -/
def operator? (word : String) : Option Token :=
  (Token.spellings.find? fun s => s.2 == word).map fun s => unplaced s.1 word

/-- A character of a number. -/
def isFigure (c : Char) : Bool := Decimal.isPlain c || c == '-'

theorem notLetter_of_figure {c : Char} (h : isFigure c = true) : (c.isAlpha || c == '_') = false := by
  rw [isFigure, Decimal.isPlain, Bool.or_eq_true, Bool.or_eq_true, beq_iff_eq, beq_iff_eq] at h
  rcases h with (hdigit | rfl) | rfl
  · simp only [Char.isDigit, Bool.and_eq_true, decide_eq_true_eq, UInt32.le_iff_toNat_le] at hdigit
    have hne : c ≠ '_' := by
      rintro rfl
      revert hdigit
      decide
    simp only [Char.isAlpha, Char.isUpper, Char.isLower, Bool.or_eq_false_iff, Bool.and_eq_false_iff,
      decide_eq_false_iff_not, UInt32.le_iff_toNat_le, beq_eq_false_iff_ne]
    have hle : c.val.toNat ≤ 57 := hdigit.2
    have hupper : 'A'.val.toNat = 65 := rfl
    have hlower : 'a'.val.toNat = 97 := rfl
    exact ⟨⟨by omega, by omega⟩, hne⟩
  · rfl
  · rfl

/-- **The listing of a number** is a word of figures. -/
theorem listedNumber_figures {x : Float} (hx : IsFinite x) :
    (listedNumber x).toList ≠ [] ∧ ∀ c ∈ (listedNumber x).toList, isFigure c = true := by
  obtain ⟨negative, m, q, hparts⟩ := hx
  obtain ⟨cs, htext, hw⟩ := Decimal.text_written negative (Decimal.canonical_of_parts hparts)
  rw [listedNumber, hparts, htext, String.toList_ofList]
  have hplain : ∀ c ∈ cs, isFigure c = true := fun c hc => by
    rw [isFigure, hw.plain c hc, Bool.true_or]
  cases negative with
  | false => exact ⟨hw.ne_nil, hplain⟩
  | true => exact ⟨List.cons_ne_nil _ _, List.forall_mem_cons.mpr ⟨rfl, hplain⟩⟩

theorem listedNumber_isWord {x : Float} (hx : IsFinite x) : IsWord (listedNumber x) :=
  ⟨(listedNumber_figures hx).1, fun c hc =>
    notSeparator_of_class isFigure rfl rfl rfl ((listedNumber_figures hx).2 c hc)⟩

/-- No two numbers are listed alike. -/
theorem listedNumber_injective {x y : Float} (hx : IsFinite x) (hy : IsFinite y)
    (h : listedNumber x = listedNumber y) : x = y := by
  obtain ⟨negative, m, q, hparts⟩ := hx
  obtain ⟨negative', m', q', hparts'⟩ := hy
  have htext : Decimal.text ['.', '0'] (.finite negative m q)
      = Decimal.text ['.', '0'] (.finite negative' m' q') := by
    rw [← hparts, ← hparts']
    exact String.ofList_injective h
  refine Decimal.parts_injective (fun hnan => nomatch hparts.symm.trans hnan) ?_
  rw [hparts, hparts']
  exact Decimal.text_injective (Decimal.canonical_of_parts hparts) (Decimal.canonical_of_parts hparts')
    htext

theorem number?_listedNumber {x : Float} (hx : IsFinite x) : number? (listedNumber x) = some x := by
  have h : ∃ y, IsFinite y ∧ listedNumber y = listedNumber x := ⟨x, hx, rfl⟩
  rw [number?, dif_pos h]
  exact congrArg some (listedNumber_injective h.choose_spec.1 hx h.choose_spec.2)

/-- A word that starts with a letter is not the listing of a number. -/
theorem number?_eq_none {c : Char} {rest : List Char} {word : String} (hw : word.toList = c :: rest)
    (hc : (c.isAlpha || c == '_') = true) : number? word = none := by
  refine dif_neg ?_
  rintro ⟨x, hx, rfl⟩
  have hfigure := (listedNumber_figures hx).2 c (hw ▸ List.mem_cons_self)
  rw [notLetter_of_figure hfigure] at hc
  cases hc

theorem ofWord_listedNumber {x : Float} (hx : IsFinite x) :
    Token.Kind.ofWord (listedNumber x) = .identifier := by
  by_contra hk
  have hletters : ∀ w ∈ Token.keywords, ∀ c ∈ w.1.toList, (c.isAlpha || c == '_') = true := by
    simp [Token.keywords]
  obtain ⟨c, rest, hc⟩ := List.exists_cons_of_ne_nil (listedNumber_figures hx).1
  have hmem : c ∈ (listedNumber x).toList := hc ▸ List.mem_cons_self
  have hletter := hletters _ (Token.mem_keywords rfl hk) c hmem
  rw [notLetter_of_figure ((listedNumber_figures hx).2 c hmem)] at hletter
  cases hletter

theorem leafOf_listedNumber {x : Float} (hx : IsFinite x) :
    leafOf (listedNumber x) = .literal (.number x) := by
  rw [leafOf, ofWord_listedNumber hx]
  dsimp only
  rw [number?_listedNumber hx]

namespace Token.IsName

variable {name : String}

theorem isWord (h : IsName name) : IsWord name := by
  refine ⟨fun hnil => ?_, fun c hc => ?_⟩
  · obtain ⟨c, rest, hcons, -⟩ := h.head
    cases hnil.symm.trans hcons
  · exact notSeparator_of_class (fun c => c.isAlphanum || c == '_') rfl rfl rfl (h.inside c hc)

theorem leafOf (h : IsName name) : leafOf name = .read ⟨⟨0⟩, unplaced .identifier name⟩ := by
  obtain ⟨c, rest, hcons, hc⟩ := h.head
  rw [Lox.leafOf, h.identifier]
  dsimp only
  rw [number?_eq_none hcons hc]

end Token.IsName

/-- **A word that is the one spelling of a kind** is read as this kind. -/
theorem operator?_spelled {k : Token.Kind} {word : String} (h : (k, word) ∈ Token.spellings) :
    operator? word = some (unplaced k word) := by
  have hall : ∀ s ∈ Token.spellings, operator? s.2 = some (unplaced s.1 s.2) := by decide
  exact hall _ h

/-! ## 3. Forms -/

/-- What a head makes of one part. -/
def alone? : String → Expr → Option Expr
  | "group", e => some (.group e)
  | "super", .read m => some (.super ⟨⟨0⟩, unplaced .kwSuper "super"⟩ m.token)
  | op, e => (operator? op).map fun op => .unary op e

/-- What a head makes of two parts. -/
def joined? : String → Expr → Expr → Option Expr
  | ".", o, .read n => some (.get o n.token)
  | "=", .read r, v => some (.assign r v)
  | "=", .get o n, v => some (.set o n v)
  | "or", l, r => some (.logical l (unplaced .kwOr "or") r)
  | "and", l, r => some (.logical l (unplaced .kwAnd "and") r)
  | op, l, r => (operator? op).map fun op => .binary l op r

/-- **The expression that a head makes of its parts.** -/
def compose? : String → List Expr → Option Expr
  | "call", callee :: args => some (.call callee (unplaced .rightParen ")") args)
  | "cond", [condition, yes, no] => some (.conditional condition yes no)
  | head, [e] => alone? head e
  | head, [l, r] => joined? head l r
  | _, _ => none

/-- The name that a form is. -/
def Form.name? : Form → Option Token
  | .leaf w => some (unplaced .identifier w.text)
  | .node _ => none

/-- The superclass behind the name of a class: there is one where a word stands. -/
def superclass? : List Form → Option Reference
  | .leaf _ :: f :: _ => f.name?.map fun t => ⟨⟨0⟩, t⟩
  | _ => none

/-- Whether a form is a word. -/
def Form.isLeaf : Form → Bool
  | .leaf _ => true
  | .node _ => false

/-- What a form lists that may be missing: the form without parts lists that nothing is there. -/
def Form.orNothing {α : Type} (f : Form) (listed : Option α) : Option (Option α) :=
  match f with
  | .node [] => some none
  | _ => listed.map some

mutual

/-- **The expression that a form lists.** -/
noncomputable def Form.expr? : Form → Option Expr
  | .leaf w => some (leafOf w.text)
  | .node (.leaf head :: parts) =>
    if head.text = "fun" then
      (code? parts).map .lambda
    else
      (exprs? parts).bind (compose? head.text)
  | .node _ => none

/-- The expressions that forms list. -/
noncomputable def exprs? : List Form → Option (List Expr)
  | [] => some []
  | f :: rest => return (← f.expr?) :: (← exprs? rest)

/-- The function that its parameters and its statements list. -/
noncomputable def code? : List Form → Option Code
  | .node params :: body => return .mk (← params.mapM Form.name?) (← stmts? body)
  | _ => none

/-- The function that a form lists with its name. -/
noncomputable def Form.funDecl? : Form → Option FunDecl
  | .node (_ :: name :: code) => return .mk (← name.name?) (← code? code)
  | _ => none

/-- The methods behind the name of a class. Words there are about its superclass. -/
noncomputable def methods? : List Form → Option (List FunDecl)
  | [] => some []
  | f :: rest => if f.isLeaf then methods? rest else return (← f.funDecl?) :: (← methods? rest)

/-- **The statement that a form lists.** -/
noncomputable def Form.stmt? : Form → Option Stmt
  | .node (.leaf head :: parts) =>
    match head.text, parts with
    | ";", [e] => return .expr (← e.expr?)
    | "var", [name, init] => return .varDecl (← name.name?) (← init.expr?)
    | "fun", name :: code => return .funDecl (.mk (← name.name?) (← code? code))
    | "class", name :: rest =>
      return .classDecl (← name.name?) (superclass? rest) (← methods? rest)
    | "if", [condition, yes] => return .branch (← condition.expr?) (← yes.stmt?) none
    | "if", [condition, yes, no] =>
      return .branch (← condition.expr?) (← yes.stmt?) (some (← no.stmt?))
    | "while", [condition, body] => return .whileLoop (← condition.expr?) (← body.stmt?)
    | "for", [init, condition, increment, body] =>
      return .forLoop (← init.orNothing init.stmt?) (← condition.expr?)
        (← increment.orNothing increment.expr?) (← body.stmt?)
    | "block", body => return .block (← stmts? body)
    | "return", [] => some (.ret (unplaced .kwReturn "return") none)
    | "return", [value] => return .ret (unplaced .kwReturn "return") (some (← value.expr?))
    | "break", [] => some (.leave (unplaced .kwBreak "break"))
    | "continue", [] => some (.next (unplaced .kwContinue "continue"))
    | _, _ => none
  | _ => none

/-- The statements that forms list. -/
noncomputable def stmts? : List Form → Option (List Stmt)
  | [] => some []
  | f :: rest => return (← f.stmt?) :: (← stmts? rest)

end

/-! ## 4. What is read, form by form -/

/-- The form with a head and parts. -/
def headed (head : String) (h : IsWord head) (parts : List Form) : Form :=
  .node (.leaf ⟨head, h⟩ :: parts)

section Readings

variable (e f g k : Form) (parts rest : List Form) {head : String}

theorem expr?_headed (h : IsWord head) (hfun : head ≠ "fun") :
    (headed head h parts).expr? = (exprs? parts).bind (compose? head) := if_neg hfun

theorem expr?_fun (h : IsWord "fun") : (headed "fun" h parts).expr? = (code? parts).map .lambda := rfl

@[simp] theorem exprs?_nil : exprs? [] = some [] := rfl

@[simp] theorem exprs?_cons : exprs? (f :: rest) = do return (← f.expr?) :: (← exprs? rest) := rfl

@[simp] theorem stmts?_nil : stmts? [] = some [] := rfl

@[simp] theorem stmts?_cons : stmts? (f :: rest) = do return (← f.stmt?) :: (← stmts? rest) := rfl

@[simp] theorem code?_node : code? (.node parts :: rest)
    = do return .mk (← parts.mapM Form.name?) (← stmts? rest) := rfl

@[simp] theorem funDecl?_headed (h : IsWord head) : (headed head h (f :: rest)).funDecl?
    = do return .mk (← f.name?) (← code? rest) := rfl

@[simp] theorem methods?_nil : methods? [] = some [] := rfl

@[simp] theorem methods?_leaf (w : Leaf) : methods? (.leaf w :: rest) = methods? rest := rfl

@[simp] theorem methods?_headed (h : IsWord head) : methods? (headed head h parts :: rest)
    = do return (← (headed head h parts).funDecl?) :: (← methods? rest) := rfl

@[simp] theorem stmt?_expr (h : IsWord ";") :
    (headed ";" h [f]).stmt? = do return .expr (← f.expr?) := rfl

@[simp] theorem stmt?_var (h : IsWord "var") :
    (headed "var" h [f, g]).stmt? = do return .varDecl (← f.name?) (← g.expr?) := rfl

@[simp] theorem stmt?_fun (h : IsWord "fun") : (headed "fun" h (f :: rest)).stmt?
    = do return .funDecl (.mk (← f.name?) (← code? rest)) := rfl

@[simp] theorem stmt?_class (h : IsWord "class") : (headed "class" h (f :: rest)).stmt?
    = do return .classDecl (← f.name?) (superclass? rest) (← methods? rest) := rfl

@[simp] theorem stmt?_if (h : IsWord "if") :
    (headed "if" h [f, g]).stmt? = do return .branch (← f.expr?) (← g.stmt?) none := rfl

@[simp] theorem stmt?_ifElse (h : IsWord "if") : (headed "if" h [f, g, k]).stmt?
    = do return .branch (← f.expr?) (← g.stmt?) (some (← k.stmt?)) := rfl

@[simp] theorem stmt?_while (h : IsWord "while") :
    (headed "while" h [f, g]).stmt? = do return .whileLoop (← f.expr?) (← g.stmt?) := rfl

@[simp] theorem stmt?_for (h : IsWord "for") : (headed "for" h [e, f, g, k]).stmt?
    = do return .forLoop (← e.orNothing e.stmt?) (← f.expr?) (← g.orNothing g.expr?) (← k.stmt?) := rfl

@[simp] theorem stmt?_block (h : IsWord "block") :
    (headed "block" h parts).stmt? = do return .block (← stmts? parts) := rfl

@[simp] theorem stmt?_return (h : IsWord "return") :
    (headed "return" h []).stmt? = some (.ret (unplaced .kwReturn "return") none) := rfl

@[simp] theorem stmt?_returnValue (h : IsWord "return") : (headed "return" h [f]).stmt?
    = do return .ret (unplaced .kwReturn "return") (some (← f.expr?)) := rfl

@[simp] theorem stmt?_break (h : IsWord "break") :
    (headed "break" h []).stmt? = some (.leave (unplaced .kwBreak "break")) := rfl

@[simp] theorem stmt?_continue (h : IsWord "continue") :
    (headed "continue" h []).stmt? = some (.next (unplaced .kwContinue "continue")) := rfl

end Readings

end Lox
