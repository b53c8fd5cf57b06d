import Mathlib.Data.List.Forall2
import Mathlib.Logic.Function.Basic
import Lox.Report

/-!
# Programs that are alike

Two programs are alike if they have the same shape and differ only where running them cannot tell: in
the numbers of their references, in the places of their tokens, and in the names of local variables.

* `Renaming`: new names for the names of one frame, no two of them the same.
* `Likeness`: what may differ, and where. A reference is compared under the renamings of the scopes
  around it, the innermost first; these are its `keys`.
* `ExprLike`, `CodeLike`, `StmtLike` and the rest: **two trees are alike**, form by form.
* `*.mono`: what is alike stays so where more may differ.
-/

namespace Lox

/-! ## 1. Renamings -/

/-- New names for the names of a frame. No two names become one, and `this` stays. -/
structure Renaming where
  new : String → String
  injective : Function.Injective new
  this : new thisName = thisName

namespace Renaming

/-- Every name stays. -/
def same : Renaming := ⟨id, Function.injective_id, rfl⟩

@[simp] theorem same_new (n : String) : same.new n = n := rfl

theorem new_eq_iff (r : Renaming) {m n : String} : r.new m = r.new n ↔ m = n := r.injective.eq_iff

end Renaming

/-- The renaming of the innermost scope; outside all of them, names stay. -/
def innermost (keys : List Renaming) : Renaming := keys.headD .same

/-- The name of a reference, in the scope at the distance that is noted for it. Without one it means a
    global name, which stays. -/
def spelled (keys : List Renaming) (distance : Option Nat) (name : String) : String :=
  ((distance.bind fun d => keys[d]?).getD .same).new name

@[simp] theorem spelled_none (keys : List Renaming) (n : String) : spelled keys none n = n := rfl

/-! ## 2. What may differ -/

/-- Two tokens of one kind and spelling, at places that `P` relates. -/
structure TokenLike (P : Position → Position → Prop) (t t' : Token) : Prop where
  kind : t'.kind = t.kind
  lexeme : t'.lexeme = t.lexeme
  pos : P t.pos t'.pos

/-- Two tokens that stand for a name of a frame. -/
structure DeclaredLike (P : Position → Position → Prop) (r : Renaming) (t t' : Token) : Prop where
  kind : t'.kind = t.kind
  lexeme : t'.lexeme = r.new t.lexeme
  pos : P t.pos t'.pos

section Tokens

variable {P Q : Position → Position → Prop} {t t' : Token}

theorem TokenLike.declared (h : TokenLike P t t') : DeclaredLike P .same t t' :=
  ⟨h.kind, h.lexeme, h.pos⟩

theorem TokenLike.mono (h : TokenLike P t t') (hP : ∀ {p p'}, P p p' → Q p p') :
    TokenLike Q t t' := ⟨h.kind, h.lexeme, hP h.pos⟩

theorem DeclaredLike.mono {r : Renaming} (h : DeclaredLike P r t t')
    (hP : ∀ {p p'}, P p p' → Q p p') : DeclaredLike Q r t t' := ⟨h.kind, h.lexeme, hP h.pos⟩

end Tokens

/-- What may differ between two programs and between their runs. -/
structure Likeness where
  /-- How the names of a scope may be renamed. -/
  scope : Renaming → Prop
  /-- Which names may be declared. -/
  names : String → Prop
  /-- How references may differ, under the renamings of the scopes around them. -/
  ref : List Renaming → Reference → Reference → Prop
  /-- How the places of tokens may differ. -/
  pos : Position → Position → Prop
  /-- How the tokens may differ that an error calls undefined. -/
  undefined : Token → Token → Prop
  same : scope .same
  names_this : names thisName
  names_super : names superName
  pos_refl : ∀ p, pos p p
  undefined_token : ∀ {t t'}, TokenLike pos t t' → undefined t t'
  ref_pos : ∀ {keys r r'}, ref keys r r' → pos r.token.pos r'.token.pos
  ref_undefined : ∀ {keys r r'}, ref keys r r' → undefined r.token r'.token

namespace Likeness

/-- Two tokens of one kind and spelling. -/
abbrev Token (L : Likeness) : Lox.Token → Lox.Token → Prop := TokenLike L.pos

/-- Two tokens that declare a name of a frame. -/
structure Declared (L : Likeness) (r : Renaming) (t t' : Lox.Token) : Prop
    extends DeclaredLike L.pos r t t' where
  named : L.names t.lexeme

/-- In `L'` at least as much may differ as in `L`. -/
structure Within (L L' : Likeness) : Prop where
  scope : ∀ {r}, L.scope r → L'.scope r
  names : ∀ {n}, L.names n → L'.names n
  ref : ∀ {keys r r'}, L.ref keys r r' → L'.ref keys r r'
  pos : ∀ {p p'}, L.pos p p' → L'.pos p p'

theorem Within.refl (L : Likeness) : L.Within L := ⟨id, id, id, id⟩

theorem Declared.mono {L L' : Likeness} {r : Renaming} {t t' : Lox.Token} (h : L.Declared r t t')
    (hw : L.Within L') : L'.Declared r t t' :=
  ⟨h.toDeclaredLike.mono hw.pos, hw.names h.named⟩

end Likeness

/-! ## 3. Trees -/

/-- The renamings around a class: `super` has a frame of its own where there is a superclass. -/
def classKeys (superclass : Option Reference) (keys : List Renaming) : List Renaming :=
  match superclass with
  | none => keys
  | some _ => .same :: keys

section Trees

variable (L : Likeness)

/-- Two superclasses. -/
inductive SuperclassLike (keys : List Renaming) : Option Reference → Option Reference → Prop where
  | none : SuperclassLike keys none none
  | some {ref ref' : Reference} (h : L.ref keys ref ref') : SuperclassLike keys (some ref) (some ref')

mutual

/-- Two expressions. -/
inductive ExprLike : List Renaming → Expr → Expr → Prop where
  | literal {keys l} : ExprLike keys (.literal l) (.literal l)
  | group {keys e e'} (h : ExprLike keys e e') : ExprLike keys (.group e) (.group e')
  | unary {keys op op' e e'} (hop : L.Token op op') (h : ExprLike keys e e') :
      ExprLike keys (.unary op e) (.unary op' e')
  | binary {keys a a' op op' b b'} (ha : ExprLike keys a a') (hop : L.Token op op')
      (hb : ExprLike keys b b') : ExprLike keys (.binary a op b) (.binary a' op' b')
  | logical {keys a a' op op' b b'} (ha : ExprLike keys a a') (hop : L.Token op op')
      (hb : ExprLike keys b b') : ExprLike keys (.logical a op b) (.logical a' op' b')
  | conditional {keys c c' a a' b b'} (hc : ExprLike keys c c') (ha : ExprLike keys a a')
      (hb : ExprLike keys b b') : ExprLike keys (.conditional c a b) (.conditional c' a' b')
  | read {keys ref ref'} (h : L.ref keys ref ref') : ExprLike keys (.read ref) (.read ref')
  | assign {keys ref ref' e e'} (h : L.ref keys ref ref') (he : ExprLike keys e e') :
      ExprLike keys (.assign ref e) (.assign ref' e')
  | call {keys f f' paren paren' args args'} (hf : ExprLike keys f f')
      (hparen : L.Token paren paren') (hargs : ExprsLike keys args args') :
      ExprLike keys (.call f paren args) (.call f' paren' args')
  | get {keys o o' name name'} (ho : ExprLike keys o o') (hname : L.Token name name') :
      ExprLike keys (.get o name) (.get o' name')
  | set {keys o o' name name' e e'} (ho : ExprLike keys o o') (hname : L.Token name name')
      (he : ExprLike keys e e') : ExprLike keys (.set o name e) (.set o' name' e')
  | this {keys ref ref'} (h : L.ref keys ref ref') : ExprLike keys (.this ref) (.this ref')
  | super {keys ref ref' method method'} (h : L.ref keys ref ref')
      (hmethod : L.Token method method') :
      ExprLike keys (.super ref method) (.super ref' method')
  | lambda {keys c c'} (h : CodeLike keys c c') : ExprLike keys (.lambda c) (.lambda c')

/-- Two lists of expressions. -/
inductive ExprsLike : List Renaming → List Expr → List Expr → Prop where
  | nil {keys} : ExprsLike keys [] []
  | cons {keys e e' es es'} (h : ExprLike keys e e') (hs : ExprsLike keys es es') :
      ExprsLike keys (e :: es) (e' :: es')

/-- Two expressions that may be missing. -/
inductive OptionExprLike : List Renaming → Option Expr → Option Expr → Prop where
  | none {keys} : OptionExprLike keys none none
  | some {keys e e'} (h : ExprLike keys e e') : OptionExprLike keys (some e) (some e')

/-- Two functions: the parameters and the body share a scope. -/
inductive CodeLike : List Renaming → Code → Code → Prop where
  | mk {keys r params params' body body'} (hr : L.scope r)
      (hparams : List.Forall₂ (L.Declared r) params params')
      (hbody : StmtsLike (r :: keys) body body') :
      CodeLike keys (.mk params body) (.mk params' body')

/-- Two lists of methods. -/
inductive MethodsLike : List Renaming → List FunDecl → List FunDecl → Prop where
  | nil {keys} : MethodsLike keys [] []
  | cons {keys name name' code code' ms ms'} (hname : L.Token name name')
      (hcode : CodeLike keys code code') (hs : MethodsLike keys ms ms') :
      MethodsLike keys (.mk name code :: ms) (.mk name' code' :: ms')

/-- Two statements. The name of a function or a class stays, and `this` has a frame of its own around
    the methods. -/
inductive StmtLike : List Renaming → Stmt → Stmt → Prop where
  | expr {keys e e'} (h : ExprLike keys e e') : StmtLike keys (.expr e) (.expr e')
  | varDecl {keys name name' e e'} (hname : L.Declared (innermost keys) name name')
      (h : ExprLike keys e e') : StmtLike keys (.varDecl name e) (.varDecl name' e')
  | funDecl {keys name name' code code'} (hname : L.Token name name') (hnamed : L.names name.lexeme)
      (hstays : (innermost keys).new name.lexeme = name.lexeme) (hcode : CodeLike keys code code') :
      StmtLike keys (.funDecl (.mk name code)) (.funDecl (.mk name' code'))
  | classDecl {keys name name' superclass superclass' ms ms'} (hname : L.Token name name')
      (hnamed : L.names name.lexeme) (hstays : (innermost keys).new name.lexeme = name.lexeme)
      (hsuperclass : SuperclassLike L keys superclass superclass')
      (hmethods : MethodsLike (.same :: classKeys superclass keys) ms ms') :
      StmtLike keys (.classDecl name superclass ms) (.classDecl name' superclass' ms')
  | branch {keys c c' a a' b b'} (hc : ExprLike keys c c') (ha : StmtLike keys a a')
      (hb : OptionStmtLike keys b b') : StmtLike keys (.branch c a b) (.branch c' a' b')
  | whileLoop {keys c c' s s'} (hc : ExprLike keys c c') (hs : StmtLike keys s s') :
      StmtLike keys (.whileLoop c s) (.whileLoop c' s')
  | forLoop {keys r init init' c c' i i' s s'} (hr : L.scope r)
      (hinit : OptionStmtLike (r :: keys) init init') (hc : ExprLike (r :: keys) c c')
      (hi : OptionExprLike (r :: keys) i i') (hs : StmtLike (r :: keys) s s') :
      StmtLike keys (.forLoop init c i s) (.forLoop init' c' i' s')
  | block {keys r body body'} (hr : L.scope r) (h : StmtsLike (r :: keys) body body') :
      StmtLike keys (.block body) (.block body')
  | ret {keys k k' e e'} (hk : L.Token k k') (h : OptionExprLike keys e e') :
      StmtLike keys (.ret k e) (.ret k' e')
  | leave {keys k k'} (hk : L.Token k k') : StmtLike keys (.leave k) (.leave k')
  | next {keys k k'} (hk : L.Token k k') : StmtLike keys (.next k) (.next k')

/-- Two statements that may be missing. -/
inductive OptionStmtLike : List Renaming → Option Stmt → Option Stmt → Prop where
  | none {keys} : OptionStmtLike keys none none
  | some {keys s s'} (h : StmtLike keys s s') : OptionStmtLike keys (some s) (some s')

/-- Two lists of statements. -/
inductive StmtsLike : List Renaming → List Stmt → List Stmt → Prop where
  | nil {keys} : StmtsLike keys [] []
  | cons {keys s s' ss ss'} (h : StmtLike keys s s') (hs : StmtsLike keys ss ss') :
      StmtsLike keys (s :: ss) (s' :: ss')

end

end Trees

theorem ExprsLike.length_eq {L : Likeness} {keys : List Renaming} {es es' : List Expr} :
    ExprsLike L keys es es' → es'.length = es.length
  | .nil => rfl
  | .cons _ hs => congrArg (· + 1) hs.length_eq

/-! ## 4. More may differ -/

section Mono

variable {L L' : Likeness}

theorem SuperclassLike.mono {keys : List Renaming} {c c' : Option Reference} (hw : L.Within L') :
    SuperclassLike L keys c c' → SuperclassLike L' keys c c'
  | .none => .none
  | .some h => .some (hw.ref h)

mutual

theorem ExprLike.mono {keys : List Renaming} {e e' : Expr} (hw : L.Within L') :
    ExprLike L keys e e' → ExprLike L' keys e e'
  | .literal => .literal
  | .group h => .group (h.mono hw)
  | .unary hop h => .unary (hop.mono hw.pos) (h.mono hw)
  | .binary ha hop hb => .binary (ha.mono hw) (hop.mono hw.pos) (hb.mono hw)
  | .logical ha hop hb => .logical (ha.mono hw) (hop.mono hw.pos) (hb.mono hw)
  | .conditional hc ha hb => .conditional (hc.mono hw) (ha.mono hw) (hb.mono hw)
  | .read h => .read (hw.ref h)
  | .assign h he => .assign (hw.ref h) (he.mono hw)
  | .call hf hparen hargs => .call (hf.mono hw) (hparen.mono hw.pos) (hargs.mono hw)
  | .get ho hname => .get (ho.mono hw) (hname.mono hw.pos)
  | .set ho hname he => .set (ho.mono hw) (hname.mono hw.pos) (he.mono hw)
  | .this h => .this (hw.ref h)
  | .super h hmethod => .super (hw.ref h) (hmethod.mono hw.pos)
  | .lambda h => .lambda (h.mono hw)

theorem ExprsLike.mono {keys : List Renaming} {es es' : List Expr} (hw : L.Within L') :
    ExprsLike L keys es es' → ExprsLike L' keys es es'
  | .nil => .nil
  | .cons h hs => .cons (h.mono hw) (hs.mono hw)

theorem OptionExprLike.mono {keys : List Renaming} {e e' : Option Expr} (hw : L.Within L') :
    OptionExprLike L keys e e' → OptionExprLike L' keys e e'
  | .none => .none
  | .some h => .some (h.mono hw)

theorem CodeLike.mono {keys : List Renaming} {c c' : Code} (hw : L.Within L') :
    CodeLike L keys c c' → CodeLike L' keys c c'
  | .mk hr hparams hbody => .mk (hw.scope hr) (hparams.imp fun _ _ h => h.mono hw) (hbody.mono hw)

theorem MethodsLike.mono {keys : List Renaming} {ms ms' : List FunDecl} (hw : L.Within L') :
    MethodsLike L keys ms ms' → MethodsLike L' keys ms ms'
  | .nil => .nil
  | .cons hname hcode hs => .cons (hname.mono hw.pos) (hcode.mono hw) (hs.mono hw)

theorem StmtLike.mono {keys : List Renaming} {s s' : Stmt} (hw : L.Within L') :
    StmtLike L keys s s' → StmtLike L' keys s s'
  | .expr h => .expr (h.mono hw)
  | .varDecl hname h => .varDecl (hname.mono hw) (h.mono hw)
  | .funDecl hname hnamed hstays hcode =>
    .funDecl (hname.mono hw.pos) (hw.names hnamed) hstays (hcode.mono hw)
  | .classDecl hname hnamed hstays hsuperclass hmethods =>
    .classDecl (hname.mono hw.pos) (hw.names hnamed) hstays (hsuperclass.mono hw) (hmethods.mono hw)
  | .branch hc ha hb => .branch (hc.mono hw) (ha.mono hw) (hb.mono hw)
  | .whileLoop hc hs => .whileLoop (hc.mono hw) (hs.mono hw)
  | .forLoop hr hinit hc hi hs =>
    .forLoop (hw.scope hr) (hinit.mono hw) (hc.mono hw) (hi.mono hw) (hs.mono hw)
  | .block hr h => .block (hw.scope hr) (h.mono hw)
  | .ret hk h => .ret (hk.mono hw.pos) (h.mono hw)
  | .leave hk => .leave (hk.mono hw.pos)
  | .next hk => .next (hk.mono hw.pos)

theorem OptionStmtLike.mono {keys : List Renaming} {s s' : Option Stmt} (hw : L.Within L') :
    OptionStmtLike L keys s s' → OptionStmtLike L' keys s s'
  | .none => .none
  | .some h => .some (h.mono hw)

theorem StmtsLike.mono {keys : List Renaming} {ss ss' : List Stmt} (hw : L.Within L') :
    StmtsLike L keys ss ss' → StmtsLike L' keys ss ss'
  | .nil => .nil
  | .cons h hs => .cons (h.mono hw) (hs.mono hw)

end

end Mono

/-! ## 5. Programs whose names stay -/

/-- How places may differ. They need not. -/
structure Shift where
  rel : Position → Position → Prop
  refl : ∀ p, rel p p

/-- Places do not differ. -/
def Shift.none : Shift := ⟨fun p p' => p' = p, fun _ => rfl⟩

/-- Two references with numbers that `ids` relates. -/
structure RefLike (ids : Nat → Nat → Prop) (shift : Shift) (ref ref' : Reference) : Prop where
  ids : ids ref.id.index ref'.id.index
  token : TokenLike shift.rel ref.token ref'.token

/-- Only the numbers of references and the places of tokens may differ. -/
def Likeness.plain (ids : Nat → Nat → Prop) (shift : Shift) : Likeness where
  scope r := r = .same
  names _ := True
  ref keys ref ref' := (∀ r ∈ keys, r = .same) ∧ RefLike ids shift ref ref'
  pos := shift.rel
  undefined := TokenLike shift.rel
  same := rfl
  names_this := trivial
  names_super := trivial
  pos_refl := shift.refl
  undefined_token := id
  ref_pos h := h.2.token.pos
  ref_undefined h := h.2.token

theorem Likeness.plain_within {ids ids' : Nat → Nat → Prop} {shift shift' : Shift}
    (hids : ∀ {i i'}, ids i i' → ids' i i') (hshift : ∀ {p p'}, shift.rel p p' → shift'.rel p p') :
    (Likeness.plain ids shift).Within (.plain ids' shift') :=
  ⟨id, id, fun h => ⟨h.1, hids h.2.ids, h.2.token.mono hshift⟩, hshift⟩

end Lox
