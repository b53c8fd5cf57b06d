import Lox.Proofs.Grammar.Reads
import Lox.Proofs.Likeness.Trees

/-!
# Tokens that are alike parse alike

The parser looks at the kinds of tokens and at nothing else. So tokens that differ in their places only
parse to programs that are alike, with like complaints, whichever number the first reference gets.

* `numbered k k' shift c`: references that have the same number counted from `k` and from `k'`, and were
  numbered before the count came to `c`.
* `ParsesLike`: **two parses**. From cursors that are alike they lead to cursors and outcomes that are
  alike. What is alike stays so while the count grows.
* Then one lemma for each step of the parser and for each rule; `parse_like` is the result.
-/

namespace Lox.Syntax

/-! ## 1. Two parses -/

/-- References that have the same number, counted from `k` and from `k'`, below `c`. -/
def numbered (k k' : Nat) (shift : Shift) (c : Nat) : Likeness :=
  .plain (fun i i' => ∃ j, i = k + j ∧ i' = k' + j ∧ i < c) shift

variable {k k' c c' : Nat} {shift : Shift} {α β : Type}

theorem numbered_within (h : c ≤ c') : (numbered k k' shift c).Within (numbered k k' shift c') :=
  Likeness.plain_within (fun ⟨j, hi, hi', hc⟩ => ⟨j, hi, hi', Nat.lt_of_lt_of_le hc h⟩) id

/-- Two complaints. -/
structure SyntaxErrorLike (shift : Shift) (e e' : SyntaxError) : Prop where
  complaint : e'.complaint = e.complaint
  token : TokenLike shift.rel e.token e'.token

/-- Two cursors, after as many references from `k` and from `k'` on. -/
structure CursorLike (k k' : Nat) (shift : Shift) (s s' : Cursor) : Prop where
  ahead : List.Forall₂ (TokenLike shift.rel) s.ahead s'.ahead
  eof : TokenLike shift.rel s.eof s'.eof
  ids : ∃ j, s.nextId = k + j ∧ s'.nextId = k' + j
  errors : List.Forall₂ (SyntaxErrorLike shift) s.errors s'.errors

/-- What two parses come to. -/
inductive ResultLike (shift : Shift) (V : α → α → Prop) :
    Except Failure α → Except Failure α → Prop where
  | ok {a a'} (h : V a a') : ResultLike shift V (.ok a) (.ok a')
  | error {e e'} (h : SyntaxErrorLike shift e e') :
      ResultLike shift V (.error (.error e)) (.error (.error e'))
  | starved : ResultLike shift V (.error .starved) (.error .starved)

/-- **Two parses**, where the count is `c` or more. What `V` says about their results may depend on the
    count behind them. -/
def ParsesLike (k k' : Nat) (shift : Shift) (c : Nat) (V : Nat → α → α → Prop)
    (p p' : Parse α) : Prop :=
  ∀ s s', CursorLike k k' shift s s' → c ≤ s.nextId → s.nextId ≤ (p.run s).2.nextId ∧
    CursorLike k k' shift (p.run s).2 (p'.run s').2 ∧
    ResultLike shift (V (p.run s).2.nextId) (p.run s).1 (p'.run s').1

/-- Two trees, wherever they stand in a program whose names all stay. -/
def Home (k k' : Nat) (shift : Shift) (R : Likeness → List Renaming → α → α → Prop) (c : Nat)
    (a a' : α) : Prop :=
  ∀ keys : List Renaming, (∀ r ∈ keys, r = .same) → R (numbered k k' shift c) keys a a'

/-- Two references. -/
abbrev RefHome (k k' : Nat) (shift : Shift) : Nat → Reference → Reference → Prop :=
  Home k k' shift Likeness.ref

theorem Home.later {R : Likeness → List Renaming → α → α → Prop} {a a' : α}
    (h : Home k k' shift R c a a') (hc : c ≤ c')
    (hR : ∀ {L L' : Likeness} {keys}, L.Within L' → R L keys a a' → R L' keys a a') :
    Home k k' shift R c' a a' := fun keys hkeys => hR (numbered_within hc) (h keys hkeys)

theorem same_cons {keys : List Renaming} (h : ∀ r ∈ keys, r = .same) :
    ∀ r ∈ Renaming.same :: keys, r = .same := List.forall_mem_cons.mpr ⟨rfl, h⟩

theorem innermost_same {keys : List Renaming} (h : ∀ r ∈ keys, r = .same) :
    innermost keys = .same := by
  cases keys with
  | nil => rfl
  | cons r _ => exact h r List.mem_cons_self

namespace ParsesLike

variable {V : Nat → α → α → Prop} {W : Nat → β → β → Prop} {p p' : Parse α}

theorem pure {a a' : α} (h : ∀ c', c ≤ c' → V c' a a') :
    ParsesLike k k' shift c V (Pure.pure a) (Pure.pure a') :=
  fun s _ hs hc => ⟨Nat.le_refl _, hs, .ok (h s.nextId hc)⟩

theorem starve : ParsesLike k k' shift c V starve starve :=
  fun _ _ hs _ => ⟨Nat.le_refl _, hs, .starved⟩

/-- **One parse after another.** -/
theorem bind {f f' : α → Parse β} (hp : ParsesLike k k' shift c V p p')
    (hf : ∀ c' a a', c ≤ c' → V c' a a' → ParsesLike k k' shift c' W (f a) (f' a')) :
    ParsesLike k k' shift c W (p >>= f) (p' >>= f') := by
  intro s s' hs hc
  obtain ⟨hle, hs₁, hr⟩ := hp s s' hs hc
  rw [run_bind, run_bind]
  generalize p.run s = o, p'.run s' = o' at hle hs₁ hr ⊢
  obtain ⟨r, s₁⟩ := o
  obtain ⟨r', s₁'⟩ := o'
  cases hr with
  | ok hv =>
    obtain ⟨hle₂, hrest⟩ := hf s₁.nextId _ _ (Nat.le_trans hc hle) hv s₁ s₁' hs₁ (Nat.le_refl _)
    exact ⟨Nat.le_trans hle hle₂, hrest⟩
  | error he => exact ⟨hle, hs₁, .error he⟩
  | starved => exact ⟨hle, hs₁, .starved⟩

theorem map {f f' : α → β} (hp : ParsesLike k k' shift c V p p')
    (h : ∀ c' a a', V c' a a' → ∀ c'', c' ≤ c'' → W c'' (f a) (f' a')) :
    ParsesLike k k' shift c W (f <$> p) (f' <$> p') := by
  rw [map_eq_pure_bind, map_eq_pure_bind]
  exact hp.bind fun c' a a' _ hv => .pure (h c' a a' hv)

end ParsesLike

/-! ## 2. Single steps -/

/-- Two tokens that may be missing. -/
abbrev OptionTokenLike (shift : Shift) (_ : Nat) : Option Token → Option Token → Prop :=
  Option.Rel (TokenLike shift.rel)

theorem peek_like : ParsesLike k k' shift c (fun _ => TokenLike shift.rel) peek peek := by
  intro s s' hs _
  refine ⟨Nat.le_refl _, hs, .ok ?_⟩
  have hahead := hs.ahead
  show TokenLike shift.rel (s.ahead.head?.getD s.eof) (s'.ahead.head?.getD s'.eof)
  generalize s.ahead = ts, s'.ahead = ts' at hahead ⊢
  cases hahead with
  | nil => exact hs.eof
  | cons ht _ => exact ht

theorem atEnd_like : ParsesLike k k' shift c (fun _ b b' => b' = b) atEnd atEnd := by
  intro s s' hs _
  refine ⟨Nat.le_refl _, hs, .ok ?_⟩
  have hahead := hs.ahead
  show s'.ahead.isEmpty = s.ahead.isEmpty
  generalize s.ahead = ts, s'.ahead = ts' at hahead ⊢
  cases hahead <;> rfl

theorem check_like (kind : Token.Kind) :
    ParsesLike k k' shift c (fun _ b b' => b' = b) (check kind) (check kind) := by
  intro s s' hs _
  refine ⟨Nat.le_refl _, hs, .ok ?_⟩
  have hahead := hs.ahead
  show s'.ahead.head?.any (·.kind = kind) = s.ahead.head?.any (·.kind = kind)
  generalize s.ahead = ts, s'.ahead = ts' at hahead ⊢
  cases hahead with
  | nil => rfl
  | cons ht _ => simp [ht.kind]

theorem checkSecond_like (kind : Token.Kind) :
    ParsesLike k k' shift c (fun _ b b' => b' = b) (checkSecond kind) (checkSecond kind) := by
  intro s s' hs _
  refine ⟨Nat.le_refl _, hs, .ok ?_⟩
  have hahead := hs.ahead
  show s'.ahead[1]?.any (·.kind = kind) = s.ahead[1]?.any (·.kind = kind)
  generalize s.ahead = ts, s'.ahead = ts' at hahead ⊢
  cases hahead with
  | nil => rfl
  | cons _ hrest =>
    cases hrest with
    | nil => rfl
    | cons ht _ => simp [ht.kind]

theorem acceptIf_like (q : Token.Kind → Bool) :
    ParsesLike k k' shift c (OptionTokenLike shift) (acceptIf q) (acceptIf q) := by
  intro s s' hs _
  have hahead := hs.ahead
  obtain ⟨ts, eof, next, errors⟩ := s
  obtain ⟨ts', eof', next', errors'⟩ := s'
  cases hahead with
  | nil => exact ⟨Nat.le_refl _, hs, .ok .none⟩
  | @cons t t' rest rest' ht hrest =>
    have hrun : ∀ (t : Token) (rest : List Token) (eof : Token) (next : Nat)
        (errors : List SyntaxError), (acceptIf q).run ⟨t :: rest, eof, next, errors⟩
          = if q t.kind then (.ok (some t), ⟨rest, eof, next, errors⟩)
            else (.ok none, ⟨t :: rest, eof, next, errors⟩) := by
      intro t rest eof next errors
      show (if q t.kind then _ else _ : Parse (Option Token)).run _ = _
      split <;> rfl
    rw [hrun, hrun, ht.kind]
    split
    · exact ⟨Nat.le_refl _, { hs with ahead := hrest }, .ok (.some ht)⟩
    · exact ⟨Nat.le_refl _, hs, .ok .none⟩

theorem accept_like (kind : Token.Kind) :
    ParsesLike k k' shift c (OptionTokenLike shift) (accept kind) (accept kind) :=
  acceptIf_like _

theorem skip_like : ParsesLike k k' shift c (fun _ _ _ => True) skip skip :=
  (acceptIf_like _).map fun _ _ _ _ _ _ => trivial

theorem fail_like {V : Nat → α → α → Prop} (e : Complaint) :
    ParsesLike k k' shift c V (fail e) (fail e) :=
  peek_like.bind fun _ _ _ _ ht => fun _ _ hs _ => ⟨Nat.le_refl _, hs, .error ⟨rfl, ht⟩⟩

theorem expect_like (kind : Token.Kind) (e : Complaint) :
    ParsesLike k k' shift c (fun _ => TokenLike shift.rel) (expect kind e) (expect kind e) := by
  refine (accept_like kind).bind fun c' t t' _ ht => ?_
  cases ht with
  | none => exact fail_like e
  | some ht => exact .pure fun _ _ => ht

theorem report_like (e : Complaint) {t t' : Token} (ht : TokenLike shift.rel t t') :
    ParsesLike k k' shift c (fun _ _ _ => True) (report e t) (report e t') :=
  fun _ _ hs _ => ⟨Nat.le_refl _,
    { hs with errors := List.rel_append hs.errors (.cons ⟨rfl, ht⟩ .nil) }, .ok trivial⟩

theorem limit_like (e : Complaint) (count : Nat) :
    ParsesLike k k' shift c (fun _ _ _ => True) (limit e count) (limit e count) := by
  unfold limit
  split
  · exact peek_like.bind fun _ _ _ _ ht => report_like e ht
  · exact .pure fun _ _ => trivial

section Parts

variable {V : Nat → α → α → Prop} {p p' : Parse α}

theorem behind_like (kind : Token.Kind) (hp : ∀ c', c ≤ c' → ParsesLike k k' shift c' V p p')
    (hV : ∀ {c c' a a'}, c ≤ c' → V c a a' → V c' a a') :
    ParsesLike k k' shift c (fun c => Option.Rel (V c)) (behind kind p) (behind kind p') := by
  refine (accept_like kind).bind fun c' t t' hc ht => ?_
  cases ht with
  | none => exact .pure fun _ _ => .none
  | some _ => exact (hp c' hc).map fun _ _ _ hv _ hc => .some (hV hc hv)

theorem before_like (kind : Token.Kind) (hp : ∀ c', c ≤ c' → ParsesLike k k' shift c' V p p')
    (hV : ∀ {c c' a a'}, c ≤ c' → V c a a' → V c' a a') :
    ParsesLike k k' shift c (fun c => Option.Rel (V c)) (before kind p) (before kind p') := by
  refine (check_like kind).bind fun c' b b' hc hb => ?_
  subst hb
  split
  · exact .pure fun _ _ => .none
  · exact (hp c' hc).map fun _ _ _ hv _ hc => .some (hV hc hv)

/-- Two parses go on at the same token. -/
theorem resume_like {ts ts' : List Token} (h : List.Forall₂ (TokenLike shift.rel) ts ts') :
    List.Forall₂ (TokenLike shift.rel) (resume ts) (resume ts') := by
  induction h with
  | nil => exact .nil
  | cons ht hrest ih =>
    cases hrest with
    | nil =>
      unfold resume
      rw [ht.kind]
      split
      · exact .nil
      · exact .nil
    | cons hu hmore =>
      unfold resume
      simp only [ht.kind, hu.kind]
      split
      · exact .cons hu hmore
      · split
        · exact .cons hu hmore
        · exact ih

theorem recovering_like (hp : ParsesLike k k' shift c V p p') :
    ParsesLike k k' shift c (fun c => Option.Rel (V c)) (recovering p) (recovering p') := by
  intro s s' hs hc
  obtain ⟨hle, hs₁, hr⟩ := hp s s' hs hc
  rw [run_recovering, run_recovering]
  generalize p.run s = o, p'.run s' = o' at hle hs₁ hr ⊢
  obtain ⟨r, s₁⟩ := o
  obtain ⟨r', s₁'⟩ := o'
  cases hr with
  | ok hv => exact ⟨hle, hs₁, .ok (.some hv)⟩
  | error he =>
    refine ⟨hle, { hs₁ with ahead := ?_, errors := List.rel_append hs₁.errors (.cons he .nil) },
      .ok .none⟩
    exact resume_like hs₁.ahead
  | starved => exact ⟨hle, hs₁, .starved⟩

end Parts

theorem refer_like {t t' : Token} (ht : TokenLike shift.rel t t') :
    ParsesLike k k' shift c (RefHome k k' shift) (refer t) (refer t') := by
  intro s s' hs _
  obtain ⟨j, hj, hj'⟩ := hs.ids
  refine ⟨Nat.le_succ _, { hs with ids := ⟨j + 1, ?_, ?_⟩ }, .ok fun keys hkeys => ?_⟩
  · show s.nextId + 1 = k + (j + 1)
    rw [hj, Nat.add_assoc]
  · show s'.nextId + 1 = k' + (j + 1)
    rw [hj', Nat.add_assoc]
  · exact ⟨hkeys, ⟨j, hj, hj', Nat.lt_succ_self _⟩, ht⟩

/-! ## 3. Parts of the rules -/

/-- Two expressions, wherever they stand. -/
abbrev ExprHome (k k' : Nat) (shift : Shift) : Nat → Expr → Expr → Prop :=
  Home k k' shift ExprLike

/-- Two lists of expressions, wherever they stand. -/
abbrev ExprsHome (k k' : Nat) (shift : Shift) : Nat → List Expr → List Expr → Prop :=
  Home k k' shift ExprsLike

/-- Two functions, wherever they stand. -/
abbrev CodeHome (k k' : Nat) (shift : Shift) : Nat → Code → Code → Prop := Home k k' shift CodeLike

/-- Two lists of methods, wherever they stand. -/
abbrev MethodsHome (k k' : Nat) (shift : Shift) : Nat → List FunDecl → List FunDecl → Prop :=
  Home k k' shift MethodsLike

/-- Two statements, wherever they stand. -/
abbrev StmtHome (k k' : Nat) (shift : Shift) : Nat → Stmt → Stmt → Prop := Home k k' shift StmtLike

/-- Two lists of statements, wherever they stand. -/
abbrev StmtsHome (k k' : Nat) (shift : Shift) : Nat → List Stmt → List Stmt → Prop :=
  Home k k' shift StmtsLike

/-- Two functions with their names. -/
structure FunDeclHome (k k' : Nat) (shift : Shift) (c : Nat) (d d' : FunDecl) : Prop where
  name : TokenLike shift.rel d.name d'.name
  code : CodeHome k k' shift c d.code d'.code

section Homes

theorem Home.expr_later {e e' : Expr} (h : ExprHome k k' shift c e e') (hc : c ≤ c') :
    ExprHome k k' shift c' e e' := h.later hc fun hw h => h.mono hw

theorem Home.exprs_later {es es' : List Expr} (h : ExprsHome k k' shift c es es') (hc : c ≤ c') :
    ExprsHome k k' shift c' es es' := h.later hc fun hw h => h.mono hw

theorem Home.code_later {f f' : Code} (h : CodeHome k k' shift c f f') (hc : c ≤ c') :
    CodeHome k k' shift c' f f' := h.later hc fun hw h => h.mono hw

theorem Home.stmt_later {s s' : Stmt} (h : StmtHome k k' shift c s s') (hc : c ≤ c') :
    StmtHome k k' shift c' s s' := h.later hc fun hw h => h.mono hw

theorem Home.stmts_later {ss ss' : List Stmt} (h : StmtsHome k k' shift c ss ss') (hc : c ≤ c') :
    StmtsHome k k' shift c' ss ss' := h.later hc fun hw h => h.mono hw

theorem Home.ref_later {r r' : Reference} (h : RefHome k k' shift c r r') (hc : c ≤ c') :
    RefHome k k' shift c' r r' := h.later hc fun hw h => hw.ref h

/-- Expressions that may be missing. -/
theorem optionExpr_home {e e' : Option Expr} (h : Option.Rel (ExprHome k k' shift c) e e') :
    Home k k' shift OptionExprLike c e e' := by
  intro keys hkeys
  cases h with
  | none => exact .none
  | some h => exact .some (h keys hkeys)

theorem optionStmt_later {s s' : Option Stmt} (h : Option.Rel (StmtHome k k' shift c) s s')
    (hc : c ≤ c') : Option.Rel (StmtHome k k' shift c') s s' := by
  cases h with
  | none => exact .none
  | some h => exact .some (h.stmt_later hc)

/-- Statements that may be missing. -/
theorem optionStmt_home {s s' : Option Stmt} (h : Option.Rel (StmtHome k k' shift c) s s') :
    Home k k' shift OptionStmtLike c s s' := by
  intro keys hkeys
  cases h with
  | none => exact .none
  | some h => exact .some (h keys hkeys)

/-- An expression that may be missing, and what stands for it then. -/
theorem getD_home {e e' : Option Expr} (h : Option.Rel (ExprHome k k' shift c) e e') (l : Literal) :
    ExprHome k k' shift c (e.getD (.literal l)) (e'.getD (.literal l)) := by
  cases h with
  | none => exact fun _ _ => .literal
  | some h => exact h

theorem stmtsHome_nil : StmtsHome k k' shift c [] [] := fun _ _ => .nil

/-- A statement that may be missing, in front of others. -/
theorem stmtsHome_append {s s' : Option Stmt} (h : Option.Rel (StmtHome k k' shift c) s s')
    {ss ss' : List Stmt} (hs : StmtsHome k k' shift c ss ss') :
    StmtsHome k k' shift c (s.toList ++ ss) (s'.toList ++ ss') := by
  cases h with
  | none => exact hs
  | some h => exact fun keys hkeys => .cons (h keys hkeys) (hs keys hkeys)

theorem join_like (l : Level) {a a' b b' : Expr} (ha : ExprHome k k' shift c a a') {op op' : Token}
    (hop : TokenLike shift.rel op op') (hb : ExprHome k k' shift c b b') :
    ExprHome k k' shift c (l.join a op b) (l.join a' op' b') := by
  intro keys hkeys
  cases l with
  | or | and => exact .logical (ha keys hkeys) hop (hb keys hkeys)
  | _ => exact .binary (ha keys hkeys) hop (hb keys hkeys)

theorem innerOperator?_like {op op' : Token} (hop : TokenLike shift.rel op op') :
    Option.Rel (TokenLike shift.rel) (innerOperator? op) (innerOperator? op') := by
  unfold innerOperator?
  rw [hop.kind]
  split
  · exact .some ⟨rfl, rfl, hop.pos⟩
  · exact .some ⟨rfl, rfl, hop.pos⟩
  · exact .some ⟨rfl, rfl, hop.pos⟩
  · exact .some ⟨rfl, rfl, hop.pos⟩
  · exact .none

theorem assignedValue_like {a a' b b' : Expr} (ha : ExprHome k k' shift c a a') {op op' : Token}
    (hop : TokenLike shift.rel op op') (hb : ExprHome k k' shift c b b') :
    ExprHome k k' shift c (assignedValue a op b) (assignedValue a' op' b') := by
  have hinner := innerOperator?_like hop
  unfold assignedValue
  generalize innerOperator? op = o, innerOperator? op' = o' at hinner ⊢
  cases hinner with
  | none => exact hb
  | some ho => exact fun keys hkeys => .binary (ha keys hkeys) ho (hb keys hkeys)

end Homes

theorem assignTo_like {target target' : Expr} (h : ExprHome k k' shift c target target')
    {equals equals' : Token} (hequals : TokenLike shift.rel equals equals') {value value' : Expr}
    (hvalue : ExprHome k k' shift c value value') :
    ParsesLike k k' shift c (ExprHome k k' shift) (assignTo target equals value)
      (assignTo target' equals' value') := by
  have hother : ParsesLike k k' shift c (ExprHome k k' shift)
      (do report .invalidTarget equals; return target)
      (do report .invalidTarget equals'; return target') :=
    (report_like _ hequals).bind fun _ _ _ hc _ => .pure fun _ hc' =>
      h.expr_later (Nat.le_trans hc hc')
  cases h [] (fun _ hr => nomatch hr) with
  | @read _ ref ref' href =>
    refine (refer_like href.2.token).bind fun c' r r' hc hr => .pure fun _ hc' keys hkeys => ?_
    exact .assign (hr.ref_later hc' keys hkeys) (hvalue.expr_later (Nat.le_trans hc hc') keys hkeys)
  | @get _ o o' name name' _ _ =>
    refine .pure fun _ hc keys hkeys => ?_
    cases h.expr_later hc keys hkeys with
    | get ho hname => exact .set ho hname (hvalue.expr_later hc keys hkeys)
  | _ => exact hother

theorem parameterNames_like (n : Nat) : ParsesLike k k' shift c
    (fun _ => List.Forall₂ (TokenLike shift.rel)) (parameterNames n) (parameterNames n) := by
  induction n generalizing c with
  | zero => exact .starve
  | succ n ih =>
    refine (expect_like _ _).bind fun c₁ t t' _ ht => ?_
    refine (accept_like _).bind fun c₂ comma comma' _ hcomma => ?_
    cases hcomma with
    | none => exact .pure fun _ _ => .cons ht .nil
    | some _ => exact ih.bind fun _ _ _ _ hrest => .pure fun _ _ => .cons ht hrest

theorem parameters_like (n : Nat) : ParsesLike k k' shift c
    (fun _ => List.Forall₂ (TokenLike shift.rel)) (parameters n) (parameters n) := by
  refine (before_like _ (fun _ _ => parameterNames_like n) fun _ h => h).bind
    fun c₁ ts ts' _ hts => ?_
  have hnames : List.Forall₂ (TokenLike shift.rel) (ts.getD []) (ts'.getD []) := by
    cases hts with
    | none => exact .nil
    | some hts => exact hts
  dsimp only
  rw [← hnames.length_eq]
  refine (limit_like _ _).bind fun c₂ _ _ _ _ => ?_
  exact (expect_like _ _).bind fun _ _ _ _ _ => .pure fun _ _ => hnames

theorem superclassName_like :
    ParsesLike k k' shift c (RefHome k k' shift) superclassName superclassName :=
  (expect_like _ _).bind fun _ _ _ _ ht => refer_like ht

theorem loopExit_like (loops : Nat) (e : LoopExit) {t t' : Token} (ht : TokenLike shift.rel t t') :
    ParsesLike k k' shift c (StmtHome k k' shift) (loopExit loops e t) (loopExit loops e t') := by
  have hcomplain : ParsesLike k k' shift c (fun _ _ _ => True) (complainOutside loops e t)
      (complainOutside loops e t') := by
    unfold complainOutside
    split
    · exact report_like _ ht
    · exact .pure fun _ _ => trivial
  refine hcomplain.bind fun _ _ _ _ _ => (expect_like _ _).bind fun _ _ _ _ _ => ?_
  refine .pure fun _ _ keys hkeys => ?_
  cases e with
  | leave => exact .leave ht
  | next => exact .next ht

/-! ## 4. The rules -/

/-- **Every rule parses alike**, with fuel `n`. -/
structure ParseLike (k k' : Nat) (shift : Shift) (n : Nat) : Prop where
  expression : ∀ {c}, ParsesLike k k' shift c (ExprHome k k' shift) (expression n) (expression n)
  moreAssignments : ∀ {c e e'}, ExprHome k k' shift c e e' →
    ParsesLike k k' shift c (ExprHome k k' shift) (moreAssignments n e) (moreAssignments n e')
  assignment : ∀ {c}, ParsesLike k k' shift c (ExprHome k k' shift) (assignment n) (assignment n)
  conditional : ∀ {c}, ParsesLike k k' shift c (ExprHome k k' shift) (conditional n) (conditional n)
  operand : ∀ {c} l, ParsesLike k k' shift c (ExprHome k k' shift) (operand n l) (operand n l)
  moreOperands : ∀ {c} l {e e'}, ExprHome k k' shift c e e' →
    ParsesLike k k' shift c (ExprHome k k' shift) (moreOperands n l e) (moreOperands n l e')
  operandWithin : ∀ {c} l,
    ParsesLike k k' shift c (ExprHome k k' shift) (operandWithin n l) (operandWithin n l)
  unary : ∀ {c}, ParsesLike k k' shift c (ExprHome k k' shift) (unary n) (unary n)
  moreCalls : ∀ {c e e'}, ExprHome k k' shift c e e' →
    ParsesLike k k' shift c (ExprHome k k' shift) (moreCalls n e) (moreCalls n e')
  arguments : ∀ {c}, ParsesLike k k' shift c (ExprsHome k k' shift) (arguments n) (arguments n)
  primary : ∀ {c}, ParsesLike k k' shift c (ExprHome k k' shift) (primary n) (primary n)
  code : ∀ {c} f, ParsesLike k k' shift c (CodeHome k k' shift) (code n f) (code n f)
  funDecl : ∀ {c} f, ParsesLike k k' shift c (FunDeclHome k k' shift) (funDecl n f) (funDecl n f)
  declaration : ∀ {c} loops, ParsesLike k k' shift c (fun c => Option.Rel (StmtHome k k' shift c))
    (declaration n loops) (declaration n loops)
  declarationOrFail : ∀ {c} loops, ParsesLike k k' shift c (StmtHome k k' shift)
    (declarationOrFail n loops) (declarationOrFail n loops)
  classDecl : ∀ {c}, ParsesLike k k' shift c (StmtHome k k' shift) (classDecl n) (classDecl n)
  methodsRest : ∀ {c},
    ParsesLike k k' shift c (MethodsHome k k' shift) (methodsRest n) (methodsRest n)
  varDecl : ∀ {c}, ParsesLike k k' shift c (StmtHome k k' shift) (varDecl n) (varDecl n)
  statement : ∀ {c} loops,
    ParsesLike k k' shift c (StmtHome k k' shift) (statement n loops) (statement n loops)
  exprStatement : ∀ {c},
    ParsesLike k k' shift c (StmtHome k k' shift) (exprStatement n) (exprStatement n)
  forLoop : ∀ {c} loops,
    ParsesLike k k' shift c (StmtHome k k' shift) (forLoop n loops) (forLoop n loops)
  forInit : ∀ {c}, ParsesLike k k' shift c (fun c => Option.Rel (StmtHome k k' shift c))
    (forInit n) (forInit n)
  whileLoop : ∀ {c} loops,
    ParsesLike k k' shift c (StmtHome k k' shift) (whileLoop n loops) (whileLoop n loops)
  branch : ∀ {c} loops,
    ParsesLike k k' shift c (StmtHome k k' shift) (branch n loops) (branch n loops)
  ret : ∀ {c t t'}, TokenLike shift.rel t t' →
    ParsesLike k k' shift c (StmtHome k k' shift) (ret n t) (ret n t')
  blockRest : ∀ {c} loops,
    ParsesLike k k' shift c (StmtsHome k k' shift) (blockRest n loops) (blockRest n loops)
  declarations : ∀ {c} loops,
    ParsesLike k k' shift c (StmtsHome k k' shift) (declarations n loops) (declarations n loops)

section Rules

variable {n : Nat} (ih : ParseLike k k' shift n)

include ih

theorem expression_like :
    ParsesLike k k' shift c (ExprHome k k' shift) (expression (n + 1)) (expression (n + 1)) :=
  ih.assignment.bind fun _ _ _ _ he => ih.moreAssignments he

theorem moreAssignments_like {e e' : Expr} (he : ExprHome k k' shift c e e') :
    ParsesLike k k' shift c (ExprHome k k' shift) (moreAssignments (n + 1) e)
      (moreAssignments (n + 1) e') := by
  refine (accept_like _).bind fun c₁ op op' hc hop => ?_
  cases hop with
  | none => exact .pure fun _ hc' => he.expr_later (Nat.le_trans hc hc')
  | some hop =>
    refine ih.assignment.bind fun c₂ b b' hc₂ hb => ih.moreAssignments fun keys hkeys => ?_
    exact .binary (he.expr_later (Nat.le_trans hc hc₂) keys hkeys) hop (hb keys hkeys)

theorem assignment_like :
    ParsesLike k k' shift c (ExprHome k k' shift) (assignment (n + 1)) (assignment (n + 1)) := by
  refine ih.conditional.bind fun c₁ target target' _ htarget => ?_
  refine (acceptIf_like _).bind fun c₂ equals equals' hc₂ hequals => ?_
  have htarget₂ := htarget.expr_later hc₂
  cases hequals with
  | none => exact .pure fun _ hc => htarget₂.expr_later hc
  | some hequals =>
    refine ih.assignment.bind fun c₃ value value' hc₃ hvalue => ?_
    have htarget₃ := htarget₂.expr_later hc₃
    exact assignTo_like htarget₃ hequals (assignedValue_like htarget₃ hequals hvalue)

theorem conditional_like :
    ParsesLike k k' shift c (ExprHome k k' shift) (conditional (n + 1)) (conditional (n + 1)) := by
  refine (ih.operand _).bind fun c₁ e e' _ he => ?_
  refine (accept_like _).bind fun c₂ t t' hc₂ ht => ?_
  cases ht with
  | none => exact .pure fun _ hc => he.expr_later (Nat.le_trans hc₂ hc)
  | some _ =>
    refine ih.expression.bind fun c₃ a a' hc₃ ha => ?_
    refine (expect_like _ _).bind fun c₄ _ _ hc₄ _ => ?_
    refine ih.conditional.bind fun c₅ b b' hc₅ hb => .pure fun c₆ hc₆ keys hkeys => ?_
    exact .conditional (he.expr_later (by omega) keys hkeys) (ha.expr_later (by omega) keys hkeys)
      (hb.expr_later hc₆ keys hkeys)

theorem operand_like (l : Level) :
    ParsesLike k k' shift c (ExprHome k k' shift) (operand (n + 1) l) (operand (n + 1) l) :=
  (ih.operandWithin _).bind fun _ _ _ _ he => ih.moreOperands l he

theorem moreOperands_like (l : Level) {e e' : Expr} (he : ExprHome k k' shift c e e') :
    ParsesLike k k' shift c (ExprHome k k' shift) (moreOperands (n + 1) l e)
      (moreOperands (n + 1) l e') := by
  refine (acceptIf_like _).bind fun c₁ op op' hc hop => ?_
  cases hop with
  | none => exact .pure fun _ hc' => he.expr_later (Nat.le_trans hc hc')
  | some hop =>
    refine (ih.operandWithin _).bind fun c₂ b b' hc₂ hb => ih.moreOperands l ?_
    exact join_like l (he.expr_later (Nat.le_trans hc hc₂)) hop hb

theorem operandWithin_like (l : Option Level) :
    ParsesLike k k' shift c (ExprHome k k' shift) (operandWithin (n + 1) l)
      (operandWithin (n + 1) l) := by
  cases l with
  | some l => exact ih.operand l
  | none => exact ih.unary

theorem unary_like :
    ParsesLike k k' shift c (ExprHome k k' shift) (unary (n + 1)) (unary (n + 1)) := by
  refine (acceptIf_like _).bind fun c₁ op op' _ hop => ?_
  cases hop with
  | none => exact ih.primary.bind fun _ _ _ _ he => ih.moreCalls he
  | some hop =>
    refine ih.unary.bind fun c₂ e e' _ he => .pure fun _ hc keys hkeys => ?_
    exact .unary hop (he.expr_later hc keys hkeys)

theorem moreCalls_like {e e' : Expr} (he : ExprHome k k' shift c e e') :
    ParsesLike k k' shift c (ExprHome k k' shift) (moreCalls (n + 1) e) (moreCalls (n + 1) e') := by
  refine (accept_like _).bind fun c₁ t t' hc ht => ?_
  cases ht with
  | some _ =>
    refine (before_like _ (fun _ _ => ih.arguments) fun hc h => h.exprs_later hc).bind
      fun c₂ args args' hc₂ hargs => ?_
    have hargs : ExprsHome k k' shift c₂ (args.getD []) (args'.getD []) := by
      cases hargs with
      | none => exact fun _ _ => .nil
      | some h => exact h
    dsimp only
    rw [(hargs [] fun _ hr => nomatch hr).length_eq]
    refine (limit_like _ _).bind fun c₃ _ _ hc₃ _ => ?_
    refine (expect_like _ _).bind fun c₄ paren paren' hc₄ hparen => ih.moreCalls fun keys hkeys => ?_
    exact .call (he.expr_later (by omega) keys hkeys) hparen
      (hargs.exprs_later (Nat.le_trans hc₃ hc₄) keys hkeys)
  | none =>
    refine (accept_like _).bind fun c₂ dot dot' hc₂ hdot => ?_
    cases hdot with
    | none => exact .pure fun _ hc' => he.expr_later (by omega)
    | some _ =>
      refine (expect_like _ _).bind fun c₃ name name' hc₃ hname => ih.moreCalls fun keys hkeys => ?_
      exact .get (he.expr_later (by omega) keys hkeys) hname

theorem arguments_like :
    ParsesLike k k' shift c (ExprsHome k k' shift) (arguments (n + 1)) (arguments (n + 1)) := by
  refine ih.assignment.bind fun c₁ e e' _ he => ?_
  refine (accept_like _).bind fun c₂ t t' hc₂ ht => ?_
  cases ht with
  | none =>
    exact .pure fun _ hc keys hkeys => .cons (he.expr_later (Nat.le_trans hc₂ hc) keys hkeys) .nil
  | some _ =>
    refine ih.arguments.bind fun c₃ es es' hc₃ hes => .pure fun _ hc keys hkeys => ?_
    exact .cons (he.expr_later (by omega) keys hkeys) (hes.exprs_later hc keys hkeys)

theorem primary_like :
    ParsesLike k k' shift c (ExprHome k k' shift) (primary (n + 1)) (primary (n + 1)) := by
  refine peek_like.bind fun c₁ t t' _ ht => ?_
  rw [ht.kind]
  have hliteral : ∀ l, ParsesLike k k' shift c₁ (ExprHome k k' shift)
      (do skip; return .literal l) (do skip; return .literal l) :=
    fun l => skip_like.bind fun _ _ _ _ _ => .pure fun _ _ _ _ => .literal
  split
  · exact hliteral _
  · exact hliteral _
  · exact hliteral _
  · exact hliteral _
  · exact hliteral _
  · refine skip_like.bind fun _ _ _ _ _ => (expect_like _ _).bind fun _ _ _ _ _ => ?_
    refine (expect_like _ _).bind fun _ method method' _ hmethod => ?_
    refine (refer_like ht).bind fun _ r r' _ hr => .pure fun _ hc keys hkeys => ?_
    exact .super (hr.ref_later hc keys hkeys) hmethod
  · refine skip_like.bind fun _ _ _ _ _ => (refer_like ht).bind fun _ r r' _ hr => ?_
    exact .pure fun _ hc keys hkeys => .this (hr.ref_later hc keys hkeys)
  · refine skip_like.bind fun _ _ _ _ _ => (refer_like ht).bind fun _ r r' _ hr => ?_
    exact .pure fun _ hc keys hkeys => .read (hr.ref_later hc keys hkeys)
  · refine skip_like.bind fun _ _ _ _ _ => (ih.code _).bind fun _ f f' _ hf => ?_
    exact .pure fun _ hc keys hkeys => .lambda (hf.code_later hc keys hkeys)
  · refine skip_like.bind fun _ _ _ _ _ => ih.expression.bind fun c₂ e e' _ he => ?_
    refine (expect_like _ _).bind fun c₃ _ _ hc₃ _ => .pure fun _ hc keys hkeys => ?_
    exact .group (he.expr_later (Nat.le_trans hc₃ hc) keys hkeys)
  · split
    · refine skip_like.bind fun _ _ _ _ _ => (report_like _ ht).bind fun _ _ _ _ _ => ?_
      exact (ih.operand _).bind fun _ _ _ _ _ => .pure fun _ _ _ _ => .literal
    · exact fail_like _

theorem code_like (f : Callable) :
    ParsesLike k k' shift c (CodeHome k k' shift) (code (n + 1) f) (code (n + 1) f) := by
  refine (expect_like _ _).bind fun _ _ _ _ _ => (parameters_like n).bind fun _ ts ts' _ hts => ?_
  refine (expect_like _ _).bind fun _ _ _ _ _ => (ih.blockRest 0).bind fun _ ss ss' _ hss => ?_
  refine .pure fun c₅ hc keys hkeys => ?_
  have hparams : List.Forall₂ ((numbered k k' shift c₅).Declared .same) ts ts' :=
    hts.imp fun _ _ ht => ⟨ht.declared, trivial⟩
  exact .mk rfl hparams (hss.stmts_later hc _ (same_cons hkeys))

theorem funDecl_like (f : Callable) :
    ParsesLike k k' shift c (FunDeclHome k k' shift) (funDecl (n + 1) f) (funDecl (n + 1) f) := by
  refine (expect_like _ _).bind fun _ t t' _ ht => (ih.code f).bind fun _ code code' _ hcode => ?_
  exact .pure fun _ hc => ⟨ht, hcode.code_later hc⟩

theorem declaration_like (loops : Nat) :
    ParsesLike k k' shift c (fun c => Option.Rel (StmtHome k k' shift c))
      (declaration (n + 1) loops) (declaration (n + 1) loops) :=
  recovering_like (ih.declarationOrFail loops)

theorem declarationOrFail_like (loops : Nat) :
    ParsesLike k k' shift c (StmtHome k k' shift) (declarationOrFail (n + 1) loops)
      (declarationOrFail (n + 1) loops) := by
  refine (accept_like _).bind fun _ t t' _ ht => ?_
  cases ht with
  | some _ => exact ih.classDecl
  | none =>
    refine (check_like _).bind fun _ b b' _ hb => (checkSecond_like _).bind fun _ d d' _ hd => ?_
    subst hb hd
    split
    · refine (accept_like _).bind fun _ _ _ _ _ => (ih.funDecl _).bind fun _ f f' _ hf => ?_
      refine .pure fun _ hc keys hkeys => ?_
      obtain ⟨name, code⟩ := f
      obtain ⟨name', code'⟩ := f'
      refine .funDecl hf.name trivial ?_ (hf.code.code_later hc keys hkeys)
      rw [innermost_same hkeys]
      rfl
    · refine (accept_like _).bind fun _ t t' _ ht => ?_
      cases ht with
      | some _ => exact ih.varDecl
      | none => exact ih.statement loops

theorem classDecl_like :
    ParsesLike k k' shift c (StmtHome k k' shift) (classDecl (n + 1)) (classDecl (n + 1)) := by
  refine (expect_like _ _).bind fun _ name name' _ hname => ?_
  refine (behind_like _ (fun _ _ => superclassName_like) fun hc h => h.ref_later hc).bind
    fun c₂ parent parent' _ hparent => ?_
  refine (expect_like _ _).bind fun c₃ _ _ hc₃ _ => ih.methodsRest.bind fun c₄ ms ms' hc₄ hms => ?_
  refine (expect_like _ _).bind fun c₅ _ _ hc₅ _ => .pure fun c₆ hc₆ keys hkeys => ?_
  have hstays : (innermost keys).new name.lexeme = name.lexeme := by
    rw [innermost_same hkeys]
    rfl
  have hc : c₄ ≤ c₆ := Nat.le_trans hc₅ hc₆
  cases hparent with
  | none =>
    exact .classDecl hname trivial hstays .none
      (hms.later hc (fun hw h => h.mono hw) _ (same_cons hkeys))
  | some hparent =>
    refine .classDecl hname trivial hstays (.some (hparent.ref_later (by omega) keys hkeys)) ?_
    exact hms.later hc (fun hw h => h.mono hw) _ (same_cons (same_cons hkeys))

theorem methodsRest_like :
    ParsesLike k k' shift c (MethodsHome k k' shift) (methodsRest (n + 1)) (methodsRest (n + 1)) := by
  refine (check_like _).bind fun _ b b' _ hb => atEnd_like.bind fun _ d d' _ hd => ?_
  subst hb hd
  split
  · exact .pure fun _ _ _ _ => .nil
  · refine (ih.funDecl _).bind fun _ f f' _ hf => ih.methodsRest.bind fun c₄ ms ms' hc₄ hms => ?_
    refine .pure fun _ hc keys hkeys => ?_
    obtain ⟨name, code⟩ := f
    obtain ⟨name', code'⟩ := f'
    exact .cons hf.name (hf.code.code_later (Nat.le_trans hc₄ hc) keys hkeys)
      (hms.later hc (fun hw h => h.mono hw) keys hkeys)

theorem varDecl_like :
    ParsesLike k k' shift c (StmtHome k k' shift) (varDecl (n + 1)) (varDecl (n + 1)) := by
  refine (expect_like _ _).bind fun _ name name' _ hname => ?_
  refine (behind_like _ (fun _ _ => ih.expression) fun hc h => h.expr_later hc).bind
    fun _ e e' _ he => ?_
  refine (expect_like _ _).bind fun c₃ _ _ hc₃ _ => .pure fun _ hc keys hkeys => ?_
  refine .varDecl ?_ ((getD_home he .nil).expr_later (Nat.le_trans hc₃ hc) keys hkeys)
  rw [innermost_same hkeys]
  exact ⟨hname.declared, trivial⟩

theorem statement_like (loops : Nat) :
    ParsesLike k k' shift c (StmtHome k k' shift) (statement (n + 1) loops)
      (statement (n + 1) loops) := by
  refine peek_like.bind fun _ t t' _ ht => ?_
  rw [ht.kind]
  split
  · exact skip_like.bind fun _ _ _ _ _ => ih.forLoop loops
  · exact skip_like.bind fun _ _ _ _ _ => ih.branch loops
  · exact skip_like.bind fun _ _ _ _ _ => ih.ret ht
  · exact skip_like.bind fun _ _ _ _ _ => ih.whileLoop loops
  · refine skip_like.bind fun _ _ _ _ _ => (ih.blockRest loops).bind fun _ ss ss' _ hss => ?_
    exact .pure fun _ hc keys hkeys => .block rfl (hss.stmts_later hc _ (same_cons hkeys))
  · exact skip_like.bind fun _ _ _ _ _ => loopExit_like loops .leave ht
  · exact skip_like.bind fun _ _ _ _ _ => loopExit_like loops .next ht
  · exact ih.exprStatement

theorem exprStatement_like :
    ParsesLike k k' shift c (StmtHome k k' shift) (exprStatement (n + 1)) (exprStatement (n + 1)) := by
  refine ih.expression.bind fun _ e e' _ he => (expect_like _ _).bind fun _ _ _ hc _ => ?_
  exact .pure fun _ hc' keys hkeys => .expr (he.expr_later (Nat.le_trans hc hc') keys hkeys)

theorem forLoop_like (loops : Nat) :
    ParsesLike k k' shift c (StmtHome k k' shift) (forLoop (n + 1) loops) (forLoop (n + 1) loops) := by
  refine (expect_like _ _).bind fun _ _ _ _ _ => ih.forInit.bind fun c₂ init init' _ hinit => ?_
  refine (before_like _ (fun _ _ => ih.expression) fun hc h => h.expr_later hc).bind
    fun c₃ e e' hc₃ he => ?_
  refine (expect_like _ _).bind fun c₄ _ _ hc₄ _ => ?_
  refine (before_like _ (fun _ _ => ih.expression) fun hc h => h.expr_later hc).bind
    fun c₅ i i' hc₅ hi => ?_
  refine (expect_like _ _).bind fun c₆ _ _ hc₆ _ => ?_
  refine (ih.statement _).bind fun c₇ s s' hc₇ hs => .pure fun c₈ hc₈ keys hkeys => ?_
  have hinner := same_cons hkeys
  refine .forLoop rfl ?_ ?_ ?_ (hs.stmt_later hc₈ _ hinner)
  · exact (optionStmt_home hinit).later (by omega) (fun hw h => h.mono hw) _ hinner
  · exact (getD_home he (.bool true)).expr_later (by omega) _ hinner
  · exact (optionExpr_home hi).later (by omega) (fun hw h => h.mono hw) _ hinner

theorem forInit_like :
    ParsesLike k k' shift c (fun c => Option.Rel (StmtHome k k' shift c)) (forInit (n + 1))
      (forInit (n + 1)) := by
  refine (accept_like _).bind fun _ t t' _ ht => ?_
  cases ht with
  | some _ => exact .pure fun _ _ => .none
  | none =>
    refine (accept_like _).bind fun _ t t' _ ht => ?_
    cases ht with
    | some _ => exact ih.varDecl.map fun _ _ _ hs _ hc => .some (hs.stmt_later hc)
    | none => exact ih.exprStatement.map fun _ _ _ hs _ hc => .some (hs.stmt_later hc)

theorem whileLoop_like (loops : Nat) :
    ParsesLike k k' shift c (StmtHome k k' shift) (whileLoop (n + 1) loops)
      (whileLoop (n + 1) loops) := by
  refine (expect_like _ _).bind fun _ _ _ _ _ => ih.expression.bind fun c₂ e e' _ he => ?_
  refine (expect_like _ _).bind fun c₃ _ _ hc₃ _ => ?_
  refine (ih.statement _).bind fun c₄ s s' hc₄ hs => .pure fun c₅ hc₅ keys hkeys => ?_
  exact .whileLoop (he.expr_later (by omega) keys hkeys) (hs.stmt_later hc₅ keys hkeys)

theorem branch_like (loops : Nat) :
    ParsesLike k k' shift c (StmtHome k k' shift) (branch (n + 1) loops) (branch (n + 1) loops) := by
  refine (expect_like _ _).bind fun _ _ _ _ _ => ih.expression.bind fun c₂ e e' _ he => ?_
  refine (expect_like _ _).bind fun c₃ _ _ hc₃ _ => ?_
  refine (ih.statement _).bind fun c₄ s s' hc₄ hs => ?_
  refine (behind_like _ (fun _ _ => ih.statement _) fun hc h => h.stmt_later hc).bind
    fun c₅ no no' hc₅ hno => .pure fun c₆ hc₆ keys hkeys => ?_
  refine .branch (he.expr_later (by omega) keys hkeys) (hs.stmt_later (by omega) keys hkeys) ?_
  exact (optionStmt_home hno).later hc₆ (fun hw h => h.mono hw) keys hkeys

theorem ret_like {t t' : Token} (ht : TokenLike shift.rel t t') :
    ParsesLike k k' shift c (StmtHome k k' shift) (ret (n + 1) t) (ret (n + 1) t') := by
  refine (before_like _ (fun _ _ => ih.expression) fun hc h => h.expr_later hc).bind
    fun _ e e' _ he => ?_
  refine (expect_like _ _).bind fun _ _ _ hc _ => .pure fun _ hc' keys hkeys => ?_
  exact .ret ht ((optionExpr_home he).later (Nat.le_trans hc hc') (fun hw h => h.mono hw) keys hkeys)

theorem blockRest_like (loops : Nat) :
    ParsesLike k k' shift c (StmtsHome k k' shift) (blockRest (n + 1) loops)
      (blockRest (n + 1) loops) := by
  refine (ih.declarations _).bind fun _ ss ss' _ hss => (expect_like _ _).bind fun _ _ _ hc _ => ?_
  exact .pure fun _ hc' => hss.stmts_later (Nat.le_trans hc hc')

theorem declarations_like (loops : Nat) :
    ParsesLike k k' shift c (StmtsHome k k' shift) (declarations (n + 1) loops)
      (declarations (n + 1) loops) := by
  refine (check_like _).bind fun _ b b' _ hb => atEnd_like.bind fun _ d d' _ hd => ?_
  subst hb hd
  split
  · exact .pure fun _ _ => stmtsHome_nil
  · refine (ih.declaration _).bind fun c₁ s s' _ hs => (ih.declarations _).bind fun _ ss ss' hc hss => ?_
    refine .pure fun _ hc' => ?_
    exact (stmtsHome_append (optionStmt_later hs hc) hss).stmts_later hc'

end Rules

/-- **Every rule parses alike.** -/
theorem parseLike (k k' : Nat) (shift : Shift) (n : Nat) : ParseLike k k' shift n := by
  induction n with
  | zero =>
    exact {
      expression := .starve
      moreAssignments := fun _ => .starve
      assignment := .starve
      conditional := .starve
      operand := fun _ => .starve
      moreOperands := fun _ => fun _ => .starve
      operandWithin := fun l => by cases l <;> exact .starve
      unary := .starve
      moreCalls := fun _ => .starve
      arguments := .starve
      primary := .starve
      code := fun _ => .starve
      funDecl := fun _ => .starve
      declaration := fun _ => .starve
      declarationOrFail := fun _ => .starve
      classDecl := .starve
      methodsRest := .starve
      varDecl := .starve
      statement := fun _ => .starve
      exprStatement := .starve
      forLoop := fun _ => .starve
      forInit := .starve
      whileLoop := fun _ => .starve
      branch := fun _ => .starve
      ret := fun _ => .starve
      blockRest := fun _ => .starve
      declarations := fun _ => .starve }
  | succ n ih =>
    exact {
      expression := expression_like ih
      moreAssignments := fun he => moreAssignments_like ih he
      assignment := assignment_like ih
      conditional := conditional_like ih
      operand := operand_like ih
      moreOperands := moreOperands_like ih
      operandWithin := operandWithin_like ih
      unary := unary_like ih
      moreCalls := fun he => moreCalls_like ih he
      arguments := arguments_like ih
      primary := primary_like ih
      code := code_like ih
      funDecl := funDecl_like ih
      declaration := declaration_like ih
      declarationOrFail := declarationOrFail_like ih
      classDecl := classDecl_like ih
      methodsRest := methodsRest_like ih
      varDecl := varDecl_like ih
      statement := statement_like ih
      exprStatement := exprStatement_like ih
      forLoop := forLoop_like ih
      forInit := forInit_like ih
      whileLoop := whileLoop_like ih
      branch := branch_like ih
      ret := fun ht => ret_like ih ht
      blockRest := blockRest_like ih
      declarations := declarations_like ih }

theorem program_like (n : Nat) :
    ParsesLike k k' shift c (StmtsHome k k' shift) (program n) (program n) := by
  induction n generalizing c with
  | zero => exact .starve
  | succ n ih =>
    refine atEnd_like.bind fun _ b b' _ hb => ?_
    subst hb
    split
    · exact .pure fun _ _ => stmtsHome_nil
    · refine ((parseLike k k' shift n).declaration 0).bind fun _ s s' _ hs =>
        ih.bind fun _ ss ss' hc hss => .pure fun _ hc' => ?_
      exact (stmtsHome_append (optionStmt_later hs hc) hss).stmts_later hc'

/-! ## 5. Token lists -/

/-- **What two parses come to**, from `k` and from `k'` on. -/
structure ParsedLike (k k' : Nat) (shift : Shift) (p p' : Parsed) : Prop where
  le : k ≤ p.nextId
  ids : ∃ j, p.nextId = k + j ∧ p'.nextId = k' + j
  errors : List.Forall₂ (SyntaxErrorLike shift) p.errors p'.errors
  statements : StmtsHome k k' shift p.nextId p.statements p'.statements

theorem takeWhile_like {ts ts' : List Token} (h : List.Forall₂ (TokenLike shift.rel) ts ts') :
    List.Forall₂ (TokenLike shift.rel) (ts.takeWhile (·.kind ≠ .eof))
      (ts'.takeWhile (·.kind ≠ .eof)) := by
  induction h with
  | nil => exact .nil
  | cons ht _ ih =>
    simp only [List.takeWhile_cons, ht.kind]
    split
    · exact .cons ht ih
    · exact .nil

/-- The ends of two token lists that do have one. -/
theorem eof_like {ts ts' : List Token} (h : List.Forall₂ (TokenLike shift.rel) ts ts')
    (hend : ∃ t ∈ ts, t.kind = .eof) :
    TokenLike shift.rel ((ts.find? (·.kind = .eof)).getD (missingEnd ts))
      ((ts'.find? (·.kind = .eof)).getD (missingEnd ts')) := by
  have hfind : Option.Rel (TokenLike shift.rel) (ts.find? (·.kind = .eof))
      (ts'.find? (·.kind = .eof)) := by
    clear hend
    induction h with
    | nil => exact .none
    | cons ht _ ih =>
      simp only [List.find?_cons, ht.kind]
      split
      · exact .some ht
      · exact ih
  obtain ⟨t, ht, hkind⟩ := hend
  have hsome : (ts.find? (·.kind = .eof)).isSome := List.find?_isSome.mpr ⟨t, ht, by simpa using hkind⟩
  generalize ts.find? (·.kind = .eof) = o, ts'.find? (·.kind = .eof) = o' at hfind hsome ⊢
  cases hfind with
  | none => cases hsome
  | some h => exact h

/-- **Tokens that are alike parse alike.** -/
theorem parse_like (k k' : Nat) {ts ts' : List Token} (h : List.Forall₂ (TokenLike shift.rel) ts ts')
    (hend : ∃ t ∈ ts, t.kind = .eof) : ParsedLike k k' shift (parse ts k) (parse ts' k') := by
  have hs : CursorLike k k' shift (.ofTokens ts k) (.ofTokens ts' k') :=
    ⟨takeWhile_like h, eof_like h hend, ⟨0, rfl, rfl⟩, .nil⟩
  obtain ⟨hle, hs₁, hr⟩ := program_like (c := k) (fuelFor ts.length) _ _ hs (Nat.le_refl _)
  unfold parse
  rw [← h.length_eq]
  generalize (program (fuelFor ts.length)).run (.ofTokens ts k) = o,
    (program (fuelFor ts.length)).run (.ofTokens ts' k') = o' at hle hs₁ hr ⊢
  obtain ⟨r, s₁⟩ := o
  obtain ⟨r', s₁'⟩ := o'
  cases hr with
  | ok hv => exact ⟨hle, hs₁.ids, hs₁.errors, hv⟩
  | error _ => exact ⟨hle, hs₁.ids, hs₁.errors, stmtsHome_nil⟩
  | starved => exact ⟨hle, hs₁.ids, hs₁.errors, stmtsHome_nil⟩

end Lox.Syntax
