import Lox.Proofs.Grammar.Origins
import Lox.Proofs.Scope.Places

/-!
# Where the tokens of a complaint come from

Scoping and running look at parts of a program, and the tokens of a part are tokens of the program.

* `Inside.drawn`: the parts of what is drawn from some tokens are.
* `Node.blamed`: the tokens that an error of a node itself may be about. They are among the tokens, or
  operators inside them (`Node.Drawn.blamed`).
* `resolve_drawn`: every complaint of scoping is about one of the tokens.
-/

namespace Lox

variable {ts : List Token}

/-! ## 1. Parts -/

/-- The tokens of a part of a program. -/
def Node.Drawn (ts : List Token) : Node → Prop
  | .expr e => e.Drawn ts
  | .code c => c.Drawn ts
  | .stmt s => s.Drawn ts

/-- **The parts of what is drawn** are drawn. -/
theorem Inside.drawn {node child : Node} {p q : Place} (h : Inside node p child q)
    (hd : node.Drawn ts) : child.Drawn ts := by
  cases h with
  | group | lambda | expression => exact hd
  | callee | getObject | binaryLeft | logicalLeft | choiceCondition | branchCondition
  | whileCondition | setObject | loopStart => exact And.left hd
  | operand | assigned | initializer | function | whileBody | returned => exact And.right hd
  | binaryRight | logicalRight | choiceNo | setValue | branchNo =>
    have h := And.right hd
    exact And.right h
  | choiceYes | branchYes | loopCondition =>
    have h := And.right hd
    exact And.left h
  | argument he =>
    have h := And.right hd
    exact exprsDrawn_iff.mp (And.right h) _ he
  | body => exact stmtsDrawn_iff.mp (And.right hd) _ (by simp)
  | block => exact stmtsDrawn_iff.mp hd _ (by simp)
  | superclass =>
    have h := And.right hd
    exact And.left h _ rfl
  | method hm =>
    have h := And.right hd
    exact (funDeclsDrawn_iff.mp (And.right h) _ hm).2
  | loopIncrement =>
    have h := And.right (And.right hd)
    exact And.left h
  | loopBody =>
    have h := And.right (And.right hd)
    exact And.right h

/-- The parts of a program that is drawn are drawn. -/
theorem Occurs.drawn {program : List Stmt} {node : Node} {p : Place} (h : Occurs program node p)
    (hd : ∀ s ∈ program, s.Drawn ts) : node.Drawn ts := by
  induction h with
  | top hmem => exact hd _ hmem
  | inside _ hi ih => exact hi.drawn ih

/-- The tokens that an error of a node itself may be about. -/
def Node.blamed : Node → List Token
  | .expr (.unary op _) | .expr (.binary _ op _) => [op]
  | .expr (.read ref) | .expr (.this ref) | .expr (.assign ref _) => [ref.token]
  | .expr (.call _ paren _) => [paren]
  | .expr (.get _ name) | .expr (.set _ name _) => [name]
  | .expr (.super ref method) => [ref.token, method]
  | .stmt (.classDecl name superclass _) => name :: superclass.toList.map Reference.token
  | _ => []

/-- **The tokens that an error of a node may be about** are tokens, or operators inside them. -/
theorem Node.Drawn.blamed {node : Node} (h : node.Drawn ts) {t : Token} (ht : t ∈ node.blamed) :
    OperatorOf ts t := by
  cases node with
  | expr e =>
    cases e with
    | unary | assign =>
      obtain rfl := List.mem_singleton.mp ht
      exact .inl (And.left h)
    | binary =>
      obtain rfl := List.mem_singleton.mp ht
      have h := And.right h
      exact And.left h
    | read | this =>
      obtain rfl := List.mem_singleton.mp ht
      exact .inl h
    | call | set =>
      obtain rfl := List.mem_singleton.mp ht
      have h := And.right h
      exact .inl (And.left h)
    | get =>
      obtain rfl := List.mem_singleton.mp ht
      exact .inl (And.right h)
    | super =>
      rcases List.mem_cons.mp ht with rfl | ht
      · exact .inl (And.left h)
      · obtain rfl := List.mem_singleton.mp ht
        exact .inl (And.right h)
    | literal | group | logical | conditional | lambda => exact absurd ht List.not_mem_nil
  | stmt s =>
    cases s with
    | classDecl =>
      rcases List.mem_cons.mp ht with rfl | ht
      · exact .inl (And.left h)
      · obtain ⟨ref, href, rfl⟩ := List.mem_map.mp ht
        have h := And.right h
        exact .inl (And.left h ref (Option.mem_toList.mp href))
    | expr | varDecl | funDecl | branch | whileLoop | forLoop | block | ret | leave | next =>
      exact absurd ht List.not_mem_nil
  | code => exact absurd ht List.not_mem_nil

/-! ## 2. Complaints -/

/-- The complaints among some findings are about tokens of `ts`. -/
def ComplainsOf (ts : List Token) (found : List Finding) : Prop :=
  ∀ c t, .complaint c t ∈ found → t ∈ ts

section Findings

variable {ctx : Context} {scopes : Scopes} {found more : List Finding}

theorem complainsOf_nil : ComplainsOf ts [] := fun _ _ h => nomatch h

theorem ComplainsOf.append (h : ComplainsOf ts found) (h' : ComplainsOf ts more) :
    ComplainsOf ts (found ++ more) := fun c t hmem =>
  (List.mem_append.mp hmem).elim (h c t) (h' c t)

theorem complainsOf_one {c : StaticComplaint} {t : Token} (ht : t ∈ ts) :
    ComplainsOf ts [.complaint c t] := fun _ _ hmem => by
  cases List.mem_singleton.mp hmem
  exact ht

theorem complainsOf_look (scopes : Scopes) (ref : Reference) : ComplainsOf ts [scopes.look ref] :=
  fun _ _ hmem => nomatch List.mem_singleton.mp hmem

theorem complaintsOn_drawn {name : Token} (h : name ∈ ts) :
    ComplainsOf ts (scopes.complaintsOn name) := by
  unfold Scopes.complaintsOn
  split
  · exact complainsOf_one h
  · exact complainsOf_nil

theorem introduceAll_drawn {names : List Token} (h : ∀ t ∈ names, t ∈ ts) :
    ComplainsOf ts (scopes.introduceAll names).2 := by
  induction names generalizing scopes with
  | nil => exact complainsOf_nil
  | cons name rest ih =>
    rw [List.forall_mem_cons] at h
    exact (complaintsOn_drawn h.1).append (ih h.2)

theorem readFindings_drawn {ref : Reference} (h : ref.token ∈ ts) :
    ComplainsOf ts (scopes.readFindings ref) := by
  unfold Scopes.readFindings
  split
  · exact (complainsOf_one h).append (complainsOf_look scopes ref)
  · exact complainsOf_look scopes ref

theorem thisFindings_drawn {ref : Reference} (h : ref.token ∈ ts) :
    ComplainsOf ts (scopes.thisFindings ctx ref) := by
  unfold Scopes.thisFindings
  split
  · exact complainsOf_one h
  · exact complainsOf_look scopes ref
  · exact complainsOf_look scopes ref

theorem superFindings_drawn {ref : Reference} (h : ref.token ∈ ts) :
    ComplainsOf ts (scopes.superFindings ctx ref) := by
  unfold Scopes.superFindings
  split
  · exact complainsOf_one h
  · exact complainsOf_one h
  · exact complainsOf_look scopes ref

theorem superclassFindings_drawn {name : Token} {superclass : Option Reference}
    (h : ∀ ref ∈ superclass, ref.token ∈ ts) :
    ComplainsOf ts (scopes.superclassFindings name superclass) := by
  cases superclass with
  | none => exact complainsOf_nil
  | some ref =>
    rw [Scopes.superclassFindings]
    refine .append ?_ (readFindings_drawn (h ref rfl))
    split
    · exact complainsOf_one (h ref rfl)
    · exact complainsOf_nil

theorem returnComplaints_drawn {keyword : Token} {hasValue : Bool} (h : keyword ∈ ts) :
    ComplainsOf ts (returnComplaints ctx keyword hasValue) := by
  unfold returnComplaints
  refine .append ?_ ?_
  all_goals
    split
    · exact complainsOf_one h
    · exact complainsOf_nil

end Findings

mutual

/-- **The complaints about an expression** are about its tokens. -/
theorem Expr.findings_drawn {ctx : Context} {scopes : Scopes} :
    ∀ e : Expr, e.Drawn ts → ComplainsOf ts (e.findings ctx scopes)
  | .literal _, _ => complainsOf_nil
  | .group inner, h => inner.findings_drawn h
  | .unary _ operand, h => operand.findings_drawn (And.right h)
  | .binary left _ right, h =>
    (left.findings_drawn (And.left h)).append (right.findings_drawn (And.right (And.right h)))
  | .logical left _ right, h =>
    (left.findings_drawn (And.left h)).append (right.findings_drawn (And.right (And.right h)))
  | .conditional condition yes no, h =>
    ((condition.findings_drawn (And.left h)).append (yes.findings_drawn (And.left (And.right h)))).append
      (no.findings_drawn (And.right (And.right h)))
  | .read _, h => readFindings_drawn h
  | .assign ref value, h => (value.findings_drawn (And.right h)).append (complainsOf_look scopes ref)
  | .call callee _ args, h =>
    (callee.findings_drawn (And.left h)).append (exprFindings_drawn args (And.right (And.right h)))
  | .get object _, h => object.findings_drawn (And.left h)
  | .set object _ value, h =>
    (value.findings_drawn (And.right (And.right h))).append (object.findings_drawn (And.left h))
  | .this _, h => thisFindings_drawn h
  | .super _ _, h => superFindings_drawn (And.left h)
  | .lambda code, h => code.findings_drawn h

theorem exprFindings_drawn {ctx : Context} {scopes : Scopes} :
    ∀ es : List Expr, exprsDrawn ts es → ComplainsOf ts (exprFindings ctx scopes es)
  | [], _ => complainsOf_nil
  | e :: rest, h => (e.findings_drawn (And.left h)).append (exprFindings_drawn rest (And.right h))

/-- The complaints about a function are about its tokens. -/
theorem Code.findings_drawn {ctx : Context} {scopes : Scopes} :
    ∀ c : Code, c.Drawn ts → ComplainsOf ts (c.findings ctx scopes)
  | .mk _ body, h => (introduceAll_drawn (And.left h)).append (bodyFindings_drawn body (And.right h))

theorem methodFindings_drawn {ctx : Context} {scopes : Scopes} :
    ∀ methods : List FunDecl, funDeclsDrawn ts methods →
      ComplainsOf ts (methodFindings ctx scopes methods)
  | [], _ => complainsOf_nil
  | .mk _ code :: rest, h =>
    (code.findings_drawn (And.left (And.right h))).append
      (methodFindings_drawn rest (And.right (And.right h)))

/-- **The complaints about a statement** are about its tokens. -/
theorem Stmt.findings_drawn {ctx : Context} {scopes : Scopes} :
    ∀ s : Stmt, s.Drawn ts → ComplainsOf ts (s.findings ctx scopes).2
  | .expr e, h => e.findings_drawn h
  | .varDecl _ init, h => (complaintsOn_drawn (And.left h)).append (init.findings_drawn (And.right h))
  | .funDecl (.mk _ code), h =>
    (complaintsOn_drawn (And.left h)).append (code.findings_drawn (And.right h))
  | .classDecl _ _ methods, h =>
    ((complaintsOn_drawn (And.left h)).append (superclassFindings_drawn (And.left (And.right h)))).append
      (methodFindings_drawn methods (And.right (And.right h)))
  | .branch condition yes no, h =>
    ((condition.findings_drawn (And.left h)).append (yes.findings_drawn (And.left (And.right h)))).append
      (optionFindings_drawn no (And.right (And.right h)))
  | .whileLoop condition body, h =>
    (condition.findings_drawn (And.left h)).append (body.findings_drawn (And.right h))
  | .forLoop init condition increment body, h =>
    (((optionFindings_drawn init (And.left h)).append
      (condition.findings_drawn (And.left (And.right h)))).append
        (optionExprFindings_drawn increment (And.left (And.right (And.right h))))).append
          (body.findings_drawn (And.right (And.right (And.right h))))
  | .block body, h => bodyFindings_drawn body h
  | .ret _ value, h =>
    (returnComplaints_drawn (And.left h)).append (optionExprFindings_drawn value (And.right h))
  | .leave _, _ => complainsOf_nil
  | .next _, _ => complainsOf_nil

theorem bodyFindings_drawn {ctx : Context} {scopes : Scopes} :
    ∀ ss : List Stmt, stmtsDrawn ts ss → ComplainsOf ts (bodyFindings ctx scopes ss).2
  | [], _ => complainsOf_nil
  | s :: rest, h => (s.findings_drawn (And.left h)).append (bodyFindings_drawn rest (And.right h))

theorem optionFindings_drawn {ctx : Context} {scopes : Scopes} :
    ∀ o : Option Stmt, optionStmtDrawn ts o → ComplainsOf ts (optionFindings ctx scopes o).2
  | none, _ => complainsOf_nil
  | some s, h => s.findings_drawn h

theorem optionExprFindings_drawn {ctx : Context} {scopes : Scopes} :
    ∀ o : Option Expr, optionExprDrawn ts o → ComplainsOf ts (optionExprFindings ctx scopes o)
  | none, _ => complainsOf_nil
  | some e, h => e.findings_drawn h

end

/-- **Every complaint of scoping is about a token** that was parsed. -/
theorem resolve_drawn {program : List Stmt} (h : ∀ s ∈ program, s.Drawn ts) :
    ∀ c ∈ complaintsOf (resolve program), c.2 ∈ ts := by
  rintro ⟨c, t⟩ hc
  obtain ⟨f, hf, hft⟩ := List.mem_filterMap.mp hc
  cases f with
  | complaint c' t' =>
    cases hft
    rw [resolve_eq] at hf
    exact bodyFindings_drawn program (stmtsDrawn_iff.mpr h) _ _ hf
  | reference ref d => cases hft

end Lox
