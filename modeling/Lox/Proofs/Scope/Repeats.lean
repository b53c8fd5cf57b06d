import Lox.Program
import Lox.Proofs.Grammar.Nodes
import Lox.Proofs.Token.Tiling

/-!
# What scoping complains of twice

Scoping looks at every part of a program once, so it complains of a token once in the same words. The
object of a compound assignment to a property is two parts of the tree, and what is wrong in it is
complained of twice.

* `Retold ns c d`: the complaints are not the same, or they are about an object that is in the tree
  twice. `Told ts ns found`: all complaints are about tokens of `ts`, and those that are the same are
  `Retold`.
* `derives_told`: so are the complaints about a phrase of different tokens, whatever is around it.
* `complaints_repeat_in_copies`: **in a program that is read without error** two complaints at one
  place in the same words are about a copied object. `copy_complained_of_twice`: there are such.
-/

namespace Lox

/-! ## 1. Complaints that are told once -/

/-- **The same complaint twice** is one about an object that is in the tree twice. -/
def Retold (ns : List Node) (c d : StaticComplaint × Token) : Prop :=
  c.2 = d.2 → c.1.message = d.1.message →
    c = d ∧ ∃ o ctx scopes, Copied ns o ∧ c ∈ complaintsOf (o.findings ctx scopes)

/-- The complaints are about the tokens, and those that are the same are about copies. -/
structure Told (ts : List Token) (ns : List Node) (found : List Finding) : Prop where
  among : ∀ c ∈ complaintsOf found, c.2 ∈ ts
  once : (complaintsOf found).Pairwise (Retold ns)

theorem complaintsOf_append (found more : List Finding) :
    complaintsOf (found ++ more) = complaintsOf found ++ complaintsOf more := List.filterMap_append

section Told

variable {ts us : List Token} {ns ms : List Node} {found more : List Finding}

theorem Retold.mono {c d : StaticComplaint × Token} (h : Retold ns c d) (hs : ns ⊆ ms) :
    Retold ms c d := fun ht hm => by
  obtain ⟨he, o, ctx, scopes, ho, hc⟩ := h ht hm
  exact ⟨he, o, ctx, scopes, ho.mono hs, hc⟩

namespace Told

theorem quiet (h : complaintsOf found = []) : Told ts ns found := by
  constructor <;> rw [h]
  · exact fun _ h => absurd h List.not_mem_nil
  · exact .nil

theorem one {c : StaticComplaint} {t : Token} (ht : t ∈ ts)
    (h : complaintsOf found = [(c, t)]) : Told ts ns found := by
  constructor <;> rw [h]
  · exact List.forall_mem_singleton.mpr ht
  · exact List.pairwise_singleton _ _

/-- Two complaints about one token in different words. -/
theorem two {c d : StaticComplaint} {t : Token} (ht : t ∈ ts) (hm : c.message ≠ d.message)
    (h : complaintsOf found = [(c, t), (d, t)]) : Told ts ns found := by
  constructor <;> rw [h]
  · exact List.forall_mem_cons.mpr ⟨ht, List.forall_mem_singleton.mpr ht⟩
  · exact List.pairwise_pair.mpr fun _ he => absurd he hm

theorem mono (h : Told ts ns found) (ht : ts ⊆ us) (hn : ns ⊆ ms) : Told us ms found :=
  ⟨fun c hc => ht (h.among c hc), h.once.imp fun hr => hr.mono hn⟩

/-- Complaints, then findings that complain of nothing. -/
theorem quiet_after (h : Told ts ns found) (hq : complaintsOf more = []) :
    Told ts ns (found ++ more) := by
  constructor <;> rw [complaintsOf_append, hq, List.append_nil]
  · exact h.among
  · exact h.once

theorem under (h : Told ts ns found) (hn : ns ⊆ ms) : Told ts ms found :=
  h.mono (List.Subset.refl ts) hn

/-- Complaints about different tokens are different. -/
theorem append (h : Told ts ns found) (h' : Told us ms more) (hn : (ts ++ us).Nodup) :
    Told (ts ++ us) (ns ++ ms) (found ++ more) := by
  have hapart := (List.nodup_append.mp hn).2.2
  constructor <;> rw [complaintsOf_append]
  · exact List.forall_mem_append.mpr ⟨fun c hc => List.mem_append_left _ (h.among c hc),
      fun c hc => List.mem_append_right _ (h'.among c hc)⟩
  · refine List.pairwise_append.mpr ⟨h.once.imp fun hr => hr.mono (List.subset_append_left ns ms),
      h'.once.imp fun hr => hr.mono (List.subset_append_right ns ms), fun c hc d hd ht => ?_⟩
    exact absurd ht (hapart _ (h.among c hc) _ (h'.among d hd))

/-- The same complaint is one complaint. -/
theorem single (h : Told ts ns found) {c d : StaticComplaint × Token} (hc : c ∈ complaintsOf found)
    (hd : d ∈ complaintsOf found) (ht : c.2 = d.2) (hm : c.1.message = d.1.message) : c = d := by
  have hone : (complaintsOf found).Pairwise fun c d =>
      (c.2, c.1.message) = (d.2, d.1.message) → c = d :=
    h.once.imp fun hr he => (hr (congrArg Prod.fst he) (congrArg Prod.snd he)).1
  exact eq_of_pairwise hone hc hd (Prod.ext ht hm)

/-- The object of a compound assignment to a property, then the last operand, then the object again. -/
theorem copied {o : Expr} {ctx : Context} {scopes : Scopes}
    (h : Told ts o.nodes (o.findings ctx scopes)) (h' : Told us ms more) (hn : (ts ++ us).Nodup)
    (hc : Copied ns o) (ho : o.nodes ⊆ ns) (hms : ms ⊆ ns) :
    Told (ts ++ us) ns ((o.findings ctx scopes ++ more) ++ o.findings ctx scopes) := by
  have hapart := (List.nodup_append.mp hn).2.2
  have hfirst : Told (ts ++ us) ns (o.findings ctx scopes ++ more) :=
    (h.append h' hn).under (List.append_subset_of_subset_of_subset ho hms)
  constructor <;> rw [complaintsOf_append]
  · exact List.forall_mem_append.mpr
      ⟨hfirst.among, fun c hc => List.mem_append_left _ (h.among c hc)⟩
  · refine List.pairwise_append.mpr
      ⟨hfirst.once, (h.under ho).once, fun c hc' d hd ht hm => ?_⟩
    rw [complaintsOf_append] at hc'
    rcases List.mem_append.mp hc' with hc' | hc'
    · exact ⟨h.single hc' hd ht hm, o, ctx, scopes, hc, hc'⟩
    · exact absurd ht.symm (hapart _ (h.among d hd) _ (h'.among c hc'))

end Told

end Told

/-! ## 2. Single places -/

section Places

variable {ts : List Token} {ns : List Node} {ctx : Context} {scopes : Scopes}

theorem complaintsOn_told {t : Token} (ht : t ∈ ts) : Told ts ns (scopes.complaintsOn t) := by
  unfold Scopes.complaintsOn
  split
  · exact .one ht rfl
  · exact .quiet rfl

theorem readFindings_told {ref : Reference} (ht : ref.token ∈ ts) :
    Told ts ns (scopes.readFindings ref) := by
  unfold Scopes.readFindings
  split
  · exact .one ht rfl
  · exact .quiet rfl

theorem thisFindings_told {ref : Reference} (ht : ref.token ∈ ts) :
    Told ts ns (scopes.thisFindings ctx ref) := by
  unfold Scopes.thisFindings
  split
  · exact .one ht rfl
  · exact .quiet rfl
  · exact .quiet rfl

theorem superFindings_told {ref : Reference} (ht : ref.token ∈ ts) :
    Told ts ns (scopes.superFindings ctx ref) := by
  unfold Scopes.superFindings
  split
  · exact .one ht rfl
  · exact .one ht rfl
  · exact .quiet rfl

theorem superclassFindings_told {name : Token} {ref : Reference} (ht : ref.token ∈ ts) :
    Told ts ns (scopes.superclassFindings name (some ref)) := by
  rw [Scopes.superclassFindings, Scopes.readFindings]
  split <;> split
  · exact .two ht (by decide) rfl
  · exact .one ht rfl
  · exact .one ht rfl
  · exact .quiet rfl

theorem returnComplaints_told {keyword : Token} {hasValue : Bool} (ht : keyword ∈ ts) :
    Told ts ns (returnComplaints ctx keyword hasValue) := by
  unfold returnComplaints
  split <;> split
  · exact .two ht (by decide) rfl
  · exact .one ht rfl
  · exact .one ht rfl
  · exact .quiet rfl

theorem introduceAll_told {params : List Token} (hn : params.Nodup) :
    Told params ns (scopes.introduceAll params).2 := by
  induction params generalizing scopes with
  | nil => exact .quiet rfl
  | cons t rest ih =>
    have hfirst : Told [t] [] (scopes.complaintsOn t) := complaintsOn_told (List.mem_singleton_self t)
    exact hfirst.append (ih (List.nodup_cons.mp hn).2) hn

end Places

/-! ## 3. Phrases -/

namespace Syntax

/-- The nodes of a phrase. -/
def treeNodes : (s : Symbol) → s.Tree → List Node
  | .primary, e | .call, e | .unary, e | .within _, e | .operand _, e | .conditional, e
  | .assignment, e | .expression, e => Expr.nodes e
  | .arguments, es | .argumentList, es => exprsNodes es
  | .optionalExpression, o => optionExprNodes o
  | .names, _ | .parameterList, _ => []
  | .code, c => Code.nodes c
  | .function, f => FunDecl.nodes f
  | .methods, fs => funDeclsNodes fs
  | .superclass, o => o.toList.map fun ref => .expr (.read ref)
  | .loopStart, o => optionStmtNodes o
  | .variable, s | .expressionStatement, s | .statement _, s | .declaration _, s => Stmt.nodes s
  | .declarations _, ss => stmtsNodes ss

/-- The tokens that scoping sees as part of a phrase. The name of a function belongs to what
    declares it. -/
def Symbol.own : Symbol → List Token → List Token
  | .function, ts => ts.tail
  | _, ts => ts

theorem Symbol.own_subset (s : Symbol) (ts : List Token) : s.own ts ⊆ ts := by
  cases s with
  | function => exact List.tail_subset ts
  | _ => exact List.Subset.refl ts

/-- What scoping complains of in a phrase of different tokens, whatever is around it. -/
def TreeTold (ts : List Token) (s : Symbol) (x : s.Tree) : Prop :=
  ts.Nodup → ∀ ctx scopes, Told (s.own ts) (treeNodes s x) (treeFindings ctx scopes s x)

/-- The names that a phrase is. -/
def namesOf : (s : Symbol) → s.Tree → List Token
  | .names, ns | .parameterList, ns => ns
  | _, _ => []

theorem derives_names {g : ElseRule} {s : Symbol} {a b : Nat} {ts : List Token} {x : s.Tree}
    (h : Derives g s a ts x b) : (namesOf s x).Sublist ts := by
  induction h with
  | lastName => exact .refl _
  | moreNames _ _ _ ih => exact .cons_cons _ (.cons _ ih)
  | someParameters _ _ ih => exact ih
  | _ => exact List.nil_sublist _

section

variable {s t : Symbol} {x : s.Tree} {y : t.Tree} {ts us vs : List Token} {ns ms : List Node}
  {found : List Finding}

/-- A phrase among more tokens. -/
theorem TreeTold.within (hx : TreeTold ts s x) (hs : ts.Sublist vs) (hn : vs.Nodup) (ctx : Context)
    (scopes : Scopes) : Told vs (treeNodes s x) (treeFindings ctx scopes s x) :=
  (hx (hn.sublist hs) ctx scopes).mono (List.Subset.trans (s.own_subset ts) hs.subset)
    (List.Subset.refl _)

/-- Findings, then a phrase, among more tokens. -/
theorem TreeTold.after (hx : TreeTold ts s x) (hf : Told us ns found) (hs : (us ++ ts).Sublist vs)
    (hn : vs.Nodup) (ctx : Context) (scopes : Scopes) :
    Told vs (ns ++ treeNodes s x) (found ++ treeFindings ctx scopes s x) :=
  have hboth := hn.sublist hs
  have hx := hx.within (.refl ts) (List.nodup_append.mp hboth).2.1 ctx scopes
  (hf.append hx hboth).mono hs.subset (List.Subset.refl _)

/-- A literal stands for a missing expression. -/
theorem TreeTold.getD {o : Option Expr} (h : TreeTold ts .optionalExpression o) (l : Literal) :
    TreeTold ts .expression (o.getD (.literal l)) := by
  cases o with
  | none => exact fun _ _ _ => .quiet rfl
  | some e => exact h

/-- Two phrases among more tokens. -/
theorem TreeTold.both (hx : TreeTold ts s x) (hy : TreeTold us t y) (hs : (ts ++ us).Sublist vs)
    (hn : vs.Nodup) (ctx ctx' : Context) (scopes scopes' : Scopes) :
    Told vs (treeNodes s x ++ treeNodes t y)
      (treeFindings ctx scopes s x ++ treeFindings ctx' scopes' t y) :=
  hy.after (hx.within (.refl ts) (List.nodup_append.mp (hn.sublist hs)).1 ctx scopes) hs hn ctx' scopes'

end

/-- **What scoping complains of in a phrase.** -/
theorem derives_told {g : ElseRule} {s : Symbol} {a b : Nat} {ts : List Token} {x : s.Tree}
    (h : Derives g s a ts x b) : TreeTold ts s x := by
  induction h with
  | literal | noArguments | noExpression | lastName | noParameters | noMethods | noSuperclass
  | noStart | leave | next | noDeclarations | moreNames => exact fun _ _ _ => .quiet rfl
  | callee _ ih | unsigned _ ih | tightest _ ih | tighter _ ih | single _ ih | noChoice _ ih
  | noAssignment _ ih | oneAssignment _ ih | someExpression _ ih | someArguments _ _ ih
  | someParameters _ _ ih | expressionStart _ ih | simple _ ih | statement _ ih => exact ih
  | this => exact fun _ _ _ => thisFindings_told (List.mem_singleton_self _)
  | super => exact fun _ _ _ => superFindings_told List.mem_cons_self
  | name => exact fun _ _ _ => readFindings_told (List.mem_singleton_self _)
  | superclass => exact fun _ _ _ => readFindings_told (List.mem_cons_of_mem _ List.mem_cons_self)
  | function _ _ ih => exact fun hn ctx scopes => ih (List.nodup_cons.mp hn).2 ctx scopes
  | variableStart _ _ ih | varDecl _ _ ih =>
    exact fun hn ctx scopes => ih.within (List.sublist_cons_self _ _) hn ctx scopes
  | sign _ _ ih | lambda _ _ ih =>
    exact fun hn ctx scopes => (ih.within (List.sublist_cons_self _ _) hn _ scopes).under
      (List.subset_cons_self _ _)
  | property _ _ _ ih | group _ _ _ ih | expressionStatement _ _ ih | block _ _ _ ih =>
    exact fun hn ctx scopes => (ih.within (by simp) hn _ _).under (List.subset_cons_self _ _)
  | apply _ _ _ _ ihe ihargs =>
    exact fun hn ctx scopes => (ihe.both ihargs (by simp) hn ctx ctx scopes scopes).under
      (List.subset_cons_self _ _)
  | comma _ _ _ ihl ihr =>
    exact fun hn ctx scopes => (ihl.both ihr (by simp) hn ctx ctx scopes scopes).under
      (List.subset_cons_self _ _)
  | @join _ _ _ l _ _ _ _ _ _ _ _ ihl ihr =>
    intro hn ctx scopes
    have h := ihl.both ihr (by simp) hn ctx ctx scopes scopes
    cases l <;> exact h.under (List.subset_cons_self _ _)
  | @lastArgument _ _ _ e _ ih =>
    intro hn ctx scopes
    show Told _ (e.nodes ++ []) (e.findings ctx scopes ++ [])
    rw [List.append_nil, List.append_nil]
    exact ih hn ctx scopes
  | moreArguments _ _ _ ihe ihes =>
    exact fun hn ctx scopes => ihe.both ihes (by simp) hn ctx ctx scopes scopes
  | moreDeclarations _ _ ihs ihss =>
    intro hn ctx scopes
    show Told _ _ (bodyFindings ctx scopes (_ :: _)).2
    rw [bodyFindings_cons]
    exact ihs.both ihss (.refl _) hn ctx ctx scopes _
  | @moreMethods _ _ _ _ f _ _ _ _ ihf ihfs =>
    intro hn ctx scopes
    obtain ⟨name, code⟩ := f
    exact ihf.both ihfs (.refl _) hn _ ctx scopes scopes
  | choice _ _ _ _ _ ihe ihyes ihno =>
    intro hn ctx scopes
    have hhead := ihe.both ihyes (.refl _) (hn.sublist (by simp)) ctx ctx scopes scopes
    exact (ihno.after hhead (by simp) hn ctx scopes).under (List.subset_cons_self _ _)
  | @assign a b n eq ts v w _ _ hw ih =>
    intro hn ctx scopes
    show Told _ _ (w.findings ctx scopes ++ [scopes.look ⟨⟨b⟩, n⟩])
    have hread : Told [n] [] (scopes.readFindings ⟨⟨a⟩, n⟩) := readFindings_told List.mem_cons_self
    have hvalue : Told (n :: eq :: ts) w.nodes (w.findings ctx scopes) := by
      cases hw with
      | plain => exact ih.within (by simp) hn ctx scopes
      | joined =>
        exact (ih.after hread (by simp) hn ctx scopes).under fun m hm =>
          List.mem_cons_of_mem _ (List.mem_cons_of_mem _ hm)
    exact (hvalue.quiet_after rfl).under (List.subset_cons_self _ _)
  | @set _ _ _ ts e d n eq us v w _ _ _ _ hw ihe ihv =>
    intro hn ctx scopes
    show Told _ _ (w.findings ctx scopes ++ e.findings ctx scopes)
    have hsub : (ts ++ us).Sublist (ts ++ d :: n :: eq :: us) :=
      .append (.refl ts) (.cons d (.cons n (.cons eq (.refl us))))
    cases hw with
    | plain =>
      have hswap : (us ++ ts).Nodup := List.nodup_append_comm.mp (hn.sublist hsub)
      have hall := ihv.both ihe (.refl _) hswap ctx ctx scopes scopes
      refine hall.mono (fun t ht => hsub.subset ?_) fun m hm => List.mem_cons_of_mem _ ?_
      · exact List.mem_append.mpr (List.mem_append.mp ht).symm
      · exact List.mem_append.mpr (List.mem_append.mp hm).symm
    | joined =>
      have hparts := List.nodup_append.mp (hn.sublist hsub)
      have hobject : Told ts e.nodes (e.findings ctx scopes) := ihe hparts.1 ctx scopes
      have hoperand : Told us v.nodes (v.findings ctx scopes) := ihv hparts.2.1 ctx scopes
      refine (hobject.copied hoperand (hn.sublist hsub) ⟨n, _, v, List.mem_cons_self⟩ (fun m hm => ?_)
        fun m hm => ?_).mono hsub.subset (List.Subset.refl _)
      · exact List.mem_cons_of_mem _ (List.mem_append_left _ hm)
      · exact List.mem_cons_of_mem _ (List.mem_append_right _
          (List.mem_cons_of_mem _ (List.mem_append_right _ hm)))
  | @code _ _ _ p ts params q o us _ u _ hns _ _ _ _ _ ihbody =>
    intro hn ctx scopes
    show Told _ _ ((Code.mk _ _).findings ctx scopes)
    rw [findings_code]
    have hparams : params.Sublist ts := derives_names hns
    have hfound : Told params [] (Scopes.introduceAll ([] :: scopes) params).2 :=
      introduceAll_told (hn.sublist (.cons p (.trans hparams (List.sublist_append_left ts _))))
    have hsub : (params ++ us).Sublist (p :: (ts ++ q :: o :: (us ++ [u]))) :=
      .cons p (.append hparams (.cons q (.cons o (List.sublist_append_left us _))))
    exact ihbody.after hfound hsub hn ctx _
  | bareVariable =>
    intro hn ctx scopes
    show Told _ _ (scopes.complaintsOn _ ++ [])
    rw [List.append_nil]
    exact complaintsOn_told List.mem_cons_self
  | @initializedVariable _ _ n _ _ _ _ _ _ _ _ ih =>
    intro hn ctx scopes
    have hname : Told [n] [] (scopes.complaintsOn n) := complaintsOn_told List.mem_cons_self
    exact (ih.after hname (by simp) hn ctx _).under (List.subset_cons_self _ _)
  | @forLoop _ _ _ _ _ _ t p is init cs _ u us _ q ss _ _ _ _ _ _ _ _ _ ihinit ihcond ihinc ihbody =>
    intro hn ctx scopes
    show Told _ _ ((Stmt.forLoop _ _ _ _).findings ctx scopes).2
    rw [findings_forLoop]
    have hsub : (is ++ cs ++ us ++ ss).Sublist (t :: p :: (is ++ (cs ++ u :: (us ++ q :: ss)))) := by
      simp only [List.append_assoc]
      exact .cons t (.cons p (.append (.refl is) (.append (.refl cs)
        (.cons u (.append (.refl us) (.cons q (.refl ss)))))))
    have hinner : (is ++ cs ++ us).Nodup := (List.nodup_append.mp (hn.sublist hsub)).1
    have hstart := ihinit.both (ihcond.getD (.bool true)) (.refl _) (List.nodup_append.mp hinner).1
      ctx ctx ([] :: scopes) (optionFindings ctx ([] :: scopes) init).1
    have hhead := ihinc.after hstart (.refl _) hinner ctx (optionFindings ctx ([] :: scopes) init).1
    exact (ihbody.after hhead hsub hn ctx _).under (List.subset_cons_self _ _)
  | @whileLoop _ _ _ _ t p ts _ q ss _ _ _ _ _ _ ihcond ihbody =>
    intro hn ctx scopes
    show Told _ _ ((Stmt.whileLoop _ _).findings ctx scopes).2
    rw [findings_whileLoop]
    have hsub : (ts ++ ss).Sublist (t :: p :: (ts ++ q :: ss)) :=
      .cons t (.cons p (.append (.refl ts) (.cons q (.refl ss))))
    exact (ihcond.both ihbody hsub hn ctx ctx scopes scopes).under (List.subset_cons_self _ _)
  | @branch _ _ _ _ t p ts _ q ss _ _ _ _ _ _ ihcond ihyes =>
    intro hn ctx scopes
    show Told _ _ ((Stmt.branch _ _ none).findings ctx scopes).2
    rw [findings_branch, optionFindings, List.append_nil]
    have hsub : (ts ++ ss).Sublist (t :: p :: (ts ++ q :: ss)) :=
      .cons t (.cons p (.append (.refl ts) (.cons q (.refl ss))))
    refine (ihcond.both ihyes hsub hn ctx ctx scopes scopes).under fun m hm => ?_
    exact List.mem_cons_of_mem _ (List.mem_append_left _ hm)
  | @branchElse _ _ _ _ _ t p ts _ q ss _ u us _ _ _ _ _ _ _ _ _ ihcond ihyes ihno =>
    intro hn ctx scopes
    show Told _ _ ((Stmt.branch _ _ (some _)).findings ctx scopes).2
    rw [findings_branch, optionFindings]
    have hsub : (ts ++ ss ++ us).Sublist (t :: p :: (ts ++ q :: (ss ++ u :: us))) := by
      rw [List.append_assoc]
      exact .cons t (.cons p (.append (.refl ts) (.cons q (.append (.refl ss) (.cons u (.refl us))))))
    have hhead := ihcond.both ihyes (.refl _) (List.nodup_append.mp (hn.sublist hsub)).1
      ctx ctx scopes scopes
    exact (ihno.after hhead hsub hn ctx _).under (List.subset_cons_self _ _)
  | @ret _ _ _ t _ _ _ _ _ _ ih =>
    intro hn ctx scopes
    have hkeyword (hasValue : Bool) : Told [t] [] (returnComplaints ctx t hasValue) :=
      returnComplaints_told List.mem_cons_self
    exact (ih.after (hkeyword _) (by simp) hn ctx scopes).under (List.subset_cons_self _ _)
  | @classDecl _ _ _ _ t n ss sup o ms _ u _ _ hsup _ _ _ _ ihms =>
    intro hn ctx scopes
    have hname : Told [n] [] (scopes.complaintsOn n) := complaintsOn_told List.mem_cons_self
    have hsuper : Told ss (sup.toList.map fun ref => .expr (.read ref))
        ((scopes.introduce n).superclassFindings n sup) := by
      cases hsup with
      | noSuperclass => exact .quiet rfl
      | superclass => exact superclassFindings_told (List.mem_cons_of_mem _ List.mem_cons_self)
    have hsub : ([n] ++ ss ++ ms).Sublist (t :: n :: (ss ++ o :: (ms ++ [u]))) :=
      .cons t (.cons_cons n (.append (.refl ss) (.cons o (List.sublist_append_left ms [u]))))
    have hhead := hname.append hsuper (List.nodup_append.mp (hn.sublist hsub)).1
    exact (ihms.after hhead hsub hn _ _).under (List.subset_cons_self _ _)
  | @funDecl _ _ _ _ _ f _ hf ih =>
    intro hn ctx scopes
    cases hf with
    | @function _ _ n ts _ _ _ =>
      have hfunction := (List.nodup_cons.mp hn).2
      have hname : Told [n] [] (scopes.complaintsOn n) := complaintsOn_told List.mem_cons_self
      have hall := hname.append (ih hfunction { ctx with function := .function } (scopes.introduce n))
        hfunction
      exact hall.mono (List.subset_cons_self _ _) (List.subset_cons_self _ _)

end Syntax

/-! ## 4. Sources -/

/-- Tokens of a source that stand at one place are one token. -/
theorem token_of_pos {source : List UInt8} {t u : Token}
    (ht : t ∈ (Token.tokensOf (Token.scan source)).takeWhile (·.kind ≠ .eof))
    (hu : u ∈ (Token.tokensOf (Token.scan source)).takeWhile (·.kind ≠ .eof)) (h : t.pos = u.pos) :
    t = u :=
  eq_of_pairwise ((Token.scan_tokens_apart source).imp fun hne he => absurd he hne) ht hu h

/-- **What scoping complains of twice.** Where a source is read without error, two complaints about
    one place in the same words are the same, and they are about the object of a compound assignment
    to a property, which is in the tree twice. -/
theorem complaints_repeat_in_copies {source : List UInt8} {nextId : Nat}
    (h : (Reading.ofBytes source nextId).reports = []) :
    (complaintsOf (resolve (Reading.ofBytes source nextId).statements)).Pairwise fun c d =>
      c.2.pos = d.2.pos → c.1.message = d.1.message →
        c = d ∧ ∃ o ctx scopes, Copied (stmtsNodes (Reading.ofBytes source nextId).statements) o ∧
          c ∈ complaintsOf (o.findings ctx scopes) := by
  have hparse : (Syntax.parse (Token.tokensOf (Token.scan source)) nextId).errors = [] :=
    List.map_eq_nil_iff.mp (List.append_eq_nil_iff.mp h).2
  have hnodup : ((Token.tokensOf (Token.scan source)).takeWhile (·.kind ≠ .eof)).Nodup :=
    (Token.scan_tokens_apart source).imp fun hne he => hne (congrArg Token.pos he)
  have htold := Syntax.derives_told (Syntax.parse_derives hparse) hnodup ⟨.none, .none⟩ []
  rw [resolve_eq]
  refine htold.once.imp_of_mem fun {c d} hc hd hr hpos hm => ?_
  exact hr (token_of_pos (htold.among c hc) (htold.among d hd) hpos) hm

/-- Both `this` of `return this.a += this;` are outside of a class, and only the first is copied. -/
theorem complaints_repeat_in_copies_returned :
    let reading := Reading.ofBytes (Text.Utf8.encode "return this.a += this;") 0
    reading.reports = [] ∧
      (complaintsOf (resolve reading.statements)).Pairwise fun c d =>
        c.2.pos = d.2.pos → c.1.message = d.1.message →
          c = d ∧ ∃ o ctx scopes, Copied (stmtsNodes reading.statements) o ∧
            c ∈ complaintsOf (o.findings ctx scopes) := by
  intro reading
  have h : reading.reports = [] := by cbv
  exact ⟨h, complaints_repeat_in_copies h⟩

/-- The one `this` of `this.a += nil;` is complained of twice. -/
theorem copy_complained_of_twice :
    let reading := Reading.ofBytes (Text.Utf8.encode "this.a += nil;") 0
    let this : Token := ⟨.kwThis, "this", ⟨1, 4⟩⟩
    reading.reports = [] ∧
      complaintsOf (resolve reading.statements) =
        [(.thisOutsideClass, this), (.thisOutsideClass, this)] :=
  ⟨by cbv, by cbv⟩

end Lox
