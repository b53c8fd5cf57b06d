import Lox.Proofs.Likeness.Machines
import Lox.Proofs.Scope.Numbering

/-!
# Scoping finds out like things about programs that are alike

* `ScopesLike`: two lists of scopes, under the renamings of their names.
* `FindingLike`: two findings. A reference lies as far out in both programs.
* `DepthsAgree L found`: what scoping has to find out about references for the two programs to be resolved
  alike. Where names stay, this is so whatever is found.
* `StmtsLike.findings`: **the findings are alike**, one case a form.
* `noteAll_like`: the tables that findings are noted in agree on like references.
-/

namespace Lox

variable {L : Likeness} {keys : List Renaming} {scopes scopes' : Scopes}

/-! ## 1. Scopes -/

/-- Two lists of scopes around a place, under the renamings of their names. -/
inductive ScopesLike (L : Likeness) : List Renaming → Scopes → Scopes → Prop where
  | nil : ScopesLike L [] [] []
  | cons {r keys s s' outer outer'} (hr : L.scope r) (hs : BindingsLike Eq r s s')
      (hnames : ∀ n, s.binds n = true → L.names n) (houter : ScopesLike L keys outer outer') :
      ScopesLike L (r :: keys) (s :: outer) (s' :: outer')

namespace ScopesLike

theorem scope (h : ScopesLike L keys scopes scopes') : ∀ r ∈ keys, L.scope r := by
  induction h with
  | nil => exact fun _ hr => nomatch hr
  | cons hr _ _ _ ih => exact List.forall_mem_cons.mpr ⟨hr, ih⟩

theorem scope_innermost (h : ScopesLike L keys scopes scopes') : L.scope (innermost keys) := by
  cases h with
  | nil => exact L.same
  | cons hr _ _ _ => exact hr

/-- The renaming at a distance, if there is one. -/
theorem scope_at (h : ScopesLike L keys scopes scopes') (d : Option Nat) :
    L.scope ((d.bind fun d => keys[d]?).getD .same) := by
  cases hd : d.bind fun d => keys[d]? with
  | none => exact L.same
  | some r =>
    obtain ⟨d, -, hr⟩ := Option.bind_eq_some_iff.mp hd
    exact h.scope r (List.mem_of_getElem? hr)

theorem push (h : ScopesLike L keys scopes scopes') {r : Renaming} (hr : L.scope r) :
    ScopesLike L (r :: keys) ([] :: scopes) ([] :: scopes') :=
  .cons hr .nil (fun _ hn => nomatch hn) h

theorem declare (h : ScopesLike L keys scopes scopes') {n : String} (hn : L.names n) :
    ScopesLike L keys (scopes.declare n) (scopes'.declare ((innermost keys).new n)) := by
  cases h with
  | nil => exact .nil
  | @cons r _ s s' _ _ hr hs hnames houter =>
    refine .cons hr ?_ (fun m hm => ?_) houter
    · show BindingsLike Eq r _ (if s'.binds (r.new n) then _ else _)
      rw [hs.binds n]
      split
      · exact hs
      · exact hs.put n rfl
    · rcases (Scope.binds_declared s n m).mp hm with hm | rfl
      · exact hnames m hm
      · exact hn

theorem define (h : ScopesLike L keys scopes scopes') {n : String} (hn : L.names n) :
    ScopesLike L keys (scopes.define n) (scopes'.define ((innermost keys).new n)) := by
  cases h with
  | nil => exact .nil
  | cons hr hs hnames houter =>
    refine .cons hr (hs.put n rfl) (fun m hm => ?_) houter
    rcases (Bindings.binds_put _ n m true).mp hm with rfl | hm
    · exact hn
    · exact hnames m hm

theorem introduce (h : ScopesLike L keys scopes scopes') {t t' : Token}
    (ht : L.Declared (innermost keys) t t') :
    ScopesLike L keys (scopes.introduce t) (scopes'.introduce t') := by
  unfold Scopes.introduce
  rw [ht.lexeme]
  exact (h.declare ht.named).define ht.named

theorem hasInnermost (h : ScopesLike L keys scopes scopes') (n : String) :
    scopes'.hasInnermost ((innermost keys).new n) = scopes.hasInnermost n := by
  cases h with
  | nil => rfl
  | cons _ hs _ _ => exact hs.binds n

/-- Whether a name is incomplete, if it lies as far out in both. -/
theorem isIncomplete (h : ScopesLike L keys scopes scopes') {n n' : String}
    (hn : n' = spelled keys (scopes.depthOf? n) n)
    (hdepth : scopes'.depthOf? n' = scopes.depthOf? n) :
    scopes'.isIncomplete n' = scopes.isIncomplete n := by
  cases h with
  | nil => rfl
  | @cons r keys s s' outer outer' _ hs _ _ =>
    show (s'.find? n' == some false) = (s.find? n == some false)
    rw [Scopes.depthOf?, Scopes.depthOf?] at hdepth
    rw [Scopes.depthOf?] at hn
    by_cases hb : s.binds n = true
    · rw [if_pos hb] at hn
      obtain rfl : n' = r.new n := hn
      have hfind := hs.find? n
      generalize s.find? n = x, s'.find? (r.new n) = x' at hfind ⊢
      cases hfind with
      | none => rfl
      | some h => rw [h]
    · have hb' : ¬ s'.binds n' = true := by
        intro hb'
        rw [if_pos hb', if_neg hb] at hdepth
        obtain ⟨d, -, hd⟩ := Option.map_eq_some_iff.mp hdepth.symm
        exact Nat.succ_ne_zero d hd
      unfold Bindings.binds at hb hb'
      rw [Option.not_isSome_iff_eq_none.mp hb, Option.not_isSome_iff_eq_none.mp hb']

/-- The scopes of the methods of a class. -/
theorem ofMethods (h : ScopesLike L keys scopes scopes') {superclass superclass' : Option Reference}
    (hsuperclass : SuperclassLike L keys superclass superclass') :
    ScopesLike L (.same :: classKeys superclass keys) (scopes.ofMethods superclass)
      (scopes'.ofMethods superclass') := by
  have hone : ∀ {n : String}, L.names n →
      ∀ m, Bindings.binds [(n, true)] m = true → L.names m := by
    intro n hn m hm
    unfold Bindings.binds Bindings.find? at hm
    by_cases hnm : n = m
    · exact hnm ▸ hn
    · simp [hnm] at hm
  cases hsuperclass with
  | none => exact .cons L.same (.single rfl) (hone L.names_this) h
  | some _ =>
    exact .cons L.same (.single rfl) (hone L.names_this)
      (.cons L.same (.single rfl) (hone L.names_super) h)

end ScopesLike

theorem SuperclassLike.inClass {superclass superclass' : Option Reference} {ctx : Context}
    (h : SuperclassLike L keys superclass superclass') :
    ctx.inClass superclass = ctx.inClass superclass' := by
  cases h <;> rfl

theorem OptionExprLike.isSome_eq {e e' : Option Expr} (h : OptionExprLike L keys e e') :
    e'.isSome = e.isSome := by
  cases h <;> rfl

theorem depthOf?_introduce (hne : scopes ≠ []) (t : Token) :
    (scopes.introduce t).depthOf? t.lexeme = some 0 := by
  cases scopes with
  | nil => exact absurd rfl hne
  | cons s outer => exact if_pos ((Bindings.binds_put _ _ _ _).mpr (.inl rfl))

/-! ## 2. Findings -/

/-- A complaint about a name, renamed. -/
def StaticComplaint.renamed (r : Renaming) : StaticComplaint → StaticComplaint
  | .redeclared n => .redeclared (r.new n)
  | c => c

/-- Two findings. -/
inductive FindingLike (L : Likeness) : Finding → Finding → Prop where
  | complaint {r c t t'} (hr : L.scope r) (hlexeme : t'.lexeme = r.new t.lexeme)
      (hpos : L.pos t.pos t'.pos) : FindingLike L (.complaint c t) (.complaint (c.renamed r) t')
  | reference {keys ref ref' d} (h : L.ref keys ref ref') :
      FindingLike L (.reference ref d) (.reference ref' d)

/-- Two lists of findings. -/
abbrev FindingsLike (L : Likeness) : List Finding → List Finding → Prop :=
  List.Forall₂ (FindingLike L)

/-- **References lie as far out in both programs**, by what scoping finds out about the first. -/
structure DepthsAgree (L : Likeness) (found : List Finding) : Prop where
  depth : ∀ {keys scopes scopes' ref ref'}, ScopesLike L keys scopes scopes' →
    L.ref keys ref ref' → .reference ref (scopes.depthOf? ref.name) ∈ found →
    ref'.name = spelled keys (scopes.depthOf? ref.name) ref.name ∧
      scopes'.depthOf? ref'.name = scopes.depthOf? ref.name
  complaint : ∀ {keys ref ref' c}, L.ref keys ref ref' → .complaint c ref.token ∈ found →
    ∃ r, L.scope r ∧ ref'.name = r.new ref.name

section Parts

variable {found : List Finding} (hlook : DepthsAgree L found) {ctx : Context} {ref ref' : Reference}
  {t t' : Token}

theorem token_complaint (c : StaticComplaint) (ht : L.Token t t') :
    FindingLike L (.complaint c t) (.complaint (c.renamed .same) t') := .complaint L.same ht.lexeme ht.pos

theorem complaintsOn_like (h : ScopesLike L keys scopes scopes')
    (ht : L.Declared (innermost keys) t t') :
    FindingsLike L (scopes.complaintsOn t) (scopes'.complaintsOn t') := by
  unfold Scopes.complaintsOn
  rw [ht.lexeme, h.hasInnermost]
  split
  · exact .cons (.complaint (c := .redeclared t.lexeme) h.scope_innermost ht.lexeme ht.pos) .nil
  · exact .nil

theorem introduceAll_like (h : ScopesLike L keys scopes scopes') {params params' : List Token}
    (hparams : List.Forall₂ (L.Declared (innermost keys)) params params') :
    ScopesLike L keys (scopes.introduceAll params).1 (scopes'.introduceAll params').1 ∧
      FindingsLike L (scopes.introduceAll params).2 (scopes'.introduceAll params').2 := by
  induction hparams generalizing scopes scopes' with
  | nil => exact ⟨h, .nil⟩
  | cons ht _ ih =>
    obtain ⟨hinner, hfound⟩ := ih (h.introduce ht)
    exact ⟨hinner, List.rel_append (complaintsOn_like h ht) hfound⟩

theorem returnComplaints_like (ht : L.Token t t') (hasValue : Bool) :
    FindingsLike L (returnComplaints ctx t hasValue) (returnComplaints ctx t' hasValue) := by
  refine List.rel_append ?_ ?_
  · split
    · exact .cons (token_complaint .topLevelReturn ht) .nil
    · exact .nil
  · split
    · exact .cons (token_complaint .initializerReturn ht) .nil
    · exact .nil

include hlook

theorem look_like (h : ScopesLike L keys scopes scopes') (href : L.ref keys ref ref')
    (hf : scopes.look ref ∈ found) : FindingLike L (scopes.look ref) (scopes'.look ref') := by
  unfold Scopes.look at hf ⊢
  rw [(hlook.depth h href hf).2]
  exact .reference href

theorem reference_complaint (href : L.ref keys ref ref') {c : StaticComplaint}
    (hc : ∀ r, c.renamed r = c) (hf : .complaint c ref.token ∈ found) :
    FindingLike L (.complaint c ref.token) (.complaint c ref'.token) := by
  obtain ⟨r, hr, hname⟩ := hlook.complaint href hf
  have hlike := FindingLike.complaint (c := c) hr hname (L.ref_pos href)
  rwa [hc r] at hlike

theorem readFindings_like (h : ScopesLike L keys scopes scopes') (href : L.ref keys ref ref')
    (hf : scopes.readFindings ref ⊆ found) :
    FindingsLike L (scopes.readFindings ref) (scopes'.readFindings ref') := by
  have hlooked : scopes.look ref ∈ found := by
    refine hf ?_
    unfold Scopes.readFindings
    split
    · exact List.mem_cons_of_mem _ List.mem_cons_self
    · exact List.mem_cons_self
  obtain ⟨hname, hdepth⟩ := hlook.depth h href hlooked
  unfold Scopes.readFindings at hf ⊢
  rw [h.isIncomplete hname hdepth]
  split
  · next hincomplete =>
    rw [if_pos hincomplete] at hf
    exact .cons (reference_complaint hlook href (fun _ => rfl) (hf List.mem_cons_self))
      (.cons (look_like hlook h href hlooked) .nil)
  · exact .cons (look_like hlook h href hlooked) .nil

theorem thisFindings_like (h : ScopesLike L keys scopes scopes') (href : L.ref keys ref ref')
    (hf : scopes.thisFindings ctx ref ⊆ found) :
    FindingsLike L (scopes.thisFindings ctx ref) (scopes'.thisFindings ctx ref') := by
  unfold Scopes.thisFindings at hf ⊢
  cases hclass : ctx.ofClass with
  | none =>
    rw [hclass] at hf
    exact .cons (reference_complaint hlook href (fun _ => rfl) (hf List.mem_cons_self)) .nil
  | base | derived =>
    rw [hclass] at hf
    exact .cons (look_like hlook h href (hf List.mem_cons_self)) .nil

theorem superFindings_like (h : ScopesLike L keys scopes scopes') (href : L.ref keys ref ref')
    (hf : scopes.superFindings ctx ref ⊆ found) :
    FindingsLike L (scopes.superFindings ctx ref) (scopes'.superFindings ctx ref') := by
  unfold Scopes.superFindings at hf ⊢
  cases hclass : ctx.ofClass with
  | none | base =>
    rw [hclass] at hf
    exact .cons (reference_complaint hlook href (fun _ => rfl) (hf List.mem_cons_self)) .nil
  | derived =>
    rw [hclass] at hf
    exact .cons (look_like hlook h href (hf List.mem_cons_self)) .nil

/-- A class names itself as its superclass in both programs, or in neither. -/
theorem ownSuperclass_iff (h : ScopesLike L keys scopes scopes') (ht : L.Token t t')
    (hnamed : L.names t.lexeme) (hstays : (innermost keys).new t.lexeme = t.lexeme)
    (href : L.ref keys ref ref') (hf : (scopes.introduce t).look ref ∈ found) :
    ref'.name = t'.lexeme ↔ ref.name = t.lexeme := by
  have hdeclared : L.Declared (innermost keys) t t' :=
    ⟨⟨ht.kind, ht.lexeme.trans hstays.symm, ht.pos⟩, hnamed⟩
  obtain ⟨hname, hdepth⟩ := hlook.depth (h.introduce hdeclared) href hf
  cases h with
  | nil =>
    rw [ht.lexeme]
    rw [show ref'.name = ref.name from hname]
  | @cons r keys s s' outer outer' _ _ _ _ =>
    -- the class is the innermost name, in both
    have hself : (Scopes.introduce (s :: outer) t).depthOf? t.lexeme = some 0 :=
      depthOf?_introduce (List.cons_ne_nil _ _) t
    have hself' : (Scopes.introduce (s' :: outer') t').depthOf? t'.lexeme = some 0 :=
      depthOf?_introduce (List.cons_ne_nil _ _) t'
    constructor
    · intro he
      rw [he, hself'] at hdepth
      rw [← hdepth] at hname
      have hnew : r.new ref.name = r.new t.lexeme := by
        rw [show r.new t.lexeme = t.lexeme from hstays, ← ht.lexeme, ← he]
        exact hname.symm
      exact r.injective hnew
    · intro he
      rw [he, hself] at hname
      rw [hname, ht.lexeme]
      exact hstays

theorem superclassFindings_like (h : ScopesLike L keys scopes scopes') (ht : L.Token t t')
    (hnamed : L.names t.lexeme) (hstays : (innermost keys).new t.lexeme = t.lexeme)
    {superclass superclass' : Option Reference}
    (hsuperclass : SuperclassLike L keys superclass superclass')
    (hf : (scopes.introduce t).superclassFindings t superclass ⊆ found) :
    FindingsLike L ((scopes.introduce t).superclassFindings t superclass)
      ((scopes'.introduce t').superclassFindings t' superclass') := by
  have hdeclared : L.Declared (innermost keys) t t' :=
    ⟨⟨ht.kind, ht.lexeme.trans hstays.symm, ht.pos⟩, hnamed⟩
  cases hsuperclass with
  | none => exact .nil
  | @some ref ref' href =>
    obtain ⟨hself, hread⟩ := List.append_subset.mp hf
    have hlooked : (scopes.introduce t).look ref ∈ found := by
      refine hread ?_
      unfold Scopes.readFindings
      split
      · exact List.mem_cons_of_mem _ List.mem_cons_self
      · exact List.mem_cons_self
    refine List.rel_append ?_ (readFindings_like hlook (h.introduce hdeclared) href hread)
    have hiff := ownSuperclass_iff hlook h ht hnamed hstays href hlooked
    by_cases he : ref.name = t.lexeme
    · rw [if_pos he] at hself
      rw [if_pos he, if_pos (hiff.mpr he)]
      exact .cons (reference_complaint hlook href (fun _ => rfl) (hself List.mem_cons_self)) .nil
    · rw [if_neg he, if_neg fun he' => he (hiff.mp he')]
      exact .nil

end Parts

/-! ## 3. The walk -/

section Walk

variable {found : List Finding}

mutual

theorem ExprLike.findings (hlook : DepthsAgree L found) (ctx : Context) {keys : List Renaming}
    {scopes scopes' : Scopes} (hs : ScopesLike L keys scopes scopes') {e e' : Expr} :
    ExprLike L keys e e' → e.findings ctx scopes ⊆ found →
      FindingsLike L (e.findings ctx scopes) (e'.findings ctx scopes')
  | .literal, _ => .nil
  | .group h, hf => h.findings hlook ctx hs hf
  | .unary _ h, hf => h.findings hlook ctx hs hf
  | .binary ha _ hb, hf =>
    List.rel_append (ha.findings hlook ctx hs (List.append_subset.mp hf).1)
      (hb.findings hlook ctx hs (List.append_subset.mp hf).2)
  | .logical ha _ hb, hf =>
    List.rel_append (ha.findings hlook ctx hs (List.append_subset.mp hf).1)
      (hb.findings hlook ctx hs (List.append_subset.mp hf).2)
  | .conditional hc ha hb, hf =>
    have hfront := List.append_subset.mp (List.append_subset.mp hf).1
    List.rel_append
      (List.rel_append (hc.findings hlook ctx hs hfront.1) (ha.findings hlook ctx hs hfront.2))
      (hb.findings hlook ctx hs (List.append_subset.mp hf).2)
  | .read h, hf => readFindings_like hlook hs h hf
  | .assign h he, hf =>
    have hparts := List.append_subset.mp hf
    List.rel_append (he.findings hlook ctx hs hparts.1)
      (.cons (look_like hlook hs h (hparts.2 List.mem_cons_self)) .nil)
  | .call hcallee _ hargs, hf =>
    List.rel_append (hcallee.findings hlook ctx hs (List.append_subset.mp hf).1)
      (hargs.findings hlook ctx hs (List.append_subset.mp hf).2)
  | .get ho _, hf => ho.findings hlook ctx hs hf
  | .set ho _ he, hf =>
    List.rel_append (he.findings hlook ctx hs (List.append_subset.mp hf).1)
      (ho.findings hlook ctx hs (List.append_subset.mp hf).2)
  | .this h, hf => thisFindings_like hlook hs h hf
  | .super h _, hf => superFindings_like hlook hs h hf
  | .lambda h, hf => h.findings hlook _ hs hf

theorem ExprsLike.findings (hlook : DepthsAgree L found) (ctx : Context) {keys : List Renaming}
    {scopes scopes' : Scopes} (hs : ScopesLike L keys scopes scopes') {es es' : List Expr} :
    ExprsLike L keys es es' → exprFindings ctx scopes es ⊆ found →
      FindingsLike L (exprFindings ctx scopes es) (exprFindings ctx scopes' es')
  | .nil, _ => .nil
  | .cons h hrest, hf =>
    List.rel_append (h.findings hlook ctx hs (List.append_subset.mp hf).1)
      (hrest.findings hlook ctx hs (List.append_subset.mp hf).2)

theorem OptionExprLike.findings (hlook : DepthsAgree L found) (ctx : Context) {keys : List Renaming}
    {scopes scopes' : Scopes} (hs : ScopesLike L keys scopes scopes') {e e' : Option Expr} :
    OptionExprLike L keys e e' → optionExprFindings ctx scopes e ⊆ found →
      FindingsLike L (optionExprFindings ctx scopes e) (optionExprFindings ctx scopes' e')
  | .none, _ => .nil
  | .some h, hf => h.findings hlook ctx hs hf

theorem CodeLike.findings (hlook : DepthsAgree L found) (ctx : Context) {keys : List Renaming}
    {scopes scopes' : Scopes} (hs : ScopesLike L keys scopes scopes') {c c' : Code} :
    CodeLike L keys c c' → c.findings ctx scopes ⊆ found →
      FindingsLike L (c.findings ctx scopes) (c'.findings ctx scopes')
  | .mk hr hparams hbody, hf =>
    have hinner := introduceAll_like (hs.push hr) hparams
    List.rel_append hinner.2
      (hbody.findings hlook ctx hinner.1 (List.append_subset.mp hf).2).2

theorem MethodsLike.findings (hlook : DepthsAgree L found) (ctx : Context) {keys : List Renaming}
    {scopes scopes' : Scopes} (hs : ScopesLike L keys scopes scopes') {ms ms' : List FunDecl} :
    MethodsLike L keys ms ms' → methodFindings ctx scopes ms ⊆ found →
      FindingsLike L (methodFindings ctx scopes ms) (methodFindings ctx scopes' ms')
  | .nil, _ => .nil
  | .cons hname hcode hrest, hf => by
    obtain ⟨hcodef, hrestf⟩ := List.append_subset.mp hf
    refine List.rel_append ?_ (hrest.findings hlook ctx hs hrestf)
    unfold FunctionContext.ofMethod
    rw [hname.lexeme]
    exact hcode.findings hlook _ hs hcodef

theorem StmtLike.findings (hlook : DepthsAgree L found) (ctx : Context) {keys : List Renaming}
    {scopes scopes' : Scopes} (hs : ScopesLike L keys scopes scopes') {s s' : Stmt} :
    StmtLike L keys s s' → (s.findings ctx scopes).2 ⊆ found →
      ScopesLike L keys (s.findings ctx scopes).1 (s'.findings ctx scopes').1 ∧
        FindingsLike L (s.findings ctx scopes).2 (s'.findings ctx scopes').2
  | .expr h, hf => ⟨hs, h.findings hlook ctx hs hf⟩
  | .varDecl hname h, hf => by
    have hdeclared := hs.declare hname.named
    rw [← hname.lexeme] at hdeclared
    have hdefined := hdeclared.define hname.named
    rw [← hname.lexeme] at hdefined
    exact ⟨hdefined, List.rel_append (complaintsOn_like hs hname)
      (h.findings hlook ctx hdeclared (List.append_subset.mp hf).2)⟩
  | .funDecl hname hnamed hstays hcode, hf =>
    have hdeclared : L.Declared (innermost keys) _ _ :=
      ⟨⟨hname.kind, hname.lexeme.trans hstays.symm, hname.pos⟩, hnamed⟩
    have hinner := hs.introduce hdeclared
    ⟨hinner, List.rel_append (complaintsOn_like hs hdeclared)
      (hcode.findings hlook _ hinner (List.append_subset.mp hf).2)⟩
  | .classDecl hname hnamed hstays hsuperclass hmethods, hf =>
    have hdeclared : L.Declared (innermost keys) _ _ :=
      ⟨⟨hname.kind, hname.lexeme.trans hstays.symm, hname.pos⟩, hnamed⟩
    have hinner := hs.introduce hdeclared
    have hfront := List.append_subset.mp (List.append_subset.mp hf).1
    ⟨hinner, by
      refine List.rel_append (List.rel_append (complaintsOn_like hs hdeclared)
        (superclassFindings_like hlook hs hname hnamed hstays hsuperclass hfront.2)) ?_
      rw [← hsuperclass.inClass]
      exact hmethods.findings hlook _ (hinner.ofMethods hsuperclass) (List.append_subset.mp hf).2⟩
  | .branch hc ha hb, hf =>
    have hfront := List.append_subset.mp (List.append_subset.mp hf).1
    have hyes := ha.findings hlook ctx hs hfront.2
    have hno := hb.findings hlook ctx hyes.1 (List.append_subset.mp hf).2
    ⟨hno.1, List.rel_append (List.rel_append (hc.findings hlook ctx hs hfront.1) hyes.2) hno.2⟩
  | .whileLoop hc hbody, hf =>
    have hinner := hbody.findings hlook ctx hs (List.append_subset.mp hf).2
    ⟨hinner.1, List.rel_append (hc.findings hlook ctx hs (List.append_subset.mp hf).1) hinner.2⟩
  | .forLoop hr hinit hc hi hbody, hf =>
    have hfront := List.append_subset.mp (List.append_subset.mp hf).1
    have hstart := List.append_subset.mp hfront.1
    have hinner := hinit.findings hlook ctx (hs.push hr) hstart.1
    ⟨hs, List.rel_append
      (List.rel_append (List.rel_append hinner.2 (hc.findings hlook ctx hinner.1 hstart.2))
        (hi.findings hlook ctx hinner.1 hfront.2))
      (hbody.findings hlook ctx hinner.1 (List.append_subset.mp hf).2).2⟩
  | .block hr h, hf => ⟨hs, (h.findings hlook ctx (hs.push hr) hf).2⟩
  | .ret hk h, hf =>
    ⟨hs, by
      refine List.rel_append ?_ (h.findings hlook ctx hs (List.append_subset.mp hf).2)
      rw [h.isSome_eq]
      exact returnComplaints_like hk _⟩
  | .leave _, _ => ⟨hs, .nil⟩
  | .next _, _ => ⟨hs, .nil⟩

theorem OptionStmtLike.findings (hlook : DepthsAgree L found) (ctx : Context) {keys : List Renaming}
    {scopes scopes' : Scopes} (hs : ScopesLike L keys scopes scopes') {s s' : Option Stmt} :
    OptionStmtLike L keys s s' → (optionFindings ctx scopes s).2 ⊆ found →
      ScopesLike L keys (optionFindings ctx scopes s).1 (optionFindings ctx scopes' s').1 ∧
        FindingsLike L (optionFindings ctx scopes s).2 (optionFindings ctx scopes' s').2
  | .none, _ => ⟨hs, .nil⟩
  | .some h, hf => h.findings hlook ctx hs hf

theorem StmtsLike.findings (hlook : DepthsAgree L found) (ctx : Context) {keys : List Renaming}
    {scopes scopes' : Scopes} (hs : ScopesLike L keys scopes scopes') {ss ss' : List Stmt} :
    StmtsLike L keys ss ss' → (bodyFindings ctx scopes ss).2 ⊆ found →
      ScopesLike L keys (bodyFindings ctx scopes ss).1 (bodyFindings ctx scopes' ss').1 ∧
        FindingsLike L (bodyFindings ctx scopes ss).2 (bodyFindings ctx scopes' ss').2
  | .nil, _ => ⟨hs, .nil⟩
  | .cons h hrest, hf =>
    have hfirst := h.findings hlook ctx hs (List.append_subset.mp hf).1
    have hmore := hrest.findings hlook ctx hfirst.1 (List.append_subset.mp hf).2
    ⟨hmore.1, List.rel_append hfirst.2 hmore.2⟩

end

/-- **What scoping finds out about two programs.** -/
theorem resolve_like {ss ss' : List Stmt} (h : StmtsLike L [] ss ss')
    (hlook : DepthsAgree L (resolve ss)) : FindingsLike L (resolve ss) (resolve ss') := by
  rw [resolve_eq] at hlook ⊢
  rw [resolve_eq]
  exact (h.findings hlook _ .nil (List.Subset.refl _)).2

end Walk

/-! ## 4. Tables -/

/-- References have one number in the first program if and only if they have in the second. -/
def Likeness.OneToOne (L : Likeness) : Prop :=
  ∀ ⦃keys keys' r r' q q'⦄, L.ref keys r r' → L.ref keys' q q' → (r.id = q.id ↔ r'.id = q'.id)

/-- Two tables, which give like references the same distances. -/
def TablesLike (L : Likeness) (d d' : Distances) : Prop :=
  ∀ ⦃keys r r'⦄, L.ref keys r r' → d'.find? r'.id = d.find? r.id

/-- **Tables stay alike** while like findings are noted. -/
theorem noteAll_like (hone : L.OneToOne) {found found' : List Finding}
    (hfound : FindingsLike L found found') {d d' : Distances} (hd : TablesLike L d d') :
    TablesLike L (d.noteAll found) (d'.noteAll found') := by
  induction hfound generalizing d d' with
  | nil => exact hd
  | cons hf _ ih =>
    rw [Distances.noteAll_cons, Distances.noteAll_cons]
    cases hf with
    | complaint => exact ih hd
    | @reference _ q q' distance h =>
      cases distance with
      | none => exact ih hd
      | some distance =>
        refine ih fun keys r r' hr => ?_
        rw [Distances.find?_note, Distances.find?_note, hd hr]
        by_cases hid : q.id = r.id
        · rw [if_pos hid, if_pos ((hone h hr).mp hid)]
        · rw [if_neg hid, if_neg fun hid' => hid ((hone h hr).mpr hid')]

/-! ## 5. Programs whose names stay -/

section Plain

variable {ids : Nat → Nat → Prop} {shift : Shift}

theorem spelled_same (hkeys : ∀ r ∈ keys, r = .same) (d : Option Nat) (n : String) :
    spelled keys d n = n := by
  unfold spelled
  cases hd : d.bind fun d => keys[d]? with
  | none => rfl
  | some r =>
    obtain ⟨d, -, hr⟩ := Option.bind_eq_some_iff.mp hd
    rw [hkeys r (List.mem_of_getElem? hr)]
    rfl

theorem BindingsLike.eq_same {α : Type} {b b' : Bindings α} (h : BindingsLike Eq .same b b') :
    b' = b := by
  induction h with
  | nil => rfl
  | cons hp _ ih => exact List.cons_eq_cons.mpr ⟨(Prod.ext hp.1.symm hp.2).symm, ih⟩

theorem ScopesLike.eq_plain (h : ScopesLike (.plain ids shift) keys scopes scopes') :
    scopes' = scopes := by
  induction h with
  | nil => rfl
  | cons hr hs _ _ ih =>
    obtain rfl : _ = Renaming.same := hr
    exact List.cons_eq_cons.mpr ⟨hs.eq_same, ih⟩

theorem DepthsAgree.plain (found : List Finding) : DepthsAgree (.plain ids shift) found where
  depth := by
    intro keys scopes scopes' ref ref' hs href _
    have hname : ref'.name = ref.name := href.2.token.lexeme
    rw [hs.eq_plain, hname, spelled_same href.1]
    exact ⟨rfl, rfl⟩
  complaint href _ := ⟨.same, rfl, href.2.token.lexeme⟩

theorem Likeness.plain_oneToOne
    (h : ∀ {i i' j j'}, ids i i' → ids j j' → (i = j ↔ i' = j')) :
    (Likeness.plain ids shift).OneToOne := by
  intro keys keys' r r' q q' hr hq
  have hids := h hr.2.ids hq.2.ids
  obtain ⟨⟨i⟩, _⟩ := r
  obtain ⟨⟨i'⟩, _⟩ := r'
  obtain ⟨⟨j⟩, _⟩ := q
  obtain ⟨⟨j'⟩, _⟩ := q'
  simpa using hids

/-- What the tables of two machines have to agree on, where names stay. -/
theorem TablesLike.refs {d d' : Distances} (h : TablesLike (.plain ids shift) d d')
    {keys : List Renaming} {r r' : Reference} (hr : (Likeness.plain ids shift).ref keys r r') :
    d'.find? r'.id = d.find? r.id ∧ r'.name = spelled keys (d.find? r.id) r.name :=
  ⟨h hr, hr.2.token.lexeme.trans (spelled_same hr.1 _ _).symm⟩

end Plain

end Lox
