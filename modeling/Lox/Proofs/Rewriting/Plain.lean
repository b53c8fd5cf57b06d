import Lox.Proofs.Likeness.Sessions
import Lox.Proofs.Rewriting.Findings

/-!
# Programs that stay as they are

What a session has run before stays as it is while a program is written out. Programs that are alike but for
places are written-out forms of each other, in which no frame is added.

* `Rewriting.Allows`: a rewriting lets references and places differ as they do in such programs.
* `ExprLike.into`, `CodeLike.into`, `StmtLike.into` and the rest, one case a form.
* `MachineLike.into`: **a machine that is like itself** runs written-out programs, too.
-/

namespace Lox

/-- References and places may differ as in programs that are alike. -/
structure Rewriting.Allows (R : Rewriting) (ids : Nat → Nat → Prop) (shift : Shift) : Prop where
  ref : ∀ {slots : List Slot} {i i' : RefId}, (∀ s ∈ slots, s = .shared) → ids i.index i'.index →
    R.ref slots i i'
  super : ∀ {slots : List Slot} {i i' : RefId}, (∀ s ∈ slots, s = .shared) → ids i.index i'.index →
    R.super slots i i'
  pos : ∀ {p p'}, shift.rel p p' → R.pos p p'

/-! ## 1. Trees -/

section Trees

variable {R : Rewriting} {ids : Nat → Nat → Prop} {shift : Shift}

theorem shared_nil : ∀ s ∈ ([] : List Slot), s = .shared := fun _ h => nomatch h

theorem shared_cons {slots : List Slot} (h : ∀ s ∈ slots, s = .shared) :
    ∀ s ∈ Slot.shared :: slots, s = .shared := List.forall_mem_cons.mpr ⟨rfl, h⟩

theorem innermost_of_shared {slots : List Slot} (h : ∀ s ∈ slots, s = .shared) : Innermost slots := by
  cases slots with
  | nil => exact innermost_nil
  | cons s outer =>
    obtain rfl := h s List.mem_cons_self
    exact innermost_shared outer

theorem shared_class {slots : List Slot} (h : ∀ s ∈ slots, s = .shared) (superclass : Option Reference) :
    ∀ s ∈ Slot.shared :: classSlots superclass slots, s = .shared := by
  cases superclass with
  | none => exact shared_cons h
  | some _ => exact shared_cons (shared_cons h)

/-- In a new scope, names stay. -/
theorem innermost_plain {r : Renaming} (hr : (Likeness.plain ids shift).scope r) (keys : List Renaming) :
    innermost (r :: keys) = .same := hr

theorem token_into (hR : R.Allows ids shift) {t t' : Token} (h : TokenLike shift.rel t t') :
    R.Token t t' := h.mono hR.pos

/-- Names stay. -/
theorem declared_into (hR : R.Allows ids shift) {r : Renaming} (hr : r = .same) {t t' : Token}
    (h : (Likeness.plain ids shift).Declared r t t') : R.Token t t' := by
  subst hr
  exact ⟨h.kind, h.lexeme, hR.pos h.pos⟩

theorem ref_into (hR : R.Allows ids shift) {keys : List Renaming} {slots : List Slot}
    (hslots : ∀ s ∈ slots, s = .shared) {ref ref' : Reference}
    (h : (Likeness.plain ids shift).ref keys ref ref') : RefInto R slots ref ref' :=
  ⟨token_into hR h.2.token, hR.ref hslots h.2.ids⟩

theorem SuperclassLike.into (hR : R.Allows ids shift) {keys : List Renaming} {slots : List Slot}
    (hslots : ∀ s ∈ slots, s = .shared) {c c' : Option Reference} :
    SuperclassLike (.plain ids shift) keys c c' → SuperclassInto R slots c c'
  | .none => .none
  | .some h => .some (ref_into hR hslots h)

mutual

theorem ExprLike.into (hR : R.Allows ids shift) {keys : List Renaming} {slots : List Slot}
    (hslots : ∀ s ∈ slots, s = .shared) {e e' : Expr} :
    ExprLike (.plain ids shift) keys e e' → ExprInto R slots e e'
  | .literal => .literal
  | .group h => .group (h.into hR hslots)
  | .unary hop h => .unary (token_into hR hop) (h.into hR hslots)
  | .binary ha hop hb => .binary (ha.into hR hslots) (token_into hR hop) (hb.into hR hslots)
  | .logical ha hop hb => .logical (ha.into hR hslots) (token_into hR hop) (hb.into hR hslots)
  | .conditional hc ha hb => .conditional (hc.into hR hslots) (ha.into hR hslots) (hb.into hR hslots)
  | .read h => .read (ref_into hR hslots h)
  | .assign h he => .assign (ref_into hR hslots h) (he.into hR hslots)
  | .call hf hparen hargs => .call (hf.into hR hslots) (token_into hR hparen) (hargs.into hR hslots)
  | .get ho hname => .get (ho.into hR hslots) (token_into hR hname)
  | .set ho hname he => .set (ho.into hR hslots) (token_into hR hname) (he.into hR hslots)
  | .this h => .this (ref_into hR hslots h)
  | .super h hmethod =>
    .super ⟨token_into hR h.2.token, hR.super hslots h.2.ids⟩ (token_into hR hmethod)
  | .lambda h => .lambda (h.into hR hslots)

theorem ExprsLike.into (hR : R.Allows ids shift) {keys : List Renaming} {slots : List Slot}
    (hslots : ∀ s ∈ slots, s = .shared) {es es' : List Expr} :
    ExprsLike (.plain ids shift) keys es es' → ExprsInto R slots es es'
  | .nil => .nil
  | .cons h hs => .cons (h.into hR hslots) (hs.into hR hslots)

theorem OptionExprLike.into (hR : R.Allows ids shift) {keys : List Renaming} {slots : List Slot}
    (hslots : ∀ s ∈ slots, s = .shared) {e e' : Option Expr} :
    OptionExprLike (.plain ids shift) keys e e' → OptionExprInto R slots e e'
  | .none => .none
  | .some h => .some (h.into hR hslots)

theorem CodeLike.into (hR : R.Allows ids shift) {keys : List Renaming} {slots : List Slot}
    (hslots : ∀ s ∈ slots, s = .shared) {c c' : Code} :
    CodeLike (.plain ids shift) keys c c' → CodeInto R slots c c'
  | .mk hr hparams hbody =>
    .mk (hparams.imp fun _ _ h => declared_into hR hr h)
      (hbody.into hR (shared_cons hslots) (innermost_plain hr _))

theorem MethodsLike.into (hR : R.Allows ids shift) {keys : List Renaming} {slots : List Slot}
    (hslots : ∀ s ∈ slots, s = .shared) {ms ms' : List FunDecl} :
    MethodsLike (.plain ids shift) keys ms ms' → MethodsInto R slots ms ms'
  | .nil => .nil
  | .cons hname hcode hs => .cons (token_into hR hname) (hcode.into hR hslots) (hs.into hR hslots)

theorem StmtLike.into (hR : R.Allows ids shift) {keys : List Renaming} {slots : List Slot}
    (hslots : ∀ s ∈ slots, s = .shared) (hkeys : innermost keys = .same) {s s' : Stmt} :
    StmtLike (.plain ids shift) keys s s' → StmtInto R none slots s s'
  | .expr h => .expr (h.into hR hslots)
  | .varDecl hname h =>
    .varDecl (innermost_of_shared hslots) (declared_into hR hkeys hname) (h.into hR hslots)
  | .funDecl hname _ _ hcode =>
    .funDecl (innermost_of_shared hslots) (token_into hR hname) (hcode.into hR hslots)
  | .classDecl hname _ _ hsuperclass hmethods =>
    .classDecl (innermost_of_shared hslots) (token_into hR hname) (hsuperclass.into hR hslots)
      (hmethods.into hR (shared_class hslots _))
  | .branch hc ha hb => .branch (hc.into hR hslots) (ha.into hR hslots hkeys) (hb.into hR hslots hkeys)
  | .whileLoop hc hs => .whileLoop (hc.into hR hslots) (hs.into hR hslots hkeys)
  | .forLoop hr hinit hc hi hs =>
    have hinner := shared_cons hslots
    have hkey := innermost_plain hr _
    .forLoop (hinit.into hR hinner hkey) (hc.into hR hinner) (hi.into hR hinner) (hs.into hR hinner hkey)
  | .block hr h => .block no_loop (h.into hR (shared_cons hslots) (innermost_plain hr _))
  | .ret hk h => .ret (token_into hR hk) (h.into hR hslots)
  | .leave hk => .leave (token_into hR hk)
  | .next hk => .next no_loop (token_into hR hk)

theorem OptionStmtLike.into (hR : R.Allows ids shift) {keys : List Renaming} {slots : List Slot}
    (hslots : ∀ s ∈ slots, s = .shared) (hkeys : innermost keys = .same) {s s' : Option Stmt} :
    OptionStmtLike (.plain ids shift) keys s s' → OptionStmtInto R none slots s s'
  | .none => .none
  | .some h => .some (h.into hR hslots hkeys)

theorem StmtsLike.into (hR : R.Allows ids shift) {keys : List Renaming} {slots : List Slot}
    (hslots : ∀ s ∈ slots, s = .shared) (hkeys : innermost keys = .same) {ss ss' : List Stmt} :
    StmtsLike (.plain ids shift) keys ss ss' → StmtsInto R none slots ss ss'
  | .nil => .nil
  | .cons h hs => .cons (h.into hR hslots hkeys) (hs.into hR hslots hkeys)

end

end Trees

/-! ## 2. Machines -/

section Machines

variable {R : Rewriting} {ids : Nat → Nat → Prop} {shift : Shift} {κs : List Renaming}

/-- Each frame stays at its address. -/
theorem env_into {env : Env} {keys : List Renaming} (h : EnvKeys κs env keys) :
    EnvInto (List.range κs.length) [] env env := by
  refine .base ?_
  induction h with
  | nil => exact .nil
  | cons hr _ ih => exact .cons (List.getElem?_range (List.getElem?_eq_some_iff.mp hr).1) ih

theorem FunctionLike.into (hR : R.Allows ids shift) {f f' : Closure}
    (h : FunctionLike (.plain ids shift) κs f f') : FunctionInto R (List.range κs.length) f f' := by
  obtain ⟨keys, henv, hcode⟩ := h.code
  refine ⟨h.name, h.isInitializer, [], ?_, hcode.into hR shared_nil, fun _ => innermost_nil⟩
  rw [h.env]
  exact env_into henv

theorem MethodLike.into (hR : R.Allows ids shift) {f f' : Closure}
    (h : MethodLike (.plain ids shift) κs f f') : MethodInto R (List.range κs.length) f f' := by
  obtain ⟨keys, henv, hcode⟩ := h.code
  refine ⟨h.name, h.isInitializer, [], ?_, hcode.into hR (shared_cons shared_nil),
    fun _ => innermost_shared _⟩
  rw [h.env]
  exact env_into henv

theorem ClassLike.into (hR : R.Allows ids shift) {c c' : Class}
    (h : ClassLike (.plain ids shift) κs c c') : ClassInto R (List.range κs.length) c c' := by
  refine ⟨h.id_eq, h.name_eq, fun n => ?_⟩
  have hfind := h.method? n
  generalize c.method? n = x, c'.method? n = x' at hfind ⊢
  cases hfind with
  | none => exact .none
  | some hm => exact .some (MethodLike.into hR hm)

theorem ValueLike.into (hR : R.Allows ids shift) {v v' : Value}
    (h : ValueLike (.plain ids shift) κs v v') : ValueInto R (List.range κs.length) v v' := by
  cases h with
  | nil => exact .nil
  | bool => exact .bool
  | number => exact .number
  | text => exact .text
  | native => exact .native
  | function h => exact .function (FunctionLike.into hR h)
  | ofClass h => exact .ofClass (h.into hR)
  | object h => exact .object (h.into hR)

/-- Bindings that are like themselves. -/
theorem bindings_into {V W : Value → Value → Prop} {r : Renaming} {b : Bindings Value}
    (h : BindingsLike V r b b) (hVW : ∀ v v', V v v' → W v v') : BindingsInto W b b := by
  refine ⟨rfl, fun n => ?_⟩
  have hvalues := List.forall₂_same.mp h
  clear h
  induction b with
  | nil => exact .none
  | cons p rest ih =>
    obtain ⟨hp, hrest⟩ := List.forall_mem_cons.mp hvalues
    unfold Bindings.find?
    split
    · exact .some (hVW _ _ hp.2)
    · exact ih hrest

/-- **A machine that is like itself** runs written-out programs as well, whatever is noted for these. -/
theorem MachineLike.into (hR : R.Allows ids shift) {m : Machine} {d d' : Distances}
    (h : MachineLike (.plain ids shift) κs m m)
    (hrefs : ∀ {slots i i'}, R.ref slots i i' → d'.find? i' = (d.find? i).map (distanceIn slots))
    (hsupers : ∀ {slots i i'}, R.super slots i i' →
      d'.find? i' = (d.find? i).map (distanceIn slots) ∧
        ∀ e, d.find? i = some (e + 1) → distanceIn slots (e + 1) = distanceIn slots e + 1) :
    MachineInto R (List.range κs.length) { m with distances := d } { m with distances := d' } where
  count := h.count.trans List.length_range.symm
  apart := List.nodup_range
  bounded f hf := (List.mem_range.mp hf).trans_eq h.count.symm
  global := List.getElem?_range (List.getElem?_eq_some_iff.mp h.global).1
  frames f f' hf := by
    obtain ⟨hlt, rfl⟩ := List.getElem?_eq_some_iff.mp hf
    rw [List.length_range] at hlt
    rw [List.getElem_range]
    exact bindings_into (h.frames f _ (List.getElem?_eq_getElem hlt)) fun _ _ hv => hv.into hR
  objects := rfl
  fields o := bindings_into (h.fields o) fun _ _ hv => hv.into hR
  nextIdentity := rfl
  sink := rfl
  input := rfl
  now := rfl
  clock := rfl
  refs := hrefs
  supers := hsupers

end Machines

end Lox
