import Lox.Proofs.Rewriting.Machines
import Lox.Proofs.Scope.Methods
import Lox.Proofs.Scope.Rules

/-!
# Scoping of programs written another way

* `ScopesInto`: two lists of scopes. The second has more, which have none of certain names.
* `PlaceInto.refInto`: **a name lies as far out as its frame does**, by the slots of the place.
* `Resolution`: what scoping found out about two programs, and the tables that have noted it.
* `StmtInto.noted`, one case a form: **references of both programs mean one variable** in the tables, and the
  written-out program keeps the rules if the short one does.
* `LoopAround`: what is known of the loop around a `continue` that the increment stands in front of.
-/

namespace Lox

variable {names : List String} {slots : List Slot} {scopes scopes' : Scopes}

/-! ## 1. Scopes -/

/-- Two lists of scopes around a place. The second has more where the slots say so, and they have none of
    the names. -/
inductive ScopesInto (names : List String) : List Slot → Scopes → Scopes → Prop where
  | nil : ScopesInto names [] [] []
  | shared {slots s outer outer'} (h : ScopesInto names slots outer outer') :
      ScopesInto names (.shared :: slots) (s :: outer) (s :: outer')
  | added {slots scopes s' outer'} (hs : ∀ n ∈ names, s'.binds n = false)
      (h : ScopesInto names slots scopes outer') :
      ScopesInto names (.added :: slots) scopes (s' :: outer')

namespace ScopesInto

theorem depthOf? (h : ScopesInto names slots scopes scopes') {n : String} (hn : n ∈ names) :
    scopes'.depthOf? n = (scopes.depthOf? n).map (distanceIn slots) := by
  induction h with
  | nil => rfl
  | @shared slots s _ _ _ ih =>
    rw [Scopes.depthOf?, Scopes.depthOf?, ih]
    split
    · rfl
    · rw [Option.map_map, Option.map_map]
      rfl
  | @added slots scopes _ _ hs _ ih =>
    rw [Scopes.depthOf?, hs n hn, ih, if_neg Bool.false_ne_true, Option.map_map]
    rfl

/-- A name is complete in the second program if it is in the first. -/
theorem complete (h : ScopesInto names slots scopes scopes') {n : String} (hn : n ∈ names)
    (hcomplete : scopes.isIncomplete n = false) : scopes'.isIncomplete n = false := by
  cases h with
  | nil | shared => exact hcomplete
  | added hs _ =>
    have hfree := hs n hn
    unfold Bindings.binds at hfree
    simp only [Scopes.isIncomplete, List.head?_cons, Option.any_some,
      Option.not_isSome_iff_eq_none.mp (Bool.eq_false_iff.mp hfree)]
    rfl

/-- A name of a frame that both have. -/
theorem hasInnermost (h : ScopesInto names slots scopes scopes') (hin : Innermost slots) (n : String) :
    scopes'.hasInnermost n = scopes.hasInnermost n := by
  cases h with
  | nil | shared => rfl
  | added => exact absurd rfl hin

theorem declare (h : ScopesInto names slots scopes scopes') (hin : Innermost slots) (n : String) :
    ScopesInto names slots (scopes.declare n) (scopes'.declare n) := by
  cases h with
  | nil => exact .nil
  | shared h => exact .shared h
  | added => exact absurd rfl hin

theorem define (h : ScopesInto names slots scopes scopes') (hin : Innermost slots) (n : String) :
    ScopesInto names slots (scopes.define n) (scopes'.define n) := by
  cases h with
  | nil => exact .nil
  | shared h => exact .shared h
  | added => exact absurd rfl hin

theorem mono {fewer : List String} (h : ScopesInto names slots scopes scopes') (hn : fewer ⊆ names) :
    ScopesInto fewer slots scopes scopes' := by
  induction h with
  | nil => exact .nil
  | shared _ ih => exact .shared ih
  | added hs _ ih => exact .added (fun n hm => hs n (hn hm)) ih

/-- A name that only the second program declares here, and that is none of the names. -/
theorem addingBeside (h : ScopesInto names (.added :: slots) scopes scopes') {n : String} (hn : n ∉ names) :
    ScopesInto names (.added :: slots) scopes (scopes'.adding (some n)) := by
  cases h with
  | @added _ _ s' _ hs h =>
    refine .added (fun m hm => Bool.eq_false_iff.mpr fun hb => ?_) h
    rcases (Bindings.binds_put _ n m true).mp hb with rfl | hb
    · exact hn hm
    · rcases (Scope.binds_declared s' n m).mp hb with hb | rfl
      · exact Bool.eq_false_iff.mp (hs m hm) hb
      · exact hn hm

end ScopesInto

/-- The scope next to that of `super`, on the inside, is one that both programs have. -/
def SuperNear (slots : List Slot) (scopes : Scopes) : Prop :=
  ∀ e, scopes.depthOf? superName = some e →
    ∃ d, e = d + 1 ∧ distanceIn slots (d + 1) = distanceIn slots d + 1

/-- A name that is declared is found where it is declared, and every other one where it was. -/
theorem depthOf?_declare {n m : String} (hne : n ≠ m) :
    (scopes.declare n).depthOf? m = scopes.depthOf? m := by
  cases scopes with
  | nil => rfl
  | cons s outer =>
    have hbinds : Bindings.binds (if s.binds n then s else s.put n false) m = s.binds m := by
      rw [Bool.eq_iff_iff, Scope.binds_declared]
      exact or_iff_left hne.symm
    rw [Scopes.declare, Scopes.depthOf?, Scopes.depthOf?, hbinds]

theorem depthOf?_define {n m : String} (hne : n ≠ m) :
    (scopes.define n).depthOf? m = scopes.depthOf? m := by
  cases scopes with
  | nil => rfl
  | cons s outer =>
    have hbinds : (s.put n true).binds m = s.binds m := by
      rw [Bool.eq_iff_iff, Bindings.binds_put]
      exact or_iff_right hne
    rw [Scopes.define, Scopes.depthOf?, Scopes.depthOf?, hbinds]

/-- **A place** in both programs. -/
structure PlaceInto (names : List String) (slots : List Slot) (scopes scopes' : Scopes) : Prop where
  around : ScopesInto names slots scopes scopes'
  super : SuperNear slots scopes

namespace PlaceInto

theorem mono {fewer : List String} (h : PlaceInto names slots scopes scopes') (hn : fewer ⊆ names) :
    PlaceInto fewer slots scopes scopes' := ⟨h.around.mono hn, h.super⟩

theorem top : PlaceInto names [] [] [] := ⟨.nil, fun _ he => nomatch he⟩

theorem push (h : PlaceInto names slots scopes scopes') :
    PlaceInto names (.shared :: slots) ([] :: scopes) ([] :: scopes') := by
  refine ⟨.shared h.around, fun e he => ?_⟩
  obtain ⟨d₀, hd₀, rfl⟩ := Option.map_eq_some_iff.mp he
  obtain ⟨d, rfl, hd⟩ := h.super d₀ hd₀
  exact ⟨d + 1, rfl, congrArg (· + 1) hd⟩

theorem pushAdded (h : PlaceInto names slots scopes scopes') :
    PlaceInto names (.added :: slots) scopes ([] :: scopes') := by
  refine ⟨.added (fun _ _ => rfl) h.around, fun e he => ?_⟩
  obtain ⟨d, rfl, hd⟩ := h.super e he
  exact ⟨d, rfl, congrArg (· + 1) hd⟩

theorem declare (h : PlaceInto names slots scopes scopes') (hin : Innermost slots) {n : String}
    (hn : Plain n) : PlaceInto names slots (scopes.declare n) (scopes'.declare n) := by
  refine ⟨h.around.declare hin n, fun e he => ?_⟩
  rw [depthOf?_declare hn.2] at he
  exact h.super e he

theorem define (h : PlaceInto names slots scopes scopes') (hin : Innermost slots) {n : String}
    (hn : Plain n) : PlaceInto names slots (scopes.define n) (scopes'.define n) := by
  refine ⟨h.around.define hin n, fun e he => ?_⟩
  rw [depthOf?_define hn.2] at he
  exact h.super e he

theorem adding (h : PlaceInto names slots scopes scopes') {d : Option String}
    (hin : ∀ n ∈ d, Innermost slots ∧ Plain n) :
    PlaceInto names slots (scopes.adding d) (scopes'.adding d) := by
  cases d with
  | none => exact h
  | some n =>
    obtain ⟨hin, hn⟩ := hin n rfl
    exact (h.declare hin hn).define hin hn

theorem addingBeside (h : PlaceInto names (.added :: slots) scopes scopes') {n : String} (hn : n ∉ names) :
    PlaceInto names (.added :: slots) scopes (scopes'.adding (some n)) :=
  ⟨h.around.addingBeside hn, h.super⟩

/-- The scopes of the methods of a class. -/
theorem ofMethods (h : PlaceInto names slots scopes scopes') (superclass : Option Reference) :
    PlaceInto names (.shared :: classSlots superclass slots) (scopes.ofMethods superclass)
      (scopes'.ofMethods superclass) := by
  have hthis : Bindings.binds [(thisName, true)] superName = false := by decide
  have hsuper : Bindings.binds [(superName, true)] superName = true := by decide
  cases superclass with
  | none =>
    refine ⟨.shared h.around, fun e he => ?_⟩
    simp only [Scopes.ofMethods, Scopes.depthOf?, hthis, Bool.false_eq_true, if_false] at he
    obtain ⟨d₀, hd₀, rfl⟩ := Option.map_eq_some_iff.mp he
    obtain ⟨d, rfl, hd⟩ := h.super d₀ hd₀
    exact ⟨d + 1, rfl, congrArg (· + 1) hd⟩
  | some ref =>
    refine ⟨.shared (.shared h.around), fun e he => ?_⟩
    simp only [Scopes.ofMethods, Scopes.depthOf?, hthis, hsuper, Bool.false_eq_true, if_false,
      if_true, Option.map_some, Option.some.injEq] at he
    exact ⟨0, he.symm, rfl⟩

end PlaceInto

theorem SuperclassInto.isSome_eq {R : Rewriting} {superclass superclass' : Option Reference}
    (h : SuperclassInto R slots superclass superclass') : superclass'.isSome = superclass.isSome := by
  cases h <;> rfl

/-- A class has a scope for `super` if it has a superclass. -/
theorem ofMethods_eq {superclass superclass' : Option Reference}
    (h : superclass'.isSome = superclass.isSome) :
    scopes.ofMethods superclass' = scopes.ofMethods superclass := by
  cases superclass <;> cases superclass' <;> first | rfl | cases h

theorem inClass_eq {ctx : Context} {superclass superclass' : Option Reference}
    (h : superclass'.isSome = superclass.isSome) : ctx.inClass superclass' = ctx.inClass superclass := by
  unfold Context.inClass
  rw [h]

/-! ## 2. What scoping found out -/

/-- **What scoping found out about two programs**, and the tables that have noted it. The first program has
    no complaints. -/
structure Resolution where
  found : List Finding
  found' : List Finding
  table : Distances
  table' : Distances
  clean : Clean found
  noted : ∀ ref depth, .reference ref depth ∈ found → table.find? ref.id = depth
  noted' : ∀ ref depth, .reference ref depth ∈ found' → table'.find? ref.id = depth

/-- The same forms written out, with references that mean one variable in two tables. -/
def Rewriting.noted (R : Rewriting) (d d' : Distances) : Rewriting where
  ref slots i i' := d'.find? i' = (d.find? i).map (distanceIn slots)
  super slots i i' := d'.find? i' = (d.find? i).map (distanceIn slots) ∧
    ∀ e, d.find? i = some (e + 1) → distanceIn slots (e + 1) = distanceIn slots e + 1
  pos := R.pos
  groups := R.groups
  unrolls := R.unrolls
  pos_refl := R.pos_refl

/-- What is found out about a part of the programs is found out about the programs, and its names are among
    those that the scopes were compared for. -/
structure Resolution.Covers (ρ : Resolution) (names uses : List String) (found found' : List Finding) :
    Prop where
  names : uses ⊆ names
  found : found ⊆ ρ.found
  found' : found' ⊆ ρ.found'

theorem Clean.nil : Clean [] := nofun

theorem Clean.append {a b : List Finding} (ha : Clean a) (hb : Clean b) : Clean (a ++ b) :=
  fun c t hf => (List.mem_append.mp hf).elim (ha c t) (hb c t)

theorem Scopes.look_clean (scopes : Scopes) (ref : Reference) : Clean [scopes.look ref] :=
  fun _ _ hf => nomatch List.mem_singleton.mp hf

namespace Resolution.Covers

variable {ρ : Resolution} {uses more : List String} {found found' next next' : List Finding}

theorem left (h : ρ.Covers names (uses ++ more) (found ++ next) (found' ++ next')) :
    ρ.Covers names uses found found' :=
  ⟨(List.append_subset.mp h.names).1, (List.append_subset.mp h.found).1,
    (List.append_subset.mp h.found').1⟩

theorem right (h : ρ.Covers names (uses ++ more) (found ++ next) (found' ++ next')) :
    ρ.Covers names more next next' :=
  ⟨(List.append_subset.mp h.names).2, (List.append_subset.mp h.found).2,
    (List.append_subset.mp h.found').2⟩

/-- The findings behind others that are about no name. -/
theorem behind (h : ρ.Covers names uses (found ++ next) (found' ++ next')) :
    ρ.Covers names uses next next' :=
  ⟨h.names, (List.append_subset.mp h.found).2, (List.append_subset.mp h.found').2⟩

theorem clean (h : ρ.Covers names uses found found') : Clean found :=
  fun c t hf => ρ.clean c t (h.found hf)

end Resolution.Covers

section Parts

variable {R : Rewriting} {ρ : Resolution} {ctx : Context} {ref ref' : Reference} {t t' : Token}

/-- **A name lies as far out as its frame does.** -/
theorem PlaceInto.refInto (hp : PlaceInto names slots scopes scopes') (h : RefInto R slots ref ref')
    (hn : ref.name ∈ names) (hf : scopes.look ref ∈ ρ.found) (hf' : scopes'.look ref' ∈ ρ.found') :
    RefInto (R.noted ρ.table ρ.table') slots ref ref' := by
  refine ⟨h.token, ?_⟩
  show ρ.table'.find? ref'.id = (ρ.table.find? ref.id).map (distanceIn slots)
  rw [ρ.noted ref _ hf, ρ.noted' ref' _ hf', ← hp.around.depthOf? hn]
  exact congrArg _ h.token.lexeme

theorem PlaceInto.superInto (hp : PlaceInto names slots scopes scopes') (h : SuperInto R slots ref ref')
    (hname : ref.name = superName) (hn : ref.name ∈ names) (hf : scopes.look ref ∈ ρ.found)
    (hf' : scopes'.look ref' ∈ ρ.found') : SuperInto (R.noted ρ.table ρ.table') slots ref ref' := by
  refine ⟨h.token, ?_, fun e he => ?_⟩
  · rw [ρ.noted ref _ hf, ρ.noted' ref' _ hf', ← hp.around.depthOf? hn]
    exact congrArg _ h.token.lexeme
  · rw [ρ.noted ref _ hf, hname] at he
    obtain ⟨d, hd, hnear⟩ := hp.super _ he
    cases hd
    exact hnear

theorem look_mem_readFindings (scopes : Scopes) (ref : Reference) :
    scopes.look ref ∈ scopes.readFindings ref := by
  unfold Scopes.readFindings
  split
  · exact List.mem_cons_of_mem _ List.mem_cons_self
  · exact List.mem_cons_self

theorem readFindings_clean {ref : Reference} :
    Clean (scopes.readFindings ref) ↔ scopes.isIncomplete ref.name = false := by
  unfold Scopes.readFindings
  split
  · next h => exact ⟨fun hc => absurd List.mem_cons_self (hc _ _), fun h' => by rw [h] at h'; cases h'⟩
  · next h => exact ⟨fun _ => Bool.eq_false_iff.mpr h, fun _ => scopes.look_clean ref⟩

theorem readFindings_into (hp : PlaceInto names slots scopes scopes') (h : RefInto R slots ref ref')
    (hc : ρ.Covers names [ref.name] (scopes.readFindings ref) (scopes'.readFindings ref')) :
    RefInto (R.noted ρ.table ρ.table') slots ref ref' ∧ Clean (scopes'.readFindings ref') := by
  have hn : ref.name ∈ names := hc.names List.mem_cons_self
  refine ⟨hp.refInto h hn (hc.found (look_mem_readFindings _ _))
    (hc.found' (look_mem_readFindings _ _)), readFindings_clean.mpr ?_⟩
  rw [show ref'.name = ref.name from h.token.lexeme]
  exact hp.around.complete hn (readFindings_clean.mp hc.clean)

theorem look_into (hp : PlaceInto names slots scopes scopes') (h : RefInto R slots ref ref')
    (hc : ρ.Covers names [ref.name] [scopes.look ref] [scopes'.look ref']) :
    RefInto (R.noted ρ.table ρ.table') slots ref ref' ∧ Clean [scopes'.look ref'] :=
  ⟨hp.refInto h (hc.names List.mem_cons_self) (hc.found List.mem_cons_self)
    (hc.found' List.mem_cons_self), scopes'.look_clean ref'⟩

theorem thisFindings_into (hp : PlaceInto names slots scopes scopes') (h : RefInto R slots ref ref')
    (hc : ρ.Covers names [ref.name] (scopes.thisFindings ctx ref) (scopes'.thisFindings ctx ref')) :
    RefInto (R.noted ρ.table ρ.table') slots ref ref' ∧ Clean (scopes'.thisFindings ctx ref') := by
  unfold Scopes.thisFindings at hc ⊢
  cases hclass : ctx.ofClass with
  | none =>
    rw [hclass] at hc
    exact absurd List.mem_cons_self (hc.clean _ _)
  | base | derived =>
    rw [hclass] at hc
    exact look_into hp h hc

theorem superFindings_into (hp : PlaceInto names slots scopes scopes') (h : SuperInto R slots ref ref')
    (hname : ref.name = superName)
    (hc : ρ.Covers names [ref.name] (scopes.superFindings ctx ref) (scopes'.superFindings ctx ref')) :
    SuperInto (R.noted ρ.table ρ.table') slots ref ref' ∧ Clean (scopes'.superFindings ctx ref') := by
  unfold Scopes.superFindings at hc ⊢
  cases hclass : ctx.ofClass with
  | none | base =>
    rw [hclass] at hc
    exact absurd List.mem_cons_self (hc.clean _ _)
  | derived =>
    rw [hclass] at hc
    exact ⟨hp.superInto h hname (hc.names List.mem_cons_self) (hc.found List.mem_cons_self)
      (hc.found' List.mem_cons_self), scopes'.look_clean ref'⟩

theorem complaintsOn_into (hs : ScopesInto names slots scopes scopes') (hin : Innermost slots)
    (ht : t'.lexeme = t.lexeme) (hclean : Clean (scopes.complaintsOn t)) :
    Clean (scopes'.complaintsOn t') := by
  rw [complaintsOn_clean, ht, hs.hasInnermost hin]
  exact complaintsOn_clean.mp hclean

/-- The parameters of a function. -/
theorem introduceAll_into {params params' : List Token} (hp : PlaceInto names slots scopes scopes')
    (hin : Innermost slots) (hparams : List.Forall₂ R.Token params params')
    (hplain : ∀ t ∈ params, t.Is .identifier Token.Spelled)
    (hclean : Clean (scopes.introduceAll params).2) :
    PlaceInto names slots (scopes.introduceAll params).1 (scopes'.introduceAll params').1 ∧
      Clean (scopes'.introduceAll params').2 := by
  induction hparams generalizing scopes scopes' with
  | nil => exact ⟨hp, .nil⟩
  | @cons t t' _ _ ht _ ih =>
    obtain ⟨hname, hrest⟩ := List.forall_mem_cons.mp hplain
    have hinner := (hp.declare hin hname.plain).define hin hname.plain
    rw [Scopes.introduceAll] at hclean
    obtain ⟨hplace, hmore⟩ := ih hinner hrest hclean.right
    unfold Scopes.introduceAll Scopes.introduce
    rw [ht.lexeme]
    exact ⟨hplace, (complaintsOn_into hp.around hin ht.lexeme hclean.left).append hmore⟩

theorem superclassFindings_into (hp : PlaceInto names slots scopes scopes') (ht : t'.lexeme = t.lexeme)
    {superclass superclass' : Option Reference} (h : SuperclassInto R slots superclass superclass')
    (hc : ρ.Covers names (superclass.map Reference.name).toList
      (scopes.superclassFindings t superclass) (scopes'.superclassFindings t' superclass')) :
    SuperclassInto (R.noted ρ.table ρ.table') slots superclass superclass' ∧
      Clean (scopes'.superclassFindings t' superclass') := by
  cases h with
  | none => exact ⟨.none, .nil⟩
  | @some ref ref' href =>
    obtain ⟨hnoted, hclean⟩ := readFindings_into hp href hc.behind
    refine ⟨.some hnoted, Clean.append ?_ hclean⟩
    have hname : ref'.name = ref.name := href.token.lexeme
    have hother : ref.name ≠ t.lexeme := fun he => by
      have hself := hc.clean.left
      rw [if_pos he] at hself
      exact hself _ _ List.mem_cons_self
    rw [hname, ht, if_neg hother]
    exact .nil

theorem returnComplaints_into {hasValue : Bool} (h : Clean (returnComplaints ctx t hasValue)) :
    Clean (returnComplaints ctx t' hasValue) := by
  unfold returnComplaints at h ⊢
  refine Clean.append ?_ ?_
  · split
    · next hf =>
      have hfirst := h.left
      rw [if_pos hf] at hfirst
      exact absurd List.mem_cons_self (hfirst _ _)
    · exact .nil
  · split
    · next hf =>
      have hsecond := h.right
      rw [if_pos hf] at hsecond
      exact absurd List.mem_cons_self (hsecond _ _)
    · exact .nil

end Parts

/-! ## 3. The scopes behind a statement -/

section Behind

variable {R : Rewriting} {P : Token → Prop} (ctx : Context)

mutual

/-- **The scopes behind a statement** are those in front of it, and the name that the short one declares. -/
theorem StmtInto.behind {l : Option Loop} {slots : List Slot} {s s' : Stmt} (scopes : Scopes) :
    StmtInto R l slots s s' → s.Shaped P → (s'.findings ctx scopes).1 = scopes.adding s.declared?
  | .expr _, _ => rfl
  | .varDecl _ hname _, _ => by
    rw [Stmt.findings, hname.lexeme]
    rfl
  | .funDecl _ hname _, _ => by
    rw [Stmt.findings]
    unfold Scopes.introduce
    rw [hname.lexeme]
    rfl
  | .classDecl _ hname _ _, _ => by
    rw [Stmt.findings]
    unfold Scopes.introduce
    rw [hname.lexeme]
    rfl
  | .branch _ ha hb, hs => by
    have hyes := ha.behind scopes hs.2.1
    rw [hs.2.2.1] at hyes
    have hno := hb.behind scopes hs.2.2.2
    rw [Stmt.findings]
    show (optionFindings ctx (Stmt.findings ctx scopes _).1 _).1 = scopes
    rw [hyes]
    exact hno
  | .whileLoop _ h, hs => by
    have hbody := h.behind scopes hs.2.1
    rw [hs.2.2] at hbody
    exact hbody
  | .forLoop _ _ _ _, _ | .unrolled _ _ _ _ _, _ | .block _ _, _ | .ret _ _, _ | .leave _, _
  | .next _ _, _ | .continued _ _, _ => rfl

theorem OptionStmtInto.behind {l : Option Loop} {slots : List Slot} {s s' : Option Stmt}
    (scopes : Scopes) :
    OptionStmtInto R l slots s s' → elseShaped P s → (optionFindings ctx scopes s').1 = scopes
  | .none, _ => rfl
  | .some h, hs => by
    have hbehind := h.behind scopes hs.1
    rw [hs.2] at hbehind
    exact hbehind

end

theorem OptionStmtInto.behind_start {l : Option Loop} {init init' : Option Stmt} (scopes : Scopes)
    (h : OptionStmtInto R l slots init init') (hs : startShaped P init) :
    (optionFindings ctx scopes init').1 = scopes.adding (init.bind Stmt.declared?) := by
  cases h with
  | none => rfl
  | some h => exact h.behind ctx scopes hs

/-- A name is declared in a frame that both programs have. -/
theorem StmtInto.declares_in {l : Option Loop} {s s' : Stmt} (h : StmtInto R l slots s s') :
    ∀ n ∈ s.declared?, Innermost slots := by
  cases h with
  | varDecl hin | funDecl hin | classDecl hin => exact fun _ _ => hin
  | _ => exact fun _ hn => nomatch hn

theorem start_plain {init : Option Stmt} (hs : startShaped Token.Spelled init) :
    ∀ n ∈ init.bind Stmt.declared?, Plain n := by
  cases init with
  | none => exact fun _ hn => nomatch hn
  | some s => exact fun _ hn => declared_plain hs hn

theorem else_start {s : Option Stmt} (h : elseShaped P s) : startShaped P s := by
  cases s with
  | none => trivial
  | some s => exact h.1

theorem declaredBy_later {s : Stmt} {rest : List Stmt} {n : String} (h : n ∈ declaredBy rest) :
    n ∈ declaredBy (s :: rest) := by
  obtain ⟨t, hmem, hd⟩ := List.mem_filterMap.mp h
  exact List.mem_filterMap.mpr ⟨t, List.mem_cons_of_mem _ hmem, hd⟩

theorem OptionExprInto.isSome_eq {e e' : Option Expr} (h : OptionExprInto R slots e e') :
    e'.isSome = e.isSome := by
  cases h <;> rfl

theorem optionFindings_start {init : Option Stmt} (scopes : Scopes) (hs : startShaped P init) :
    (optionFindings ctx scopes init).1 = scopes.adding (init.bind Stmt.declared?) := by
  cases init with
  | none => rfl
  | some s => exact s.findings_fst ctx scopes hs

theorem StartInto.behind {init init' : Option Stmt} (scopes : Scopes)
    (h : StartInto R slots init init') :
    (optionFindings ctx scopes init').1 = scopes.adding (init.bind Stmt.declared?) := by
  cases h with
  | none | expr => rfl
  | varDecl hname _ =>
    rw [optionFindings, Stmt.findings, hname.lexeme]
    rfl

theorem effects_findings (scopes : Scopes) (i : Option Expr) (rest : List Stmt) :
    (bodyFindings ctx scopes (effects i ++ rest)).2
      = optionExprFindings ctx scopes i ++ (bodyFindings ctx scopes rest).2 := by
  cases i <;> rfl

theorem asNext_findings (scopes : Scopes) (keyword : Token) (i : Option Expr) :
    ((asNext keyword i).findings ctx scopes).2 = optionExprFindings ctx ([] :: scopes) i := by
  rw [asNext, Stmt.findings, effects_findings]
  exact List.append_nil _

/-- What scoping finds out about a `for` loop that is written as a `while` loop. -/
theorem asWhile_findings {inner : Scopes} {init : Option Stmt} {condition : Expr} {i : Option Expr}
    {body : Stmt} (hinner : (optionFindings ctx ([] :: scopes) init).1 = inner)
    (hbody : (body.findings ctx ([] :: inner)).1 = [] :: inner) :
    ((asWhile init condition i body).findings ctx scopes).2
      = (optionFindings ctx ([] :: scopes) init).2 ++ (condition.findings ctx inner ++
        ((body.findings ctx ([] :: inner)).2 ++ optionExprFindings ctx ([] :: inner) i)) := by
  have hturn : ((withIncrement body i).findings ctx inner).2
      = (body.findings ctx ([] :: inner)).2 ++ optionExprFindings ctx ([] :: inner) i := by
    rw [withIncrement, Stmt.findings, bodyFindings_cons, hbody, ← List.append_nil (effects i),
      effects_findings]
    exact congrArg _ (List.append_nil _)
  have hloop : (bodyFindings ctx inner [.whileLoop condition (withIncrement body i)]).2
      = condition.findings ctx inner ++ ((withIncrement body i).findings ctx inner).2 := by
    rw [bodyFindings_cons, findings_whileLoop]
    exact List.append_nil _
  rw [← hturn, ← hloop, asWhile, Stmt.findings]
  cases init with
  | none =>
    obtain rfl : [] :: scopes = inner := hinner
    rfl
  | some s =>
    rw [← hinner]
    exact congrArg Prod.snd (bodyFindings_cons s [.whileLoop condition (withIncrement body i)])

end Behind

/-! ## 4. The walk -/

/-- **The loop around a place** where a `continue` has the increment in front of it: seen from there, the
    increment means what it means behind the body. -/
inductive LoopAround (ρ : Resolution) (ctx : Context) (scopes' : Scopes) (loop : Loop) : Prop where
  | mk {slots outer} (hslots : loop.slots = .added :: slots)
      (hplace : PlaceInto (optionExprNames loop.increment) loop.slots outer scopes')
      (hshaped : optionShaped Token.Spelled loop.increment)
      (hfound : optionExprFindings ctx outer loop.increment ⊆ ρ.found)

/-- Outside of all loops that are written out. -/
theorem no_loop {p : Loop → Prop} : ∀ loop ∈ none, p loop := fun _ h => nomatch h

namespace LoopAround

variable {ρ : Resolution} {ctx : Context} {loop : Loop}

theorem enter (h : LoopAround ρ ctx scopes' loop) : LoopAround ρ ctx ([] :: scopes') loop.enter := by
  obtain ⟨_, hplace, hshaped, hfound⟩ := h
  exact ⟨rfl, hplace.pushAdded, hshaped, hfound⟩

theorem adding (h : LoopAround ρ ctx scopes' loop) {d : Option String}
    (hd : ∀ n ∈ d, n ∉ optionExprNames loop.increment) :
    LoopAround ρ ctx (scopes'.adding d) loop := by
  obtain ⟨increment, slots⟩ := loop
  obtain ⟨hslots, hplace, hshaped, hfound⟩ := h
  obtain rfl := hslots
  cases d with
  | none => exact ⟨rfl, hplace, hshaped, hfound⟩
  | some n => exact ⟨rfl, hplace.addingBeside (hd n rfl), hshaped, hfound⟩

/-- The loop around the body of a loop. -/
theorem body {i : Option Expr} (hp : PlaceInto names slots scopes scopes')
    (hn : optionExprNames i ⊆ names) (hs : optionShaped Token.Spelled i)
    (hf : optionExprFindings ctx scopes i ⊆ ρ.found) :
    ∀ loop ∈ some (Loop.mk i (.added :: slots)), LoopAround ρ ctx ([] :: scopes') loop := by
  rintro _ ⟨⟩
  exact ⟨rfl, hp.pushAdded.mono hn, hs, hf⟩

end LoopAround

section Walk

variable {R : Rewriting} {ρ : Resolution}

mutual

theorem ExprInto.noted (ctx : Context) {names : List String} {slots : List Slot} {scopes scopes' : Scopes}
    (hp : PlaceInto names slots scopes scopes') {e e' : Expr} :
    ExprInto R slots e e' → e.Shaped Token.Spelled →
      ρ.Covers names e.names (e.findings ctx scopes) (e'.findings ctx scopes') →
      ExprInto (R.noted ρ.table ρ.table') slots e e' ∧ Clean (e'.findings ctx scopes')
  | .literal, _, _ => ⟨.literal, .nil⟩
  | .group h, hs, hc =>
    have ⟨h₁, hclean⟩ := h.noted ctx hp hs hc
    ⟨.group h₁, hclean⟩
  | .unary hop h, hs, hc =>
    have ⟨h₁, hclean⟩ := h.noted ctx hp hs.2 hc
    ⟨.unary hop h₁, hclean⟩
  | .binary ha hop hb, hs, hc =>
    have ⟨ha₁, hleft⟩ := ha.noted ctx hp hs.2.1 hc.left
    have ⟨hb₁, hright⟩ := hb.noted ctx hp hs.2.2 hc.right
    ⟨.binary ha₁ hop hb₁, hleft.append hright⟩
  | .grouped hgroups ha hop hb, hs, hc =>
    have ⟨ha₁, hleft⟩ := ha.noted ctx hp hs.2.1 hc.left
    have ⟨hb₁, hright⟩ := hb.noted ctx hp hs.2.2 hc.right
    ⟨.grouped hgroups ha₁ hop hb₁, hleft.append hright⟩
  | .logical ha hop hb, hs, hc =>
    have ⟨ha₁, hleft⟩ := ha.noted ctx hp hs.1 hc.left
    have ⟨hb₁, hright⟩ := hb.noted ctx hp hs.2 hc.right
    ⟨.logical ha₁ hop hb₁, hleft.append hright⟩
  | .conditional hcond ha hb, hs, hc =>
    have ⟨hcond₁, hfirst⟩ := hcond.noted ctx hp hs.1 hc.left.left
    have ⟨ha₁, hyes⟩ := ha.noted ctx hp hs.2.1 hc.left.right
    have ⟨hb₁, hno⟩ := hb.noted ctx hp hs.2.2 hc.right
    ⟨.conditional hcond₁ ha₁ hb₁, (hfirst.append hyes).append hno⟩
  | .read h, _, hc =>
    have ⟨h₁, hclean⟩ := readFindings_into hp h hc
    ⟨.read h₁, hclean⟩
  | .assign h he, hs, hc =>
    have ⟨he₁, hvalue⟩ := he.noted ctx hp hs.2 hc.left
    have ⟨h₁, hclean⟩ := look_into hp h hc.right
    ⟨.assign h₁ he₁, hvalue.append hclean⟩
  | .call hf hparen hargs, hs, hc =>
    have ⟨hf₁, hcallee⟩ := hf.noted ctx hp hs.1 hc.left
    have ⟨hargs₁, hclean⟩ := hargs.noted ctx hp hs.2 hc.right
    ⟨.call hf₁ hparen hargs₁, hcallee.append hclean⟩
  | .get ho hname, hs, hc =>
    have ⟨ho₁, hclean⟩ := ho.noted ctx hp hs hc
    ⟨.get ho₁ hname, hclean⟩
  | .set ho hname he, hs, hc =>
    have ⟨he₁, hvalue⟩ := he.noted ctx hp hs.2 hc.left
    have ⟨ho₁, hobject⟩ := ho.noted ctx hp hs.1 hc.right
    ⟨.set ho₁ hname he₁, hvalue.append hobject⟩
  | .this h, _, hc =>
    have ⟨h₁, hclean⟩ := thisFindings_into hp h hc
    ⟨.this h₁, hclean⟩
  | .super h hmethod, hs, hc =>
    have ⟨h₁, hclean⟩ := superFindings_into hp h (hs.2.super hs.1) hc
    ⟨.super h₁ hmethod, hclean⟩
  | .lambda h, hs, hc =>
    have ⟨h₁, hclean⟩ := h.noted _ hp hs hc
    ⟨.lambda h₁, hclean⟩

theorem ExprsInto.noted (ctx : Context) {names : List String} {slots : List Slot} {scopes scopes' : Scopes}
    (hp : PlaceInto names slots scopes scopes') {es es' : List Expr} :
    ExprsInto R slots es es' → exprsShaped Token.Spelled es →
      ρ.Covers names (exprNames es) (exprFindings ctx scopes es) (exprFindings ctx scopes' es') →
      ExprsInto (R.noted ρ.table ρ.table') slots es es' ∧ Clean (exprFindings ctx scopes' es')
  | .nil, _, _ => ⟨.nil, .nil⟩
  | .cons h hrest, hs, hc =>
    have ⟨h₁, hfirst⟩ := h.noted ctx hp hs.1 hc.left
    have ⟨hrest₁, hclean⟩ := hrest.noted ctx hp hs.2 hc.right
    ⟨.cons h₁ hrest₁, hfirst.append hclean⟩

theorem OptionExprInto.noted (ctx : Context) {names : List String} {slots : List Slot}
    {scopes scopes' : Scopes} (hp : PlaceInto names slots scopes scopes') {e e' : Option Expr} :
    OptionExprInto R slots e e' → optionShaped Token.Spelled e →
      ρ.Covers names (optionExprNames e) (optionExprFindings ctx scopes e)
        (optionExprFindings ctx scopes' e') →
      OptionExprInto (R.noted ρ.table ρ.table') slots e e' ∧ Clean (optionExprFindings ctx scopes' e')
  | .none, _, _ => ⟨.none, .nil⟩
  | .some h, hs, hc =>
    have ⟨h₁, hclean⟩ := h.noted ctx hp hs hc
    ⟨.some h₁, hclean⟩

theorem CodeInto.noted (ctx : Context) {names : List String} {slots : List Slot} {scopes scopes' : Scopes}
    (hp : PlaceInto names slots scopes scopes') {c c' : Code} :
    CodeInto R slots c c' → c.Shaped Token.Spelled →
      ρ.Covers names c.names (c.findings ctx scopes) (c'.findings ctx scopes') →
      CodeInto (R.noted ρ.table ρ.table') slots c c' ∧ Clean (c'.findings ctx scopes')
  | .mk hparams hbody, hs, hc =>
    have hinner := introduceAll_into hp.push (innermost_shared slots) hparams hs.1 hc.clean.left
    have ⟨hbody₁, hclean⟩ := hbody.noted ctx hinner.1 no_loop no_loop hs.2 hc.behind
    ⟨.mk hparams hbody₁, hinner.2.append hclean⟩

theorem MethodsInto.noted (ctx : Context) {names : List String} {slots : List Slot}
    {scopes scopes' : Scopes} (hp : PlaceInto names slots scopes scopes') {ms ms' : List FunDecl} :
    MethodsInto R slots ms ms' → methodsShaped Token.Spelled ms →
      ρ.Covers names (methodNames ms) (methodFindings ctx scopes ms) (methodFindings ctx scopes' ms') →
      MethodsInto (R.noted ρ.table ρ.table') slots ms ms' ∧ Clean (methodFindings ctx scopes' ms')
  | .nil, _, _ => ⟨.nil, .nil⟩
  | .cons hname hcode hrest, hs, hc => by
    have hfun : FunctionContext.ofMethod _ = FunctionContext.ofMethod _ :=
      congrArg (fun n => if n = initializerName then FunctionContext.initializer else .method) hname.lexeme
    rw [methodFindings, methodFindings, hfun] at hc
    rw [methodFindings, hfun]
    obtain ⟨hcode₁, hfirst⟩ := hcode.noted _ hp hs.1 hc.left
    obtain ⟨hrest₁, hclean⟩ := hrest.noted ctx hp hs.2 hc.right
    exact ⟨.cons hname hcode₁ hrest₁, hfirst.append hclean⟩

theorem StmtInto.noted (ctx : Context) {names : List String} {l : Option Loop} {slots : List Slot}
    {scopes scopes' : Scopes} (hp : PlaceInto names slots scopes scopes')
    (hl : ∀ loop ∈ l, LoopAround ρ ctx scopes' loop) {s s' : Stmt} :
    StmtInto R l slots s s' → s.Shaped Token.Spelled →
      ρ.Covers names s.names (s.findings ctx scopes).2 (s'.findings ctx scopes').2 →
      StmtInto (R.noted ρ.table ρ.table') l slots s s' ∧ Clean (s'.findings ctx scopes').2
  | .expr h, hs, hc =>
    have ⟨h₁, hclean⟩ := h.noted ctx hp hs hc
    ⟨.expr h₁, hclean⟩
  | .varDecl hin hname h, hs, hc => by
    rw [Stmt.findings, Stmt.findings, hname.lexeme] at hc
    rw [Stmt.findings, hname.lexeme]
    obtain ⟨h₁, hclean⟩ := h.noted ctx (hp.declare hin hs.1.plain) hs.2 hc.behind
    exact ⟨.varDecl hin hname h₁,
      (complaintsOn_into hp.around hin hname.lexeme hc.clean.left).append hclean⟩
  | .funDecl hin hname hcode, hs, hc => by
    rw [Stmt.findings, Stmt.findings, Scopes.introduce, Scopes.introduce, hname.lexeme] at hc
    rw [Stmt.findings, Scopes.introduce, hname.lexeme]
    have hinner := (hp.declare hin hs.1.plain).define hin hs.1.plain
    obtain ⟨hcode₁, hclean⟩ := hcode.noted _ hinner hs.2 hc.behind
    exact ⟨.funDecl hin hname hcode₁,
      (complaintsOn_into hp.around hin hname.lexeme hc.clean.left).append hclean⟩
  | .classDecl hin hname hsuperclass hmethods, hs, hc => by
    have hinner := (hp.declare hin hs.1.plain).define hin hs.1.plain
    have hsome := hsuperclass.isSome_eq
    rw [Stmt.findings, Stmt.findings, Scopes.introduce, Scopes.introduce, hname.lexeme,
      inClass_eq hsome, ofMethods_eq hsome, List.append_assoc, List.append_assoc] at hc
    rw [Stmt.findings, Scopes.introduce, hname.lexeme, inClass_eq hsome, ofMethods_eq hsome,
      List.append_assoc]
    obtain ⟨hsuperclass₁, hsecond⟩ :=
      superclassFindings_into hinner hname.lexeme hsuperclass hc.behind.left
    obtain ⟨hmethods₁, hclean⟩ := hmethods.noted _ (hinner.ofMethods _) hs.2.2 hc.behind.right
    exact ⟨.classDecl hin hname hsuperclass₁ hmethods₁,
      (complaintsOn_into hp.around hin hname.lexeme hc.clean.left).append (hsecond.append hclean)⟩
  | .branch hcond ha hb, hs, hc => by
    have hyes := Stmt.findings_fst ctx _ scopes hs.2.1
    have hyes' := ha.behind ctx scopes' hs.2.1
    rw [hs.2.2.1] at hyes hyes'
    rw [findings_branch, findings_branch, hyes, hyes'] at hc
    rw [findings_branch, hyes']
    obtain ⟨hcond₁, hfirst⟩ := hcond.noted ctx hp hs.1 hc.left.left
    obtain ⟨ha₁, hsecond⟩ := ha.noted ctx hp hl hs.2.1 hc.left.right
    obtain ⟨hb₁, hclean⟩ := hb.noted ctx hp hl (else_start hs.2.2.2) hc.right
    exact ⟨.branch hcond₁ ha₁ hb₁, (hfirst.append hsecond).append hclean⟩
  | .whileLoop hcond h, hs, hc =>
    have ⟨hcond₁, hfirst⟩ := hcond.noted ctx hp hs.1 hc.left
    have ⟨h₁, hclean⟩ := h.noted ctx hp no_loop hs.2.1 hc.right
    ⟨.whileLoop hcond₁ h₁, hfirst.append hclean⟩
  | .forLoop hinit hcond hi hbody, hs, hc => by
    have hstart := optionFindings_start ctx ([] :: scopes) hs.1
    have hstart' := hinit.behind_start ctx ([] :: scopes') hs.1
    have hinner := hp.push.adding fun n hn => ⟨innermost_shared slots, start_plain hs.1 n hn⟩
    rw [findings_forLoop, findings_forLoop, hstart, hstart'] at hc
    rw [findings_forLoop, hstart']
    obtain ⟨hinit₁, hfirst⟩ := hinit.noted ctx hp.push no_loop hs.1 hc.left.left.left
    obtain ⟨hcond₁, hsecond⟩ := hcond.noted ctx hinner hs.2.1 hc.left.left.right
    obtain ⟨hi₁, hthird⟩ := hi.noted ctx hinner hs.2.2.1 hc.left.right
    obtain ⟨hbody₁, hclean⟩ := hbody.noted ctx hinner no_loop hs.2.2.2.1 hc.right
    exact ⟨.forLoop hinit₁ hcond₁ hi₁ hbody₁,
      ((hfirst.append hsecond).append hthird).append hclean⟩
  | .unrolled hunrolls hinit hcond hi hbody, hs, hc => by
    have hstart := optionFindings_start ctx ([] :: scopes) hs.1
    have hstart' := hinit.behind ctx ([] :: scopes')
    have hinner := hp.push.adding fun n hn => ⟨innermost_shared slots, start_plain hs.1 n hn⟩
    have hbehind := fun inner =>
      (hbody.behind ctx inner hs.2.2.2.1).trans (congrArg inner.adding hs.2.2.2.2)
    rw [findings_forLoop, hstart, asWhile_findings ctx hstart' (hbehind _)] at hc
    rw [asWhile_findings ctx hstart' (hbehind _)]
    obtain ⟨hn, hf, hf'⟩ := hc
    rw [Stmt.names] at hn
    simp only [List.append_subset] at hn hf hf'
    obtain ⟨⟨⟨hninit, hncond⟩, hni⟩, hnbody⟩ := hn
    obtain ⟨⟨⟨hfinit, hfcond⟩, hfi⟩, hfbody⟩ := hf
    obtain ⟨hfinit', hfcond', hfbody', hfi'⟩ := hf'
    obtain ⟨hinit₁, hfirst⟩ :=
      hinit.noted ctx hp.push (innermost_shared slots) hs.1 ⟨hninit, hfinit, hfinit'⟩
    obtain ⟨hcond₁, hsecond⟩ := hcond.noted ctx hinner hs.2.1 ⟨hncond, hfcond, hfcond'⟩
    obtain ⟨hi₁, hthird⟩ := hi.noted ctx hinner.pushAdded hs.2.2.1 ⟨hni, hfi, hfi'⟩
    obtain ⟨hbody₁, hclean⟩ := hbody.noted ctx hinner.pushAdded
      (LoopAround.body hinner hni hs.2.2.1 hfi) hs.2.2.2.1 ⟨hnbody, hfbody, hfbody'⟩
    exact ⟨.unrolled hunrolls hinit₁ hcond₁ hi₁ hbody₁,
      hfirst.append (hsecond.append (hclean.append hthird))⟩
  | .block hapart h, hs, hc => by
    have hloop := Option.forall_mem_map.mpr fun loop hmem => (hl loop hmem).enter
    have ⟨h₁, hclean⟩ := h.noted ctx hp.push hloop (Option.forall_mem_map.mpr hapart) hs hc
    exact ⟨.block hapart h₁, hclean⟩
  | .ret hk h, hs, hc => by
    rw [Stmt.findings, Stmt.findings, h.isSome_eq] at hc
    rw [Stmt.findings, h.isSome_eq]
    have ⟨h₁, hclean⟩ := h.noted ctx hp hs hc.behind
    exact ⟨.ret hk h₁, (returnComplaints_into hc.clean.left).append hclean⟩
  | .leave hk, _, _ => ⟨.leave hk, .nil⟩
  | .next hnone hk, _, _ => ⟨.next hnone hk, .nil⟩
  | .continued hi hk, _, hc => by
    obtain ⟨_, hplace, hshaped, hfound⟩ := hl _ rfl
    rw [asNext_findings] at hc
    rw [asNext_findings]
    have ⟨hi₁, hclean⟩ := hi.noted ctx hplace.pushAdded hshaped
      ⟨List.Subset.refl _, hfound, hc.found'⟩
    exact ⟨.continued hi₁ hk, hclean⟩

theorem OptionStmtInto.noted (ctx : Context) {names : List String} {l : Option Loop} {slots : List Slot}
    {scopes scopes' : Scopes} (hp : PlaceInto names slots scopes scopes')
    (hl : ∀ loop ∈ l, LoopAround ρ ctx scopes' loop) {s s' : Option Stmt} :
    OptionStmtInto R l slots s s' → startShaped Token.Spelled s →
      ρ.Covers names (optionNames s) (optionFindings ctx scopes s).2 (optionFindings ctx scopes' s').2 →
      OptionStmtInto (R.noted ρ.table ρ.table') l slots s s' ∧ Clean (optionFindings ctx scopes' s').2
  | .none, _, _ => ⟨.none, .nil⟩
  | .some h, hs, hc =>
    have ⟨h₁, hclean⟩ := h.noted ctx hp hl hs hc
    ⟨.some h₁, hclean⟩

theorem StartInto.noted (ctx : Context) {names : List String} {slots : List Slot}
    {scopes scopes' : Scopes} (hp : PlaceInto names slots scopes scopes') (hin : Innermost slots)
    {s s' : Option Stmt} :
    StartInto R slots s s' → startShaped Token.Spelled s →
      ρ.Covers names (optionNames s) (optionFindings ctx scopes s).2 (optionFindings ctx scopes' s').2 →
      StartInto (R.noted ρ.table ρ.table') slots s s' ∧ Clean (optionFindings ctx scopes' s').2
  | .none, _, _ => ⟨.none, .nil⟩
  | .expr h, hs, hc =>
    have ⟨h₁, hclean⟩ := h.noted ctx hp hs hc
    ⟨.expr h₁, hclean⟩
  | .varDecl hname h, hs, hc => by
    rw [optionFindings, optionFindings, Stmt.findings, Stmt.findings, hname.lexeme] at hc
    rw [optionFindings, Stmt.findings, hname.lexeme]
    obtain ⟨h₁, hclean⟩ := h.noted ctx (hp.declare hin hs.1.plain) hs.2 hc.behind
    exact ⟨.varDecl hname h₁,
      (complaintsOn_into hp.around hin hname.lexeme hc.clean.left).append hclean⟩

theorem StmtsInto.noted (ctx : Context) {names : List String} {l : Option Loop} {slots : List Slot}
    {scopes scopes' : Scopes} (hp : PlaceInto names slots scopes scopes')
    (hl : ∀ loop ∈ l, LoopAround ρ ctx scopes' loop) {ss ss' : List Stmt}
    (hapart : ∀ loop ∈ l, ∀ n ∈ declaredBy ss, n ∉ optionExprNames loop.increment) :
    StmtsInto R l slots ss ss' → stmtsShaped Token.Spelled ss →
      ρ.Covers names (stmtNames ss) (bodyFindings ctx scopes ss).2 (bodyFindings ctx scopes' ss').2 →
      StmtsInto (R.noted ρ.table ρ.table') l slots ss ss' ∧ Clean (bodyFindings ctx scopes' ss').2
  | .nil, _, _ => ⟨.nil, .nil⟩
  | .cons h hrest, hs, hc => by
    have hbehind := Stmt.findings_fst ctx _ scopes hs.1
    have hbehind' := h.behind ctx scopes' hs.1
    rw [bodyFindings_cons, bodyFindings_cons, hbehind, hbehind'] at hc
    rw [bodyFindings_cons, hbehind']
    have hdeclared := fun n hn => And.intro (h.declares_in n hn) (declared_plain hs.1 hn)
    have hfirst : ∀ loop ∈ l, ∀ n ∈ Stmt.declared? _, n ∉ optionExprNames loop.increment :=
      fun loop hmem n hn => hapart loop hmem n (List.mem_filterMap.mpr ⟨_, List.mem_cons_self, hn⟩)
    have hmore : ∀ loop ∈ l, ∀ n ∈ declaredBy _, n ∉ optionExprNames loop.increment :=
      fun loop hmem n hn => hapart loop hmem n (declaredBy_later hn)
    obtain ⟨h₁, hclean⟩ := h.noted ctx hp hl hs.1 hc.left
    obtain ⟨hrest₁, hcleans⟩ := hrest.noted ctx (hp.adding hdeclared)
      (fun loop hmem => (hl loop hmem).adding (hfirst loop hmem)) hmore hs.2 hc.right
    exact ⟨.cons h₁ hrest₁, hclean.append hcleans⟩

end

/-- **What scoping finds out about a written-out program.** -/
theorem resolve_noted {program program' : List Stmt} (h : StmtsInto R none [] program program')
    (hs : stmtsShaped Token.Spelled program) (hf : resolve program ⊆ ρ.found)
    (hf' : resolve program' ⊆ ρ.found') :
    StmtsInto (R.noted ρ.table ρ.table') none [] program program' ∧ Clean (resolve program') := by
  rw [resolve_eq] at hf hf' ⊢
  exact h.noted _ .top no_loop no_loop hs ⟨List.Subset.refl (stmtNames program), hf, hf'⟩

end Walk

end Lox
