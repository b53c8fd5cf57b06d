import Lox.Proofs.Scope.Walk
import Lox.Proofs.Token.Spelling

/-!
# Where `this` and `super` stand

No name of a program is spelled `this` or `super`, so only the layers of a class have these names.

* `Layer.Named`: a layer has `this`, or `super`, exactly where it is the one a class makes for it.
* `InMethods layers`: there is a class around, and `InDerived layers`: the innermost one has a superclass;
  functions, blocks and loops may stand between it and the place.
* `depthIn_this`, `depthIn_methods`: `this` is that of the innermost class, and there its layer is one
  nearer than that of `super`.
* `Methodical`: a layer of `this` has a method of its class in front of it, wherever that is.
-/

namespace Lox

/-! ## 1. Layers of classes -/

/-- A name other than `this` and `super`. -/
def Plain (name : String) : Prop := name ≠ thisName ∧ name ≠ superName

/-- A scope other than those that a class makes. -/
def Region.Plain : Region → Prop
  | .block _ | .loop _ | .call _ => True
  | .super _ | .this _ => False

/-- A layer has `this`, or `super`, exactly where it is the one a class makes for it. -/
structure Layer.Named (l : Layer) : Prop where
  this : thisName ∈ l.names ↔ ∃ s, l.region = .this s
  super : superName ∈ l.names ↔ ∃ s, l.region = .super s

/-- There is a class around. -/
inductive InMethods : List Layer → Prop where
  | methods {s names outer} : InMethods (⟨.this s, names⟩ :: outer)
  | deeper {l layers} (hl : l.region.Plain) (h : InMethods layers) : InMethods (l :: layers)

/-- The innermost class around has a superclass. -/
inductive InDerived : List Layer → Prop where
  | methods {s names names' outer} : InDerived (⟨.this s, names⟩ :: ⟨.super s, names'⟩ :: outer)
  | deeper {l layers} (hl : l.region.Plain) (h : InDerived layers) : InDerived (l :: layers)

theorem Token.Is.plain {t : Token} (h : t.Is .identifier Token.Spelled) : Plain t.lexeme :=
  h.2.name h.1

theorem Layer.Named.of_plain {l : Layer} (hr : l.region.Plain) (hn : ∀ n ∈ l.names, Plain n) :
    l.Named := by
  obtain ⟨r, names⟩ := l
  refine ⟨⟨fun h => absurd rfl (hn _ h).1, fun ⟨s, hs⟩ => ?_⟩,
    ⟨fun h => absurd rfl (hn _ h).2, fun ⟨s, hs⟩ => ?_⟩⟩
  · cases hs
    exact hr.elim
  · cases hs
    exact hr.elim

/-- A layer that no class makes has neither `this` nor `super`. -/
theorem Layer.Named.plain {l : Layer} (hn : l.Named) (hr : l.region.Plain) :
    thisName ∉ l.names ∧ superName ∉ l.names := by
  refine ⟨fun h => ?_, fun h => ?_⟩
  · obtain ⟨s, hs⟩ := hn.this.mp h
    rw [hs] at hr
    exact hr
  · obtain ⟨s, hs⟩ := hn.super.mp h
    rw [hs] at hr
    exact hr

/-- **In a class** the innermost layer that has `this` is that of the innermost class. -/
theorem depthIn_this {layers : List Layer} (h : InMethods layers) (hn : ∀ l ∈ layers, l.Named) :
    ∃ inner s names outer, layers = inner ++ ⟨.this s, names⟩ :: outer ∧
      depthIn layers thisName = some inner.length ∧ ∀ l ∈ inner, l.region.Plain := by
  induction h with
  | @methods s names outer =>
    have hfirst : thisName ∈ names := (hn _ List.mem_cons_self).this.mpr ⟨s, rfl⟩
    refine ⟨[], s, names, outer, rfl, ?_, fun l hl => absurd hl List.not_mem_nil⟩
    rw [depthIn, if_pos hfirst]
    rfl
  | @deeper l layers hl h ih =>
    obtain ⟨hlayer, hn⟩ := List.forall_mem_cons.mp hn
    obtain ⟨inner, s, names, outer, heq, hd, hinner⟩ := ih hn
    refine ⟨l :: inner, s, names, outer, by rw [heq]; rfl, ?_, List.forall_mem_cons.mpr ⟨hl, hinner⟩⟩
    rw [depthIn, if_neg (hlayer.plain hl).1, hd]
    rfl

/-- **In a class with a superclass** the innermost layer that has `super` is the one behind the
    innermost that has `this`, and both are of that class. -/
theorem depthIn_methods {layers : List Layer} (h : InDerived layers) (hn : ∀ l ∈ layers, l.Named) :
    ∃ inner s names names' outer, layers = inner ++ ⟨.this s, names⟩ :: ⟨.super s, names'⟩ :: outer ∧
      depthIn layers superName = some (inner.length + 1) ∧ ∀ l ∈ inner, l.region.Plain := by
  induction h with
  | @methods s names names' outer =>
    refine ⟨[], s, names, names', outer, rfl, ?_, fun l hl => absurd hl List.not_mem_nil⟩
    have hthis := hn _ List.mem_cons_self
    have hsuper := hn _ (List.mem_cons_of_mem _ List.mem_cons_self)
    have hfirst : superName ∉ names := fun h => by
      obtain ⟨s', hs⟩ := hthis.super.mp h
      cases hs
    have hsecond : superName ∈ names' := hsuper.super.mpr ⟨s, rfl⟩
    rw [depthIn, if_neg hfirst, depthIn, if_pos hsecond]
    rfl
  | @deeper l layers hl h ih =>
    obtain ⟨hlayer, hn⟩ := List.forall_mem_cons.mp hn
    obtain ⟨inner, s, names, names', outer, heq, hd, hinner⟩ := ih hn
    refine ⟨l :: inner, s, names, names', outer, by rw [heq]; rfl, ?_,
      List.forall_mem_cons.mpr ⟨hl, hinner⟩⟩
    rw [depthIn, if_neg (hlayer.plain hl).2, hd]
    rfl

/-! ## 2. Along the tree -/

section Steps

variable {p : Place}

theorem Place.declare_regions (p : Place) (name : String) :
    (p.declare name).layers.map Layer.region = p.layers.map Layer.region := by
  obtain ⟨ctx, layers⟩ := p
  cases layers <;> rfl

theorem named_declare {name : String} (h : ∀ l ∈ p.layers, l.Named) (hn : Plain name) :
    ∀ l ∈ (p.declare name).layers, l.Named := by
  obtain ⟨ctx, layers⟩ := p
  cases layers with
  | nil => exact h
  | cons l outer =>
    obtain ⟨hl, houter⟩ := List.forall_mem_cons.mp h
    refine List.forall_mem_cons.mpr ⟨⟨?_, ?_⟩, houter⟩
    · rw [← hl.this, List.mem_append, List.mem_singleton]
      exact ⟨fun h => h.resolve_right (Ne.symm hn.1), .inl⟩
    · rw [← hl.super, List.mem_append, List.mem_singleton]
      exact ⟨fun h => h.resolve_right (Ne.symm hn.2), .inl⟩

theorem named_push {r : Region} {names : List String} (h : ∀ l ∈ p.layers, l.Named) (hr : r.Plain)
    (hn : ∀ n ∈ names, Plain n) : ∀ l ∈ (p.push r names).layers, l.Named :=
  List.forall_mem_cons.mpr ⟨.of_plain hr hn, h⟩

theorem named_inClass {s : Stmt} {superclass : Option Reference} (h : ∀ l ∈ p.layers, l.Named) :
    ∀ l ∈ (p.inClass s superclass).layers, l.Named := by
  have hthis : Layer.Named ⟨.this s, [thisName]⟩ := by
    refine ⟨⟨fun _ => ⟨s, rfl⟩, fun _ => List.mem_singleton.mpr rfl⟩, ⟨fun h => ?_, fun ⟨_, h⟩ => ?_⟩⟩
    · exact absurd (List.mem_singleton.mp h) (by decide)
    · cases h
  have hsuper : Layer.Named ⟨.super s, [superName]⟩ := by
    refine ⟨⟨fun h => ?_, fun ⟨_, h⟩ => ?_⟩, ⟨fun _ => ⟨s, rfl⟩, fun _ => List.mem_singleton.mpr rfl⟩⟩
    · exact absurd (List.mem_singleton.mp h) (by decide)
    · cases h
  cases superclass with
  | none => exact List.forall_mem_cons.mpr ⟨hthis, h⟩
  | some ref => exact List.forall_mem_cons.mpr ⟨hthis, List.forall_mem_cons.mpr ⟨hsuper, h⟩⟩

theorem inMethods_declare {name : String} (h : InMethods p.layers) :
    InMethods (p.declare name).layers := by
  obtain ⟨ctx, layers⟩ := p
  cases h with
  | methods => exact .methods
  | deeper hl h => exact .deeper hl h

theorem inDerived_declare {name : String} (h : InDerived p.layers) :
    InDerived (p.declare name).layers := by
  obtain ⟨ctx, layers⟩ := p
  cases h with
  | methods => exact .methods
  | deeper hl h => exact .deeper hl h

end Steps

theorem declared_plain {s : Stmt} {name : String} (hs : s.Shaped Token.Spelled)
    (hd : s.declared? = some name) : Plain name := by
  cases s with
  | varDecl _ _ | classDecl _ _ _ =>
    cases hd
    exact hs.1.plain
  | funDecl d =>
    obtain ⟨name, code⟩ := d
    cases hd
    exact hs.1.plain
  | _ => cases hd

theorem declaredBy_plain {ss : List Stmt} (hs : ∀ s ∈ ss, s.Shaped Token.Spelled) :
    ∀ n ∈ declaredBy ss, Plain n := by
  intro n hn
  obtain ⟨s, hmem, hd⟩ := List.mem_filterMap.mp hn
  exact declared_plain (hs s hmem) hd

/-- What is around a place that concerns classes. -/
structure Place.Regular (p : Place) : Prop where
  named : ∀ l ∈ p.layers, l.Named
  inside : p.ctx.ofClass ≠ .none → InMethods p.layers
  derived : p.ctx.ofClass = .derived → InDerived p.layers

namespace Place.Regular

variable {p : Place}

theorem declare {name : String} (h : p.Regular) (hn : Plain name) : (p.declare name).Regular where
  named := named_declare h.named hn
  inside hi := inMethods_declare (h.inside (p.declare_ctx name ▸ hi))
  derived hd := inDerived_declare (h.derived (p.declare_ctx name ▸ hd))

theorem push {r : Region} {names : List String} (h : p.Regular) (hr : r.Plain)
    (hn : ∀ n ∈ names, Plain n) : (p.push r names).Regular :=
  ⟨named_push h.named hr hn, fun hi => .deeper hr (h.inside hi), fun hd => .deeper hr (h.derived hd)⟩

theorem inFunction {f : FunctionContext} (h : p.Regular) : (p.inFunction f).Regular :=
  ⟨h.named, h.inside, h.derived⟩

theorem inClass {s : Stmt} {superclass : Option Reference} (h : p.Regular) :
    (p.inClass s superclass).Regular := by
  refine ⟨named_inClass h.named, fun _ => ?_, fun hd => ?_⟩
  · cases superclass with
    | none | some ref => exact .methods
  · cases superclass with
    | none => cases hd
    | some ref => exact .methods

end Place.Regular

/-- **Down the tree** places stay so. -/
theorem Inside.regular {node child : Node} {p q : Place} (h : Inside node p child q)
    (hs : node.Shaped Token.Spelled) (hp : p.Regular) : q.Regular := by
  cases h with
  | lambda => exact hp.inFunction
  | initializer | superclass => exact hp.declare (And.left hs).plain
  | function => exact (hp.declare (And.left hs).plain).inFunction
  | method => exact ((hp.declare (And.left hs).plain).inClass).inFunction
  | body =>
    have hbody := stmtsShaped_iff.mp (And.right hs)
    refine hp.push trivial (List.forall_mem_append.mpr ⟨?_, declaredBy_plain fun s hm => ?_⟩)
    · exact List.forall_mem_map.mpr fun t ht => (And.left hs t ht).plain
    · exact hbody s (List.mem_append_left _ hm)
  | block =>
    refine hp.push trivial (declaredBy_plain fun s hm => ?_)
    exact stmtsShaped_iff.mp hs s (List.mem_append_left _ hm)
  | loopStart => exact hp.push trivial fun n hn => absurd hn List.not_mem_nil
  | @loopCondition _ init | @loopBody _ init | @loopIncrement _ init =>
    refine hp.push trivial (declaredBy_plain fun s hm => ?_)
    cases init with
    | none => cases hm
    | some start =>
      obtain rfl := List.mem_singleton.mp hm
      exact And.left hs
  | _ => exact hp

/-- Every place of a program is so. -/
theorem Occurs.regular {program : List Stmt} {node : Node} {p : Place}
    (h : Occurs program node p) (hs : stmtsShaped Token.Spelled program) : p.Regular := by
  induction h with
  | top =>
    exact ⟨fun l hl => absurd hl List.not_mem_nil, fun hi => absurd rfl hi, fun hd => nomatch hd⟩
  | inside h hi ih => exact hi.regular (h.shaped hs) ih

/-! ## 3. Methods in front of `this` -/

/-- The innermost layer is that of `this` in the class that a statement declares. -/
def HeadsClass (decl : Stmt) (layers : List Layer) : Prop :=
  ∃ names outer, layers = ⟨.this decl, names⟩ :: outer

/-- **In front of a layer of `this`** stands a method of its class, and nothing else. -/
inductive Methodical : List Layer → Prop where
  | nil : Methodical []
  | cons {l layers} (hl : ∀ decl, HeadsClass decl layers →
      ∃ code, l.region = .call code ∧ decl.hasMethod code) (h : Methodical layers) :
      Methodical (l :: layers)

/-- What may stand directly in a class: the code of its methods. -/
def Node.FitsClass (layers : List Layer) : Node → Prop
  | .code c => ∀ decl, HeadsClass decl layers → decl.hasMethod c
  | .expr _ | .stmt _ => ∀ decl, ¬ HeadsClass decl layers

/-- Names make no difference. -/
theorem HeadsClass.regions {decl : Stmt} {layers layers' : List Layer} (h : HeadsClass decl layers')
    (hr : layers'.map Layer.region = layers.map Layer.region) : HeadsClass decl layers := by
  obtain ⟨names, outer, rfl⟩ := h
  obtain ⟨⟨r, names'⟩, rest, rfl, rfl, -⟩ := List.map_eq_cons_iff.mp hr.symm
  exact ⟨names', rest, rfl⟩

theorem headsClass_declare {p : Place} {name : String} {decl : Stmt}
    (h : HeadsClass decl (p.declare name).layers) : HeadsClass decl p.layers :=
  h.regions (p.declare_regions name)

theorem methodical_declare {p : Place} (name : String) (h : Methodical p.layers) :
    Methodical (p.declare name).layers := by
  obtain ⟨ctx, layers⟩ := p
  cases h with
  | nil => exact .nil
  | cons hl h => exact .cons hl h

/-- A scope of its own, around a place that is not directly in a class. -/
theorem Methodical.push {l : Layer} {layers : List Layer} (h : Methodical layers)
    (hnot : ∀ decl, ¬ HeadsClass decl layers) : Methodical (l :: layers) :=
  .cons (fun decl hd => absurd hd (hnot decl)) h

theorem not_headsClass {r : Region} {names : List String} {layers : List Layer} (hr : r.Plain)
    (decl : Stmt) : ¬ HeadsClass decl (⟨r, names⟩ :: layers) := by
  rintro ⟨_, _, heq⟩
  cases heq
  exact hr

/-- **Down the tree** places stay so. -/
theorem Inside.methodical {node child : Node} {p q : Place} (h : Inside node p child q)
    (hp : Methodical p.layers) (hfits : node.FitsClass p.layers) :
    Methodical q.layers ∧ child.FitsClass q.layers := by
  cases h with
  | lambda => exact ⟨hp, fun decl hd => absurd hd (hfits decl)⟩
  | body =>
    exact ⟨.cons (fun decl hd => ⟨_, rfl, hfits decl hd⟩) hp, not_headsClass trivial⟩
  | initializer | superclass =>
    exact ⟨methodical_declare _ hp, fun decl hd => hfits decl (headsClass_declare hd)⟩
  | function =>
    exact ⟨methodical_declare _ hp, fun decl hd => absurd (headsClass_declare hd) (hfits decl)⟩
  | @method _ name superclass methods m c hm =>
    have hdeclared := methodical_declare name.lexeme hp
    have hnot : ∀ decl, ¬ HeadsClass decl (p.declare name.lexeme).layers :=
      fun decl hd => hfits decl (headsClass_declare hd)
    cases superclass with
    | none =>
      refine ⟨hdeclared.push hnot, ?_⟩
      rintro decl ⟨_, _, heq⟩
      cases heq
      exact ⟨m, hm⟩
    | some ref =>
      refine ⟨(hdeclared.push hnot).push ?_, ?_⟩
      · rintro decl ⟨_, _, heq⟩
        cases heq
      · rintro decl ⟨_, _, heq⟩
        cases heq
        exact ⟨m, hm⟩
  | loopStart | loopCondition | loopIncrement | loopBody | block =>
    exact ⟨hp.push hfits, not_headsClass trivial⟩
  | _ => exact ⟨hp, hfits⟩

/-- Every place of a program is so. -/
theorem Occurs.methodical {program : List Stmt} {node : Node} {p : Place}
    (h : Occurs program node p) : Methodical p.layers ∧ node.FitsClass p.layers := by
  induction h with
  | top => exact ⟨.nil, fun decl ⟨_, _, heq⟩ => nomatch heq⟩
  | inside _ hi ih => exact hi.methodical ih.1 ih.2

/-- The method in front of a layer of `this`. -/
theorem Methodical.front {inner outer : List Layer} {decl : Stmt} {names : List String}
    (h : Methodical (inner ++ ⟨.this decl, names⟩ :: outer)) (hinner : inner ≠ []) :
    ∃ front code names', inner = front ++ [⟨.call code, names'⟩] ∧ decl.hasMethod code := by
  induction inner with
  | nil => exact absurd rfl hinner
  | cons l inner ih =>
    cases h with
    | cons hl h =>
      cases inner with
      | nil =>
        obtain ⟨code, hcode, hmethod⟩ := hl decl ⟨_, _, rfl⟩
        obtain ⟨r, names'⟩ := l
        cases hcode
        exact ⟨[], code, names', rfl, hmethod⟩
      | cons k inner =>
        obtain ⟨front, code, names', heq, hmethod⟩ := ih h (List.cons_ne_nil _ _)
        exact ⟨l :: front, code, names', by rw [heq]; rfl, hmethod⟩

end Lox
