import Lox.Proofs.Machine.Frames
import Lox.Proofs.Session.Phases
import Lox.Proofs.Session.Visits

/-!
# Global names

The names that a program can use anywhere are those of the native functions, and those that statements
at the top declare.

* `Text.Utf8.encode_lt`: texts are in the order of their bytes.
* `Introduces`: a statement at the top gets as far as binding its name.
* `Gains`: what a step may do to the global names. `ofTop_gains`: a statement at the top adds the name
  that it introduces, and no other.
* `only_declarations_make_globals`: **the global names of a session** are those of the native functions
  and those introduced so far, and nothing else that a session does adds or removes one.
-/

namespace Lox

/-! ## 1. Texts in the order of their bytes -/

namespace Text.Utf8

/-- Bytes are in order if the first of them are, and where those agree the others. -/
theorem ofNat_cons_lt {a b : Nat} {xs ys : List UInt8} (ha : a < 256) (hb : b < 256) (hle : a ≤ b)
    (h : a = b → xs < ys) : UInt8.ofNat a :: xs < UInt8.ofNat b :: ys := by
  rw [List.cons_lt_cons_iff, UInt8.lt_iff_toNat_lt, ← UInt8.toNat_inj,
    UInt8.toNat_ofNat_of_lt' ha, UInt8.toNat_ofNat_of_lt' hb]
  rcases Nat.lt_or_eq_of_le hle with hlt | heq
  · exact .inl hlt
  · exact .inr ⟨heq, h heq⟩

/-- **Characters are in the order of their bytes**, whatever stands behind them. -/
theorem utf8EncodeChar_lt {c d : Char} (h : c < d) (xs ys : List UInt8) :
    String.utf8EncodeChar c ++ xs < String.utf8EncodeChar d ++ ys := by
  have hlt : c.val.toNat < d.val.toNat := h
  have hvalid : d.val.toNat < 0xD800 ∨ 0xDFFF < d.val.toNat ∧ d.val.toNat < 0x110000 := d.valid
  unfold String.utf8EncodeChar
  dsimp only
  generalize c.val.toNat = v at hlt
  generalize d.val.toNat = w at hlt hvalid
  -- the first byte grows with the number of bytes; of as many bytes, the first that differs decides
  by_cases hone : v ≤ 127
  · rw [if_pos hone]
    split
    · exact ofNat_cons_lt (by omega) (by omega) (by omega) (by omega)
    · split
      · exact ofNat_cons_lt (by omega) (by omega) (by omega) (by omega)
      · split <;> exact ofNat_cons_lt (by omega) (by omega) (by omega) (by omega)
  rw [if_neg hone, if_neg (show ¬ w ≤ 127 by omega)]
  by_cases htwo : v ≤ 2047
  · rw [if_pos htwo]
    split
    · exact ofNat_cons_lt (by omega) (by omega) (by omega) fun _ =>
        ofNat_cons_lt (by omega) (by omega) (by omega) (by omega)
    · split <;> exact ofNat_cons_lt (by omega) (by omega) (by omega) (by omega)
  rw [if_neg htwo, if_neg (show ¬ w ≤ 2047 by omega)]
  by_cases hthree : v ≤ 65535
  · rw [if_pos hthree]
    split
    · exact ofNat_cons_lt (by omega) (by omega) (by omega) fun _ =>
        ofNat_cons_lt (by omega) (by omega) (by omega) fun _ =>
          ofNat_cons_lt (by omega) (by omega) (by omega) (by omega)
    · exact ofNat_cons_lt (by omega) (by omega) (by omega) (by omega)
  rw [if_neg hthree, if_neg (show ¬ w ≤ 65535 by omega)]
  exact ofNat_cons_lt (by omega) (by omega) (by omega) fun _ =>
    ofNat_cons_lt (by omega) (by omega) (by omega) fun _ =>
      ofNat_cons_lt (by omega) (by omega) (by omega) fun _ =>
        ofNat_cons_lt (by omega) (by omega) (by omega) (by omega)

/-- **Texts are in the order of their bytes.** -/
theorem encode_lt {a b : String} (h : a < b) : encode a < encode b := by
  have hlex : ∀ {cs ds : List Char}, List.Lex (· < ·) cs ds →
      cs.flatMap String.utf8EncodeChar < ds.flatMap String.utf8EncodeChar := by
    intro cs ds hchars
    induction hchars with
    | @nil d ds =>
      cases hd : String.utf8EncodeChar d with
      | nil => exact absurd hd String.utf8EncodeChar_ne_nil
      | cons x tail =>
        rw [List.flatMap_cons, hd]
        exact List.nil_lt_cons x _
    | rel hcd => exact utf8EncodeChar_lt hcd _ _
    | cons _ ih => exact List.append_left_lt ih
  exact hlex (String.lt_iff_toList_lt.mp h)

/-- **Sorted names, each once, go up in their bytes.** -/
theorem encode_pairwise {names : List String} (hle : names.Pairwise (· ≤ ·)) (h : names.Nodup) :
    (names.map encode).Pairwise (· < ·) := by
  rw [List.pairwise_map]
  exact hle.imp₂ (fun _ _ hab hne => encode_lt (Std.lt_of_le_of_ne hab hne)) h

end Text.Utf8

/-- Names that are sorted, each once, go up in their bytes. -/
theorem encode_sorted {names : List String} (h : names.Nodup) :
    ((Text.sorted names).map Text.Utf8.encode).Pairwise (· < ·) :=
  Text.Utf8.encode_pairwise (Text.pairwise_sorted names)
    ((Text.sorted_perm names).nodup_iff.mpr h)

/-! ## 2. Names that a step gains -/

/-- The global names, in the order in which they came. -/
def Store.globalNames (s : Store) : List String := (s.frame globalFrame).names

/-- **What a step may do to the global names**: add some, and each of them once. -/
structure Gains (names : String → Prop) (s s' : Store) : Prop where
  size : 0 < s'.frames.size
  mem : ∀ n, n ∈ s'.globalNames ↔ n ∈ s.globalNames ∨ names n
  nodup : s.globalNames.Nodup → s'.globalNames.Nodup

section

variable {names names' : String → Prop} {s s' s'' : Store}

theorem Gains.trans (h : Gains names s s') (h' : Gains names' s' s'') :
    Gains (fun n => names n ∨ names' n) s s'' where
  size := h'.size
  mem n := by rw [h'.mem, h.mem, or_assoc]
  nodup hn := h'.nodup (h.nodup hn)

theorem Gains.congr (h : Gains names s s') (heq : ∀ n, names n ↔ names' n) : Gains names' s s' where
  size := h.size
  mem n := by rw [h.mem, heq]
  nodup := h.nodup

theorem Gains.of_eq (hsize : 0 < s'.frames.size) (heq : s'.globalNames = s.globalNames)
    (hnone : ∀ n, ¬ names n) : Gains names s s' where
  size := hsize
  mem n := by rw [heq, or_iff_left (hnone n)]
  nodup hn := heq ▸ hn

theorem Gains.define (hsize : 0 < s.frames.size) (name : String) (v : Value) :
    Gains (· = name) s (s.define Store.globals name v) := by
  have hnames : (s.define Store.globals name v).globalNames
      = ((s.frame Store.globalFrame).put name v).names := by
    show ((s.defineIn Store.globalFrame name v).frame Store.globalFrame).names = _
    rw [Store.frame_defineIn, if_pos ⟨rfl, hsize⟩]
  refine ⟨?_, fun n => ?_, fun hn => ?_⟩
  · rw [Store.size_define]
    exact hsize
  · rw [hnames, Bindings.mem_names_iff, Bindings.binds_put, Store.globalNames,
      Bindings.mem_names_iff, or_comm, @eq_comm _ name n]
  · rw [hnames]
    exact Bindings.nodup_put name v hn

end

/-! ## 3. Statements at the top -/

/-- **A statement at the top gets as far as binding its name**: a variable when its initializer has come
    to a value, a function and a class at once, whatever the superclass turns out to be. -/
inductive Introduces : Nat → Machine → Stmt → String → Prop where
  | ofVar {n m name e v m'} (h : (evaluate n e Store.globals).run m = (.ok v, m')) :
      Introduces (n + 1) m (.varDecl name e) name.lexeme
  | ofFun {n m name code} : Introduces (n + 1) m (.funDecl (.mk name code)) name.lexeme
  | ofClass {n m name superclass methods} :
      Introduces (n + 1) m (.classDecl name superclass methods) name.lexeme

theorem Introduces.declared {fuel : Nat} {m : Machine} {statement : Stmt} {name : String}
    (h : Introduces fuel m statement name) : statement.declared? = some name := by
  cases h <;> rfl

section Statements

variable {n : Nat} {m : Machine} {statement : Stmt}

/-- A call that spares the global frame leaves the global names, and the frame. -/
theorem Call.Spares.global {c : Call} (h : c.Spares Store.globalFrame) (n : Nat)
    (hsize : 0 < m.store.frames.size) : 0 < (machineAfter n m c).store.frames.size ∧
      (machineAfter n m c).store.globalNames = m.store.globalNames :=
  ⟨Nat.lt_of_lt_of_le hsize (Call.size_le n c m), h.names_eq n hsize⟩

theorem varDecl_gains (name : Token) (e : Expr) (hsize : 0 < m.store.frames.size) :
    Gains (Introduces (n + 1) m (.varDecl name e)) m.store
      ((execute (n + 1) (.varDecl name e) Store.globals).run m).2.store := by
  obtain ⟨hsize₁, hnames⟩ := Call.Spares.global (c := .evaluate e Store.globals) trivial n hsize
  rw [machineAfter] at hsize₁ hnames
  cases hrun : (evaluate n e Store.globals).run m with
  | mk r m₁ =>
    rw [hrun] at hsize₁ hnames
    cases r with
    | error stop =>
      rw [show (execute (n + 1) (.varDecl name e) Store.globals).run m = _ from run_bind_error hrun]
      refine .of_eq hsize₁ hnames fun _ h => ?_
      cases h with
      | ofVar h =>
        rw [hrun] at h
        cases h
    | ok v =>
      rw [show (execute (n + 1) (.varDecl name e) Store.globals).run m = _ from run_bind_ok hrun]
      have hvalue : Gains (fun _ => False) m.store m₁.store := .of_eq hsize₁ hnames fun _ h => h
      refine (hvalue.trans (Gains.define hsize₁ name.lexeme v)).congr fun a => ?_
      refine ⟨fun h => ?_, fun h => .inr ?_⟩
      · obtain rfl := h.resolve_left id
        exact .ofVar hrun
      · cases h
        rfl

theorem classDecl_gains (name : Token) (superclass : Option Reference) (methods : List FunDecl)
    (hsize : 0 < m.store.frames.size) :
    Gains (Introduces (n + 1) m (.classDecl name superclass methods)) m.store
      ((execute (n + 1) (.classDecl name superclass methods) Store.globals).run m).2.store := by
  have hdefine := Gains.define hsize name.lexeme .nil
  -- what follows the binding of the name binds it anew, if anything
  let m₁ : Machine := { m with store := m.store.define Store.globals name.lexeme .nil }
  let rest : Run Signal := do
    superclassOf superclass Store.globals >>= finishClass name methods Store.globals
    return .normal
  have hrest : Consists (Sparing Store.globalFrame) m₁ rest :=
    ((superclassOf_consists superclass Store.globals).bind fun parent _ _ =>
      finishClass_consists name methods Store.globals parent).bind fun _ _ _ => .pure _
  show Gains _ m.store (rest.run m₁).2.store
  refine (hdefine.trans (.of_eq (Nat.lt_of_lt_of_le hdefine.size hrest.size_le)
    (hrest.names_eq hdefine.size) fun _ h => h)).congr fun a => ?_
  refine ⟨fun h => ?_, fun h => .inl ?_⟩
  · obtain rfl := h.resolve_right id
    exact .ofClass
  · cases h
    rfl

theorem funDecl_gains (name : Token) (code : Code) (hsize : 0 < m.store.frames.size) :
    Gains (Introduces (n + 1) m (.funDecl (.mk name code))) m.store
      ((execute (n + 1) (.funDecl (.mk name code)) Store.globals).run m).2.store := by
  -- an identity for the function, and then its name
  let m₁ : Machine := { m with store := m.store.newIdentity.2 }
  have hsize₁ : 0 < m₁.store.frames.size := hsize
  have hnew : Gains (fun _ => False) m.store m₁.store := .of_eq hsize₁ rfl fun _ h => h
  refine (hnew.trans (Gains.define hsize₁ name.lexeme _)).congr fun a => ?_
  refine ⟨fun h => ?_, fun h => .inr ?_⟩
  · obtain rfl := h.resolve_left id
    exact .ofFun
  · cases h
    rfl

/-- **A statement at the top** adds the name that it introduces to the global names, and no other. -/
theorem execute_gains (fuel : Nat) (hshaped : statement.Shaped Token.Spelled)
    (hsize : 0 < m.store.frames.size) :
    Gains (Introduces fuel m statement) m.store
      ((execute fuel statement Store.globals).run m).2.store := by
  cases hdeclared : statement.declared? with
  | none =>
    have hspares : Call.Spares Store.globalFrame (.execute statement Store.globals) :=
      fun _ => ⟨hshaped, hdeclared⟩
    obtain ⟨hsize', hnames⟩ := hspares.global fuel hsize
    refine .of_eq hsize' hnames fun name h => ?_
    rw [h.declared] at hdeclared
    cases hdeclared
  | some name =>
    cases fuel with
    | zero => exact .of_eq hsize rfl fun _ h => nomatch h
    | succ n =>
      cases statement with
      | varDecl name e => exact varDecl_gains name e hsize
      | funDecl decl =>
        obtain ⟨name, code⟩ := decl
        exact funDecl_gains name code hsize
      | classDecl name superclass methods => exact classDecl_gains name superclass methods hsize
      | _ => cases hdeclared

theorem ofTop_gains (fuel : Nat) (hshaped : statement.Shaped Token.Spelled)
    (hsize : 0 < m.store.frames.size) :
    Gains (Introduces fuel m statement) m.store
      (machineAfter fuel m (.ofTop statement)).store := by
  cases statement with
  | expr e =>
    obtain ⟨hsize', hnames⟩ :=
      Call.Spares.global (c := .evaluate e Store.globals) trivial fuel hsize
    exact .of_eq hsize' hnames fun _ h => nomatch h
  | _ => exact execute_gains fuel hshaped hsize

end Statements

/-! ## 4. Steps -/

section Steps

variable {fuel : Nat} {m m' : Machine} {s : Session} {statement : Stmt}

theorem echo_store {v : Value} {r : Except Stop (Except ConsoleError Unit)}
    (h : (echo v).run m = (r, m')) : m'.store = m.store := congrArg (·.2.store) h.symm

/-- A statement of a line leaves the store as the call for it does: showing a value changes nothing in
    it. -/
theorem Settles.store_eq {outcome : Option Report} (h : Settles fuel m statement m' outcome) :
    m'.store = (machineAfter fuel m (.ofTop statement)).store := by
  cases h with
  | shown hrun hecho => exact (echo_store hecho).trans (congrArg (·.2.store) hrun.symm)
  | unshown hrun hecho => exact (echo_store hecho).trans (congrArg (·.2.store) hrun.symm)
  | finished hexpr hrun =>
    cases statement with
    | expr e => exact absurd rfl (hexpr e)
    | _ => exact congrArg (·.2.store) hrun.symm
  | failed hrun => rw [← perform_snd, hrun]

/-- One of some things, with those in front of it: the first, or one of the others. -/
theorem exists_split_cons {α : Type} {P : List α → α → Prop} {first : α} {others : List α} :
    (∃ before a rest, first :: others = before ++ a :: rest ∧ P before a) ↔
      P [] first ∨ ∃ before a rest, others = before ++ a :: rest ∧ P (first :: before) a := by
  constructor
  · rintro ⟨before, a, rest, heq, h⟩
    cases before with
    | nil =>
      cases heq
      exact .inl h
    | cons other before =>
      cases heq
      exact .inr ⟨before, a, rest, rfl, h⟩
  · rintro (h | ⟨before, a, rest, rfl, h⟩)
    · exact ⟨[], first, others, rfl, h⟩
    · exact ⟨first :: before, a, rest, rfl, h⟩

theorem not_split_nil {α : Type} {P : List α → α → Prop} :
    ¬ ∃ before a rest, [] = before ++ a :: rest ∧ P before a := by
  rintro ⟨before, a, rest, heq, -⟩
  exact List.append_ne_nil_of_right_ne_nil before (List.cons_ne_nil _ _) heq.symm

/-- **A program** adds the names that its statements introduce, up to the first that fails. -/
theorem runAll_gains (fuel : Nat) {ss : List Stmt} (hshaped : stmtsShaped Token.Spelled ss)
    (hsize : 0 < m.store.frames.size) :
    Gains (fun name => ∃ before statement rest, ss = before ++ statement :: rest ∧
      ∃ m', (runAll fuel before).run m = (.ok (), m') ∧ Introduces fuel m' statement name) m.store
      ((runAll fuel ss).run m).2.store := by
  induction ss generalizing m with
  | nil => exact .of_eq hsize rfl fun _ => not_split_nil
  | cons first rest ih =>
    have hfirst := execute_gains fuel hshaped.1 hsize
    cases hrun : (execute fuel first Store.globals).run m with
    | mk r m₁ =>
      rw [hrun] at hfirst
      cases r with
      | error stop =>
        have hstep : ∀ ss, (runAll fuel (first :: ss)).run m = (.error stop, m₁) := fun ss => by
          rw [runAll, run_bind_error hrun]
        rw [hstep]
        refine hfirst.congr fun name => ?_
        rw [exists_split_cons]
        refine ⟨fun h => .inl ⟨m, rfl, h⟩, ?_⟩
        rintro (⟨m', hm, h⟩ | ⟨before, _, _, -, m', hbefore, -⟩)
        · cases hm
          exact h
        · rw [hstep] at hbefore
          cases hbefore
      | ok signal =>
        have hstep : ∀ ss, (runAll fuel (first :: ss)).run m = (runAll fuel ss).run m₁ := fun ss => by
          rw [runAll, run_bind_ok hrun]
        rw [hstep]
        refine (hfirst.trans (ih hshaped.2 hfirst.size)).congr fun name => ?_
        rw [exists_split_cons]
        simp only [hstep]
        refine or_congr_left ⟨fun h => ⟨m, rfl, h⟩, ?_⟩
        rintro ⟨m', hm, h⟩
        cases hm
        exact h

theorem runStatement_gains (fuel : Nat) (hshaped : statement.Shaped Token.Spelled)
    (hsize : 0 < s.machine.store.frames.size) :
    Gains (Introduces fuel s.machine statement) s.machine.store
      (s.runStatement fuel statement).session.machine.store := by
  have hgains := ofTop_gains fuel hshaped hsize
  rcases runStatement_settles fuel s statement with ⟨_, hsettles, -, -⟩ | ⟨_, _, hrun, -, -, -⟩
  · rw [hsettles.store_eq]
    exact hgains
  · rw [← perform_snd, hrun] at hgains
    exact hgains

/-- **A line** adds the names that its statements introduce, up to a halt. -/
theorem runStatements_gains (fuel : Nat) {ss : List Stmt} (hshaped : stmtsShaped Token.Spelled ss)
    (hsize : 0 < s.machine.store.frames.size) :
    Gains (fun name => ∃ before statement rest, ss = before ++ statement :: rest ∧
      (s.runStatements fuel before).halt = none ∧
        Introduces fuel (s.runStatements fuel before).session.machine statement name)
      s.machine.store (s.runStatements fuel ss).session.machine.store := by
  induction ss generalizing s with
  | nil => exact .of_eq hsize rfl fun _ => not_split_nil
  | cons first rest ih =>
    have hfirst := runStatement_gains fuel hshaped.1 hsize
    cases hhalt : (s.runStatement fuel first).halt with
    | some halt =>
      have hstep := runStatements_halted hhalt
      rw [hstep]
      refine hfirst.congr fun name => ?_
      rw [exists_split_cons]
      refine ⟨fun h => .inl ⟨rfl, h⟩, ?_⟩
      rintro (⟨-, h⟩ | ⟨before, _, _, -, hbefore, -⟩)
      · exact h
      · rw [hstep, hhalt] at hbefore
        cases hbefore
    | none =>
      have hstep := runStatements_next hhalt
      rw [hstep]
      refine (hfirst.trans (ih hshaped.2 hfirst.size)).congr fun name => ?_
      rw [exists_split_cons]
      simp only [hstep]
      exact or_congr_left ⟨fun h => ⟨rfl, h⟩, fun h => h.2⟩

/-- A statement that a step begins with is one of a program that was let through. -/
theorem Begins.file_inv {source : String} {c : Call} (h : Begins fuel s (.file source) c m) :
    ∃ s' before statement rest, s.accept source = (s', some (before ++ statement :: rest)) ∧
      c = .execute statement Store.globals ∧ (runAll fuel before).run s'.machine = (.ok (), m) := by
  cases h with
  | file haccept hrun => exact ⟨_, _, _, _, haccept, rfl, hrun⟩

theorem Begins.line_inv {source : String} {c : Call} (h : Begins fuel s (.line source) c m) :
    ∃ s' before statement rest, s.accept source = (s', some (before ++ statement :: rest)) ∧
      c = .ofTop statement ∧ (s'.runStatements fuel before).halt = none ∧
      m = (s'.runStatements fuel before).session.machine := by
  cases h with
  | line haccept hhalt => exact ⟨_, _, _, _, haccept, rfl, hhalt, rfl⟩

/-- A declaration at the top is executed. -/
theorem ofTop_eq_execute {statement other : Stmt} :
    Call.ofTop statement = .execute other Store.globals ↔
      statement = other ∧ ∀ e, statement ≠ .expr e := by
  cases statement with
  | expr e => exact ⟨(nomatch ·), fun h => absurd rfl (h.2 e)⟩
  | _ =>
    refine ⟨fun h => ?_, fun h => h.1 ▸ rfl⟩
    cases h
    exact ⟨rfl, fun _ => nofun⟩

theorem store_of_accept {source : String} {s' : Session} {program : List Stmt}
    (h : s.accept source = (s', some program)) : s'.machine.store = s.machine.store := by
  obtain ⟨d, hmachine, -⟩ := accept_machine s source
  rw [h] at hmachine
  rw [show s'.machine = _ from hmachine]

/-- A statement that a step begins with introduces a name. -/
def Begun (fuel : Nat) (s : Session) (entry : Entry) (name : String) : Prop :=
  ∃ statement m, Begins fuel s entry (.execute statement Store.globals) m ∧
    Introduces fuel m statement name

theorem runFile_gains (source : String) (hsize : 0 < s.machine.store.frames.size) :
    Gains (Begun fuel s (.file source)) s.machine.store
      (s.runFile fuel source).session.machine.store := by
  rw [Session.runFile]
  rcases accept_phases s source with ⟨s', haccept, hrefused, -⟩ | ⟨k, haccept⟩
  · have hstore : s'.machine.store = s.machine.store := hrefused.store
    simp only [haccept, hstore]
    refine .of_eq hsize rfl ?_
    rintro name ⟨statement, m, hbegins, -⟩
    obtain ⟨_, _, _, _, h, -⟩ := hbegins.file_inv
    rw [haccept] at h
    cases h
  · have hgains := runAll_gains (m := s.loaded source) fuel (shaped_of_accept haccept) hsize
    simp only [haccept, settle_machine]
    refine hgains.congr fun name => ⟨?_, ?_⟩
    · rintro ⟨before, statement, rest, heq, m', hrun, h⟩
      rw [heq] at haccept
      exact ⟨statement, m', .file haccept hrun, h⟩
    · rintro ⟨statement, m', hbegins, h⟩
      obtain ⟨s', before, _, rest, haccept', heq, hrun⟩ := hbegins.file_inv
      cases heq
      obtain ⟨rfl, hprogram⟩ := Prod.mk.inj (haccept.symm.trans haccept')
      exact ⟨before, statement, rest, Option.some.inj hprogram, m', hrun, h⟩

theorem runLine_gains (source : String) (hsize : 0 < s.machine.store.frames.size) :
    Gains (Begun fuel s (.line source)) s.machine.store
      (s.runLine fuel source).session.machine.store := by
  rw [Session.runLine]
  rcases accept_phases s source with ⟨s', haccept, hrefused, -⟩ | ⟨k, haccept⟩
  · have hstore : s'.machine.store = s.machine.store := hrefused.store
    simp only [haccept, hstore]
    refine .of_eq hsize rfl ?_
    rintro name ⟨statement, m, hbegins, -⟩
    obtain ⟨_, _, _, _, h, -⟩ := hbegins.line_inv
    rw [haccept] at h
    cases h
  · have hgains := runStatements_gains (s := ⟨s.loaded source, k, .empty⟩) fuel
      (shaped_of_accept haccept) hsize
    simp only [haccept]
    refine hgains.congr fun name => ⟨?_, ?_⟩
    · rintro ⟨before, statement, rest, heq, hhalt, h⟩
      rw [heq] at haccept
      have hbegins := Begins.line haccept hhalt
      rw [ofTop_eq_execute.mpr ⟨rfl, by rintro e rfl; cases h⟩] at hbegins
      exact ⟨statement, _, hbegins, h⟩
    · rintro ⟨statement, m', hbegins, h⟩
      obtain ⟨s', before, other, rest, haccept', heq, hhalt, rfl⟩ := hbegins.line_inv
      obtain ⟨rfl, -⟩ := ofTop_eq_execute.mp heq.symm
      obtain ⟨rfl, hprogram⟩ := Prod.mk.inj (haccept.symm.trans haccept')
      exact ⟨before, other, rest, Option.some.inj hprogram, hhalt, h⟩

/-- **A step** adds the names that the statements introduce which it begins with. -/
theorem feed_gains (fuel : Nat) (entry : Entry) (hsize : 0 < s.machine.store.frames.size) :
    Gains (Begun fuel s entry) s.machine.store (s.feed fuel entry).session.machine.store := by
  cases entry with
  | file source => exact runFile_gains source hsize
  | line source => exact runLine_gains source hsize
  | outside sink input now clock =>
    refine .of_eq hsize rfl ?_
    rintro name ⟨statement, m, hbegins, -⟩
    cases hbegins

end Steps

/-! ## 5. Sessions -/

section Sessions

variable {fuel : Nat} {s : Session} {entries : List Entry}

/-- **A declaration of a session introduces a name**: a statement at the top of a source that was let
    through gets as far as binding it. -/
def Introduced (fuel : Nat) (s : Session) (entries : List Entry) (name : String) : Prop :=
  ∃ before entry later, entries = before ++ entry :: later ∧ Begun fuel (s.after fuel before) entry name

theorem after_gains (fuel : Nat) (entries : List Entry) (hsize : 0 < s.machine.store.frames.size) :
    Gains (Introduced fuel s entries) s.machine.store (s.after fuel entries).machine.store := by
  induction entries generalizing s with
  | nil => exact .of_eq hsize rfl fun _ => not_split_nil
  | cons entry entries ih =>
    have hfirst := feed_gains fuel entry hsize
    exact (hfirst.trans (ih hfirst.size)).congr fun name => (exists_split_cons
      (P := fun before entry => Begun fuel (s.after fuel before) entry name)).symm

/-- The visit is a declaration at the top of a source. -/
def AtTop (fuel : Nat) (s : Session) (entries : List Entry) (v : Visit) : Prop :=
  ∃ before entry later statement, entries = before ++ entry :: later ∧
    Begins fuel (s.after fuel before) entry v.call v.machine ∧
    v.call = .execute statement Store.globals ∧ statement.declared?.isSome = true

/-- A statement at the top spares the global frame, or else it is a declaration. -/
theorem spares_or_declares {statement : Stmt} (h : statement.Shaped Token.Spelled) :
    Call.Spares Store.globalFrame (.execute statement Store.globals) ∨
      statement.declared?.isSome = true := by
  cases hdeclared : statement.declared? with
  | none => exact .inl fun _ => ⟨h, hdeclared⟩
  | some name => exact .inr rfl

/-- What a declaration makes spares all frames. -/
theorem Makes.spares_of_declaration {n : Nat} {statement : Stmt} {env : Env} {m m' : Machine} {c : Call}
    (hm : Makes n (.execute statement env) m c m') (h : statement.declared?.isSome = true)
    (f : FrameId) : c.Spares f := by
  cases hm with
  | declared => trivial
  | _ => cases h

/-- **Every call of a session** spares the global frame, or else it is a declaration at the top. -/
theorem visited_spares (hsize : 0 < s.machine.store.frames.size) {v : Visit}
    (hv : Visited fuel s entries v) : 0 < v.machine.store.frames.size ∧
      (v.call.Spares Store.globalFrame ∨ AtTop fuel s entries v) := by
  induction hv with
  | @begins before entry later c m heq hb =>
    have hbefore := (after_gains fuel before hsize).size
    cases entry with
    | file source =>
      obtain ⟨s', front, statement, rest, haccept, rfl, hrun⟩ := hb.file_inv
      have hshaped := shaped_of_accept haccept
      have hfront := runAll_gains fuel (stmtsShaped_before hshaped)
        (show 0 < s'.machine.store.frames.size by rwa [store_of_accept haccept])
      rw [hrun] at hfront
      refine ⟨hfront.size, ?_⟩
      refine (spares_or_declares (stmtsShaped_iff.mp hshaped statement (by simp))).imp_right ?_
      exact fun hdeclared => ⟨before, _, later, statement, heq, hb, rfl, hdeclared⟩
    | line source =>
      obtain ⟨s', front, statement, rest, haccept, rfl, -, rfl⟩ := hb.line_inv
      have hshaped := shaped_of_accept haccept
      have hfront := runStatements_gains (s := s') fuel (stmtsShaped_before hshaped)
        (by rwa [store_of_accept haccept])
      refine ⟨hfront.size, ?_⟩
      cases statement with
      | expr e => exact .inl trivial
      | _ =>
        refine (spares_or_declares (stmtsShaped_iff.mp hshaped _ (by simp))).imp_right ?_
        exact fun hdeclared => ⟨before, _, later, _, heq, hb, rfl, hdeclared⟩
    | outside => cases hb
  | @makes n c m c' m' hvisited hm ih =>
    obtain ⟨hpos, hspares | ⟨_, _, _, statement, -, -, hcall, hdeclared⟩⟩ := ih
    · exact ⟨Nat.lt_of_lt_of_le hpos hm.size_le, .inl (hm.spares hpos hspares)⟩
    · cases hcall
      exact ⟨Nat.lt_of_lt_of_le hpos hm.size_le, .inl (hm.spares_of_declaration hdeclared _)⟩

theorem names_globals (s : Store) : s.names Store.globals = Text.sorted s.globalNames := by
  simp only [Store.names, Store.globals, List.filter_nil, List.append_nil]
  rfl

/-- **Only declarations at the top make global names.** After any steps, the names of a session are in
    the order of their bytes, each once, and are those of the native functions and those that statements
    at the top have introduced. No other call of the session changes them, however it ends: no block,
    loop, branch, function, method or assignment. -/
theorem only_declarations_make_globals (fuel : Nat) (sink : Sink) (input : Input) (now : Instant)
    (clock : Clock) (entries : List Entry) :
    let s := Session.start sink input now clock
    let names := (s.after fuel entries).names
    (names.map Text.Utf8.encode).Pairwise (· < ·) ∧
    (∀ n, n ∈ names ↔ n ∈ Native.all.map Native.name ∨ Introduced fuel s entries n) ∧
    ∀ v, Visited fuel s entries v → AtTop fuel s entries v ∨
      (machineAfter v.fuel v.machine v.call).store.names Store.globals
        = v.machine.store.names Store.globals := by
  intro s names
  have hsize : 0 < s.machine.store.frames.size := Nat.one_pos
  have hgains := after_gains fuel entries hsize
  have hnames : names = Text.sorted (s.after fuel entries).machine.store.globalNames :=
    names_globals _
  have hstart : s.machine.store.globalNames = Native.all.map Native.name := rfl
  refine ⟨?_, fun n => ?_, fun v hv => ?_⟩
  · rw [hnames]
    exact encode_sorted (hgains.nodup (by rw [hstart]; decide))
  · rw [hnames, (Text.sorted_perm _).mem_iff, hgains.mem, hstart]
  · obtain ⟨hpos, hspares | htop⟩ := visited_spares hsize hv
    · refine .inr ?_
      rw [names_globals, names_globals, (hspares.global v.fuel hpos).2]
    · exact .inl htop

/-- A block with a variable in it, and behind it a class that turns out to have no superclass. -/
theorem only_declarations_make_globals_block :
    let source := "\x7bvar y;\x7d class B<print\x7b\x7d"
    let s := Session.start .unlimited (.ofBytes []) 0
    "B" ∈ (s.after 5 [.file source]).names ∧
    ∃ body m, Visited 5 s [.file source] ⟨5, .execute (.block body) Store.globals, m⟩ ∧
      (machineAfter 5 m (.execute (.block body) Store.globals)).store.names Store.globals
        = m.store.names Store.globals := by
  intro source s
  let name (w : String) (column : Nat) : Token := ⟨.identifier, w, ⟨1, column⟩⟩
  let body : List Stmt := [.varDecl (name "y" 6) (.literal .nil)]
  let declared : Stmt := .classDecl (name "B" 16) (some ⟨⟨0⟩, name "print" 22⟩) []
  let m (frames : Array (Bindings Value)) : Machine :=
    ⟨⟨frames, #[], 0⟩, ⟨#[]⟩, .unlimited, .ofBytes [], 0, .steady⟩
  let loaded : Session := ⟨m #[nativeBindings], 1, .empty⟩
  have hfirst : s.accept source = (loaded, some ([] ++ .block body :: [declared])) := by cbv
  have hsecond : s.accept source = (loaded, some ([.block body] ++ declared :: [])) := hfirst
  have hblock : (runAll 5 [.block body]).run (m #[nativeBindings])
      = (.ok (), m #[nativeBindings, [("y", .nil)]]) := by cbv
  have hintroduced : Introduced 5 s [.file source] "B" :=
    ⟨[], _, [], rfl, declared, _, .file hsecond hblock, .ofClass⟩
  have hv : Visited 5 s [.file source] ⟨5, .execute (.block body) Store.globals, m #[nativeBindings]⟩ :=
    .begins (show [Entry.file source] = [] ++ _ :: [] from rfl) (.file hfirst rfl)
  have hglobals := only_declarations_make_globals 5 .unlimited (.ofBytes []) 0 .steady [.file source]
  refine ⟨(hglobals.2.1 "B").mpr (.inr hintroduced), body, _, hv, (hglobals.2.2 _ hv).resolve_left ?_⟩
  rintro ⟨_, _, _, statement, -, -, hcall, hdeclared⟩
  cases hcall
  cases hdeclared

end Sessions

end Lox
