import Mathlib
import Lox.Proofs.Grammar.Joining
import Lox.Proofs.Grammar.Progress
import Lox.Proofs.Grammar.Walls
import Lox.Proofs.Likeness.Parsing

/-!
# What a malformed statement costs

Between two programs stands a stretch of tokens that need not be a statement. What its failure takes
from the program behind it depends on what ends it.

* `parse_step`: a program as its first declaration, and the program behind that.
* `parse_behind`: a program without a complaint, with more tokens behind it.
* `parse_closed`, `closed_statement_contained`: a semicolon behind the stretch contains the failure.
* `parse_unclosed`, `unclosed_statement_resumes`: without one, the parser goes on in front of the
  keyword behind the stretch, unless that keyword is the very token that the failure is about. It is
  skipped then, and what it started is lost.
-/

namespace Lox.Syntax

/-! ## 1. A program declaration by declaration -/

section Steps

variable {ts us : List Token} {eof : Token} {errs : List SyntaxError} {a b n : Nat}

theorem parse_nothing (heof : eof.kind = .eof) : parse [eof] a = ⟨[], [], a⟩ := by
  have h := @ofTokens_append [] eof a (fun _ h => nomatch h) heof
  rw [List.nil_append] at h
  rw [parse, h]
  rfl

/-- **A program is its first declaration, then the program behind that.** -/
theorem parse_step {o : Option Stmt} (hts : ∀ t ∈ ts, t.kind ≠ .eof) (heof : eof.kind = .eof)
    (hne : ts ≠ []) (hn : need ts 23 < n)
    (h : (declaration n 0).run ⟨ts, eof, a, []⟩ = (.ok o, ⟨us, eof, b, errs⟩)) :
    parse (ts ++ [eof]) a = ⟨o.toList ++ (parse (us ++ [eof]) b).statements,
      errs ++ (parse (us ++ [eof]) b).errors, (parse (us ++ [eof]) b).nextId⟩ := by
  obtain ⟨-, hadv⟩ := rule_ends n (.declaration 0) ⟨ts, eof, a, []⟩ heof hn
  rw [show (Rule.parse n (.declaration 0)).run ⟨ts, eof, a, []⟩ = _ from h] at hadv
  obtain ⟨taken, rfl : ts = taken ++ us, -⟩ := hadv.ahead
  have hus : ∀ t ∈ us, t.kind ≠ .eof := fun t ht => hts t (List.mem_append_right taken ht)
  have hneed : need us 23 < n := by
    simp only [need, List.length_append] at hn ⊢
    omega
  obtain ⟨rest, last, hrest, -, -, hparse⟩ := @parse_run (us ++ [eof]) b n
    (by rwa [takeWhile_append_eof hus heof])
  obtain ⟨all, last', hall, -, -, hparse'⟩ := @parse_run (taken ++ us ++ [eof]) a
    (n + 1) (by rw [takeWhile_append_eof hts heof]; exact Nat.lt_succ_of_lt hn)
  rw [ofTokens_append hus heof] at hrest
  rw [ofTokens_append hts heof] at hall
  -- what stands behind the declaration is read behind the complaints of the declaration
  have hcursor : (⟨us, eof, b, errs⟩ : Cursor) = Cursor.behind errs ⟨us, eof, b, []⟩ := by
    rw [Cursor.behind, List.append_nil]
  have hbehind : (program n).run ⟨us, eof, b, errs⟩ = (.ok rest, last.behind errs) := by
    have h := rule_run_behind .program (s := ⟨us, eof, b, []⟩) errs heof hneed
    rwa [show (Rule.parse n .program).run ⟨us, eof, b, []⟩ = _ from hrest, ← hcursor] at h
  have hrun : (program (n + 1)).run ⟨taken ++ us, eof, a, []⟩
      = (.ok (o.toList ++ rest), last.behind errs) := by
    rw [program]
    show (if (taken ++ us).isEmpty then pure [] else (do
      let first ← declaration n 0
      return first.toList ++ (← program n)) : Parse (List Stmt)).run _ = _
    rw [if_neg (by simpa using hne), run_bind_ok _ h, run_bind_ok _ hbehind]
    rfl
  rw [hrun] at hall
  cases hall
  rw [hparse', hparse]
  rfl

/-- A program of one declaration. -/
theorem parse_last {o : Option Stmt} (hts : ∀ t ∈ ts, t.kind ≠ .eof) (heof : eof.kind = .eof)
    (hne : ts ≠ []) (hn : need ts 23 < n)
    (h : (declaration n 0).run ⟨ts, eof, a, []⟩ = (.ok o, ⟨[], eof, b, errs⟩)) :
    parse (ts ++ [eof]) a = ⟨o.toList, errs, b⟩ := by
  rw [parse_step hts heof hne hn h, List.nil_append, parse_nothing heof]
  dsimp only
  rw [List.append_nil, List.append_nil]

/-- What follows the tokens of a program without a complaint does not start with `else`, then. -/
theorem stops_else_append {rest : List Token} (hus : Starts (.declarations 0) us)
    (hrest : Stops (· = .kwElse) rest) : Stops (· = .kwElse) (us ++ rest) := by
  rcases hus with rfl | ⟨u, vs, rfl, hu⟩
  · exact hrest
  · exact stops_cons (decide_eq_false (startsDeclaration_ne hu).2)

/-- **A program that the rules derive, with more tokens behind it.** -/
theorem parse_derived {rest : List Token} {ss : List Stmt}
    (h : Derives .nearest .program a ts ss b) (hts : ∀ t ∈ ts ++ rest, t.kind ≠ .eof)
    (heof : eof.kind = .eof) (helse : Stops (· = .kwElse) rest) :
    parse (ts ++ rest ++ [eof]) a = ⟨ss ++ (parse (rest ++ [eof]) b).statements,
      (parse (rest ++ [eof]) b).errors, (parse (rest ++ [eof]) b).nextId⟩ := by
  induction ss generalizing a ts with
  | nil =>
    cases h with
    | noDeclarations => rfl
  | cons s ss ih =>
    cases h with
    | @moreDeclarations _ c _ _ us _ vs _ hs hss =>
      have hstop := stops_else_append (derives_starts hss) helse
      have hrun := run_declaration (@completes eof [] _ _ _ _ _ hs)
        (n := need (us ++ (vs ++ rest)) 23 + 1) (by unfold need; omega) fun _ => hstop
      obtain ⟨u, us, rfl, -⟩ := derives_starts hs
      rw [List.append_assoc] at hts
      rw [List.append_assoc (u :: us) vs rest, parse_step hts heof (by simp) (Nat.lt_succ_self _) hrun,
        ih hss fun t ht => hts t (List.mem_append_right _ ht)]
      rfl

/-- **A program without a complaint, with more tokens behind it.** -/
theorem parse_behind {rest : List Token} {end₁ : Token} (hts : ∀ t ∈ ts ++ rest, t.kind ≠ .eof)
    (hend : end₁.kind = .eof) (heof : eof.kind = .eof) (helse : Stops (· = .kwElse) rest)
    (hclean : (parse (ts ++ [end₁]) a).errors = []) :
    parse (ts ++ rest ++ [eof]) a = ⟨(parse (ts ++ [end₁]) a).statements ++
      (parse (rest ++ [eof]) (parse (ts ++ [end₁]) a).nextId).statements,
      (parse (rest ++ [eof]) (parse (ts ++ [end₁]) a).nextId).errors,
      (parse (rest ++ [eof]) (parse (ts ++ [end₁]) a).nextId).nextId⟩ :=
  parse_derived (parse_nearest (fun t ht => hts t (List.mem_append_left rest ht)) hend hclean) hts
    heof helse

end Steps

/-! ## 2. Where the parser goes on -/

section Resume

variable {xs ts : List Token} {t : Token}

theorem startsStatement_not_loose {k : Token.Kind} (h : isLoose k = true) :
    startsStatement k = false := by
  cases k <;> first | rfl | cases h

/-- Over a stretch the parser goes on to the token behind it. -/
theorem resume_stretch (hxs : ∀ u ∈ xs, isLoose u.kind = true) (hne : xs ≠ []) :
    resume (xs ++ t :: ts) = if startsStatement t.kind then t :: ts else resume (t :: ts) := by
  induction xs with
  | nil => exact absurd rfl hne
  | cons u us ih =>
    have hu : u.kind ≠ .semicolon := ne_of_loose (hxs u List.mem_cons_self) rfl
    rcases us with _ | ⟨v, us⟩
    · rw [List.cons_append, List.nil_append, resume, if_neg hu]
    · have hv := startsStatement_not_loose (hxs v (by simp))
      have ih := ih (fun w hw => hxs w (List.mem_cons_of_mem u hw)) (by simp)
      rw [List.cons_append, List.cons_append, resume, if_neg hu, ← ih]
      simp [hv]

theorem resume_semicolon (ht : t.kind = .semicolon) : resume (t :: ts) = ts := by
  rw [resume.eq_def]
  exact if_pos ht

/-- Behind a stretch with a semicolon at its end, the parser goes on behind the semicolon. -/
theorem resume_closed (hxs : ∀ u ∈ xs, isLoose u.kind = true) (ht : t.kind = .semicolon) :
    resume (xs ++ t :: ts) = ts := by
  rcases xs with _ | ⟨u, us⟩
  · exact resume_semicolon ht
  · rw [resume_stretch hxs (by simp), ht]
    exact resume_semicolon ht

/-- With nothing behind a stretch, the parser goes on at the end. -/
theorem resume_end (hxs : ∀ u ∈ xs, isLoose u.kind = true) : resume xs = [] := by
  induction xs with
  | nil => rfl
  | cons u us ih =>
    have hu : u.kind ≠ .semicolon := ne_of_loose (hxs u List.mem_cons_self) rfl
    have ih := ih fun w hw => hxs w (List.mem_cons_of_mem u hw)
    rcases us with _ | ⟨v, us⟩
    · rw [resume, if_neg hu]
    · have hv := startsStatement_not_loose (hxs v (by simp))
      rw [resume, if_neg hu, ih]
      simp [hv]

end Resume

/-! ## 3. A stretch behind which the parser goes on -/

section Stretches

variable {a b : Tail} {xs : List Token} {s s' : Cursor} {e e' : SyntaxError} {n nextId : Nat}

/-- The cursor at the beginning of a stretch, with a tail behind it. -/
def Tail.cursor (a : Tail) (xs : List Token) (nextId : Nat) : Cursor :=
  ⟨xs ++ a.ahead, a.eof, nextId, []⟩

theorem beside_cursor (nextId : Nat) (hxs : ∀ t ∈ xs, isLoose t.kind = true) :
    Beside a b xs (a.cursor xs nextId) (b.cursor xs nextId) :=
  ⟨hxs, rfl, rfl, rfl, rfl, rfl, .nil⟩

theorem Likewise.eq (h : Likewise a b e e') (hfront : a.front = b.front) : e = e' := by
  obtain ⟨c, t⟩ := e
  obtain ⟨c', t'⟩ := e'
  obtain ⟨rfl : c' = c, ⟨rfl : t' = t, -⟩ | ⟨ht, ht'⟩⟩ := h
  · rfl
  · rw [show t = t' from ht.trans (hfront.trans ht'.symm)]

/-- Two lists of complaints about tails with the same token in front. -/
theorem likewise_eq {es es' : List SyntaxError} (h : List.Forall₂ (Likewise a b) es es')
    (hfront : a.front = b.front) : es = es' := by
  induction h with
  | nil => rfl
  | cons he _ ih => rw [he.eq hfront, ih]

/-- A complaint about the end, made about another token. -/
def aboutEnd (t : Token) (e : SyntaxError) : SyntaxError :=
  if e.token.kind = .eof then ⟨e.complaint, t⟩ else e

theorem Likewise.aboutEnd (h : Likewise a b e e') (hend : a.front.kind = .eof) :
    e' = aboutEnd b.front e := by
  obtain ⟨c, t⟩ := e
  obtain ⟨c', t'⟩ := e'
  obtain ⟨rfl : c' = c, ⟨rfl : t' = t, hloose⟩ | ⟨rfl : t = a.front, rfl : t' = b.front⟩⟩ := h
  · exact (if_neg (ne_of_loose hloose rfl)).symm
  · exact (if_pos hend).symm

theorem likewise_aboutEnd {es es' : List SyntaxError} (h : List.Forall₂ (Likewise a b) es es')
    (hend : a.front.kind = .eof) : es' = es.map (Syntax.aboutEnd b.front) := by
  induction h with
  | nil => rfl
  | cons he _ ih => rw [he.aboutEnd hend, ih, List.map_cons]

/-- The complaints behind a failure of each of two cursors about the token in front of it. -/
theorem Beside.failed (h : Beside a b xs s s') (c : Complaint) :
    List.Forall₂ (Likewise a b) (s.errors ++ [⟨c, s.front⟩]) (s'.errors ++ [⟨c, s'.front⟩]) :=
  List.rel_append h.errors (.cons (h.likewise c) .nil)

theorem Beside.front (h : Beside a b xs s s') : s.front = xs.head?.getD a.front := by
  rcases xs with _ | ⟨t, xs⟩
  · exact h.front_nil.1
  · exact h.front_cons.1

/-- **What the parser makes of a stretch**, with either of two tails behind it: a statement that the
    semicolon at its end closes, or a failure in front of `xs`, the last of the stretch. -/
theorem declaration_stretch (nextId : Nat) {stretch : List Token} (ha : isWall a.front.kind = true)
    (hb : isWall b.front.kind = true) (hsame : a.front.kind = .semicolon ↔ b.front.kind = .semicolon)
    (hae : a.eof.kind = .eof) (hbe : b.eof.kind = .eof)
    (hstretch : ∀ t ∈ stretch, isLoose t.kind = true) (hne : stretch ≠ [])
    (hn : need (stretch ++ b.ahead) 23 < n) :
    ∃ o ts ts' next errs errs', List.Forall₂ (Likewise a b) errs errs' ∧
      (declaration n 0).run (a.cursor stretch nextId) = (.ok o, ⟨ts, a.eof, next, errs⟩) ∧
      (declaration n 0).run (b.cursor stretch nextId) = (.ok o, ⟨ts', b.eof, next, errs'⟩) ∧
      (a.front.kind = .semicolon ∧ ts = a.ahead.tail ∧ ts' = b.ahead.tail ∨
        o = none ∧ ∃ xs c, (∀ t ∈ xs, isLoose t.kind = true) ∧ ts = resume (xs ++ a.ahead) ∧
          ts' = resume (xs ++ b.ahead) ∧ errs.getLast? = some ⟨c, xs.head?.getD a.front⟩) := by
  obtain ⟨t, xs, rfl⟩ := List.exists_cons_of_ne_nil hne
  obtain ⟨n, rfl⟩ : ∃ m, n = m + 1 := ⟨n - 1, by omega⟩
  have hfed := (rule_ends (n + 1) (.declaration 0) (b.cursor (t :: xs) nextId) hbe hn).1
  rw [show Rule.parse (n + 1) (.declaration 0) = recovering (declarationOrFail n 0) from rfl,
    run_recovering] at hfed
  have htogether := declaration_abreast ha hb hsame hae hbe n 0
    (beside_cursor nextId hstretch)
  rw [declaration, run_recovering, run_recovering]
  generalize (declarationOrFail n 0).run (a.cursor (t :: xs) nextId) = r,
    (declarationOrFail n 0).run (b.cursor (t :: xs) nextId) = r' at htogether hfed ⊢
  cases htogether with
  | @ok x s s' h =>
    refine ⟨some x, s.ahead, s'.ahead, s.nextId, s.errors, s'.errors, h.errors, ?_, ?_,
      .inl ⟨h.closed, h.ahead, h.ahead'⟩⟩
    · rw [← h.eof]
      rfl
    · rw [← h.eof', ← h.nextId]
      rfl
  | @error c ys s s' h =>
    refine ⟨none, resume s.ahead, resume s'.ahead, s.nextId, _, _, h.failed c, ?_, ?_,
      .inr ⟨rfl, ys, c, h.loose, by rw [h.ahead], by rw [h.ahead'], ?_⟩⟩
    · rw [← h.eof]
      rfl
    · rw [← h.eof', ← h.nextId]
      rfl
    · rw [List.getLast?_concat, h.front]
  | starved => exact absurd rfl hfed

end Stretches

/-! ## 4. With a semicolon -/

section Closed

variable {stretch rest : List Token} {semicolon end₁ eof : Token} {n nextId : Nat}

/-- **A failure before a semicolon** takes the tokens up to it, and no complaint is about those
    behind it. -/
theorem declaration_closed (nextId : Nat) (hstretch : ∀ t ∈ stretch, isLoose t.kind = true)
    (hne : stretch ≠ []) (hsemi : semicolon.kind = .semicolon) (hend : end₁.kind = .eof)
    (heof : eof.kind = .eof) (hn : need (stretch ++ semicolon :: rest) 23 < n) :
    ∃ o errs next, (declaration n 0).run ⟨stretch ++ [semicolon], end₁, nextId, []⟩
        = (.ok o, ⟨[], end₁, next, errs⟩) ∧
      (declaration n 0).run ⟨stretch ++ semicolon :: rest, eof, nextId, []⟩
        = (.ok o, ⟨rest, eof, next, errs⟩) := by
  have hwall : isWall semicolon.kind = true := by rw [hsemi]; rfl
  obtain ⟨o, ts, ts', next, errs, errs', hlike, hrun, hrun', h⟩ :=
    declaration_stretch (a := ⟨[semicolon], end₁⟩) (b := ⟨semicolon :: rest, eof⟩) nextId
      hwall hwall Iff.rfl hend heof hstretch hne hn
  obtain rfl : errs = errs' := likewise_eq hlike rfl
  refine ⟨o, errs, next, ?_⟩
  rcases h with ⟨-, rfl, rfl⟩ | ⟨-, xs, c, hxs, rfl, rfl, -⟩
  · exact ⟨hrun, hrun'⟩
  · rw [resume_closed hxs hsemi] at hrun hrun'
    exact ⟨hrun, hrun'⟩

theorem ne_eof_stretch (hstretch : ∀ t ∈ stretch, isLoose t.kind = true)
    (hrest : ∀ t ∈ rest, t.kind ≠ .eof) : ∀ t ∈ stretch ++ rest, t.kind ≠ .eof :=
  List.forall_mem_append.mpr ⟨fun t ht => ne_of_loose (hstretch t ht) rfl, hrest⟩

theorem ne_eof_closed (hstretch : ∀ t ∈ stretch, isLoose t.kind = true)
    (hsemi : semicolon.kind = .semicolon) (hrest : ∀ t ∈ rest, t.kind ≠ .eof) :
    ∀ t ∈ stretch ++ semicolon :: rest, t.kind ≠ .eof :=
  ne_eof_stretch hstretch (List.forall_mem_cons.mpr ⟨by rw [hsemi]; decide, hrest⟩)

/-- No program goes on with a stretch. -/
theorem stops_stretch (hstretch : ∀ t ∈ stretch, isLoose t.kind = true) (hne : stretch ≠ []) :
    Stops (· = .kwElse) (stretch ++ rest) := by
  obtain ⟨t, ts, rfl⟩ := List.exists_cons_of_ne_nil hne
  exact stops_cons (decide_eq_false (ne_of_loose (hstretch t List.mem_cons_self) rfl))

/-- **A semicolon contains what is before it**: with a program behind it, the stretch is what it is
    alone, and the program is what it is alone but for its references. -/
theorem parse_closed (nextId : Nat) (hstretch : ∀ t ∈ stretch, isLoose t.kind = true) (hne : stretch ≠ [])
    (hsemi : semicolon.kind = .semicolon) (hend : end₁.kind = .eof) (heof : eof.kind = .eof)
    (hrest : ∀ t ∈ rest, t.kind ≠ .eof) :
    let e := parse (stretch ++ [semicolon, end₁]) nextId
    let q := parse (rest ++ [eof]) e.nextId
    parse (stretch ++ semicolon :: rest ++ [eof]) nextId
      = ⟨e.statements ++ q.statements, e.errors ++ q.errors, q.nextId⟩ ∧ e.statements.length ≤ 1 := by
  obtain ⟨o, errs, next, hrun, hrun'⟩ := declaration_closed (n := need (stretch ++ semicolon :: rest) 23 + 1)
    nextId hstretch hne hsemi hend heof (Nat.lt_succ_self _)
  have halone := parse_last (ne_eof_closed hstretch hsemi (List.forall_mem_nil _)) hend (by simp)
    (by simp only [need, List.length_append, List.length_cons, List.length_nil]; omega) hrun
  rw [List.append_assoc] at halone
  have hwhole := parse_step (ne_eof_closed hstretch hsemi hrest) heof (by simp) (Nat.lt_succ_self _) hrun'
  dsimp only
  rw [show stretch ++ [semicolon, end₁] = stretch ++ ([semicolon] ++ [end₁]) from rfl, halone]
  refine ⟨hwhole, ?_⟩
  cases o <;> simp

end Closed

section Numbers

variable {ts : List Token} {i k : Nat}

/-- The same tokens parse alike from any two references on. -/
theorem parse_renumbered (hend : ∃ t ∈ ts, t.kind = .eof) (i k : Nat) :
    ParsedLike i k .none (parse ts i) (parse ts k) :=
  parse_like i k (List.forall₂_same.mpr fun _ _ => ⟨rfl, rfl, rfl⟩) hend

/-- Whether there is a complaint does not depend on where the references start. -/
theorem parse_clean (hend : ∃ t ∈ ts, t.kind = .eof) (h : (parse ts i).errors = []) (k : Nat) :
    (parse ts k).errors = [] := by
  have hlike := (parse_renumbered hend i k).errors
  rw [h] at hlike
  exact List.forall₂_nil_left_iff.mp hlike

theorem ends_behind {t : Token} (ht : t.kind = .eof) (us : List Token) : ∃ u ∈ us ++ [t], u.kind = .eof :=
  ⟨t, List.mem_append_right us (List.mem_singleton_self t), ht⟩

end Numbers

/-- **A malformed statement closed by a semicolon is contained.** Between two programs without a
    complaint, it costs no statement of either, and all complaints are its own. Each of the three
    is what it is alone, but for the numbers of its references. -/
theorem closed_statement_contained {first stretch rest : List Token}
    {semicolon end₁ end₂ eof : Token} {nextId i k : Nat}
    (hfirst : ∀ t ∈ first, t.kind ≠ .eof) (hstretch : ∀ t ∈ stretch, isLoose t.kind = true)
    (hne : stretch ≠ []) (hsemi : semicolon.kind = .semicolon) (hrest : ∀ t ∈ rest, t.kind ≠ .eof)
    (hend₁ : end₁.kind = .eof) (hend₂ : end₂.kind = .eof) (heof : eof.kind = .eof)
    (hclean : (parse (first ++ [end₁]) i).errors = [])
    (hclean' : (parse (rest ++ [eof]) k).errors = []) :
    let p := parse (first ++ [end₁]) nextId
    let e := parse (stretch ++ [semicolon, end₂]) p.nextId
    let q := parse (rest ++ [eof]) e.nextId
    parse (first ++ stretch ++ semicolon :: rest ++ [eof]) nextId
      = ⟨p.statements ++ e.statements ++ q.statements, e.errors, q.nextId⟩ ∧
    e.statements.length ≤ 1 ∧
    ∀ j, ParsedLike j nextId .none (parse (first ++ [end₁]) j) p ∧
      ParsedLike j p.nextId .none (parse (stretch ++ [semicolon, end₂]) j) e ∧
      ParsedLike j e.nextId .none (parse (rest ++ [eof]) j) q := by
  intro p e q
  have hbehind := parse_behind
    (List.forall_mem_append.mpr ⟨hfirst, ne_eof_closed hstretch hsemi hrest⟩) hend₁ heof
    (stops_stretch hstretch hne) (parse_clean (ends_behind hend₁ first) hclean nextId)
  obtain ⟨hclosed, hone⟩ := parse_closed p.nextId hstretch hne hsemi hend₂ heof hrest
  have hq : q.errors = [] := parse_clean (ends_behind heof rest) hclean' e.nextId
  refine ⟨?_, hone, fun j => ⟨parse_renumbered (ends_behind hend₁ first) j _,
    parse_renumbered ⟨end₂, by simp, hend₂⟩ j _, parse_renumbered (ends_behind heof rest) j _⟩⟩
  rw [List.append_assoc first, hbehind, hclosed]
  show (⟨p.statements ++ (e.statements ++ q.statements), e.errors ++ q.errors, q.nextId⟩ : Parsed) = _
  rw [hq, List.append_nil, List.append_assoc]

/-- `var a; (nil; a;`, where the parenthesis is never closed. -/
theorem closed_statement_contained_group :
    let word (k : Token.Kind) (w : String) : Token := ⟨k, w, ⟨1, 0⟩⟩
    let a := word .identifier "a"
    let semicolon := word .semicolon ";"
    let eof := word .eof ""
    parse ([word .kwVar "var", a, semicolon] ++ [word .leftParen "(", word .kwNil "nil"] ++
      semicolon :: [a, semicolon] ++ [eof]) 0
      = ⟨[.varDecl a (.literal .nil), .expr (.read ⟨⟨0⟩, a⟩)], [⟨.groupClose, semicolon⟩], 1⟩ := by
  intro word a semicolon eof
  have hp : parse ([word .kwVar "var", a, semicolon] ++ [eof]) 0
      = ⟨[.varDecl a (.literal .nil)], [], 0⟩ := by cbv
  have he : parse ([word .leftParen "(", word .kwNil "nil"] ++ [semicolon, eof]) 0
      = ⟨[], [⟨.groupClose, semicolon⟩], 0⟩ := by cbv
  have hq : parse ([a, semicolon] ++ [eof]) 0 = ⟨[.expr (.read ⟨⟨0⟩, a⟩)], [], 1⟩ := by cbv
  obtain ⟨h, -⟩ := @closed_statement_contained [word .kwVar "var", a, semicolon]
    [word .leftParen "(", word .kwNil "nil"] [a, semicolon] semicolon eof eof eof 0 0 0
    (by decide) (by decide) (by decide) rfl (by decide) rfl rfl rfl (by rw [hp]) (by rw [hq])
  rw [h, hp]
  dsimp only
  rw [he]
  dsimp only
  rw [hq]
  rfl

/-! ## 5. Without a semicolon -/

section Unclosed

variable {stretch rest : List Token} {keyword end₁ eof : Token} {nextId : Nat}

theorem startsStatement_wall {k : Token.Kind} (h : startsStatement k = true) (hfun : k ≠ .kwFun) :
    isWall k = true ∧ k ≠ .semicolon ∧ k ≠ .eof ∧ k ≠ .kwElse := by
  cases k <;> first | decide | exact absurd rfl hfun | cases h

/-- Where the parser goes on after a stretch without a semicolon, before a keyword: at the keyword,
    or where the complaint was about the keyword itself, behind it. -/
def goesOnAt (complaint : SyntaxError) (rest : List Token) : List Token :=
  if complaint.token.kind = .eof then resume rest else rest

/-- **What a stretch without a semicolon costs.** Alone, it is no statement and ends with a complaint.
    If that is about a token of the stretch, the program behind it is read from its first keyword on;
    if it is about the end, it is about the keyword now, and the parser goes on behind the keyword. -/
theorem parse_unclosed (nextId : Nat) (hstretch : ∀ t ∈ stretch, isLoose t.kind = true) (hne : stretch ≠ [])
    (hkey : startsStatement keyword.kind = true) (hfun : keyword.kind ≠ .kwFun)
    (hend : end₁.kind = .eof) (heof : eof.kind = .eof) (hrest : ∀ t ∈ rest, t.kind ≠ .eof) :
    let e := parse (stretch ++ [end₁]) nextId
    e.statements = [] ∧ ∃ last, e.errors.getLast? = some last ∧
      let q := parse (goesOnAt last (keyword :: rest) ++ [eof]) e.nextId
      parse (stretch ++ keyword :: rest ++ [eof]) nextId
        = ⟨q.statements, e.errors.map (aboutEnd keyword) ++ q.errors, q.nextId⟩ := by
  obtain ⟨hwall, hsemi, hkeof, -⟩ := startsStatement_wall hkey hfun
  obtain ⟨o, ts, ts', next, errs, errs', hlike, hrun, hrun', h⟩ :=
    declaration_stretch (a := ⟨[], end₁⟩) (b := ⟨keyword :: rest, eof⟩) nextId
      (n := need (stretch ++ keyword :: rest) 23 + 1) (by rw [show Tail.front _ = end₁ from rfl, hend]; rfl)
      hwall ⟨fun h => absurd (hend.symm.trans h) (by decide), fun h => absurd h hsemi⟩ hend heof hstretch hne
      (Nat.lt_succ_self _)
  rcases h with ⟨hclosed, -⟩ | ⟨rfl, xs, c, hxs, rfl, rfl, hlast⟩
  · cases hend.symm.trans hclosed
  have hrun₁ : (declaration (need (stretch ++ keyword :: rest) 23 + 1) 0).run
      ⟨stretch, end₁, nextId, []⟩ = (.ok none, ⟨[], end₁, next, errs⟩) := by
    rwa [Tail.cursor, List.append_nil, List.append_nil, resume_end hxs] at hrun
  have halone := parse_last (fun t ht => ne_of_loose (hstretch t ht) rfl) hend hne
    (by simp only [need, List.length_append, List.length_cons]; omega) hrun₁
  have hwhole := parse_step
    (ne_eof_stretch hstretch (List.forall_mem_cons.mpr ⟨hkeof, hrest⟩)) heof (by simp)
    (Nat.lt_succ_self _) hrun'
  dsimp only
  rw [halone]
  refine ⟨rfl, _, hlast, ?_⟩
  have hgo : resume (xs ++ keyword :: rest)
      = goesOnAt ⟨c, xs.head?.getD end₁⟩ (keyword :: rest) := by
    rcases xs with _ | ⟨t, xs⟩
    · exact (if_pos hend).symm
    · rw [resume_stretch hxs (by simp), if_pos hkey]
      exact (if_neg (ne_of_loose (hxs t List.mem_cons_self) rfl)).symm
  rw [hwhole, hgo, likewise_aboutEnd hlike hend]
  rfl

end Unclosed

/-- **Where the parser goes on after a malformed statement without a semicolon.** Between a program
    without a complaint and one that starts with a keyword of a statement, there is always a
    complaint. If the last is about a token of the malformed statement, every statement of the program
    behind it is returned; if there is no such token, so that it is about the keyword, the parser skips
    the keyword and goes on behind it. -/
theorem unclosed_statement_resumes {first stretch rest : List Token} {keyword end₁ end₂ eof : Token}
    {nextId i k : Nat} (hfirst : ∀ t ∈ first, t.kind ≠ .eof)
    (hstretch : ∀ t ∈ stretch, isLoose t.kind = true) (hne : stretch ≠ [])
    (hkey : startsStatement keyword.kind = true) (hfun : keyword.kind ≠ .kwFun)
    (hrest : ∀ t ∈ rest, t.kind ≠ .eof) (hend₁ : end₁.kind = .eof) (hend₂ : end₂.kind = .eof)
    (heof : eof.kind = .eof) (hclean : (parse (first ++ [end₁]) i).errors = [])
    (hclean' : (parse (keyword :: rest ++ [eof]) k).errors = []) :
    let p := parse (first ++ [end₁]) nextId
    let e := parse (stretch ++ [end₂]) p.nextId
    e.statements = [] ∧ ∃ last, e.errors.getLast? = some last ∧
      let q := parse (goesOnAt last (keyword :: rest) ++ [eof]) e.nextId
      parse (first ++ stretch ++ keyword :: rest ++ [eof]) nextId
        = ⟨p.statements ++ q.statements, e.errors.map (aboutEnd keyword) ++ q.errors, q.nextId⟩ ∧
      (last.token.kind ≠ .eof →
        goesOnAt last (keyword :: rest) = keyword :: rest ∧ q.errors = []) := by
  intro p e
  obtain ⟨-, -, hkeof, -⟩ := startsStatement_wall hkey hfun
  have hbehind := parse_behind
    (List.forall_mem_append.mpr ⟨hfirst, ne_eof_stretch hstretch (List.forall_mem_cons.mpr ⟨hkeof, hrest⟩)⟩)
    hend₁ heof (stops_stretch hstretch hne) (parse_clean (ends_behind hend₁ first) hclean nextId)
  obtain ⟨hnone, last, hlast, hunclosed⟩ :=
    parse_unclosed p.nextId hstretch hne hkey hfun hend₂ heof hrest
  refine ⟨hnone, last, hlast, ?_, fun hinside => ?_⟩
  · rw [List.append_assoc first, hbehind, hunclosed]
  · have hgo : goesOnAt last (keyword :: rest) = keyword :: rest := if_neg hinside
    refine ⟨hgo, ?_⟩
    rw [hgo]
    exact parse_clean (ends_behind heof (keyword :: rest)) hclean' e.nextId

/-- `a b c var x;`: the complaint is about `b`, and the variable is declared. -/
theorem unclosed_statement_resumes_inside :
    let word (k : Token.Kind) (w : String) : Token := ⟨k, w, ⟨1, 0⟩⟩
    let stretch := [word .identifier "a", word .identifier "b", word .identifier "c"]
    let x := word .identifier "x"
    let eof := word .eof ""
    parse ([] ++ stretch ++ [word .kwVar "var", x, word .semicolon ";"] ++ [eof]) 0
      = ⟨[.varDecl x (.literal .nil)], [⟨.expressionEnd, word .identifier "b"⟩], 1⟩ := by
  intro word stretch x eof
  have hp : parse ([] ++ [eof]) 0 = ⟨[], [], 0⟩ := by cbv
  have he : parse (stretch ++ [eof]) 0 = ⟨[], [⟨.expressionEnd, word .identifier "b"⟩], 1⟩ := by cbv
  have hq : parse ([word .kwVar "var", x, word .semicolon ";"] ++ [eof]) 1
      = ⟨[.varDecl x (.literal .nil)], [], 1⟩ := by cbv
  obtain ⟨-, last, hlast, h, hgo⟩ := @unclosed_statement_resumes [] stretch
    [x, word .semicolon ";"] (word .kwVar "var") eof eof eof 0 0 1 (by decide) (by decide) (by decide)
    rfl (by decide) (by decide) rfl rfl rfl (by rw [hp]) (by rw [hq])
  rw [hp] at hlast h hgo
  dsimp only at hlast h hgo
  rw [he] at hlast h hgo
  obtain rfl : ⟨.expressionEnd, word .identifier "b"⟩ = last := Option.some.inj hlast
  dsimp only at h hgo
  rw [h, (hgo (by decide)).1, hq]
  rfl

/-- `nil var x;`: what the parser misses is missing at the keyword, and the declaration is lost. -/
theorem unclosed_statement_swallows :
    let word (k : Token.Kind) (w : String) : Token := ⟨k, w, ⟨1, 0⟩⟩
    let stretch := [word .kwNil "nil"]
    let rest := [word .kwVar "var", word .identifier "x", word .semicolon ";"]
    let eof := word .eof ""
    (∀ t ∈ stretch, isLoose t.kind = true) ∧ (parse ([] ++ [eof]) 0).errors = [] ∧
    parse (rest ++ [eof]) 0 = ⟨[.varDecl (word .identifier "x") (.literal .nil)], [], 0⟩ ∧
    parse ([] ++ stretch ++ rest ++ [eof]) 0 = ⟨[], [⟨.expressionEnd, word .kwVar "var"⟩], 0⟩ :=
  ⟨by decide, by cbv, by cbv, by cbv⟩

end Lox.Syntax
