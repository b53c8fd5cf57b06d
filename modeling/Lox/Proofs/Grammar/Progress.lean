import Lox.Proofs.Grammar.Fuel

/-!
# The parser ends on every list of tokens

The tokens of a parse are a buffer with an end in it, and the parser a place in that buffer. This is
so whatever the tokens are: none at all, without an end, or with ends between them.

* `Cursor.At s tokens i`: the cursor `s` stands at the place `i` of the buffer, not behind its first
  end.
* `rule_progress`: from there every rule, with fuel for the tokens, comes to an outcome at a place
  that is no earlier and still not behind the end; a declaration in front of the end takes a token.
* `parse_run`: how much more fuel than enough the program is given is of no account.
-/

namespace Lox.Syntax

/-! ## 1. The buffer -/

/-- Tokens with an end behind them, put there if the last of them is none. -/
def buffer (tokens : List Token) : List Token :=
  if tokens.getLast?.any (·.kind = .eof) then tokens else tokens ++ [missingEnd tokens]

/-- The place of the first end in a buffer. -/
def firstEnd (tokens : List Token) : Nat := (buffer tokens).findIdx (·.kind = .eof)

/-- A cursor stands at a place of the buffer of some tokens, not behind the first end. -/
structure Cursor.At (s : Cursor) (tokens : List Token) (i : Nat) : Prop where
  le : i ≤ firstEnd tokens
  ahead : s.ahead = ((buffer tokens).take (firstEnd tokens)).drop i
  eof : (buffer tokens)[firstEnd tokens]? = some s.eof

section Buffer

variable {tokens : List Token} {s s' : Cursor} {i : Nat}

theorem buffer_cases (tokens : List Token) :
    (buffer tokens = tokens ∧ ∃ t ∈ tokens, t.kind = .eof) ∨
      buffer tokens = tokens ++ [missingEnd tokens] := by
  unfold buffer
  split
  · rename_i h
    rcases hlast : tokens.getLast? with _ | t <;> rw [hlast] at h
    · cases h
    · exact .inl ⟨rfl, t, List.mem_of_getLast? hlast, of_decide_eq_true h⟩
  · exact .inr rfl

theorem firstEnd_lt (tokens : List Token) : firstEnd tokens < (buffer tokens).length := by
  refine List.findIdx_lt_length_of_exists ?_
  rcases buffer_cases tokens with ⟨e, t, ht, hk⟩ | e <;> rw [e]
  · exact ⟨t, ht, decide_eq_true hk⟩
  · exact ⟨missingEnd tokens, List.mem_append_right _ (List.mem_singleton_self _), rfl⟩

/-- The buffer up to its first end is the tokens up to theirs. -/
theorem buffer_take (tokens : List Token) :
    (buffer tokens).take (firstEnd tokens) = tokens.takeWhile (·.kind ≠ .eof) := by
  have h : (buffer tokens).take (firstEnd tokens) = (buffer tokens).takeWhile (·.kind ≠ .eof) := by
    rw [List.takeWhile_eq_take_findIdx_not]
    simp [firstEnd]
  rw [h]
  rcases buffer_cases tokens with ⟨e, -⟩ | e <;> rw [e]
  rw [List.takeWhile_append]
  split
  · rename_i hall
    rw [(List.takeWhile_prefix _).eq_of_length hall]
    simp [missingEnd]
  · rfl

/-- The first end of the buffer is the one that a parse of the tokens goes by. -/
theorem buffer_end (tokens : List Token) : (buffer tokens)[firstEnd tokens]?
    = some ((tokens.find? (·.kind = .eof)).getD (missingEnd tokens)) := by
  rw [firstEnd, ← List.find?_eq_getElem?_findIdx]
  rcases buffer_cases tokens with ⟨e, t, ht, hk⟩ | e <;> rw [e]
  · rcases hfind : tokens.find? (·.kind = .eof) with _ | u
    · exact absurd hk (by simpa using List.find?_eq_none.mp hfind t ht)
    · rw [hfind]
      rfl
  · rw [List.find?_append]
    cases tokens.find? (·.kind = .eof) <;> rfl

theorem firstEnd_eq (tokens : List Token) :
    firstEnd tokens = (tokens.takeWhile (·.kind ≠ .eof)).length := by
  rw [← buffer_take, List.length_take, Nat.min_eq_left (Nat.le_of_lt (firstEnd_lt tokens))]

theorem firstEnd_le (tokens : List Token) : firstEnd tokens ≤ tokens.length := by
  rw [firstEnd_eq]
  exact takeWhile_length_le _ _

/-- The cursor of some tokens stands at the beginning of their buffer. -/
theorem ofTokens_at (tokens : List Token) (nextId : Nat) :
    (Cursor.ofTokens tokens nextId).At tokens 0 where
  le := Nat.zero_le _
  ahead := (buffer_take tokens).symm
  eof := buffer_end tokens

theorem Cursor.At.ended (h : s.At tokens i) : s.eof.kind = .eof := by
  have he := h.eof
  rw [firstEnd, ← List.find?_eq_getElem?_findIdx] at he
  have hk := List.find?_some he
  exact of_decide_eq_true hk

theorem Cursor.At.length (h : s.At tokens i) : s.ahead.length = firstEnd tokens - i := by
  rw [h.ahead, List.length_drop, buffer_take, ← firstEnd_eq]

/-- **The token in front of a cursor is the one at its place**, which is inside the buffer. -/
theorem Cursor.At.front (h : s.At tokens i) :
    (buffer tokens)[i]? = some s.front := by
  rcases Nat.lt_or_ge i (firstEnd tokens) with hlt | hge
  · have hi := Nat.lt_trans hlt (firstEnd_lt tokens)
    rw [Cursor.front, h.ahead, List.head?_drop, List.getElem?_take_of_lt hlt, List.getElem?_eq_getElem hi]
    rfl
  · obtain rfl := Nat.le_antisymm h.le hge
    rw [Cursor.front, List.eq_nil_of_length_eq_zero (h.length.trans (Nat.sub_self _))]
    exact h.eof

/-- **A parse goes forward in the buffer** and never behind its first end. -/
theorem Cursor.At.advances {k : Nat} (h : s.At tokens i) (hadv : Advances k s s') :
    ∃ j, i + k ≤ j ∧ s'.At tokens j := by
  obtain ⟨taken, e, hk⟩ := hadv.ahead
  refine ⟨i + taken.length, by omega, ?_, ?_, ?_⟩
  · have hle := h.le
    have hlen := h.length
    rw [e, List.length_append] at hlen
    rcases Nat.eq_zero_or_pos taken.length with hz | hpos <;> omega
  · rw [← List.drop_drop, ← h.ahead, e, List.drop_left]
  · rw [hadv.eof]
    exact h.eof

end Buffer

/-! ## 2. Every rule -/

/-- With fuel for the tokens ahead, a parse goes forward and does not starve. -/
def Ends {α : Type} (n r : Nat) (p : Parse α) : Prop :=
  ∀ s, s.eof.kind = .eof → need s.ahead r < n →
    (p.run s).1 ≠ .error .starved ∧ Advances 0 s (p.run s).2

section Rules

variable {α : Type} {n r k : Nat} {p : Parse α} {L : Language α}

theorem Reads.ends (h : Reads n r k p L) : Ends n r p := fun s he hn => by
  have h := h s he
  unfold ReadsAt at h
  generalize p.run s = o at h ⊢
  rcases o with ⟨(e | _) | x, s'⟩
  · exact ⟨(fun h => nomatch h), h⟩
  · exact absurd hn (Nat.not_lt.mpr h)
  · exact ⟨(fun h => nomatch h), h.1.weaken (Nat.zero_le k)⟩

theorem Ends.mono {q : Nat} (h : Ends n r p) (hq : r ≤ q) : Ends n q p :=
  fun s he hn => h s he (by unfold need at hn ⊢; omega)

/-- Recovery goes forward. -/
theorem Ends.recovering (h : Ends n r p) : Ends (n + 1) (r + 1) (recovering p) := fun s he hn => by
  obtain ⟨hfed, hadv⟩ := h s he (by unfold need at hn ⊢; omega)
  rw [run_recovering]
  generalize p.run s = o at hfed hadv ⊢
  rcases o with ⟨(e | _) | x, s'⟩
  · obtain ⟨taken, et, -⟩ := resume_suffix s'.ahead
    obtain ⟨before, eb, -⟩ := hadv.ahead
    refine ⟨(fun h => nomatch h), hadv.eof, hadv.errors.trans (List.prefix_append _ _), hadv.nextId,
      before ++ taken, ?_, Nat.zero_le _⟩
    show s.ahead = before ++ taken ++ resume s'.ahead
    rw [List.append_assoc, ← et, eb]
  · exact absurd rfl hfed
  · exact ⟨(fun h => nomatch h), hadv⟩

end Rules

theorem declaration_ends (loops : Nat) : ∀ n, Ends n 21 (declaration n loops)
  | 0 => fun _ _ hn => absurd hn (Nat.not_lt_zero _)
  | n + 1 => ((sound n).declarationOrFail loops).ends.recovering

/-- The keyword of a return has no part in where it ends. -/
theorem ret_ends (keyword : Token) : ∀ n, Ends n 18 (ret n keyword)
  | 0 => fun _ _ hn => absurd hn (Nat.not_lt_zero _)
  | n + 1 => Reads.ends (k := 1) (L := fun _ _ _ _ => True) fun s he => by
    rw [ret]
    refine ReadsAt.mono (ReadsAt.bind he
      (ReadsAt.before he ((sound n).expression.call (by omega) s he))
      (fun value s he => ReadsAt.expect he fun t _ s _ => ReadsAt.pure _) (by omega)) ?_
    exact fun _ _ _ _ _ => trivial

theorem program_ends (n : Nat) : Ends n 22 (program n) := fun s he hn => by
  obtain ⟨ss, s', hrun, -, hadv, -⟩ := program_run n s he hn
  rw [hrun]
  exact ⟨(fun h => nomatch h), hadv⟩

/-- **Every rule goes forward and does not starve.** -/
theorem rule_ends (n : Nat) {α : Type} (r : Rule α) : Ends n 23 (r.parse n) := by
  have h := sound n
  cases r with
  | expression => exact h.expression.ends.mono (by decide)
  | moreAssignments left => exact (h.moreAssignments left).ends.mono (by decide)
  | assignment => exact h.assignment.ends.mono (by decide)
  | conditional => exact h.conditional.ends.mono (by decide)
  | operand l => exact (h.operand l).ends.mono (Nat.le_trans (rank_le l) (by decide))
  | moreOperands l left => exact (h.moreOperands l left).ends.mono (by decide)
  | operandWithin l => exact (h.operandWithin l).ends.mono (Nat.le_trans (rankWithin_le l) (by decide))
  | unary => exact h.unary.ends.mono (by decide)
  | moreCalls left => exact (h.moreCalls left).ends.mono (by decide)
  | arguments => exact h.arguments.ends.mono (by decide)
  | primary => exact h.primary.ends.mono (by decide)
  | parameterNames => exact (names_reads n).ends.mono (by decide)
  | parameters => exact (parameters_reads n (Nat.le_refl 1)).ends.mono (by decide)
  | code f => exact (h.code f).ends.mono (by decide)
  | funDecl f => exact (h.funDecl f).ends.mono (by decide)
  | declaration loops => exact (declaration_ends loops n).mono (by decide)
  | declarationOrFail loops => exact (h.declarationOrFail loops).ends.mono (by decide)
  | classDecl => exact (h.classDecl 0).ends.mono (by decide)
  | methodsRest => exact h.methodsRest.ends.mono (by decide)
  | varDecl => exact h.varDecl.ends.mono (by decide)
  | statement loops => exact (h.statement loops).ends.mono (by decide)
  | exprStatement => exact h.exprStatement.ends.mono (by decide)
  | forLoop loops => exact (h.forLoop loops).ends.mono (by decide)
  | forInit => exact h.forInit.ends.mono (by decide)
  | whileLoop loops => exact (h.whileLoop loops).ends.mono (by decide)
  | branch loops => exact (h.branch loops).ends.mono (by decide)
  | ret keyword => exact (ret_ends keyword n).mono (by decide)
  | blockRest loops => exact (h.blockRest loops).ends
  | declarations loops => exact (h.declarations loops).ends.mono (by decide)
  | program => exact (program_ends n).mono (by decide)

/-- **How much more fuel than enough a rule is given** is of no account. -/
theorem rule_run_eq {α : Type} (r : Rule α) {n m : Nat} {s : Cursor} (he : s.eof.kind = .eof)
    (hn : need s.ahead 23 < n) (hm : need s.ahead 23 < m) : (r.parse n).run s = (r.parse m).run s := by
  rcases Nat.le_total n m with h | h
  · exact (rule_steady r h s (rule_ends n r s he hn).1).symm
  · exact rule_steady r h s (rule_ends m r s he hm).1

/-- **What was complained of before** is of no account. -/
theorem rule_run_behind {α : Type} (r : Rule α) {n : Nat} {s : Cursor} (errs : List SyntaxError)
    (he : s.eof.kind = .eof) (hn : need s.ahead 23 < n) :
    (r.parse n).run (s.behind errs) = (((r.parse n).run s).1, ((r.parse n).run s).2.behind errs) := by
  rw [rule_run_eq r (s := s.behind errs) he hn (Nat.lt_succ_of_lt hn)]
  exact rule_steady_succ n r s (rule_ends n r s he hn).1

/-! ## 3. From every place of the buffer -/

section Places

variable {tokens : List Token} {s : Cursor} {i n : Nat}

theorem Cursor.At.fuel (h : s.At tokens i) (hn : fuelFor tokens.length ≤ n) :
    need s.ahead 23 < n := by
  have hlen := h.length
  have hle := firstEnd_le tokens
  unfold fuelFor at hn
  unfold need
  omega

/-- **Every rule ends at a place no earlier**, with the outcome that all fuel for the tokens gives. -/
theorem rule_progress {α : Type} (r : Rule α) (h : s.At tokens i) (hn : fuelFor tokens.length ≤ n) :
    ((r.parse n).run s).1 ≠ .error .starved ∧
    (r.parse n).run s = (r.parse (fuelFor tokens.length)).run s ∧
    ∃ j, i ≤ j ∧ ((r.parse n).run s).2.At tokens j := by
  obtain ⟨hfed, hadv⟩ := rule_ends n r s h.ended (h.fuel hn)
  exact ⟨hfed, rule_run_eq r h.ended (h.fuel hn) (h.fuel (Nat.le_refl _)), h.advances hadv⟩

/-- **A declaration in front of the end takes a token**, whether it can be read or is recovered
    from. -/
theorem declaration_progress (loops : Nat) (h : s.At tokens i) (hi : i < firstEnd tokens)
    (hn : fuelFor tokens.length ≤ n) :
    ∃ o s' j, (declaration n loops).run s = (.ok o, s') ∧ i < j ∧ s'.At tokens j := by
  have hs : s.ahead ≠ [] := fun e => by
    have hlen := h.length
    rw [e, List.length_nil] at hlen
    omega
  have hread := (sound n).declaration loops s h.ended hs
  have hfuel := h.fuel hn
  unfold ReadsAt at hread
  rcases hrun : (declaration n loops).run s with ⟨(e | _) | o, s'⟩ <;> rw [hrun] at hread
  · exact absurd hrun (declaration_run_ne_error n loops s s' e)
  · unfold Outcome need at hread
    unfold need at hfuel
    omega
  · obtain ⟨j, hj, hat⟩ := h.advances hread.1
    exact ⟨o, s', j, rfl, hj, hat⟩

end Places

/-! ## 4. The whole parse -/

section Parse

variable {tokens rest : List Token} {eof : Token} {nextId : Nat}

/-- **A parse with any fuel that suffices.** -/
theorem parse_run (nextId : Nat) {n : Nat} (hn : need (tokens.takeWhile (·.kind ≠ .eof)) 23 < n) :
    ∃ statements last, (program n).run (Cursor.ofTokens tokens nextId) = (.ok statements, last) ∧
      last.ahead = [] ∧ Advances 0 (Cursor.ofTokens tokens nextId) last ∧
      parse tokens nextId = ⟨statements, last.errors, last.nextId⟩ := by
  have hend := ofTokens_ended tokens nextId
  obtain ⟨statements, last, hrun, hahead, hadv, -⟩ :=
    program_run n _ hend (Nat.lt_trans (Nat.lt_succ_self _) hn)
  refine ⟨statements, last, hrun, hahead, hadv, ?_⟩
  have hfuel : (program (fuelFor tokens.length)).run (Cursor.ofTokens tokens nextId)
      = (.ok statements, last) :=
    (rule_run_eq .program hend ((ofTokens_at tokens nextId).fuel (Nat.le_refl _)) hn).trans hrun
  rw [parse, hfuel]

theorem takeWhile_cut (heof : eof.kind = .eof) : (tokens ++ eof :: rest).takeWhile (·.kind ≠ .eof)
    = (tokens ++ [eof]).takeWhile (·.kind ≠ .eof) := by
  simp [List.takeWhile_append, heof]

/-- What stands behind an end is never seen. -/
theorem ofTokens_cut (heof : eof.kind = .eof) :
    Cursor.ofTokens (tokens ++ eof :: rest) nextId = Cursor.ofTokens (tokens ++ [eof]) nextId := by
  have hfind : ((tokens ++ eof :: rest).find? (·.kind = .eof))
      = (tokens ++ [eof]).find? (·.kind = .eof) := by
    simp [List.find?_append, heof]
  obtain ⟨t, ht⟩ := Option.isSome_iff_exists.mp (List.find?_isSome (p := fun t : Token => t.kind = .eof)
    |>.mpr ⟨eof, List.mem_append_right tokens (List.mem_singleton_self eof), decide_eq_true heof⟩)
  rw [Cursor.ofTokens, Cursor.ofTokens, takeWhile_cut heof, hfind, ht]
  rfl

theorem parse_cut (heof : eof.kind = .eof) :
    parse (tokens ++ eof :: rest) nextId = parse (tokens ++ [eof]) nextId := by
  have hle := takeWhile_length_le (fun t : Token => t.kind ≠ .eof) (tokens ++ [eof])
  have hn : need ((tokens ++ [eof]).takeWhile (·.kind ≠ .eof)) 23
      < fuelFor (tokens ++ [eof]).length := by
    unfold need fuelFor
    omega
  obtain ⟨ss, s, hrun, -, -, hparse⟩ := parse_run nextId hn
  obtain ⟨ss', s', hrun', -, -, hparse'⟩ := @parse_run (tokens ++ eof :: rest) nextId _
    (by rwa [takeWhile_cut heof])
  rw [ofTokens_cut heof, hrun] at hrun'
  cases hrun'
  rw [hparse, hparse']

end Parse

/-- **The parser is total on every list of tokens**: with an end in it or not, in its midst or not.
    The program ends at the first end of the buffer, and all fuel that suffices gives the same; from
    a place of the buffer, where the token in front is in range, every rule ends at a place no
    earlier and not behind the first end; a declaration in front of it takes a token; and no token
    behind it counts. -/
theorem parse_total (tokens : List Token) (nextId : Nat) :
    (∃ statements last, parse tokens nextId = ⟨statements, last.errors, last.nextId⟩ ∧
      last.At tokens (firstEnd tokens) ∧ ∀ n, fuelFor tokens.length ≤ n →
        (program n).run (Cursor.ofTokens tokens nextId) = (.ok statements, last)) ∧
    (Cursor.ofTokens tokens nextId).At tokens 0 ∧
    (∀ s i, s.At tokens i →
      (∃ t, (buffer tokens)[i]? = some t ∧ peek.run s = (.ok t, s)) ∧
      ∀ n, fuelFor tokens.length ≤ n →
        (∀ {α : Type} (r : Rule α), ((r.parse n).run s).1 ≠ .error .starved ∧
          (r.parse n).run s = (r.parse (fuelFor tokens.length)).run s ∧
          ∃ j, i ≤ j ∧ j ≤ firstEnd tokens ∧ ((r.parse n).run s).2.At tokens j) ∧
        (i < firstEnd tokens → ∀ loops, ∃ o s' j,
          (declaration n loops).run s = (.ok o, s') ∧ i < j ∧ j ≤ firstEnd tokens ∧
          s'.At tokens j)) ∧
    (∀ eof rest, eof.kind = .eof →
      parse (tokens ++ eof :: rest) nextId = parse (tokens ++ [eof]) nextId) := by
  have hstart := ofTokens_at tokens nextId
  refine ⟨?_, hstart, fun s i hat => ⟨⟨_, hat.front, rfl⟩, fun n hn => ⟨fun r => ?_, ?_⟩⟩,
    fun eof rest heof => parse_cut heof⟩
  · obtain ⟨statements, last, hrun, hahead, hadv, hparse⟩ :=
      parse_run nextId (hstart.fuel (Nat.le_refl _))
    obtain ⟨j, -, hat⟩ := hstart.advances hadv
    refine ⟨statements, last, hparse, ?_, fun n hn => ?_⟩
    · -- nothing is ahead only at the end
      have hlen := hat.length
      rw [hahead, List.length_nil] at hlen
      rwa [Nat.le_antisymm (Nat.le_of_sub_eq_zero hlen.symm) hat.le]
    · exact (rule_progress .program hstart hn).2.1.trans hrun
  · obtain ⟨hfed, hsame, j, hj, hat'⟩ := rule_progress r hat hn
    exact ⟨hfed, hsame, j, hj, hat'.le, hat'⟩
  · intro hi loops
    obtain ⟨o, s', j, hrun, hj, hat'⟩ := declaration_progress loops hat hi hn
    exact ⟨o, s', j, hrun, hj, hat'.le, hat'⟩

/-- `) else` with neither an end nor a statement: at the parenthesis, the first declaration fails
    and takes both. -/
theorem parse_total_stray :
    let word (k : Token.Kind) (w : String) : Token := ⟨k, w, ⟨1, 0⟩⟩
    let tokens : List Token := [word .rightParen ")", word .kwElse "else"]
    (Cursor.ofTokens tokens 7).At tokens 0 ∧ firstEnd tokens = 2 ∧
    ∃ o s' j, (declaration (fuelFor 2) 0).run (Cursor.ofTokens tokens 7) = (.ok o, s') ∧
      0 < j ∧ j ≤ firstEnd tokens ∧ s'.At tokens j := by
  intro word tokens
  obtain ⟨-, hstart, hplaces, -⟩ := parse_total tokens 7
  have hend : firstEnd tokens = 2 := by decide
  refine ⟨hstart, hend, ?_⟩
  exact ((hplaces _ 0 hstart).2 (fuelFor 2) (Nat.le_refl _)).2 (by rw [hend]; decide) 0

end Lox.Syntax
